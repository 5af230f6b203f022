import Tuxbox.Avia.SectionTable
import Tuxbox.Lib.Run

/-!
# Feeds of the proprietary microcode

The feed table, the PID search and parsing control tables of `avia_gt_ucode.c`
and the functions that allocate, start, stop and remove feeds.
-/

namespace Tuxbox.Avia

abbrev U16 := BitVec 16

/-- `TS`, `PES`, `SECTION` -/
inductive FeedMode
  | ts
  | pes
  | section
deriving DecidableEq, Repr

/-- `sAviaGtFeed` -/
structure AviaGtFeed where
  /-- `dest_queue`, `none` for -1. -/
  destQueue : Option Nat
  type : FeedMode
  /-- `section_idx`, `none` for 0xff. -/
  sectionIdx : Option Nat
  filtercount : Nat
  pid : U16
deriving DecidableEq

/-- `sPID_Entry`; the microcode looks at entries that are not `invalid`. -/
structure PidEntry where
  waitPusi : Bool
  invalid : Bool
  pid : BitVec 13
deriving DecidableEq

/-- The fields of `sPID_Parsing_Control_Entry` that are not constants. -/
structure ControlEntry where
  type : Nat
  qid : Nat
  psh : Bool
  filtTabIdx : Nat
  noOfFilter : Nat
deriving DecidableEq

/-- `avia_gt_ucode_info`, as `avia_gt_dmx_set_ucode_info` sets it. -/
structure UcodeInfo where
  capPes : Bool
  capSec : Bool
  capTs : Bool
  canWaitpusi : Bool
  qidOffset : Nat
  queueMode : FeedMode → Nat

/-- `AVIA_GT_UCODE_TAP_PID` -/
def tapPid : U16 := 0x2000#16

/-- `AVIA_GT_DMX_QUEUE_USER_START` -/
def queueUserStart : Nat := 3

/-- `AVIA_GT_DMX_QUEUE_VIDEO`, `AVIA_GT_DMX_QUEUE_AUDIO` -/
def queueVideo : Nat := 0

def queueAudio : Nat := 1

structure Ucode where
  tables : SectionTables
  ucodeFeed : Fin 32 → AviaGtFeed
  pidSearchTable : Fin 32 → PidEntry
  pidParsingControlTable : Fin 32 → ControlEntry
  /-- Whether the processor takes interrupts. -/
  irqsEnabled : Bool

/-- After `avia_gt_dmx_risc_init`: no feed, no valid entry of the search table. -/
def Ucode.init : Ucode :=
  { tables := SectionTables.init
    ucodeFeed := fun _ => ⟨none, .ts, none, 0xff, 0xffff#16⟩
    pidSearchTable := fun _ => ⟨true, true, 0x1fff#13⟩
    pidParsingControlTable := fun _ => ⟨0, 0, false, 0, 0⟩
    irqsEnabled := true }

namespace Ucode

/-- `pid2feedidx` -/
def pid2feedidx (u : Ucode) (pid : U16) : Option (Fin 32) :=
  (List.finRange 32).find? fun i =>
    (u.ucodeFeed i).destQueue ≠ none ∧ (u.ucodeFeed i).pid = pid

/-- The loop of `prop_ucode_free_section_filter` over the entries from `nr` on,
of which `n` are left in the table. -/
def clearRun (idx : Nat) : Nat → Nat → (Nat → Option Nat) → Nat → Option Nat
  | 0, _, map => map
  | n + 1, nr, map =>
    if map nr = some idx then clearRun idx n (nr + 1) (Function.update map nr none) else map

/-- A feed uses the section filter. -/
def Uses (u : Ucode) (idx : Nat) : Prop := ∃ i, (u.ucodeFeed i).sectionIdx = some idx

instance (u : Ucode) (idx : Nat) : Decidable (u.Uses idx) := inferInstanceAs (Decidable (∃ _, _))

/-- `prop_ucode_free_section_filter` -/
def freeSectionFilter (u : Ucode) (idx : Nat) : Ucode :=
  if 31 < idx ∨ u.tables.sectionMap idx ≠ some idx then u
  -- the filter is still set up
  else if u.Uses idx then u
  else { u with tables := { u.tables with
    sectionMap := clearRun idx (32 - idx) idx u.tables.sectionMap } }

/-- `prop_ucode_set_pid_table`; the field for the pid has 13 bits. -/
def setPidTable (u : Ucode) (entry : Fin 32) (waitPusi invalid : Bool) (pid : U16) : Ucode :=
  { u with pidSearchTable :=
      Function.update u.pidSearchTable entry (PidEntry.mk waitPusi invalid (pid.setWidth 13)) }

/-- `prop_ucode_set_pid_control_table`, for the arguments it is called with. -/
def setPidControlTable (info : UcodeInfo) (u : Ucode) (idx : Fin 32) (queueNr : Nat) (type : Nat)
    (filtTabIdx : Nat) (psh : Bool) (noOfFilter : Nat) : Ucode :=
  -- audio packets of a single program stream go to the video queue
  let target := if queueNr = queueAudio ∧ type = 0 then queueVideo else queueNr
  let entry : ControlEntry :=
    { type
      qid := (target + info.qidOffset) % 32
      psh
      filtTabIdx := filtTabIdx % 32
      noOfFilter := noOfFilter % 16 }
  { u with pidParsingControlTable := Function.update u.pidParsingControlTable idx entry }

/-- The first unused feed. -/
def unusedFeed (u : Ucode) : Option (Fin 32) :=
  (List.finRange 32).find? fun i => (u.ucodeFeed i).destQueue = none

/-- The entry of a new feed. -/
def newFeed (queueNr : Nat) (type : FeedMode) (sec : Option AviaGtSection) (pid : U16) :
    AviaGtFeed :=
  { destQueue := some queueNr
    type
    sectionIdx := sec.map (·.idx)
    filtercount := match sec with
      | some s => s.filtercount - 1
      | none => 0
    pid }

/-- `prop_ucode_alloc_generic_feed`; `none` for 0xff. The two early returns are
inside the section with interrupts disabled. -/
def allocGenericFeed (info : UcodeInfo) (u : Ucode) (queueNr : Nat) (type : FeedMode)
    (sec : Option AviaGtSection) (pid : U16) : Ucode × Option (Fin 32) :=
  match u.unusedFeed with
  | none => ({ u with irqsEnabled := false }, none)
  | some feedIdx =>
    if ∃ s ∈ sec, u.tables.sectionMap s.idx = none then ({ u with irqsEnabled := false }, none)
    else
      let feed := newFeed queueNr type sec
      let u := { u with ucodeFeed := Function.update u.ucodeFeed feedIdx (feed tapPid) }
      -- only user queues are marked as taps
      if u.pid2feedidx pid = none ∨ queueNr < queueUserStart then
        let u := u.setPidTable feedIdx info.canWaitpusi true pid
        ({ u with ucodeFeed := Function.update u.ucodeFeed feedIdx (feed pid) }, some feedIdx)
      else
        ({ u with ucodeFeed := Function.update u.ucodeFeed feedIdx (feed (tapPid ||| pid)) },
          some feedIdx)

/-- `prop_ucode_alloc_feed` -/
def allocFeed (info : UcodeInfo) (u : Ucode) (queueNr : Nat) (type : FeedMode) (pid : U16) :
    Ucode × Option (Fin 32) :=
  u.allocGenericFeed info queueNr type none pid

/-- `prop_ucode_alloc_section_feed` -/
def allocSectionFeed (info : UcodeInfo) (u : Ucode) (queueNr : Nat) (sec : AviaGtSection)
    (pid : U16) : Ucode × Option (Fin 32) :=
  u.allocGenericFeed info queueNr .section (some sec) pid

/-- `prop_ucode_start_feed` -/
def startFeed (info : UcodeInfo) (u : Ucode) (feedIdx : Fin 32) (tapFeed : Bool) : Ucode :=
  let feed := u.ucodeFeed feedIdx
  match feed.destQueue with
  | none => u
  | some queueNr =>
    let u := u.setPidControlTable info feedIdx queueNr (info.queueMode feed.type)
      (feed.sectionIdx.getD 0xff) (feed.type = .section) feed.filtercount
    -- a tap is started only if explicitly requested
    if tapFeed ∨ feed.pid &&& tapPid = 0#16 then
      u.setPidTable feedIdx info.canWaitpusi false (feed.pid &&& ~~~tapPid)
    else u

/-- `prop_ucode_start_queue_feeds` -/
def startQueueFeeds (info : UcodeInfo) (u : Ucode) (queueNr : Nat) : Ucode :=
  (List.finRange 32).foldl (fun u i =>
    if (u.ucodeFeed i).destQueue = some queueNr then u.startFeed info i false else u) u

/-- The entry of a removed feed. -/
def removed (f : AviaGtFeed) : AviaGtFeed :=
  { f with destQueue := none, pid := 0#16, sectionIdx := none }

/-- The part of `prop_ucode_stop_feed` for a feed that is removed: its section
filter goes with the last feed that uses it. -/
def removeFeed (u : Ucode) (feedIdx : Fin 32) : Ucode :=
  let feed := u.ucodeFeed feedIdx
  let u := { u with ucodeFeed := Function.update u.ucodeFeed feedIdx (removed feed) }
  match feed.sectionIdx with
  | none => u
  | some idx => if u.Uses idx then u else u.freeSectionFilter idx

/-- `prop_ucode_stop_feed` -/
def stopFeed (u : Ucode) (feedIdx : Fin 32) (remove : Bool) : Ucode :=
  if (u.ucodeFeed feedIdx).destQueue = none then u
  else
    let u := if remove then u.removeFeed feedIdx else u
    u.setPidTable feedIdx true true (u.ucodeFeed feedIdx).pid

/-- `prop_ucode_stop_queue_feeds` -/
def stopQueueFeeds (u : Ucode) (queueNr : Nat) (remove : Bool) : Ucode :=
  (List.finRange 32).foldl (fun u i =>
    if (u.ucodeFeed i).destQueue = some queueNr then u.stopFeed i remove else u) u

/-! ## What the calls do -/

section
variable {info : UcodeInfo} {u : Ucode} {queueNr : Nat} {type : FeedMode}
  {sec : Option AviaGtSection} {pid : U16}

theorem unusedFeed_spec {i : Fin 32} (h : u.unusedFeed = some i) :
    (u.ucodeFeed i).destQueue = none := by
  have := List.find?_some h
  simpa using this

theorem unusedFeed_none (h : u.unusedFeed = none) (i : Fin 32) :
    (u.ucodeFeed i).destQueue ≠ none := by
  have := List.find?_eq_none.mp h i (List.mem_finRange i)
  simpa using this

/-- A new feed that is the only one of its pid, or of a system queue, gets an
entry of its own; others are taps. -/
structure Added (info : UcodeInfo) (u : Ucode) (queueNr : Nat) (type : FeedMode)
    (sec : Option AviaGtSection) (pid : U16) (i : Fin 32) (own : Bool) (u' : Ucode) : Prop where
  tables : u'.tables = u.tables
  irqsEnabled : u'.irqsEnabled = u.irqsEnabled
  ucodeFeed : u'.ucodeFeed = Function.update u.ucodeFeed i
    (newFeed queueNr type sec (if own then pid else tapPid ||| pid))
  pidSearchTable : u'.pidSearchTable = if own then
    Function.update u.pidSearchTable i (PidEntry.mk info.canWaitpusi true (pid.setWidth 13))
    else u.pidSearchTable

theorem allocGenericFeed_none (h : (u.allocGenericFeed info queueNr type sec pid).2 = none) :
    (u.allocGenericFeed info queueNr type sec pid).1 = { u with irqsEnabled := false } ∧
    (u.unusedFeed = none ∨ ∃ s ∈ sec, u.tables.sectionMap s.idx = none) := by
  unfold allocGenericFeed at h ⊢
  split at h
  · rename_i hu
    exact ⟨rfl, .inl hu⟩
  · rename_i i hu
    split at h
    · rename_i hs
      simp only [hs, if_true]
      exact ⟨trivial, .inr trivial⟩
    · simp only at h
      split at h <;> cases h

theorem allocGenericFeed_some {i : Fin 32}
    (h : (u.allocGenericFeed info queueNr type sec pid).2 = some i) :
    (u.ucodeFeed i).destQueue = none ∧ (∀ s ∈ sec, u.tables.sectionMap s.idx ≠ none) ∧
    ∃ own, Added info u queueNr type sec pid i own
        (u.allocGenericFeed info queueNr type sec pid).1 ∧
      (own = true ↔ queueNr < queueUserStart ∨
        (tapPid ≠ pid ∧ ∀ j, (u.ucodeFeed j).destQueue ≠ none → (u.ucodeFeed j).pid ≠ pid)) := by
  unfold allocGenericFeed at h ⊢
  split at h
  · cases h
  · rename_i k hu
    have hk := unusedFeed_spec hu
    split at h
    · cases h
    · rename_i hs
      have hsec : ∀ s ∈ sec, u.tables.sectionMap s.idx ≠ none := by
        intro s hmem hmap
        exact hs ⟨s, hmem, hmap⟩
      let feeds := Function.update u.ucodeFeed k (newFeed queueNr type sec tapPid)
      have hfind : ({ u with ucodeFeed := feeds } : Ucode).pid2feedidx pid = none ↔
          tapPid ≠ pid ∧ ∀ j, (u.ucodeFeed j).destQueue ≠ none → (u.ucodeFeed j).pid ≠ pid := by
        simp only [feeds, pid2feedidx, List.find?_eq_none, List.mem_finRange, true_imp_iff,
          Function.update_apply, decide_eq_true_eq]
        constructor
        · intro hall
          refine ⟨?_, ?_⟩
          · simpa [newFeed] using hall k
          · intro j hj
            have hjk : j ≠ k := fun hjk => hj (hjk ▸ hk)
            simpa [hjk, hj] using hall j
        · rintro ⟨htap, hall⟩ j
          by_cases hjk : j = k
          · simpa [hjk, newFeed] using htap
          · simpa [hjk] using hall j
      simp only at h ⊢
      split at h
      · rename_i hown
        cases h
        refine ⟨hk, hsec, true, ?_, ?_⟩
        · simp only [hown, hs, if_true, if_false]
          exact ⟨rfl, rfl, by simp [setPidTable], by simp [setPidTable]⟩
        · rw [hfind] at hown
          simp only [true_iff]
          exact hown.symm
      · rename_i hown
        cases h
        refine ⟨hk, hsec, false, ?_, ?_⟩
        · simp only [hown, hs, if_false]
          exact ⟨rfl, rfl, by simp, by simp⟩
        · rw [hfind] at hown
          simp only [Bool.false_eq_true, false_iff]
          exact fun h => hown h.symm

/-- `freeSectionFilter` touches nothing but `section_map`. -/
theorem freeSectionFilter_eq (u : Ucode) (idx : Nat) : ∃ map, u.freeSectionFilter idx =
    { u with tables := { u.tables with sectionMap := map } } := by
  unfold freeSectionFilter
  split
  · exact ⟨u.tables.sectionMap, rfl⟩
  · split
    · exact ⟨u.tables.sectionMap, rfl⟩
    · exact ⟨_, rfl⟩

@[simp] theorem freeSectionFilter_ucodeFeed (u : Ucode) (idx : Nat) :
    (u.freeSectionFilter idx).ucodeFeed = u.ucodeFeed := by
  obtain ⟨map, h⟩ := freeSectionFilter_eq u idx
  rw [h]

@[simp] theorem freeSectionFilter_pidSearchTable (u : Ucode) (idx : Nat) :
    (u.freeSectionFilter idx).pidSearchTable = u.pidSearchTable := by
  obtain ⟨map, h⟩ := freeSectionFilter_eq u idx
  rw [h]

@[simp] theorem freeSectionFilter_irqsEnabled (u : Ucode) (idx : Nat) :
    (u.freeSectionFilter idx).irqsEnabled = u.irqsEnabled := by
  obtain ⟨map, h⟩ := freeSectionFilter_eq u idx
  rw [h]

theorem freeSectionFilter_map {idx : Nat} (hidx : idx ≤ 31)
    (hmap : u.tables.sectionMap idx = some idx) (huse : ¬ u.Uses idx) :
    (u.freeSectionFilter idx).tables.sectionMap =
      clearRun idx (32 - idx) idx u.tables.sectionMap := by
  have hguard : ¬ (31 < idx ∨ u.tables.sectionMap idx ≠ some idx) := by
    rintro (h | h)
    · omega
    · exact h hmap
  rw [freeSectionFilter, if_neg hguard, if_neg huse]

theorem removeFeed_ucodeFeed (i : Fin 32) :
    (u.removeFeed i).ucodeFeed = Function.update u.ucodeFeed i (removed (u.ucodeFeed i)) := by
  unfold removeFeed
  simp only
  split
  · rfl
  · split
    · rfl
    · rw [freeSectionFilter_ucodeFeed]

theorem removeFeed_pidSearchTable (i : Fin 32) :
    (u.removeFeed i).pidSearchTable = u.pidSearchTable := by
  unfold removeFeed
  simp only
  split
  · rfl
  · split
    · rfl
    · rw [freeSectionFilter_pidSearchTable]

theorem removeFeed_irqsEnabled (i : Fin 32) : (u.removeFeed i).irqsEnabled = u.irqsEnabled := by
  unfold removeFeed
  simp only
  split
  · rfl
  · split
    · rfl
    · rw [freeSectionFilter_irqsEnabled]

/-- Who uses a section filter once a feed is removed. -/
theorem uses_removed {i : Fin 32} {idx : Nat} :
    (u.removeFeed i).Uses idx ↔ ∃ j, j ≠ i ∧ (u.ucodeFeed j).sectionIdx = some idx := by
  simp only [Uses, removeFeed_ucodeFeed]
  constructor
  · rintro ⟨j, hj⟩
    by_cases hji : j = i
    · simp [hji, removed] at hj
    · exact ⟨j, hji, by simpa [hji] using hj⟩
  · rintro ⟨j, hji, hj⟩
    exact ⟨j, by simpa [hji] using hj⟩

theorem removeFeed_tables_none {i : Fin 32} (h : (u.ucodeFeed i).sectionIdx = none) :
    (u.removeFeed i).tables = u.tables := by
  simp [removeFeed, h]

theorem removeFeed_tables_some {i : Fin 32} {idx : Nat} (h : (u.ucodeFeed i).sectionIdx = some idx) :
    (u.removeFeed i).tables =
      if (u.removeFeed i).Uses idx then u.tables
      else
        (Ucode.freeSectionFilter { u with ucodeFeed := (u.removeFeed i).ucodeFeed } idx).tables := by
  have huse : (u.removeFeed i).Uses idx ↔
      Ucode.Uses
        { u with ucodeFeed := Function.update u.ucodeFeed i (removed (u.ucodeFeed i)) } idx := by
    simp only [Uses, removeFeed_ucodeFeed]
  simp only [huse, removeFeed_ucodeFeed]
  simp only [removeFeed, h]
  split <;> rfl

theorem stopFeed_unused {i : Fin 32} {remove : Bool} (h : (u.ucodeFeed i).destQueue = none) :
    u.stopFeed i remove = u := if_pos h

theorem stopFeed_remove {i : Fin 32} (h : (u.ucodeFeed i).destQueue ≠ none) :
    u.stopFeed i true = (u.removeFeed i).setPidTable i true true 0#16 := by
  simp only [stopFeed, h, if_false, if_true, removeFeed_ucodeFeed, Function.update_self]
  rfl

/-- Starting a feed touches its entries in the search and the control table only. -/
theorem startFeed_frame (info : UcodeInfo) (u : Ucode) (i : Fin 32) (tap : Bool) :
    (u.startFeed info i tap).ucodeFeed = u.ucodeFeed ∧
    (u.startFeed info i tap).tables = u.tables ∧
    (u.startFeed info i tap).irqsEnabled = u.irqsEnabled := by
  unfold startFeed
  simp only
  split
  · exact ⟨rfl, rfl, rfl⟩
  · split <;> exact ⟨rfl, rfl, rfl⟩

/-- A feed that is started, as a tap only on request, has a valid entry. -/
theorem startFeed_pidSearchTable {i : Fin 32} {tap : Bool} {q : Nat}
    (hq : (u.ucodeFeed i).destQueue = some q) :
    (u.startFeed info i tap).pidSearchTable =
      if tap ∨ (u.ucodeFeed i).pid &&& tapPid = 0#16 then
        Function.update u.pidSearchTable i
          ⟨info.canWaitpusi, false, ((u.ucodeFeed i).pid &&& ~~~tapPid).setWidth 13⟩
      else u.pidSearchTable := by
  simp only [startFeed, hq]
  split <;> rfl

/-- Stopping a feed that stays allocated makes its entry invalid. -/
theorem stopFeed_keep {i : Fin 32} (h : (u.ucodeFeed i).destQueue ≠ none) :
    u.stopFeed i false = u.setPidTable i true true (u.ucodeFeed i).pid := by
  simp [stopFeed, h]

theorem startQueueFeeds_single {i : Fin 32} {q : Nat}
    (h : ∀ j, (u.ucodeFeed j).destQueue = some q ↔ j = i) :
    u.startQueueFeeds info q = u.startFeed info i false := by
  have hi := (h i).mpr rfl
  have hother : ∀ v : Ucode, v.ucodeFeed = u.ucodeFeed → ∀ j, j ≠ i →
      (if (v.ucodeFeed j).destQueue = some q then v.startFeed info j false else v) = v := by
    intro v hv j hj
    rw [hv, if_neg (fun hq => hj ((h j).mp hq))]
  unfold startQueueFeeds
  rw [foldl_of_only (List.mem_finRange i) (List.nodup_finRange 32) (hother u rfl)]
  · rw [if_pos hi]
  · rw [if_pos hi]
    exact hother _ (startFeed_frame info u i false).1

theorem stopQueueFeeds_single {i : Fin 32} {q : Nat}
    (h : ∀ j, (u.ucodeFeed j).destQueue = some q ↔ j = i) :
    u.stopQueueFeeds q true = u.stopFeed i true := by
  have hi := (h i).mpr rfl
  have hne : (u.ucodeFeed i).destQueue ≠ none := by
    rw [hi]
    exact Option.some_ne_none q
  unfold stopQueueFeeds
  rw [foldl_of_only (List.mem_finRange i) (List.nodup_finRange 32)]
  · rw [if_pos hi]
  · intro j hj
    rw [if_neg (fun hq => hj ((h j).mp hq))]
  · intro j hj
    have hfeed : (u.stopFeed i true).ucodeFeed j = u.ucodeFeed j := by
      rw [stopFeed_remove hne]
      simp [setPidTable, removeFeed_ucodeFeed, hj]
    rw [if_pos hi, hfeed, if_neg (fun hq => hj ((h j).mp hq))]

end

end Ucode

end Tuxbox.Avia
