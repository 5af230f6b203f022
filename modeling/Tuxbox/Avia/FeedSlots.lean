import Tuxbox.Avia.Napi
import Mathlib.Data.Fintype.Card

/-!
# Queues, feeds and section filters go together
-/

namespace Tuxbox.Avia

/-! ## Section filters with feeds -/

/-- The section map is laid out for the section filters of the feeds. -/
def SectionsUsed (u : Ucode) : Prop :=
  ∃ live, Sections.Inv ⟨u, live⟩ ∧ ∀ sec ∈ live, u.Uses sec.idx

section
variable {info : UcodeInfo} {u v : Ucode}

theorem SectionsUsed.congr (h : SectionsUsed u) (htab : v.tables.sectionMap = u.tables.sectionMap)
    (hfeed : v.ucodeFeed = u.ucodeFeed) : SectionsUsed v := by
  obtain ⟨live, hinv, huse⟩ := h
  refine ⟨live, ⟨?_, ?_⟩, ?_⟩
  · simp only [htab]
    exact hinv.laid
  · simp only [hfeed]
    exact hinv.used
  · simpa only [Ucode.Uses, hfeed] using huse

theorem SectionsUsed.init : SectionsUsed Ucode.init := ⟨[], Sections.inv_init, by simp⟩

/-- Without feeds there are no section filters. -/
theorem SectionsUsed.empty (h : SectionsUsed u) (hfeed : ∀ i, (u.ucodeFeed i).destQueue = none)
    (i : Nat) : u.tables.sectionMap i = none := by
  obtain ⟨live, hinv, huse⟩ := h
  by_contra hne
  obtain ⟨x, hx⟩ := Option.ne_none_iff_exists'.mp hne
  obtain ⟨sec, hsec, -, -⟩ := (hinv.laid.entries i x).mp hx
  obtain ⟨j, hj⟩ := huse sec hsec
  exact (hinv.used j sec.idx hj).1 (hfeed j)

/-- A feed keeps the section filters, and uses its own. -/
theorem SectionsUsed.allocGenericFeed {live : List AviaGtSection}
    (hinv : Sections.Inv ⟨u, live⟩) {q : Nat} {type : FeedMode} {sec : Option AviaGtSection}
    {pid : U16} {i : Fin 32} (hsec : ∀ x ∈ sec, x ∈ live)
    (huse : ∀ x ∈ live, x ∈ sec ∨ u.Uses x.idx)
    (hres : (u.allocGenericFeed info q type sec pid).2 = some i) :
    SectionsUsed (u.allocGenericFeed info q type sec pid).1 := by
  obtain ⟨hinv', hfrees⟩ := Sections.step_allocGenericFeed hinv hsec
  refine ⟨live, hinv', ?_⟩
  intro x hx
  rcases huse x hx with hown | hold
  · obtain ⟨-, -, own, hadd, -⟩ := Ucode.allocGenericFeed_some hres
    refine ⟨i, ?_⟩
    rw [hadd.ucodeFeed, Function.update_self, Option.mem_def.mp hown]
    rfl
  · by_contra hno
    exact ((hfrees x hx hold).2 hno).1 hx

/-- The removal of a feed takes its section filter with it, unless others use
it. -/
theorem SectionsUsed.stopFeed (info : UcodeInfo) (h : SectionsUsed u) (k : Fin 32) :
    SectionsUsed (u.stopFeed k true) := by
  obtain ⟨live, hinv, huse⟩ := h
  obtain ⟨t, ht⟩ : ∃ t, Sections.step info ⟨u, live⟩ (.stopFeed k) = some t := by
    simp only [Sections.step]
    split <;> exact ⟨_, rfl⟩
  obtain ⟨hinv', hfrees⟩ := Sections.step_stopFeed hinv ht
  have hucode : t.ucode = u.stopFeed k true := by
    simp only [Sections.step] at ht
    split at ht <;> cases ht <;> rfl
  have hlive : ∀ x ∈ t.live, x ∈ live := by
    simp only [Sections.step] at ht
    split at ht <;> cases ht
    · intro x hx
      simp only [Sections.release] at hx
      split at hx
      · exact hx
      · exact List.mem_of_mem_filter hx
    · exact fun x hx => hx
  rw [← hucode]
  refine ⟨t.live, hinv', ?_⟩
  intro x hx
  by_contra hno
  exact ((hfrees x (hlive x hx) (huse x (hlive x hx))).2 hno).1 hx

/-- A section filter that no feed uses yet goes as it came. -/
theorem SectionsUsed.free_fresh (info : UcodeInfo) (h : SectionsUsed u) {stack : Stack}
    {filters : List DmxSectionFilter} {tables : SectionTables} {sec : AviaGtSection}
    (halloc : u.tables.allocSectionFilter stack filters = some (tables, sec)) (i : Nat) :
    (Ucode.freeSectionFilter { u with tables } sec.idx).tables.sectionMap i =
      u.tables.sectionMap i := by
  obtain ⟨live, hinv, -⟩ := h
  have hinv' : Sections.Inv ⟨{ u with tables }, sec :: live⟩ := by
    have hstep : Sections.step info ⟨u, live⟩ (.allocSectionFilter stack filters) =
        some ⟨{ u with tables }, sec :: live⟩ := by
      simp only [Sections.step, halloc]
    exact (Sections.step_allocSectionFilter hinv hstep).1
  have hsec : sec ∈ sec :: live := List.mem_cons_self
  have huse : ¬ Ucode.Uses { u with tables } sec.idx := by
    rintro ⟨j, hj⟩
    obtain ⟨-, x, hx, he⟩ := hinv.used j sec.idx hj
    have hnd := hinv'.laid.distinct
    rw [List.map_cons, List.nodup_cons] at hnd
    exact hnd.1 (List.mem_map.mpr ⟨x, hx, he⟩)
  have hle : sec.idx ≤ 31 := by
    have := hinv'.laid.bounds sec hsec
    omega
  rw [Ucode.freeSectionFilter_map hle (hinv'.laid.first hsec) huse]
  obtain ⟨a, entry, ha, hspace, rfl, rfl⟩ := SectionTables.alloc_cases halloc
  obtain ⟨-, hfree⟩ := findSpace_spec (analyse_length ha).1 hspace
  by_cases hc : (⟨entry, a.rows.length⟩ : AviaGtSection).Covers i
  · rw [(hinv'.laid.clear_apply hsec i).1 hc, hfree i hc.1 hc.2]
  · rw [(hinv'.laid.clear_apply hsec i).2 hc]
    exact if_neg hc

end

/-! ## One feed for one queue -/

/-- What holds of the tables in every state. -/
structure Wired (s : Napi) : Prop where
  idle : s.dmx.Idle
  irqs : s.dmx.ucode.irqsEnabled = true
  sections : SectionsUsed s.dmx.ucode
  bound : ∀ i n, (s.dmx.ucode.ucodeFeed i).destQueue = some n →
    n ≤ 30 ∧ (s.dmx.queueList n).busy = true
  unique : ∀ i j n, (s.dmx.ucode.ucodeFeed i).destQueue = some n →
    (s.dmx.ucode.ucodeFeed j).destQueue = some n → i = j
  served : ∀ n ≤ 30, (s.dmx.queueList n).busy = true →
    ∃ i, (s.dmx.ucode.ucodeFeed i).destQueue = some n
  /-- `ts_pid` is for busy queues and their pids, and these know their feed. -/
  tsPid : ∀ n, s.tsPid n = 0xFFFF#16 ∨ (s.dmx.queueList n).busy = true ∧
    s.tsPid n = (s.dmx.queueList n).pid ∧
    ∃ i, (s.dmx.queueList n).feedIdx = some i ∧ (s.dmx.ucode.ucodeFeed i).destQueue = some n
  feedPid : ∀ i n, (s.dmx.ucode.ucodeFeed i).destQueue = some n →
    (s.dmx.ucode.ucodeFeed i).pid = (s.dmx.queueList n).pid ∨
    (s.dmx.ucode.ucodeFeed i).pid = tapPid ||| (s.dmx.queueList n).pid
  /-- A valid entry is one of a used feed, for the pid of its queue. -/
  entry : ∀ i, (s.dmx.ucode.pidSearchTable i).invalid = false →
    ∃ n, (s.dmx.ucode.ucodeFeed i).destQueue = some n ∧
      (s.dmx.ucode.pidSearchTable i).pid =
        ((s.dmx.queueList n).pid &&& ~~~tapPid).setWidth 13

theorem Wired.init : Wired Napi.init where
  idle := fun _ _ => ⟨rfl, rfl⟩
  irqs := rfl
  sections := SectionsUsed.init
  bound := by intro i n h; cases h
  unique := by intro i j n h; cases h
  served := by intro n _ h; cases h
  tsPid := fun _ => .inl rfl
  feedPid := by intro i n h; cases h
  entry := by intro i h; cases h

section
variable {c : NapiConfig} {s t : Napi}

/-- There are more feeds than queues. -/
theorem Wired.unusedFeed (h : Wired s) : s.dmx.ucode.unusedFeed ≠ none := by
  intro hnone
  have hused : ∀ i, ∃ n : Fin 31, (s.dmx.ucode.ucodeFeed i).destQueue = some n.val := by
    intro i
    obtain ⟨n, hn⟩ := Option.ne_none_iff_exists'.mp (Ucode.unusedFeed_none hnone i)
    have hle := (h.bound i n hn).1
    exact ⟨⟨n, by omega⟩, hn⟩
  choose queue hqueue using hused
  have hinj : Function.Injective queue := by
    intro i j hij
    exact h.unique i j (queue i) (hqueue i) (by rw [hij]; exact hqueue j)
  have hcard := Fintype.card_le_of_injective queue hinj
  simp at hcard

/-- The interrupt of an unused system queue is taken already when the queue is
started: a user queue runs on its pid and mode. -/
def Napi.ClientWaits (s : Napi) (n : Nat) (pid : U16) (mode : FeedMode) : Prop :=
  n < queueUserStart ∧ (s.dmx.queueList n).client = none ∧ pid ≠ 0xFFFF#16 ∧
  ∃ m, queueUserStart ≤ m ∧ m < queueCount ∧ (s.dmx.queueList m).running = true ∧
    (s.dmx.queueList m).pid = pid ∧ (s.dmx.queueList m).mode = mode

/-- A queue is taken, a feed of the microcode set up for it, both started. -/
structure Opened (s t : Napi) (pid : U16) (mode : FeedMode) (mark own : Bool) (n : Nat)
    (k : Fin 32) : Prop where
  le : n ≤ 30
  free : (s.dmx.queueList n).busy = false
  unused : (s.dmx.ucode.ucodeFeed k).destQueue = none
  others : ∀ m, m ≠ n → DmxQueue.Same (s.dmx.queueList m) (t.dmx.queueList m)
  busy : (t.dmx.queueList n).busy = true
  queuePid : (t.dmx.queueList n).pid = pid
  feedIdx : mark = true → (t.dmx.queueList n).feedIdx = some k
  irqUsed : (t.dmx.queueList n).irqUsed = true ↔ s.ClientWaits n pid mode
  feeds : ∃ sec, t.dmx.ucode.ucodeFeed = Function.update s.dmx.ucode.ucodeFeed k
    (Ucode.newFeed n mode sec (if own then pid else tapPid ||| pid))
  own_iff : own = true ↔ n < queueUserStart ∨ (tapPid ≠ pid ∧
    ∀ j, (s.dmx.ucode.ucodeFeed j).destQueue ≠ none → (s.dmx.ucode.ucodeFeed j).pid ≠ pid)
  table : ∀ j, j ≠ k → t.dmx.ucode.pidSearchTable j = s.dmx.ucode.pidSearchTable j
  valid : (t.dmx.ucode.pidSearchTable k).invalid = false ↔ own = true ∧ pid &&& tapPid = 0#16
  entry : (t.dmx.ucode.pidSearchTable k).invalid = false →
    (t.dmx.ucode.pidSearchTable k).pid = (pid &&& ~~~tapPid).setWidth 13
  tsPid : t.tsPid = if mark then Function.update s.tsPid n pid else s.tsPid
  idle : t.dmx.Idle
  irqs : t.dmx.ucode.irqsEnabled = s.dmx.ucode.irqsEnabled
  sections : SectionsUsed t.dmx.ucode

/-- The entry of an unused feed is not valid. -/
theorem Wired.invalid_of_unused (h : Wired s) {k : Fin 32}
    (hk : (s.dmx.ucode.ucodeFeed k).destQueue = none) :
    (s.dmx.ucode.pidSearchTable k).invalid = true := by
  by_contra hvalid
  obtain ⟨n, hn, -⟩ := h.entry k (by simpa using hvalid)
  rw [hk] at hn
  cases hn

theorem newQueueClient_ne_none {d : Dmx} {n : Nat} :
    d.newQueueClient n ≠ none ↔ (d.queueList n).pid ≠ 0xFFFF#16 ∧
      ∃ m, queueUserStart ≤ m ∧ m < queueCount ∧ (d.queueList m).running = true ∧
        (d.queueList m).pid = (d.queueList n).pid ∧
        (d.queueList m).mode = (d.queueList n).mode := by
  rw [Dmx.newQueueClient, ← Option.isSome_iff_ne_none, List.find?_isSome]
  constructor
  · rintro ⟨m, hm, hp⟩
    simp only [decide_eq_true_eq] at hp
    obtain ⟨hr, hpid, hpm, hmode⟩ := hp
    simp only [List.mem_range'_1, queueUserStart, queueCount] at hm ⊢
    exact ⟨hpid, m, hm.1, by omega, hr, hpm.symm, hmode.symm⟩
  · rintro ⟨hpid, m, h3, h32, hr, hpm, hmode⟩
    refine ⟨m, ?_, by simp only [hr, hpm, hmode]; simpa using hpid⟩
    simp only [List.mem_range'_1, queueUserStart, queueCount] at h3 h32 ⊢
    omega

/-- The interrupt of a queue that is started. -/
theorem queueStart_irqUsed {info : UcodeInfo} {d : Dmx} {n : Nat} {mode : FeedMode} {pid : U16}
    (hs : ∀ m, m ≠ n → d.queueList m = s.dmx.queueList m)
    (hirq : (d.queueList n).irqUsed = false)
    (hclient : (d.queueList n).client = (s.dmx.queueList n).client) :
    ((d.queueStart info n mode pid).queueList n).irqUsed = true ↔ s.ClientWaits n pid mode := by
  by_cases hn : n < queueUserStart
  · let e := d.setQueue n { d.queueList n with pid, mode }
    have hother : ∀ m, queueUserStart ≤ m → e.queueList m = s.dmx.queueList m := by
      intro m hm
      have hmn : m ≠ n := by omega
      simp only [e, Dmx.setQueue_queueList, Function.update_of_ne hmn, hs m hmn]
    have hself : e.queueList n = { d.queueList n with pid, mode } := by simp [e]
    have hnew := newQueueClient_ne_none (d := e) (n := n)
    simp only [hself] at hnew
    have heq : ((d.queueStart info n mode pid).queueList n) =
        (e.queueList n).updateClient (e.newQueueClient n) := by
      simp only [Dmx.queueStart, hn, if_true]
      rw [Dmx.enableDisable_queueList, if_pos hn]
    rw [heq, DmxQueue.updateClient_irqUsed, hself]
    simp only [hirq, Napi.ClientWaits, hn, true_and, ← hclient]
    constructor
    · intro h
      split at h
      · rename_i hcase
        obtain ⟨hpid, m, h3, h32, hr, hpm, hmode⟩ := hnew.mp hcase.1
        rw [hother m h3] at hr hpm hmode
        exact ⟨hcase.2, hpid, m, h3, h32, hr, hpm, hmode⟩
      · split at h <;> cases h
    · rintro ⟨hcl, hpid, m, h3, h32, hr, hpm, hmode⟩
      rw [if_pos]
      refine ⟨hnew.mpr ⟨hpid, m, h3, h32, ?_⟩, hcl⟩
      rw [hother m h3]
      exact ⟨hr, hpm, hmode⟩
  · rw [Dmx.queueStart_irqUsed_user hn, hirq]
    simp [Napi.ClientWaits, hn]

theorem tap_and_tapPid (pid : U16) : (tapPid ||| pid) &&& tapPid ≠ 0#16 := by
  have h : (tapPid ||| pid) &&& tapPid = tapPid := by
    ext i
    simp only [BitVec.getElem_and, BitVec.getElem_or]
    cases tapPid[i] <;> simp
  rw [h]
  decide

/-- The search table when a new feed has been started: a tap waits. -/
theorem Added.started {info : UcodeInfo} {u v : Ucode} {q : Nat} {type : FeedMode}
    {sec : Option AviaGtSection} {pid : U16} {k : Fin 32} {own : Bool}
    (h : Ucode.Added info u q type sec pid k own v) (hk : (u.pidSearchTable k).invalid = true) :
    (∀ j, j ≠ k → (v.startFeed info k false).pidSearchTable j = u.pidSearchTable j) ∧
    (((v.startFeed info k false).pidSearchTable k).invalid = false ↔
      own = true ∧ pid &&& tapPid = 0#16) ∧
    (((v.startFeed info k false).pidSearchTable k).invalid = false →
      ((v.startFeed info k false).pidSearchTable k).pid = (pid &&& ~~~tapPid).setWidth 13) := by
  have hfeed : v.ucodeFeed k =
      Ucode.newFeed q type sec (if own then pid else tapPid ||| pid) := by
    rw [h.ucodeFeed, Function.update_self]
  have hdest : (v.ucodeFeed k).destQueue = some q := by rw [hfeed]; rfl
  have hstart : (v.startFeed info k false).pidSearchTable = _ :=
    Ucode.startFeed_pidSearchTable hdest
  rw [hfeed, h.pidSearchTable] at hstart
  cases own with
  | false =>
    have htap := tap_and_tapPid pid
    simp only [Ucode.newFeed, Bool.false_eq_true, htap, or_self, if_false] at hstart
    rw [hstart]
    simp [hk]
  | true =>
    simp only [Ucode.newFeed, Bool.false_eq_true, false_or, if_true] at hstart
    rw [hstart]
    by_cases hpid : pid &&& tapPid = 0#16
    · simp only [hpid, if_true]
      refine ⟨?_, by simp, by simp⟩
      intro j hj
      simp [hj]
    · simp only [hpid, if_false]
      refine ⟨?_, by simp, by simp⟩
      intro j hj
      simp [hj]

/-- The last part of every start: the queue and the feed are there. -/
theorem Wired.opened (h : Wired s) {u : Ucode} {d : Dmx} {n : Nat} {k : Fin 32} {own mark : Bool}
    {mode : FeedMode} {sec : Option AviaGtSection} {pid : U16} (hn : n ≤ 30)
    (hfree : (s.dmx.queueList n).busy = false)
    (hqueue : ∃ idx, (mark = true → idx = some k) ∧ d.queueList =
      Function.update s.dmx.queueList n { s.dmx.queueList n with busy := true, feedIdx := idx })
    (hfeed : u.ucodeFeed = s.dmx.ucode.ucodeFeed)
    (htable : u.pidSearchTable = s.dmx.ucode.pidSearchTable)
    (hirqs : u.irqsEnabled = s.dmx.ucode.irqsEnabled)
    (hk : (u.ucodeFeed k).destQueue = none)
    (hadd : Ucode.Added c.info u n mode sec pid k own d.ucode)
    (hown : own = true ↔ n < queueUserStart ∨ (tapPid ≠ pid ∧
      ∀ j, (u.ucodeFeed j).destQueue ≠ none → (u.ucodeFeed j).pid ≠ pid))
    (hsec : SectionsUsed d.ucode) :
    Opened s ⟨d.queueStart c.info n mode pid,
      if mark then Function.update s.tsPid n pid else s.tsPid⟩ pid mode mark own n k := by
  obtain ⟨idx, hidx, hlist⟩ := hqueue
  rw [hfeed] at hk hown
  have hself : d.queueList n = { s.dmx.queueList n with busy := true, feedIdx := idx } := by
    rw [hlist, Function.update_self]
  have hother : ∀ m, m ≠ n → d.queueList m = s.dmx.queueList m := by
    intro m hm
    rw [hlist, Function.update_of_ne hm]
  have hsingle : ∀ j, (d.ucode.ucodeFeed j).destQueue = some n ↔ j = k := by
    intro j
    rw [hadd.ucodeFeed]
    constructor
    · intro hj
      by_contra hjk
      rw [Function.update_of_ne hjk, hfeed] at hj
      rw [(h.bound j n hj).2] at hfree
      cases hfree
    · rintro rfl
      rw [Function.update_self]
      rfl
  have hqueues : ∀ m, DmxQueue.Same
      (if m = n then { d.queueList n with pid, mode } else d.queueList m)
      ((d.queueStart c.info n mode pid).queueList m) := Dmx.queueStart_queues d n mode pid
  have hnow := hqueues n
  rw [if_pos rfl, hself] at hnow
  have hidle : d.Idle := by
    have hset : (s.dmx.setQueue n
        { s.dmx.queueList n with busy := true, feedIdx := idx }).Idle :=
      h.idle.setQueue (by intro hb; cases hb)
    intro m
    rw [hlist]
    exact hset m
  have hucode : (d.queueStart c.info n mode pid).ucode = d.ucode.startFeed c.info k false :=
    Dmx.queueStart_ucode hsingle
  obtain ⟨hff, hft, hfi⟩ := Ucode.startFeed_frame c.info d.ucode k false
  have hinvalid : (u.pidSearchTable k).invalid = true := by
    rw [htable]
    exact h.invalid_of_unused hk
  obtain ⟨hst, hvalid, hentry⟩ := Added.started hadd hinvalid
  constructor
  case le => exact hn
  case free => exact hfree
  case unused => exact hk
  case others =>
    intro m hm
    have hm' := hqueues m
    rwa [if_neg hm, hother m hm] at hm'
  case busy => exact hnow.busy
  case queuePid => exact hnow.pid
  case feedIdx =>
    intro hmark
    rw [← hidx hmark]
    exact hnow.feedIdx
  case irqUsed =>
    refine queueStart_irqUsed hother ?_ (by rw [hself])
    rw [hself]
    exact (h.idle n hfree).1
  case feeds => exact ⟨sec, by simp only [hucode, hff, hadd.ucodeFeed, hfeed]⟩
  case own_iff => exact hown
  case table =>
    intro j hj
    simp only [hucode, hst j hj, htable]
  case valid =>
    simp only [hucode]
    exact hvalid
  case entry =>
    simp only [hucode]
    exact hentry
  case tsPid => rfl
  case idle => exact hidle.queueStart (by rw [hself]) mode pid
  case irqs => simp only [hucode, hfi, hadd.irqsEnabled, hirqs]
  case sections =>
    simp only [hucode]
    exact hsec.congr (by rw [hft]) hff

section
variable {pid : U16} {mode : FeedMode} {mark own : Bool} {n : Nat} {k : Fin 32}

theorem Opened.feed_new (o : Opened s t pid mode mark own n k) :
    (t.dmx.ucode.ucodeFeed k).destQueue = some n ∧
    (t.dmx.ucode.ucodeFeed k).pid = if own then pid else tapPid ||| pid := by
  obtain ⟨sec, hfeeds⟩ := o.feeds
  rw [hfeeds, Function.update_self]
  exact ⟨rfl, rfl⟩

theorem Opened.feed_other (o : Opened s t pid mode mark own n k) {j : Fin 32} (hj : j ≠ k) :
    t.dmx.ucode.ucodeFeed j = s.dmx.ucode.ucodeFeed j := by
  obtain ⟨sec, hfeeds⟩ := o.feeds
  rw [hfeeds, Function.update_of_ne hj]

/-- A used feed is the new one, or an old one of another queue. -/
theorem Opened.feed_cases (o : Opened s t pid mode mark own n k) (h : Wired s) {j : Fin 32}
    {m : Nat} (hj : (t.dmx.ucode.ucodeFeed j).destQueue = some m) :
    (j = k ∧ m = n) ∨
    (j ≠ k ∧ m ≠ n ∧ (s.dmx.ucode.ucodeFeed j).destQueue = some m) := by
  by_cases hjk : j = k
  · subst hjk
    rw [o.feed_new.1] at hj
    exact .inl ⟨rfl, (Option.some.inj hj).symm⟩
  · rw [o.feed_other hjk] at hj
    refine .inr ⟨hjk, ?_, hj⟩
    rintro rfl
    have hbusy := (h.bound j m hj).2
    rw [o.free] at hbusy
    cases hbusy

theorem Opened.wired (o : Opened s t pid mode mark own n k) (h : Wired s) : Wired t where
  idle := o.idle
  irqs := by rw [o.irqs, h.irqs]
  sections := o.sections
  bound := by
    intro j m hj
    rcases o.feed_cases h hj with ⟨rfl, rfl⟩ | ⟨-, hm, hold⟩
    · exact ⟨o.le, o.busy⟩
    · rw [(o.others m hm).busy]
      exact h.bound j m hold
  unique := by
    intro i j m hi hj
    rcases o.feed_cases h hi with ⟨rfl, rfl⟩ | ⟨-, hm, holdi⟩
    · rcases o.feed_cases h hj with ⟨rfl, -⟩ | ⟨-, hne, -⟩
      · rfl
      · exact absurd rfl hne
    · rcases o.feed_cases h hj with ⟨-, rfl⟩ | ⟨-, -, holdj⟩
      · exact absurd rfl hm
      · exact h.unique i j m holdi holdj
  served := by
    intro m hm hb
    by_cases hmn : m = n
    · exact ⟨k, hmn ▸ o.feed_new.1⟩
    · rw [(o.others m hmn).busy] at hb
      obtain ⟨i, hi⟩ := h.served m hm hb
      refine ⟨i, ?_⟩
      have hik : i ≠ k := by
        rintro rfl
        rw [o.unused] at hi
        cases hi
      rw [o.feed_other hik, hi]
  tsPid := by
    intro m
    by_cases hmn : m = n
    · subst hmn
      cases hmark : mark with
      | false =>
        left
        rw [o.tsPid, hmark]
        rcases h.tsPid m with h' | ⟨hb, -⟩
        · exact h'
        · rw [o.free] at hb
          cases hb
      | true =>
        right
        refine ⟨o.busy, ?_, k, o.feedIdx hmark, o.feed_new.1⟩
        rw [o.tsPid, hmark, o.queuePid]
        simp
    · have hts : t.tsPid m = s.tsPid m := by
        rw [o.tsPid]
        split
        · exact Function.update_of_ne hmn _ _
        · rfl
      have hq := o.others m hmn
      rw [hts, hq.busy, hq.pid, hq.feedIdx]
      refine (h.tsPid m).imp_right ?_
      rintro ⟨hb, hp, i, hi, hd⟩
      refine ⟨hb, hp, i, hi, ?_⟩
      have hik : i ≠ k := by
        rintro rfl
        rw [o.unused] at hd
        cases hd
      rw [o.feed_other hik, hd]
  feedPid := by
    intro j m hj
    rcases o.feed_cases h hj with ⟨rfl, rfl⟩ | ⟨hjk, hm, hold⟩
    · rw [o.feed_new.2, o.queuePid]
      cases own <;> simp
    · rw [o.feed_other hjk, (o.others m hm).pid]
      exact h.feedPid j m hold
  entry := by
    intro j hj
    by_cases hjk : j = k
    · subst hjk
      exact ⟨n, o.feed_new.1, by rw [o.entry hj, o.queuePid]⟩
    · rw [o.table j hjk] at hj ⊢
      obtain ⟨m, hm, hp⟩ := h.entry j hj
      rw [o.feed_other hjk]
      refine ⟨m, hm, ?_⟩
      have hmn : m ≠ n := by
        rintro rfl
        have hb := (h.bound j m hm).2
        rw [o.free] at hb
        cases hb
      rw [hp, (o.others m hmn).pid]

end

/-- The system queue of a feed, if it has one. -/
def DvbDemuxFeed.systemQueue (feed : DvbDemuxFeed) : Option Nat :=
  match feed.type, feed.pesType with
  | .ts, .video => some queueVideo
  | .ts, .audio => some queueAudio
  | .ts, .teletext => some queueTeletext
  | _, _ => none

variable {feed : DvbDemuxFeed}

theorem queueAlloc_system {d : Dmx} {n : Nat} (h : feed.systemQueue = some n) :
    n < queueUserStart ∧ d.queueAlloc feed = d.allocQueue n := by
  unfold DvbDemuxFeed.systemQueue at h
  unfold Dmx.queueAlloc
  split at h
  case h_4 => cases h
  all_goals
    rename_i htype hpes
    cases h
    rw [htype, hpes]
    exact ⟨by decide, rfl⟩

theorem queueAlloc_user {d : Dmx} (h : feed.systemQueue = none) :
    d.queueAlloc feed = d.allocQueueUser ∨ d.queueAlloc feed = none := by
  unfold Dmx.queueAlloc
  split
  · exact .inl rfl
  · rename_i htype
    cases hpes : feed.pesType with
    | video | audio | teletext => simp [DvbDemuxFeed.systemQueue, htype, hpes] at h
    | pcr => exact .inl rfl
    | subtitle => exact .inl rfl
    | other => exact .inl rfl
    | further => exact .inr rfl
  · exact .inr rfl

theorem queueAlloc_some {d e : Dmx} {n : Nat} (h : d.queueAlloc feed = some (e, n)) :
    n ≤ 30 ∧ (d.queueList n).busy = false ∧
    e = d.setQueue n { d.queueList n with busy := true } ∧
    (feed.systemQueue = some n ∨ feed.systemQueue = none ∧ queueUserStart ≤ n) := by
  cases hsys : feed.systemQueue with
  | some m =>
    obtain ⟨hm, heq⟩ := queueAlloc_system (d := d) hsys
    rw [heq] at h
    obtain ⟨rfl, -, hb, he⟩ := Dmx.allocQueue_some h
    simp only [queueUserStart] at hm
    exact ⟨by omega, hb, he, .inl rfl⟩
  | none =>
    rcases queueAlloc_user (d := d) hsys with heq | heq
    · rw [heq] at h
      obtain ⟨h3, hle, hb, he⟩ := Dmx.allocQueueUser_some h
      exact ⟨hle, hb, he, .inr ⟨rfl, h3⟩⟩
    · rw [heq] at h
      cases h

/-- What a start without section filter does: there is no queue, or all is
there. -/
theorem Wired.startQueue (h : Wired s) (mode : FeedMode) (mark : Bool) :
    (s.dmx.queueAlloc feed = none ∧
      s.startQueue c feed mode mark = (s, feed, some .ebusy)) ∨
    ∃ e n k t own, s.dmx.queueAlloc feed = some (e, n) ∧
      Opened s t feed.pid mode mark own n k ∧
      s.startQueue c feed mode mark = (t, { feed with priv := some n }, none) := by
  cases halloc : s.dmx.queueAlloc feed with
  | none => exact .inl ⟨rfl, by simp only [Napi.startQueue, halloc]⟩
  | some r =>
    obtain ⟨e, n⟩ := r
    right
    obtain ⟨hn, hfree, rfl, -⟩ := queueAlloc_some halloc
    cases hres : (s.dmx.ucode.allocFeed c.info n mode feed.pid).2 with
    | none =>
      rcases (Ucode.allocGenericFeed_none hres).2 with hfull | ⟨x, hx, -⟩
      · exact absurd hfull h.unusedFeed
      · cases hx
    | some k =>
      obtain ⟨hk, -, own, hadd, hown⟩ := Ucode.allocGenericFeed_some hres
      obtain ⟨live, hinv, huse⟩ := h.sections
      have hsec : SectionsUsed (s.dmx.ucode.allocFeed c.info n mode feed.pid).1 :=
        SectionsUsed.allocGenericFeed hinv (by simp) (fun x hx => .inr (huse x hx)) hres
      let d : Dmx :=
        { queueList := Function.update s.dmx.queueList n
            { s.dmx.queueList n with busy := true, feedIdx := some k }
          ucode := (s.dmx.ucode.allocFeed c.info n mode feed.pid).1 }
      have hopen : Opened s ⟨d.queueStart c.info n mode feed.pid, _⟩ feed.pid mode mark own n k :=
        h.opened hn hfree ⟨some k, fun _ => rfl, rfl⟩ rfl rfl rfl hk hadd hown hsec
      refine ⟨_, n, k, _, own, rfl, hopen, ?_⟩
      simp only [Napi.startQueue, halloc, Dmx.setQueue_ucode, hres]
      simp only [d, Dmx.setQueue, Function.update_self, Function.update_idem]

/-- All tables but those of the contents of section filters. -/
structure Unchanged (s t : Napi) : Prop where
  queueList : t.dmx.queueList = s.dmx.queueList
  tsPid : t.tsPid = s.tsPid
  ucodeFeed : t.dmx.ucode.ucodeFeed = s.dmx.ucode.ucodeFeed
  pidSearchTable : t.dmx.ucode.pidSearchTable = s.dmx.ucode.pidSearchTable
  irqsEnabled : t.dmx.ucode.irqsEnabled = s.dmx.ucode.irqsEnabled
  sectionMap : t.dmx.ucode.tables.sectionMap = s.dmx.ucode.tables.sectionMap

theorem Unchanged.refl (s : Napi) : Unchanged s s := ⟨rfl, rfl, rfl, rfl, rfl, rfl⟩

theorem Unchanged.wired (u : Unchanged s t) (h : Wired s) : Wired t where
  idle := by simpa only [Dmx.Idle, u.queueList] using h.idle
  irqs := by rw [u.irqsEnabled, h.irqs]
  sections := h.sections.congr u.sectionMap u.ucodeFeed
  bound := by simpa only [u.queueList, u.ucodeFeed] using h.bound
  unique := by simpa only [u.queueList, u.ucodeFeed] using h.unique
  served := by simpa only [u.queueList, u.ucodeFeed] using h.served
  tsPid := by simpa only [u.queueList, u.ucodeFeed, u.tsPid] using h.tsPid
  feedPid := by simpa only [u.queueList, u.ucodeFeed] using h.feedPid
  entry := by simpa only [u.queueList, u.ucodeFeed, u.pidSearchTable] using h.entry

/-- The result of a start before interrupts: nothing happened, or there is a
queue with a feed. -/
def Starts (s : Napi) (feed : DvbDemuxFeed) (mark : Bool) (r : Napi × DvbDemuxFeed × Option Errno)
    (mode : FeedMode) : Prop :=
  (∃ err, r.2.2 = some err ∧ Unchanged s r.1 ∧ s.dmx.queueAlloc feed = none) ∨
  ∃ e n k own, s.dmx.queueAlloc feed = some (e, n) ∧
    Opened s r.1 feed.pid mode mark own n k ∧ r.2 = ({ feed with priv := some n }, none)

theorem Wired.starts_queue (h : Wired s) (mode : FeedMode) (mark : Bool) :
    Starts s feed mark (s.startQueue c feed mode mark) mode := by
  rcases h.startQueue mode mark with ⟨halloc, hr⟩ | ⟨e, n, k, t, own, halloc, hopen, hr⟩
  · rw [hr]
    exact .inl ⟨.ebusy, rfl, Unchanged.refl s, halloc⟩
  · rw [hr]
    exact .inr ⟨e, n, k, own, halloc, hopen, rfl⟩

theorem allocQueue_ucode (d : Dmx) (u : Ucode) (n : Nat) :
    Dmx.allocQueue { d with ucode := u } n =
      (d.allocQueue n).map fun r => ({ r.1 with ucode := u }, r.2) := by
  unfold Dmx.allocQueue
  split
  · rfl
  · split <;> rfl

/-- The choice of a queue does not depend on the microcode. -/
theorem queueAlloc_ucode (d : Dmx) (u : Ucode) :
    Dmx.queueAlloc { d with ucode := u } feed =
      (d.queueAlloc feed).map fun r => ({ r.1 with ucode := u }, r.2) := by
  have huser : Dmx.allocQueueUser { d with ucode := u } =
      d.allocQueueUser.map fun r => ({ r.1 with ucode := u }, r.2) := by
    unfold Dmx.allocQueueUser
    split
    · rename_i hfind
      simp only [hfind]
      rfl
    · rename_i n hfind
      simp only [hfind]
      exact allocQueue_ucode d u n
  unfold Dmx.queueAlloc
  split
  · exact huser
  · cases feed.pesType with
    | video => exact allocQueue_ucode d u queueVideo
    | audio => exact allocQueue_ucode d u queueAudio
    | teletext => exact allocQueue_ucode d u queueTeletext
    | pcr => exact huser
    | subtitle => exact huser
    | other => exact huser
    | further => rfl
  · rfl

/-- The section filter is given back when there is no queue. -/
theorem Wired.starts_section (h : Wired s) (stack : Stack) :
    ∃ mode, Starts s feed false (s.startFeedSection c stack feed) mode := by
  unfold Napi.startFeedSection
  split
  · exact ⟨.ts, h.starts_queue .ts false⟩
  · split
    · exact ⟨.ts, h.starts_queue .ts false⟩
    · rename_i tables sec hfilter
      refine ⟨.section, ?_⟩
      simp only [queueAlloc_ucode]
      cases halloc : s.dmx.queueAlloc feed with
      | none =>
        refine .inl ⟨.ebusy, rfl, ⟨rfl, rfl, ?_, ?_, ?_, ?_⟩, halloc⟩
        · simp
        · simp
        · simp
        · funext i
          exact h.sections.free_fresh c.info hfilter i
      | some r =>
        obtain ⟨e, n⟩ := r
        obtain ⟨hn, hfree, rfl, -⟩ := queueAlloc_some halloc
        obtain ⟨live, hinv, huse⟩ := h.sections
        have hinv' : Sections.Inv ⟨{ s.dmx.ucode with tables }, sec :: live⟩ := by
          have hstep : Sections.step c.info ⟨s.dmx.ucode, live⟩
              (.allocSectionFilter stack feed.filter) =
              some ⟨{ s.dmx.ucode with tables }, sec :: live⟩ := by
            simp only [Sections.step, hfilter]
          exact (Sections.step_allocSectionFilter hinv hstep).1
        simp only [Option.map_some]
        cases hres : (Ucode.allocSectionFeed c.info { s.dmx.ucode with tables } n sec
            feed.pid).2 with
        | none =>
          rcases (Ucode.allocGenericFeed_none hres).2 with hfull | ⟨x, hx, hmap⟩
          · exact absurd hfull h.unusedFeed
          · cases hx
            rw [hinv'.laid.first List.mem_cons_self] at hmap
            cases hmap
        | some k =>
          obtain ⟨hk, -, own, hadd, hown⟩ := Ucode.allocGenericFeed_some hres
          have hsec : SectionsUsed
              (Ucode.allocSectionFeed c.info { s.dmx.ucode with tables } n sec feed.pid).1 := by
            refine SectionsUsed.allocGenericFeed hinv' ?_ ?_ hres
            · intro x hx
              cases hx
              exact List.mem_cons_self
            · intro x hx
              rcases List.mem_cons.mp hx with rfl | hx
              · exact .inl rfl
              · exact .inr (huse x hx)
          let d : Dmx :=
            { queueList := Function.update s.dmx.queueList n
                { s.dmx.queueList n with busy := true }
              ucode := (Ucode.allocSectionFeed c.info { s.dmx.ucode with tables } n sec
                feed.pid).1 }
          have hidx : false = true → (s.dmx.queueList n).feedIdx = some k := by
            intro hm
            cases hm
          have hopen : Opened s ⟨d.queueStart c.info n .section feed.pid, _⟩ feed.pid .section
              false own n k :=
            h.opened (u := { s.dmx.ucode with tables }) hn hfree ⟨_, hidx, rfl⟩ rfl rfl rfl hk
              hadd hown hsec
          exact .inr ⟨_, n, k, own, halloc, hopen, rfl⟩

/-! ## Taps -/

/-- Only the search and control tables differ. -/
structure Retabled (s t : Napi) : Prop where
  queueList : t.dmx.queueList = s.dmx.queueList
  tsPid : t.tsPid = s.tsPid
  ucodeFeed : t.dmx.ucode.ucodeFeed = s.dmx.ucode.ucodeFeed
  tables : t.dmx.ucode.tables = s.dmx.ucode.tables
  irqsEnabled : t.dmx.ucode.irqsEnabled = s.dmx.ucode.irqsEnabled

theorem Retabled.wired (r : Retabled s t) (h : Wired s)
    (hentry : ∀ i, (t.dmx.ucode.pidSearchTable i).invalid = false →
      ∃ n, (s.dmx.ucode.ucodeFeed i).destQueue = some n ∧
        (t.dmx.ucode.pidSearchTable i).pid =
          ((s.dmx.queueList n).pid &&& ~~~tapPid).setWidth 13) : Wired t where
  idle := by simpa only [Dmx.Idle, r.queueList] using h.idle
  irqs := by rw [r.irqsEnabled, h.irqs]
  sections := h.sections.congr (by rw [r.tables]) r.ucodeFeed
  bound := by simpa only [r.queueList, r.ucodeFeed] using h.bound
  unique := by simpa only [r.queueList, r.ucodeFeed] using h.unique
  served := by simpa only [r.queueList, r.ucodeFeed] using h.served
  tsPid := by simpa only [r.queueList, r.ucodeFeed, r.tsPid] using h.tsPid
  feedPid := by simpa only [r.queueList, r.ucodeFeed] using h.feedPid
  entry := by simpa only [r.queueList, r.ucodeFeed] using hentry

/-- The tap bit is not part of the pid that goes into the table. -/
theorem and_not_tapPid {p q : U16} (h : p = q ∨ p = tapPid ||| q) :
    p &&& ~~~tapPid = q &&& ~~~tapPid := by
  rcases h with rfl | rfl
  · rfl
  · ext i
    simp only [BitVec.getElem_and, BitVec.getElem_or, BitVec.getElem_not]
    cases tapPid[i] <;> simp

/-- The entry that starting or stopping a tap writes. -/
theorem Wired.tap (h : Wired s) (info : UcodeInfo) (n : Nat) (start : Bool) :
    Retabled s { s with dmx := s.dmx.tap info n start } ∧
    Wired { s with dmx := s.dmx.tap info n start } := by
  unfold Dmx.tap
  cases hidx : (s.dmx.queueList n).feedIdx with
  | none => exact ⟨⟨rfl, rfl, rfl, rfl, rfl⟩, h⟩
  | some j =>
    cases start with
    | true =>
      obtain ⟨hf, ht, hi⟩ := Ucode.startFeed_frame info s.dmx.ucode j true
      have hr : Retabled s { s with dmx :=
          { s.dmx with ucode := s.dmx.ucode.startFeed info j true } } := ⟨rfl, rfl, hf, ht, hi⟩
      refine ⟨hr, hr.wired h ?_⟩
      intro i hvalid
      cases hq : (s.dmx.ucode.ucodeFeed j).destQueue with
      | none =>
        simp only [Ucode.startFeed, hq] at hvalid ⊢
        exact h.entry i hvalid
      | some m =>
        have htab : (s.dmx.ucode.startFeed info j true).pidSearchTable = _ :=
          Ucode.startFeed_pidSearchTable hq
        simp only [htab, true_or, if_true] at hvalid ⊢
        by_cases hij : i = j
        · subst hij
          refine ⟨m, hq, ?_⟩
          rw [Function.update_self, ← and_not_tapPid (h.feedPid i m hq)]
        · rw [Function.update_of_ne hij] at hvalid ⊢
          exact h.entry i hvalid
    | false =>
      by_cases hq : (s.dmx.ucode.ucodeFeed j).destQueue = none
      · simp only [Bool.false_eq_true, if_false, Ucode.stopFeed_unused hq]
        exact ⟨⟨rfl, rfl, rfl, rfl, rfl⟩, h⟩
      · simp only [Bool.false_eq_true, if_false, Ucode.stopFeed_keep hq]
        let u := s.dmx.ucode.setPidTable j true true (s.dmx.ucode.ucodeFeed j).pid
        have hr : Retabled s ⟨⟨s.dmx.queueList, u⟩, s.tsPid⟩ := ⟨rfl, rfl, rfl, rfl, rfl⟩
        refine ⟨hr, hr.wired h ?_⟩
        intro i hvalid
        simp only [u, Ucode.setPidTable] at hvalid ⊢
        by_cases hij : i = j
        · subst hij
          rw [Function.update_self] at hvalid
          cases hvalid
        · rw [Function.update_of_ne hij] at hvalid ⊢
          exact h.entry i hvalid

@[simp] theorem handOver_queueList (s : Napi) (pid : U16) (start : Bool) :
    (s.handOver c pid start).dmx.queueList = s.dmx.queueList := by
  unfold Napi.handOver Dmx.tap
  split
  · rfl
  · simp only
    split <;> rfl

theorem Wired.handOver (h : Wired s) (pid : U16) (start : Bool) :
    Retabled s (s.handOver c pid start) ∧ Wired (s.handOver c pid start) := by
  unfold Napi.handOver
  split
  · exact ⟨⟨rfl, rfl, rfl, rfl, rfl⟩, h⟩
  · exact h.tap c.info _ start

/-! ## Starting a feed -/

theorem Wired.same (h : Wired s) {d : Dmx} (hs : Dmx.Same s.dmx d) (hi : d.Idle) :
    Wired ⟨d, s.tsPid⟩ where
  idle := hi
  irqs := by rw [hs.ucode, h.irqs]
  sections := by rw [hs.ucode]; exact h.sections
  bound := by
    intro i n
    rw [hs.ucode, (hs.queues n).busy]
    exact h.bound i n
  unique := by
    intro i j n
    rw [hs.ucode]
    exact h.unique i j n
  served := by
    intro n hn
    rw [hs.ucode, (hs.queues n).busy]
    exact h.served n hn
  tsPid := by
    intro n
    rw [hs.ucode, (hs.queues n).busy, (hs.queues n).pid, (hs.queues n).feedIdx]
    exact h.tsPid n
  feedPid := by
    intro i n
    rw [hs.ucode, (hs.queues n).pid]
    exact h.feedPid i n
  entry := by
    intro i
    rw [hs.ucode]
    intro hv
    obtain ⟨n, hn, hp⟩ := h.entry i hv
    exact ⟨n, hn, by rw [hp, (hs.queues n).pid]⟩

/-- The feed is started in ts mode with its pid in `ts_pid`. -/
def DvbDemuxFeed.marksTs (c : NapiConfig) (feed : DvbDemuxFeed) : Bool :=
  feed.type ≠ .sec ∧ ¬ feed.tsType.payloadOnly ∧ c.info.capTs

/-- The mode of the queue of a feed without section filter. -/
def Napi.startMode (c : NapiConfig) (s : Napi) (feed : DvbDemuxFeed) : FeedMode :=
  if feed.tsType.payloadOnly ∧ c.info.capPes ∧ ¬ s.TsActive feed.pid then .pes else .ts

/-- The interrupt of the queue is enabled at the end. -/
def DvbDemuxFeed.wantsIrq (feed : DvbDemuxFeed) : Bool := feed.type = .sec ∨ feed.tsType.packet

theorem Wired.starts_pes (h : Wired s) (hp : feed.tsType.payloadOnly = true) :
    Starts s feed (feed.marksTs c) (s.startFeedPes c feed) (s.startMode c feed) := by
  have hmark : feed.marksTs c = false := by simp [DvbDemuxFeed.marksTs, hp]
  rw [hmark]
  unfold Napi.startFeedPes Napi.startMode
  split
  · rename_i hcap
    rw [if_neg (by simp [hcap])]
    exact h.starts_queue .ts false
  · rename_i hcap
    split
    · rename_i hact
      rw [if_neg (by simp [hact])]
      exact h.starts_queue .ts false
    · rename_i hact
      rw [if_pos ⟨hp, by simpa using hcap, hact⟩]
      exact h.starts_queue .pes false

theorem Wired.starts_ts (h : Wired s) (hp : feed.tsType.payloadOnly = false)
    (ht : feed.type ≠ .sec) :
    Starts s feed (feed.marksTs c) (s.startFeedTs c feed) (s.startMode c feed) := by
  have hmode : s.startMode c feed = .ts := by simp [Napi.startMode, hp]
  rw [hmode]
  unfold Napi.startFeedTs
  split
  · rename_i hcap
    have hmark : feed.marksTs c = false := by simp [DvbDemuxFeed.marksTs, hcap]
    rw [hmark]
    exact h.starts_queue .ts false
  · rename_i hcap
    have hmark : feed.marksTs c = true := by
      simp only [DvbDemuxFeed.marksTs, hp]
      simpa [ht] using hcap
    rw [hmark]
    exact h.starts_queue .ts true

/-- The result of a start by type, after the tap of the pid has been stopped. -/
def StartsTyped (c : NapiConfig) (s : Napi) (feed : DvbDemuxFeed)
    (r : Napi × DvbDemuxFeed × Option Errno) : Prop :=
  (∃ err, r.2.2 = some err ∧ Unchanged s r.1 ∧ s.dmx.queueAlloc feed = none) ∨
  ∃ e n k own mode t, s.dmx.queueAlloc feed = some (e, n) ∧
    (n < queueUserStart → mode = s.startMode c feed) ∧
    Opened s t feed.pid mode (feed.marksTs c) own n k ∧
    r = (if feed.isDecoder then t.handOver c feed.pid false else t,
      { feed with priv := some n }, none)

theorem startsTyped_of {r : Napi × DvbDemuxFeed × Option Errno} (hne : feed.type ≠ .sec) :
    Starts s feed (feed.marksTs c) r (s.startMode c feed) →
    StartsTyped c s feed (match r with
      | (s, feed, none) =>
        (if feed.tsType.decoder then s.handOver c feed.pid false else s, feed, none)
      | r => r) := by
  intro h
  obtain ⟨t, f, err⟩ := r
  rcases h with ⟨err', herr, hun, halloc⟩ | ⟨e, n, k, own, halloc, hopen, hr⟩
  · simp only at herr
    subst herr
    exact .inl ⟨err', rfl, hun, halloc⟩
  · cases hr
    refine .inr ⟨e, n, k, own, _, t, halloc, fun _ => rfl, hopen, ?_⟩
    simp [DvbDemuxFeed.isDecoder, hne]

theorem Wired.startByType (h : Wired s) (stack : Stack) :
    StartsTyped c s feed (s.startByType c stack feed) := by
  unfold Napi.startByType
  split
  · rename_i htype
    obtain ⟨mode, hstart⟩ : ∃ mode, Starts s feed false (s.startFeedSection c stack feed) mode :=
      h.starts_section stack
    have hmark : feed.marksTs c = false := by simp [DvbDemuxFeed.marksTs, htype]
    rcases hstart with herr | ⟨e, n, k, own, halloc, hopen, hr⟩
    · exact .inl herr
    · refine .inr ⟨e, n, k, own, mode, _, halloc, ?_, hmark ▸ hopen, ?_⟩
      · intro hn
        rcases (queueAlloc_some halloc).2.2.2 with hsys | ⟨-, huser⟩
        · simp [DvbDemuxFeed.systemQueue, htype] at hsys
        · omega
      · rw [← hr]
        simp [DvbDemuxFeed.isDecoder, htype]
  · rename_i htype
    exact .inl ⟨.einval, rfl, Unchanged.refl s, by simp [Dmx.queueAlloc, htype]⟩
  · rename_i hsec _
    refine startsTyped_of hsec ?_
    split
    · rename_i hp
      exact h.starts_pes hp
    · rename_i hp
      exact h.starts_ts (by simpa using hp) hsec

/-- The feed as it is started. -/
def NapiConfig.prepare (c : NapiConfig) (feed : DvbDemuxFeed) : DvbDemuxFeed :=
  if c.frontend = some .hardware then Napi.forDecoder c feed else feed

/-- The feed takes no queue. -/
def NapiConfig.withoutQueue (c : NapiConfig) (feed : DvbDemuxFeed) : Prop :=
  (c.frontend = some .memory ∧ feed.isClipmodeFeed = false) ∨
  (feed.type ≠ .sec ∧ feed.pcrOnly = true)

instance (c : NapiConfig) (feed : DvbDemuxFeed) : Decidable (c.withoutQueue feed) :=
  inferInstanceAs (Decidable (_ ∨ _))

/-- A feed has been started on a queue, and the interrupt been asked for. -/
structure StartedOn (c : NapiConfig) (s t : Napi) (feed : DvbDemuxFeed) (n : Nat) (k : Fin 32)
    (own : Bool) (mode : FeedMode) : Prop where
  alloc : ∃ e, s.dmx.queueAlloc feed = some (e, n)
  mode_eq : n < queueUserStart → mode = s.startMode c feed
  opened : ∃ t₀, Opened s t₀ feed.pid mode (feed.marksTs c) own n k ∧
    (if feed.isDecoder then t₀.handOver c feed.pid false else t₀).tsPid = t.tsPid ∧
    Dmx.Same (if feed.isDecoder then t₀.handOver c feed.pid false else t₀).dmx t.dmx
  wired : Wired t

/-- The result of a start on a queue: it fails where the interrupt is taken. -/
def Begins (c : NapiConfig) (s : Napi) (feed : DvbDemuxFeed)
    (r : Napi × DvbDemuxFeed × Option Errno) : Prop :=
  ∃ n k own mode, StartedOn c s r.1 feed n k own mode ∧
    r.2.1 = { feed with priv := some n } ∧
    (r.2.2 ≠ none ↔ feed.wantsIrq = true ∧ s.ClientWaits n feed.pid mode)

theorem Wired.startWithQueue (h : Wired s) (stack : Stack)
    (hq : ¬ ((feed.type = .ts ∨ feed.type = .pes) ∧ feed.pcrOnly = true)) :
    (∃ err, (s.startWithQueue c stack feed).2.2 = some err ∧
      Unchanged s (s.startWithQueue c stack feed).1 ∧ s.dmx.queueAlloc feed = none) ∨
    Begins c s feed (s.startWithQueue c stack feed) := by
  have hstart : StartsTyped c s feed (s.startByType c stack feed) := h.startByType stack
  unfold Napi.startWithQueue
  rw [if_neg hq]
  rcases hstart with ⟨err, herr, hun, hnone⟩ |
    ⟨e, n, k, own, mode, t, halloc, hmode, hopen, hr⟩
  · left
    split
    · rename_i heq
      rw [heq] at herr
      cases herr
    · exact ⟨err, herr, hun, hnone⟩
  · right
    rw [hr]
    let t₁ := if feed.isDecoder then t.handOver c feed.pid false else t
    have hwired : Wired t₁ ∧ t₁.dmx.queueList = t.dmx.queueList := by
      simp only [t₁]
      split
      · have hho := (hopen.wired h).handOver (c := c) feed.pid false
        exact ⟨hho.2, hho.1.queueList⟩
      · exact ⟨hopen.wired h, rfl⟩
    have hbusy : (t₁.dmx.queueList n).busy = true := by rw [hwired.2, hopen.busy]
    have hsame := Dmx.same_irqEnable t₁.dmx n
    have hresult : (t₁.dmx.irqEnable n).2 ≠ none ↔ s.ClientWaits n feed.pid mode := by
      rw [Dmx.irqEnable_result, ← hopen.irqUsed, hwired.2]
      cases (t.dmx.queueList n).irqUsed <;> simp
    simp only
    by_cases hirq : feed.type = .sec ∨ feed.tsType.packet = true
    · rw [if_pos hirq]
      refine ⟨n, k, own, mode, ⟨⟨e, halloc⟩, hmode, ⟨t, hopen, rfl, hsame⟩, ?_⟩, rfl, ?_⟩
      · exact hwired.1.same hsame (hwired.1.idle.irqEnable hbusy)
      · simp only [DvbDemuxFeed.wantsIrq, hirq, decide_true, true_and]
        exact hresult
    · rw [if_neg hirq]
      have hrefl : Dmx.Same t₁.dmx t₁.dmx := ⟨rfl, fun m => DmxQueue.Same.refl _⟩
      refine ⟨n, k, own, mode, ⟨⟨e, halloc⟩, hmode, ⟨t, hopen, rfl, hrefl⟩, hwired.1⟩, rfl, ?_⟩
      simp [DvbDemuxFeed.wantsIrq, hirq]

/-- What `start_feed` does: an error without effect, a feed without queue, or a
feed on a queue. -/
theorem Wired.startFeed (h : Wired s) (stack : Stack) (feed : DvbDemuxFeed) :
    (∃ err, (s.startFeed c stack feed).2.2 = some err ∧
      Unchanged s (s.startFeed c stack feed).1 ∧
      (c.frontend = none ∨ s.dmx.queueAlloc (c.prepare feed) = none)) ∨
    (c.withoutQueue (c.prepare feed) ∧ c.frontend ≠ none ∧
      s.startFeed c stack feed = (s, c.prepare feed, none)) ∨
    (¬ c.withoutQueue (c.prepare feed) ∧ c.frontend ≠ none ∧
      Begins c s (c.prepare feed) (s.startFeed c stack feed)) := by
  have key : ∀ f : DvbDemuxFeed, ¬ (c.frontend = some .memory ∧ f.isClipmodeFeed = false) →
      c.frontend ≠ none →
      (∃ err, (s.startWithQueue c stack f).2.2 = some err ∧
        Unchanged s (s.startWithQueue c stack f).1 ∧
        (c.frontend = none ∨ s.dmx.queueAlloc f = none)) ∨
      (c.withoutQueue f ∧ c.frontend ≠ none ∧ s.startWithQueue c stack f = (s, f, none)) ∨
      (¬ c.withoutQueue f ∧ c.frontend ≠ none ∧
        Begins c s f (s.startWithQueue c stack f)) := by
    intro f hclip hfront
    by_cases hq : (f.type = .ts ∨ f.type = .pes) ∧ f.pcrOnly = true
    · refine .inr (.inl ⟨.inr ⟨?_, hq.2⟩, hfront, by unfold Napi.startWithQueue; rw [if_pos hq]⟩)
      rcases hq.1 with hty | hty <;> simp [hty]
    · rcases h.startWithQueue stack hq with ⟨err, herr, hun, hnone⟩ | hbeg
      · exact .inl ⟨err, herr, hun, .inr hnone⟩
      · refine .inr (.inr ⟨?_, hfront, hbeg⟩)
        rintro (hmem | ⟨hsec, hpcr⟩)
        · exact hclip hmem
        · obtain ⟨n, k, own, mode, hon, -, -⟩ := hbeg
          obtain ⟨e, halloc⟩ := hon.alloc
          cases hty : f.type with
          | ts => exact hq ⟨.inl hty, hpcr⟩
          | pes => exact hq ⟨.inr hty, hpcr⟩
          | sec => exact hsec hty
          | unknown => simp [Dmx.queueAlloc, hty] at halloc
  unfold Napi.startFeed NapiConfig.prepare
  cases hfront : c.frontend with
  | none => exact .inl ⟨.einval, rfl, Unchanged.refl s, .inl rfl⟩
  | some src =>
    rw [hfront] at key
    cases src with
    | memory =>
      have hprep : (if some FrontendSource.memory = some .hardware then Napi.forDecoder c feed
          else feed) = feed := if_neg (by simp)
      simp only [hprep]
      by_cases hclip : feed.isClipmodeFeed = true
      · rw [if_neg (by simpa using hclip)]
        exact key feed (by simp [hclip]) (by simp)
      · rw [if_pos (by simpa using hclip)]
        exact .inr (.inl ⟨.inl ⟨hfront, by simpa using hclip⟩, by simp, rfl⟩)
    | hardware =>
      simp only [if_true]
      exact key _ (by simp) (by simp)

/-! ## Stopping a feed -/

/-- A queue is given back with its feed. -/
structure Closed (s t : Napi) (n : Nat) (k : Fin 32) : Prop where
  feed : (s.dmx.ucode.ucodeFeed k).destQueue = some n
  others : ∀ m, m ≠ n → DmxQueue.Same (s.dmx.queueList m) (t.dmx.queueList m)
  free : (t.dmx.queueList n).busy = false
  feeds : t.dmx.ucode.ucodeFeed = Function.update s.dmx.ucode.ucodeFeed k
    (Ucode.removed (s.dmx.ucode.ucodeFeed k))
  table : ∀ j, j ≠ k → t.dmx.ucode.pidSearchTable j = s.dmx.ucode.pidSearchTable j
  invalid : (t.dmx.ucode.pidSearchTable k).invalid = true
  tsPid : t.tsPid = Function.update s.tsPid n 0xFFFF#16
  idle : t.dmx.Idle
  irqs : t.dmx.ucode.irqsEnabled = s.dmx.ucode.irqsEnabled
  sections : SectionsUsed t.dmx.ucode

theorem Wired.stopQueue (h : Wired s) (info : UcodeInfo) {n : Nat} {k : Fin 32}
    (hk : (s.dmx.ucode.ucodeFeed k).destQueue = some n) :
    Closed s (s.stopQueue n).1 n k ∧ (s.stopQueue n).2 = none := by
  obtain ⟨hn, hb⟩ := h.bound k n hk
  have hsingle : ∀ j, (s.dmx.ucode.ucodeFeed j).destQueue = some n ↔ j = k := by
    intro j
    constructor
    · exact fun hj => h.unique j k n hj hk
    · rintro rfl
      exact hk
  have hqueues := Dmx.queueStop_queues s.dmx n
  have hucode := Dmx.queueStop_ucode hsingle
  have hb' : ((s.dmx.queueStop n).queueList n).busy = true := by
    have hnow := hqueues n
    rw [if_pos rfl] at hnow
    rw [hnow.busy]
    exact hb
  have hfree := Dmx.freeQueue_busy (d := s.dmx.queueStop n) (n := n)
    (by simp only [queueCount]; omega) hb'
  have hdis := Dmx.same_irqDisable (s.dmx.queueStop n) n
  have hused : (s.dmx.ucode.ucodeFeed k).destQueue ≠ none := by simp [hk]
  have hremove := Ucode.stopFeed_remove hused
  unfold Napi.stopQueue
  simp only [hfree, and_true]
  constructor
  case feed => exact hk
  case others =>
    intro m hm
    have hm' := hqueues m
    rw [if_neg hm] at hm'
    simp only [Dmx.setQueue_queueList, Function.update_of_ne hm]
    exact hm'.trans (hdis.queues m)
  case free => simp
  case feeds =>
    simp only [Dmx.setQueue_ucode, hdis.ucode, hucode, hremove]
    simp only [Ucode.setPidTable, Ucode.removeFeed_ucodeFeed]
  case table =>
    intro j hj
    simp only [Dmx.setQueue_ucode, hdis.ucode, hucode, hremove]
    simp only [Ucode.setPidTable, Ucode.removeFeed_pidSearchTable, Function.update_of_ne hj]
  case invalid =>
    simp only [Dmx.setQueue_ucode, hdis.ucode, hucode, hremove]
    simp [Ucode.setPidTable]
  case tsPid => rfl
  case idle =>
    have hidle : (s.dmx.queueStop n).Idle := h.idle.queueStop
    refine hidle.irqDisable.setQueue ?_
    intro _
    refine ⟨Dmx.irqDisable_irqUsed _ n, ?_⟩
    have hpid := (hdis.queues n).pid
    have hstop := (hqueues n).pid
    rw [if_pos rfl] at hstop
    rw [hpid, hstop]
  case irqs =>
    simp only [Dmx.setQueue_ucode, hdis.ucode, hucode, hremove]
    exact Ucode.removeFeed_irqsEnabled k
  case sections =>
    simp only [Dmx.setQueue_ucode, hdis.ucode, hucode]
    exact h.sections.stopFeed info k

section
variable {n : Nat} {k : Fin 32}

theorem Closed.feed_other (o : Closed s t n k) {j : Fin 32} (hj : j ≠ k) :
    t.dmx.ucode.ucodeFeed j = s.dmx.ucode.ucodeFeed j := by
  rw [o.feeds, Function.update_of_ne hj]

/-- A feed that is still used was there, for another queue. -/
theorem Closed.feed_cases (o : Closed s t n k) (h : Wired s) {j : Fin 32} {m : Nat}
    (hj : (t.dmx.ucode.ucodeFeed j).destQueue = some m) :
    j ≠ k ∧ m ≠ n ∧ (s.dmx.ucode.ucodeFeed j).destQueue = some m := by
  have hjk : j ≠ k := by
    rintro rfl
    rw [o.feeds, Function.update_self] at hj
    cases hj
  rw [o.feed_other hjk] at hj
  refine ⟨hjk, ?_, hj⟩
  rintro rfl
  exact hjk (h.unique j k m hj o.feed)

theorem Closed.wired (o : Closed s t n k) (h : Wired s) : Wired t where
  idle := o.idle
  irqs := by rw [o.irqs, h.irqs]
  sections := o.sections
  bound := by
    intro j m hj
    obtain ⟨-, hm, hold⟩ := o.feed_cases h hj
    rw [(o.others m hm).busy]
    exact h.bound j m hold
  unique := by
    intro i j m hi hj
    exact h.unique i j m (o.feed_cases h hi).2.2 (o.feed_cases h hj).2.2
  served := by
    intro m hm hb
    have hmn : m ≠ n := by
      rintro rfl
      rw [o.free] at hb
      cases hb
    rw [(o.others m hmn).busy] at hb
    obtain ⟨i, hi⟩ := h.served m hm hb
    have hik : i ≠ k := by
      rintro rfl
      rw [o.feed] at hi
      exact hmn (Option.some.inj hi).symm
    exact ⟨i, by rw [o.feed_other hik, hi]⟩
  tsPid := by
    intro m
    by_cases hmn : m = n
    · subst hmn
      exact .inl (by rw [o.tsPid, Function.update_self])
    · have hq := o.others m hmn
      rw [o.tsPid, Function.update_of_ne hmn, hq.busy, hq.pid, hq.feedIdx]
      refine (h.tsPid m).imp_right ?_
      rintro ⟨hb, hp, i, hi, hd⟩
      refine ⟨hb, hp, i, hi, ?_⟩
      have hik : i ≠ k := by
        rintro rfl
        rw [o.feed] at hd
        exact hmn (Option.some.inj hd).symm
      rw [o.feed_other hik, hd]
  feedPid := by
    intro j m hj
    obtain ⟨hjk, hm, hold⟩ := o.feed_cases h hj
    rw [o.feed_other hjk, (o.others m hm).pid]
    exact h.feedPid j m hold
  entry := by
    intro j hj
    have hjk : j ≠ k := by
      rintro rfl
      rw [o.invalid] at hj
      cases hj
    rw [o.table j hjk] at hj ⊢
    obtain ⟨m, hm, hp⟩ := h.entry j hj
    have hmn : m ≠ n := by
      rintro rfl
      exact hjk (h.unique j k m hm o.feed)
    rw [o.feed_other hjk]
    exact ⟨m, hm, by rw [hp, (o.others m hmn).pid]⟩

end

end

end Tuxbox.Avia
