import Tuxbox.Sectionsd.Index
import Mathlib.Data.Int.ConditionallyCompleteOrder
import Mathlib.Data.List.MinMax

/-! The search for the event that comes next in a channel. Main result:
`findNextSIevent_next`. -/
namespace Tuxbox.Sectionsd

namespace Store

/-- The time of the same event behind the one that starts at `zeit`, if the event has
several. -/
def nextNvodTime (e : SIevent) (zeit : SItime) : Option SItime :=
  if e.times.size > 1 then
    match e.times.entries.dropWhile (·.1 ≠ zeit.startzeit) with
    | [] => none
    | _ :: behind => behind.head?.map fun t => ⟨t.1, t.2⟩
  else none

/-- One turn of the loop over the times of an event. -/
def nextTime (zeit : SItime) (o : Nat) (next : Option (Nat × SItime)) (t : Int × Nat) :
    Option (Nat × SItime) :=
  if t.1 > zeit.startzeit then
    match next with
    | some n => if t.1 < n.2.startzeit then some (o, ⟨t.1, t.2⟩) else some n
    | none => some (o, ⟨t.1, t.2⟩)
  else next

/-- `eNext` and `nexttimes`, where the latter is valid. -/
def nextTimes (s : Store) (channelId : Nat) (zeit : SItime) : Option (Nat × SItime) :=
  s.endSet.foldl
    (fun next o =>
      if (s.heap o).channelId = channelId then (s.heap o).times.entries.foldl (nextTime zeit o) next
      else next)
    none

/-- The event, `none` for the null event, and the new `zeit`. -/
def findNextSIevent (s : Store) (uniqueKey : Nat) (zeit : SItime) : Option Nat × SItime :=
  match s.orderUniqueKey.find uniqueKey with
  | none => (none, zeit)
  | some eFirst =>
    match s.nextTimes (s.heap eFirst).channelId zeit, nextNvodTime (s.heap eFirst) zeit with
    | some (eNext, t), some nvod =>
      if t.startzeit < nvod.startzeit then (some eNext, t) else (some eFirst, nvod)
    | some (eNext, t), none => (some eNext, t)
    | none, some nvod => (some eFirst, nvod)
    | none, none => (none, zeit)

/-- A stored event of the channel has this time, which starts behind `zeit`. -/
structure LaterTime (s : Store) (channelId : Nat) (zeit : SItime) (o : Nat) (t : SItime) :
    Prop where
  stored : s.Stored o
  channel : (s.heap o).channelId = channelId
  time : (t.startzeit, t.dauer) ∈ (s.heap o).times.entries
  later : zeit.startzeit < t.startzeit

section
variable {s : Store} {channelId : Nat} {zeit : SItime}

/-- The times of a channel, in the order of the set. -/
def channelTimes (s : Store) (channelId : Nat) : List (Nat × SItime) :=
  s.endSet.flatMap fun o =>
    if (s.heap o).channelId = channelId then
      (s.heap o).times.entries.map fun t => (o, ⟨t.1, t.2⟩)
    else []

theorem mem_channelTimes {o : Nat} {t : SItime} : (o, t) ∈ s.channelTimes channelId ↔
    o ∈ s.endSet ∧ (s.heap o).channelId = channelId ∧
      (t.startzeit, t.dauer) ∈ (s.heap o).times.entries := by
  unfold channelTimes
  rw [List.mem_flatMap]
  constructor
  · rintro ⟨p, hp, hmem⟩
    split at hmem
    · rename_i hchannel
      obtain ⟨e, he, heq⟩ := List.mem_map.mp hmem
      cases heq
      exact ⟨hp, hchannel, he⟩
    · cases hmem
  · rintro ⟨ho, hchannel, ht⟩
    refine ⟨o, ho, ?_⟩
    rw [if_pos hchannel]
    exact List.mem_map.mpr ⟨_, ht, rfl⟩

theorem timed_of_mem {e : SIevent} {t : Int × Nat} (h : t ∈ e.times.entries) :
    e.timed = true := by
  unfold SIevent.timed
  cases hentries : e.times.entries with
  | nil =>
    rw [hentries] at h
    cases h
  | cons _ _ => rfl

theorem mem_later_iff (h : Indexed s) {o : Nat} {t : SItime} :
    (o, t) ∈ (s.channelTimes channelId).filter (fun c => zeit.startzeit < c.2.startzeit) ↔
      s.LaterTime channelId zeit o t := by
  rw [List.mem_filter, mem_channelTimes, decide_eq_true_eq, h.sets.endMem]
  constructor
  · rintro ⟨⟨⟨hstored, -⟩, hchannel, htime⟩, hlater⟩
    exact ⟨hstored, hchannel, htime, hlater⟩
  · rintro ⟨hstored, hchannel, htime, hlater⟩
    exact ⟨⟨⟨hstored, timed_of_mem htime⟩, hchannel, htime⟩, hlater⟩

/-- The loops look for the first of the least start times. -/
theorem nextTimes_eq (s : Store) (channelId : Nat) (zeit : SItime) :
    s.nextTimes channelId zeit =
      ((s.channelTimes channelId).filter fun c => zeit.startzeit < c.2.startzeit).argmin
        (fun c => c.2.startzeit) := by
  unfold nextTimes channelTimes List.argmin
  rw [List.foldl_filter, List.foldl_flatMap]
  congr 1
  funext next o
  split
  · rw [List.foldl_map]
    congr 1
    funext next t
    unfold nextTime List.argAux
    cases next with
    | none => simp
    | some n => simp
  · rfl

theorem nextTimes_none (h : Indexed s) (hnone : s.nextTimes channelId zeit = none) (o : Nat)
    (t : SItime) : ¬ s.LaterTime channelId zeit o t := by
  rw [nextTimes_eq, List.argmin_eq_none] at hnone
  rw [← mem_later_iff h, hnone]
  exact List.not_mem_nil

theorem nextTimes_some (h : Indexed s) {o : Nat} {t : SItime}
    (hsome : s.nextTimes channelId zeit = some (o, t)) : s.LaterTime channelId zeit o t ∧
      ∀ p u, s.LaterTime channelId zeit p u → t.startzeit ≤ u.startzeit := by
  rw [nextTimes_eq] at hsome
  constructor
  · exact (mem_later_iff h).mp (List.argmin_mem hsome)
  · intro p u hu
    exact List.le_of_mem_argmin (f := fun c : Nat × SItime => c.2.startzeit)
      ((mem_later_iff h).mpr hu) hsome

/-- The times of an event are in ascending order. -/
theorem nextNvodTime_later {e : SIevent} {t : SItime} (h : nextNvodTime e zeit = some t) :
    (t.startzeit, t.dauer) ∈ e.times.entries ∧ zeit.startzeit < t.startzeit := by
  unfold nextNvodTime at h
  split at h
  · cases hdrop : e.times.entries.dropWhile (·.1 ≠ zeit.startzeit) with
    | nil =>
      rw [hdrop] at h
      cases h
    | cons first behind =>
      rw [hdrop] at h
      obtain ⟨u, hu, rfl⟩ := Option.map_eq_some_iff.mp h
      have hsuffix : (first :: behind).IsSuffix e.times.entries :=
        hdrop ▸ List.dropWhile_suffix _
      have hmem := List.mem_of_mem_head? hu
      have hsorted := List.pairwise_cons.mp (e.times.sorted.sublist hsuffix.sublist)
      have hfirst : first.1 = zeit.startzeit := by
        have hhead := List.head?_dropWhile_not
          (fun t : Int × Nat => decide (t.1 ≠ zeit.startzeit)) e.times.entries
        rw [hdrop] at hhead
        simpa using hhead
      exact ⟨hsuffix.mem (List.mem_cons_of_mem first hmem), hfirst ▸ hsorted.1 u hmem⟩
  · cases h

/-- The search finds the earliest time of the channel behind the given one, or there is none. -/
theorem findNextSIevent_next (h : Indexed s) {uniqueKey eFirst : Nat}
    (hkey : s.orderUniqueKey.find uniqueKey = some eFirst) (zeit : SItime) :
    (s.findNextSIevent uniqueKey zeit = (none, zeit) ∧
        ∀ o t, ¬ s.LaterTime (s.heap eFirst).channelId zeit o t) ∨
      ∃ o t, s.findNextSIevent uniqueKey zeit = (some o, t) ∧
        s.LaterTime (s.heap eFirst).channelId zeit o t ∧
        ∀ p u, s.LaterTime (s.heap eFirst).channelId zeit p u → t.startzeit ≤ u.startzeit := by
  have hown : ∀ nvod, nextNvodTime (s.heap eFirst) zeit = some nvod →
      s.LaterTime (s.heap eFirst).channelId zeit eFirst nvod := by
    intro nvod hnvod
    obtain ⟨htime, hlater⟩ := nextNvodTime_later hnvod
    exact ⟨h.stored hkey, rfl, htime, hlater⟩
  unfold findNextSIevent
  simp only [hkey]
  cases hnext : s.nextTimes (s.heap eFirst).channelId zeit with
  | none =>
    have hnone := nextTimes_none h hnext
    cases hnvod : nextNvodTime (s.heap eFirst) zeit with
    | none => exact .inl ⟨rfl, hnone⟩
    | some nvod => exact absurd (hown nvod hnvod) (hnone eFirst nvod)
  | some next =>
    obtain ⟨eNext, t⟩ := next
    obtain ⟨hlater, hleast⟩ := nextTimes_some h hnext
    right
    cases hnvod : nextNvodTime (s.heap eFirst) zeit with
    | none => exact ⟨eNext, t, rfl, hlater, hleast⟩
    | some nvod =>
      dsimp only
      split
      · exact ⟨eNext, t, rfl, hlater, hleast⟩
      · rename_i hnot
        refine ⟨eFirst, nvod, rfl, hown nvod hnvod, fun p u hu => ?_⟩
        exact le_trans (not_lt.mp hnot) (hleast p u hu)

end

/-- An event that starts at 1000 and again at 3000, one of its channel between them, and one
of another channel. -/
def sampleSchedule : Store :=
  [sampleEvent 1 1 1000, sampleEvent 1 1 3000, sampleEvent 1 2 2000, sampleEvent 2 1 1500].foldl
    (addNVODevent · sampleEnv) sampleStart

/-- Behind its own start at 1000, the channel goes on with the other event, and behind that one
with the second time of the first. -/
theorem findNextSIevent_sample : Indexed sampleSchedule ∧
    ∀ c ∈ [((1000 : Int), (2 : UInt16), (2000 : Int)), (2000, 1, 3000)], ∃ o t,
      sampleSchedule.findNextSIevent (sampleEvent 1 1 1000).uniqueKey ⟨c.1, 0⟩ = (some o, t) ∧
      (sampleSchedule.heap o).eventID = c.2.1 ∧ t.startzeit = c.2.2 ∧
      ∀ p u, LaterTime sampleSchedule (sampleEvent 1 1 1000).channelId ⟨c.1, 0⟩ p u →
        t.startzeit ≤ u.startzeit := by
  have hindexed : Indexed sampleSchedule := by
    iterate 4 apply addNVODevent_indexed
    exact initial_indexed _
  refine ⟨hindexed, fun c hc => ?_⟩
  have hresult : ((sampleSchedule.findNextSIevent (sampleEvent 1 1 1000).uniqueKey ⟨c.1, 0⟩).1.map
      fun o => (sampleSchedule.heap o).eventID) = some c.2.1 ∧
      (sampleSchedule.findNextSIevent (sampleEvent 1 1 1000).uniqueKey ⟨c.1, 0⟩).2.startzeit =
        c.2.2 := by
    revert c
    decide +kernel
  have hkey : sampleSchedule.orderUniqueKey.find (sampleEvent 1 1 1000).uniqueKey = some 1 := by
    decide +kernel
  rcases findNextSIevent_next hindexed hkey ⟨c.1, 0⟩ with ⟨hnone, -⟩ | ⟨o, t, hsome, -, hleast⟩
  · rw [hnone] at hresult
    cases hresult.1
  · rw [hsome] at hresult
    exact ⟨o, t, hsome, Option.some_inj.mp hresult.1, hresult.2, hleast⟩

end Store

end Tuxbox.Sectionsd
