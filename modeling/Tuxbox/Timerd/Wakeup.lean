import Tuxbox.Timerd.Manager
import Mathlib.Data.List.Induction

/-! The searches for the next announcement: the one that decides whether the box
is switched off when a recording ends, and the one that sets the wake-up timer.
Both use zero for "nothing found yet", which is also the announcement of an
event that has none.

Main results: `search_seen`, `searches_right_iff`. -/
namespace Tuxbox.Timerd

/-! ## The search -/

/-- One round: a time replaces a later one, and it replaces zero. -/
def zeroMin (next announceTime : Int) : Int :=
  if announceTime < next ∨ next = 0 then announceTime else next

def search (times : List Int) : Int := times.foldl zeroMin 0

/-- The time is seen by the search: no zero comes after it, unless a negative
time makes the zeros harmless. -/
def Seen (times : List Int) (t : Int) : Prop :=
  t ≠ 0 ∧ ((t ∈ times ∧ ∃ a ∈ times, a < 0) ∨
    ∃ before after, times = before ++ t :: after ∧ 0 ∉ after)

theorem Seen.mem {times : List Int} {t : Int} (h : Seen times t) : t ∈ times := by
  rcases h with ⟨_, ⟨hmem, _⟩ | ⟨before, after, rfl, _⟩⟩
  · exact hmem
  · simp

theorem seen_last {times : List Int} {a : Int} (ha : a ≠ 0) : Seen (times ++ [a]) a :=
  ⟨ha, .inr ⟨times, [], rfl, by simp⟩⟩

theorem seen_append {times : List Int} {a t : Int} (ha : a ≠ 0) (h : Seen times t) :
    Seen (times ++ [a]) t := by
  obtain ⟨ht, ⟨hmem, b, hb, hneg⟩ | ⟨before, after, rfl, hafter⟩⟩ := h
  · exact ⟨ht, .inl ⟨List.mem_append_left _ hmem, b, List.mem_append_left _ hb, hneg⟩⟩
  · exact ⟨ht, .inr ⟨before, after ++ [a], by simp, by simp [hafter, Ne.symm ha]⟩⟩

/-- What is seen after one more time. -/
theorem seen_append_cases {times : List Int} {a t : Int} (h : Seen (times ++ [a]) t) :
    t = a ∨ (t ∈ times ∧ a < 0) ∨ (t ∈ times ∧ ∃ b ∈ times, b < 0) ∨ (a ≠ 0 ∧ Seen times t) := by
  obtain ⟨ht, ⟨hmem, b, hb, hneg⟩ | ⟨before, after, heq, hafter⟩⟩ := h
  · simp only [List.mem_append, List.mem_singleton] at hmem hb
    rcases hmem with hmem | rfl
    · rcases hb with hb | rfl
      · exact .inr (.inr (.inl ⟨hmem, b, hb, hneg⟩))
      · exact .inr (.inl ⟨hmem, hneg⟩)
    · exact .inl rfl
  · induction after using List.reverseRecOn with
    | nil =>
      have h := List.append_inj_right' heq rfl
      exact .inl (by simpa using h.symm)
    | append_singleton after c _ =>
      rw [← List.cons_append, ← List.append_assoc] at heq
      obtain ⟨htimes, hc⟩ := List.append_inj' heq rfl
      have hca : a = c := by simpa using hc
      simp only [List.mem_append, List.mem_singleton, not_or] at hafter
      exact .inr (.inr (.inr ⟨hca ▸ Ne.symm hafter.2, ht, .inr ⟨before, after, htimes, hafter.1⟩⟩))

/-- The search ends with the earliest of the times it sees; with zero if it sees
none. The induction takes the times from the end, as a zero undoes what was
found before it. -/
theorem search_seen (times : List Int) :
    (search times ≠ 0 → Seen times (search times)) ∧
      ∀ t, Seen times t → search times ≠ 0 ∧ search times ≤ t := by
  induction times using List.reverseRecOn with
  | nil => exact ⟨fun h => absurd rfl h, fun t h => absurd h.mem (by simp)⟩
  | append_singleton times a ih =>
    obtain ⟨hfound, hleast⟩ := ih
    have hstep : search (times ++ [a]) = zeroMin (search times) a := by simp [search]
    -- a negative time is seen wherever it stands
    have hneg : (∃ b ∈ times, b < 0) → ∀ t ∈ times, t ≠ 0 → search times < 0 ∧ search times ≤ t := by
      rintro ⟨b, hb, hb0⟩ t ht ht0
      have h1 := (hleast b ⟨by omega, .inl ⟨hb, b, hb, hb0⟩⟩).2
      have h2 := (hleast t ⟨ht0, .inl ⟨ht, b, hb, hb0⟩⟩).2
      exact ⟨by omega, h2⟩
    rw [hstep]
    unfold zeroMin
    constructor
    · intro h0
      split at h0 <;> rename_i hc
      · rw [if_pos hc]
        exact seen_last h0
      · rw [if_neg hc]
        have hs := hfound h0
        by_cases ha : a = 0
        · have hlt : search times < 0 := by omega
          exact ⟨h0, .inl ⟨List.mem_append_left _ hs.mem, _, List.mem_append_left _ hs.mem, hlt⟩⟩
        · exact seen_append ha hs
    · intro t ht
      have ht0 := ht.1
      rcases seen_append_cases ht with rfl | ⟨hmem, ha⟩ | ⟨hmem, hb⟩ | ⟨ha, hs⟩
      · split <;> omega
      · by_cases htneg : t < 0
        · obtain ⟨h1, h2⟩ := hneg ⟨t, hmem, htneg⟩ t hmem ht0
          split <;> omega
        · split <;> omega
      · obtain ⟨h1, h2⟩ := hneg hb t hmem ht0
        split <;> omega
      · obtain ⟨h1, h2⟩ := hleast t hs
        split <;> omega

/-- The search finds something by a given time if and only if it sees something
by then. -/
theorem search_by_iff (times : List Int) (limit : Int) :
    (search times ≠ 0 ∧ search times ≤ limit) ↔ ∃ t, Seen times t ∧ t ≤ limit := by
  obtain ⟨hfound, hleast⟩ := search_seen times
  constructor
  · rintro ⟨h0, hle⟩
    exact ⟨_, hfound h0, hle⟩
  · rintro ⟨t, hs, hle⟩
    obtain ⟨h0, ht⟩ := hleast t hs
    exact ⟨h0, by omega⟩

/-- The earliest of the times that are not zero; zero if there is none. -/
def Earliest (times : List Int) (t : Int) : Prop :=
  (t = 0 ∧ ∀ a ∈ times, a = 0) ∨ (t ≠ 0 ∧ t ∈ times ∧ ∀ a ∈ times, a ≠ 0 → t ≤ a)

theorem search_earliest_iff (times : List Int) :
    Earliest times (search times) ↔ ∀ a ∈ times, a ≠ 0 → ∃ t, Seen times t ∧ t ≤ a := by
  obtain ⟨hfound, hleast⟩ := search_seen times
  constructor
  · rintro (⟨_, hnone⟩ | ⟨h0, _, hmin⟩) a ha ha0
    · exact absurd (hnone a ha) ha0
    · exact ⟨_, hfound h0, hmin a ha ha0⟩
  · intro h
    have hle (a : Int) (ha : a ∈ times) (ha0 : a ≠ 0) : search times ≠ 0 ∧ search times ≤ a :=
      (search_by_iff times a).mpr (h a ha ha0)
    by_cases h0 : search times = 0
    · left
      refine ⟨h0, fun a ha => ?_⟩
      by_contra ha0
      exact (hle a ha ha0).1 h0
    · right
      exact ⟨h0, (hfound h0).mem, fun a ha ha0 => (hle a ha ha0).2⟩

/-! ## The two loops -/

/-- Recordings and zaps. -/
def CTimerEvent.switchesChannel (e : CTimerEvent) : Bool := e.data.isRecord || e.data.isZapto

/-- What the loop of `shutdownOnWakeup` looks at. -/
def plannedOther (currEventID : Nat) (e : CTimerEvent) : Bool :=
  e.switchesChannel &&
    decide (e.eventState = .scheduled ∨ e.eventState = .preannounce ∨ e.eventState = .isRunning) &&
    decide (e.eventID ≠ currEventID)

theorem nextAnnounceTime_eq (currEventID : Nat) (es : List CTimerEvent) (next : Int) :
    CTimerManager.nextAnnounceTime currEventID es next =
      ((es.filter (plannedOther currEventID)).map (·.announceTime)).foldl zeroMin next := by
  induction es generalizing next with
  | nil => rfl
  | cons e es ih =>
    by_cases hp : plannedOther currEventID e
    · have hp' := hp
      simp only [plannedOther, CTimerEvent.switchesChannel, Bool.and_eq_true,
        decide_eq_true_eq] at hp'
      obtain ⟨⟨hdata, hstate⟩, hid⟩ := hp'
      rw [List.filter_cons_of_pos hp, List.map_cons, List.foldl_cons, ← ih]
      unfold zeroMin
      by_cases hc : e.announceTime < next ∨ next = 0
      · simp only [CTimerManager.nextAnnounceTime, hdata, hstate, hid, hc, ne_eq, not_false_eq_true,
          and_self, if_true]
      · simp only [CTimerManager.nextAnnounceTime, hc, and_false, if_false]
    · have hp' := hp
      simp only [plannedOther, CTimerEvent.switchesChannel, Bool.and_eq_true,
        decide_eq_true_eq] at hp'
      rw [List.filter_cons_of_neg hp, ← ih, CTimerManager.nextAnnounceTime, if_neg]
      rintro ⟨hdata, hstate, hid, _⟩
      exact hp' ⟨⟨hdata, hstate⟩, hid⟩

/-- The loop of `shutdown`: only what is planned counts. -/
def nextWakeupTime : List CTimerEvent → Int → Int
  | [], next => next
  | e :: es, next =>
    if (e.data.isRecord || e.data.isZapto) ∧ e.eventState = .scheduled ∧
        (e.announceTime < next ∨ next = 0) then
      nextWakeupTime es e.announceTime
    else nextWakeupTime es next

def planned (e : CTimerEvent) : Bool := e.switchesChannel && decide (e.eventState = .scheduled)

theorem nextWakeupTime_eq (es : List CTimerEvent) (next : Int) :
    nextWakeupTime es next = ((es.filter planned).map (·.announceTime)).foldl zeroMin next := by
  induction es generalizing next with
  | nil => rfl
  | cons e es ih =>
    by_cases hp : planned e
    · have hp' := hp
      simp only [planned, CTimerEvent.switchesChannel, Bool.and_eq_true, decide_eq_true_eq] at hp'
      obtain ⟨hdata, hstate⟩ := hp'
      rw [List.filter_cons_of_pos hp, List.map_cons, List.foldl_cons, ← ih]
      unfold zeroMin
      by_cases hc : e.announceTime < next ∨ next = 0
      · simp only [nextWakeupTime, hdata, hstate, hc, and_self, if_true]
      · simp only [nextWakeupTime, hc, and_false, if_false]
    · have hp' := hp
      simp only [planned, CTimerEvent.switchesChannel, Bool.and_eq_true, decide_eq_true_eq] at hp'
      rw [List.filter_cons_of_neg hp, ← ih, nextWakeupTime, if_neg]
      rintro ⟨hdata, hstate, _⟩
      exact hp' ⟨hdata, hstate⟩

namespace World

def storedEvents (w : World) : List CTimerEvent := w.events.entries.map Prod.snd

/-- The announcements `shutdownOnWakeup` looks at, in the order of the ids. -/
def otherAnnouncements (w : World) (currEventID : Nat) : List Int :=
  (w.storedEvents.filter (plannedOther currEventID)).map (·.announceTime)

/-- The announcements `shutdown` looks at. -/
def plannedAnnouncements (w : World) : List Int :=
  (w.storedEvents.filter planned).map (·.announceTime)

end World

/-! ## When a recording ends -/

/-- The time an event waits for next. -/
def CTimerEvent.dueTime (e : CTimerEvent) : Int :=
  if e.announceTime = 0 then e.alarmTime else e.announceTime

/-- It is running, or it is planned for the next ten minutes. -/
def InTheWay (now : Int) (e : CTimerEvent) : Prop :=
  e.eventState = .isRunning ∨
    ((e.eventState = .scheduled ∨ e.eventState = .preannounce) ∧
      now ≤ e.dueTime ∧ e.dueTime ≤ now + 600)

namespace World

def AddsShutdown (w : World) (now : Int) (currEventID : Nat) : Prop :=
  w.shutdownOnWakeup now currEventID = w.addNew (wakeupShutdown now w.nextTag)

/-- Nothing keeps the box from being switched off. -/
def Idle (w : World) (now : Int) (currEventID : Nat) : Prop :=
  ∀ e ∈ w.storedEvents, e.switchesChannel = true → e.eventID ≠ currEventID → ¬ InTheWay now e

theorem addNew_ne (w : World) (evt : CTimerEvent) : w ≠ w.addNew evt := by
  intro h
  have := congrArg (fun w => w.log.length) h
  simp [addNew] at this

theorem addsShutdown_iff (w : World) (now : Int) (currEventID : Nat) :
    w.AddsShutdown now currEventID ↔
      w.timerWakeup = true ∧ ¬ ∃ t, Seen (w.otherAnnouncements currEventID) t ∧ t ≤ now + 600 := by
  have hdue : w.toCTimerManager.shutdownDue now currEventID = true ↔
      w.timerWakeup = true ∧ ¬ ∃ t, Seen (w.otherAnnouncements currEventID) t ∧ t ≤ now + 600 := by
    rw [← search_by_iff]
    simp only [CTimerManager.shutdownDue, nextAnnounceTime_eq, Bool.and_eq_true, Bool.or_eq_true,
      decide_eq_true_eq]
    apply and_congr_right
    intro _
    simp only [search, otherAnnouncements, storedEvents]
    omega
  rw [← hdue, AddsShutdown, shutdownOnWakeup]
  split <;> rename_i h
  · simp [h]
  · simp only [h, Bool.false_eq_true, iff_false]
    exact w.addNew_ne _

/-- A shutdown is added only with the wake-up flag set and nothing in the way if
and only if, with the flag set and something in the way, the search sees an
announcement at most ten minutes from now. -/
theorem addsShutdown_safe_iff (w : World) (now : Int) (currEventID : Nat) :
    (w.AddsShutdown now currEventID → w.timerWakeup = true ∧ w.Idle now currEventID) ↔
      (w.timerWakeup = true → (∃ e ∈ w.storedEvents, e.switchesChannel = true ∧
          e.eventID ≠ currEventID ∧ InTheWay now e) →
        ∃ t, Seen (w.otherAnnouncements currEventID) t ∧ t ≤ now + 600) := by
  rw [addsShutdown_iff]
  constructor
  · rintro h hwake ⟨e, hmem, hdata, hid, hway⟩
    by_contra hnone
    exact (h ⟨hwake, hnone⟩).2 e hmem hdata hid hway
  · rintro h ⟨hwake, hnone⟩
    refine ⟨hwake, fun e hmem hdata hid hway => ?_⟩
    exact hnone (h hwake ⟨e, hmem, hdata, hid, hway⟩)

/-- **When the two searches are right.** A shutdown is added only with the
wake-up flag set and no other recording or zap in the way if and only if, where
the flag is set and one is in the way, the search sees an announcement at most
ten minutes from now. The wake-up time is the earliest announcement that is
planned if and only if the search sees, for each of them, one that is no later.
An event without announcement hides every event with a smaller id. -/
theorem searches_right_iff (w : World) (now : Int) (currEventID : Nat) :
    ((w.AddsShutdown now currEventID → w.timerWakeup = true ∧ w.Idle now currEventID) ↔
      (w.timerWakeup = true → (∃ e ∈ w.storedEvents, e.switchesChannel = true ∧
          e.eventID ≠ currEventID ∧ InTheWay now e) →
        ∃ t, Seen (w.otherAnnouncements currEventID) t ∧ t ≤ now + 600)) ∧
    (Earliest w.plannedAnnouncements (nextWakeupTime w.storedEvents 0) ↔
      ∀ a ∈ w.plannedAnnouncements, a ≠ 0 → ∃ t, Seen w.plannedAnnouncements t ∧ t ≤ a) := by
  constructor
  · exact w.addsShutdown_safe_iff now currEventID
  · rw [nextWakeupTime_eq]
    exact search_earliest_iff w.plannedAnnouncements

end World

def recordingAt (eventID : Nat) (eventState : EventState) (announceTime alarmTime : Int) :
    CTimerEvent :=
  ⟨0, eventID, .record ⟨0, 0, 0, 0⟩ [] [], eventState, .scheduled, repeatOnce, 1, alarmTime, 0,
    announceTime⟩

/-- A box woken up by a timer, with these events. -/
def wokenWith (es : List CTimerEvent) : World where
  extraTimeStart := 0
  extraTimeEnd := 0
  zaptoExtraTimeStart := 0
  eventID := es.length
  events := .ofList (es.map fun e => (e.eventID, e))
  timerWakeup := true
  saveEvents := false
  isTimeSet := true
  file := ⟨none, []⟩
  log := []
  loads := []
  nextTag := 0

/-- A recording is running that was started without an announcement, and the
event that ends is another one: the shutdown is planned all the same. Planned
recordings with announcements 5000 and none leave the wake-up timer unset. -/
theorem shutdown_while_recording :
    ((wokenWith [recordingAt 1 .scheduled 1300 1360, recordingAt 2 .isRunning 0 900]).AddsShutdown
        1000 3 ∧
      ¬ (wokenWith
        [recordingAt 1 .scheduled 1300 1360, recordingAt 2 .isRunning 0 900]).Idle 1000 3) ∧
    nextWakeupTime (wokenWith [recordingAt 1 .scheduled 5000 5060,
      recordingAt 2 .scheduled 0 9000]).storedEvents 0 = 0 := by
  refine ⟨⟨if_pos (by decide), fun h => ?_⟩, by decide⟩
  exact h (recordingAt 2 .isRunning 0 900) (by decide) (by decide) (by decide) (.inl rfl)

end Tuxbox.Timerd
