import Tuxbox.Enigma.RepeatTimer
import Tuxbox.Enigma.TimerHandles
import Mathlib

/-!
# The next event of enigma's timer list
-/

namespace Tuxbox.Enigma

open PlaylistEntry

namespace TimerManager

/-- When an event starts. -/
def start (c : Clock) (n : TimerNode) : Int :=
  if n.entry.has isRepeating then c.startTime n.entry else n.entry.timeBegin

/-- An event that `setNextEvent` compares with the others. -/
def CanStart (c : Clock) (n : TimerNode) : Prop :=
  start c n - c.now < 2147483647 ∧
    if n.entry.has isRepeating then c.now < start c n + n.entry.duration
    else n.entry.has stateWaiting = true ∧ n.entry.has stateError = false ∧
      c.now ≤ start c n + n.entry.duration

instance (c : Clock) (n : TimerNode) : Decidable (CanStart c n) :=
  inferInstanceAs (Decidable (_ ∧ _))

instance (c : Clock) (n : TimerNode) : Decidable (Stops c n) :=
  inferInstanceAs (Decidable (_ ∧ _))

/-- What the loop keeps of the best event. -/
def timeToEvent (c : Clock) (best : Option TimerNode) : Int :=
  best.elim 2147483647 fun n => start c n - c.now

/-- The better one of two events, the first one if they are as good. -/
def better (c : Clock) (best : Option TimerNode) (n : TimerNode) : Option TimerNode :=
  List.argAux (fun a b => start c a < start c b) best n

/-- One round of the loop. -/
def round (c : Clock) (best : Option TimerNode) (n : TimerNode) : Option TimerNode :=
  if CanStart c n then better c best n else best

variable {c : Clock}

/-- Whether an event is the new best one. -/
theorem round_eq {best : Option TimerNode} (hbest : ∀ b ∈ best, start c b - c.now < 2147483647)
    (n : TimerNode) (hn : CanStart c n ↔ start c n - c.now < 2147483647) :
    round c best n = if start c n - c.now < timeToEvent c best then some n else best := by
  unfold round better
  cases best with
  | none => simp only [hn, timeToEvent, Option.elim_none, List.argAux]; congr
  | some b =>
    have hb := hbest b rfl
    by_cases hsooner : start c n < start c b
    · have hstart : start c n - c.now < 2147483647 := by omega
      have htime : start c n - c.now < timeToEvent c (some b) := Int.sub_lt_sub_right hsooner _
      rw [if_pos (hn.mpr hstart), if_pos htime, List.argAux]
      exact if_pos hsooner
    · have htime : ¬start c n - c.now < timeToEvent c (some b) := fun h =>
        hsooner (Int.lt_of_sub_lt_sub_right h)
      rw [if_neg htime, List.argAux]
      simp only [if_neg hsooner, ite_self]

theorem round_of_not {best : Option TimerNode} {n : TimerNode} (hn : ¬CanStart c n) :
    round c best n = best := if_neg hn

theorem parseEvents_round {best : Option TimerNode}
    (hbest : ∀ b ∈ best, start c b - c.now < 2147483647) {n : TimerNode} (hn : ¬Stops c n)
    (l : List TimerNode) :
    (parseEvents c (best.map (·.handle)) (timeToEvent c best) (n :: l)).2 =
      (parseEvents c ((round c best n).map (·.handle)) (timeToEvent c (round c best n)) l).2 := by
  cases hrep : n.entry.has isRepeating with
  | true =>
    have hstart : start c n = c.startTime n.entry := by
      rw [start, hrep, if_pos rfl]
    simp only [parseEvents, hrep, if_true]
    by_cases hdue : c.now < c.startTime n.entry + n.entry.duration
    · rw [round_eq hbest n (by simp only [CanStart, hrep, if_true, hstart, hdue, and_true]), hstart]
      split
      · rename_i hsooner
        rw [if_pos hsooner.1]
        simp only [Option.map_some, timeToEvent, Option.elim_some, hstart]
      · rename_i hsooner
        rw [if_neg (fun h => hsooner ⟨h, hdue⟩)]
    · rw [round_of_not (by simp only [CanStart, hrep, if_true, hstart, hdue, and_false,
        not_false_iff]), if_neg (fun h => hdue h.2)]
  | false =>
    have hstart : start c n = n.entry.timeBegin := by
      rw [start, hrep]
      rfl
    simp only [parseEvents, hrep, Bool.false_eq_true, if_false]
    cases hwait : n.entry.has stateWaiting with
    | false =>
      rw [round_of_not (by simp [CanStart, hrep, hwait])]
      cases hdo : n.entry.has doFinishOnly with
      | true => rfl
      | false => rfl
    | true =>
      cases herr : n.entry.has stateError with
      | true =>
        rw [round_of_not (by simp [CanStart, hrep, herr])]
        rfl
      | false =>
        by_cases hout : n.entry.timeBegin + n.entry.duration < c.now
        · rw [round_of_not (by simp [CanStart, hrep, hstart, hout]), if_pos hout]
          rfl
        · have hdo : n.entry.has doFinishOnly = false := by
            by_contra hdo
            exact hn ⟨hrep, hwait, herr, not_lt.mp hout, Bool.eq_true_of_not_eq_false hdo⟩
          have hcan : CanStart c n ↔ start c n - c.now < 2147483647 := by
            simp [CanStart, hrep, hwait, herr, hstart, not_lt.mp hout]
          rw [round_eq hbest n hcan, hstart, hdo, if_neg hout]
          by_cases hsooner : n.entry.timeBegin - c.now < timeToEvent c best
          · rw [if_pos hsooner, if_pos hsooner, ← hstart]
            rfl
          · rw [if_neg hsooner, if_neg hsooner]
            rfl

theorem round_bound {best : Option TimerNode}
    (hbest : ∀ b ∈ best, start c b - c.now < 2147483647) (n : TimerNode) :
    ∀ b ∈ round c best n, start c b - c.now < 2147483647 := by
  by_cases hn : CanStart c n
  · rw [round_eq hbest n (iff_of_true hn hn.1)]
    split
    · rintro b ⟨⟩
      exact hn.1
    · exact hbest
  · rw [round_of_not hn]
    exact hbest

/-- The event that the loop chooses, from the best one so far. -/
theorem parseEvents_choice (l : List TimerNode) : ∀ {best : Option TimerNode},
    (∀ b ∈ best, start c b - c.now < 2147483647) →
    (parseEvents c (best.map (·.handle)) (timeToEvent c best) l).2 =
      ((l.find? fun n => Stops c n).or ((l.filter fun n => CanStart c n).foldl (better c) best)).map
        (·.handle) := by
  induction l with
  | nil =>
    intro best _
    rfl
  | cons n l ih =>
    intro best hbest
    by_cases hn : Stops c n
    · rcases parseEvents_cons (c := c) (best.map (·.handle)) (timeToEvent c best) n l with
        ⟨-, heq⟩ | ⟨hold, -⟩ | ⟨hstop, -⟩
      · simp only [heq, List.find?_cons, hn, decide_true, Option.some_or, Option.map_some]
      · exact absurd hold hn.not_old
      · exact absurd hn hstop
    · rw [parseEvents_round hbest hn, ih (round_bound hbest n), List.find?_cons, List.filter_cons]
      simp only [hn, decide_false, round]
      by_cases hcan : CanStart c n
      · simp only [hcan, if_true, decide_true, List.foldl_cons]
      · simp only [hcan, if_false, decide_false, Bool.false_eq_true]

/-- After `setNextEvent` the event comes next that ends the loop, or else the first
of the earliest. -/
theorem setNextEvent_next {s t : TimerManager} (ht : s.setNextEvent c = some t) :
    t.nextStartingEvent = ((s.list.find? fun n => Stops c n).or
      ((s.list.filter fun n => CanStart c n).argmin (start c))).map (·.handle) := by
  have hchoice := @parseEvents_choice c s.list none (by simp)
  have hframe := leavePrevEvent_frame ht
  exact hframe.next.trans hchoice

/-- Two events wait, and the later one is first in the list. -/
def twoWaiting : TimerManager :=
  (empty.pushBack ⟨0, -1, 7200, 600, stateWaiting⟩).pushBack ⟨1, -1, 3600, 600, stateWaiting⟩

def midnight : Clock := ⟨0, fun _ _ _ _ => 0, fun _ => 0⟩

theorem twoWaiting_next :
    { twoWaiting with nextStartingEvent := some 1, nextAction := .zap }.nextStartingEvent =
      ((twoWaiting.list.find? fun n => Stops midnight n).or
        ((twoWaiting.list.filter fun n => CanStart midnight n).argmin (start midnight))).map
          (·.handle) :=
  setNextEvent_next (s := twoWaiting)
    (t := { twoWaiting with nextStartingEvent := some 1, nextAction := .zap }) rfl

end TimerManager

namespace Repeat

/-! ## The calendar -/

/-- The calendar of the timer list. -/
def clock (offset now : Int) : Clock := ⟨now, getNextEventStartTime offset now, getDate offset⟩

/-- A timer that starts on the day of its run does not start again on that day. -/
theorem started_once {offset now later : Int} {e : PlaylistEntry}
    (h : Sane offset now e.duration e.type none) (hday : ∃ w < 7, OnDay e.type w)
    (htoday : localDay offset ((clock offset now).startTime { e with lastActivation := -1 }) =
      localDay offset now)
    (hlater : InRange offset later) (hle : localDay offset now ≤ localDay offset later) :
    localDay offset now <
      localDay offset ((clock offset later).startTime ((clock offset now).activate e)) := by
  generalize hr : (clock offset now).startTime { e with lastActivation := -1 } = r at htoday
  have hact : (clock offset now).activate e =
      { e with lastActivation := lastActivation offset (some r) } := by
    rw [← hr]
    rfl
  have hr' : InRange offset r := by
    rw [InRange, htoday]
    exact h.present
  have hsane : Sane offset later e.duration e.type (some r) := by
    refine ⟨hlater, h.length, h.type, fun l hl => ?_⟩
    cases hl
    exact ⟨hr', by omega⟩
  rw [hact]
  obtain ⟨k, -, hon, -, hnext⟩ | ⟨hnone, -⟩ := next_cases (t := e.timeBegin) hsane
  · have hfresh := ((run_iff hsane _).mpr ⟨k, hon, rfl⟩).fresh r rfl
    have hslip := slip_nonneg (Civil.civil (localDay offset later)).year
      (Civil.civil (localDay offset later)).mon (localDay offset later + k)
    have hstart : (clock offset later).startTime
        { e with lastActivation := lastActivation offset (some r) } = _ := hnext
    rw [hstart]
    generalize slip _ _ _ = days at hslip
    have hmono : ∀ x, localDay offset x ≤ localDay offset (x + 86400 * days) := by
      intro x
      unfold localDay
      omega
    have := hmono (runIn offset later e.timeBegin k)
    omega
  · obtain ⟨w, hw, hon⟩ := hday
    exact absurd hon (hnone w hw)

/-- Started on a Sunday, and looked at again an hour later. -/
theorem sunday_once :
    localDay 3600 1000000000 < localDay 3600 ((clock 3600 1000003600).startTime
      ((clock 3600 1000000000).activate ⟨0, -1, 7200, 3600, 786432⟩)) :=
  started_once ⟨by decide, by decide, by decide, by simp⟩ ⟨0, by decide, by decide⟩
    (by decide +kernel) (by decide) (by decide)

end Repeat

end Tuxbox.Enigma
