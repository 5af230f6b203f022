import Tuxbox.Timerd.Change
import Tuxbox.Lib.Civil

/-! A time zone with a standard offset and an hour of summer time, and what a
reschedule does in it.

Main results: `advances_iff`, `clock_kept`. -/
namespace Tuxbox.Timerd

/-- `dst` says when it is summer time. -/
structure Zone where
  offset : Int
  dst : Int → Bool

namespace Zone
variable (z : Zone)

/-- What the clock on the wall shows, in seconds. -/
def localTime (t : Int) : Int := t + z.offset + if z.dst t then 3600 else 0

/-- The seconds on the clock of a broken-down time. -/
def clock (t : Tm) : Int :=
  86400 * Civil.dayNumber (t.year + 1900) t.mon t.mday + 3600 * t.hour + 60 * t.min + t.sec

/-- The C library for the zone. `mktime` takes `tm_isdst` at its word. -/
def libC : LibC where
  localtime t :=
    let clock := z.localTime t
    let date := Civil.civil (clock / 86400)
    { sec := clock % 60, min := clock / 60 % 60, hour := clock / 3600 % 24
      mday := date.mday, mon := date.mon, year := date.year - 1900
      wday := (clock / 86400 + 4) % 7, yday := clock / 86400 - Civil.dayNumber date.year 0 1
      isdst := if z.dst t then 1 else 0 }
  mktime t := clock t - z.offset - if t.isdst > 0 then 3600 else 0

theorem clock_later (t k : Int) :
    clock { z.libC.localtime t with mday := (z.libC.localtime t).mday + k } =
      z.localTime t + 86400 * k := by
  simp only [clock, libC, Int.sub_add_cancel, Civil.dayNumber_add, Civil.dayNumber_civil]
  omega

theorem mktime_later (t k : Int) :
    z.libC.mktime { z.libC.localtime t with mday := (z.libC.localtime t).mday + k } =
      t + 86400 * k := by
  have h := z.clock_later t k
  simp only [libC] at h ⊢
  rw [h, localTime]
  split <;> simp only [gt_iff_lt, Int.zero_lt_one, lt_self_iff_false, if_true, if_false] <;> omega

theorem mktime_localtime (t : Int) : z.libC.mktime (z.libC.localtime t) = t := by
  have h := z.mktime_later t 0
  simpa using h

theorem mktime_next_month (t : Int) :
    ∃ k, 28 ≤ k ∧ k ≤ 31 ∧
      z.libC.mktime { z.libC.localtime t with mon := (z.libC.localtime t).mon + 1 } =
        t + 86400 * k := by
  have hsame := z.mktime_localtime t
  simp only [libC, clock] at hsame ⊢
  generalize (Civil.civil (z.localTime t / 86400)) = date at hsame
  have hnext := Civil.dayNumber_next_month (date.year - 1900 + 1900) date.mon date.mday
  refine ⟨Civil.dayNumber (date.year - 1900 + 1900) (date.mon + 1) date.mday -
    Civil.dayNumber (date.year - 1900 + 1900) date.mon date.mday, ?_, ?_, ?_⟩ <;> omega

theorem localtime_isdst (t : Int) : (z.libC.localtime t).isdst = if z.dst t then 1 else 0 := rfl

/-! ## One round -/

/-- Where a round ends that steps some days on. -/
def stepped (t days : Int) : Int :=
  let u := t + 86400 * days
  if z.dst u ∧ ¬ z.dst t then u - 3600 else if z.dst t ∧ ¬ z.dst u then u + 3600 else u

theorem stepped_later {t days : Int} (hdays : 1 ≤ days) : t + 82800 ≤ z.stepped t days := by
  unfold stepped
  simp only
  split
  · omega
  · split <;> omega

/-- The day that the clock moves to has its time, and then the round ends there;
or the clock was put forward over it. -/
theorem localTime_stepped_iff (t days : Int) :
    z.localTime (z.stepped t days) = z.localTime t + 86400 * days ↔
      ∃ u, z.localTime u = z.localTime t + 86400 * days := by
  constructor
  · intro h
    exact ⟨_, h⟩
  · rintro ⟨u, hu⟩
    unfold localTime at hu
    -- `u` is one of the two times the clock can mean
    have hcases : (u = t + 86400 * days + (if z.dst t then 3600 else 0) ∧ z.dst u = false) ∨
        (u = t + 86400 * days + (if z.dst t then 3600 else 0) - 3600 ∧ z.dst u = true) := by
      cases hd : z.dst u with
      | false =>
        rw [hd] at hu
        simp only [Bool.false_eq_true, if_false] at hu
        exact .inl ⟨by omega, rfl⟩
      | true =>
        rw [hd] at hu
        simp only [if_true] at hu
        exact .inr ⟨by omega, rfl⟩
    unfold stepped localTime
    cases ht : z.dst t <;> cases hs : z.dst (t + 86400 * days) <;>
      simp only [ht, Bool.false_eq_true, if_true, if_false, add_zero] at hcases
    all_goals
      simp only [hs, Bool.false_eq_true, not_false_eq_true, not_true_eq_false, and_true, and_false,
        and_self, if_true, if_false]
    · omega
    · -- the clock was put forward since
      rcases hcases with ⟨rfl, hu⟩ | ⟨rfl, hu⟩
      · rw [hs] at hu
        cases hu
      · rw [hu]
        simp only [if_true]
        omega
    · rcases hcases with ⟨rfl, hu⟩ | ⟨rfl, hu⟩
      · rw [hu]
        simp only [Bool.false_eq_true, if_false]
        omega
      · have heq : t + 86400 * days + 3600 - 3600 = t + 86400 * days := by omega
        rw [heq, hs] at hu
        cases hu
    · omega

end Zone

namespace CTimerEvent

/-- The event with its alarm at another time; announcement and stop move along. -/
def moved (e : CTimerEvent) (t : Int) : CTimerEvent :=
  { e with
    alarmTime := t
    announceTime := if e.announceTime > 0 then e.announceTime + (t - e.alarmTime) else e.announceTime
    stopTime := if e.stopTime > 0 then e.stopTime + (t - e.alarmTime) else e.stopTime }

theorem moved_self (e : CTimerEvent) : e.moved e.alarmTime = e := by
  simp [moved]

theorem advanceTimes_eq (z : Zone) {e : CTimerEvent} {t' : Tm} {days : Int}
    (hadvance : advance e.eventRepeat (z.libC.localtime e.alarmTime) = some t')
    (hmktime : z.libC.mktime t' = e.alarmTime + 86400 * days) :
    e.advanceTimes z.libC = some (e.moved (z.stepped e.alarmTime days)) := by
  have hdiff : z.libC.mktime t' - e.alarmTime = 86400 * days := by omega
  have hmove : 86400 * days + dstCorrection (z.libC.localtime e.alarmTime).isdst
      (z.libC.localtime (e.alarmTime + 86400 * days)).isdst =
        z.stepped e.alarmTime days - e.alarmTime := by
    simp only [Zone.localtime_isdst, dstCorrection, Zone.stepped]
    by_cases h1 : z.dst e.alarmTime = true <;>
      by_cases h2 : z.dst (e.alarmTime + 86400 * days) = true <;> simp [h1, h2] <;> omega
  have hto : e.alarmTime + (z.stepped e.alarmTime days - e.alarmTime) =
    z.stepped e.alarmTime days := by
    omega
  simp only [advanceTimes, hadvance, hdiff, hmove, hto, moved]

/-- The repetitions that step a number of days. -/
def stepDays (eventRepeat : Int32) : Option Int :=
  if eventRepeat = repeatDaily then some 1
  else if eventRepeat = repeatWeekly then some 7
  else if eventRepeat = repeatBiweekly then some 14
  else if eventRepeat = repeatFourweekly then some 28
  else none

theorem advanceTimes_days (z : Zone) {e : CTimerEvent} {days : Int}
    (h : stepDays e.eventRepeat = some days) :
    e.advanceTimes z.libC = some (e.moved (z.stepped e.alarmTime days)) ∧ 1 ≤ days := by
  unfold stepDays at h
  constructor
  · apply advanceTimes_eq z _ (z.mktime_later e.alarmTime days)
    unfold advance
    split_ifs at h ⊢ <;> cases h <;> rfl
  · split_ifs at h <;> cases h <;> decide

theorem advanceTimes_monthly (z : Zone) {e : CTimerEvent} (h : e.eventRepeat = repeatMonthly) :
    ∃ days, 1 ≤ days ∧ e.advanceTimes z.libC = some (e.moved (z.stepped e.alarmTime days)) := by
  obtain ⟨days, hlow, -, heq⟩ := z.mktime_next_month e.alarmTime
  refine ⟨days, by omega, advanceTimes_eq z ?_ heq⟩
  rw [h]
  rfl

/-- On weekdays, with one set. -/
def OnWeekdays (eventRepeat : Int32) : Prop :=
  repeatWeekdays ≤ eventRepeat ∧ (eventRepeat.toInt.toNat >>> 9) &&& 0x7F ≠ 0

/-- The day the search finds is not used: the event stays where it is. -/
theorem advanceTimes_weekdays (z : Zone) {e : CTimerEvent} (h : OnWeekdays e.eventRepeat) :
    e.advanceTimes z.libC = some e := by
  obtain ⟨hlarge, hdays⟩ := h
  have hadvance : advance e.eventRepeat (z.libC.localtime e.alarmTime) =
      some (z.libC.localtime e.alarmTime) := by
    have hne (r : Int32) (hr : r < repeatWeekdays) : e.eventRepeat ≠ r := by
      rintro rfl
      exact absurd hlarge (Int32.not_le.mpr hr)
    unfold advance
    simp only [hne repeatDaily (by decide), hne repeatWeekly (by decide),
      hne repeatBiweekly (by decide),
      hne repeatFourweekly (by decide), hne repeatMonthly (by decide), hne repeatOnce (by decide),
      hne repeatByEventDescription (by decide), hlarge, hdays, or_self, and_false, if_true, if_false]
  have hstay : z.stepped e.alarmTime 0 = e.alarmTime := by
    simp [Zone.stepped]
  have hmktime : z.libC.mktime (z.libC.localtime e.alarmTime) = e.alarmTime + 86400 * 0 := by
    rw [z.mktime_localtime]
    omega
  rw [advanceTimes_eq z hadvance hmktime, hstay, moved_self]

/-! ## The whole of a reschedule -/

/-- What a reschedule does at its end. -/
def rearmed (e : CTimerEvent) : CTimerEvent :=
  { e with
    eventState := .scheduled
    repeatCount := if e.repeatCount > 0 then e.repeatCount - 1 else e.repeatCount }

theorem rescheduleTimes_eq {e : CTimerEvent} (h : e.eventRepeat ≠ repeatOnce) (lc : LibC) (env : Env)
    (force : Bool) :
    e.rescheduleTimes lc env force =
      (if force then e.advanceTimes lc else e.rescheduleLoop lc env.now env.rounds).map rearmed := by
  unfold rescheduleTimes
  rw [if_neg h]
  split <;> rename_i heq <;> rw [heq] <;> rfl

/-- A round of such an event ends at least 23 hours later. -/
theorem advanceTimes_later (z : Zone) {e : CTimerEvent}
    (h : (stepDays e.eventRepeat).isSome ∨ e.eventRepeat = repeatMonthly) :
    ∃ t, e.alarmTime + 82800 ≤ t ∧ e.advanceTimes z.libC = some (e.moved t) := by
  rcases h with h | h
  · obtain ⟨days, hdays⟩ := Option.isSome_iff_exists.mp h
    obtain ⟨heq, hpos⟩ := advanceTimes_days z hdays
    exact ⟨_, z.stepped_later hpos, heq⟩
  · obtain ⟨days, hpos, heq⟩ := advanceTimes_monthly z h
    exact ⟨_, z.stepped_later hpos, heq⟩

theorem rescheduleLoop_ends (z : Zone) (now : Int) {e : CTimerEvent}
    (h : (stepDays e.eventRepeat).isSome ∨ e.eventRepeat = repeatMonthly) (rounds : Nat)
    (hrounds : now < e.alarmTime + rounds) :
    ∃ e', e.rescheduleLoop z.libC now rounds = some e' ∧ now < e'.alarmTime := by
  induction rounds generalizing e with
  | zero =>
    have hlater : ¬ e.alarmTime ≤ now := by omega
    exact ⟨e, by simp [rescheduleLoop, hlater], by omega⟩
  | succ rounds ih =>
    by_cases hdue : e.alarmTime ≤ now
    · obtain ⟨t, ht, heq⟩ := advanceTimes_later z h
      have hnext := ih (e := e.moved t) h (by simp only [moved]; push_cast at hrounds; omega)
      simpa [rescheduleLoop, hdue, heq] using hnext
    · exact ⟨e, by simp [rescheduleLoop, hdue], by omega⟩

theorem rescheduleLoop_stays (z : Zone) {now : Int} {e : CTimerEvent} (h : OnWeekdays e.eventRepeat)
    (hdue : e.alarmTime ≤ now) (rounds : Nat) : e.rescheduleLoop z.libC now rounds = none := by
  induction rounds with
  | zero => simp [rescheduleLoop, hdue]
  | succ rounds ih => simp [rescheduleLoop, hdue, advanceTimes_weekdays z h, ih]

end CTimerEvent

namespace Zone

/-- The days an event on weekdays is for; Sunday is 0, as in `tm_wday`. -/
def Selected (eventRepeat : Int32) (wday : Int) : Prop :=
  (eventRepeat.toInt.toNat >>> 9).testBit ((wday + 6) % 7).toNat = true

/-- The time is on a selected day, and the clock shows its time of day on no
selected day between `now` and it. -/
def NextOccurrence (z : Zone) (eventRepeat : Int32) (now t : Int) : Prop :=
  Selected eventRepeat (z.libC.localtime t).wday ∧
    ∀ u, now < u → u < t → z.localTime u % 86400 = z.localTime t % 86400 →
      ¬ Selected eventRepeat (z.libC.localtime u).wday

/-- The time is on the first selected day after the day of the old one. -/
def NextSelectedDay (z : Zone) (eventRepeat : Int32) (old t : Int) : Prop :=
  z.localTime old / 86400 < z.localTime t / 86400 ∧ Selected eventRepeat (z.libC.localtime t).wday ∧
    ∀ day, z.localTime old / 86400 < day → day < z.localTime t / 86400 →
      ¬ Selected eventRepeat ((day + 4) % 7)

end Zone

/-- A repetition a timer can be given, on a set weekday at least. -/
def Repeating (eventRepeat : Int32) : Prop :=
  (CTimerEvent.stepDays eventRepeat).isSome = true ∨ eventRepeat = repeatMonthly ∨
    CTimerEvent.OnWeekdays eventRepeat

/-- `Reschedule` returns with a later alarm: a forced one after one round, any
other after now; on weekdays on the day that is next. -/
def Advances (z : Zone) (sdc : Sectionsd) (now : Int) (force : Bool) (e : CTimerEvent) : Prop :=
  ∃ rounds e', e.rescheduleTimes z.libC ⟨now, sdc, rounds, []⟩ force = some e' ∧
    if force then
      (e.advanceTimes z.libC).map (·.alarmTime) = some e'.alarmTime ∧ e.alarmTime < e'.alarmTime ∧
        (CTimerEvent.OnWeekdays e.eventRepeat →
          z.NextSelectedDay e.eventRepeat e.alarmTime e'.alarmTime)
    else
      now < e'.alarmTime ∧
        (CTimerEvent.OnWeekdays e.eventRepeat → z.NextOccurrence e.eventRepeat now e'.alarmTime)

theorem Repeating.ne_once {eventRepeat : Int32} (h : Repeating eventRepeat) :
    eventRepeat ≠ repeatOnce := by
  rintro rfl
  rcases h with h | h | ⟨h, -⟩
  · cases h
  · cases h
  · exact absurd h (by decide)

/-- **When a reschedule advances.** Every repetition in days or months does. One
on weekdays does only where there is nothing to do: the event is not forced, and
its alarm is already the next occurrence after now. Else a forced reschedule
leaves it where it is, and any other does not return. -/
theorem advances_iff (z : Zone) (sdc : Sectionsd) (now : Int) (force : Bool) (e : CTimerEvent)
    (h : Repeating e.eventRepeat) :
    Advances z sdc now force e ↔
      (¬ CTimerEvent.OnWeekdays e.eventRepeat ∨
        (force = false ∧ now < e.alarmTime ∧ z.NextOccurrence e.eventRepeat now e.alarmTime)) := by
  have heq (rounds : Nat) :=
    CTimerEvent.rescheduleTimes_eq h.ne_once z.libC ⟨now, sdc, rounds, []⟩ force
  unfold Advances
  simp only [heq]
  by_cases hweek : CTimerEvent.OnWeekdays e.eventRepeat
  · have hstay := CTimerEvent.advanceTimes_weekdays z hweek
    simp only [hweek, not_true_eq_false, false_or, forall_const]
    constructor
    · rintro ⟨rounds, e', hmap, hafter⟩
      obtain ⟨e'', hrun, rfl⟩ := Option.map_eq_some_iff.mp hmap
      clear hmap
      cases force with
      | true =>
        -- one round, which changes nothing
        rw [if_pos rfl, hstay] at hrun
        obtain rfl := Option.some_inj.mp hrun
        exact absurd hafter.2.1 (lt_irrefl _)
      | false =>
        rw [if_neg Bool.false_ne_true] at hrun hafter
        by_cases hdue : e.alarmTime ≤ now
        · rw [CTimerEvent.rescheduleLoop_stays z hweek hdue] at hrun
          cases hrun
        · have hloop : e.rescheduleLoop z.libC now rounds = some e := by
            cases rounds <;> simp [CTimerEvent.rescheduleLoop, hdue]
          rw [hloop] at hrun
          obtain rfl := Option.some_inj.mp hrun
          exact ⟨rfl, hafter⟩
    · rintro ⟨rfl, hlater, hnext⟩
      have hdue : ¬ e.alarmTime ≤ now := by omega
      have hloop :
        e.rescheduleLoop z.libC now 0 = some e := by simp [CTimerEvent.rescheduleLoop, hdue]
      exact ⟨0, e.rearmed, congrArg (Option.map CTimerEvent.rearmed) hloop, hlater, hnext⟩
  · have hdays :
      (CTimerEvent.stepDays e.eventRepeat).isSome = true ∨ e.eventRepeat = repeatMonthly := by
      rcases h with h | h | h
      · exact .inl h
      · exact .inr h
      · exact absurd h hweek
    simp only [hweek, not_false_eq_true, true_or, iff_true, false_imp_iff, and_true]
    cases force with
    | true =>
      obtain ⟨t, ht, hadvance⟩ := CTimerEvent.advanceTimes_later z hdays
      refine ⟨0, (e.moved t).rearmed, congrArg (Option.map CTimerEvent.rearmed) hadvance, ?_, ?_⟩
      · rw [hadvance]
        rfl
      · simp only [CTimerEvent.rearmed, CTimerEvent.moved]
        omega
    | false =>
      obtain ⟨e', hloop, hlater⟩ := CTimerEvent.rescheduleLoop_ends z now hdays
        (now + 1 - e.alarmTime).toNat (by omega)
      exact ⟨_, e'.rearmed, congrArg (Option.map CTimerEvent.rearmed) hloop, hlater⟩

/-- A zone an hour ahead, without summer time. -/
def winterOnly : Zone := ⟨3600, fun _ => false⟩

/-- A standby timer with an alarm at 1000. -/
def standbyAt (eventRepeat : Int32) (alarmTime : Int) : CTimerEvent :=
  ⟨0, 1, .standby true, .hasFinished, .isRunning, eventRepeat, 0, alarmTime, alarmTime + 600,
    alarmTime - 60⟩

/-- A daily one gets to the day after now. -/
theorem advances_iff_daily : Advances winterOnly (noEpg 0).sectionsd 500000 false
    (standbyAt repeatDaily 1000) :=
  (advances_iff winterOnly (noEpg 0).sectionsd 500000 false (standbyAt repeatDaily 1000)
    (.inl rfl)).mpr (.inl fun h => absurd h.1 (by decide))

/-- One on Mondays never returns, in any number of rounds, and a forced one stays
where it is. -/
theorem weekdays_stay :
    Repeating 0x200 ∧
    (∀ rounds, (standbyAt 0x200 1000).rescheduleTimes winterOnly.libC
      ⟨500000, (noEpg 0).sectionsd, rounds, []⟩ false = none) ∧
    (((standbyAt 0x200 1000).rescheduleTimes winterOnly.libC (noEpg 500000) true).map
      (·.alarmTime)) = some 1000 := by
  have hweek : CTimerEvent.OnWeekdays 0x200 := ⟨by decide, by decide⟩
  have hstay := CTimerEvent.advanceTimes_weekdays winterOnly (e := standbyAt 0x200 1000) hweek
  refine ⟨.inr (.inr hweek), fun rounds => ?_, ?_⟩
  · rw [CTimerEvent.rescheduleTimes_eq (by decide), if_neg Bool.false_ne_true]
    exact congrArg (Option.map CTimerEvent.rearmed)
      (CTimerEvent.rescheduleLoop_stays winterOnly hweek (show (1000 : Int) ≤ 500000 by
        decide) rounds)
  · rw [CTimerEvent.rescheduleTimes_eq (by decide), if_pos rfl, hstay]
    rfl

/-! ## The clock over many reschedules -/

/-- What some rounds in steps of days do to the times of an event. -/
structure Stepped (z : Zone) (days : Int) (rounds : Nat) (e e' : CTimerEvent) : Prop where
  eventRepeat : e'.eventRepeat = e.eventRepeat
  alarm : e'.alarmTime = (fun t => z.stepped t days)^[rounds] e.alarmTime
  stop : e.stopTime > 0 →
    e'.stopTime > 0 ∧ e'.stopTime - e'.alarmTime = e.stopTime - e.alarmTime
  announce : e.announceTime > 0 →
    e'.announceTime > 0 ∧ e'.alarmTime - e'.announceTime = e.alarmTime - e.announceTime

namespace Stepped
variable {z : Zone} {days : Int} {e e' e'' : CTimerEvent} {m n : Nat}

theorem refl (e : CTimerEvent) : Stepped z days 0 e e :=
  ⟨rfl, rfl, fun h => ⟨h, rfl⟩, fun h => ⟨h, rfl⟩⟩

theorem rearmed (h : Stepped z days n e e') : Stepped z days n e e'.rearmed :=
  ⟨h.eventRepeat, h.alarm, h.stop, h.announce⟩

theorem trans (h : Stepped z days m e e') (h' : Stepped z days n e' e'') :
    Stepped z days (n + m) e e'' where
  eventRepeat := h'.eventRepeat.trans h.eventRepeat
  alarm := by
    rw [h'.alarm, h.alarm, Function.iterate_add_apply]
  stop hpos := by
    obtain ⟨hpos', heq⟩ := h.stop hpos
    obtain ⟨hpos'', heq'⟩ := h'.stop hpos'
    exact ⟨hpos'', heq'.trans heq⟩
  announce hpos := by
    obtain ⟨hpos', heq⟩ := h.announce hpos
    obtain ⟨hpos'', heq'⟩ := h'.announce hpos'
    exact ⟨hpos'', heq'.trans heq⟩

theorem round (h : CTimerEvent.stepDays e.eventRepeat = some days)
    (hadvance : e.advanceTimes z.libC = some e') : Stepped z days 1 e e' := by
  obtain ⟨heq, hdays⟩ := CTimerEvent.advanceTimes_days z h
  rw [heq, Option.some.injEq] at hadvance
  subst hadvance
  have hlater := z.stepped_later (t := e.alarmTime) hdays
  refine ⟨rfl, rfl, fun hpos => ?_, fun hpos => ?_⟩
  · simp only [CTimerEvent.moved, hpos, if_true]
    omega
  · simp only [CTimerEvent.moved, hpos, if_true]
    omega

theorem loop {now : Int} {rounds : Nat} (h : CTimerEvent.stepDays e.eventRepeat = some days)
    (hloop : e.rescheduleLoop z.libC now rounds = some e') : ∃ n, Stepped z days n e e' := by
  induction rounds generalizing e with
  | zero =>
    simp only [CTimerEvent.rescheduleLoop] at hloop
    split at hloop
    · cases hloop
    · obtain rfl := Option.some_inj.mp hloop
      exact ⟨0, .refl e⟩
  | succ rounds ih =>
    simp only [CTimerEvent.rescheduleLoop] at hloop
    split at hloop
    · cases hadvance : e.advanceTimes z.libC with
      | none =>
        rw [hadvance] at hloop
        cases hloop
      | some u =>
        rw [hadvance] at hloop
        have hone := round h hadvance
        obtain ⟨n, hn⟩ := ih (hone.eventRepeat ▸ h) hloop
        exact ⟨n + 1, hone.trans hn⟩
    · obtain rfl := Option.some_inj.mp hloop
      exact ⟨0, .refl e⟩

theorem reschedule {env : Env} {force : Bool} (h : CTimerEvent.stepDays e.eventRepeat = some days)
    (hrun : e.rescheduleTimes z.libC env force = some e') : ∃ n, Stepped z days n e e' := by
  have honce : e.eventRepeat ≠ repeatOnce := by
    intro heq
    rw [heq] at h
    cases h
  rw [CTimerEvent.rescheduleTimes_eq honce] at hrun
  obtain ⟨u, hu, rfl⟩ := Option.map_eq_some_iff.mp hrun
  cases force with
  | true => exact ⟨1, (round h hu).rearmed⟩
  | false =>
    obtain ⟨n, hn⟩ := loop h hu
    exact ⟨n, hn.rearmed⟩

end Stepped

/-- Reschedules one after the other, each at its time, forced or not. -/
def rescheduleAll (z : Zone) (e : CTimerEvent) (calls : List (Env × Bool)) : Option CTimerEvent :=
  runList (fun e c => e.rescheduleTimes z.libC c.1 c.2) e calls

theorem rescheduleAll_stepped {z : Zone} {days : Int} {calls : List (Env × Bool)} {e e' : CTimerEvent}
    (h : CTimerEvent.stepDays e.eventRepeat = some days) (hrun : rescheduleAll z e calls = some e') :
    ∃ n, Stepped z days n e e' := by
  unfold rescheduleAll at hrun
  induction calls generalizing e with
  | nil =>
    obtain rfl := Option.some_inj.mp hrun
    exact ⟨0, .refl e⟩
  | cons c calls ih =>
    obtain ⟨u, hone, hrun⟩ := runList_cons hrun
    obtain ⟨m, hm⟩ := Stepped.reschedule h hone
    obtain ⟨n, hn⟩ := ih (hm.eventRepeat ▸ h) hrun
    exact ⟨n + m, hm.trans hn⟩

namespace Zone

/-- The clock shows the time of `t` some days later. -/
def Shows (z : Zone) (t days : Int) : Prop := ∃ u, z.localTime u = z.localTime t + 86400 * days

/-- As long as every day on the way has the time, every step gets there; and the
other way round. -/
theorem localTime_iterate_iff (z : Zone) (t days : Int) (n : Nat) :
    (∀ j ≤ n, z.localTime ((fun t => z.stepped t days)^[j] t) = z.localTime t + 86400 * (days * j)) ↔
      ∀ j ≤ n, z.Shows t (days * j) := by
  constructor
  · intro h j hj
    exact ⟨_, h j hj⟩
  · intro h j
    induction j with
    | zero => simp
    | succ j ih =>
      intro hj
      have hprev := ih (by omega)
      have hsum : z.localTime t + 86400 * (days * (j : Int)) + 86400 * days =
          z.localTime t + 86400 * (days * ((j + 1 : Nat) : Int)) := by
        rw [Nat.cast_add, Nat.cast_one, mul_add, mul_add, mul_one, add_assoc]
      rw [Function.iterate_succ_apply', ← hsum, ← hprev, localTime_stepped_iff, hprev, hsum]
      exact h (j + 1) hj

end Zone

/-- **What rescheduling keeps.** Over any sequence of reschedules of a repetition
in days, stop and announcement keep their distance from the alarm. With the
number of rounds that were made in all: if none of the days stepped to lacks the
time of the first alarm, the clock shows it at the last; it does so in
particular where that day has it exactly once. -/
theorem clock_kept (z : Zone) {days : Int} {calls : List (Env × Bool)} {e e' : CTimerEvent}
    (h : CTimerEvent.stepDays e.eventRepeat = some days) (hrun : rescheduleAll z e calls = some e') :
    (e.stopTime > 0 → e'.stopTime - e'.alarmTime = e.stopTime - e.alarmTime) ∧
    (e.announceTime > 0 → e'.alarmTime - e'.announceTime = e.alarmTime - e.announceTime) ∧
    ∃ n : Nat, e'.alarmTime = (fun t => z.stepped t days)^[n] e.alarmTime ∧
      ((∀ j ≤ n, z.Shows e.alarmTime (days * j)) →
        z.localTime e'.alarmTime = z.localTime e.alarmTime + 86400 * (days * n) ∧
        z.localTime e'.alarmTime % 86400 = z.localTime e.alarmTime % 86400) := by
  obtain ⟨n, hn⟩ := rescheduleAll_stepped h hrun
  refine ⟨fun hpos => (hn.stop hpos).2, fun hpos =>
    (hn.announce hpos).2, n, hn.alarm, fun hshows => ?_⟩
  have hclock := (z.localTime_iterate_iff e.alarmTime days n).mpr hshows n (Nat.le_refl n)
  rw [← hn.alarm] at hclock
  exact ⟨hclock, by omega⟩

/-- Summer time begins at 2 o'clock of the second day, for a month. -/
def secondDaySummer : Zone := ⟨0, fun t => decide (93600 ≤ t ∧ t < 2700000)⟩

/-- Every week has 2:30 on that day. -/
theorem secondDaySummer_shows (j : Nat) : secondDaySummer.Shows 9000 (7 * j) := by
  have hlocal (t : Int) : secondDaySummer.localTime t =
      t + if 93600 ≤ t ∧ t < 2700000 then 3600 else 0 := by
    simp [Zone.localTime, secondDaySummer]
  unfold Zone.Shows
  simp only [hlocal]
  by_cases hfirst : j = 0
  · exact ⟨9000, by subst hfirst; simp⟩
  by_cases hsummer : 9000 + 604800 * (j : Int) < 2703600
  · refine ⟨9000 + 604800 * j - 3600, ?_⟩
    rw [if_pos ⟨by omega, by omega⟩, if_neg (by omega)]
    omega
  · refine ⟨9000 + 604800 * j, ?_⟩
    rw [if_neg (by omega), if_neg (by omega)]
    omega

/-- Two forced reschedules by a week each, over the change. -/
theorem clock_kept_weekly :
    ∃ e', rescheduleAll secondDaySummer (standbyAt repeatWeekly 9000)
      [(noEpg 0, true), (noEpg 0, true)] =
        some e' ∧
      e'.stopTime - e'.alarmTime = 600 ∧ e'.alarmTime - e'.announceTime = 60 ∧
      secondDaySummer.localTime e'.alarmTime = 14 * 86400 + 9000 := by
  have hrun : ((rescheduleAll secondDaySummer (standbyAt repeatWeekly 9000)
      [(noEpg 0, true), (noEpg 0, true)]).map fun e =>
        secondDaySummer.localTime e.alarmTime / 86400) = some 14 := by decide
  obtain ⟨e', he', hday⟩ := Option.map_eq_some_iff.mp hrun
  have hdays : CTimerEvent.stepDays (standbyAt repeatWeekly 9000).eventRepeat = some 7 := by decide
  obtain ⟨hstop, hannounce, n, -, hclock⟩ := clock_kept secondDaySummer hdays he'
  have htime : secondDaySummer.localTime e'.alarmTime % 86400 = 9000 :=
    (hclock fun j _ => secondDaySummer_shows j).2
  exact ⟨e', he', hstop (by decide), hannounce (by decide), by omega⟩

/-- A daily timer at 2:30 lands in the gap on the second day, at 1:30; on the third
day, which has 2:30 once, it is still at 1:30. -/
theorem gap_shifts_clock :
    ((rescheduleAll secondDaySummer (standbyAt repeatDaily 9000)
      [(noEpg 0, true), (noEpg 0, true)]).map
      fun e => secondDaySummer.localTime e.alarmTime) = some (2 * 86400 + 5400) ∧
    ∃ u, secondDaySummer.localTime u = 2 * 86400 + 9000 ∧
      ∀ v, secondDaySummer.localTime v = 2 * 86400 + 9000 → v = u := by
  refine ⟨by decide, 178200, by decide, fun v hv => ?_⟩
  simp only [Zone.localTime, secondDaySummer, decide_eq_true_eq] at hv
  split at hv <;> omega

end Tuxbox.Timerd
