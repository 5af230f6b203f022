import Tuxbox.Enigma.TimerOverlap
import Tuxbox.Lib.Civil
import Mathlib.Order.Bounds.Basic
import Mathlib.Tactic.IntervalCases

/-!
# The next run of a repeating timer of enigma

`getNextEventStartTime` of `timer.cpp`, in a time zone of a fixed offset.
-/

namespace Tuxbox.Enigma.Repeat

open PlaylistEntry

/-- `struct tm`. -/
structure Tm where
  year : Int
  mon : Int
  mday : Int
  hour : Int
  min : Int
  sec : Int
  wday : Int
  deriving DecidableEq

def localDay (offset t : Int) : Int := (t + offset) / 86400

def localtime (offset t : Int) : Tm :=
  let date := Civil.civil (localDay offset t)
  let clock := (t + offset) % 86400
  ⟨date.year - 1900, date.mon, date.mday, clock / 3600, clock / 60 % 60, clock % 60,
    (localDay offset t + 4) % 7⟩

/-- Months and days may be out of range. -/
def mktime (offset : Int) (t : Tm) : Int :=
  Civil.dayNumber (t.year + 1900) t.mon t.mday * 86400 + t.hour * 3600 + t.min * 60 + t.sec - offset

/-! ## `normalize` -/

def monthdays : List Int := [31, 28, 31, 30, 31, 30, 31, 31, 30, 31, 30, 31]

/-- `__isleap` -/
def isleap (year : Int) : Bool := year % 4 = 0 && (year % 100 ≠ 0 || year % 400 = 0)

/-- `while ( x > limit ) { x -= step; y++; }` -/
def carry (limit step x y : Int) : Int × Int :=
  if limit < x ∧ 0 < step then carry limit step (x - step) (y + 1) else (x, y)
termination_by (x - limit).toNat

/-- The days of the month, with the year counted from 1900. -/
def days (t : Tm) : Int :=
  let days := monthdays.getD t.mon.toNat 0
  if days = 28 ∧ isleap t.year then days + 1 else days

def normalize (t : Tm) : Tm :=
  let (sec, min) := carry 59 60 t.sec t.min
  let (min, hour) := carry 59 60 min t.hour
  let (hour, mday) := carry 23 24 hour t.mday
  let (mday, mon) := if days t < mday then (mday - days t, t.mon + 1) else (mday, t.mon)
  let (mon, year) := carry 11 11 mon t.year
  { year, mon, mday, hour, min, sec, wday := -1 }

/-! ## The search for the day -/

/-- Saturday -/
def sa : BitVec 32 := 33554432

/-- `int i = Su; for ( int x = 0; x < tm_wday; x++ ) i*=2;` -/
def dayMask : Nat → BitVec 32
  | 0 => su
  | x + 1 => dayMask x * 2

/-- `getDate`, for a time -/
def getDate (offset t : Int) : Int :=
  let now := localtime offset t
  (100 + now.mday) * 1000000 + (100 + now.mon + 1) * 1000 + now.year

/-- Year, month and day of the last activation, in this order. -/
def lastAct (lastActivation : Int) : Int :=
  let year := lastActivation.tmod 1000
  let mon := (lastActivation.tmod 100000).tdiv 1000
  let day := (lastActivation.tmod 100000000).tdiv 1000000
  year * 1000000 + (100 + mon) * 1000 + day + 100

def activation (tmp : Tm) : Int := tmp.year * 1000000 + (100 + tmp.mon + 1) * 1000 + tmp.mday + 100

def seconds (t : Tm) : Int := t.hour * 3600 + t.min * 60 + t.sec

def Tm.tomorrow (t : Tm) : Tm := { t with mday := t.mday + 1 }

/-- The loop over the days, from day `d` on. -/
def search (type : BitVec 32) (duration lastActivation : Int) (tmp2 : Tm) (d checkDays : Nat)
    (i : BitVec 32) (tmp : Tm) : Option Tm :=
  if d ≤ checkDays then
    let i := if sa < i then su else i
    if type &&& i ≠ 0 then
      let checkDays' := if d = 0 then checkDays - 1 else checkDays
      if d = 0 ∧ seconds tmp2 + duration < seconds tmp then
        search type duration lastActivation tmp2 (d + 1) checkDays' (i * 2) tmp.tomorrow
      else if activation tmp ≤ lastAct lastActivation then
        search type duration lastActivation tmp2 (d + 1) checkDays' (i * 2) tmp.tomorrow
      else some tmp
    else search type duration lastActivation tmp2 (d + 1) checkDays (i * 2) tmp.tomorrow
  else none
termination_by checkDays + 1 - d
decreasing_by all_goals first | omega | (split <;> omega)

/-- `now` is the time with the difference added. -/
def getNextEventStartTime (offset now t duration : Int) (type : BitVec 32)
    (lastActivation : Int) : Int :=
  if type.slt isRepeating then 0
  else
    let tmp := localtime offset now
    let tmp2 := localtime offset t
    match search type duration lastActivation tmp2 0 8 (dayMask tmp.wday.toNat) tmp with
    | none => 0
    | some tmp =>
      mktime offset (normalize { tmp with hour := tmp2.hour, min := tmp2.min, sec := tmp2.sec })

/-! ## The weekdays -/

/-- The timer runs on a weekday. -/
def OnDay (type : BitVec 32) (w : Nat) : Prop := type &&& dayMask w ≠ 0

instance (type : BitVec 32) (w : Nat) : Decidable (OnDay type w) :=
  inferInstanceAs (Decidable (type &&& dayMask w ≠ 0))

theorem sa_not_lt {w : Nat} (hw : w < 7) : ¬sa < dayMask w := by
  have h : ∀ w < 7, ¬sa < dayMask w := by decide
  exact h w hw

/-- After Saturday comes Sunday. -/
theorem dayMask_next {w : Nat} (hw : w < 7) :
    (if sa < dayMask w * 2 then su else dayMask w * 2) = dayMask ((w + 1) % 7) := by
  have h : ∀ w < 7,
      (if sa < dayMask w * 2 then su else dayMask w * 2) = dayMask ((w + 1) % 7) := by decide
  exact h w hw

theorem dayMask_eq {w : Nat} (hw : w < 7) : dayMask w = BitVec.twoPow 32 (19 + w) := by
  have h : ∀ w < 7, dayMask w = BitVec.twoPow 32 (19 + w) := by decide
  exact h w hw

/-- A type with a weekday is one of a repeating timer. -/
theorem OnDay.repeating {type : BitVec 32} {w : Nat} (h : OnDay type w) (hw : w < 7)
    (htype : type.msb = false) : type.slt isRepeating = false := by
  by_contra hslt
  apply h
  have hsmall : type.toNat < 2 ^ 18 := by
    simp only [Bool.not_eq_false, BitVec.slt, BitVec.toInt_eq_toNat_of_msb htype,
      decide_eq_true_eq] at hslt
    have hr : isRepeating.toInt = 262144 := by decide
    omega
  rw [dayMask_eq hw, BitVec.and_twoPow, BitVec.getLsbD,
    Nat.testBit_lt_two_pow (lt_of_lt_of_le hsmall (Nat.pow_le_pow_right (by decide) (by omega)))]
  rfl

/-! ## The loop -/

section Search
variable (type : BitVec 32) (duration lastActivation : Int) (tmp2 : Tm)

/-- The day of the month, some days later, whatever the month. -/
def Tm.later (t : Tm) (k : Nat) : Tm := { t with mday := t.mday + k }

theorem tomorrow_later (t : Tm) (k : Nat) : t.tomorrow.later k = t.later (k + 1) := by
  simp only [Tm.tomorrow, Tm.later, Tm.mk.injEq, true_and, and_true]
  omega

/-- The first day from weekday `w` on, of `n`, that satisfies a condition. -/
def firstDay (p : Nat → Bool) (n : Nat) : Option Nat := (List.range n).find? p

theorem firstDay_succ (p : Nat → Bool) (n : Nat) :
    firstDay p (n + 1) = if p 0 then some 0 else (firstDay (fun k => p (k + 1)) n).map (· + 1) := by
  simp only [firstDay, List.range_succ_eq_map, List.find?_cons, List.find?_map]
  cases p 0 <;> rfl

/-- A day that satisfies it ends the search. -/
theorem firstDay_last {p : Nat → Bool} {n : Nat} (h : p n = true) (m : Nat) :
    firstDay p (n + 1 + m) = firstDay p (n + 1) := by
  induction m with
  | zero => rfl
  | succ m ih =>
    rw [← Nat.add_assoc, firstDay, List.range_succ, List.find?_append, ← firstDay, ih]
    have hsome : (firstDay p (n + 1)).isSome := by
      simp only [firstDay, List.find?_isSome, List.mem_range]
      exact ⟨n, by omega, h⟩
    obtain ⟨k, hk⟩ := Option.isSome_iff_exists.mp hsome
    rw [hk, Option.some_or]

variable {type duration lastActivation tmp2} {d checkDays w : Nat} {i : BitVec 32} {tmp : Tm}

theorem search_off (hd : d ≤ checkDays) (hi : (if sa < i then su else i) = dayMask w)
    (hoff : ¬OnDay type w) :
    search type duration lastActivation tmp2 d checkDays i tmp =
      search type duration lastActivation tmp2 (d + 1) checkDays (dayMask w * 2) tmp.tomorrow := by
  rw [search, if_pos hd]
  simp only [hi]
  rw [if_neg (show ¬(type &&& dayMask w ≠ 0) from hoff)]

/-- A weekday of the timer that is passed over. -/
theorem search_passed (hd : d ≤ checkDays) (hi : (if sa < i then su else i) = dayMask w)
    (hon : OnDay type w) (hpast : d = 0 ∧ seconds tmp2 + duration < seconds tmp ∨
      activation tmp ≤ lastAct lastActivation) :
    search type duration lastActivation tmp2 d checkDays i tmp =
      search type duration lastActivation tmp2 (d + 1) (if d = 0 then checkDays - 1 else checkDays)
        (dayMask w * 2) tmp.tomorrow := by
  rw [search, if_pos hd]
  simp only [hi]
  rw [if_pos (show type &&& dayMask w ≠ 0 from hon)]
  by_cases hlate : d = 0 ∧ seconds tmp2 + duration < seconds tmp
  · rw [if_pos hlate]
  · rw [if_neg hlate, if_pos (hpast.resolve_left hlate)]

theorem search_found (hd : d ≤ checkDays) (hi : (if sa < i then su else i) = dayMask w)
    (hon : OnDay type w) (hlate : ¬(d = 0 ∧ seconds tmp2 + duration < seconds tmp))
    (hact : lastAct lastActivation < activation tmp) :
    search type duration lastActivation tmp2 d checkDays i tmp = some tmp := by
  rw [search, if_pos hd]
  simp only [hi]
  rw [if_pos (show type &&& dayMask w ≠ 0 from hon), if_neg hlate, if_neg (not_le.mpr hact)]

variable (type duration lastActivation tmp2)

theorem firstDay_spec (p : Nat → Bool) (n : Nat) :
    (∃ k < n, p k = true ∧ (∀ j < k, p j = false) ∧ firstDay p n = some k) ∨
      (∀ k < n, p k = false) ∧ firstDay p n = none := by
  cases hfirst : firstDay p n with
  | none =>
    rw [firstDay, List.find?_eq_none] at hfirst
    exact .inr ⟨fun k hk => by simpa using hfirst k (List.mem_range.mpr hk), rfl⟩
  | some k =>
    rw [firstDay, List.find?_range_eq_some] at hfirst
    obtain ⟨hk, hmem, hbefore⟩ := hfirst
    exact .inl ⟨k, List.mem_range.mp hmem, hk, fun j hj => by simpa using hbefore j hj, rfl⟩

/-- From the second day on, the first weekday of the timer is taken. -/
theorem search_later (n : Nat) : ∀ {d w : Nat} {i : BitVec 32} {tmp : Tm}, 0 < d → w < 7 →
    (if sa < i then su else i) = dayMask w → lastAct lastActivation < activation tmp →
    search type duration lastActivation tmp2 d (d + n - 1) i tmp =
      (firstDay (fun k => OnDay type ((w + k) % 7)) n).map tmp.later := by
  induction n with
  | zero =>
    intro d w i tmp hd _ _ _
    rw [search, if_neg (by omega)]
    rfl
  | succ n ih =>
    intro d w i tmp hd hw hi hact
    have h0 : (w + 0) % 7 = w := Nat.mod_eq_of_lt hw
    rw [firstDay_succ, h0]
    by_cases hon : OnDay type w
    · rw [search_found (by omega) hi hon (by omega) hact, if_pos (by simpa using hon)]
      simp [Tm.later]
    · have hnext := @ih (d + 1) _ _ tmp.tomorrow (by omega)
        (Nat.mod_lt (w + 1) (by decide : 0 < 7)) (dayMask_next hw)
        (by simp only [activation, Tm.tomorrow] at hact ⊢; omega)
      have hweek : ∀ k, ((w + 1) % 7 + k) % 7 = (w + (k + 1)) % 7 := by
        intro k
        omega
      have hlater : tmp.tomorrow.later = tmp.later ∘ (· + 1) := by
        funext k
        exact tomorrow_later tmp k
      rw [search_off (by omega) hi hon, if_neg (by simpa using hon), Option.map_map, ← hlater,
        show d + (n + 1) - 1 = d + 1 + n - 1 by omega, hnext]
      simp only [hweek]

/-- Of nine days the first weekday is taken that is not today, or that today allows. -/
theorem search_first {w : Nat} {tmp : Tm} (hw : w < 7)
    (hact : lastAct lastActivation < activation tmp.tomorrow) :
    search type duration lastActivation tmp2 0 8 (dayMask w) tmp =
      (firstDay (fun k => OnDay type ((w + k) % 7) ∧ (k = 0 →
        seconds tmp ≤ seconds tmp2 + duration ∧ lastAct lastActivation < activation tmp)) 9).map
          tmp.later := by
  have hi : (if sa < dayMask w then su else dayMask w) = dayMask w := if_neg (sa_not_lt hw)
  have h0 : (w + 0) % 7 = w := Nat.mod_eq_of_lt hw
  have hrest := fun n => @search_later type duration lastActivation tmp2 n 1 _ _ tmp.tomorrow
    Nat.one_pos (Nat.mod_lt (w + 1) (by decide : 0 < 7)) (dayMask_next hw) hact
  have hweek : ∀ k, ((w + 1) % 7 + k) % 7 = (w + (k + 1)) % 7 := by
    intro k
    omega
  have hlater : tmp.tomorrow.later = tmp.later ∘ (· + 1) := by
    funext k
    exact tomorrow_later tmp k
  simp only [hweek] at hrest
  rw [firstDay_succ]
  simp only [h0, Nat.add_eq_zero_iff, Nat.one_ne_zero, and_false, false_implies, and_true,
    true_implies, decide_eq_true_eq]
  by_cases hon : OnDay type w
  · by_cases hpast : 0 = 0 ∧ seconds tmp2 + duration < seconds tmp ∨
        activation tmp ≤ lastAct lastActivation
    · have hlast : decide (OnDay type ((w + (6 + 1)) % 7)) = true := by
        rw [show (w + (6 + 1)) % 7 = w by omega]
        simpa using hon
      have hnone : ¬(OnDay type w ∧ seconds tmp ≤ seconds tmp2 + duration ∧
          lastAct lastActivation < activation tmp) := by
        rintro ⟨-, hend, hnew⟩
        omega
      have hsame := firstDay_last (p := fun k => OnDay type ((w + (k + 1)) % 7)) (n := 6) hlast 1
      rw [search_passed (by omega) hi hon hpast, if_neg hnone, Option.map_map, ← hlater,
        if_pos rfl, hrest 7, hsame]
    · push Not at hpast
      rw [search_found (by omega) hi hon (by omega) hpast.2, if_pos ⟨hon, by omega, by omega⟩]
      simp [Tm.later]
  · rw [search_off (by omega) hi hon, if_neg (fun h => hon h.1), Option.map_map, ← hlater, hrest 8]

end Search

/-! ## The calendar -/

/-- The years in which the count from 1900 is wrong about one leap year only. -/
def InRange (offset t : Int) : Prop :=
  1901 ≤ (Civil.civil (localDay offset t)).year ∧ (Civil.civil (localDay offset t)).year ≤ 2099

instance (offset t : Int) : Decidable (InRange offset t) :=
  inferInstanceAs (Decidable (_ ∧ _))

theorem seconds_localtime (offset t : Int) :
    seconds (localtime offset t) = (t + offset) % 86400 := by
  simp only [seconds, localtime]
  omega

theorem carry_le {limit x : Int} (h : x ≤ limit) (step y : Int) :
    carry limit step x y = (x, y) := by
  rw [carry, if_neg (by omega)]

/-- The days that `normalize` adds to a day of the next month: January is passed
over, and February of 2000 has 28 days. -/
def slip (year mon day : Int) : Int :=
  if Civil.dayNumber (year + 1) 0 1 ≤ day then 31
  else if year = 2000 ∧ mon = 1 ∧ Civil.dayNumber 2000 1 28 < day then 1
  else 0

/-- The lengths of the months are right, but for one. -/
theorem days_spec {t : Tm} {year : Int} (ht : t.year = year - 1900)
    (hyear : 1901 ≤ year ∧ year ≤ 2099) (hmon : 0 ≤ t.mon ∧ t.mon ≤ 11) :
    Civil.dayNumber year (t.mon + 1) 1 = Civil.dayNumber year t.mon 1 + days t +
      if year = 2000 ∧ t.mon = 1 then 1 else 0 := by
  obtain ⟨h0, h11⟩ := hmon
  by_cases hfeb : t.mon = 1
  · have hleap : isleap t.year = true ↔ year % 4 = 0 ∧ year ≠ 2000 := by
      simp only [isleap, ht, ne_eq, Bool.and_eq_true, Bool.or_eq_true, decide_eq_true_eq,
        Bool.not_eq_true', decide_eq_false_iff_not, decide_not]
      omega
    simp only [days, hfeb, hleap]
    simp [monthdays, Civil.dayNumber, Civil.yearDays, Civil.monthDays]
    split <;> split <;> omega
  · have hdays : days t = monthdays.getD t.mon.toNat 0 := by
      have hne : ∀ m < 12, m ≠ 1 → monthdays.getD m 0 ≠ 28 := by decide
      have h28 := hne t.mon.toNat (by omega) (by omega)
      simp only [days, h28, false_and, if_false]
    rw [hdays, if_neg (by omega)]
    generalize t.mon = mon at *
    interval_cases mon <;> simp [monthdays, Civil.dayNumber, Civil.monthDays] at * <;> omega

/-- The first of a month is before the next year, but by far not in November. -/
theorem month_before (year : Int) {mon : Int} (h : mon ≤ 10) :
    Civil.dayNumber year (mon + 1) 1 + 28 ≤ Civil.dayNumber (year + 1) 0 1 := by
  have hnext := Civil.dayNumber_next_month year (mon + 1) 1
  have hmono : Civil.dayNumber 0 (12 * year + (mon + 1 + 1)) 1 ≤
      Civil.dayNumber 0 (12 * (year + 1) + 0) 1 := by
    apply Civil.dayNumber_mono
    omega
  rw [← Civil.dayNumber_months, ← Civil.dayNumber_months] at hmono
  omega

theorem dayNumber_first (year mon mday : Int) :
    Civil.dayNumber year mon mday = Civil.dayNumber year mon 1 + (mday - 1) := by
  rw [← Civil.dayNumber_add]
  congr 1
  omega

theorem days_ge {t : Tm} (hmon : 0 ≤ t.mon ∧ t.mon ≤ 11) : 28 ≤ days t := by
  have hmonths : ∀ m < 12, 28 ≤ monthdays.getD m 0 := by decide
  have h := hmonths t.mon.toNat (by omega)
  simp only [days]
  split <;> omega

theorem normalize_day {t : Tm} {year : Int} (ht : t.year = year - 1900)
    (hyear : 1901 ≤ year ∧ year ≤ 2099) (hmon : 0 ≤ t.mon ∧ t.mon ≤ 11)
    (hmday : t.mday ≤ 39) (hsec : t.sec ≤ 59) (hmin : t.min ≤ 59) (hhour : t.hour ≤ 23) :
    seconds (normalize t) = seconds t ∧
      Civil.dayNumber ((normalize t).year + 1900) (normalize t).mon (normalize t).mday =
        Civil.dayNumber year t.mon t.mday +
          slip year t.mon (Civil.dayNumber year t.mon t.mday) := by
  have hlength := days_spec ht hyear hmon
  have hday := dayNumber_first year t.mon t.mday
  have h2000 := dayNumber_first 2000 1 28
  have hfull : Civil.dayNumber (year + 1) 0 1 = Civil.dayNumber year (11 + 1) 1 := by
    rw [Civil.dayNumber_months, Civil.dayNumber_months year]
    congr 1
    omega
  have hdays := days_ge hmon
  simp only [normalize, seconds, carry_le hhour, carry_le hmin, carry_le hsec, true_and]
  by_cases hin : t.mday ≤ days t
  · have hsame : ∀ k, Civil.dayNumber year t.mon t.mday + k = Civil.dayNumber year t.mon t.mday ↔
        k = 0 := by
      intro k
      omega
    rw [if_neg (by omega), carry_le hmon.2, show t.year + 1900 = year by omega, eq_comm, hsame,
      slip]
    have hyear' : Civil.dayNumber year t.mon t.mday < Civil.dayNumber (year + 1) 0 1 := by
      by_cases hdec : t.mon = 11
      · rw [hdec] at hlength hday ⊢
        split at hlength <;> omega
      · have hbefore := month_before year (show t.mon ≤ 10 by omega)
        split at hlength <;> omega
    rw [if_neg (by omega), if_neg]
    rintro ⟨rfl, hfeb, hlate⟩
    rw [hfeb] at hday hlate
    have h28 : days t = 28 := by
      simp [days, hfeb, ht, isleap, monthdays]
    omega
  · rw [if_pos (by omega)]
    by_cases hdec : t.mon = 11
    · have hcarry : ∀ y, carry 11 11 (11 + 1) y = (1, y + 1) := by
        intro y
        rw [carry, if_pos (by omega), carry_le (by omega)]
        rfl
      have h31 : days t = 31 := by
        simp [days, hdec, monthdays]
      have hjump := dayNumber_first (year + 1) 1 (t.mday - 31)
      have hfeb : Civil.dayNumber (year + 1) 1 1 = Civil.dayNumber (year + 1) 0 1 + 31 := by
        simp [Civil.dayNumber, Civil.monthDays]
        omega
      rw [hdec] at hlength hday ⊢
      rw [if_neg (by omega)] at hlength
      rw [hcarry, h31, slip, if_pos (by omega)]
      simp only [show t.year + 1 + 1900 = year + 1 by omega]
      omega
    · have hnext := dayNumber_first year (t.mon + 1) (t.mday - days t)
      have hbefore := month_before year (show t.mon ≤ 10 by omega)
      simp only [carry_le (show t.mon + 1 ≤ 11 by omega), show t.year + 1900 = year by omega, slip]
      have hyear' : Civil.dayNumber year t.mon t.mday < Civil.dayNumber (year + 1) 0 1 := by
        split at hlength <;> omega
      rw [if_neg (by omega)]
      by_cases hfeb : year = 2000 ∧ t.mon = 1
      · obtain ⟨rfl, hfeb⟩ := hfeb
        have h28 : days t = 28 := by
          simp [days, hfeb, ht, isleap, monthdays]
        rw [if_pos ⟨rfl, hfeb⟩] at hlength
        rw [hfeb] at hday hlength hnext ⊢
        rw [if_pos ⟨rfl, rfl, by omega⟩]
        omega
      · rw [if_neg hfeb] at hlength
        rw [if_neg (fun h => hfeb ⟨h.1, h.2.1⟩)]
        omega

/-! ## Dates as numbers -/

theorem activation_le {offset t t' : Int} (h : localDay offset t ≤ localDay offset t') :
    activation (localtime offset t) ≤ activation (localtime offset t') ∧
      (activation (localtime offset t) = activation (localtime offset t') →
        localDay offset t = localDay offset t') := by
  have hmonth := Civil.civil_le h
  have hday := Civil.dayNumber_civil (localDay offset t)
  have hday' := Civil.dayNumber_civil (localDay offset t')
  have hrange := Civil.civil_range (localDay offset t)
  have hrange' := Civil.civil_range (localDay offset t')
  simp only [activation, localtime]
  generalize Civil.civil (localDay offset t) = date at *
  generalize Civil.civil (localDay offset t') = date' at *
  by_cases hsame : 12 * date.year + date.mon = 12 * date'.year + date'.mon
  · have hy : date.year = date'.year := by omega
    have hm : date.mon = date'.mon := by omega
    rw [hy, hm, dayNumber_first] at hday
    rw [dayNumber_first] at hday'
    omega
  · omega

theorem lastAct_getDate {offset l : Int} (hl : InRange offset l) :
    lastAct (getDate offset l) = activation (localtime offset l) := by
  obtain ⟨hlow, hhigh⟩ := hl
  have hrange := Civil.civil_range (localDay offset l)
  simp only [lastAct, getDate, activation, localtime]
  generalize Civil.civil (localDay offset l) = date at *
  rw [Int.tmod_eq_emod_of_nonneg (by omega), Int.tmod_eq_emod_of_nonneg (by omega),
    Int.tmod_eq_emod_of_nonneg (by omega), Int.tdiv_eq_ediv_of_nonneg (by omega),
    Int.tdiv_eq_ediv_of_nonneg (by omega)]
  omega

/-- The time of the last activation, if there was one, as the entry keeps it. -/
def lastActivation (offset : Int) : Option Int → Int
  | none => -1
  | some l => getDate offset l

/-- A day is new if the last activation was on an earlier one. -/
theorem lastAct_lt {offset now : Int} {last : Option Int}
    (hnow : InRange offset now)
    (hlast : ∀ l ∈ last, InRange offset l ∧ localDay offset l ≤ localDay offset now) :
    lastAct (lastActivation offset last) < activation (localtime offset now) ↔
      ∀ l ∈ last, localDay offset l < localDay offset now := by
  obtain ⟨hlow, hhigh⟩ := hnow
  have hrange := Civil.civil_range (localDay offset now)
  cases last with
  | none =>
    have hnone : lastAct (-1) = -899900 := by decide
    simp only [lastActivation, hnone, activation, localtime, Option.mem_def, reduceCtorEq,
      false_implies, implies_true, iff_true]
    omega
  | some l =>
    obtain ⟨hl, hle⟩ := hlast l rfl
    have hact := activation_le hle
    simp only [lastActivation, lastAct_getDate hl, Option.mem_def, Option.some.injEq,
      forall_eq']
    constructor
    · intro hlt
      refine lt_of_le_of_ne hle fun heq => ?_
      simp only [activation, localtime, heq] at hlt
      omega
    · intro hlt
      refine lt_of_le_of_ne hact.1 fun heq => ?_
      have := hact.2 heq
      omega

/-- Tomorrow is new in any case. -/
theorem lastAct_tomorrow {offset now : Int} {last : Option Int}
    (hnow : InRange offset now)
    (hlast : ∀ l ∈ last, InRange offset l ∧ localDay offset l ≤ localDay offset now) :
    lastAct (lastActivation offset last) < activation (localtime offset now).tomorrow := by
  have hnext : activation (localtime offset now).tomorrow =
      activation (localtime offset now) + 1 := by
    simp only [activation, Tm.tomorrow]
    omega
  rw [hnext, Int.lt_add_one_iff]
  cases last with
  | none =>
    apply le_of_lt
    rw [lastAct_lt hnow hlast]
    simp
  | some l =>
    obtain ⟨hl, hle⟩ := hlast l rfl
    simp only [lastActivation, lastAct_getDate hl]
    exact (activation_le hle).1

/-! ## The next run -/

/-- A time at which the timer could run next. -/
structure Run (offset now t duration : Int) (type : BitVec 32) (last : Option Int) (x : Int) :
    Prop where
  weekday : OnDay type ((localDay offset x + 4) % 7).toNat
  sameTime : (x + offset) % 86400 = (t + offset) % 86400
  notPast : localDay offset now ≤ localDay offset x
  fresh : ∀ l ∈ last, localDay offset l < localDay offset x
  notOver : now ≤ x + duration

/-- A call of the function. The last activation is not later than today. -/
structure Sane (offset now duration : Int) (type : BitVec 32) (last : Option Int) : Prop where
  present : InRange offset now
  length : 0 ≤ duration
  type : type.msb = false
  last : ∀ l ∈ last, InRange offset l ∧ localDay offset l ≤ localDay offset now

section Next
variable {offset now t duration : Int} {type : BitVec 32} {last : Option Int}

/-- The run some days from today. -/
def runIn (offset now t : Int) (k : Nat) : Int :=
  (localDay offset now + k) * 86400 + (t + offset) % 86400 - offset

/-- A run is possible on this day. -/
def Allowed (offset now t duration : Int) (type : BitVec 32) (last : Option Int) (k : Nat) : Prop :=
  OnDay type ((((localDay offset now + 4) % 7).toNat + k) % 7) ∧ (k = 0 →
    (now + offset) % 86400 ≤ (t + offset) % 86400 + duration ∧
      ∀ l ∈ last, localDay offset l < localDay offset now)

theorem localDay_runIn (k : Nat) :
    localDay offset (runIn offset now t k) = localDay offset now + k := by
  unfold runIn localDay
  omega

theorem run_iff (h : Sane offset now duration type last) (x : Int) :
    Run offset now t duration type last x ↔
      ∃ k, Allowed offset now t duration type last k ∧ x = runIn offset now t k := by
  have hweek : ∀ k : Nat, ((localDay offset now + k + 4) % 7).toNat =
      (((localDay offset now + 4) % 7).toNat + k) % 7 := by
    intro k
    omega
  constructor
  · intro hx
    have hk : localDay offset x = localDay offset now + ((localDay offset x -
        localDay offset now).toNat : Int) := by
      have := hx.notPast
      omega
    generalize (localDay offset x - localDay offset now).toNat = k at hk
    have hday := hx.weekday
    rw [hk, hweek] at hday
    have hsame := hx.sameTime
    have hover := hx.notOver
    refine ⟨k, ⟨hday, ?_⟩, ?_⟩
    · rintro rfl
      constructor
      · unfold localDay at hk
        omega
      · intro l hl
        have := hx.fresh l hl
        omega
    · unfold runIn localDay at *
      omega
  · rintro ⟨k, hk, rfl⟩
    have hday := @localDay_runIn offset now t k
    constructor
    · rw [hday, hweek]
      exact hk.1
    · unfold runIn
      omega
    · omega
    · intro l hl
      by_cases h0 : k = 0
      · have := (hk.2 h0).2 l hl
        omega
      · have := (h.last l hl).2
        omega
    · have hlength := h.length
      by_cases h0 : k = 0
      · have := (hk.2 h0).1
        unfold runIn localDay
        omega
      · unfold runIn localDay
        omega

/-- What the loop finds, as a number of days. -/
theorem search_spec (h : Sane offset now duration type last) :
    (∃ k ≤ 8, Allowed offset now t duration type last k ∧
        (∀ j < k, ¬Allowed offset now t duration type last j) ∧
        search type duration (lastActivation offset last) (localtime offset t) 0 8
          (dayMask (localtime offset now).wday.toNat) (localtime offset now) =
            some ((localtime offset now).later k)) ∨
      (∀ w < 7, ¬OnDay type w) ∧
        search type duration (lastActivation offset last) (localtime offset t) 0 8
          (dayMask (localtime offset now).wday.toNat) (localtime offset now) = none := by
  have hw : (localtime offset now).wday.toNat < 7 := by
    simp only [localtime]
    omega
  have hlast := lastAct_tomorrow h.present h.last
  have hallowed : ∀ k, (OnDay type (((localtime offset now).wday.toNat + k) % 7) ∧ (k = 0 →
      seconds (localtime offset now) ≤ seconds (localtime offset t) + duration ∧
        lastAct (lastActivation offset last) < activation (localtime offset now))) ↔
      Allowed offset now t duration type last k := by
    intro k
    rw [lastAct_lt h.present h.last, seconds_localtime, seconds_localtime]
    exact Iff.rfl
  rw [search_first type duration _ _ hw hlast]
  obtain ⟨k, hk, hon, hbefore, hfound⟩ | ⟨hnone, hfound⟩ := firstDay_spec (fun k =>
    OnDay type (((localtime offset now).wday.toNat + k) % 7) ∧ (k = 0 →
      seconds (localtime offset now) ≤ seconds (localtime offset t) + duration ∧
        lastAct (lastActivation offset last) < activation (localtime offset now))) 9
  · left
    refine ⟨k, by omega, ?_, ?_, by rw [hfound]; rfl⟩
    · rw [← hallowed]
      exact of_decide_eq_true hon
    · intro j hj
      rw [← hallowed]
      exact of_decide_eq_false (hbefore j hj)
  · right
    refine ⟨?_, by rw [hfound]; rfl⟩
    intro v hv hday
    -- The weekday comes up on one of the seven days from tomorrow on.
    have hoff := of_decide_eq_false
      (hnone ((v + 6 - (localtime offset now).wday.toNat) % 7 + 1) (by omega))
    apply hoff
    have hv' : ((localtime offset now).wday.toNat +
        ((v + 6 - (localtime offset now).wday.toNat) % 7 + 1)) % 7 = v := by omega
    rw [hv']
    exact ⟨hday, fun h0 => by omega⟩

/-- The day and the time of the result. -/
theorem next_value (h : Sane offset now duration type last) {k : Nat} (hk : k ≤ 8) :
    mktime offset (normalize { (localtime offset now).later k with
      hour := (localtime offset t).hour, min := (localtime offset t).min,
      sec := (localtime offset t).sec }) =
      runIn offset now t k + 86400 * slip (Civil.civil (localDay offset now)).year
        (Civil.civil (localDay offset now)).mon (localDay offset now + k) := by
  have hyear := h.present
  have hrange := Civil.civil_range (localDay offset now)
  have hday := Civil.dayNumber_civil (localDay offset now)
  have hclock := seconds_localtime offset t
  generalize htm : ({ (localtime offset now).later k with
      hour := (localtime offset t).hour, min := (localtime offset t).min,
      sec := (localtime offset t).sec } : Tm) = tm
  have hseconds : seconds tm = (t + offset) % 86400 := by
    rw [← hclock, ← htm]
    rfl
  have hmday : tm.mday = (Civil.civil (localDay offset now)).mday + k := by
    rw [← htm]
    rfl
  have hmon : tm.mon = (Civil.civil (localDay offset now)).mon := by
    rw [← htm]
    rfl
  have hclocks : tm.sec ≤ 59 ∧ tm.min ≤ 59 ∧ tm.hour ≤ 23 := by
    rw [← htm]
    simp only [localtime]
    omega
  have htmYear : tm.year = (Civil.civil (localDay offset now)).year - 1900 := by
    rw [← htm]
    rfl
  obtain ⟨hsec, hnumber⟩ := normalize_day htmYear hyear (by omega) (by omega) hclocks.1
    hclocks.2.1 hclocks.2.2
  rw [hmon, hmday, Civil.dayNumber_add, hday] at hnumber
  rw [mktime, hnumber, runIn, ← hseconds, ← hsec]
  unfold seconds
  omega

/-- The code gets to the right day. -/
structure Regular (offset now run : Int) : Prop where
  some : run ≠ 0
  sameYear : localDay offset run <
    Civil.dayNumber ((Civil.civil (localDay offset now)).year + 1) 0 1
  leapDay : (Civil.civil (localDay offset now)).year = 2000 →
    (Civil.civil (localDay offset now)).mon = 1 → localDay offset run ≤ Civil.dayNumber 2000 1 28

theorem slip_eq_zero {year mon day : Int} : slip year mon day = 0 ↔
    day < Civil.dayNumber (year + 1) 0 1 ∧
      (year = 2000 → mon = 1 → day ≤ Civil.dayNumber 2000 1 28) := by
  unfold slip
  split
  · omega
  · split <;> omega

theorem slip_nonneg (year mon day : Int) : 0 ≤ slip year mon day := by
  unfold slip
  split
  · decide
  · split <;> decide

/-- The first day that is allowed has the earliest run. -/
theorem runIn_least (h : Sane offset now duration type last) {k : Nat}
    (hk : Allowed offset now t duration type last k)
    (hbefore : ∀ j < k, ¬Allowed offset now t duration type last j) :
    IsLeast {x | Run offset now t duration type last x} (runIn offset now t k) := by
  constructor
  · exact (run_iff h _).mpr ⟨k, hk, rfl⟩
  · intro x hx
    obtain ⟨j, hj, rfl⟩ := (run_iff h x).mp hx
    have hle : k ≤ j := not_lt.mp fun hlt => hbefore j hlt hj
    unfold runIn
    omega

/-- What the function returns: nothing for no weekday, else the first day that is
allowed, and the days that `normalize` adds. -/
theorem next_cases (h : Sane offset now duration type last) :
    (∃ k ≤ 8, Allowed offset now t duration type last k ∧
        (∀ j < k, ¬Allowed offset now t duration type last j) ∧
        getNextEventStartTime offset now t duration type (lastActivation offset last) =
          runIn offset now t k + 86400 * slip (Civil.civil (localDay offset now)).year
            (Civil.civil (localDay offset now)).mon (localDay offset now + k)) ∨
      (∀ w < 7, ¬OnDay type w) ∧
        getNextEventStartTime offset now t duration type (lastActivation offset last) = 0 := by
  obtain ⟨k, hk, hon, hbefore, hfound⟩ | ⟨hnone, hfound⟩ := search_spec (t := t) h
  · have hrep := hon.1.repeating (Nat.mod_lt _ (by decide)) h.type
    refine .inl ⟨k, hk, hon, hbefore, ?_⟩
    rw [getNextEventStartTime, hrep, if_neg (by decide)]
    simp only [hfound]
    exact next_value h hk
  · refine .inr ⟨hnone, ?_⟩
    rw [getNextEventStartTime]
    simp only [hfound, ite_self]

/-- Nothing is returned for no weekday, and else the earliest run, if and only if
the earliest run is regular. -/
theorem next_run_exact (h : Sane offset now duration type last) :
    ((getNextEventStartTime offset now t duration type (lastActivation offset last) = 0 ↔
        ∀ w < 7, ¬OnDay type w) ∧
      ((∃ w < 7, OnDay type w) → IsLeast {x | Run offset now t duration type last x}
        (getNextEventStartTime offset now t duration type (lastActivation offset last)))) ↔
      ∀ run, IsLeast {x | Run offset now t duration type last x} run →
        Regular offset now run := by
  obtain ⟨k, hk, hon, hbefore, hnext⟩ | ⟨hnone, hnext⟩ := next_cases (t := t) h
  · have hleast := runIn_least h hon hbefore
    have hday := @localDay_runIn offset now t k
    have hsome : ∃ w < 7, OnDay type w := ⟨_, Nat.mod_lt _ (by decide), hon.1⟩
    have hall : ¬∀ w < 7, ¬OnDay type w := by
      push Not
      exact hsome
    rw [hnext]
    constructor
    · rintro ⟨hzero, hmin⟩ run hrun
      have hslip := hleast.unique (hmin hsome)
      have hslip0 := slip_eq_zero.mp (show slip (Civil.civil (localDay offset now)).year
        (Civil.civil (localDay offset now)).mon (localDay offset now + k) = 0 by omega)
      rw [hrun.unique hleast]
      refine ⟨fun h0 => hall (hzero.mp (hslip ▸ h0)), ?_, ?_⟩
      · rw [hday]
        exact hslip0.1
      · rw [hday]
        exact hslip0.2
    · intro hregular
      obtain ⟨hne, hyear, hleap⟩ := hregular _ hleast
      rw [hday] at hyear hleap
      rw [slip_eq_zero.mpr ⟨hyear, hleap⟩, mul_zero, add_zero]
      exact ⟨⟨fun h0 => absurd h0 hne, fun h0 => absurd h0 hall⟩, fun _ => hleast⟩
  · have hnorun : ∀ x, ¬Run offset now t duration type last x := fun x hx =>
      hnone _ (by omega) hx.weekday
    refine ⟨fun _ run hrun => absurd hrun.1 (hnorun run),
      fun _ => ⟨⟨fun _ => hnone, fun _ => hnext⟩, ?_⟩⟩
    rintro ⟨w, hw, hday⟩
    exact absurd hday (hnone w hw)

end Next

/-- On Sundays at one in the morning, an hour east of Greenwich. -/
theorem sundays_next :
    ((getNextEventStartTime 3600 1000000000 0 3600 786432 (lastActivation 3600 none) = 0 ↔
        ∀ w < 7, ¬OnDay 786432 w) ∧
      ((∃ w < 7, OnDay 786432 w) → IsLeast {x | Run 3600 1000000000 0 3600 786432 none x}
        (getNextEventStartTime 3600 1000000000 0 3600 786432 (lastActivation 3600 none)))) ↔
      ∀ run, IsLeast {x | Run 3600 1000000000 0 3600 786432 none x} run →
        Regular 3600 1000000000 run :=
  next_run_exact ⟨by decide, by decide, by decide, by simp⟩

/-- From Monday, the last of the year 2001, the next Tuesday would be in February. -/
example : getNextEventStartTime 0 1009800000 0 3600 2359296 (-1) = 1009843200 + 31 * 86400 := by
  decide +kernel

end Tuxbox.Enigma.Repeat
