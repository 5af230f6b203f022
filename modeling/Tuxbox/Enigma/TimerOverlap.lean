import Tuxbox.Lib.Period
import Mathlib.Data.Nat.Bitwise

/-!
# Overlapping timers of enigma

`Overlapping` of `timer.cpp` compares two entries of the timer list, single ones and
those that come again every week on some days.
-/

namespace Tuxbox.Enigma

/-- `struct tm`, as far as it is used. -/
structure Tm where
  wday : Int
  hour : Int
  min : Int

/-- A time zone of a fixed offset; `date` gives day, month and year as one number,
as `getDate` does. -/
structure TimeZone where
  offset : Int
  date : Int → Int

/-- The first of January 1970 was a Thursday. -/
def TimeZone.localtime (z : TimeZone) (t : Int) : Tm :=
  ⟨((t + z.offset) / 86400 + 4) % 7, (t + z.offset) % 86400 / 3600, (t + z.offset) % 3600 / 60⟩

/-- The times as `time_t`, the type with its flags. -/
structure PlaylistEntry where
  service : Nat
  lastActivation : Int
  timeBegin : Int
  duration : Int
  type : BitVec 32
  deriving DecidableEq

namespace PlaylistEntry

def stateWaiting : BitVec 32 := 32

def stateRunning : BitVec 32 := 64

def stateFinished : BitVec 32 := 256

def stateError : BitVec 32 := 512

def errorOutdated : BitVec 32 := 8192

def doFinishOnly : BitVec 32 := 65536

def isRepeating : BitVec 32 := 262144

/-- Sunday, the first of seven bits. -/
def su : BitVec 32 := 524288

/-- `type & flags` -/
def has (e : PlaylistEntry) (flags : BitVec 32) : Bool := e.type &&& flags ≠ 0

end PlaylistEntry

open PlaylistEntry

/-- What an `int` holds of a number. -/
def int32 (n : Int) : Int := n.bmod (2 ^ 32)

/-- `eRect::intersects`, for the rectangles that `Overlap` makes. -/
def overlap (beginTime1 duration1 beginTime2 duration2 : Int) : Bool :=
  max beginTime1 beginTime2 < min (int32 (beginTime1 + duration1)) (int32 (beginTime2 + duration2))

/-- The three comparisons of `msOverlap` and `mmOverlap`. -/
def weekOverlap (tmp1 duration1 tmp2 duration2 : Int) : Bool :=
  if overlap tmp1 duration1 tmp2 duration2 then true
  else if tmp1 + duration1 > 24 * 7 * 3600 &&
      overlap 0 (tmp1 + duration1 - 24 * 7 * 3600) tmp2 duration2 then true
  else if tmp2 + duration2 > 24 * 7 * 3600 &&
      overlap 0 (tmp2 + duration2 - 24 * 7 * 3600) tmp1 duration1 then true
  else false

/-- Seconds from the begin of the week, for day `x` of it. -/
def weekTime (x : Int) (tm : Tm) : Int := x * 24 * 3600 + tm.hour * 3600 + tm.min * 60

def days : List Nat := [0, 1, 2, 3, 4, 5, 6]

/-- `m` repeats, `s` does not; `now` is the time of `getDate`. -/
def msOverlap (z : TimeZone) (now : Int) (m s : PlaylistEntry) : Bool :=
  let multiple := z.localtime m.timeBegin
  let entry := z.localtime s.timeBegin
  if s.has (stateError ||| stateFinished) then false
  else if m.lastActivation = z.date now && m.has stateError &&
      z.date s.timeBegin = z.date now then false
  else days.any fun x =>
    m.has (su <<< x) &&
      weekOverlap (weekTime entry.wday entry) s.duration (weekTime x multiple) m.duration

def mmOverlap (z : TimeZone) (m1 m2 : PlaylistEntry) : Bool :=
  let multiple1 := z.localtime m1.timeBegin
  let multiple2 := z.localtime m2.timeBegin
  days.any fun x => m1.has (su <<< x) && days.any fun y => m2.has (su <<< y) &&
    weekOverlap (weekTime x multiple1) m1.duration (weekTime y multiple2) m2.duration

def overlapping (z : TimeZone) (now : Int) (e1 e2 : PlaylistEntry) : Bool :=
  if e1.has isRepeating && e2.has isRepeating then mmOverlap z e1 e2
  else if e1.has isRepeating then msOverlap z now e1 e2
  else if e2.has isRepeating then msOverlap z now e2 e1
  else !e1.has (stateError ||| stateFinished) && !e2.has (stateError ||| stateFinished) &&
    overlap e2.timeBegin e2.duration e1.timeBegin e1.duration

/-! ## What is meant -/

/-- `t` is the begin of an occurrence: of the only one, or of one on a selected day,
at the same time of day. -/
def PlaylistEntry.Occurs (z : TimeZone) (e : PlaylistEntry) (t : Int) : Prop :=
  if e.has isRepeating then
    t % 86400 = e.timeBegin % 86400 ∧ e.has (su <<< (z.localtime t).wday.toNat) = true
  else t = e.timeBegin

/-- Some occurrence of one and some of the other share an instant. -/
def Intersect (z : TimeZone) (e1 e2 : PlaylistEntry) : Prop :=
  ∃ t1 t2, e1.Occurs z t1 ∧ e2.Occurs z t2 ∧ Meets t1 e1.duration t2 e2.duration

/-- A duration of a day at most, a begin on a whole minute, and an end in a `time_t`. -/
structure PlaylistEntry.Timed (e : PlaylistEntry) : Prop where
  pos : 1 ≤ e.duration
  day : e.duration ≤ 86400
  minute : e.timeBegin % 60 = 0
  low : -2 ^ 31 ≤ e.timeBegin
  high : e.timeBegin + e.duration < 2 ^ 31

/-! ## Weeks -/

section week
variable {z : TimeZone} {now t t1 t2 d d1 d2 : Int} {e m s e1 e2 : PlaylistEntry}

/-- Where whole minutes are in the week that begins at a Sunday's midnight. -/
def TimeZone.weekOffset (z : TimeZone) : Int := z.offset - z.offset % 60 + 345600

theorem weekTime_localtime (x : Int) (ht : t % 60 = 0) :
    weekTime x (z.localtime t) = x * 86400 + (t + z.weekOffset) % 86400 := by
  unfold weekTime TimeZone.localtime TimeZone.weekOffset
  dsimp only
  omega

theorem wday_localtime (ht : t % 60 = 0) :
    (z.localtime t).wday = (t + z.weekOffset) % 604800 / 86400 := by
  unfold TimeZone.localtime TimeZone.weekOffset
  dsimp only
  omega

theorem weekTime_wday (ht : t % 60 = 0) :
    weekTime (z.localtime t).wday (z.localtime t) = (t + z.weekOffset) % 604800 := by
  rw [weekTime_localtime _ ht, wday_localtime ht]
  omega

theorem int32_eq {n : Int} (hlow : -2 ^ 31 ≤ n) (hhigh : n < 2 ^ 31) : int32 n = n := by
  apply Int.bmod_eq_of_le <;> omega

theorem overlap_iff (hd1 : 0 < d1) (hd2 : 0 < d2) (hlow1 : -2 ^ 31 ≤ t1) (hlow2 : -2 ^ 31 ≤ t2)
    (hhigh1 : t1 + d1 < 2 ^ 31) (hhigh2 : t2 + d2 < 2 ^ 31) :
    overlap t1 d1 t2 d2 = true ↔ Meets t1 d1 t2 d2 := by
  rw [overlap, int32_eq (by omega) hhigh1, int32_eq (by omega) hhigh2, decide_eq_true_eq,
    meets_iff hd1 hd2]
  omega

/-- The three comparisons are enough for all weeks. -/
theorem weekOverlap_iff (ht1 : 0 ≤ t1) (ht1' : t1 < 604800) (ht2 : 0 ≤ t2) (ht2' : t2 < 604800)
    (hd1 : 1 ≤ d1) (hd1' : d1 ≤ 86400) (hd2 : 1 ≤ d2) (hd2' : d2 ≤ 86400) :
    weekOverlap t1 d1 t2 d2 = true ↔ ∃ k, Meets (t1 + k * 604800) d1 t2 d2 := by
  rw [meets_again_iff ht1 ht1' ht2 ht2' (by omega) (by omega) (by omega) (by omega)]
  have hsame : overlap t1 d1 t2 d2 = true ↔ Meets t1 d1 t2 d2 :=
    overlap_iff (by omega) (by omega) (by omega) (by omega) (by omega) (by omega)
  have around {a da b db : Int} (ha : a < 604800) (hda : da ≤ 86400) (hb : 0 ≤ b)
      (hb' : b < 604800) (hdb : 1 ≤ db) (hdb' : db ≤ 86400) :
      (a + da > 24 * 7 * 3600 ∧ overlap 0 (a + da - 24 * 7 * 3600) b db = true) ↔
        MeetsAround 604800 a da b db := by
    unfold MeetsAround
    apply and_congr_right
    intro hover
    apply overlap_iff <;> omega
  rw [← around ht1' hd1' ht2 ht2' hd2 hd2', ← around ht2' hd2' ht1 ht1' hd1 hd1', ← hsame]
  simp only [weekOverlap, Bool.and_eq_true, decide_eq_true_eq]
  split_ifs <;> tauto

theorem weekOverlap_times (ht1 : t1 % 60 = 0) (ht2 : t2 % 60 = 0) (hd1 : 1 ≤ d1)
    (hd1' : d1 ≤ 86400) (hd2 : 1 ≤ d2) (hd2' : d2 ≤ 86400) :
    weekOverlap (weekTime (z.localtime t1).wday (z.localtime t1)) d1
      (weekTime (z.localtime t2).wday (z.localtime t2)) d2 = true ↔
      ∃ k, Meets (t1 + k * 604800) d1 t2 d2 := by
  rw [weekTime_wday ht1, weekTime_wday ht2]
  rw [weekOverlap_iff (by omega) (by omega) (by omega) (by omega) hd1 hd1' hd2 hd2']
  have h1 := Int.emod_add_mul_ediv (t1 + z.weekOffset) 604800
  have h2 := Int.emod_add_mul_ediv (t2 + z.weekOffset) 604800
  generalize (t1 + z.weekOffset) / 604800 = q1 at h1
  generalize (t2 + z.weekOffset) / 604800 = q2 at h2
  have hshift (k : Int) : Meets ((t1 + z.weekOffset) % 604800 + k * 604800) d1
      ((t2 + z.weekOffset) % 604800) d2 ↔ Meets (t1 + (k - q1 + q2) * 604800) d1 t2 d2 := by
    have ha : (t1 + z.weekOffset) % 604800 + k * 604800 =
        t1 + (k - q1 + q2) * 604800 + (z.weekOffset - 604800 * q2) := by omega
    have hb : (t2 + z.weekOffset) % 604800 = t2 + (z.weekOffset - 604800 * q2) := by omega
    rw [ha, hb, Meets.shift]
  constructor
  · rintro ⟨k, hk⟩
    exact ⟨k - q1 + q2, (hshift k).mp hk⟩
  · rintro ⟨k, hk⟩
    refine ⟨k + q1 - q2, (hshift _).mpr ?_⟩
    have hk' : k + q1 - q2 - q1 + q2 = k := by omega
    rwa [hk']

theorem mem_days {x : Nat} : x ∈ days ↔ x < 7 := by
  simp only [days, List.mem_cons, List.not_mem_nil, or_false]
  omega

theorem Occurs_week (hm : m.has isRepeating = true) (k : Int) (h : m.Occurs z t)
    (hmin : t % 60 = 0) : m.Occurs z (t + k * 604800) := by
  unfold Occurs at h ⊢
  rw [if_pos hm] at h ⊢
  have hwday : (z.localtime (t + k * 604800)).wday = (z.localtime t).wday := by
    rw [wday_localtime (by omega), wday_localtime hmin]
    omega
  rw [hwday]
  exact ⟨by omega, h.2⟩

/-- The occurrences, by their place in the week. -/
theorem exists_occurs (hm : m.has isRepeating = true) (hmin : m.timeBegin % 60 = 0)
    (P : Int → Prop) :
    (∃ t, m.Occurs z t ∧ P (weekTime (z.localtime t).wday (z.localtime t))) ↔
      ∃ x ∈ days, m.has (su <<< x) = true ∧ P (weekTime x (z.localtime m.timeBegin)) := by
  constructor
  · rintro ⟨t, ht, hP⟩
    rw [Occurs, if_pos hm] at ht
    have htmin : t % 60 = 0 := by omega
    have hday := wday_localtime (z := z) htmin
    refine ⟨(z.localtime t).wday.toNat, mem_days.mpr (by omega), ht.2, ?_⟩
    have hsame : weekTime (z.localtime t).wday (z.localtime t) =
        weekTime ((z.localtime t).wday.toNat : Int) (z.localtime m.timeBegin) := by
      rw [weekTime_localtime _ htmin, weekTime_localtime _ hmin]
      omega
    rwa [← hsame]
  · rintro ⟨x, hx, hbit, hP⟩
    have hx := mem_days.mp hx
    have hplace := weekTime_localtime (z := z) x hmin
    refine ⟨weekTime x (z.localtime m.timeBegin) - z.weekOffset, ?_, ?_⟩
    · have hmin' : (weekTime x (z.localtime m.timeBegin) - z.weekOffset) % 60 = 0 := by omega
      have hday : ((weekTime x (z.localtime m.timeBegin) - z.weekOffset + z.weekOffset) %
          604800 / 86400).toNat = x := by omega
      rw [Occurs, if_pos hm, wday_localtime hmin', hday]
      exact ⟨by omega, hbit⟩
    · rw [weekTime_wday (by omega)]
      have : (weekTime x (z.localtime m.timeBegin) - z.weekOffset + z.weekOffset) % 604800 =
        weekTime x (z.localtime m.timeBegin) := by omega
      rwa [this]

theorem Intersect.comm : Intersect z e1 e2 ↔ Intersect z e2 e1 := by
  constructor
  · exact fun ⟨t1, t2, h1, h2, h⟩ => ⟨t2, t1, h2, h1, Meets.comm.mp h⟩
  · exact fun ⟨t1, t2, h1, h2, h⟩ => ⟨t2, t1, h2, h1, Meets.comm.mp h⟩

theorem Occurs_minute (hmin : e.timeBegin % 60 = 0) (h : e.Occurs z t) : t % 60 = 0 := by
  unfold Occurs at h
  split at h
  · omega
  · omega

/-- An entry that repeats meets what any week's occurrence of it meets. -/
theorem intersect_week (hm : m.has isRepeating = true) (hmin : m.timeBegin % 60 = 0) :
    Intersect z e m ↔ ∃ t1 t2, e.Occurs z t1 ∧ m.Occurs z t2 ∧
      ∃ k, Meets (t1 + k * 604800) e.duration t2 m.duration := by
  constructor
  · rintro ⟨t1, t2, h1, h2, h⟩
    exact ⟨t1, t2, h1, h2, 0, by rwa [Int.zero_mul, Int.add_zero]⟩
  · rintro ⟨t1, t2, h1, h2, k, h⟩
    refine ⟨t1, t2 + (-k) * 604800, h1, Occurs_week hm (-k) h2 (Occurs_minute hmin h2), ?_⟩
    rw [← Meets.shift (k * 604800)]
    have hback : t2 + -k * 604800 + k * 604800 = t2 := by omega
    rwa [hback]

theorem has_left {flags flags' : BitVec 32} (h : e.has (flags ||| flags') = false) :
    e.has flags = false := by
  have hflags : flags = (flags ||| flags') &&& flags := by
    apply BitVec.eq_of_getLsbD_eq
    intro i _
    simp only [BitVec.getLsbD_and, BitVec.getLsbD_or]
    cases flags.getLsbD i <;> simp
  simp only [has, ne_eq, decide_eq_false_iff_not, not_not] at h ⊢
  rw [hflags, ← BitVec.and_assoc, h]
  exact BitVec.zero_and

theorem mmOverlap_iff (h1 : e1.Timed) (h2 : e2.Timed) (hr1 : e1.has isRepeating = true)
    (hr2 : e2.has isRepeating = true) : mmOverlap z e1 e2 = true ↔ Intersect z e1 e2 := by
  rw [intersect_week hr2 h2.minute]
  have htimes {t1 t2 : Int} (ho1 : e1.Occurs z t1) (ho2 : e2.Occurs z t2) :=
    weekOverlap_times (z := z) (Occurs_minute h1.minute ho1) (Occurs_minute h2.minute ho2)
      h1.pos h1.day h2.pos h2.day
  have hplaces := exists_occurs (z := z) hr1 h1.minute fun a => ∃ t, e2.Occurs z t ∧
    weekOverlap a e1.duration (weekTime (z.localtime t).wday (z.localtime t)) e2.duration = true
  have hplaces2 (a : Int) := exists_occurs (z := z) hr2 h2.minute fun b =>
    weekOverlap a e1.duration b e2.duration = true
  simp only [mmOverlap, List.any_eq_true, Bool.and_eq_true, ← hplaces2, ← hplaces]
  constructor
  · rintro ⟨t1, ho1, t2, ho2, h⟩
    exact ⟨t1, t2, ho1, ho2, (htimes ho1 ho2).mp h⟩
  · rintro ⟨t1, t2, ho1, ho2, h⟩
    exact ⟨t1, ho1, t2, ho2, (htimes ho1 ho2).mpr h⟩

theorem msOverlap_iff (hm : m.Timed) (hs : s.Timed) (hrm : m.has isRepeating = true)
    (hrs : s.has isRepeating = false) (hem : m.has (stateError ||| stateFinished) = false)
    (hes : s.has (stateError ||| stateFinished) = false) :
    msOverlap z now m s = true ↔ Intersect z s m := by
  have hplaces := exists_occurs (z := z) hrm hm.minute fun b =>
    weekOverlap (weekTime (z.localtime s.timeBegin).wday (z.localtime s.timeBegin)) s.duration
      b m.duration = true
  have honly (t : Int) : s.Occurs z t ↔ t = s.timeBegin := by
    rw [Occurs, if_neg (by simp [hrs])]
  rw [intersect_week hrm hm.minute]
  simp only [msOverlap, hes, has_left hem, Bool.and_false, Bool.false_and, if_false,
    Bool.false_eq_true, List.any_eq_true, Bool.and_eq_true, ← hplaces, honly]
  constructor
  · rintro ⟨t2, ho2, h⟩
    exact ⟨_, t2, rfl, ho2, (weekOverlap_times hs.minute (Occurs_minute hm.minute ho2) hs.pos
      hs.day hm.pos hm.day).mp h⟩
  · rintro ⟨t1, t2, rfl, ho2, h⟩
    exact ⟨t2, ho2, (weekOverlap_times hs.minute (Occurs_minute hm.minute ho2) hs.pos
      hs.day hm.pos hm.day).mpr h⟩

/-- `Overlapping` tells whether two entries intersect. -/
theorem overlapping_iff (z : TimeZone) (now : Int) (h1 : e1.Timed) (h2 : e2.Timed)
    (he1 : e1.has (stateError ||| stateFinished) = false)
    (he2 : e2.has (stateError ||| stateFinished) = false) :
    overlapping z now e1 e2 = true ↔ Intersect z e1 e2 := by
  unfold overlapping
  cases hr1 : e1.has isRepeating <;> cases hr2 : e2.has isRepeating
  · have honly {e : PlaylistEntry} (hr : e.has isRepeating = false) (t : Int) :
        e.Occurs z t ↔ t = e.timeBegin := by
      rw [Occurs, if_neg (by simp [hr])]
    have hmeets := overlap_iff (Int.lt_of_lt_of_le Int.zero_lt_one h2.pos)
      (Int.lt_of_lt_of_le Int.zero_lt_one h1.pos) h2.low h1.low h2.high h1.high
    simp only [he1, he2, Bool.false_and, Bool.false_eq_true, if_false, Bool.not_false,
      Bool.true_and, hmeets, Intersect, honly hr1, honly hr2]
    rw [Meets.comm]
    constructor
    · exact fun h => ⟨_, _, rfl, rfl, h⟩
    · rintro ⟨t1, t2, rfl, rfl, h⟩
      exact h
  · exact (msOverlap_iff h2 h1 hr2 hr1 he2 he1)
  · exact (msOverlap_iff h1 h2 hr1 hr2 he1 he2).trans Intersect.comm
  · exact mmOverlap_iff h1 h2 hr1 hr2

end week

end Tuxbox.Enigma
