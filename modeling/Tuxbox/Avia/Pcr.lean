import Mathlib.Algebra.Group.Nat.Defs
import Mathlib.Algebra.Ring.Int.Defs
import Mathlib.Tactic.SplitIfs

/-! The clock of the decoder is compared with each PCR that comes in.

* `pcrIrq_right_iff`: when an interrupt does what it is for, in every run. -/
namespace Tuxbox.Avia.Pcr

/-! ## The registers -/

/-- Three registers: a base of 33 bits at the upper end. -/
structure Clock where
  word2 : BitVec 16
  word1 : BitVec 16
  word0 : BitVec 16

def Clock.base (c : Clock) : BitVec 64 :=
  c.word2.setWidth 64 <<< 17 ||| c.word1.setWidth 64 <<< 1 ||| c.word0.setWidth 64 >>> 15

/-- What the registers hold at an interrupt. -/
structure Registers where
  tpPcr : Clock
  stcCounter : Clock
  lcStc : Clock

/-! ## The interrupt -/

def MAX_PCR_DIFF : Nat := 36000
def MAX_DIFF_DIFF : Int := 4
def FORCE_DIFF : Int := 80
def MAX_DIFF : Int := 200
def GAIN : BitVec 16 := 50

inductive Direction
  | slow
  | ok
  | fast
deriving DecidableEq

structure State where
  forceStcReload : Bool
  lastPcr : BitVec 64
  lastLstc : BitVec 64
  lastPcrLstcDiff : BitVec 32
  gain : BitVec 16

/-- What an interrupt does. -/
inductive Outcome
  /-- The clock of the decoder is set, high part and low part. -/
  | reloaded (hi lo : BitVec 32)
  /-- A discontinuity is reported and forced. -/
  | discontinuity
  /-- A discontinuity is forced. -/
  | syncLost
  /-- The clock is kept, or made faster or slower by what is written to `DAC_PC`. -/
  | compared (pcrLstcDiff : BitVec 32) (dac : Option (BitVec 32))
deriving DecidableEq

def forceDiscontinuity (s : State) : State := { s with forceStcReload := true }

/-- Signed in the source. -/
def pcrDiff (lastPcr pcr : BitVec 64) : BitVec 64 :=
  if pcr > lastPcr then pcr - lastPcr else pcr + 0x200000000 - lastPcr

def pcrLstcDiff (s : State) (pcr lstc : BitVec 64) : BitVec 32 :=
  if pcr < s.lastPcr then
    if lstc < s.lastLstc then (lstc - pcr).setWidth 32
    else (lstc - pcr - 0x200000000).setWidth 32
  else
    if lstc < s.lastLstc then (lstc + 0x200000000 - pcr).setWidth 32
    else (lstc - pcr).setWidth 32

def direction (diffDiff : BitVec 32) : Direction :=
  if diffDiff.toInt > MAX_DIFF_DIFF then .fast
  else if diffDiff.toInt < -MAX_DIFF_DIFF then .slow
  else .ok

def setDac (pulseCount : BitVec 16) : BitVec 32 := pulseCount.signExtend 32 <<< 16 ||| 9

/-- The new gain and the new last difference, when they change. -/
def adjust (s : State) (diff : BitVec 32) : Option (BitVec 16 × BitVec 32) :=
  let direction := direction (diff - s.lastPcrLstcDiff)
  if diff.toInt > FORCE_DIFF then
    if direction ≠ .slow then some (s.gain + GAIN, diff) else none
  else if diff.toInt < -FORCE_DIFF then
    if direction ≠ .fast then some (s.gain - GAIN, diff) else none
  else if direction = .fast then some (s.gain + GAIN, s.lastPcrLstcDiff + 1)
  else if direction = .slow then some (s.gain - GAIN, s.lastPcrLstcDiff - 1)
  else none

def pcrIrq (s : State) (r : Registers) : Outcome × State :=
  let pcr := r.tpPcr.base
  if s.forceStcReload then
    let stc := r.stcCounter.base
    (.reloaded ((stc >>> 1).setWidth 32) (((stc &&& 1) <<< 15).setWidth 32),
      { s with forceStcReload := false, lastPcr := pcr, lastLstc := pcr, lastPcrLstcDiff := 0 })
  else if (pcrDiff s.lastPcr pcr).toInt > MAX_PCR_DIFF then (.discontinuity, forceDiscontinuity s)
  else
    let lstc := r.lcStc.base
    let diff := pcrLstcDiff s pcr lstc
    let s := { s with lastPcr := pcr, lastLstc := lstc }
    if diff.toInt > MAX_DIFF ∨ diff.toInt < -MAX_DIFF then (.syncLost, forceDiscontinuity s)
    else
      match adjust s diff with
      | some (gain, last) =>
        (.compared diff (some (setDac gain)), { s with gain := gain, lastPcrLstcDiff := last })
      | none => (.compared diff none, s)

/-! ## Circular distances -/

/-- How far a counter of 33 bits has to go from the one to the other. -/
def forward (a b : Nat) : Nat := (b + 2 ^ 33 - a) % 2 ^ 33

/-- The signed difference of two counters of 33 bits. -/
def circular (a b : Nat) : Int := Int.bmod ((b : Int) - a) (2 ^ 33)

section
variable {a b : BitVec 64}

theorem Clock.base_lt (c : Clock) : c.base.toNat < 2 ^ 33 := by
  unfold Clock.base
  have h2 : (c.word2.setWidth 64 <<< 17).toNat < 2 ^ 33 := by
    have := c.word2.isLt
    simp only [BitVec.toNat_shiftLeft, BitVec.toNat_setWidth, Nat.shiftLeft_eq]
    omega
  have h1 : (c.word1.setWidth 64 <<< 1).toNat < 2 ^ 33 := by
    have := c.word1.isLt
    simp only [BitVec.toNat_shiftLeft, BitVec.toNat_setWidth, Nat.shiftLeft_eq]
    omega
  have h0 : (c.word0.setWidth 64 >>> 15).toNat < 2 ^ 33 := by
    have := c.word0.isLt
    simp only [BitVec.toNat_ushiftRight, BitVec.toNat_setWidth, Nat.shiftRight_eq_div_pow]
    omega
  rw [BitVec.toNat_or, BitVec.toNat_or]
  exact Nat.or_lt_two_pow (Nat.or_lt_two_pow h2 h1) h0

/-- The step of the PCR is too big if and only if it is, or there is none. -/
theorem pcrDiff_gt_iff (ha : a.toNat < 2 ^ 33) (hb : b.toNat < 2 ^ 33) :
    (pcrDiff a b).toInt > MAX_PCR_DIFF ↔ b = a ∨ MAX_PCR_DIFF < forward a.toNat b.toNat := by
  unfold pcrDiff forward MAX_PCR_DIFF
  split
  · rename_i hgt
    have hdiff : (b - a).toNat = b.toNat - a.toNat := by bv_omega
    have hne : b ≠ a := by bv_omega
    rw [BitVec.toInt_eq_toNat_of_lt (by omega), hdiff]
    bv_omega
  · rename_i hle
    have hdiff : (b + 0x200000000 - a).toNat = b.toNat + 2 ^ 33 - a.toNat := by bv_omega
    rw [BitVec.toInt_eq_toNat_of_lt (by omega), hdiff]
    bv_omega

/-- The 33rd bit, and so every wrap, is cut off. -/
theorem pcrLstcDiff_eq (s : State) (pcr lstc : BitVec 64) :
    pcrLstcDiff s pcr lstc = (lstc - pcr).setWidth 32 := by
  unfold pcrLstcDiff
  split_ifs <;> bv_omega

/-- The difference of the low 32 bits, with its sign. -/
theorem pcrLstcDiff_toInt (s : State) (pcr lstc : BitVec 64) :
    (pcrLstcDiff s pcr lstc).toInt = Int.bmod ((lstc.toNat : Int) - pcr.toNat) (2 ^ 32) := by
  rw [pcrLstcDiff_eq, BitVec.toInt_eq_toNat_bmod, BitVec.toNat_setWidth, BitVec.toNat_sub]
  have hpcr := pcr.isLt
  simp only [Int.bmod_def]
  omega

/-- Half way round the circle the difference looks small again. -/
theorem small_iff (pcr lstc : Nat) :
    (Int.bmod ((lstc : Int) - pcr) (2 ^ 32)).natAbs ≤ 200 ↔
      (circular pcr lstc).natAbs ≤ 200 ∨ 2 ^ 32 - 200 ≤ (circular pcr lstc).natAbs := by
  simp only [circular, Int.bmod_def]
  omega

theorem eq_circular {pcr lstc : Nat} (h : (circular pcr lstc).natAbs ≤ 200) :
    Int.bmod ((lstc : Int) - pcr) (2 ^ 32) = circular pcr lstc := by
  simp only [circular, Int.bmod_def] at *
  omega

end

/-! ## Runs -/

inductive Event
  | irq (r : Registers)
  /-- A discontinuity is forced from somewhere else. -/
  | forced

def step (s : State) : Event → State
  | .irq r => (pcrIrq s r).2
  | .forced => forceDiscontinuity s

def run (s : State) (events : List Event) : State := events.foldl step s

/-- What a reload leaves behind. -/
def afterReload (pcr : Clock) (gain : BitVec 16) : State := ⟨false, pcr.base, pcr.base, 0, gain⟩

/-- The PCR of the last interrupt. -/
def previousPcr (pcr : Clock) (events : List Event) : Clock :=
  events.foldl (fun pcr e => match e with | .irq r => r.tpPcr | .forced => pcr) pcr

/-- What an interrupt is for. -/
structure Right (previous pcr lstc : Nat) (result : Outcome × State) : Prop where
  step : result.1 = .discontinuity ↔ MAX_PCR_DIFF < forward previous pcr
  sync : result.1 ≠ .discontinuity →
    (result.2.forceStcReload = true ↔ MAX_DIFF < (circular pcr lstc).natAbs)
  diff : ∀ d dac, result.1 = .compared d dac → d.toInt = circular pcr lstc

section
variable {s : State} {r : Registers}

theorem pcrIrq_discontinuity (h : s.forceStcReload = false)
    (hbig : (pcrDiff s.lastPcr r.tpPcr.base).toInt > MAX_PCR_DIFF) :
    pcrIrq s r = (.discontinuity, forceDiscontinuity s) := by
  unfold pcrIrq
  rw [if_neg (by rw [h]; decide), if_pos hbig]

/-- The difference decides between the two others. -/
theorem pcrIrq_compared (h : s.forceStcReload = false)
    (hsmall : ¬ (pcrDiff s.lastPcr r.tpPcr.base).toInt > MAX_PCR_DIFF) :
    (pcrIrq s r).2.lastPcr = r.tpPcr.base ∧
    if 200 < (pcrLstcDiff s r.tpPcr.base r.lcStc.base).toInt.natAbs then
      (pcrIrq s r).1 = .syncLost ∧ (pcrIrq s r).2.forceStcReload = true
    else
      (∃ dac, (pcrIrq s r).1 = .compared (pcrLstcDiff s r.tpPcr.base r.lcStc.base) dac) ∧
        (pcrIrq s r).2.forceStcReload = false := by
  unfold pcrIrq
  rw [if_neg (by rw [h]; decide), if_neg hsmall]
  have hlost : ∀ d : Int, (d > MAX_DIFF ∨ d < -MAX_DIFF) ↔ 200 < d.natAbs := fun d => by
    unfold MAX_DIFF
    omega
  simp only [hlost]
  split
  · exact ⟨rfl, rfl, rfl⟩
  · split
    · exact ⟨rfl, ⟨_, rfl⟩, h⟩
    · exact ⟨rfl, ⟨_, rfl⟩, h⟩

/-- Without a reload to come the PCR of the interrupt is the last one. -/
theorem pcrIrq_lastPcr (h : (pcrIrq s r).2.forceStcReload = false) :
    (pcrIrq s r).2.lastPcr = r.tpPcr.base := by
  cases hforce : s.forceStcReload with
  | true =>
    unfold pcrIrq
    rw [if_pos hforce]
  | false =>
    by_cases hbig : (pcrDiff s.lastPcr r.tpPcr.base).toInt > MAX_PCR_DIFF
    · rw [pcrIrq_discontinuity hforce hbig] at h
      cases h
    · exact (pcrIrq_compared hforce hbig).1

theorem run_lastPcr {events : List Event}
    (hs : s.forceStcReload = false → s.lastPcr = pcr.base)
    (h : (run s events).forceStcReload = false) :
    (run s events).lastPcr = (previousPcr pcr events).base := by
  induction events generalizing s pcr with
  | nil => exact hs h
  | cons e events ih =>
    cases e with
    | irq r =>
      apply ih _ h
      exact pcrIrq_lastPcr
    | forced =>
      apply ih _ h
      intro hforce
      cases hforce

/-- One interrupt does what it is for if and only if the PCR has changed and the clock is not
half way round. -/
theorem right_iff (h : s.forceStcReload = false) (hs : s.lastPcr.toNat < 2 ^ 33) :
    Right s.lastPcr.toNat r.tpPcr.base.toNat r.lcStc.base.toNat (pcrIrq s r) ↔
      r.tpPcr.base ≠ s.lastPcr ∧
        (forward s.lastPcr.toNat r.tpPcr.base.toNat ≤ MAX_PCR_DIFF →
          (circular r.tpPcr.base.toNat r.lcStc.base.toNat).natAbs < 2 ^ 32 - 200) := by
  have hstep := pcrDiff_gt_iff (a := s.lastPcr) hs r.tpPcr.base_lt
  by_cases hbig : (pcrDiff s.lastPcr r.tpPcr.base).toInt > MAX_PCR_DIFF
  · rw [pcrIrq_discontinuity h hbig]
    constructor
    · intro hright
      have hforward := hright.step.mp rfl
      refine ⟨fun heq => ?_, fun hle => absurd hforward (Nat.not_lt.mpr hle)⟩
      rw [heq] at hforward
      exact absurd hforward (by unfold forward MAX_PCR_DIFF; omega)
    · rintro ⟨hne, -⟩
      have hforward := (hstep.mp hbig).resolve_left hne
      exact ⟨iff_of_true rfl hforward, fun hno => absurd rfl hno, nofun⟩
  · obtain ⟨hne, hforward⟩ := not_or.mp (mt hstep.mpr hbig)
    have hcompared := (pcrIrq_compared h hbig).2
    rw [pcrLstcDiff_toInt] at hcompared
    have hsmall := small_iff r.tpPcr.base.toNat r.lcStc.base.toNat
    split at hcompared
    · -- the clock is set again
      rename_i hfar
      obtain ⟨hout, hforce⟩ := hcompared
      refine iff_of_true ⟨?_, fun _ => ?_, ?_⟩ ⟨hne, fun _ => ?_⟩
      · rw [hout]
        exact iff_of_false nofun hforward
      · refine iff_of_true hforce ?_
        unfold MAX_DIFF
        omega
      · rw [hout]
        exact nofun
      · omega
    · rename_i hnear
      obtain ⟨⟨dac, hout⟩, hforce⟩ := hcompared
      constructor
      · intro hright
        refine ⟨hne, fun _ => ?_⟩
        have hsync := hright.sync (by rw [hout]; exact nofun)
        rw [hforce] at hsync
        have hdist : ¬ MAX_DIFF < (circular r.tpPcr.base.toNat r.lcStc.base.toNat).natAbs :=
          fun hlt => nomatch hsync.mpr hlt
        unfold MAX_DIFF at hdist
        omega
      · rintro ⟨-, hhalf⟩
        have hdist := hhalf (Nat.not_lt.mp hforward)
        have hcirc : (circular r.tpPcr.base.toNat r.lcStc.base.toNat).natAbs ≤ 200 := by omega
        refine ⟨?_, fun _ => ?_, ?_⟩
        · rw [hout]
          exact iff_of_false nofun hforward
        · rw [hforce]
          refine iff_of_false nofun ?_
          unfold MAX_DIFF
          omega
        · intro d dac' heq
          rw [hout] at heq
          obtain ⟨rfl, -⟩ := Outcome.compared.inj heq
          rw [pcrLstcDiff_toInt]
          exact eq_circular hcirc

end

/-- Behind a reload, whatever has happened since, an interrupt does what it is for if and only
if the PCR is not the one before again and the clock is not half way round the circle. -/
theorem pcrIrq_right_iff (pcr : Clock) (gain : BitVec 16) (events : List Event) (r : Registers)
    (h : (run (afterReload pcr gain) events).forceStcReload = false) :
    Right (previousPcr pcr events).base.toNat r.tpPcr.base.toNat r.lcStc.base.toNat
        (pcrIrq (run (afterReload pcr gain) events) r) ↔
      r.tpPcr.base ≠ (previousPcr pcr events).base ∧
        (forward (previousPcr pcr events).base.toNat r.tpPcr.base.toNat ≤ MAX_PCR_DIFF →
          (circular r.tpPcr.base.toNat r.lcStc.base.toNat).natAbs < 2 ^ 32 - 200) := by
  have hlast := run_lastPcr (fun _ => rfl) h
  have hright := right_iff (r := r) h (hlast ▸ (previousPcr pcr events).base_lt)
  rwa [hlast] at hright

/-- The last PCR before the 33 bits go round, and the first behind. -/
theorem pcrIrq_right_iff_sample :
    Right 8589934591 10 12 (pcrIrq (run (afterReload ⟨0xFFFF, 0xFFFF, 0⟩ 0)
      [.irq ⟨⟨0xFFFF, 0xFFFF, 0x8000⟩, ⟨0, 0, 0⟩, ⟨0xFFFF, 0xFFFF, 0⟩⟩])
      ⟨⟨0, 5, 0⟩, ⟨0, 0, 0⟩, ⟨0, 6, 0⟩⟩) :=
  (pcrIrq_right_iff ⟨0xFFFF, 0xFFFF, 0⟩ 0
    [.irq ⟨⟨0xFFFF, 0xFFFF, 0x8000⟩, ⟨0, 0, 0⟩, ⟨0xFFFF, 0xFFFF, 0⟩⟩]
    ⟨⟨0, 5, 0⟩, ⟨0, 0, 0⟩, ⟨0, 6, 0⟩⟩ (by decide)).mpr ⟨by decide, fun _ => by decide⟩

/-- The same PCR twice is a discontinuity, and a clock that is half way round is kept. -/
theorem pcrIrq_wrong :
    (pcrIrq (afterReload ⟨0, 1, 0⟩ 0) ⟨⟨0, 1, 0⟩, ⟨0, 0, 0⟩, ⟨0, 1, 0⟩⟩).1 = .discontinuity ∧
      forward 2 2 = 0 ∧
    (pcrIrq (afterReload ⟨0, 0, 0⟩ 0) ⟨⟨0, 1, 0⟩, ⟨0, 0, 0⟩, ⟨0x8000, 1, 0⟩⟩).1 =
      .compared 0 none ∧ (circular 2 (2 ^ 32 + 2)).natAbs = 2 ^ 32 := by
  decide

end Tuxbox.Avia.Pcr
