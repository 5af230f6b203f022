import Mathlib.Data.List.GetD
import Tuxbox.Lib.Bytes

/-!
# Windows on a stream of bits

A word holds the next bits of a stream, the first one in its highest bit, and is shifted along
the stream one bit at a time.
-/

namespace Tuxbox.Bits

section
variable {w n : Nat}

/-- The first `w` bits of the stream. -/
def Window (value : BitVec w) (stream : Nat → Bool) : Prop :=
  ∀ i < w, value.getMsbD i = stream i

/-- The highest `n` bits. -/
def topMask (w n : Nat) : BitVec w := BitVec.allOnes w <<< (w - n)

/-- The highest `n` bits of a word, the first one first. -/
def topBits (value : BitVec w) (n : Nat) : List Bool := (List.range n).map value.getMsbD

/-- Some bits and then nothing but zeros. -/
def ofList (bits : List Bool) (i : Nat) : Bool := bits.getD i false

/-- The stream starts with these bits. -/
def StartsWith (stream : Nat → Bool) (bits : List Bool) : Prop :=
  ∀ i < bits.length, stream i = ofList bits i

variable {value code : BitVec w} {stream : Nat → Bool}

@[simp] theorem topBits_length (value : BitVec w) (n : Nat) : (topBits value n).length = n := by
  simp [topBits]

theorem ofList_topBits {i : Nat} (h : i < n) : ofList (topBits value n) i = value.getMsbD i := by
  simp [ofList, topBits, List.getD, h]

theorem ofList_append (bits rest : List Bool) (i : Nat) :
    ofList (bits ++ rest) (bits.length + i) = ofList rest i := by
  unfold ofList
  rw [List.getD_append_right _ _ _ _ (Nat.le_add_right _ _), Nat.add_sub_cancel_left]

theorem startsWith_append (bits rest : List Bool) : StartsWith (ofList (bits ++ rest)) bits :=
  fun _ hi => List.getD_append _ _ _ _ hi

theorem topMask_getMsbD {i : Nat} (hn : n ≤ w) : (topMask w n).getMsbD i = decide (i < n) := by
  rw [topMask, BitVec.getMsbD_shiftLeft, BitVec.getMsbD_allOnes, decide_eq_decide]
  omega

theorem Window.shift (h : Window value stream) (hw : 0 < w) {b : Bool} (hb : b = stream w) :
    Window (value <<< 1 ||| BitVec.setWidth w (BitVec.ofBool b)) fun i => stream (i + 1) := by
  intro i hi
  rw [BitVec.getMsbD_or, BitVec.getMsbD_shiftLeft, BitVec.getMsbD_setWidth, BitVec.getMsbD_ofBool]
  rcases Nat.lt_or_ge (i + 1) w with hlt | hge
  · have hbefore : ¬ w - 1 ≤ i := by omega
    rw [h (i + 1) hlt, decide_eq_false hbefore, Bool.false_and, Bool.or_false]
  · obtain rfl : w = i + 1 := by omega
    simp [hb]

theorem Window.eq_zero_iff (h : Window value stream) : value = 0#w ↔ ∀ i < w, stream i = false := by
  constructor
  · rintro rfl i hi
    rw [← h i hi, BitVec.getMsbD_zero]
  · intro hall
    apply BitVec.eq_of_getMsbD_eq
    intro i hi
    rw [h i hi, hall i hi, BitVec.getMsbD_zero]

/-- The code has no bits but the highest `n`. -/
theorem Window.starts_iff (h : Window value stream) (hn : n ≤ w)
    (hcode : code &&& topMask w n = code) :
    value &&& topMask w n = code ↔ StartsWith stream (topBits code n) := by
  have hhigh : ∀ {i}, i < n → (topMask w n).getMsbD i = true := fun hi => by
    rw [topMask_getMsbD hn, decide_eq_true hi]
  have hlow : ∀ {i}, ¬ i < n → (topMask w n).getMsbD i = false := fun hi => by
    rw [topMask_getMsbD hn, decide_eq_false hi]
  constructor
  · intro heq i hi
    rw [topBits_length] at hi
    rw [ofList_topBits hi, ← heq, BitVec.getMsbD_and, hhigh hi, Bool.and_true, h i (by omega)]
  · intro hstarts
    apply BitVec.eq_of_getMsbD_eq
    intro i hi
    rw [← hcode, BitVec.getMsbD_and, BitVec.getMsbD_and]
    by_cases hin : i < n
    · rw [h i hi, hstarts i (by rwa [topBits_length]), ofList_topBits hin]
    · rw [hlow hin, Bool.and_false, Bool.and_false]

end

/-! ## The bits of bytes -/

/-- A bit of the bytes, and zeros behind them. -/
def bitAt (src : Str) (i : Nat) : Bool := (src.getD (i / 8) 0).toBitVec.getMsbD (i % 8)

theorem bitAt_of_le {src : Str} {i : Nat} (h : src.length ≤ i / 8) : bitAt src i = false := by
  unfold bitAt
  rw [List.getD_eq_default _ _ h]
  exact BitVec.getMsbD_zero

end Tuxbox.Bits
