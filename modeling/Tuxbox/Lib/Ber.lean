import Tuxbox.Lib.Bytes
import Mathlib.Data.List.Induction

/-!
# Length fields of BER
-/

namespace Tuxbox

/-- A number, most significant byte first. -/
def beValue (bs : Str) : Nat := bs.foldl (fun v b => v * 256 + b.toNat) 0

theorem beValue_append (bs : Str) (b : Byte) : beValue (bs ++ [b]) = beValue bs * 256 + b.toNat := by
  rw [beValue, List.foldl_append]
  rfl

/-- A field of definite form and the length it stands for. -/
inductive BerLength : Str → Nat → Prop
  | short {n : Nat} : n < 128 → BerLength [UInt8.ofNat n] n
  | long {bs : Str} : 0 < bs.length → bs.length < 127 →
      BerLength (UInt8.ofNat (128 + bs.length) :: bs) (beValue bs)

/-- Below 128 the first byte is the length, above it counts the other bytes; 128
itself is the indefinite form. -/
theorem BerLength.head {field : Str} {n : Nat} (h : BerLength field n) :
    ∃ b bs, field = b :: bs ∧ (b.toNat = n ∧ n < 128 ∧ bs = [] ∨
      b.toNat = 128 + bs.length ∧ 0 < bs.length ∧ bs.length < 127 ∧ n = beValue bs) := by
  cases h with
  | short hn =>
    refine ⟨_, _, rfl, .inl ⟨?_, hn, rfl⟩⟩
    rw [UInt8.toNat_ofNat']
    omega
  | long hpos hlen =>
    refine ⟨_, _, rfl, .inr ⟨?_, hpos, hlen, rfl⟩⟩
    rw [UInt8.toNat_ofNat']
    omega

theorem berLength_word {n : Nat} (h : n < 65536) :
    BerLength [0x82, UInt8.ofNat (n >>> 8), UInt8.ofNat (n &&& 0xff)] n := by
  have hvalue : beValue [UInt8.ofNat (n >>> 8), UInt8.ofNat (n &&& 0xff)] = n := by
    have hand : n &&& 0xff = n % 256 := Nat.and_two_pow_sub_one_eq_mod n 8
    simp only [beValue, List.foldl_cons, List.foldl_nil, UInt8.toNat_ofNat', hand,
      Nat.shiftRight_eq_div_pow]
    omega
  have hlong := @BerLength.long [UInt8.ofNat (n >>> 8), UInt8.ofNat (n &&& 0xff)] (by simp) (by simp)
  rw [hvalue] at hlong
  exact hlong

theorem berLength_byte {n : Nat} (h : n < 256) : BerLength [0x81, UInt8.ofNat n] n := by
  have hvalue : beValue [UInt8.ofNat n] = n := by
    simp only [beValue, List.foldl_cons, List.foldl_nil, UInt8.toNat_ofNat']
    omega
  have hlong := @BerLength.long [UInt8.ofNat n] (by simp) (by simp)
  rw [hvalue] at hlong
  exact hlong

/-- The loop over `i` that joins byte `i` of `k`, shifted by what is behind it. -/
def orShifted (byte : Nat → Nat) (k : Nat) : Nat → Nat
  | 0 => 0
  | i + 1 => orShifted byte k i ||| byte i <<< ((k - (i + 1)) * 8)

theorem orShifted_succ (byte : Nat → Nat) (k i : Nat) (h : i ≤ k) :
    orShifted byte (k + 1) i = orShifted byte k i <<< 8 := by
  induction i with
  | zero => rfl
  | succ i ih =>
    have hshift : (k + 1 - (i + 1)) * 8 = (k - (i + 1)) * 8 + 8 := by omega
    rw [orShifted, orShifted, ih (by omega), Nat.shiftLeft_or_distrib, hshift, Nat.shiftLeft_add]

/-- Bytes that are shifted into place and joined by OR. -/
theorem orShifted_eq {byte : Nat → Nat} {bs : Str}
    (h : ∀ i (hi : i < bs.length), byte i = (bs[i]).toNat) :
    orShifted byte bs.length bs.length = beValue bs := by
  induction bs using List.reverseRecOn with
  | nil => rfl
  | append_singleton bs b ih =>
    have hlast := h bs.length (by simp)
    have hbs : ∀ i (hi : i < bs.length), byte i = (bs[i]).toNat := by
      intro i hi
      rw [h i (by simp; omega), List.getElem_append_left hi]
    rw [List.length_append, List.length_singleton, orShifted, orShifted_succ byte _ _ (Nat.le_refl _),
      ih hbs, hlast, beValue_append, Nat.sub_self, Nat.zero_mul, Nat.shiftLeft_zero]
    simp only [List.getElem_concat_length]
    rw [← Nat.shiftLeft_add_eq_or_of_lt (i := 8) b.toNat_lt, Nat.shiftLeft_eq]

end Tuxbox
