import Mathlib.Data.Nat.Bitwise

/-! Fields of a width that follow each other in a number, the first in its lowest bits.

* `mask_shiftRight`, `or_shiftLeft_xor`: fields under a mask. -/
namespace Tuxbox.Packed

/-- The number that the fields make. -/
def pack (w : Nat) : (fields : List Nat) → (rest : Nat) → Nat
  | [], rest => rest
  | c :: cs, rest => c + 2 ^ w * pack w cs rest

section
variable {w c : Nat} {cs : List Nat} {rest : Nat}

theorem pack_cons_mod (h : c < 2 ^ w) : pack w (c :: cs) rest % 2 ^ w = c := by
  rw [pack, Nat.add_mul_mod_self_left, Nat.mod_eq_of_lt h]

theorem pack_cons_div (h : c < 2 ^ w) : pack w (c :: cs) rest / 2 ^ w = pack w cs rest := by
  rw [pack, Nat.add_mul_div_left _ _ (Nat.two_pow_pos w), Nat.div_eq_of_lt h, Nat.zero_add]

end

section
variable (s b n : Nat)

/-- A word of the next bits, with more bits and with less. -/
theorem mod_or_shiftLeft : s % 2 ^ b ||| (s / 2 ^ b % 2 ^ n) <<< b = s % 2 ^ (b + n) := by
  have hlt : s % 2 ^ b < 2 ^ b := Nat.mod_lt _ (Nat.two_pow_pos b)
  calc s % 2 ^ b ||| (s / 2 ^ b % 2 ^ n) <<< b
      = (s / 2 ^ b % 2 ^ n) <<< b + s % 2 ^ b := by
        rw [Nat.or_comm, Nat.shiftLeft_add_eq_or_of_lt hlt]
    _ = s % 2 ^ b + 2 ^ b * (s / 2 ^ b % 2 ^ n) := by
        rw [Nat.shiftLeft_eq, Nat.mul_comm, Nat.add_comm]
    _ = s % 2 ^ (b + n) := by rw [Nat.pow_add, Nat.mod_mul]

theorem mod_shiftRight : (s % 2 ^ (b + n)) >>> b = s / 2 ^ b % 2 ^ n := by
  rw [Nat.shiftRight_eq_div_pow, Nat.pow_add, Nat.mod_mul_right_div_self]

theorem div_div_pow : s / 2 ^ b / 2 ^ n = s / 2 ^ (b + n) := by
  rw [Nat.div_div_eq_div_mul, Nat.pow_add]

theorem mod_mod_pow_of_le (h : b ≤ n) : s % 2 ^ n % 2 ^ b = s % 2 ^ b :=
  Nat.mod_mod_of_dvd s (Nat.pow_dvd_pow 2 h)

end

/-- A field that is not all the way down. -/
theorem mask_shiftRight (d n i k : Nat) :
    (d &&& (2 ^ n - 1) <<< (i + k)) >>> i = (d >>> (i + k) % 2 ^ n) <<< k := by
  apply Nat.eq_of_testBit_eq
  intro j
  rw [Nat.testBit_shiftRight, Nat.testBit_and, Nat.testBit_shiftLeft, Nat.testBit_two_pow_sub_one,
    Nat.testBit_shiftLeft, Nat.testBit_mod_two_pow, Nat.testBit_shiftRight]
  by_cases hj : k ≤ j
  · have hle : i + k ≤ i + j := by omega
    have hsub : i + j - (i + k) = j - k := by omega
    have hadd : i + k + (j - k) = i + j := by omega
    simp only [hj, hle, hsub, hadd, decide_true, Bool.true_and]
    rw [Bool.and_comm]
  · have hlt : ¬ i + k ≤ i + j := by omega
    simp [hj, hlt]

theorem or_shiftLeft_xor (n a m b : Nat) (h : n < 2 ^ b) :
    (n ||| a <<< b) ^^^ m <<< b = (a ^^^ m) <<< b + n := by
  rw [Nat.shiftLeft_add_eq_or_of_lt h]
  apply Nat.eq_of_testBit_eq
  intro j
  simp only [Nat.testBit_xor, Nat.testBit_or, Nat.testBit_shiftLeft]
  by_cases hj : b ≤ j
  · have hn : n.testBit j = false :=
      Nat.testBit_lt_two_pow (Nat.lt_of_lt_of_le h (Nat.pow_le_pow_right (by decide) hj))
    simp [hj, hn]
  · simp [hj]
end Tuxbox.Packed
