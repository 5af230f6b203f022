import Mathlib.Algebra.Order.Ring.Int
import Mathlib.Tactic.Linarith

/-!
# Intervals that come again

Half-open intervals of the integers, given by their begin and length.
-/

namespace Tuxbox

/-- The intervals of length `d₁` from `b₁` and of length `d₂` from `b₂` share a point. -/
def Meets (b₁ d₁ b₂ d₂ : Int) : Prop := ∃ t, b₁ ≤ t ∧ t < b₁ + d₁ ∧ b₂ ≤ t ∧ t < b₂ + d₂

section
variable {a b d e k p : Int}

/-- When two periods have a point in common. -/
theorem meets_iff (hd : 0 < d) (he : 0 < e) : Meets a d b e ↔ a < b + e ∧ b < a + d := by
  constructor
  · rintro ⟨t, h₁, h₂, h₃, h₄⟩
    omega
  · intro h
    exact ⟨max a b, by omega, by omega, by omega, by omega⟩

theorem Meets.comm : Meets a d b e ↔ Meets b e a d := by
  constructor
  · exact fun ⟨t, h₁, h₂, h₃, h₄⟩ => ⟨t, h₃, h₄, h₁, h₂⟩
  · exact fun ⟨t, h₁, h₂, h₃, h₄⟩ => ⟨t, h₃, h₄, h₁, h₂⟩

theorem Meets.shift (c : Int) : Meets (a + c) d (b + c) e ↔ Meets a d b e := by
  constructor
  · exact fun ⟨t, h₁, h₂, h₃, h₄⟩ => ⟨t - c, by omega, by omega, by omega, by omega⟩
  · exact fun ⟨t, h₁, h₂, h₃, h₄⟩ => ⟨t + c, by omega, by omega, by omega, by omega⟩

/-- What of the first interval is over the end of the period meets the second one in
the next. -/
def MeetsAround (p a d b e : Int) : Prop := a + d > p ∧ Meets 0 (a + d - p) b e

theorem meetsAround_iff (hap : a < p) (hb : 0 ≤ b) (hd : 0 < d) (he : 0 < e) :
    MeetsAround p a d b e ↔ Meets (a - p) d b e := by
  rw [meets_iff hd he]
  constructor
  · rintro ⟨hover, hmeets⟩
    rw [meets_iff (by omega) he] at hmeets
    omega
  · intro h
    have hover : a + d > p := by omega
    apply And.intro hover
    rw [meets_iff (by omega) he]
    omega

/-- No interval is longer than a period, so only the periods next to one another count. -/
theorem meets_again_iff (ha : 0 ≤ a) (hap : a < p) (hb : 0 ≤ b) (hbp : b < p) (hd : 0 < d)
    (hdp : d ≤ p) (he : 0 < e) (hep : e ≤ p) :
    (∃ k, Meets (a + k * p) d b e) ↔
      Meets a d b e ∨ MeetsAround p a d b e ∨ MeetsAround p b e a d := by
  rw [meetsAround_iff hap hb hd he, meetsAround_iff hbp ha he hd]
  constructor
  · rintro ⟨k, hk⟩
    have hk' := (meets_iff hd he).mp hk
    have hlow : -2 < k := by
      by_contra h
      have : k * p ≤ -2 * p := Int.mul_le_mul_of_nonneg_right (by omega) (by omega)
      omega
    have hhigh : k < 2 := by
      by_contra h
      have : 2 * p ≤ k * p := Int.mul_le_mul_of_nonneg_right (by omega) (by omega)
      omega
    obtain rfl | rfl | rfl : k = -1 ∨ k = 0 ∨ k = 1 := by omega
    · right
      left
      rwa [Int.neg_one_mul, ← Int.sub_eq_add_neg] at hk
    · left
      rwa [Int.zero_mul, Int.add_zero] at hk
    · right
      right
      rw [Int.one_mul] at hk
      rw [Meets.comm, ← Meets.shift p, Int.sub_add_cancel]
      exact hk
  · rintro (h | h | h)
    · exact ⟨0, by rwa [Int.zero_mul, Int.add_zero]⟩
    · exact ⟨-1, by rwa [Int.neg_one_mul, ← Int.sub_eq_add_neg]⟩
    · refine ⟨1, ?_⟩
      rw [Int.one_mul]
      rw [Meets.comm, ← Meets.shift p, Int.sub_add_cancel] at h
      exact h

end

end Tuxbox
