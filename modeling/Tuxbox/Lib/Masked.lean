import Mathlib.Data.Fintype.Basic
import Mathlib.Data.List.FinRange

/-!
# Masked comparison

A word `s` agrees with `v` under the mask `m` when it has the bits of `v`
wherever `m` has a one. A pattern is one masked comparison for each index.
-/

namespace Tuxbox

section
variable {w : Nat} {m m' v v' s : BitVec w}

/-- `s` has the bits of `v` wherever `m` has a one. -/
def Agrees (m v s : BitVec w) : Prop := (s ^^^ v) &&& m = 0#w

instance Agrees.decidable : Decidable (Agrees m v s) := inferInstanceAs (Decidable (_ = _))

theorem agrees_iff : Agrees m v s ↔ ∀ i < w, m.getLsbD i = true → s.getLsbD i = v.getLsbD i := by
  constructor
  · intro h i _ hm
    have hbit := congrArg (BitVec.getLsbD · i) h
    simpa [hm] using hbit
  · intro h
    apply BitVec.eq_of_getLsbD_eq
    intro i hi
    by_cases hm : m.getLsbD i = true
    · simp [h i hi hm]
    · simp [hm]

@[simp] theorem agrees_zero : Agrees 0#w v s := by simp [Agrees]

/-- A comparison of fewer bits, with the same value on them, accepts more. -/
theorem Agrees.weaken (h : Agrees m v s) (hm : m' &&& m = m') (hv : v' &&& m' = v &&& m') :
    Agrees m' v' s := by
  rw [agrees_iff] at h ⊢
  intro i hi hi'
  have hsub := congrArg (BitVec.getLsbD · i) hm
  have hval := congrArg (BitVec.getLsbD · i) hv
  simp only [BitVec.getLsbD_and, hi', Bool.true_and, Bool.and_true] at hsub hval
  rw [h i hi hsub, hval]

theorem agrees_and_value : Agrees m (v &&& m) s ↔ Agrees m v s := by
  constructor
  · intro h
    exact h.weaken (by simp) (by rw [BitVec.and_assoc, BitVec.and_self])
  · intro h
    exact h.weaken (by simp) (by rw [BitVec.and_assoc, BitVec.and_self])

/-- The bits under two masks are compared one mask after the other. -/
theorem agrees_or : Agrees (m ||| m') v s ↔ Agrees m v s ∧ Agrees m' v s := by
  simp only [agrees_iff, BitVec.getLsbD_or, Bool.or_eq_true]
  constructor
  · intro h
    exact ⟨fun i hi hm => h i hi (.inl hm), fun i hi hm => h i hi (.inr hm)⟩
  · rintro ⟨h, h'⟩ i hi (hm | hm)
    · exact h i hi hm
    · exact h' i hi hm

/-- Taking a masked bit out of a mask by subtraction. -/
theorem sub_eq_and_not (h : m &&& m' = m') : m - m' = m &&& ~~~m' := by
  have hdisj : (m &&& ~~~m') &&& m' = 0#w := by
    apply BitVec.eq_of_getLsbD_eq
    intro i hi
    simp only [BitVec.getLsbD_and, BitVec.getLsbD_not, hi, decide_true, Bool.true_and,
      BitVec.getLsbD_zero]
    cases m'.getLsbD i <;> simp
  have hsplit : (m &&& ~~~m') + m' = m := by
    rw [BitVec.add_eq_or_of_and_eq_zero _ _ hdisj]
    apply BitVec.eq_of_getLsbD_eq
    intro i hi
    have hbit := congrArg (BitVec.getLsbD · i) h
    simp only [BitVec.getLsbD_and] at hbit
    simp only [BitVec.getLsbD_or, BitVec.getLsbD_and, BitVec.getLsbD_not, hi, decide_true,
      Bool.true_and]
    cases hm' : m'.getLsbD i <;> simp_all
  conv_lhs => rw [← hsplit]
  exact BitVec.add_sub_cancel _ _

end

/-- One masked comparison for each index. -/
structure Pattern (ι : Type) (w : Nat) where
  mask : ι → BitVec w
  value : ι → BitVec w

namespace Pattern

variable {ι : Type} {w : Nat} {p q r : Pattern ι w} {s : ι → BitVec w}

def Matches (p : Pattern ι w) (s : ι → BitVec w) : Prop :=
  ∀ i, Agrees (p.mask i) (p.value i) (s i)

instance Matches.decidable [Fintype ι] : Decidable (p.Matches s) :=
  inferInstanceAs (Decidable (∀ _, _))

/-- `q` compares no bit that `p` does not compare, and to the same value. -/
def Covers (q p : Pattern ι w) : Prop :=
  ∀ i, q.mask i &&& p.mask i = q.mask i ∧ q.value i &&& q.mask i = p.value i &&& q.mask i

theorem Covers.matches (h : q.Covers p) (hp : p.Matches s) : q.Matches s :=
  fun i => (hp i).weaken (h i).1 (h i).2

theorem Covers.refl : p.Covers p := fun _ => ⟨by simp, rfl⟩

theorem Covers.trans (h : r.Covers q) (h' : q.Covers p) : r.Covers p := by
  intro i
  obtain ⟨hm, hv⟩ := h i
  obtain ⟨hm', hv'⟩ := h' i
  constructor
  · rw [← hm, BitVec.and_assoc, hm']
  · have hpq : q.value i &&& r.mask i = p.value i &&& r.mask i := by
      rw [← hm, BitVec.and_comm (r.mask i), ← BitVec.and_assoc, ← BitVec.and_assoc, hv']
    rw [hv, hpq]

end Pattern

end Tuxbox
