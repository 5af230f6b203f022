import Mathlib.Order.Lattice
import Mathlib.Data.List.Pairwise

/-!
# Ordered sets of references

A `std::set` of pointers whose comparator looks at what they point to. The
order is that of the keys the objects have when an operation runs, and it holds
only as long as nobody changes a key behind the set's back: `Sorted` is a
statement about the set and the present keys, not a part of its type.

While a set is sorted its operations are those of a search tree.
-/

namespace Tuxbox.OrdSet

section
variable {α κ : Type} [LinearOrder κ]

/-- An element that the comparator finds in the set already is not put in again. -/
def insert (lt : α → α → Bool) (x : α) : List α → List α
  | [] => [x]
  | y :: ys =>
    if lt x y then x :: y :: ys
    else if lt y x then y :: insert lt x ys
    else y :: ys

def erase (lt : α → α → Bool) (x : α) : List α → List α
  | [] => []
  | y :: ys =>
    if lt x y then y :: ys
    else if lt y x then y :: erase lt x ys
    else ys

def contains (lt : α → α → Bool) (x : α) : List α → Bool
  | [] => false
  | y :: ys => if lt x y then false else if lt y x then contains lt x ys else true

def Sorted (key : α → κ) (s : List α) : Prop := s.Pairwise (fun a b => key a < key b)

/-- Keys may change if that keeps the order. -/
theorem Sorted.congr {key key' : α → κ} {s : List α} (h : Sorted key s)
    (hkeep : ∀ a ∈ s, ∀ b ∈ s, key a < key b → key' a < key' b) : Sorted key' s := by
  unfold Sorted at h ⊢
  exact h.imp_of_mem fun ha hb hlt => hkeep _ ha _ hb hlt

theorem Sorted.nodup {key : α → κ} {s : List α} (h : Sorted key s) : s.Nodup :=
  h.imp fun hlt heq => absurd (congrArg key heq) (ne_of_lt hlt)

/-- One element gets a new key that is above the same others as the old one. -/
theorem Sorted.update {key key' : α → κ} {s : List α} (h : Sorted key s) {o : α}
    (hsame : ∀ a, a ≠ o → key' a = key a) (hnew : ∀ a ∈ s, a ≠ o → key a ≠ key' o)
    (hkeep : o ∈ s → ∀ a ∈ s, a ≠ o → (key a < key' o ↔ key a < key o)) : Sorted key' s := by
  refine h.congr ?_
  intro a ha b hb hab
  by_cases hao : a = o <;> by_cases hbo : b = o
  · rw [hao, hbo] at hab
    exact absurd hab (lt_irrefl _)
  · subst hao
    rw [hsame b hbo]
    have hnot : ¬ key b < key' a := by
      rw [hkeep ha b hb hbo]
      exact lt_asymm hab
    exact lt_of_le_of_ne (not_lt.mp hnot) (hnew b hb hbo).symm
  · subst hbo
    rw [hsame a hao]
    exact (hkeep hb a ha hao).mpr hab
  · rw [hsame a hao, hsame b hbo]
    exact hab

variable {lt : α → α → Bool} {key : α → κ}

theorem mem_of_mem_insert {x y : α} {s : List α} (h : y ∈ insert lt x s) : y = x ∨ y ∈ s := by
  induction s with
  | nil => simpa [insert] using h
  | cons z zs ih =>
    simp only [insert] at h
    split_ifs at h
    · simpa using h
    · rcases List.mem_cons.mp h with rfl | h
      · exact .inr List.mem_cons_self
      · exact (ih h).imp_right (List.mem_cons_of_mem z)
    · exact .inr h

/-- An element whose key the set does not have is added. -/
theorem mem_insert (hlt : ∀ a b, lt a b = true ↔ key a < key b) {x : α} {s : List α}
    (hnew : ∀ y ∈ s, key y ≠ key x) (y : α) : y ∈ insert lt x s ↔ y = x ∨ y ∈ s := by
  refine ⟨mem_of_mem_insert, ?_⟩
  induction s with
  | nil => simp [insert]
  | cons z zs ih =>
    intro hy
    have hz := hnew z List.mem_cons_self
    have hrest := ih fun w hw => hnew w (List.mem_cons_of_mem z hw)
    simp only [insert, hlt]
    split_ifs with h1 h2
    · simpa using hy
    · rcases hy with rfl | hy
      · exact List.mem_cons_of_mem z (hrest (.inl rfl))
      · rcases List.mem_cons.mp hy with rfl | hy
        · exact List.mem_cons_self
        · exact List.mem_cons_of_mem z (hrest (.inr hy))
    · exact absurd (le_antisymm (not_lt.mp h1) (not_lt.mp h2)) hz

/-- A sorted set stays sorted. -/
theorem insert_sorted (hlt : ∀ a b, lt a b = true ↔ key a < key b) (x : α) {s : List α}
    (h : Sorted key s) : Sorted key (insert lt x s) := by
  induction s with
  | nil => exact List.pairwise_singleton _ x
  | cons z zs ih =>
    obtain ⟨hz, hzs⟩ := List.pairwise_cons.mp h
    simp only [insert, hlt]
    split_ifs with h1 h2
    · refine List.pairwise_cons.mpr ⟨?_, h⟩
      intro y hy
      rcases List.mem_cons.mp hy with rfl | hy
      · exact h1
      · exact lt_trans h1 (hz y hy)
    · refine List.pairwise_cons.mpr ⟨?_, ih hzs⟩
      intro y hy
      rcases mem_of_mem_insert hy with rfl | hy
      · exact h2
      · exact hz y hy
    · exact h

theorem erase_sublist (x : α) (s : List α) : (erase lt x s).Sublist s := by
  induction s with
  | nil => exact .slnil
  | cons z zs ih =>
    simp only [erase]
    split_ifs
    · exact .refl _
    · exact ih.cons_cons z
    · exact List.sublist_cons_self z zs

theorem erase_sorted (x : α) {s : List α} (h : Sorted key s) : Sorted key (erase lt x s) :=
  h.sublist (erase_sublist x s)

/-- An element is found where its key says, and taken out alone. -/
theorem mem_erase (hlt : ∀ a b, lt a b = true ↔ key a < key b) {x : α} {s : List α}
    (h : Sorted key s) (hx : x ∈ s) (y : α) : y ∈ erase lt x s ↔ y ∈ s ∧ y ≠ x := by
  induction s with
  | nil => cases hx
  | cons z zs ih =>
    obtain ⟨hz, hzs⟩ := List.pairwise_cons.mp h
    simp only [erase, hlt]
    rcases List.mem_cons.mp hx with rfl | hx
    · rw [if_neg (lt_irrefl _), if_neg (lt_irrefl _)]
      constructor
      · intro hy
        exact ⟨List.mem_cons_of_mem x hy, fun heq => absurd (hz y hy) (heq ▸ lt_irrefl _)⟩
      · rintro ⟨hy, hne⟩
        exact (List.mem_cons.mp hy).resolve_left hne
    · have hzx := hz x hx
      rw [if_neg (lt_asymm hzx), if_pos hzx, List.mem_cons, List.mem_cons, ih hzs hx]
      constructor
      · rintro (rfl | ⟨hy, hne⟩)
        · exact ⟨.inl rfl, fun heq => absurd hzx (heq ▸ lt_irrefl _)⟩
        · exact ⟨.inr hy, hne⟩
      · rintro ⟨hy | hy, hne⟩
        · exact .inl hy
        · exact .inr ⟨hy, hne⟩

theorem contains_of_mem (hlt : ∀ a b, lt a b = true ↔ key a < key b) {x : α} {s : List α}
    (h : Sorted key s) (hx : x ∈ s) : contains lt x s = true := by
  induction s with
  | nil => cases hx
  | cons z zs ih =>
    obtain ⟨hz, hzs⟩ := List.pairwise_cons.mp h
    simp only [contains, hlt]
    rcases List.mem_cons.mp hx with rfl | hx
    · rw [if_neg (lt_irrefl _), if_neg (lt_irrefl _)]
    · have hzx := hz x hx
      rw [if_neg (lt_asymm hzx), if_pos hzx]
      exact ih hzs hx

end

end Tuxbox.OrdSet
