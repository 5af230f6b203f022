import Mathlib.Data.List.Basic

/-!
# A stream in pieces
-/

namespace Tuxbox

section
variable {α : Type}

/-- What is left of the pieces behind the first `n` elements; it begins with an element. -/
def after : Nat → List (List α) → List (List α)
  | _, [] => []
  | n, d :: ds => if n < d.length then d.drop n :: ds else after (n - d.length) ds

/-- The ends of the pieces, the first of which begins at `n`. -/
def cuts : Nat → List (List α) → List Nat
  | _, [] => []
  | n, d :: ds => (n + d.length) :: cuts (n + d.length) ds

/-- A piece ends at one of the places from `lo` to `hi - 1`. -/
def CutIn (lo hi n : Nat) (ds : List (List α)) : Prop := ∃ k ∈ cuts n ds, lo ≤ k ∧ k < hi

instance (lo hi n : Nat) (ds : List (List α)) : Decidable (CutIn lo hi n ds) :=
  inferInstanceAs (Decidable (∃ k ∈ cuts n ds, lo ≤ k ∧ k < hi))

theorem flatten_after (n : Nat) (ds : List (List α)) : (after n ds).flatten = ds.flatten.drop n := by
  induction ds generalizing n with
  | nil => simp [after]
  | cons d ds ih =>
    rw [after, List.flatten_cons]
    split
    · rename_i hn
      rw [List.flatten_cons, List.drop_append_of_le_length (Nat.le_of_lt hn)]
    · rename_i hn
      rw [ih, List.drop_append, List.drop_eq_nil_of_le (Nat.le_of_not_lt hn), List.nil_append]

theorem after_after (m n : Nat) (ds : List (List α)) : after m (after n ds) = after (n + m) ds := by
  induction ds generalizing n with
  | nil => rfl
  | cons d ds ih =>
    rw [after]
    split
    · rename_i hn
      rw [after, after, List.length_drop, List.drop_drop]
      split
      · rw [if_pos (by omega)]
      · have hrest : m - (d.length - n) = n + m - d.length := by omega
        rw [if_neg (by omega), hrest]
    · rename_i hn
      have hrest : n + m - d.length = n - d.length + m := by omega
      rw [ih, after, if_neg (by omega), hrest]

/-- The pieces that are left are as many, or shorter. -/
theorem mem_after {n : Nat} {ds : List (List α)} {d : List α} (hd : d ∈ after n ds) :
    ∃ e ∈ ds, d.length ≤ e.length := by
  induction ds generalizing n with
  | nil => cases hd
  | cons e ds ih =>
    rw [after] at hd
    split at hd
    · rcases List.mem_cons.mp hd with rfl | hd
      · exact ⟨e, List.mem_cons_self, by simp⟩
      · exact ⟨d, List.mem_cons_of_mem e hd, Nat.le_refl _⟩
    · obtain ⟨e', he', hle⟩ := ih hd
      exact ⟨e', List.mem_cons_of_mem e he', hle⟩

theorem after_head {n : Nat} {ds es : List (List α)} {d : List α} (h : after n ds = d :: es) :
    d ≠ [] := by
  induction ds generalizing n with
  | nil => cases h
  | cons e ds ih =>
    rw [after] at h
    split at h
    · obtain ⟨rfl, -⟩ := List.cons.inj h
      rename_i hn
      intro hnil
      have hlen := congrArg List.length hnil
      rw [List.length_drop, List.length_nil] at hlen
      omega
    · exact ih h

/-- Cuts are behind the place where the first piece begins. -/
theorem le_of_mem_cuts {n k : Nat} {ds : List (List α)} (hk : k ∈ cuts n ds) : n ≤ k := by
  induction ds generalizing n with
  | nil => cases hk
  | cons d ds ih =>
    rcases List.mem_cons.mp hk with rfl | hk
    · exact Nat.le_add_right n d.length
    · exact Nat.le_trans (Nat.le_add_right n d.length) (ih hk)

theorem cutIn_cons {lo hi n : Nat} {d : List α} {ds : List (List α)} :
    CutIn lo hi n (d :: ds) ↔
      (lo ≤ n + d.length ∧ n + d.length < hi) ∨ CutIn lo hi (n + d.length) ds := by
  unfold CutIn
  rw [cuts]
  simp

/-- There is none before the end of the first piece. -/
theorem not_cutIn {lo hi n : Nat} {ds : List (List α)} (hn : hi ≤ n) : ¬ CutIn lo hi n ds := by
  rintro ⟨k, hk, -, hlt⟩
  have := le_of_mem_cuts hk
  omega

end

end Tuxbox
