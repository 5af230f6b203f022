import Mathlib.Data.List.Basic
import Mathlib.Data.List.Range
import Mathlib.Logic.Function.Basic

/-!
# Pages of text

A page is a buffer of rows of one width.
-/

namespace Tuxbox.TextPage

section
variable {α : Type} [DecidableEq α]

/-- The cells that differ from the one before. -/
def starts : Option α → List α → List Bool
  | _, [] => []
  | prev, x :: xs => decide (prev ≠ some x) :: starts (some x) xs

/-- What is in these cells. -/
def heads : Option α → List α → List α
  | _, [] => []
  | prev, x :: xs => if prev = some x then heads (some x) xs else x :: heads (some x) xs

/-- The cells again, `c` up to the first marked one. -/
def expand (c : α) : List Bool → List α → List α
  | [], _ => []
  | false :: marks, xs => c :: expand c marks xs
  | true :: marks, xs => xs.headD c :: expand (xs.headD c) marks xs.tail

@[simp] theorem starts_length (prev : Option α) (xs : List α) :
    (starts prev xs).length = xs.length := by
  induction xs generalizing prev with
  | nil => rfl
  | cons x xs ih => simp [starts, ih]

omit [DecidableEq α] in
@[simp] theorem expand_length (c : α) (marks : List Bool) (xs : List α) :
    (expand c marks xs).length = marks.length := by
  induction marks generalizing c xs with
  | nil => rfl
  | cons mark marks ih => cases mark <;> simp [expand, ih]

/-- One cell is kept for each mark. -/
theorem count_starts (prev : Option α) (xs : List α) :
    (starts prev xs).count true = (heads prev xs).length := by
  induction xs generalizing prev with
  | nil => rfl
  | cons x xs ih =>
    by_cases h : prev = some x
    · simp [starts, heads, h, ih]
    · simp [starts, heads, h, ih]

theorem expand_starts {prev : Option α} {c : α} (xs : List α)
    (h : prev = none ∨ prev = some c) : expand c (starts prev xs) (heads prev xs) = xs := by
  induction xs generalizing prev c with
  | nil => rfl
  | cons x xs ih =>
    by_cases hx : prev = some x
    · have hc : c = x := by
        rcases h with h | h
        · simp [h] at hx
        · simpa [h] using hx
      simp only [starts, heads, hx, ne_eq, not_true_eq_false, decide_false, if_true, expand, hc]
      rw [ih (Or.inr rfl)]
    · simp only [starts, heads, hx, ne_eq, not_false_eq_true, decide_true, if_false, expand,
        List.headD_cons, List.tail_cons]
      rw [ih (Or.inr rfl)]

omit [DecidableEq α] in
/-- Without a mark every cell is the default. -/
theorem expand_unmarked (c : α) (n : Nat) (xs : List α) :
    expand c (List.replicate n false) xs = List.replicate n c := by
  induction n with
  | zero => rfl
  | succ n ih => simp [List.replicate_succ, expand, ih]

end

section
variable {α : Type} {f : Nat → List α} {w k n : Nat}

/-- The page of the first `k` rows. -/
def rows (k : Nat) (f : Nat → List α) : List α := (List.range k).flatMap f

/-- A copy over the cells from a position on. -/
def splice (xs : List α) (pos : Nat) (ys : List α) : List α :=
  xs.take pos ++ ys ++ xs.drop (pos + ys.length)

theorem splice_length {xs ys : List α} {pos : Nat} (h : pos + ys.length ≤ xs.length) :
    (splice xs pos ys).length = xs.length := by
  simp only [splice, List.length_append, List.length_take, List.length_drop]
  omega

theorem rows_length (hf : ∀ i, (f i).length = w) : (rows k f).length = k * w := by
  induction k with
  | zero => simp [rows]
  | succ k ih =>
    rw [rows] at ih ⊢
    rw [List.range_succ, List.flatMap_append, List.length_append, ih, Nat.succ_mul]
    simp [hf]

theorem rows_replicate (k w : Nat) (x : α) :
    rows k (fun _ => List.replicate w x) = List.replicate (k * w) x := by
  induction k with
  | zero => simp [rows]
  | succ k ih =>
    rw [rows] at ih ⊢
    rw [List.range_succ, List.flatMap_append, ih, Nat.succ_mul, List.replicate_add]
    simp

/-- The rows before row `n`, row `n` and the rows after it. -/
theorem rows_split (hn : n < k) :
    rows k f = rows n f ++ f n ++ rows (k - n - 1) (fun i => f (n + 1 + i)) := by
  have hk : k = n + 1 + (k - n - 1) := by omega
  conv_lhs => rw [hk, rows, List.range_add, List.range_succ]
  simp [rows, List.flatMap_append, List.flatMap_map]

theorem splice_rows (hf : ∀ i, (f i).length = w) {row : List α} (hrow : row.length = w)
    (hn : n < k) : splice (rows k f) (n * w) row = rows k (Function.update f n row) := by
  have hbefore : rows n (Function.update f n row) = rows n f := by
    refine List.flatMap_congr ?_
    intro i hi
    have hlt := List.mem_range.mp hi
    rw [Function.update_of_ne (by omega)]
  have hafter : (fun i => Function.update f n row (n + 1 + i)) = fun i => f (n + 1 + i) := by
    funext i
    rw [Function.update_of_ne (by omega)]
  have hlen : (rows n f).length = n * w := rows_length hf
  rw [rows_split (f := Function.update f n row) hn, hbefore, hafter, Function.update_self]
  rw [splice, rows_split hn]
  congr 1
  · rw [List.append_assoc, List.take_left' hlen]
  · rw [← hlen, hrow, ← hf n, ← List.length_append, List.drop_left]

end

end Tuxbox.TextPage
