import Mathlib.Data.List.Basic
import Mathlib.Data.List.Range
import Mathlib.Logic.Function.Basic

/-!
# Streams through ring memories

A stream of elements goes through `size` cells, element `x` into cell
`x % size`.
-/

namespace Tuxbox.Ring

section
variable {α : Type} {size x y d : Nat}

/-- Going on by less than a round wraps once at most. -/
theorem add_mod_cases (hx : x < size) (hd : d ≤ size) :
    (x + d) % size = if x + d < size then x + d else x + d - size := by
  split
  · exact Nat.mod_eq_of_lt (by assumption)
  · rename_i h
    rw [Nat.mod_eq_sub_mod (by omega)]
    exact Nat.mod_eq_of_lt (by omega)

/-- Elements less than a round apart are in different cells. -/
theorem mod_ne_of_lt (h : x < y) (h' : y < x + size) : x % size ≠ y % size := by
  intro heq
  have hzero : (y - x) % size = 0 := Nat.sub_mod_eq_zero_of_mod_eq heq.symm
  rw [Nat.mod_eq_of_lt (by omega)] at hzero
  omega

/-- A copy of `n` cells from a position of the memory. -/
def slice (mem : Nat → α) (pos n : Nat) : List α := (List.range n).map fun i => mem (pos + i)

/-- A copy into the memory. -/
def copy (mem : Nat → α) (pos : Nat) (xs : List α) : Nat → α :=
  fun i => if pos ≤ i then (xs[i - pos]?).getD (mem i) else mem i

/-- Elements written one after the other, around the ring. -/
def push (size : Nat) (mem : Nat → α) (pos : Nat) : List α → Nat → α
  | [] => mem
  | a :: as => push size (Function.update mem pos a) ((pos + 1) % size) as

/-- The `n` cells from a position on, around the ring. -/
def around (size : Nat) (mem : Nat → α) (pos n : Nat) : List α :=
  (List.range n).map fun i => mem ((pos + i) % size)

/-- The memory holds the last `size` elements of the stream. -/
def Window (size : Nat) (mem : Nat → α) (s : List α) : Prop :=
  ∀ x, x < s.length → s.length ≤ x + size → s[x]? = some (mem (x % size))

variable {mem : Nat → α} {s : List α} {pos n : Nat}

@[simp] theorem around_length : (around size mem pos n).length = n := by simp [around]

theorem around_add (n m : Nat) :
    around size mem pos (n + m) = around size mem pos n ++ around size mem ((pos + n) % size) m := by
  unfold around
  rw [List.range_add, List.map_append, List.map_map]
  congr 1
  apply List.map_congr_left
  intro i _
  rw [Function.comp_apply, Nat.mod_add_mod, Nat.add_assoc]

theorem around_take (n m : Nat) :
    (around size mem pos m).take n = around size mem pos (min n m) := by
  rw [around, around, ← List.map_take, List.take_range]

/-- A copy that does not reach the end of the memory. -/
theorem slice_eq_around (h : pos + n ≤ size) : slice mem pos n = around size mem pos n := by
  refine List.map_congr_left ?_
  intro i hi
  have hlt := List.mem_range.mp hi
  rw [Nat.mod_eq_of_lt (by omega)]

/-- A copy in two parts. -/
theorem slice_append_slice (hpos : pos < size) (h : size ≤ pos + n) (hn : n ≤ size) :
    slice mem pos (size - pos) ++ slice mem 0 (n - (size - pos)) = around size mem pos n := by
  have hsum : n = (size - pos) + (n - (size - pos)) := by omega
  have hsplit : around size mem pos n = around size mem pos (size - pos) ++
      (List.range (n - (size - pos))).map fun i => mem ((pos + (size - pos + i)) % size) := by
    conv_lhs => rw [hsum, around, List.range_add, List.map_append, List.map_map]
    rfl
  have hfirst : slice mem pos (size - pos) = around size mem pos (size - pos) :=
    slice_eq_around (by omega)
  rw [hsplit, hfirst]
  congr 1
  refine List.map_congr_left ?_
  intro i hi
  have hlt := List.mem_range.mp hi
  have hround : pos + (size - pos + i) = i + size := by omega
  rw [hround, Nat.add_mod_right, Nat.mod_eq_of_lt (by omega), Nat.zero_add]

/-- The cells of a part of the stream that is still there. -/
theorem Window.around (h : Window size mem s) (hn : x + n ≤ s.length)
    (hx : s.length ≤ x + size) : Ring.around size mem (x % size) n = (s.drop x).take n := by
  apply List.ext_getElem?
  intro i
  by_cases hi : i < n
  · have hcell : (x % size + i) % size = (x + i) % size := by rw [Nat.mod_add_mod]
    have hget := h (x + i) (by omega) (by omega)
    rw [List.getElem?_take_of_lt hi, List.getElem?_drop, hget]
    simp only [Ring.around, List.getElem?_map, List.getElem?_range hi, Option.map_some, hcell]
  · rw [List.getElem?_eq_none (by simp; omega), List.getElem?_eq_none (by simp; omega)]

theorem Window.push_one (h : Window size mem s) (a : α) :
    Window size (Function.update mem (s.length % size) a) (s ++ [a]) := by
  intro x hx hx'
  simp only [List.length_append, List.length_singleton] at hx hx'
  by_cases hlast : x = s.length
  · subst hlast
    simp
  · have hcell : x % size ≠ s.length % size := mod_ne_of_lt (by omega) (by omega)
    rw [List.getElem?_append_left (by omega), Function.update_of_ne hcell]
    exact h x (by omega) (by omega)

theorem Window.push (h : Window size mem s) (as : List α) :
    Window size (Ring.push size mem (s.length % size) as) (s ++ as) := by
  induction as generalizing mem s with
  | nil => simpa [Ring.push] using h
  | cons a as ih =>
    have hnext : (s.length % size + 1) % size = (s ++ [a]).length % size := by
      rw [Nat.mod_add_mod, List.length_append, List.length_singleton]
    rw [Ring.push, hnext]
    have happ : s ++ a :: as = (s ++ [a]) ++ as := by simp
    rw [happ]
    exact ih (h.push_one a)

end

end Tuxbox.Ring
