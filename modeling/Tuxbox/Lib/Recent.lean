import Mathlib.Data.List.Nodup

/-!
# Recently used

A list in which whatever is used again comes to the front, cut off behind `n` entries.
-/

namespace Tuxbox.Recent

variable {α : Type} [DecidableEq α]

def toFront (x : α) (xs : List α) : List α := x :: xs.erase x

/-- The last `n` different ones of `xs`, which has the newest first. -/
def recent (n : Nat) (xs : List α) : List α := xs.eraseDups.take n

theorem eraseDups_filter (p : α → Bool) (xs : List α) :
    (xs.filter p).eraseDups = xs.eraseDups.filter p := by
  induction h : xs.length using Nat.strongRecOn generalizing xs with
  | ind n ih =>
    cases xs with
    | nil => rfl
    | cons x xs =>
      have hrest := ih _ (by
        have := List.length_filter_le (fun y => !y == x) xs
        rw [← h, List.length_cons]
        omega) (xs.filter fun y => !y == x) rfl
      rw [List.eraseDups_cons]
      by_cases hx : p x
      · rw [List.filter_cons_of_pos hx, List.filter_cons_of_pos hx, List.eraseDups_cons, ← hrest,
          List.filter_filter, List.filter_filter]
        simp only [Bool.and_comm]
      · have hsame : (xs.filter fun y => !y == x).filter p = xs.filter p := by
          rw [List.filter_filter]
          apply List.filter_congr
          intro y _
          by_cases hy : y = x
          · simp [hy, hx]
          · simp [hy]
        rw [List.filter_cons_of_neg hx, List.filter_cons_of_neg hx, ← hrest, hsame]

theorem nodup_eraseDups (xs : List α) : xs.eraseDups.Nodup := by
  induction h : xs.length using Nat.strongRecOn generalizing xs with
  | ind n ih =>
    cases xs with
    | nil => exact List.nodup_nil
    | cons x xs =>
      rw [List.eraseDups_cons]
      refine List.nodup_cons.mpr ⟨?_, ?_⟩
      · rw [eraseDups_filter]
        simp
      · apply ih _ _ _ rfl
        have := List.length_filter_le (fun y => !y == x) xs
        rw [← h, List.length_cons]
        omega

/-- The different members of a list, the newest first, are kept up to date by moving one of them
to the front. -/
theorem eraseDups_cons (x : α) (xs : List α) :
    (x :: xs).eraseDups = toFront x xs.eraseDups := by
  rw [List.eraseDups_cons, eraseDups_filter, toFront, (nodup_eraseDups xs).erase_eq_filter]
  rfl

/-- Behind the cut nothing is missed. -/
theorem take_erase (x : α) (n : Nat) (xs : List α) :
    ((xs.take (n + 1)).erase x).take n = (xs.erase x).take n := by
  induction xs generalizing n with
  | nil => rfl
  | cons y ys ih =>
    rw [List.take_succ_cons]
    by_cases hy : y = x
    · subst hy
      rw [List.erase_cons_head, List.erase_cons_head, List.take_take, Nat.min_self]
    · rw [List.erase_cons_tail (by simpa using hy), List.erase_cons_tail (by simpa using hy)]
      cases n with
      | zero => rfl
      | succ n => rw [List.take_succ_cons, List.take_succ_cons, ih]

/-- The cut list is kept up to date by it too, and forgets what it no longer shows. -/
theorem recent_use (n : Nat) (x : α) (xs : List α) :
    recent n (x :: xs) = (toFront x (recent n xs)).take n := by
  unfold recent
  rw [eraseDups_cons]
  cases n with
  | zero => rfl
  | succ n =>
    unfold toFront
    rw [List.take_succ_cons, List.take_succ_cons, take_erase]

theorem recent_nodup (n : Nat) (xs : List α) : (recent n xs).Nodup :=
  (nodup_eraseDups xs).sublist (List.take_sublist n _)

theorem recent_length_le (n : Nat) (xs : List α) : (recent n xs).length ≤ n :=
  List.length_take_le _ _

end Tuxbox.Recent
