import Mathlib.Data.List.Basic

/-!
# First of each kind

`firsts key l` keeps of every run through `l` the first element of each key. A
collection that is filled element by element, and that refuses an element whose
key it already has, ends as this list.
-/

namespace Tuxbox

section
variable {α κ : Type} [DecidableEq κ] (key : α → κ)

def firsts : List α → List α
  | [] => []
  | x :: l => x :: (firsts l).filter (fun y => key y ≠ key x)

theorem mem_of_mem_firsts {l : List α} {x : α} (h : x ∈ firsts key l) : x ∈ l := by
  induction l with
  | nil => exact h
  | cons y l ih =>
    rcases List.mem_cons.mp h with rfl | h
    · exact List.mem_cons_self
    · exact List.mem_cons_of_mem y (ih (List.mem_filter.mp h).1)

theorem key_mem_firsts (l : List α) (k : κ) : k ∈ (firsts key l).map key ↔ k ∈ l.map key := by
  induction l with
  | nil => rfl
  | cons x l ih =>
    by_cases hk : k = key x
    · simp [firsts, hk]
    · have hf : k ∈ ((firsts key l).filter (fun y => key y ≠ key x)).map key ↔
          k ∈ (firsts key l).map key := by
        simp only [List.mem_map, List.mem_filter, decide_eq_true_eq]
        constructor
        · rintro ⟨y, ⟨hy, -⟩, rfl⟩
          exact ⟨y, hy, rfl⟩
        · rintro ⟨y, hy, rfl⟩
          exact ⟨y, ⟨hy, hk⟩, rfl⟩
      rw [firsts, List.map_cons, List.map_cons, List.mem_cons, List.mem_cons, hf, ih]

/-- One more element at the end. -/
theorem firsts_concat (l : List α) (x : α) :
    firsts key (l ++ [x]) =
      if key x ∈ l.map key then firsts key l else firsts key l ++ [x] := by
  induction l with
  | nil => simp [firsts]
  | cons y l ih =>
    by_cases hxy : key x = key y
    · have hf : (firsts key (l ++ [x])).filter (fun z => key z ≠ key y) =
          (firsts key l).filter (fun z => key z ≠ key y) := by
        rw [ih]
        split
        · rfl
        · simp [hxy]
      simp only [List.cons_append, firsts, hf]
      simp [hxy]
    · simp only [List.cons_append, firsts, ih, List.map_cons, List.mem_cons, hxy, false_or]
      split
      · rfl
      · simp [hxy]

/-- The keys are distinct. -/
theorem nodup_firsts (l : List α) : ((firsts key l).map key).Nodup := by
  induction l with
  | nil => exact List.nodup_nil
  | cons x l ih =>
    simp only [firsts, List.map_cons, List.nodup_cons]
    constructor
    · simp [List.mem_map]
    · exact ih.sublist ((List.filter_sublist).map key)

theorem firsts_eq_self {l : List α} (h : (l.map key).Nodup) : firsts key l = l := by
  induction l with
  | nil => rfl
  | cons x l ih =>
    rw [List.map_cons, List.nodup_cons] at h
    have hl : l.filter (fun y => key y ≠ key x) = l := by
      refine List.filter_eq_self.mpr fun y hy => ?_
      simp only [ne_eq, decide_eq_true_eq]
      exact fun he => h.1 (he ▸ List.mem_map_of_mem hy)
    rw [firsts, ih h.2, hl]

/-- Append what is not there yet. -/
def addNew (acc : List κ) (xs : List κ) : List κ :=
  xs.foldl (fun acc x => if x ∈ acc then acc else acc ++ [x]) acc

/-- Filling is `firsts`. -/
theorem foldl_addNew (ys xs : List κ) : addNew (firsts id ys) xs = firsts id (ys ++ xs) := by
  unfold addNew
  induction xs generalizing ys with
  | nil => simp
  | cons x xs ih =>
    have hx : (if x ∈ firsts id ys then firsts id ys else firsts id ys ++ [x]) =
        firsts id (ys ++ [x]) := by
      have hm := key_mem_firsts id ys x
      simp only [List.map_id] at hm
      simp only [firsts_concat, List.map_id, id_eq, hm]
    rw [List.foldl_cons, hx, ih]
    simp

theorem mem_addNew {acc xs : List κ} {x : κ} (h : x ∈ addNew acc xs) : x ∈ acc ∨ x ∈ xs := by
  unfold addNew at h
  induction xs generalizing acc with
  | nil => exact Or.inl h
  | cons y xs ih =>
    rcases ih h with h | h
    · by_cases hy : y ∈ acc
      · simp only [hy, if_true] at h
        exact Or.inl h
      · simp only [hy, if_false, List.mem_append, List.mem_singleton] at h
        rcases h with h | rfl
        · exact Or.inl h
        · exact Or.inr List.mem_cons_self
    · exact Or.inr (List.mem_cons_of_mem y h)

/-- The last element, found by its position. -/
theorem modify_concat (l : List α) (x : α) (f : α → α) :
    (l ++ [x]).modify l.length f = l ++ [f x] := by
  induction l with
  | nil => rfl
  | cons y l ih => simp [ih]

/-- Where keys are distinct, the first element with a key is the only one. -/
theorem modify_findIdx {l : List α} (h : (l.map key).Nodup) (k : κ) (f : α → α) :
    l.modify (l.findIdx fun x => key x = k) f = l.map fun x => if key x = k then f x else x := by
  induction l with
  | nil => rfl
  | cons x l ih =>
    rw [List.map_cons, List.nodup_cons] at h
    by_cases hx : key x = k
    · have hl : l.map (fun y => if key y = k then f y else y) = l := by
        rw [List.map_congr_left (g := id), List.map_id]
        intro y hy
        have hne : key y ≠ k := fun he => h.1 (by rw [hx, ← he]; exact List.mem_map_of_mem hy)
        simp [hne]
      simp [List.findIdx_cons, hx, hl]
    · simp [List.findIdx_cons, hx, ih h.2]

end

/-! ## Numbering -/

section
variable {κ : Type} [DecidableEq κ] {l : List κ} {x y : κ}

/-- The number of an element in order of appearance, from one. -/
def place (l : List κ) (x : κ) : Nat := if x ∈ l then (firsts id l).idxOf x + 1 else 0

theorem mem_firsts_id : x ∈ firsts id l ↔ x ∈ l := by
  simpa using key_mem_firsts id l x

theorem length_firsts_le (l : List κ) : (firsts id l).length ≤ l.length := by
  induction l with
  | nil => exact Nat.le_refl 0
  | cons x l ih =>
    rw [firsts, List.length_cons, List.length_cons]
    exact Nat.succ_le_succ (Nat.le_trans (List.length_filter_le _ _) ih)

theorem place_le (l : List κ) (x : κ) : place l x ≤ l.length := by
  unfold place
  split_ifs with hx
  · have hlt := List.idxOf_lt_length_of_mem (mem_firsts_id.mpr hx)
    have hle := length_firsts_le l
    omega
  · exact Nat.zero_le _

theorem place_eq_zero : place l x = 0 ↔ x ∉ l := by
  unfold place
  split_ifs with hx <;> simp [hx]

theorem place_concat :
    place (l ++ [x]) y = if y = x ∧ x ∉ l then (firsts id l).length + 1 else place l y := by
  have hfirsts := firsts_concat id l x
  rw [List.map_id, id_eq] at hfirsts
  unfold place
  rw [hfirsts]
  by_cases hx : x ∈ l
  · have hmem : y ∈ l ++ [x] ↔ y ∈ l := by
      rw [List.mem_append, List.mem_singleton]
      exact ⟨fun h => h.elim id fun hyx => hyx ▸ hx, .inl⟩
    simp [hx, hmem]
  · by_cases hyx : y = x
    · have hlast : (firsts id l ++ [x]).idxOf x = (firsts id l).length := by
        rw [List.idxOf_append_of_notMem fun h => hx (mem_firsts_id.mp h), List.idxOf_cons_self]
        rfl
      simp [hyx, hx, hlast]
    · by_cases hy : y ∈ l
      · simp [hx, hyx, hy, List.idxOf_append_of_mem (mem_firsts_id.mpr hy)]
      · simp [hx, hyx, hy]

end

end Tuxbox
