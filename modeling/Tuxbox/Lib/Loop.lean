import Mathlib.Data.List.Basic

/-!
# Loops that may not end

A turn of a loop goes on with another state or leaves with a result.
-/

namespace Tuxbox.Loop

section
variable {σ β : Type} {body : σ → σ ⊕ β}

/-- So many turns at most. -/
def turns (body : σ → σ ⊕ β) : (fuel : Nat) → σ → Option β
  | 0, _ => none
  | fuel + 1, s =>
    match body s with
    | .inl s => turns body fuel s
    | .inr b => some b

/-- With enough turns the loop ends with this result. -/
def Ends (body : σ → σ ⊕ β) (s : σ) (b : β) : Prop := ∃ n, ∀ fuel ≥ n, turns body fuel s = some b

variable {s t : σ} {b c : β}

theorem ends_inl (h : body s = .inl t) : Ends body s b ↔ Ends body t b := by
  have hturn : ∀ fuel, turns body (fuel + 1) s = turns body fuel t := fun fuel => by
    rw [turns, h]
  constructor
  · rintro ⟨n, hn⟩
    refine ⟨n, fun fuel hfuel => ?_⟩
    rw [← hturn]
    exact hn (fuel + 1) (by omega)
  · rintro ⟨n, hn⟩
    refine ⟨n + 1, fun fuel hfuel => ?_⟩
    obtain ⟨fuel, rfl⟩ : ∃ m, fuel = m + 1 := ⟨fuel - 1, by omega⟩
    rw [hturn]
    exact hn fuel (by omega)

theorem ends_inr (h : body s = .inr c) : Ends body s b ↔ c = b := by
  have hturn : ∀ fuel, turns body (fuel + 1) s = some c := fun fuel => by
    rw [turns, h]
  constructor
  · rintro ⟨n, hn⟩
    exact Option.some_inj.mp ((hturn n).symm.trans (hn (n + 1) (by omega)))
  · rintro rfl
    refine ⟨1, fun fuel hfuel => ?_⟩
    obtain ⟨fuel, rfl⟩ : ∃ m, fuel = m + 1 := ⟨fuel - 1, by omega⟩
    exact hturn fuel

/-- Only the turn matters. -/
theorem ends_congr (h : body s = body t) : Ends body s b ↔ Ends body t b := by
  cases hbody : body s with
  | inl s' => rw [ends_inl hbody, ends_inl (h.symm.trans hbody)]
  | inr c => rw [ends_inr hbody, ends_inr (h.symm.trans hbody)]

/-- A loop that never leaves does not end. -/
theorem not_ends {I : σ → Prop} (hturn : ∀ s, I s → ∃ t, I t ∧ body s = .inl t) (h : I s) :
    ¬ Ends body s b := by
  have hnone : ∀ fuel s, I s → turns body fuel s = none := by
    intro fuel
    induction fuel with
    | zero => exact fun _ _ => rfl
    | succ fuel ih =>
      intro s hs
      obtain ⟨t, ht, hbody⟩ := hturn s hs
      rw [turns, hbody]
      exact ih t ht
  rintro ⟨n, hn⟩
  exact nomatch (hnone n s h).symm.trans (hn n (Nat.le_refl n))

/-- The first of the places that is found gives the result, or the loop goes on behind them. -/
theorem ends_scan {α : Type} {found : α → Bool} {k : Nat} (value : α → β) (p : Nat → σ)
    (place : Nat → α) (h : ∀ i < k, body (p i) =
      if found (place i) then .inr (value (place i)) else .inl (p (i + 1)))
    (hs : p 0 = s) (ht : p k = t) :
    Ends body s b ↔
      (∃ x, ((List.range k).map place).find? found = some x ∧ value x = b) ∨
        (((List.range k).map place).find? found = none ∧ Ends body t b) := by
  induction k generalizing p place s with
  | zero =>
    rw [hs] at ht
    rw [ht]
    simp
  | succ k ih =>
    have hfirst := h 0 (Nat.zero_lt_succ k)
    rw [hs] at hfirst
    rw [List.range_succ_eq_map, List.map_cons, List.find?_cons, List.map_map]
    cases hfound : found (place 0) with
    | true =>
      rw [hfound, if_pos rfl] at hfirst
      rw [ends_inr hfirst]
      simp
    | false =>
      rw [hfound, if_neg (by decide)] at hfirst
      rw [ends_inl hfirst]
      exact ih (fun i => p (i + 1)) (fun i => place (i + 1)) (fun i hi => h (i + 1) (by omega)) rfl ht

end

end Tuxbox.Loop
