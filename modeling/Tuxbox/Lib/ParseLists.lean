import Tuxbox.Lib.Parse

/-!
# The lists that constructors deliver
-/

namespace Tuxbox.Parse

section
variable {β γ : Type} {m : Memory} {body : Nat → Parse (β × Nat)} {stop : Nat}

/-- From `i` on the loop comes to these entries, and then to its end. -/
inductive Delivers (body : Nat → Parse (β × Nat)) (m : Memory) (stop : Nat) : Nat → List β → Prop
    where
  | nil {i : Nat} : stop ≤ i → Delivers body m stop i []
  | cons {i j k : Nat} {b : β} {bs : List β} : i < stop → body i m = (.ok (b, j), k) →
      Delivers body m stop j bs → Delivers body m stop i (b :: bs)

theorem loop_delivers {fuel i k : Nat} {bs : List β}
    (h : loop body stop fuel i m = (.ok bs, k)) : Delivers body m stop i bs := by
  induction fuel generalizing i k bs with
  | zero => cases h
  | succ fuel ih =>
    unfold loop at h
    split at h
    · rename_i hi
      rw [bind_apply] at h
      split at h
      · rename_i r k₁ hbody
        obtain ⟨b, j⟩ := r
        have hrest := (Prod.mk.inj h).1
        simp only [bind_apply] at hrest
        split at hrest
        · rename_i bs' k₂ hloop
          obtain rfl : b :: bs' = bs := Outcome.ok.inj hrest
          exact .cons hi hbody (ih hloop)
        · cases hrest
        · cases hrest
      · cases h
      · cases h
    · rename_i hi
      obtain rfl : [] = bs := Outcome.ok.inj (Prod.mk.inj h).1
      exact .nil (Nat.le_of_not_lt hi)

theorem Delivers.loop {i : Nat} {bs : List β} (h : Delivers body m stop i bs) :
    ∃ fuel k, loop body stop fuel i m = (.ok bs, k) := by
  induction h with
  | nil hi => exact ⟨1, 0, loop_stop 0 hi⟩
  | cons hi hbody _ ih =>
    obtain ⟨fuel, k, hloop⟩ := ih
    refine ⟨fuel + 1, _, Prod.ext ?_ rfl⟩
    simp only [Parse.loop, hi, if_true, bind_apply, hbody, hloop, pure_apply]

theorem loop_delivers_iff (i : Nat) (bs : List β) :
    (∃ fuel k, loop body stop fuel i m = (.ok bs, k)) ↔ Delivers body m stop i bs :=
  ⟨fun ⟨_, _, h⟩ => loop_delivers h, Delivers.loop⟩

/-! ## Entries that stand one behind the other -/

section
variable {enc : β → Str} {xs : List β}

/-- Something holds of every entry at its place. -/
def Along (good : Nat → β → Prop) (enc : β → Str) : Nat → List β → Prop
  | _, [] => True
  | i, x :: xs => good i x ∧ Along good enc (i + (enc x).length) xs

/-- A loop that goes from entry to entry delivers those that are taken as they are. -/
theorem delivers_along_iff (base : Nat) (good : Nat → β → Prop)
    (hbody : ∀ x ∈ xs, ∀ i, i < stop → Holds m (base + i) (enc x) →
      ∃ y k, body i m = (.ok (y, i + (enc x).length), k) ∧ (y = x ↔ good i x))
    (hpos : ∀ x ∈ xs, 0 < (enc x).length) {i : Nat} (hm : Holds m (base + i) (xs.flatMap enc))
    (hstop : i + (xs.flatMap enc).length = stop) :
    Delivers body m stop i xs ↔ Along good enc i xs := by
  induction xs generalizing i with
  | nil => exact iff_of_true (.nil (Nat.le_of_eq hstop.symm)) trivial
  | cons x xs ih =>
    rw [List.flatMap_cons, holds_append] at hm
    rw [List.flatMap_cons, List.length_append] at hstop
    have hx := hpos x List.mem_cons_self
    have hi : i < stop := by omega
    obtain ⟨y, k, hy, hgood⟩ := hbody x List.mem_cons_self i hi hm.1
    have ih := ih (fun z hz => hbody z (List.mem_cons_of_mem x hz))
      (fun z hz => hpos z (List.mem_cons_of_mem x hz)) (by rw [← Nat.add_assoc]; exact hm.2)
      (by omega)
    rw [Along, ← ih]
    constructor
    · intro h
      cases h with
      | cons _ hb hrest =>
        rw [hy] at hb
        obtain ⟨rfl, rfl⟩ := Prod.mk.inj (Outcome.ok.inj (Prod.mk.inj hb).1)
        exact ⟨hgood.mp rfl, hrest⟩
    · rintro ⟨h, hrest⟩
      rw [hgood.mpr h] at hy
      exact .cons hi hy hrest

end

/-- A loop of known length over steps that do not fail. -/
theorem each_ok {f : γ → Parse β} {v : γ → β} {reads : γ → Nat}
    (hf : ∀ x, f x m = (.ok (v x), reads x)) (xs : List γ) :
    ∃ k, each f xs m = (.ok (xs.map v), k) := by
  induction xs with
  | nil => exact ⟨0, rfl⟩
  | cons x xs ih =>
    obtain ⟨k, hk⟩ := ih
    refine ⟨_, Prod.ext ?_ rfl⟩
    simp only [each, bind_apply, hf, hk, pure_apply, List.map_cons]

/-! ## Fields of one size -/

variable {v : Nat → β} {enc : β → Str} {size base a : Nat} {bs : List β}

theorem length_fields (hsize : ∀ b ∈ bs, (enc b).length = size) :
    (bs.flatMap enc).length = size * bs.length := by
  induction bs with
  | nil => rfl
  | cons b bs ih =>
    rw [List.flatMap_cons, List.length_append, hsize b List.mem_cons_self,
      ih fun c hc => hsize c (List.mem_cons_of_mem b hc), List.length_cons, Nat.mul_succ,
      Nat.add_comm]

/-- The values of fields of one size, and their bytes. -/
theorem fields_of_holds (hv : ∀ b ∈ bs, ∀ x, Holds m (base + x) (enc b) → v x = b)
    (hsize : ∀ b ∈ bs, (enc b).length = size) (h : Holds m (base + a) (bs.flatMap enc)) :
    (List.range' a bs.length size).map v = bs := by
  induction bs generalizing a with
  | nil => rfl
  | cons b bs ih =>
    rw [List.flatMap_cons, holds_append, hsize b List.mem_cons_self, Nat.add_assoc] at h
    rw [List.length_cons, List.range'_succ, List.map_cons, hv b List.mem_cons_self a h.1,
      ih (fun c hc => hv c (List.mem_cons_of_mem b hc))
        (fun c hc => hsize c (List.mem_cons_of_mem b hc)) h.2]

theorem holds_of_fields (hv : ∀ b ∈ bs, ∀ x, v x = b → Holds m (base + x) (enc b))
    (hsize : ∀ b ∈ bs, (enc b).length = size)
    (h : (List.range' a bs.length size).map v = bs) : Holds m (base + a) (bs.flatMap enc) := by
  induction bs generalizing a with
  | nil => trivial
  | cons b bs ih =>
    rw [List.length_cons, List.range'_succ, List.map_cons, List.cons.injEq] at h
    rw [List.flatMap_cons, holds_append, hsize b List.mem_cons_self, Nat.add_assoc]
    exact ⟨hv b List.mem_cons_self a h.1, ih (fun c hc => hv c (List.mem_cons_of_mem b hc))
      (fun c hc => hsize c (List.mem_cons_of_mem b hc)) h.2⟩

end

end Tuxbox.Parse
