import Tuxbox.Lib.Tlv

/-!
# The places of a loop

Where a loop over entries goes can often be told from the bytes alone. What it notes on the way
says which entries it reads more of, and may end it.
-/

namespace Tuxbox.Buffer

/-! ## Where a loop goes -/

def placesFor (next : Nat → Nat) (stop : Nat) : (fuel pos : Nat) → List Nat
  | 0, _ => []
  | fuel + 1, pos => if pos < stop then pos :: placesFor next stop fuel (next pos) else []

/-- The places that a loop comes to if none of them ends it. -/
def places (next : Nat → Nat) (stop pos : Nat) : List Nat := placesFor next stop (stop - pos) pos

def placeBehindFor (next : Nat → Nat) (stop : Nat) : (fuel pos : Nat) → Nat
  | 0, pos => pos
  | fuel + 1, pos => if pos < stop then placeBehindFor next stop fuel (next pos) else pos

/-- Where it is then. -/
def placeBehind (next : Nat → Nat) (stop pos : Nat) : Nat :=
  placeBehindFor next stop (stop - pos) pos

section
variable {next : Nat → Nat} {stop : Nat}

theorem placesFor_enough (hnext : ∀ i, i < next i) {fuel fuel' pos : Nat} (h : stop - pos ≤ fuel)
    (h' : stop - pos ≤ fuel') : placesFor next stop fuel pos = placesFor next stop fuel' pos := by
  induction fuel generalizing fuel' pos with
  | zero =>
    cases fuel' with
    | zero => rfl
    | succ fuel' => rw [placesFor, placesFor, if_neg (by omega)]
  | succ fuel ih =>
    have hmoved := hnext pos
    cases fuel' with
    | zero => rw [placesFor, placesFor, if_neg (by omega)]
    | succ fuel' =>
      have hrest : placesFor next stop fuel (next pos) = placesFor next stop fuel' (next pos) :=
        ih (by omega) (by omega)
      rw [placesFor, placesFor, hrest]

theorem places_end {pos : Nat} (h : stop ≤ pos) : places next stop pos = [] := by
  rw [places, Nat.sub_eq_zero_of_le h, placesFor]

theorem places_step (hnext : ∀ i, i < next i) {pos : Nat} (h : pos < stop) :
    places next stop pos = pos :: places next stop (next pos) := by
  have hmoved := hnext pos
  obtain ⟨fuel, hfuel⟩ : ∃ fuel, stop - pos = fuel + 1 := ⟨stop - pos - 1, by omega⟩
  rw [places, hfuel, placesFor, if_pos h, places, placesFor_enough hnext (by omega) (Nat.le_refl _)]

theorem placeBehindFor_enough (hnext : ∀ i, i < next i) {fuel fuel' pos : Nat}
    (h : stop - pos ≤ fuel) (h' : stop - pos ≤ fuel') :
    placeBehindFor next stop fuel pos = placeBehindFor next stop fuel' pos := by
  induction fuel generalizing fuel' pos with
  | zero =>
    cases fuel' with
    | zero => rfl
    | succ fuel' => rw [placeBehindFor, placeBehindFor, if_neg (by omega)]
  | succ fuel ih =>
    have hmoved := hnext pos
    cases fuel' with
    | zero => rw [placeBehindFor, placeBehindFor, if_neg (by omega)]
    | succ fuel' =>
      have hrest : placeBehindFor next stop fuel (next pos) =
          placeBehindFor next stop fuel' (next pos) := ih (by omega) (by omega)
      rw [placeBehindFor, placeBehindFor, hrest]

theorem placeBehind_end {pos : Nat} (h : stop ≤ pos) : placeBehind next stop pos = pos := by
  rw [placeBehind, Nat.sub_eq_zero_of_le h, placeBehindFor]

theorem placeBehind_step (hnext : ∀ i, i < next i) {pos : Nat} (h : pos < stop) :
    placeBehind next stop pos = placeBehind next stop (next pos) := by
  have hmoved := hnext pos
  obtain ⟨fuel, hfuel⟩ : ∃ fuel, stop - pos = fuel + 1 := ⟨stop - pos - 1, by omega⟩
  rw [placeBehind, hfuel, placeBehindFor, if_pos h, placeBehind,
    placeBehindFor_enough hnext (by omega) (Nat.le_refl _)]

end

/-! ## What it notes -/

section
variable {τ : Type} (good : Nat → τ → Prop) (leaves : Nat → τ → Bool) (note : Nat → τ → τ)

/-- The entries are good, up to the one that ends the loop. -/
def Passes : List Nat → τ → Prop
  | [], _ => True
  | i :: is, t => good i t ∧ (leaves i t = false → Passes is (note i t))

/-- The notes at the end. -/
def noted : List Nat → τ → τ
  | [], t => t
  | i :: is, t => if leaves i t then note i t else noted is (note i t)

variable {σ : Type}

/-- What the rounds of a loop do: where they go, what they note, and when they have a result. -/
structure Follows (body : Nat → σ → Option (Nat × σ)) (stop : Nat) (view : σ → τ)
    (next : Nat → Nat) : Prop where
  moves : ∀ i, i < next i
  result : ∀ i s r, i < stop → body i s = some r →
    r.1 = (if leaves i (view s) then stop else next i) ∧ view r.2 = note i (view s)
  ends : ∀ i s, i < stop → ((∃ r, body i s = some r) ↔ good i (view s))

variable {good leaves note} {body : Nat → σ → Option (Nat × σ)} {stop : Nat} {view : σ → τ}
  {next : Nat → Nat}

namespace Follows

variable (h : Follows good leaves note body stop view next)
include h

theorem walk_moves : Moves body stop := by
  intro i s r hi hr
  have hmoved := h.moves i
  rw [(h.result i s r hi hr).1]
  split
  · exact hi
  · exact hmoved

/-- The loop ends with a result if and only if it passes. -/
theorem ends_iff (pos : Nat) (s : σ) : (∃ r, walk body stop pos s = some r) ↔
    Passes good leaves note (places next stop pos) (view s) := by
  induction hm : stop - pos using Nat.strong_induction_on generalizing pos s with
  | _ m ih =>
    rcases Nat.lt_or_ge pos stop with hlt | hge
    · have hmoved := h.moves pos
      rw [walk_step h.walk_moves s hlt, places_step h.moves hlt, Passes, ← h.ends pos s hlt]
      cases hbody : body pos s with
      | none => exact iff_of_false (fun ⟨_, h⟩ => nomatch h) fun h => nomatch h.1
      | some r =>
        obtain ⟨hplace, hview⟩ := h.result pos s r hlt hbody
        rw [Option.bind_some, and_iff_right ⟨r, rfl⟩, hplace, ← hview]
        cases hleaves : leaves pos (view s) with
        | true => exact iff_of_true ⟨_, walk_end r.2 (Nat.le_refl stop)⟩ fun h => nomatch h
        | false =>
          rw [if_neg Bool.false_ne_true, ih (stop - next pos) (by omega) (next pos) r.2 rfl]
          exact ⟨fun h _ => h, fun h => h rfl⟩
    · rw [walk_end s hge, places_end hge]
      exact iff_of_true ⟨_, rfl⟩ trivial

/-- What the notes are at the end. -/
theorem view_eq {pos : Nat} {s : σ} {r : Nat × σ} (hr : walk body stop pos s = some r) :
    view r.2 = noted leaves note (places next stop pos) (view s) := by
  induction hm : stop - pos using Nat.strong_induction_on generalizing pos s with
  | _ m ih =>
    rcases Nat.lt_or_ge pos stop with hlt | hge
    · have hmoved := h.moves pos
      rw [walk_step h.walk_moves s hlt] at hr
      obtain ⟨q, hq, hrest⟩ := Option.bind_eq_some_iff.mp hr
      obtain ⟨hplace, hview⟩ := h.result pos s q hlt hq
      rw [places_step h.moves hlt, noted, ← hview]
      rw [hplace] at hrest
      cases hleaves : leaves pos (view s) with
      | true =>
        rw [hleaves, if_pos rfl, walk_end q.2 (Nat.le_refl stop)] at hrest
        rw [if_pos rfl, ← Option.some_inj.mp hrest]
      | false =>
        rw [hleaves, if_neg Bool.false_ne_true] at hrest
        rw [if_neg Bool.false_ne_true]
        exact ih (stop - next pos) (by omega) hrest rfl
    · rw [walk_end s hge] at hr
      rw [places_end hge, ← Option.some_inj.mp hr]
      rfl

/-- Where a loop ends that no entry ends. -/
theorem place_eq (hnever : ∀ i t, leaves i t = false) {pos : Nat} {s : σ} {r : Nat × σ}
    (hr : walk body stop pos s = some r) : r.1 = placeBehind next stop pos := by
  induction hm : stop - pos using Nat.strong_induction_on generalizing pos s with
  | _ m ih =>
    rcases Nat.lt_or_ge pos stop with hlt | hge
    · have hmoved := h.moves pos
      rw [walk_step h.walk_moves s hlt] at hr
      obtain ⟨q, hq, hrest⟩ := Option.bind_eq_some_iff.mp hr
      have hplace := (h.result pos s q hlt hq).1
      rw [hnever, if_neg Bool.false_ne_true] at hplace
      rw [hplace] at hrest
      rw [placeBehind_step h.moves hlt]
      exact ih (stop - next pos) (by omega) hrest rfl
    · rw [walk_end s hge] at hr
      rw [placeBehind_end hge, ← Option.some_inj.mp hr]

end Follows

end

/-! ## Loops that note nothing -/

section
variable {σ : Type} {body : Nat → σ → Option (Nat × σ)} {stop : Nat} {next : Nat → Nat}

theorem passes_iff_forall {τ : Type} {good : Nat → Prop} {note : Nat → τ → τ} {is : List Nat}
    {t : τ} : Passes (fun i _ => good i) (fun _ _ => false) note is t ↔ ∀ i ∈ is, good i := by
  induction is generalizing t with
  | nil => exact iff_of_true trivial fun i hi => nomatch hi
  | cons i is ih => rw [Passes, ih, List.forall_mem_cons, forall_prop_of_true rfl]

/-- A walk whose rounds depend on the bytes alone. -/
theorem walk_ends_iff_forall {good : Nat → Prop} (hnext : ∀ i, i < next i)
    (hresult : ∀ i s r, i < stop → body i s = some r → r.1 = next i)
    (hgood : ∀ i s, i < stop → ((∃ r, body i s = some r) ↔ good i)) (pos : Nat) (s : σ) :
    (∃ r, walk body stop pos s = some r) ↔ ∀ i ∈ places next stop pos, good i := by
  have h : Follows (fun i _ => good i) (fun _ _ => false) (fun _ _ => ()) body stop
      (fun _ => ()) next :=
    ⟨hnext, fun i s r hi hr => ⟨hresult i s r hi hr, rfl⟩, hgood⟩
  rw [h.ends_iff, passes_iff_forall]

theorem foldlM_ends_iff {α : Type} {f : σ → α → Option σ} (good : α → Prop)
    (hgood : ∀ s x, (∃ s', f s x = some s') ↔ good x) (xs : List α) (s : σ) :
    (∃ s', xs.foldlM f s = some s') ↔ ∀ x ∈ xs, good x := by
  induction xs generalizing s with
  | nil => exact iff_of_true ⟨s, rfl⟩ fun x hx => nomatch hx
  | cons x xs ih =>
    rw [List.foldlM_cons, exists_bind_iff ih, hgood, List.forall_mem_cons]

/-- What every round keeps, the loop keeps. -/
theorem foldlM_keeps {α : Type} {f : σ → α → Option σ} {P : σ → Prop}
    (hkeep : ∀ s x s', f s x = some s' → P s → P s') {xs : List α} {s s' : σ}
    (h : xs.foldlM f s = some s') (hs : P s) : P s' := by
  induction xs generalizing s with
  | nil => exact Option.some_inj.mp h ▸ hs
  | cons x xs ih =>
    rw [List.foldlM_cons] at h
    obtain ⟨s₁, hs₁, h⟩ := Option.bind_eq_some_iff.mp h
    exact ih h (hkeep s x s₁ hs₁ hs)

end

/-! ## Descriptors -/

section
variable {σ τ : Type}

/-- One round. Nothing is compared with the length of the descriptor. -/
def entryStep (take : Str → σ → Option σ) (buf : Str) (pos : Nat) (s : σ) : Option (Nat × σ) := do
  let s ← take (buf.drop pos) s
  let length ← read buf (pos + 1)
  pure (pos + (length.toNat + 2), s)

variable {take : Str → σ → Option σ} {buf : Str} {d : Nat} {s : σ} {r : Nat × σ}

theorem lt_nextEntry (buf : Str) (i : Nat) : i < nextEntry buf i := by
  unfold nextEntry
  omega

theorem entryStep_eq (h : entryStep take buf d s = some r) :
    r.1 = nextEntry buf d ∧ take (buf.drop d) s = some r.2 := by
  unfold entryStep at h
  obtain ⟨s', hs', h⟩ := Option.bind_eq_some_iff.mp h
  obtain ⟨-, h⟩ := read_bind.mp h
  rw [← Option.some_inj.mp h]
  exact ⟨rfl, hs'⟩

theorem entryStep_isSome : (∃ r, entryStep take buf d s = some r) ↔
    d + 1 < buf.length ∧ ∃ s', take (buf.drop d) s = some s' := by
  unfold entryStep
  rw [exists_bind_iff (P := d + 1 < buf.length) fun s' => by
    rw [exists_read]
    exact and_iff_left ⟨_, rfl⟩, and_comm]

theorem entryStep_follows {good : Nat → τ → Prop} {note : Nat → τ → τ} {view : σ → τ}
    (hnote : ∀ d s s', take (buf.drop d) s = some s' → view s' = note d (view s))
    (hgood : ∀ d s, d + 1 < buf.length →
      ((∃ s', take (buf.drop d) s = some s') ↔ good d (view s))) (stop : Nat) :
    Follows (fun d t => d + 1 < buf.length ∧ good d t) (fun _ _ => false) note
      (entryStep take buf) stop view (nextEntry buf) where
  moves := lt_nextEntry buf
  result := fun d s r _ h =>
    ⟨(entryStep_eq h).1, hnote d s r.2 (entryStep_eq h).2⟩
  ends := fun d s _ => by
    rw [entryStep_isSome]
    exact and_congr_right fun hd => hgood d s hd

/-- A loop over descriptors whose reads depend on the bytes alone. -/
theorem entries_end_iff (good : Nat → Prop)
    (hgood : ∀ d s, d + 1 < buf.length → ((∃ s', take (buf.drop d) s = some s') ↔ good d))
    (stop pos : Nat) (s : σ) : (∃ r, walk (entryStep take buf) stop pos s = some r) ↔
      ∀ d ∈ places (nextEntry buf) stop pos, d + 1 < buf.length ∧ good d :=
  walk_ends_iff_forall (lt_nextEntry buf) (fun d s r _ h => (entryStep_eq h).1) (fun d s _ => by
    rw [entryStep_isSome]
    exact and_congr_right fun hd => hgood d s hd) pos s

end

end Tuxbox.Buffer
