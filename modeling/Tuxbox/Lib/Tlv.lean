import Tuxbox.Lib.Walk

/-!
# Loops over descriptors

A descriptor is a tag, a length, and as many bytes. A loop over descriptors counts
the bytes that are left in an unsigned number.
-/

namespace Tuxbox.Buffer

open Parse (Starts)

section
variable {σ τ : Type}

def lengthAt (buf : Str) (i : Nat) : Nat := (buf.getD i 0).toNat

/-- One round, with `stop - pos` bytes left. -/
def checkedStep (take : Str → Nat → σ → Option σ) (buf : Str) (stop pos : Nat) (s : σ) :
    Option (Nat × σ) := do
  let s ← take (buf.drop pos) (stop - pos) s
  let length ← read buf (pos + 1)
  pure (if length.toNat + 2 > stop - pos then stop else pos + (length.toNat + 2), s)

/-- A step whose number may wrap, which has no result. -/
def uncheckedStep (take : Str → Nat → σ → Option σ) (buf : Str) (stop pos : Nat) (s : σ) :
    Option (Nat × σ) := do
  let s ← take (buf.drop pos) (stop - pos) s
  let length ← read buf (pos + 1)
  if length.toNat + 2 > stop - pos then none else pure (pos + (length.toNat + 2), s)

/-- The descriptor behind the one at `d`. -/
def nextEntry (buf : Str) (d : Nat) : Nat := d + (lengthAt buf (d + 1) + 2)

/-- The same, or the end of the loop. -/
def nextDescriptor (buf : Str) (stop d : Nat) : Nat :=
  if lengthAt buf (d + 1) + 2 > stop - d then stop else nextEntry buf d

variable {take : Str → Nat → σ → Option σ} {buf : Str} {stop d : Nat} {s : σ} {r : Nat × σ}

theorem lengthAt_lt (buf : Str) (i : Nat) : lengthAt buf i < 256 := UInt8.toNat_lt _

/-- A descriptor has one tag. -/
theorem other_tag {c tag tag' : Byte} {P : Prop} (h : c = tag) (hne : tag ≠ tag') (h' : c = tag') :
    P := absurd (h.symm.trans h') hne

/-! ## Loops that check -/

theorem checkedStep_eq (h : checkedStep take buf stop d s = some r) :
    r.1 = nextDescriptor buf stop d ∧ take (buf.drop d) (stop - d) s = some r.2 := by
  unfold checkedStep at h
  obtain ⟨s', hs', h⟩ := Option.bind_eq_some_iff.mp h
  obtain ⟨-, h⟩ := read_bind.mp h
  rw [← Option.some_inj.mp h]
  exact ⟨rfl, hs'⟩

theorem checkedStep_moves (take : Str → Nat → σ → Option σ) (buf : Str) (stop : Nat) :
    Moves (checkedStep take buf stop) (stop - 1) :=
  fun d s r hd h => by
    rw [(checkedStep_eq h).1]
    unfold nextDescriptor nextEntry
    split <;> omega

theorem checkedStep_isSome (hstop : stop ≤ buf.length) (hd : d < stop - 1) :
    (∃ r, checkedStep take buf stop d s = some r) ↔
      ∃ s', take (buf.drop d) (stop - d) s = some s' := by
  unfold checkedStep
  rw [exists_bind_iff (P := d + 1 < buf.length) fun s' => by
    rw [exists_read]
    exact and_iff_left ⟨_, rfl⟩]
  exact and_iff_left (by omega)

/-- When such a loop has a result. -/
theorem checked_ends_iff (view : σ → τ) (good : Nat → τ → Prop) (hstop : stop ≤ buf.length)
    (hview : ∀ d s s', take (buf.drop d) (stop - d) s = some s' → view s' = view s)
    (hgood : ∀ d s, d < stop - 1 →
      ((∃ s', take (buf.drop d) (stop - d) s = some s') ↔ good d (view s))) (start : Nat) (s : σ) :
    (∃ r, walk (checkedStep take buf stop) (stop - 1) start s = some r) ↔
      ∀ d, Starts (nextDescriptor buf stop) (stop - 1) start d → d < stop - 1 → good d (view s) :=
  walk_ends_iff_of_view view (nextDescriptor buf stop) good (checkedStep_moves take buf stop)
    (fun d s r _ h => ⟨(checkedStep_eq h).1, hview d s r.2 (checkedStep_eq h).2⟩)
    (fun d s hd => (checkedStep_isSome hstop hd).trans (hgood d s hd)) start s

/-! ## Loops that do not -/

theorem uncheckedStep_eq (h : uncheckedStep take buf stop d s = some r) :
    r.1 = nextEntry buf d ∧ take (buf.drop d) (stop - d) s = some r.2 := by
  unfold uncheckedStep at h
  obtain ⟨s', hs', h⟩ := Option.bind_eq_some_iff.mp h
  obtain ⟨-, h⟩ := read_bind.mp h
  split at h
  · cases h
  · rw [← Option.some_inj.mp h]
    exact ⟨rfl, hs'⟩

theorem uncheckedStep_moves (take : Str → Nat → σ → Option σ) (buf : Str) (stop last : Nat) :
    Moves (uncheckedStep take buf stop) last :=
  fun d s r _ h => by
    rw [(uncheckedStep_eq h).1]
    unfold nextEntry
    omega

/-- The length of the descriptor can be read, and as many bytes are left. -/
def EntryFits (buf : Str) (stop d : Nat) : Prop :=
  d + 1 < buf.length ∧ lengthAt buf (d + 1) + 2 ≤ stop - d

theorem uncheckedStep_isSome : (∃ r, uncheckedStep take buf stop d s = some r) ↔
    (∃ s', take (buf.drop d) (stop - d) s = some s') ∧ EntryFits buf stop d := by
  unfold uncheckedStep
  rw [exists_bind_iff (P := EntryFits buf stop d) fun s' => ?_]
  rw [exists_read, EntryFits]
  apply and_congr_right
  intro _
  split
  · rename_i hlong
    exact iff_of_false (fun ⟨_, h⟩ => nomatch h) (Nat.not_le.mpr hlong)
  · rename_i hfit
    exact iff_of_true ⟨_, rfl⟩ (Nat.not_lt.mp hfit)

/-- To the next descriptor, noting the one that was passed. -/
def Noting (buf : Str) (note : Nat → τ → τ) (a b : Nat × τ) : Prop :=
  b = (nextEntry buf a.1, note a.1 a.2)

theorem functional_noting (buf : Str) (note : Nat → τ → τ) : Functional (Noting buf note) :=
  fun _ _ _ hb hc => hb.trans hc.symm

theorem unchecked_leads (view : σ → τ) (note : Nat → τ → τ)
    (hnote : ∀ d s s', take (buf.drop d) (stop - d) s = some s' → view s' = note d (view s))
    {start : Nat} (h : walk (uncheckedStep take buf stop) (stop - 1) start s = some r) :
    Leads (Noting buf note) (stop - 1) (start, view s) (r.1, view r.2) ∧ stop - 1 ≤ r.1 :=
  walk_leads view (Noting buf note) (uncheckedStep_moves take buf stop (stop - 1))
    (fun d s r _ h => by
      rw [Noting, (uncheckedStep_eq h).1, hnote d s r.2 (uncheckedStep_eq h).2]) h

theorem unchecked_ends_iff (view : σ → τ) (note : Nat → τ → τ) (good : Nat × τ → Prop)
    (hnote : ∀ d s s', take (buf.drop d) (stop - d) s = some s' → view s' = note d (view s))
    (hgood : ∀ d s, d < stop - 1 → EntryFits buf stop d →
      ((∃ s', take (buf.drop d) (stop - d) s = some s') ↔ good (d, view s))) (start : Nat) (s : σ) :
    (∃ r, walk (uncheckedStep take buf stop) (stop - 1) start s = some r) ↔
      ∀ x, Leads (Noting buf note) (stop - 1) (start, view s) x → x.1 < stop - 1 →
        EntryFits buf stop x.1 ∧ good x :=
  walk_ends_iff_leads view (fun x => EntryFits buf stop x.1 ∧ good x)
    (uncheckedStep_moves take buf stop (stop - 1)) (functional_noting buf note)
    (fun d s r _ h => by
      rw [Noting, (uncheckedStep_eq h).1, hnote d s r.2 (uncheckedStep_eq h).2])
    (fun d s hd => by
      rw [uncheckedStep_isSome, and_comm]
      exact and_congr_right fun hfit => hgood d s hd hfit) start s

end

end Tuxbox.Buffer
