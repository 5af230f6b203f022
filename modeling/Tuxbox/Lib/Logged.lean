import Mathlib.Logic.Basic

/-!
# Programs that leave a log

A program changes a state and writes a log. It has no result when a loop runs out
of fuel.

* `Ends good p s a t`: `p` leads from `s` to `t` with the result `a`, and every
  entry of its log is good;
* `Terminates p s`: `p` ends from `s`; `Logs good p`: the log is good in any case;
* `Triple good P p Q`: from every state with `P` the program ends so that `Q` holds.
-/

namespace Tuxbox

def Prog (ε σ α : Type) := σ → Option (α × σ) × List ε

namespace Prog

section
variable {ε σ α β : Type}

instance : Monad (Prog ε σ) where
  pure a := fun s => (some (a, s), [])
  bind p f := fun s =>
    match p s with
    | (none, l) => (none, l)
    | (some (a, t), l) => ((f a t).1, l ++ (f a t).2)

def endless : Prog ε σ α := fun _ => (none, [])

def log (e : ε) : Prog ε σ Unit := fun s => (some ((), s), [e])

def get : Prog ε σ σ := fun s => (some (s, s), [])

def modify (f : σ → σ) : Prog ε σ Unit := fun s => (some ((), f s), [])

def Ends (good : ε → Prop) (p : Prog ε σ α) (s : σ) (a : α) (t : σ) : Prop :=
  (p s).1 = some (a, t) ∧ ∀ e ∈ (p s).2, good e

variable {good good' : ε → Prop} {s t : σ} {a : α} {b : β}

@[simp] theorem ends_pure {a' : α} : Ends good (pure a' : Prog ε σ α) s a t ↔ a = a' ∧ t = s := by
  constructor
  · rintro ⟨h, -⟩
    cases h
    exact ⟨rfl, rfl⟩
  · rintro ⟨rfl, rfl⟩
    exact ⟨rfl, fun e he => absurd he List.not_mem_nil⟩

@[simp] theorem ends_endless : ¬ Ends good (endless : Prog ε σ α) s a t := fun h => nomatch h.1

@[simp] theorem ends_log {e : ε} {u : Unit} :
    Ends good (log e : Prog ε σ Unit) s u t ↔ good e ∧ t = s := by
  constructor
  · rintro ⟨h, hgood⟩
    cases h
    exact ⟨hgood e List.mem_cons_self, rfl⟩
  · rintro ⟨he, rfl⟩
    exact ⟨rfl, fun e' he' => List.mem_singleton.mp he' ▸ he⟩

@[simp] theorem ends_get {r : σ} : Ends good (get : Prog ε σ σ) s r t ↔ r = s ∧ t = s := by
  constructor
  · rintro ⟨h, -⟩
    cases h
    exact ⟨rfl, rfl⟩
  · rintro ⟨rfl, rfl⟩
    exact ⟨rfl, fun e he => absurd he List.not_mem_nil⟩

@[simp] theorem ends_modify {f : σ → σ} {u : Unit} :
    Ends good (modify f : Prog ε σ Unit) s u t ↔ t = f s := by
  constructor
  · rintro ⟨h, -⟩
    cases h
    rfl
  · rintro rfl
    exact ⟨rfl, fun e he => absurd he List.not_mem_nil⟩

@[simp] theorem ends_bind {p : Prog ε σ α} {f : α → Prog ε σ β} {u : σ} :
    Ends good (p >>= f) s b u ↔ ∃ a t, Ends good p s a t ∧ Ends good (f a) t b u := by
  have hrun : (p >>= f) s = match p s with
    | (none, l) => (none, l)
    | (some (a, t), l) => ((f a t).1, l ++ (f a t).2) := rfl
  unfold Ends
  rw [hrun]
  rcases p s with ⟨_ | ⟨a, t⟩, l⟩
  · simp
  · constructor
    · rintro ⟨h, hgood⟩
      exact ⟨a, t, ⟨rfl, fun e he => hgood e (List.mem_append_left _ he)⟩, h,
        fun e he => hgood e (List.mem_append_right _ he)⟩
    · rintro ⟨a', t', ⟨heq, hl⟩, h, hf⟩
      cases heq
      refine ⟨h, fun e he => ?_⟩
      rcases List.mem_append.mp he with he | he
      · exact hl e he
      · exact hf e he

theorem Ends.mono (hgood : ∀ e, good e → good' e) {p : Prog ε σ α} (h : Ends good p s a t) :
    Ends good' p s a t := ⟨h.1, fun e he => hgood e (h.2 e he)⟩

/-- A program has one end. -/
theorem Ends.unique {p : Prog ε σ α} {a' : α} {t' : σ} (h : Ends good p s a t)
    (h' : Ends good' p s a' t') : a' = a ∧ t' = t := by
  have heq := h.1.symm.trans h'.1
  cases heq
  exact ⟨rfl, rfl⟩

/-- The program ends, whatever its log is. -/
def Terminates (p : Prog ε σ α) (s : σ) : Prop := ∃ a t, Ends (fun _ => True) p s a t

theorem terminates_pure : Terminates (pure a : Prog ε σ α) s := ⟨a, s, ends_pure.mpr ⟨rfl, rfl⟩⟩

theorem not_terminates_endless : ¬ Terminates (endless : Prog ε σ α) s :=
  fun ⟨_, _, h⟩ => ends_endless h

theorem terminates_bind {p : Prog ε σ α} {f : α → Prog ε σ β} :
    Terminates (p >>= f) s ↔
      ∃ a t, Ends (fun _ => True) p s a t ∧ Terminates (f a) t := by
  unfold Terminates
  simp only [ends_bind]
  constructor
  · rintro ⟨b, u, a, t, hp, hf⟩
    exact ⟨a, t, hp, b, u, hf⟩
  · rintro ⟨a, t, hp, b, u, hf⟩
    exact ⟨b, u, a, t, hp, hf⟩

/-! ## Logs -/

/-- All entries of the log are good, also of a program that does not end. -/
def Logs (good : ε → Prop) (p : Prog ε σ α) : Prop := ∀ s, ∀ e ∈ (p s).2, good e

theorem logs_pure (a : α) : Logs good (pure a : Prog ε σ α) :=
  fun _ _ he => absurd he List.not_mem_nil

theorem logs_endless : Logs good (endless : Prog ε σ α) :=
  fun _ _ he => absurd he List.not_mem_nil

theorem logs_get : Logs good (get : Prog ε σ σ) := fun _ _ he => absurd he List.not_mem_nil

theorem logs_modify (f : σ → σ) : Logs good (modify f : Prog ε σ Unit) :=
  fun _ _ he => absurd he List.not_mem_nil

theorem logs_log {e : ε} (h : good e) : Logs good (log e : Prog ε σ Unit) :=
  fun _ _ he => List.mem_singleton.mp he ▸ h

theorem Logs.bind {p : Prog ε σ α} {f : α → Prog ε σ β} (hp : Logs good p)
    (hf : ∀ a, Logs good (f a)) : Logs good (p >>= f) := by
  intro s e he
  have hrun : (p >>= f) s = match p s with
    | (none, l) => (none, l)
    | (some (a, t), l) => ((f a t).1, l ++ (f a t).2) := rfl
  have hl := hp s
  rw [hrun] at he
  revert hl he
  rcases p s with ⟨_ | ⟨a, t⟩, l⟩
  · exact fun he hl => hl e he
  · intro he hl
    rcases List.mem_append.mp he with he | he
    · exact hl e he
    · exact hf a t e he

/-! ## Total correctness -/

def Triple (good : ε → Prop) (P : σ → Prop) (p : Prog ε σ α) (Q : α → σ → Prop) : Prop :=
  ∀ s, P s → ∃ a t, Ends good p s a t ∧ Q a t

variable {P P' : σ → Prop} {Q Q' : α → σ → Prop} {R : β → σ → Prop}

theorem triple_pure (h : ∀ s, P s → Q a s) : Triple good P (pure a : Prog ε σ α) Q :=
  fun s hs => ⟨a, s, ends_pure.mpr ⟨rfl, rfl⟩, h s hs⟩

theorem triple_modify {f : σ → σ} {Q : Unit → σ → Prop} (h : ∀ s, P s → Q () (f s)) :
    Triple good P (modify f : Prog ε σ Unit) Q :=
  fun s hs => ⟨(), f s, ends_modify.mpr rfl, h s hs⟩

theorem Triple.bind {p : Prog ε σ α} {f : α → Prog ε σ β} (hp : Triple good P p Q)
    (hf : ∀ a, Triple good (Q a) (f a) R) : Triple good P (p >>= f) R := by
  intro s hs
  obtain ⟨a, t, hend, ht⟩ := hp s hs
  obtain ⟨b, u, hend', hu⟩ := hf a t ht
  exact ⟨b, u, ends_bind.mpr ⟨a, t, hend, hend'⟩, hu⟩

theorem Triple.ite {c : Prop} [Decidable c] {p q : Prog ε σ α} (hp : c → Triple good P p Q)
    (hq : ¬ c → Triple good P q Q) : Triple good P (if c then p else q) Q := by
  split
  case isTrue hc => exact hp hc
  case isFalse hc => exact hq hc

theorem Triple.weaken {p : Prog ε σ α} (h : Triple good P p Q) (hP : ∀ s, P' s → P s)
    (hQ : ∀ a s, Q a s → Q' a s) : Triple good P' p Q' := by
  intro s hs
  obtain ⟨a, t, hend, ht⟩ := h s (hP s hs)
  exact ⟨a, t, hend, hQ a t ht⟩

end

end Prog

end Tuxbox
