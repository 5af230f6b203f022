import Mathlib.Data.Fintype.Card
import Mathlib.Data.Set.Finite.Basic
import Mathlib.Logic.Relation

/-! Procedures that call procedures.

* `Returns calls n a`: `a` and all that it calls return, at most `n` deep;
* `exists_returns_iff_acc`, `exists_returns_iff`: when that depth is bounded, and that among
  finitely many procedures only a cycle prevents it. -/
namespace Tuxbox.Calls

open Relation

section
variable {α : Type} {calls : α → List α} {a b : α} {m n : Nat}

def Invokes (calls : α → List α) (a b : α) : Prop := b ∈ calls a

def Returns (calls : α → List α) : (depth : Nat) → α → Prop
  | 0, _ => False
  | depth + 1, a => ∀ b ∈ calls a, Returns calls depth b

theorem Returns.mono (h : Returns calls m a) (hle : m ≤ n) : Returns calls n a := by
  induction m generalizing a n with
  | zero => exact h.elim
  | succ m ih =>
    obtain ⟨k, rfl⟩ : ∃ k, n = k + 1 := ⟨n - 1, by omega⟩
    exact fun b hb => ih (h b hb) (by omega)

theorem acc_of_returns (h : Returns calls n a) : Acc (Function.swap (Invokes calls)) a := by
  induction n generalizing a with
  | zero => exact h.elim
  | succ n ih => exact Acc.intro a fun b hb => ih (h b hb)

/-- One depth for a list of procedures. -/
theorem exists_returns_list {l : List α} (h : ∀ b ∈ l, ∃ n, Returns calls n b) :
    ∃ n, ∀ b ∈ l, Returns calls n b := by
  induction l with
  | nil => exact ⟨0, fun b hb => absurd hb List.not_mem_nil⟩
  | cons c l ih =>
    obtain ⟨m, hm⟩ := h c List.mem_cons_self
    obtain ⟨n, hn⟩ := ih fun b hb => h b (List.mem_cons_of_mem c hb)
    refine ⟨max m n, fun b hb => ?_⟩
    rcases List.mem_cons.mp hb with rfl | hb
    · exact hm.mono (Nat.le_max_left m n)
    · exact (hn b hb).mono (Nat.le_max_right m n)

theorem exists_returns_of_all (h : ∀ b ∈ calls a, ∃ n, Returns calls n b) :
    ∃ n, Returns calls n a := by
  obtain ⟨n, hn⟩ := exists_returns_list h
  exact ⟨n + 1, hn⟩

theorem exists_returns_iff_acc :
    (∃ n, Returns calls n a) ↔ Acc (Function.swap (Invokes calls)) a := by
  constructor
  · rintro ⟨n, hn⟩
    exact acc_of_returns hn
  · intro h
    induction h with
    | intro a _ ih => exact exists_returns_of_all ih

/-- A procedure does not return if it is called by itself. -/
theorem not_acc_of_cycle (h : TransGen (Invokes calls) a a) :
    ¬ Acc (Function.swap (Invokes calls)) a := by
  intro hacc
  have hacc' : Acc (TransGen (Function.swap (Invokes calls))) a := hacc.transGen
  have hself : TransGen (Function.swap (Invokes calls)) a a := transGen_swap.mpr h
  exact hacc'.rec (motive := fun x _ => TransGen (Function.swap (Invokes calls)) x x → False)
    (fun x _ ih hx => ih x hx hx) hself

theorem acc_of_no_cycle (hfinite : {b | ReflTransGen (Invokes calls) a b}.Finite)
    (h : ∀ b, ReflTransGen (Invokes calls) a b → ¬ TransGen (Invokes calls) b b) :
    Acc (Function.swap (Invokes calls)) a := by
  have : Finite {b // ReflTransGen (Invokes calls) a b} := hfinite.to_subtype
  let below (x y : {b // ReflTransGen (Invokes calls) a b}) : Prop :=
    TransGen (Invokes calls) y.1 x.1
  have : IsTrans _ below := ⟨fun _ _ _ hxy hyz => hyz.trans hxy⟩
  have : Std.Irrefl below := ⟨fun x hx => h x.1 x.2 hx⟩
  have hacc : ∀ x : {b // ReflTransGen (Invokes calls) a b},
      Acc (Function.swap (Invokes calls)) x.1 := by
    intro x
    induction x using (Finite.wellFounded_of_trans_of_irrefl below).induction with
    | _ x ih =>
      apply Acc.intro
      intro y hy
      exact ih ⟨y, x.2.tail hy⟩ (TransGen.single hy)
  exact hacc ⟨a, ReflTransGen.refl⟩

/-- Finitely many procedures return if and only if none of them is called by itself. -/
theorem exists_returns_iff (hfinite : {b | ReflTransGen (Invokes calls) a b}.Finite) :
    (∃ n, Returns calls n a) ↔
      ∀ b, ReflTransGen (Invokes calls) a b → ¬ TransGen (Invokes calls) b b := by
  rw [exists_returns_iff_acc]
  constructor
  · intro hacc b hb hcycle
    have hb' : Acc (Function.swap (Invokes calls)) b := by
      clear hcycle
      induction hb with
      | refl => exact hacc
      | tail _ hcall ih => exact ih.inv hcall
    exact not_acc_of_cycle hcycle hb'
  · exact acc_of_no_cycle hfinite

end

end Tuxbox.Calls
