import Tuxbox.Lib.Parse
import Mathlib.Logic.Relation

/-!
# Loops over the entries of a buffer

A parser goes through a buffer entry by entry and carries a state along. A read
outside the buffer has no result, and neither has a text of a negative length.
-/

namespace Tuxbox.Buffer

open Parse (Starts)

/-- What a parser takes from the buffer. -/
def read (buf : Str) (i : Nat) : Option Byte := buf[i]?

/-- `std::string(buf + i, n)`. A length from `2 ^ 31` on is a negative one that wrapped. -/
def string (buf : Str) (i n : Nat) : Option Str :=
  if n = 0 then some []
  else if n < 2 ^ 31 ∧ i + n ≤ buf.length then some ((buf.drop i).take n)
  else none

/-- An unsigned difference, which wraps below zero. -/
def sub32 (a b : Nat) : Nat := (a + 2 ^ 32 - b) % 2 ^ 32

/-! ## What can be read -/

section
variable {buf : Str} {i n : Nat}

theorem exists_read {β : Type} {f : Byte → Option β} :
    (∃ b, (read buf i >>= f) = some b) ↔ i < buf.length ∧ ∃ b, f (buf.getD i 0) = some b := by
  unfold read
  by_cases hi : i < buf.length
  · simp [List.getD, hi]
  · simp [hi]

theorem read_some (h : i < buf.length) : read buf i = some (buf.getD i 0) := by
  unfold read
  rw [List.getD, List.getElem?_eq_getElem h, Option.getD_some]

theorem read_isSome : (∃ b, read buf i = some b) ↔ i < buf.length :=
  ⟨fun ⟨_, hb⟩ => (List.getElem?_eq_some_iff.mp hb).1, fun h => ⟨_, read_some h⟩⟩

theorem drop_eq_cons (h : i < buf.length) : buf.drop i = buf.getD i 0 :: buf.drop (i + 1) := by
  rw [List.drop_eq_getElem_cons h, List.getD, List.getElem?_eq_getElem h, Option.getD_some]

theorem getD_drop (buf : Str) (p i : Nat) : (buf.drop p).getD i 0 = buf.getD (p + i) 0 := by
  rw [List.getD, List.getD, List.getElem?_drop]

theorem exists_bind {α β : Type} {x : Option α} {f : α → Option β} :
    (∃ b, (x >>= f) = some b) ↔ ∃ a, x = some a ∧ ∃ b, f a = some b := by
  cases x with
  | none => simp
  | some a => simp

theorem bind_of_some {α β : Type} {x : Option α} {a : α} (h : x = some a) (f : α → Option β) :
    (x >>= f) = f a := by
  rw [h]
  rfl

/-- What follows a step does not depend on its result. -/
theorem exists_bind_iff {α β : Type} {x : Option α} {f : α → Option β} {P : Prop}
    (h : ∀ a, (∃ b, f a = some b) ↔ P) :
    (∃ b, (x >>= f) = some b) ↔ (∃ a, x = some a) ∧ P := by
  simp only [exists_bind, h, exists_and_right]

theorem exists_bind_pure {α β : Type} {x : Option α} {f : α → β} :
    (∃ b, (x >>= fun a => pure (f a)) = some b) ↔ ∃ a, x = some a := by
  cases x with
  | none => simp
  | some a => simp

theorem read_bind {β : Type} {f : Byte → Option β} {b : β} :
    (read buf i >>= f) = some b ↔ i < buf.length ∧ f (buf.getD i 0) = some b := by
  unfold read
  by_cases hi : i < buf.length
  · simp [List.getD, hi]
  · simp [hi]

theorem string_isSome :
    (∃ s, string buf i n = some s) ↔ n = 0 ∨ (n < 2 ^ 31 ∧ i + n ≤ buf.length) := by
  unfold string
  split
  · rename_i hzero
    exact iff_of_true ⟨_, rfl⟩ (.inl hzero)
  · rename_i hpos
    split
    · rename_i hfit
      exact iff_of_true ⟨_, rfl⟩ (.inr hfit)
    · rename_i hfit
      exact iff_of_false (fun ⟨_, h⟩ => nomatch h) fun h => h.elim hpos hfit

theorem sub32_of_le {a b : Nat} (h : b ≤ a) (ha : a < 2 ^ 32) : sub32 a b = a - b := by
  unfold sub32
  omega

/-- A difference that wraps is no length. -/
theorem sub32_of_lt {a b : Nat} (h : a < b) (hb : b ≤ a + 2 ^ 31) : 2 ^ 31 ≤ sub32 a b := by
  unfold sub32
  omega

theorem read_of_drop {c : Byte} {rest : Str} (h : buf.drop i = c :: rest) : read buf i = some c := by
  have hget : (buf.drop i)[0]? = some c := by rw [h]; rfl
  rwa [List.getElem?_drop, Nat.add_zero] at hget

theorem string_of_drop {s rest : Str} (h : buf.drop i = s ++ rest) (hs : s.length < 2 ^ 31) :
    string buf i s.length = some s := by
  have hlen := congrArg List.length h
  rw [List.length_drop, List.length_append] at hlen
  unfold string
  split
  · rename_i hzero
    rw [List.length_eq_zero_iff.mp hzero]
  · rw [if_pos ⟨hs, by omega⟩, h, List.take_left]

theorem drop_behind {s rest : Str} (h : buf.drop i = s ++ rest) : buf.drop (i + s.length) = rest := by
  rw [← List.drop_drop, h, List.drop_left]

end

/-! ## Walks -/

section
variable {σ : Type}

def walkFor (body : Nat → σ → Option (Nat × σ)) (stop : Nat) :
    (fuel pos : Nat) → σ → Option (Nat × σ)
  | 0, _, _ => none
  | fuel + 1, pos, s =>
    if pos < stop then do
      let (next, s') ← body pos s
      walkFor body stop fuel next s'
    else some (pos, s)

/-- `while (pos < stop) body`. The result is where it ends, and the state there. -/
def walk (body : Nat → σ → Option (Nat × σ)) (stop pos : Nat) (s : σ) : Option (Nat × σ) :=
  walkFor body stop (stop - pos + 1) pos s

/-- Every entry has a length. -/
def Moves (body : Nat → σ → Option (Nat × σ)) (stop : Nat) : Prop :=
  ∀ i s r, i < stop → body i s = some r → i < r.1

variable {body : Nat → σ → Option (Nat × σ)} {stop : Nat}

theorem walkFor_enough (hmove : Moves body stop) {fuel fuel' pos : Nat} (s : σ)
    (h : stop - pos < fuel) (h' : stop - pos < fuel') :
    walkFor body stop fuel pos s = walkFor body stop fuel' pos s := by
  induction fuel generalizing fuel' pos s with
  | zero => omega
  | succ fuel ih =>
    cases fuel' with
    | zero => omega
    | succ fuel' =>
      unfold walkFor
      split
      · rename_i hlt
        cases hbody : body pos s with
        | none => rfl
        | some r =>
          have hr := hmove pos s r hlt hbody
          exact ih r.2 (by omega) (by omega)
      · rfl

theorem walk_end {pos : Nat} (s : σ) (h : stop ≤ pos) : walk body stop pos s = some (pos, s) := by
  unfold walk walkFor
  rw [if_neg (Nat.not_lt.mpr h)]

theorem walk_step (hmove : Moves body stop) {pos : Nat} (s : σ) (h : pos < stop) :
    walk body stop pos s = (body pos s).bind fun r => walk body stop r.1 r.2 := by
  rw [walk, walkFor, if_pos h]
  cases hbody : body pos s with
  | none => rfl
  | some r =>
    have hr := hmove pos s r h hbody
    exact walkFor_enough hmove r.2 (by omega) (by omega)

/-- What every round keeps, a walk keeps. -/
theorem walk_keeps {P : σ → Prop} (hmove : Moves body stop)
    (hkeep : ∀ i s r, body i s = some r → P s → P r.2) {pos : Nat} {s : σ} {r : Nat × σ}
    (h : walk body stop pos s = some r) (hs : P s) : P r.2 := by
  induction hm : stop - pos using Nat.strong_induction_on generalizing pos s with
  | _ m ih =>
    rcases Nat.lt_or_ge pos stop with hlt | hge
    · rw [walk_step hmove s hlt] at h
      obtain ⟨q, hq, hrest⟩ := Option.bind_eq_some_iff.mp h
      have hmoved := hmove pos s q hlt hq
      exact ih (stop - q.1) (by omega) hrest (hkeep pos s q hq hs) rfl
    · rw [walk_end s hge] at h
      exact Option.some_inj.mp h ▸ hs

/-! ## Where a walk comes to -/

section
variable {τ : Type}

/-- A loop comes from one place to another, with what it has noted there. -/
def Leads (step : Nat × τ → Nat × τ → Prop) (stop : Nat) : Nat × τ → Nat × τ → Prop :=
  Relation.ReflTransGen fun a b => a.1 < stop ∧ step a b

/-- From an entry there is one way. -/
def Functional (step : Nat × τ → Nat × τ → Prop) : Prop := ∀ a b c, step a b → step a c → b = c

variable {step : Nat × τ → Nat × τ → Prop}

theorem leads_cases {a b : Nat × τ} (h : Leads step stop a b) :
    a = b ∨ a.1 < stop ∧ ∃ c, step a c ∧ Leads step stop c b := by
  rcases Relation.ReflTransGen.cases_head h with rfl | ⟨c, ⟨hlt, hc⟩, hrest⟩
  · exact .inl rfl
  · exact .inr ⟨hlt, c, hc, hrest⟩

theorem Leads.head {a b c : Nat × τ} (hlt : a.1 < stop) (hstep : step a b)
    (h : Leads step stop b c) : Leads step stop a c :=
  Relation.ReflTransGen.head ⟨hlt, hstep⟩ h

/-- What every permitted round keeps is so wherever the loop comes. -/
theorem leads_keeps {good P : Nat × τ → Prop}
    (hkeep : ∀ a b, a.1 < stop → step a b → good a → P a → P b) {a b : Nat × τ}
    (hgood : ∀ x, Leads step stop a x → x.1 < stop → good x) (h : Leads step stop a b)
    (ha : P a) : P b := by
  induction h with
  | refl => exact ha
  | tail hpre hstep ih =>
    exact hkeep _ _ hstep.1 hstep.2 (hgood _ hpre hstep.1) ih

/-- A walk ends behind the last entry it came to. -/
theorem walk_leads (view : σ → τ) (step : Nat × τ → Nat × τ → Prop) (hmove : Moves body stop)
    (hstep : ∀ i s r, i < stop → body i s = some r → step (i, view s) (r.1, view r.2))
    {pos : Nat} {s : σ} {r : Nat × σ} (h : walk body stop pos s = some r) :
    Leads step stop (pos, view s) (r.1, view r.2) ∧ stop ≤ r.1 := by
  induction hm : stop - pos using Nat.strong_induction_on generalizing pos s with
  | _ m ih =>
    rcases Nat.lt_or_ge pos stop with hlt | hge
    · rw [walk_step hmove s hlt] at h
      obtain ⟨q, hq, hrest⟩ := Option.bind_eq_some_iff.mp h
      have hmoved := hmove pos s q hlt hq
      obtain ⟨hleads, hend⟩ := ih (stop - q.1) (by omega) hrest rfl
      exact ⟨.head hlt (hstep pos s q hlt hq) hleads, hend⟩
    · rw [walk_end s hge] at h
      obtain rfl := Option.some_inj.mp h
      exact ⟨.refl, hge⟩

/-- A walk has a result if and only if every entry it comes to has one. -/
theorem walk_ends_iff_leads (view : σ → τ) (good : Nat × τ → Prop) (hmove : Moves body stop)
    (hfun : Functional step)
    (hstep : ∀ i s r, i < stop → body i s = some r → step (i, view s) (r.1, view r.2))
    (hgood : ∀ i s, i < stop → ((∃ r, body i s = some r) ↔ good (i, view s))) (pos : Nat) (s : σ) :
    (∃ r, walk body stop pos s = some r) ↔
      ∀ x, Leads step stop (pos, view s) x → x.1 < stop → good x := by
  induction hm : stop - pos using Nat.strong_induction_on generalizing pos s with
  | _ m ih =>
    rcases Nat.lt_or_ge pos stop with hlt | hge
    · rw [walk_step hmove s hlt]
      cases hbody : body pos s with
      | none =>
        have hbad : ¬ good (pos, view s) := fun hg => by
          obtain ⟨r, hr⟩ := (hgood pos s hlt).mpr hg
          rw [hbody] at hr
          cases hr
        exact iff_of_false (fun ⟨_, h⟩ => nomatch h) fun hall => hbad (hall _ .refl hlt)
      | some q =>
        have hmoved := hmove pos s q hlt hbody
        have hq := hstep pos s q hlt hbody
        rw [Option.bind_some, ih (stop - q.1) (by omega) q.1 q.2 rfl]
        constructor
        · intro hall x hx hxs
          rcases leads_cases hx with rfl | ⟨-, c, hc, hrest⟩
          · exact (hgood pos s hlt).mp ⟨q, hbody⟩
          · rw [hfun _ _ _ hc hq] at hrest
            exact hall x hrest hxs
        · exact fun hall x hx hxs => hall x (.head hlt hq hx) hxs
    · rw [walk_end s hge]
      refine iff_of_true ⟨_, rfl⟩ fun x hx hxs => ?_
      rcases leads_cases hx with rfl | ⟨hlt, -⟩
      · exact absurd hxs (Nat.not_lt.mpr hge)
      · exact absurd hlt (Nat.not_lt.mpr hge)

/-- A loop ends at one place. -/
theorem leads_end_unique (hfun : Functional step) {a b c : Nat × τ} (hb : Leads step stop a b)
    (hc : Leads step stop a c) (hbs : stop ≤ b.1) (hcs : stop ≤ c.1) : b = c := by
  induction hb using Relation.ReflTransGen.head_induction_on with
  | refl =>
    rcases leads_cases hc with rfl | ⟨hlt, -⟩
    · rfl
    · omega
  | head hstep _ ih =>
    rcases leads_cases hc with rfl | ⟨-, d, hd, hrest⟩
    · have := hstep.1
      omega
    · rw [hfun _ _ _ hd hstep.2] at hrest
      exact ih hrest

end

/-! ## Walks whose way does not depend on the state -/

section
variable {τ : Type} {next : Nat → Nat}

/-- To the next entry, with the same notes. -/
def Onward (next : Nat → Nat) (a b : Nat × τ) : Prop := b = (next a.1, a.2)

theorem functional_onward (next : Nat → Nat) : @Functional τ (Onward next) :=
  fun _ _ _ hb hc => hb.trans hc.symm

theorem leads_onward_iff {i : Nat} {t : τ} {x : Nat × τ} :
    Leads (Onward next) stop (i, t) x ↔ Starts next stop i x.1 ∧ x.2 = t := by
  constructor
  · intro h
    generalize ha : (i, t) = a at h
    induction h using Relation.ReflTransGen.head_induction_on generalizing i t with
    | refl =>
      subst ha
      exact ⟨.refl i, rfl⟩
    | head hstep _ ih =>
      subst ha
      obtain ⟨hlt, rfl⟩ := hstep
      obtain ⟨hstarts, hnote⟩ := ih rfl
      exact ⟨.head hlt hstarts, hnote⟩
  · obtain ⟨j, u⟩ := x
    rintro ⟨hstarts, rfl⟩
    change Starts next stop i j at hstarts
    induction hstarts with
    | refl => exact .refl
    | head hlt _ ih => exact .head hlt rfl ih

theorem walk_result (hmove : Moves body stop)
    (hnext : ∀ i s r, i < stop → body i s = some r → r.1 = next i) {pos : Nat} {s : σ}
    {r : Nat × σ} (h : walk body stop pos s = some r) : Starts next stop pos r.1 ∧ stop ≤ r.1 := by
  obtain ⟨hleads, hend⟩ := walk_leads (fun _ => ()) (Onward next) hmove
    (fun i s r hi hr => by rw [Onward, hnext i s r hi hr]) h
  exact ⟨(leads_onward_iff.mp hleads).1, hend⟩

/-- The same where what is noted stays as it is. -/
theorem walk_ends_iff_of_view (view : σ → τ) (next : Nat → Nat) (good : Nat → τ → Prop)
    (hmove : Moves body stop)
    (hnext : ∀ i s r, i < stop → body i s = some r → r.1 = next i ∧ view r.2 = view s)
    (hgood : ∀ i s, i < stop → ((∃ r, body i s = some r) ↔ good i (view s))) (pos : Nat) (s : σ) :
    (∃ r, walk body stop pos s = some r) ↔
      ∀ j, Starts next stop pos j → j < stop → good j (view s) := by
  rw [walk_ends_iff_leads view (fun x => good x.1 x.2) hmove (functional_onward next)
    (fun i s r hi hr => by rw [Onward, (hnext i s r hi hr).1, (hnext i s r hi hr).2]) hgood]
  constructor
  · exact fun h j hj hjs => h (j, view s) (leads_onward_iff.mpr ⟨hj, rfl⟩) hjs
  · intro h x hx hxs
    obtain ⟨hstarts, hnote⟩ := leads_onward_iff.mp hx
    rw [hnote]
    exact h x.1 hstarts hxs

/-- A walk ends with a result if and only if every entry it comes to has one. -/
theorem walk_ends_iff (next : Nat → Nat) (good : Nat → Prop) (hmove : Moves body stop)
    (hnext : ∀ i s r, i < stop → body i s = some r → r.1 = next i)
    (hgood : ∀ i s, i < stop → ((∃ r, body i s = some r) ↔ good i)) (pos : Nat) (s : σ) :
    (∃ r, walk body stop pos s = some r) ↔
      ∀ j, Starts next stop pos j → j < stop → good j :=
  walk_ends_iff_of_view (fun _ => ()) next (fun i _ => good i) hmove
    (fun i s r hi hr => ⟨hnext i s r hi hr, rfl⟩) hgood pos s

/-- A loop ends at one place. -/
theorem starts_end_unique {pos j k : Nat} (hj : Starts next stop pos j)
    (hk : Starts next stop pos k) (hjs : stop ≤ j) (hks : stop ≤ k) : j = k :=
  congrArg Prod.fst (leads_end_unique (functional_onward next)
    (leads_onward_iff.mpr ⟨hj, rfl⟩ : Leads (Onward next) stop (pos, ()) (j, ()))
    (leads_onward_iff.mpr ⟨hk, rfl⟩ : Leads (Onward next) stop (pos, ()) (k, ())) hjs hks)

end

/-- The places of a loop over entries of one length. -/
theorem starts_stride {c a j : Nat} :
    Starts (fun i => i + c) stop a j ↔ ∃ k, j = a + c * k ∧ ∀ i < k, a + c * i < stop := by
  constructor
  · intro h
    induction h with
    | refl => exact ⟨0, by omega, fun i hi => absurd hi (Nat.not_lt_zero i)⟩
    | head hlt _ ih =>
      obtain ⟨k, rfl, hk⟩ := ih
      refine ⟨k + 1, by rw [Nat.mul_succ]; omega, fun i hi => ?_⟩
      cases i with
      | zero => omega
      | succ i =>
        have := hk i (Nat.lt_of_succ_lt_succ hi)
        rw [Nat.mul_succ]
        omega
  · rintro ⟨k, rfl, hk⟩
    induction k generalizing a with
    | zero => exact .refl a
    | succ k ih =>
      refine .head (hk 0 (Nat.succ_pos k)) ?_
      have hrest := ih (a := a + c) fun i hi => by
        have := hk (i + 1) (Nat.succ_lt_succ hi)
        rw [Nat.mul_succ] at this
        omega
      rwa [show a + c * (k + 1) = a + c + c * k by rw [Nat.mul_succ]; omega]

/-- A walk over entries that are laid out one behind the other. It stops behind the
last, where less than an entry is left in front of `stop`. -/
theorem walk_segments {α : Type} {buf : Str} (enc : α → Str) (f : σ → α → σ) (slack : Nat)
    (hmove : Moves body stop) (xs : List α)
    (hbody : ∀ x ∈ xs, ∀ i s rest, buf.drop i = enc x ++ rest → i < stop →
      i + (enc x).length ≤ stop + slack → body i s = some (i + (enc x).length, f s x))
    (hsize : ∀ x ∈ xs, slack < (enc x).length) {pos : Nat} {s : σ} {rest : Str}
    (hbuf : buf.drop pos = xs.flatMap enc ++ rest)
    (hstop : stop ≤ pos + (xs.flatMap enc).length)
    (hlast : pos + (xs.flatMap enc).length ≤ stop + slack) :
    walk body stop pos s = some (pos + (xs.flatMap enc).length, xs.foldl f s) := by
  induction xs generalizing pos s with
  | nil => exact walk_end s hstop
  | cons x xs ih =>
    rw [List.flatMap_cons, List.append_assoc] at hbuf
    rw [List.flatMap_cons, List.length_append] at hstop hlast ⊢
    have hx := hsize x List.mem_cons_self
    have hlt : pos < stop := by omega
    have hrest : walk body stop (pos + (enc x).length) (f s x) = _ :=
      ih (fun y hy => hbody y (List.mem_cons_of_mem x hy))
        (fun y hy => hsize y (List.mem_cons_of_mem x hy)) (drop_behind hbuf) (by omega) (by omega)
    rw [walk_step hmove s hlt, hbody x List.mem_cons_self pos s _ hbuf hlt (by omega),
      Option.bind_some, hrest, Nat.add_assoc, List.foldl_cons]

/-- A walk passes the entries that change nothing. -/
theorem walk_skip {α : Type} {buf : Str} {enc : α → Str} (hmove : Moves body stop) {xs : List α}
    {s : σ} (hbody : ∀ x ∈ xs, ∀ i rest, buf.drop i = enc x ++ rest →
      body i s = some (i + (enc x).length, s))
    (hsize : ∀ x ∈ xs, 0 < (enc x).length) {pos : Nat} {rest : Str}
    (hbuf : buf.drop pos = xs.flatMap enc ++ rest)
    (hstop : pos + (xs.flatMap enc).length ≤ stop) :
    walk body stop pos s = walk body stop (pos + (xs.flatMap enc).length) s := by
  induction xs generalizing pos with
  | nil => rfl
  | cons x xs ih =>
    rw [List.flatMap_cons, List.append_assoc] at hbuf
    rw [List.flatMap_cons, List.length_append] at hstop ⊢
    have hx := hsize x List.mem_cons_self
    rw [walk_step hmove s (by omega), hbody x List.mem_cons_self pos _ hbuf, Option.bind_some,
      ih (fun y hy => hbody y (List.mem_cons_of_mem x hy))
        (fun y hy => hsize y (List.mem_cons_of_mem x hy)) (drop_behind hbuf) (by omega),
      Nat.add_assoc]

end

end Tuxbox.Buffer
