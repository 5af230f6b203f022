import Tuxbox.Lib.Bytes

/-!
# Constructors that read memory

A constructor gets a pointer into memory and no length. What it makes of the
memory is kept together with one more than the highest index it reads.
-/

namespace Tuxbox

abbrev Memory := Nat → Byte

/-- The `n` bytes from `i` on. -/
def Memory.slice (m : Memory) (i n : Nat) : Str := (List.range n).map fun k => m (i + k)

@[simp] theorem Memory.length_slice (m : Memory) (i n : Nat) : (m.slice i n).length = n := by
  simp [Memory.slice]

inductive Outcome (α : Type) where
  | ok (a : α)
  | invalid
  | endless
  deriving DecidableEq

/-- The steps constructors are made of. -/
def Parse (α : Type) := Memory → Outcome α × Nat

namespace Parse

section
variable {α β γ : Type}

instance : Monad Parse where
  pure a := fun _ => (.ok a, 0)
  bind p f := fun m =>
    match p m with
    | (.ok a, k) => ((f a m).1, max k (f a m).2)
    | (.invalid, k) => (.invalid, k)
    | (.endless, k) => (.endless, k)

def read (i : Nat) : Parse Byte := fun m => (.ok (m i), i + 1)

/-- Two bytes, the high one first. -/
def r16 (i : Nat) : Parse Nat := do
  let high ← read i
  let low ← read (i + 1)
  pure (high.toNat * 256 + low.toNat)

def r32 (i : Nat) : Parse Nat := do
  let high ← r16 i
  let low ← r16 (i + 2)
  pure (high * 65536 + low)

def bytes (i n : Nat) : Parse Str := fun m => (.ok (m.slice i n), if n = 0 then 0 else i + n)

def invalid : Parse α := fun _ => (.invalid, 0)

def require (c : Prop) [Decidable c] : Parse Unit := if c then pure () else invalid

/-- A loop of known length. -/
def each (f : γ → Parse β) : List γ → Parse (List β)
  | [] => pure []
  | x :: xs => do
    let b ← f x
    let bs ← each f xs
    pure (b :: bs)

/-- A loop over entries. The body gives the entry at an index and the next index. -/
def loop (body : Nat → Parse (β × Nat)) (stop : Nat) : (fuel i : Nat) → Parse (List β)
  | 0, _ => fun _ => (.endless, 0)
  | fuel + 1, i =>
    if i < stop then do
      let (b, j) ← body i
      let bs ← loop body stop fuel j
      pure (b :: bs)
    else pure []

/-- Subtracting from an unsigned counter. A counter that would wrap ends the run. -/
def subtract (a b : Nat) : Parse Nat := do
  require (b ≤ a)
  pure (a - b)

/-- Where a loop with counters stops. -/
structure Rest where
  pos : Nat
  left : Nat
  left2 : Nat

/-- A loop with counters: `left2` bytes are left of the entries and `left` bytes in
all. An entry is taken while more than `least` bytes and the whole entry are left. -/
def counted (least : Nat) (lengthAt : Nat → Parse Nat) (entry : Nat → Parse β) :
    (fuel pos left left2 : Nat) → Parse (List β × Rest)
  | 0, _, _, _ => fun _ => (.endless, 0)
  | fuel + 1, pos, left, left2 =>
    if left2 ≤ left ∧ least < left2 then do
      let loopLength ← lengthAt pos
      if loopLength ≤ left2 then do
        let e ← entry pos
        let left' ← subtract left loopLength
        let left2' ← subtract left2 loopLength
        let (es, rest) ← counted least lengthAt entry fuel (pos + loopLength) left' left2'
        pure (e :: es, rest)
      else pure ([], ⟨pos, left, left2⟩)
    else pure ([], ⟨pos, left, left2⟩)

/-! ## What a step reads -/

variable {m : Memory}

theorem pure_apply (a : α) : (pure a : Parse α) m = (.ok a, 0) := rfl

theorem bind_apply (p : Parse α) (f : α → Parse β) : (p >>= f) m =
    match p m with
    | (.ok a, k) => ((f a m).1, max k (f a m).2)
    | (.invalid, k) => (.invalid, k)
    | (.endless, k) => (.endless, k) := rfl

theorem require_ok {c : Prop} [Decidable c] (hc : c) : require c m = (.ok (), 0) := by
  simp [require, hc, pure_apply]

theorem read_apply (i : Nat) : read i m = (.ok (m i), i + 1) := rfl

theorem r16_apply (i : Nat) :
    r16 i m = (.ok ((m i).toNat * 256 + (m (i + 1)).toNat), i + 2) := by
  simp [r16, bind_apply, read_apply, pure_apply]

theorem r32_apply (i : Nat) :
    r32 i m = (.ok (((m i).toNat * 256 + (m (i + 1)).toNat) * 65536 +
      ((m (i + 2)).toNat * 256 + (m (i + 3)).toNat)), i + 4) := by
  simp [r32, bind_apply, r16_apply, pure_apply, Nat.add_assoc]

theorem bytes_apply (i n : Nat) :
    bytes i n m = (.ok (m.slice i n), if n = 0 then 0 else i + n) := rfl

theorem require_apply (c : Prop) [Decidable c] :
    require c m = (if c then .ok () else .invalid, 0) := by
  unfold require
  split <;> rfl

/-- The step succeeds, and reads below `k`. -/
def Succeeds (p : Parse α) (m : Memory) (k : Nat) : Prop := ∃ a, p m = (.ok a, k)

theorem succeeds_bind {p : Parse α} {f : α → Parse β} {a : α} {k n : Nat} (h : p m = (.ok a, k)) :
    Succeeds (p >>= f) m n ↔ ∃ k', Succeeds (f a) m k' ∧ n = max k k' := by
  simp only [Succeeds, bind_apply, h, Prod.mk.injEq]
  constructor
  · rintro ⟨b, ho, rfl⟩
    exact ⟨(f a m).2, ⟨b, Prod.ext ho rfl⟩, rfl⟩
  · rintro ⟨k', ⟨b, hb⟩, rfl⟩
    exact ⟨b, by rw [hb], by rw [hb]⟩

theorem succeeds_pure (a : α) (n : Nat) : Succeeds (pure a) m n ↔ n = 0 := by
  constructor
  · rintro ⟨b, hb⟩
    exact (Prod.mk.inj hb).2.symm
  · rintro rfl
    exact ⟨a, rfl⟩

theorem succeeds_read (i n : Nat) (f : Byte → Parse β) :
    Succeeds (read i >>= f) m n ↔ ∃ k', Succeeds (f (m i)) m k' ∧ n = max (i + 1) k' :=
  succeeds_bind rfl

theorem succeeds_r16 (i n : Nat) (f : Nat → Parse β) :
    Succeeds (r16 i >>= f) m n ↔
      ∃ k', Succeeds (f ((m i).toNat * 256 + (m (i + 1)).toNat)) m k' ∧ n = max (i + 2) k' :=
  succeeds_bind (r16_apply i)

theorem succeeds_bytes (i l n : Nat) (f : Str → Parse β) :
    Succeeds (bytes i l >>= f) m n ↔
      ∃ k', Succeeds (f (m.slice i l)) m k' ∧ n = max (if l = 0 then 0 else i + l) k' :=
  succeeds_bind rfl

/-- A loop with a stride of the size of its elements. -/
theorem each_stride {f : Nat → Parse β} {b : Nat → β} {base size : Nat}
    (hf : ∀ x, f x m = (.ok (b x), base + x + size)) (n a : Nat) :
    each f (List.range' a n size) m =
      (.ok ((List.range' a n size).map b), if n = 0 then 0 else base + a + n * size) := by
  induction n generalizing a with
  | zero => rfl
  | succ n ih =>
    simp only [List.range'_succ, each, bind_apply, hf, ih, pure_apply, List.map_cons,
      Nat.succ_ne_zero, if_false, Prod.mk.injEq, true_and]
    split
    · subst n
      omega
    · rw [Nat.succ_mul]
      omega

/-! ## Loops over entries -/

/-- The entries a loop comes to from `i`. -/
inductive Starts (next : Nat → Nat) (stop : Nat) : Nat → Nat → Prop where
  | refl (i : Nat) : Starts next stop i i
  | head {i j : Nat} : i < stop → Starts next stop (next i) j → Starts next stop i j

section
variable {body : Nat → Parse (β × Nat)} {stop : Nat} {bad : Nat → Prop} [DecidablePred bad]
variable {next size : Nat → Nat}

/-- The body succeeds unless its entry is bad, and reads below `size`. -/
def Body (body : Nat → Parse (β × Nat)) (m : Memory) (stop : Nat) (bad : Nat → Prop)
    [DecidablePred bad] (next size : Nat → Nat) : Prop :=
  ∀ i, i < stop →
    if bad i then body i m = (.invalid, size i) else ∃ b, body i m = (.ok (b, next i), size i)

theorem loop_stop (fuel : Nat) {i : Nat} (hi : stop ≤ i) :
    loop body stop (fuel + 1) i m = (.ok [], 0) := by
  simp [loop, Nat.not_lt.mpr hi, pure_apply]

theorem loop_bad (h : Body body m stop bad next size) (fuel : Nat) {i : Nat} (hi : i < stop)
    (hb : bad i) : loop body stop (fuel + 1) i m = (.invalid, size i) := by
  have hbody : body i m = (.invalid, size i) := by simpa [hb] using h i hi
  simp [loop, hi, bind_apply, hbody]

theorem loop_good (h : Body body m stop bad next size) (fuel : Nat) {i : Nat} (hi : i < stop)
    (hb : ¬ bad i) : ∃ b, loop body stop (fuel + 1) i m =
      match loop body stop fuel (next i) m with
      | (.ok bs, k) => (.ok (b :: bs), max (size i) k)
      | (.invalid, k) => (.invalid, max (size i) k)
      | (.endless, k) => (.endless, max (size i) k) := by
  obtain ⟨b, hbody⟩ : ∃ b, body i m = (.ok (b, next i), size i) := by simpa [hb] using h i hi
  refine ⟨b, ?_⟩
  simp only [loop, hi, if_true, bind_apply, hbody]
  cases loop body stop fuel (next i) m with
  | mk o k => cases o <;> simp [pure_apply]

theorem loop_ok (h : Body body m stop bad next size) {fuel i k : Nat} {bs : List β}
    (hl : loop body stop fuel i m = (.ok bs, k)) (n : Nat) :
    (k ≤ n ↔ ∀ j, Starts next stop i j → j < stop → size j ≤ n) ∧
      ∀ j, Starts next stop i j → j < stop → ¬ bad j := by
  induction fuel generalizing i k bs with
  | zero => simp [loop] at hl
  | succ fuel ih =>
    rcases Nat.lt_or_ge i stop with hi | hi
    · by_cases hb : bad i
      · simp [loop_bad h fuel hi hb] at hl
      · obtain ⟨b, hloop⟩ := loop_good h fuel hi hb
        rw [hloop] at hl
        split at hl <;> simp only [Prod.mk.injEq, reduceCtorEq, false_and] at hl
        rename_i bs' k' hl'
        obtain ⟨-, rfl⟩ := hl
        obtain ⟨hk, hg⟩ := ih hl'
        constructor
        · rw [Nat.max_le, hk]
          constructor
          · rintro ⟨hs, hr⟩ j hj hjs
            cases hj with
            | refl => exact hs
            | head _ hj => exact hr j hj hjs
          · intro hr
            exact ⟨hr i (.refl i) hi, fun j hj => hr j (.head hi hj)⟩
        · intro j hj hjs
          cases hj with
          | refl => exact hb
          | head _ hj => exact hg j hj hjs
    · simp only [loop_stop fuel hi, Prod.mk.injEq] at hl
      obtain ⟨-, rfl⟩ := hl
      constructor
      · simp only [Nat.zero_le, true_iff]
        intro j hj hjs
        cases hj with
        | refl => omega
        | head _ _ => omega
      · intro j hj hjs
        cases hj with
        | refl => omega
        | head _ _ => omega

theorem bad_of_loop (h : Body body m stop bad next size) {fuel i k : Nat}
    (hl : loop body stop fuel i m = (.invalid, k)) :
    ∃ j, Starts next stop i j ∧ j < stop ∧ bad j := by
  induction fuel generalizing i k with
  | zero => simp [loop] at hl
  | succ fuel ih =>
    rcases Nat.lt_or_ge i stop with hi | hi
    · by_cases hb : bad i
      · exact ⟨i, .refl i, hi, hb⟩
      · obtain ⟨b, hloop⟩ := loop_good h fuel hi hb
        rw [hloop] at hl
        split at hl <;> simp only [Prod.mk.injEq, reduceCtorEq, false_and] at hl
        rename_i hl'
        obtain ⟨j, hj, hjs, hjb⟩ := ih hl'
        exact ⟨j, .head hi hj, hjs, hjb⟩
    · simp [loop_stop fuel hi] at hl

theorem loop_of_bad (h : Body body m stop bad next size) {i j : Nat}
    (hj : Starts next stop i j) (hjs : j < stop) (hb : bad j) :
    ∃ fuel k, loop body stop fuel i m = (.invalid, k) := by
  induction hj with
  | refl i => exact ⟨1, size i, loop_bad h 0 hjs hb⟩
  | head hi _ ih =>
    rename_i i _ _
    by_cases hbi : bad i
    · exact ⟨1, size i, loop_bad h 0 hi hbi⟩
    · obtain ⟨fuel, k, hl⟩ := ih hjs hb
      obtain ⟨b, hloop⟩ := loop_good h fuel hi hbi
      refine ⟨fuel + 1, max (size i) k, ?_⟩
      rw [hloop, hl]

/-- A loop that moves on at every entry it comes to ends. -/
theorem loop_terminates (h : Body body m stop bad next size) {fuel i : Nat}
    (hf : stop - i < fuel)
    (hgood : ∀ j, Starts next stop i j → j < stop → ¬ bad j ∧ j < next j) :
    ∃ bs k, loop body stop fuel i m = (.ok bs, k) := by
  induction fuel generalizing i with
  | zero => omega
  | succ fuel ih =>
    rcases Nat.lt_or_ge i stop with hi | hi
    · obtain ⟨hb, hn⟩ := hgood i (.refl i) hi
      obtain ⟨bs, k, hl⟩ := ih (i := next i) (by omega) fun j hj => hgood j (.head hi hj)
      obtain ⟨b, hloop⟩ := loop_good h fuel hi hb
      refine ⟨b :: bs, max (size i) k, ?_⟩
      rw [hloop, hl]
    · exact ⟨[], 0, loop_stop fuel hi⟩

/-- An entry of no length is read for ever. -/
theorem loop_endless (h : Body body m stop bad next size) {i j : Nat}
    (hgood : ∀ j, Starts next stop i j → j < stop → ¬ bad j) (hj : Starts next stop i j)
    (hjs : j < stop) (hn : next j = j) (fuel : Nat) :
    (loop body stop fuel i m).1 = .endless := by
  induction fuel generalizing i with
  | zero => rfl
  | succ fuel ih =>
    have hi : i < stop := by
      cases hj with
      | refl => exact hjs
      | head hi _ => exact hi
    have hb := hgood i (.refl i) hi
    have hnext : Starts next stop (next i) j := by
      cases hj with
      | refl => rw [hn]; exact .refl j
      | head _ hj => exact hj
    have ih := ih (fun j hj => hgood j (.head hi hj)) hnext
    obtain ⟨b, hloop⟩ := loop_good h fuel hi hb
    rw [hloop]
    cases hl : loop body stop fuel (next i) m with
    | mk o k =>
      rw [hl] at ih
      obtain rfl : o = .endless := ih
      rfl

end

/-! ## Loops with counters -/

/-- The entries of a loop with counters that ends at `stop`. -/
inductive Chain (len : Nat → Nat) (stop : Nat) : Nat → Nat → Prop where
  | refl (p : Nat) : Chain len stop p p
  | step {p q : Nat} : p + len p ≤ stop → Chain len stop (p + len p) q → Chain len stop p q

section
variable {len : Nat → Nat} {stop : Nat}

theorem Chain.le {p q : Nat} (h : Chain len stop p q) : p ≤ q := by
  induction h with
  | refl => exact Nat.le_refl _
  | step _ _ ih => omega

/-- A chain has one last entry. -/
theorem Chain.last_unique {p q r : Nat} (hq : Chain len stop p q) (hr : Chain len stop p r)
    (hlq : stop < q + len q) (hlr : stop < r + len r) : q = r := by
  induction hq with
  | refl =>
    cases hr with
    | refl => rfl
    | step _ _ => omega
  | step _ _ ih =>
    cases hr with
    | refl => omega
    | step _ hr => exact ih hr hlq

theorem subtract_ok {a c : Nat} (h : c ≤ a) : subtract a c m = (.ok (a - c), 0) := by
  simp [subtract, bind_apply, require_ok h, pure_apply]

variable {least header slack : Nat} {lengthAt : Nat → Parse Nat} {entry : Nat → Parse β}
  {size : Nat → Nat}

/-- The loop ends, its counters do not wrap, and it stops behind the last entry of
the chain. -/
theorem counted_spec (hlen : ∀ p, lengthAt p m = (.ok (len p), p + header))
    (hentry : ∀ p, Succeeds (entry p) m (size p)) (hleast : ∀ p, least < len p)
    (hslack : header ≤ least + 1 + slack) {fuel pos left left2 : Nat} (hfuel : left2 < fuel)
    (hleft : left2 ≤ left) :
    ∃ es q k, counted least lengthAt entry fuel pos left left2 m =
        (.ok (es, ⟨q, left - (q - pos), left2 - (q - pos)⟩), k) ∧
      q ≤ pos + left2 ∧ Chain len (pos + left2) pos q ∧ pos + left2 < q + len q ∧
      ∀ n, pos + left2 + slack ≤ n → (k ≤ n ↔
        ∀ p, Chain len (pos + left2) pos p → p + len p ≤ pos + left2 → size p ≤ n) := by
  induction fuel generalizing pos left left2 with
  | zero => omega
  | succ fuel ih =>
    have hl := hleast pos
    have stops (hlast : left2 < len pos) (n : Nat) (p : Nat) (hp : Chain len (pos + left2) pos p)
        (hpl : p + len p ≤ pos + left2) : size p ≤ n := by
      cases hp with
      | refl => omega
      | step h _ => omega
    by_cases hguard : least < left2
    · by_cases hfit : len pos ≤ left2
      · obtain ⟨es, q, k, hc, hq, hchain, hlast, hk⟩ :=
          @ih (pos + len pos) (left - len pos) (left2 - len pos) (by omega)
            (by omega)
        have hstop : pos + len pos + (left2 - len pos) = pos + left2 := by omega
        rw [hstop] at hq hchain hlast hk
        have hle := hchain.le
        obtain ⟨e, he⟩ := hentry pos
        refine ⟨e :: es, q, max (pos + header) (max (size pos) k), ?_, hq,
          .step (by omega) hchain, hlast, ?_⟩
        · simp only [counted, hleft, hguard, and_self, if_true, bind_apply, hlen, hfit, he,
            subtract_ok (Nat.le_trans hfit hleft), subtract_ok hfit, hc, pure_apply, Prod.mk.injEq,
            Outcome.ok.injEq, Rest.mk.injEq, true_and]
          omega
        · intro n hn
          have hkn := hk n hn
          constructor
          · intro hmax p hp hpl
            cases hp with
            | refl => omega
            | step _ hp => exact hkn.mp (by omega) p hp hpl
          · intro hall
            have h1 := hall pos (.refl pos) (by omega)
            have h2 := hkn.mpr fun p hp hpl => hall p (.step (by omega) hp) hpl
            omega
      · refine ⟨[], pos, pos + header, ?_, by omega, .refl pos, by omega, fun n hn => ?_⟩
        · simp [counted, hleft, hguard, bind_apply, hlen, hfit, pure_apply]
        · exact iff_of_true (by omega) (stops (by omega) n)
    · refine ⟨[], pos, 0, ?_, by omega, .refl pos, by omega, fun n _ => ?_⟩
      · simp [counted, hleft, hguard, pure_apply]
      · exact iff_of_true (Nat.zero_le n) (stops (by omega) n)

theorem counted_zero (fuel : Nat) (pos left : Nat) :
    counted least lengthAt entry (fuel + 1) pos left 0 m = (.ok ([], ⟨pos, left, 0⟩), 0) := by
  simp [counted, pure_apply]

variable {α : Type}

/-- The bytes stand in memory from `p` on. -/
def Holds (m : Memory) : Nat → Str → Prop
  | _, [] => True
  | p, b :: bs => m p = b ∧ Holds m (p + 1) bs

theorem holds_append (p : Nat) (xs ys : Str) :
    Holds m p (xs ++ ys) ↔ Holds m p xs ∧ Holds m (p + xs.length) ys := by
  induction xs generalizing p with
  | nil => simp [Holds]
  | cons x xs ih =>
    simp only [List.cons_append, Holds, ih, List.length_cons, and_assoc, Nat.add_right_comm p 1,
      ← Nat.add_assoc]

/-- Memory that begins with the bytes. -/
theorem holds_getD (front bs : Str) : Holds (fun i => (front ++ bs).getD i 0) front.length bs := by
  induction bs generalizing front with
  | nil => trivial
  | cons b bs ih =>
    have ih := ih (front ++ [b])
    rw [List.append_assoc, List.length_append] at ih
    exact ⟨by simp, ih⟩

theorem Holds.slice {p : Nat} {bs : Str} (h : Holds m p bs) : m.slice p bs.length = bs := by
  induction bs generalizing p with
  | nil => rfl
  | cons b bs ih =>
    have ih := ih h.2
    rw [Memory.slice, List.length_cons, List.range_succ_eq_map, List.map_cons, List.map_map,
      Nat.add_zero, h.1]
    congr 1
    rw [Memory.slice] at ih
    refine Eq.trans ?_ ih
    apply List.map_congr_left
    intro k _
    simp [Nat.add_assoc, Nat.add_comm 1]

/-- Over entries that stand one behind the other, the loop delivers their values. -/
theorem counted_values {enc : α → Str} {val : α → β} {xs : List α}
    (hlen : ∀ x ∈ xs, ∀ p, Holds m p (enc x) → ∃ k, lengthAt p m = (.ok (enc x).length, k))
    (hentry : ∀ x ∈ xs, ∀ p, Holds m p (enc x) → ∃ k, entry p m = (.ok (val x), k))
    (hleast : ∀ x ∈ xs, least < (enc x).length) {fuel pos left : Nat}
    (hm : Holds m pos (xs.flatMap enc)) (hleft : (xs.flatMap enc).length ≤ left)
    (hfuel : (xs.flatMap enc).length < fuel) :
    ∃ k, counted least lengthAt entry fuel pos left (xs.flatMap enc).length m =
      (.ok (xs.map val, ⟨pos + (xs.flatMap enc).length, left - (xs.flatMap enc).length, 0⟩), k) := by
  induction xs generalizing fuel pos left with
  | nil =>
    obtain ⟨fuel, rfl⟩ := Nat.exists_eq_add_one_of_ne_zero (Nat.ne_of_gt hfuel)
    exact ⟨0, counted_zero fuel pos left⟩
  | cons x xs ih =>
    rw [List.flatMap_cons, holds_append] at hm
    simp only [List.flatMap_cons, List.length_append] at hleft hfuel ⊢
    have hx := hleast x List.mem_cons_self
    obtain ⟨fuel, rfl⟩ := Nat.exists_eq_add_one_of_ne_zero (Nat.ne_of_gt (Nat.zero_lt_of_lt hfuel))
    obtain ⟨k1, h1⟩ := hlen x List.mem_cons_self pos hm.1
    obtain ⟨k2, h2⟩ := hentry x List.mem_cons_self pos hm.1
    obtain ⟨k, hk⟩ := @ih (fun y hy => hlen y (List.mem_cons_of_mem x hy))
      (fun y hy => hentry y (List.mem_cons_of_mem x hy))
      (fun y hy => hleast y (List.mem_cons_of_mem x hy)) fuel _ (left - (enc x).length) hm.2
      (by omega) (by omega)
    have hguard : least < (enc x).length + (xs.flatMap enc).length := by omega
    refine ⟨max k1 (max k2 k), ?_⟩
    have hsub : (enc x).length + (xs.flatMap enc).length - (enc x).length =
        (xs.flatMap enc).length := by omega
    simp only [counted, hleft, hguard, and_self, if_true, bind_apply, h1, h2,
      subtract_ok (show (enc x).length ≤ left by omega),
      subtract_ok (show (enc x).length ≤ (enc x).length + (xs.flatMap enc).length by omega),
      Nat.le_add_right, hsub, hk, pure_apply, List.map_cons, Nat.max_zero, Nat.zero_max]
    rw [Nat.add_assoc, Nat.sub_sub]

theorem loop_values {body : Nat → Parse (β × Nat)} {enc : α → Str} {val : α → β} {base : Nat}
    {xs : List α} (hbody : ∀ x ∈ xs, ∀ i, Holds m (base + i) (enc x) →
      ∃ k, body i m = (.ok (val x, i + (enc x).length), k))
    (hpos : ∀ x ∈ xs, 0 < (enc x).length) {fuel i : Nat}
    (hm : Holds m (base + i) (xs.flatMap enc)) (hfuel : (xs.flatMap enc).length < fuel) :
    ∃ k, loop body ((xs.flatMap enc).length + i) fuel i m = (.ok (xs.map val), k) := by
  induction xs generalizing fuel i with
  | nil =>
    obtain ⟨fuel, rfl⟩ := Nat.exists_eq_add_one_of_ne_zero (Nat.ne_of_gt hfuel)
    exact ⟨0, loop_stop fuel (by simp)⟩
  | cons x xs ih =>
    rw [List.flatMap_cons, holds_append] at hm
    simp only [List.flatMap_cons, List.length_append] at hfuel ⊢
    have hx := hpos x List.mem_cons_self
    obtain ⟨fuel, rfl⟩ := Nat.exists_eq_add_one_of_ne_zero (Nat.ne_of_gt (Nat.zero_lt_of_lt hfuel))
    obtain ⟨k1, h1⟩ := hbody x List.mem_cons_self i hm.1
    obtain ⟨k, hk⟩ := ih (fun y hy => hbody y (List.mem_cons_of_mem x hy))
      (fun y hy => hpos y (List.mem_cons_of_mem x hy)) (i := i + (enc x).length)
      (by rw [← Nat.add_assoc]; exact hm.2) (by omega : _ < fuel)
    have hstop : (xs.flatMap enc).length + (i + (enc x).length) =
        (enc x).length + (xs.flatMap enc).length + i := by omega
    have hi : i < (enc x).length + (xs.flatMap enc).length + i := by omega
    rw [hstop] at hk
    refine ⟨max k1 k, ?_⟩
    simp only [loop, hi, if_true, bind_apply, h1, hk, pure_apply, List.map_cons, Nat.max_zero]

/-- A loop whose entries do not fit in what is left takes none. -/
theorem counted_none (fuel : Nat) {pos left left2 : Nat} (h : left < left2) :
    counted least lengthAt entry (fuel + 1) pos left left2 m = (.ok ([], ⟨pos, left, left2⟩), 0) := by
  simp [counted, Nat.not_le.mpr h, pure_apply]

end

end

end Parse

/-! ## Bounds -/

open Parse

section
variable {α β : Type} {m : Memory} {n : Nat}

/-- The constructor ends; it reports the memory as invalid or reads below `n`. The
argument is the fuel of its loop. -/
def Bounded (p : Nat → Parse α) (m : Memory) (n : Nat) : Prop :=
  ∃ fuel, (p fuel m).1 ≠ .endless ∧ ((p fuel m).1 = .invalid ∨ (p fuel m).2 ≤ n)

theorem bounded_bind {p : Parse α} {f : Nat → α → Parse β} {a : α} {k : Nat}
    (h : p m = (.ok a, k)) (hk : k ≤ n) :
    Bounded (fun fuel => p >>= f fuel) m n ↔ Bounded (fun fuel => f fuel a) m n := by
  simp only [Bounded, bind_apply, h, Nat.max_le, hk, true_and]

theorem bounded_tail {p : Parse α} {f : Nat → α → Parse β} {a : α} {k : Nat} (h : p m = (.ok a, k))
    (hb : Bounded (fun fuel => p >>= f fuel) m n) : Bounded (fun fuel => f fuel a) m n := by
  obtain ⟨fuel, he, hb⟩ := hb
  simp only [bind_apply, h, Nat.max_le] at he hb
  exact ⟨fuel, he, hb.imp_right And.right⟩

theorem bounded_require {c : Prop} [Decidable c] {f : Nat → Unit → Parse β} :
    Bounded (fun fuel => require c >>= f fuel) m n ↔ (c → Bounded (fun fuel => f fuel ()) m n) := by
  by_cases hc : c
  · simp [Bounded, bind_apply, require_apply, hc]
  · simp [Bounded, bind_apply, require_apply, hc]

theorem not_bounded_bind {p : Parse α} {f : Nat → α → Parse β} {a : α} {k : Nat}
    (h : p m = (.ok a, k)) (hk : n < k) (hf : ∀ fuel, (f fuel a m).1 ≠ .invalid) :
    ¬ Bounded (fun fuel => p >>= f fuel) m n := by
  rintro ⟨fuel, -, hi | hb⟩
  · simp only [bind_apply, h] at hi
    exact hf fuel hi
  · simp only [bind_apply, h] at hb
    omega

theorem bounded_invalid {p : Parse α} {f : Nat → α → Parse β} {k : Nat} (h : p m = (.invalid, k)) :
    Bounded (fun fuel => p >>= f fuel) m n :=
  ⟨0, by simp [bind_apply, h]⟩

theorem bounded_of_succeeds {p : Parse α} {k : Nat} (h : Succeeds p m k) (hk : k ≤ n) :
    Bounded (fun _ => p) m n := by
  obtain ⟨a, ha⟩ := h
  exact ⟨0, by simp [ha, hk]⟩

theorem bounded_pure (a : α) : Bounded (fun _ => pure a) m n :=
  ⟨0, by simp [pure_apply]⟩

/-- What follows and always succeeds below `n` does not matter. -/
theorem bounded_bind_ok {p : Nat → Parse α} {f : α → Parse β}
    (hf : ∀ a, ∃ k, k ≤ n ∧ Succeeds (f a) m k) :
    Bounded (fun fuel => p fuel >>= f) m n ↔ Bounded p m n := by
  unfold Bounded
  apply exists_congr
  intro fuel
  simp only [bind_apply]
  cases p fuel m with
  | mk o k =>
    cases o with
    | ok a =>
      obtain ⟨k', hk, b, hb⟩ := hf a
      simp [hb, hk]
    | invalid => simp
    | endless => simp

theorem bounded_map {p : Nat → Parse α} {f : α → β} :
    Bounded (fun fuel => p fuel >>= fun a => pure (f a)) m n ↔ Bounded p m n :=
  bounded_bind_ok fun a => ⟨0, Nat.zero_le n, f a, pure_apply (f a)⟩

theorem bounded_bind_invalid {p : Nat → Parse α} {f : α → Parse β}
    (hp : ∃ fuel a k, p fuel m = (.ok a, k)) (hf : ∀ a, ∃ k, f a m = (.invalid, k)) :
    Bounded (fun fuel => p fuel >>= f) m n := by
  obtain ⟨fuel, a, k, hp⟩ := hp
  obtain ⟨k', hf⟩ := hf a
  exact ⟨fuel, by simp [bind_apply, hp, hf]⟩

/-- The step succeeds and reads below `n`. -/
def Within (p : Parse α) (m : Memory) (n : Nat) : Prop := ∃ k, k ≤ n ∧ Succeeds p m k

theorem within_bind {p : Parse α} {f : α → Parse β} {a : α} {k : Nat} (h : p m = (.ok a, k)) :
    Within (p >>= f) m n ↔ k ≤ n ∧ Within (f a) m n := by
  simp only [Within, succeeds_bind h]
  constructor
  · rintro ⟨k', hk, k'', hs, rfl⟩
    exact ⟨by omega, k'', by omega, hs⟩
  · rintro ⟨hk, k'', hk'', hs⟩
    exact ⟨max k k'', by omega, k'', hs, rfl⟩

theorem within_map {p : Parse α} {f : α → β} :
    Within (p >>= fun a => pure (f a)) m n ↔ Within p m n := by
  constructor
  · rintro ⟨k, hk, b, hb⟩
    cases hp : p m with
    | mk o k' =>
      cases o with
      | ok a =>
        have hk' : k' = k := by simpa [bind_apply, hp, pure_apply] using congrArg Prod.snd hb
        exact ⟨k', by omega, a, hp⟩
      | invalid => simp [bind_apply, hp] at hb
      | endless => simp [bind_apply, hp] at hb
  · rintro ⟨k, hk, a, ha⟩
    exact ⟨k, hk, f a, by simp [bind_apply, ha, pure_apply]⟩

theorem within_pure (a : α) : Within (pure a) m n :=
  ⟨0, Nat.zero_le n, a, rfl⟩

theorem map_not_invalid {p : Parse α} {f : α → β} (h : (p m).1 ≠ .invalid) :
    ((p >>= fun a => pure (f a)) m).1 ≠ .invalid := by
  simp only [bind_apply]
  cases hp : p m with
  | mk o k =>
    cases o with
    | ok a => simp [pure_apply]
    | invalid => exact absurd (by rw [hp]) h
    | endless => simp

/-- A loop over entries is bounded if and only if it comes to an invalid entry, or every entry it
comes to is bounded and not empty. -/
theorem bounded_loop_iff {body : Nat → Parse (β × Nat)} {stop : Nat} {bad : Nat → Prop}
    [DecidablePred bad] {next size : Nat → Nat}
    (h : Body body m stop bad next size) (hn : ∀ i, i < stop → i ≤ next i) (i : Nat) :
    Bounded (fun fuel => loop body stop fuel i) m n ↔
      (∃ j, Starts next stop i j ∧ j < stop ∧ bad j) ∨
        ∀ j, Starts next stop i j → j < stop → size j ≤ n ∧ j < next j := by
  constructor
  · rintro ⟨fuel, he, hb⟩
    cases hl : loop body stop fuel i m with
    | mk o k =>
      simp only [hl] at he hb
      cases o with
      | ok bs =>
        right
        obtain ⟨hsize, hg⟩ := loop_ok h hl n
        have hk : k ≤ n := by simpa using hb
        intro j hj hjs
        refine ⟨hsize.mp hk j hj hjs, ?_⟩
        rcases Nat.lt_or_ge j (next j) with hlt | hge
        · exact hlt
        · have heq : next j = j := by
            have := hn j hjs
            omega
          have := loop_endless h hg hj hjs heq fuel
          rw [hl] at this
          simp at this
      | invalid => exact Or.inl (bad_of_loop h hl)
      | endless => exact absurd rfl he
  · by_cases hbad : ∃ j, Starts next stop i j ∧ j < stop ∧ bad j
    · intro _
      obtain ⟨j, hj, hjs, hb⟩ := hbad
      obtain ⟨fuel, k, hl⟩ := loop_of_bad h hj hjs hb
      exact ⟨fuel, by simp [hl]⟩
    · rintro (hb | hg)
      · exact absurd hb hbad
      · have hgood : ∀ j, Starts next stop i j → j < stop → ¬ bad j ∧ j < next j :=
          fun j hj hjs => ⟨fun hb => hbad ⟨j, hj, hjs, hb⟩, (hg j hj hjs).2⟩
        obtain ⟨bs, k, hl⟩ := loop_terminates h (Nat.lt_succ_self (stop - i)) hgood
        have hk := (loop_ok h hl n).1.mpr fun j hj hjs => (hg j hj hjs).1
        exact ⟨stop - i + 1, by simp [hl, hk]⟩

section
variable {body : Nat → Parse (β × Nat)} {stop : Nat} {next size : Nat → Nat}

theorem body_of_ok (h : ∀ i, i < stop → ∃ b, body i m = (.ok (b, next i), size i)) :
    Body body m stop (fun _ => False) next size := by
  intro i hi
  simpa using h i hi

theorem loop_not_invalid (h : ∀ i, i < stop → ∃ b, body i m = (.ok (b, next i), size i))
    (fuel i : Nat) : (loop body stop fuel i m).1 ≠ .invalid := by
  intro hl
  obtain ⟨_, _, _, hb⟩ := bad_of_loop (body_of_ok h) (Prod.ext hl rfl)
  exact hb

theorem bounded_entries_iff (h : ∀ i, i < stop → ∃ b, body i m = (.ok (b, next i), size i))
    (hn : ∀ i, i < stop → i ≤ next i) (i : Nat) :
    Bounded (fun fuel => loop body stop fuel i) m n ↔
      ∀ j, Starts next stop i j → j < stop → size j ≤ n ∧ j < next j := by
  rw [bounded_loop_iff (body_of_ok h) hn]
  simp

theorem not_bounded_entries (h : ∀ i, i < stop → ∃ b, body i m = (.ok (b, next i), size i)) {i : Nat}
    (hi : i < stop) (hs : n < size i) : ¬ Bounded (fun fuel => loop body stop fuel i) m n := by
  rintro ⟨fuel, he, hb⟩
  cases hl : loop body stop fuel i m with
  | mk o k =>
    simp only [hl] at he hb
    cases o with
    | ok bs =>
      have hk : k ≤ n := by simpa using hb
      have := (loop_ok (body_of_ok h) hl n).1.mp hk i (.refl i) hi
      omega
    | invalid => exact loop_not_invalid h fuel i (by rw [hl])
    | endless => exact he rfl

end

end

end Tuxbox
