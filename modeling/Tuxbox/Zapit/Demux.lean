import Tuxbox.Sectionsd.Eit

/-! What zapit gets through a section filter. A parser has one buffer, and reads into it
until it has seen enough sections or a read fails.

Main results: `readFor_arrives` and `readFor_passes`, loops over the sections of a table,
`word_of_drop` and `loopLength_of_drop`, what is read of a section that was put together here, and
`readFor_ends_iff`, a loop over any sections. -/
namespace Tuxbox.Zapit

open Buffer
open Sectionsd (word loopLength)

/-- What the calls of `CDemux::read` deliver one after the other, `none` for an error or a
timeout. -/
abbrev Answers := Nat → Option Str

/-- A section is written over the front of the buffer, which it does not exceed. -/
def fill (buffer section_ : Str) : Str :=
  section_.take buffer.length ++ buffer.drop section_.length

theorem fill_length (buffer section_ : Str) : (fill buffer section_).length = buffer.length := by
  unfold fill
  rw [List.length_append, List.length_take, List.length_drop]
  omega

/-- The end of the body of a loop over sections. -/
inductive Flow (σ ρ : Type) where
  | again (s : σ)
  | ret (r : ρ)

section
variable {σ ρ : Type}

/-- A loop that reads a section at the start of each round. It has no result where its body
has none, and where it is not through after `fuel` rounds. -/
def readFor (body : Str → σ → Option (Flow σ ρ)) (failed : σ → ρ) (answers : Answers) :
    (fuel k : Nat) → Str → σ → Option ρ
  | 0, _, _, _ => none
  | fuel + 1, k, buffer, s =>
    match answers k with
    | none => some (failed s)
    | some sec =>
      match body (fill buffer sec) s with
      | none => none
      | some (.ret r) => some r
      | some (.again s') => readFor body failed answers fuel (k + 1) (fill buffer sec) s'

variable {body : Str → σ → Option (Flow σ ρ)} {failed : σ → ρ} {answers : Answers} {k : Nat}
  {buffer : Str} {s : σ}

theorem readFor_failed {fuel : Nat} (h : answers k = none) :
    readFor body failed answers (fuel + 1) k buffer s = some (failed s) := by
  rw [readFor, h]

theorem readFor_ret {fuel : Nat} {sec : Str} {r : ρ} (h : answers k = some sec)
    (hbody : body (fill buffer sec) s = some (.ret r)) :
    readFor body failed answers (fuel + 1) k buffer s = some r := by
  simp only [readFor, h, hbody]

theorem readFor_again {fuel : Nat} {sec : Str} {s' : σ} (h : answers k = some sec)
    (hbody : body (fill buffer sec) s = some (.again s')) :
    readFor body failed answers (fuel + 1) k buffer s =
      readFor body failed answers fuel (k + 1) (fill buffer sec) s' := by
  simp only [readFor, h, hbody]

/-! ## Loops over a table -/

variable {α : Type}

/-- The filters ask for one section of a table after the other. -/
def deliver (enc : α → Nat → Str) (l : List α) : Answers := fun k => l[k]?.map (enc · k)

/-- In this section there is nothing to stop for. The loop ends if it is the last. -/
def Passed (body : Str → Byte → Option (Flow Byte ρ)) (missed : ρ) (enc : α → Nat → Str)
    (size : Nat) (l : List α) (k : Nat) : Prop :=
  ∀ (hk : k < l.length) (buffer : Str), buffer.length = size →
    body (fill buffer (enc l[k] k)) k.toUInt8 =
      some (if k.toUInt8 = (l.length - 1).toUInt8 then .ret missed else .again (k.toUInt8 + 1))

variable {body : Str → Byte → Option (Flow Byte ρ)} {missed : ρ}
  {enc : α → Nat → Str} {size : Nat} {l : List α} {buffer : Str}

theorem toUInt8_eq_last {k n : Nat} (hk : k < n) (hn : n ≤ 256) :
    k.toUInt8 = (n - 1).toUInt8 ↔ k + 1 = n := by
  constructor
  · intro h
    have := congrArg UInt8.toNat h
    simp only [Nat.toUInt8, UInt8.toNat_ofNat'] at this
    omega
  · rintro rfl
    rw [Nat.add_sub_cancel]

theorem toUInt8_succ (k : Nat) : k.toUInt8 + 1 = (k + 1).toUInt8 := by
  simp only [Nat.toUInt8, UInt8.ofNat_add]
  rfl

theorem readFor_arrives (failed : Byte → ρ) {j fuel : Nat} (hj : j < l.length)
    (hnumbered : l.length ≤ 256) (hpassed : ∀ k < j, Passed body missed enc size l k)
      (hfuel : l.length ≤ fuel)
    (hbuf : buffer.length = size) :
    ∃ b, b.length = size ∧ readFor body failed (deliver enc l) fuel 0 buffer 0 =
      readFor body failed (deliver enc l) (fuel - j) j b j.toUInt8 := by
  induction j with
  | zero => exact ⟨buffer, hbuf, rfl⟩
  | succ j ih =>
    obtain ⟨b, hb, heq⟩ := ih (by omega) fun k hk => hpassed k (by omega)
    have hanswer : deliver enc l j = some (enc l[j] j) := by
      rw [deliver, List.getElem?_eq_getElem (by omega)]
      rfl
    have hbody := hpassed j (by omega) (by omega) b hb
    rw [if_neg (by rw [toUInt8_eq_last (by omega) hnumbered]; omega), toUInt8_succ] at hbody
    refine ⟨fill b (enc l[j] j), (fill_length _ _).trans hb, heq.trans ?_⟩
    rw [show fuel - j = fuel - (j + 1) + 1 by omega]
    exact readFor_again hanswer hbody

theorem readFor_passes (failed : Byte → ρ) {fuel : Nat} (hl : l ≠ []) (hnumbered : l.length ≤ 256)
    (hpassed : ∀ k < l.length, Passed body missed enc size l k) (hfuel : l.length ≤ fuel)
    (hbuf : buffer.length = size) :
    readFor body failed (deliver enc l) fuel 0 buffer 0 = some missed := by
  have hpos := List.length_pos_of_ne_nil hl
  have hlast : l.length - 1 < l.length := by omega
  obtain ⟨b, hb, heq⟩ := readFor_arrives failed hlast hnumbered
    (fun k hk => hpassed k (by omega)) hfuel hbuf
  have hanswer : deliver enc l (l.length - 1) = some (enc l[l.length - 1] (l.length - 1)) := by
    rw [deliver, List.getElem?_eq_getElem hlast]
    rfl
  have hbody := hpassed _ hlast hlast b hb
  rw [if_pos rfl] at hbody
  rw [heq, show fuel - (l.length - 1) = fuel - l.length + 1 by omega]
  exact readFor_ret hanswer hbody

/-- The loop ends at the first section that is not passed. -/
theorem readFor_stops (failed : Byte → ρ) {before after : List α} {x : α} {fuel : Nat}
    (hl : l = before ++ x :: after)
    (hnumbered : l.length ≤ 256)
    (hpassed : ∀ k < before.length, Passed body missed enc size l k) (hfuel : l.length ≤ fuel)
    (hbuf : buffer.length = size) :
    ∃ b, b.length = size ∧ ∀ q : Option ρ,
      body (fill b (enc x before.length)) before.length.toUInt8 = q.map .ret →
        readFor body failed (deliver enc l) fuel 0 buffer 0 = q := by
  have hlen : before.length < l.length := by
    rw [hl, List.length_append, List.length_cons]
    omega
  obtain ⟨b, hb, heq⟩ := readFor_arrives failed hlen hnumbered hpassed hfuel hbuf
  have hanswer : deliver enc l before.length = some (enc x before.length) := by
    rw [deliver, hl, List.getElem?_append_right (Nat.le_refl _), Nat.sub_self]
    rfl
  refine ⟨b, hb, fun q hbody => ?_⟩
  rw [heq, show fuel - before.length = fuel - (before.length + 1) + 1 by omega, readFor, hanswer]
  simp only [hbody]
  cases q <;> rfl

end

/-! ## What is in a section -/

section
variable {buf rest : Str} {i : Nat}

theorem word_of_drop {w : UInt16}
    (h : buf.drop i = (w.toNat / 256).toUInt8 :: w.toUInt8 :: rest) : word buf i = some w := by
  have h0 : read buf i = some _ := read_of_drop h
  have h1 : read buf (i + 1) = some _ := read_of_drop (drop_behind (s := [_]) h)
  unfold word
  rw [bind_of_some h0, bind_of_some h1]
  have hw := w.toNat_lt
  refine congrArg some (UInt16.toNat_inj.mp ?_)
  rw [UInt16.toNat_ofNat', Nat.toUInt8, UInt8.toNat_ofNat', UInt16.toNat_toUInt8]
  omega

theorem loopLength_of_drop {high n : Nat} (hn : n < 4096)
    (h : buf.drop i = (high * 16 + n / 256).toUInt8 :: n.toUInt8 :: rest) :
    loopLength buf i = some n := by
  have h0 : read buf i = some _ := read_of_drop h
  have h1 : read buf (i + 1) = some _ := read_of_drop (drop_behind (s := [_]) h)
  have hmask : (0x0F : UInt8).toNat = 2 ^ 4 - 1 := rfl
  unfold loopLength
  rw [bind_of_some h0, bind_of_some h1]
  refine congrArg some ?_
  simp only [UInt8.toNat_and, Nat.toUInt8, UInt8.toNat_ofNat', hmask,
    Nat.and_two_pow_sub_one_eq_mod]
  omega

end

/-! ## Loops over whatever is delivered -/

section
variable {σ ρ τ : Type} (note : Str → τ → τ) (answers : Answers)

/-- The buffer and the notes in front of a round. -/
def roundAt (buffer : Str) (t : τ) : Nat → Str × τ
  | 0 => (buffer, t)
  | k + 1 =>
    let r := roundAt buffer t k
    match answers k with
    | none => r
    | some sec => (fill r.1 sec, note (fill r.1 sec) r.2)

/-- The read of this round fails, or delivers the last section. -/
def EndsAt (last : Str → τ → Prop) (buffer : Str) (t : τ) (k : Nat) : Prop :=
  ∀ sec, answers k = some sec →
    last (fill (roundAt note answers buffer t k).1 sec) (roundAt note answers buffer t k).2

def FitsAt (good : Str → τ → Prop) (buffer : Str) (t : τ) (k : Nat) : Prop :=
  ∀ sec, answers k = some sec →
    good (fill (roundAt note answers buffer t k).1 sec) (roundAt note answers buffer t k).2

/-- A round ends the loop, and up to it every section fits. -/
def Finishes (good last : Str → τ → Prop) (buffer : Str) (t : τ) : Prop :=
  ∃ n, EndsAt note answers last buffer t n ∧ ∀ k ≤ n, FitsAt note answers good buffer t k

variable {note answers} {good last : Str → τ → Prop} {buffer : Str} {t : τ}

/-- The rounds behind the first one. -/
theorem roundAt_behind {sec : Str} (h : answers 0 = some sec) (k : Nat) :
    roundAt note (fun j => answers (j + 1)) (fill buffer sec) (note (fill buffer sec) t) k =
      roundAt note answers buffer t (k + 1) := by
  induction k with
  | zero => rw [roundAt, roundAt, roundAt, h]
  | succ k ih =>
    rw [roundAt, ih]
    rfl

theorem finishes_failed (h : answers 0 = none) : Finishes note answers good last buffer t := by
  refine ⟨0, fun sec hsec => ?_, fun k hk sec hsec => ?_⟩
  · rw [h] at hsec
    cases hsec
  · rw [Nat.le_zero.mp hk, h] at hsec
    cases hsec

/-- The loop ends here, or behind. -/
theorem finishes_iff {sec : Str} (h : answers 0 = some sec) :
    Finishes note answers good last buffer t ↔ good (fill buffer sec) t ∧
      (last (fill buffer sec) t ∨ Finishes note (fun j => answers (j + 1)) good last
        (fill buffer sec) (note (fill buffer sec) t)) := by
  constructor
  · rintro ⟨n, hend, hfits⟩
    refine ⟨hfits 0 (Nat.zero_le n) sec h, ?_⟩
    cases n with
    | zero => exact .inl (hend sec h)
    | succ n =>
      refine .inr ⟨n, fun sec' h' => ?_, fun k hk sec' h' => ?_⟩
      · rw [roundAt_behind h]
        exact hend sec' h'
      · rw [roundAt_behind h]
        exact hfits (k + 1) (Nat.succ_le_succ hk) sec' h'
  · rintro ⟨hgood, hlast | ⟨n, hend, hfits⟩⟩
    · refine ⟨0, fun sec' h' => ?_, fun k hk sec' h' => ?_⟩
      · rw [h] at h'
        exact Option.some_inj.mp h' ▸ hlast
      · rw [Nat.le_zero.mp hk] at h' ⊢
        rw [h] at h'
        exact Option.some_inj.mp h' ▸ hgood
    · refine ⟨n + 1, fun sec' h' => ?_, fun k hk sec' h' => ?_⟩
      · rw [← roundAt_behind h]
        exact hend sec' h'
      · cases k with
        | zero =>
          rw [h] at h'
          exact Option.some_inj.mp h' ▸ hgood
        | succ k =>
          rw [← roundAt_behind h]
          exact hfits k (Nat.le_of_succ_le_succ hk) sec' h'

/-- What the body of a loop does with a section in a buffer of its size. -/
structure Handles (body : Str → σ → Option (Flow σ ρ)) (size : Nat) (view : σ → τ)
    (note : Str → τ → τ) (good last : Str → τ → Prop) : Prop where
  ends : ∀ buf s, buf.length = size → ((∃ f, body buf s = some f) ↔ good buf (view s))
  again : ∀ buf s s', buf.length = size → body buf s = some (.again s') →
    ¬ last buf (view s) ∧ view s' = note buf (view s)
  ret : ∀ buf s r, buf.length = size → body buf s = some (.ret r) → last buf (view s)

variable {body : Str → σ → Option (Flow σ ρ)} {failed : σ → ρ} {size : Nat} {view : σ → τ}

theorem readFor_shift (fuel k : Nat) (s : σ) : readFor body failed answers fuel (k + 1) buffer s =
    readFor body failed (fun j => answers (j + 1)) fuel k buffer s := by
  induction fuel generalizing k buffer s with
  | zero => rfl
  | succ fuel ih => simp only [readFor, ih]

/-- The loop ends with a result if and only if its sections let it. -/
theorem readFor_ends_iff (h : Handles body size view note good last)
    (hbuf : buffer.length = size) (s : σ) :
    (∃ fuel r, readFor body failed answers fuel 0 buffer s = some r) ↔
      Finishes note answers good last buffer (view s) := by
  constructor
  · rintro ⟨fuel, r, hr⟩
    induction fuel generalizing answers buffer s with
    | zero => cases hr
    | succ fuel ih =>
      cases hanswer : answers 0 with
      | none => exact finishes_failed hanswer
      | some sec =>
        have hfill : (fill buffer sec).length = size := (fill_length _ _).trans hbuf
        rw [finishes_iff hanswer, ← h.ends _ _ hfill]
        cases hbody : body (fill buffer sec) s with
        | none => simp only [readFor, hanswer, hbody, reduceCtorEq] at hr
        | some f =>
          refine ⟨⟨f, rfl⟩, ?_⟩
          cases f with
          | ret r => exact .inl (h.ret _ _ _ hfill hbody)
          | again s' =>
            rw [readFor_again hanswer hbody, readFor_shift] at hr
            rw [← (h.again _ _ _ hfill hbody).2]
            exact .inr (ih hfill s' hr)
  · rintro ⟨n, hn⟩
    induction n generalizing answers buffer s with
    | zero =>
      cases hanswer : answers 0 with
      | none => exact ⟨1, _, readFor_failed hanswer⟩
      | some sec =>
        have hfill : (fill buffer sec).length = size := (fill_length _ _).trans hbuf
        obtain ⟨f, hbody⟩ := (h.ends _ s hfill).mpr (hn.2 0 (Nat.le_refl 0) sec hanswer)
        cases f with
        | ret r => exact ⟨1, r, readFor_ret hanswer hbody⟩
        | again s' => exact absurd (hn.1 sec hanswer) (h.again _ _ _ hfill hbody).1
    | succ n ih =>
      cases hanswer : answers 0 with
      | none => exact ⟨1, _, readFor_failed hanswer⟩
      | some sec =>
        have hfill : (fill buffer sec).length = size := (fill_length _ _).trans hbuf
        obtain ⟨f, hbody⟩ := (h.ends _ s hfill).mpr (hn.2 0 (Nat.zero_le _) sec hanswer)
        cases f with
        | ret r => exact ⟨1, r, readFor_ret hanswer hbody⟩
        | again s' =>
          have hview := (h.again _ _ _ hfill hbody).2
          have hend : EndsAt note (fun j => answers (j + 1)) last (fill buffer sec) (view s') n := by
            intro sec' h'
            rw [hview, roundAt_behind hanswer]
            exact hn.1 sec' h'
          have hfits : ∀ k ≤ n,
              FitsAt note (fun j => answers (j + 1)) good (fill buffer sec) (view s') k := by
            intro k hk sec' h'
            rw [hview, roundAt_behind hanswer]
            exact hn.2 (k + 1) (Nat.succ_le_succ hk) sec' h'
          obtain ⟨fuel, r, hr⟩ := ih hfill s' ⟨hend, hfits⟩
          exact ⟨fuel + 1, r, by rw [readFor_again hanswer hbody, readFor_shift, hr]⟩

end

end Tuxbox.Zapit
