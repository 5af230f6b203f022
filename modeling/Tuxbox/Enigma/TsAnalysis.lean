import Tuxbox.Enigma.TsPieces

/-!
# The analysis of a stream

* `fits_iff`: when the bytes that were given are the only ones that are read;
-/

namespace Tuxbox.Enigma

namespace TsReader

/-- No byte is read that was not given: a wanted packet is read inside its memory, and
one that is not wanted is not cut in its header and behind it. -/
def Fits {β σ : Type} (a : TsReader β σ) (bs : List Byte) (ds : List (List Byte)) : Prop :=
  if wantPacket a.pid false bs then (a.read (memory bs ds)).isSome = true
  else ¬ (CutIn 1 4 0 ds ∧ CutIn 4 188 0 ds)

/-- What is read is the same when more bytes follow. -/
def Extends {β : Type} (read : List Byte → Option β) : Prop :=
  ∀ bs more r, read bs = some r → read (bs ++ more) = some r

section
variable {β γ σ : Type} {a : TsReader β σ}

/-! ## Reading -/

theorem extends_getElem (i : Nat) : Extends (fun bs => bs[i]?) := by
  intro bs more b hb
  have hi := (List.getElem?_eq_some_iff.mp hb).1
  exact (List.getElem?_append_left hi).trans hb

theorem extends_pure (r : β) : Extends (fun _ => some r) := fun _ _ _ h => h

theorem Extends.bind {read : List Byte → Option β} {next : β → List Byte → Option γ}
    (h : Extends read) (hnext : ∀ r, Extends (next r)) :
    Extends (fun bs => (read bs).bind fun r => next r bs) := by
  intro bs more s hs
  obtain ⟨r, hr, hs⟩ := Option.bind_eq_some_iff.mp hs
  exact Option.bind_eq_some_iff.mpr ⟨r, h bs more r hr, hnext r bs more s hs⟩

theorem Extends.map {read : List Byte → Option β} (h : Extends read) (f : β → γ) :
    Extends (fun bs => (read bs).map f) := by
  simp only [Option.map_eq_bind]
  exact h.bind fun r => extends_pure (f r)

theorem extends_ite {read read' : List Byte → Option β} {c : Prop} [Decidable c]
    (h : Extends read) (h' : Extends read') :
      Extends (fun bs => if c then read bs else read' bs) := by
  split
  · exact h
  · exact h'

theorem payload_extends : Extends payload := by
  apply (extends_getElem 3).bind
  intro b3
  apply extends_ite (extends_pure none)
  apply extends_ite _ (extends_pure _)
  exact (extends_getElem 4).map _

theorem startcode_extends (i : Nat) : Extends (startcode · i) := by
  apply (extends_getElem i).bind
  intro b0
  apply extends_ite (extends_pure _)
  apply (extends_getElem (i + 1)).bind
  intro b1
  exact extends_ite (extends_pure _) ((extends_getElem (i + 2)).map _)

theorem pts_extends (i : Nat) : Extends (pts · i) := by
  apply (extends_getElem (i + 7)).bind
  intro b7
  apply extends_ite (extends_pure _)
  apply (extends_getElem (i + 9)).bind
  intro b9
  apply (extends_getElem (i + 10)).bind
  intro b10
  apply (extends_getElem (i + 11)).bind
  intro b11
  apply (extends_getElem (i + 12)).bind
  intro b12
  exact (extends_getElem (i + 13)).map _

theorem accessPoint_extends : Extends accessPoint := by
  apply payload_extends.bind
  intro start
  cases start with
  | none => exact extends_pure _
  | some i =>
    apply (startcode_extends i).bind
    intro found
    apply extends_ite (extends_pure _)
    apply (pts_extends i).bind
    intro t
    apply (extends_getElem (i + 8)).bind
    intro b8
    apply (startcode_extends _).bind
    intro found
    exact extends_ite (extends_pure _) ((extends_getElem _).map _)

theorem timeStamp_extends : Extends timeStamp := by
  apply payload_extends.bind
  intro start
  cases start with
  | none => exact extends_pure _
  | some i =>
    apply (startcode_extends i).bind
    intro found
    exact extends_ite (extends_pure _) (pts_extends i)

/-! ## Packets that fit -/

variable {bs tail : List Byte} {ds : List (List Byte)} {packets : List TsPacket} {seen : σ}
  {pos n : Nat}

theorem packetStep_isSome : (packetStep a bs seen pos ds).isSome = true ↔ Fits a bs ds := by
  unfold packetStep Fits
  cases wantPacket a.pid false bs with
  | true => simp
  | false => simp only [Bool.false_eq_true, if_false]; split <;> simp [*]

theorem outcome_isSome : (outcome a seen pos packets (after n ds)).isSome = true ↔
    ∀ i P, packets[i]? = some P → Fits a P.bytes (after (n + 188 * i) ds) := by
  induction packets generalizing seen pos n with
  | nil => exact iff_of_true rfl fun i P h => nomatch h
  | cons P Ps ih =>
    have hfits : (packetStep a P.bytes seen pos (after n ds)).isSome = true ↔
        Fits a P.bytes (after n ds) := packetStep_isSome
    rw [outcome, after_after]
    constructor
    · intro h i Q hQ
      obtain ⟨r, hr⟩ := Option.isSome_iff_exists.mp h
      obtain ⟨seen', hstep, hrest⟩ := Option.bind_eq_some_iff.mp hr
      cases i with
      | zero =>
        obtain rfl := Option.some_inj.mp hQ
        exact hfits.mp (hstep ▸ rfl)
      | succ i =>
        have hi : n + 188 * (i + 1) = n + 188 + 188 * i := by omega
        rw [hi]
        exact ih.mp (Option.isSome_iff_exists.mpr ⟨r, hrest⟩) i Q hQ
    · intro h
      obtain ⟨seen', hstep⟩ := Option.isSome_iff_exists.mp (hfits.mpr (h 0 P rfl))
      rw [hstep, Option.bind_some, ih]
      intro i Q hQ
      have hi : n + 188 + 188 * i = n + 188 * (i + 1) := by omega
      rw [hi]
      exact h (i + 1) Q hQ

theorem memory_prefix (hflat : ds.flatten = bs ++ tail) :
    ∃ more, ds.flatten = memory bs ds ++ more := by
  cases ds with
  | nil => exact ⟨tail, hflat⟩
  | cons d es =>
    rw [memory]
    split
    · exact ⟨es.flatten, rfl⟩
    · exact ⟨tail, hflat⟩

theorem memory_take (hbs : bs.length = 188) (hflat : ds.flatten = bs ++ tail) :
    (memory bs ds).take 188 = bs := by
  have hall : bs.take 188 = bs := List.take_of_length_le (by omega)
  cases ds with
  | nil => exact hall
  | cons d es =>
    rw [memory]
    split
    · rename_i hd
      have htake := congrArg (List.take 188) hflat
      rw [List.flatten_cons, List.take_append_of_le_length hd,
        List.take_append_of_le_length (by omega), hall] at htake
      exact htake
    · exact hall

/-- What is read of a packet is what is read of the stream there. -/
theorem read_memory (hread : Extends a.read) (hflat : ds.flatten = bs ++ tail) {r : β}
    (hr : a.read (memory bs ds) = some r) : a.read (bs ++ tail) = some r := by
  obtain ⟨more, hmore⟩ := memory_prefix hflat
  rw [← hflat, hmore]
  exact hread _ more r hr

theorem stream_drop {i : Nat} {P : TsPacket} (hP : packets[i]? = some P) :
    (stream packets).drop (188 * i) = P.bytes ++ stream (packets.drop (i + 1)) := by
  induction packets generalizing i with
  | nil => cases hP
  | cons Q Qs ih =>
    have hstream : stream (Q :: Qs) = Q.bytes ++ stream Qs := rfl
    cases i with
    | zero =>
      obtain rfl := Option.some_inj.mp hP
      rfl
    | succ i =>
      have hi : 188 * (i + 1) = Q.bytes.length + 188 * i := by rw [Q.length]; omega
      rw [hstream, hi, List.drop_append, List.drop_eq_nil_of_le (by omega), List.nil_append,
        Nat.add_sub_cancel_left]
      exact ih hP

/-- The stream from a packet on, as one piece. -/
theorem after_whole {i : Nat} {P : TsPacket} (hP : packets[i]? = some P) :
    after (188 * i) [stream packets] = [(stream packets).drop (188 * i)] ∧
      188 ≤ ((stream packets).drop (188 * i)).length := by
  have hlen := congrArg List.length (stream_drop hP)
  rw [List.length_append, P.length] at hlen
  rw [List.length_drop] at hlen ⊢
  apply And.intro _ (by omega)
  rw [after, if_pos (by omega)]

theorem not_cutIn_whole {i lo hi : Nat} {P : TsPacket} (hP : packets[i]? = some P)
    (hhi : hi ≤ 188) : ¬ CutIn lo hi 0 (after (188 * i) [stream packets]) := by
  obtain ⟨hafter, hlen⟩ := after_whole hP
  rw [hafter, cutIn_cons]
  rintro (h | h)
  · omega
  · exact not_cutIn (by omega) h

/-- If the packets fit in pieces, they fit in the stream as one piece. -/
theorem fits_whole (hread : Extends a.read) (hflat : ds.flatten = stream packets)
    (hfits : ∀ i P, packets[i]? = some P → Fits a P.bytes (after (188 * i) ds)) :
    ∀ i P, packets[i]? = some P → Fits a P.bytes (after (188 * i) [stream packets]) := by
  intro i P hP
  obtain ⟨hafter, hlen⟩ := after_whole hP
  have hP' := hfits i P hP
  unfold Fits at hP' ⊢
  split at hP'
  · rename_i hw
    rw [if_pos hw, hafter, memory, if_pos hlen]
    obtain ⟨r, hr⟩ := Option.isSome_iff_exists.mp hP'
    have hrest : (after (188 * i) ds).flatten = P.bytes ++ stream (packets.drop (i + 1)) := by
      rw [flatten_after, hflat, stream_drop hP]
    rw [stream_drop hP, read_memory hread hrest hr]
    rfl
  · rename_i hw
    rw [if_neg hw]
    exact fun h => not_cutIn_whole hP (by decide) h.1

/-- The stream in one call. -/
theorem feed_whole (p : TsParser σ) :
    a.feed p 0 [stream packets] = a.parseData p 0 (stream packets) := by
  rw [feed]
  cases a.parseData p 0 (stream packets) <;> rfl

theorem memory_cut (hcut : CutIn 1 188 0 ds) : memory bs ds = bs := by
  cases ds with
  | nil => rfl
  | cons d es =>
    rw [memory]
    split
    · rcases cutIn_cons.mp hcut with h | h
      · omega
      · exact absurd h (not_cutIn (by omega))
    · rfl

end

end TsReader

open TsReader

/-! ## Access points -/

/-- It fits, and has no access point if it is cut. -/
def Kept (pid : Int) (bs : List Byte) (ds : List (List Byte)) : Prop :=
  Fits (streamParser pid) bs ds ∧
    (wantPacket pid false bs = true → CutIn 1 188 0 ds → accessPoint bs = some none)

/-- A wanted packet that begins at `k` has an access point of time `t`. -/
def Located (pid : Int) (pos : Nat) (packets : List TsPacket) (k t : Nat) : Prop :=
  ∃ i P, packets[i]? = some P ∧ k = pos + 188 * i ∧ wantPacket pid false P.bytes = true ∧
    accessPoint ((stream packets).drop (188 * i)) = some (some t)

section
variable {pid : Int} {bs tail : List Byte} {ds : List (List Byte)} {packets : List TsPacket}
  {seen seen' : Nat → Option Nat} {pos n k t : Nat}

theorem located_cons {P : TsPacket} :
    Located pid pos (P :: packets) k t ↔
      (k = pos ∧ wantPacket pid false P.bytes = true ∧
        accessPoint (P.bytes ++ stream packets) = some (some t)) ∨
      Located pid (pos + 188) packets k t := by
  have hdrop (i : Nat) : (stream (P :: packets)).drop (188 * (i + 1)) =
      (stream packets).drop (188 * i) := by
    have hstream : stream (P :: packets) = P.bytes ++ stream packets := rfl
    have hi : 188 * (i + 1) = P.bytes.length + 188 * i := by rw [P.length]; omega
    rw [hstream, hi, List.drop_append, List.drop_eq_nil_of_le (by omega), List.nil_append,
      Nat.add_sub_cancel_left]
  constructor
  · rintro ⟨i, Q, hQ, hk, hw, ht⟩
    cases i with
    | zero =>
      obtain rfl := Option.some_inj.mp hQ
      exact .inl ⟨hk, hw, ht⟩
    | succ i =>
      rw [hdrop] at ht
      exact .inr ⟨i, Q, hQ, by omega, hw, ht⟩
  · rintro (⟨rfl, hw, ht⟩ | ⟨i, Q, hQ, hk, hw, ht⟩)
    · exact ⟨0, P, rfl, rfl, hw, ht⟩
    · rw [← hdrop] at ht
      exact ⟨i + 1, Q, hQ, by omega, hw, ht⟩

theorem Located.le (h : Located pid pos packets k t) : pos ≤ k := by
  obtain ⟨i, -, -, rfl, -⟩ := h
  exact Nat.le_add_right pos _

/-- A packet changes the map at its offset, or where it ends if it is cut. -/
theorem packetStep_cases (h : packetStep (streamParser pid) bs seen pos ds = some seen') :
    (wantPacket pid false bs = false ∧ seen' = seen) ∨
    wantPacket pid false bs = true ∧ ∃ r, accessPoint (memory bs ds) = some r ∧
      seen' = (streamParser pid).note seen (if CutIn 1 188 0 ds then pos + 188 else pos)
        (memory bs ds) r := by
  unfold packetStep at h
  have hpid : (streamParser pid).pid = pid := rfl
  rw [hpid] at h
  cases hw : wantPacket pid false bs with
  | true =>
    rw [hw, if_pos rfl] at h
    obtain ⟨r, hr, h⟩ := Option.map_eq_some_iff.mp h
    exact .inr ⟨rfl, r, hr, h.symm⟩
  | false =>
    rw [hw, if_neg (by decide)] at h
    split at h
    · cases h
    · exact .inl ⟨rfl, (Option.some_inj.mp h).symm⟩

theorem note_ne {r : Option Nat} {place : Nat} (hk : k ≠ place) :
    (streamParser pid).note seen place bs r k = seen k := by
  cases r with
  | none => rfl
  | some t => exact Function.update_of_ne hk _ _

theorem packetStep_frame (h : packetStep (streamParser pid) bs seen pos ds = some seen')
    (hk : k < pos) : seen' k = seen k := by
  rcases packetStep_cases h with ⟨-, rfl⟩ | ⟨-, r, -, rfl⟩
  · rfl
  · apply note_ne
    split <;> omega

theorem outcome_frame (h : outcome (streamParser pid) seen pos packets ds = some seen')
    (hk : k < pos) : seen' k = seen k := by
  induction packets generalizing seen pos ds with
  | nil => exact Option.some_inj.mp h ▸ rfl
  | cons P Ps ih =>
    obtain ⟨seen1, hstep, hrest⟩ := Option.bind_eq_some_iff.mp h
    rw [ih hrest (by omega), packetStep_frame hstep hk]

/-- A packet that is kept changes the map at its offset only, as the stream says. -/
theorem packetStep_kept (hkept : Kept pid bs ds) (hflat : ds.flatten = bs ++ tail)
    (hfresh : ∀ k, pos ≤ k → seen k = none)
    (h : packetStep (streamParser pid) bs seen pos ds = some seen') (hk : pos ≤ k) :
    seen' k = some t ↔ k = pos ∧ wantPacket pid false bs = true ∧
      accessPoint (bs ++ tail) = some (some t) := by
  rcases packetStep_cases h with ⟨hw, rfl⟩ | ⟨hw, r, hr, rfl⟩
  · rw [hfresh k hk, hw]
    simp
  · have hread := read_memory (a := streamParser pid) accessPoint_extends hflat hr
    have hread : accessPoint (bs ++ tail) = some r := hread
    rw [hread]
    by_cases hcut : CutIn 1 188 0 ds
    · have hnone := hkept.2 hw hcut
      rw [memory_cut hcut, hnone] at hr
      obtain rfl := Option.some_inj.mp hr
      have hseen : seen k ≠ some t := by rw [hfresh k hk]; exact nofun
      exact iff_of_false hseen fun h => nomatch h.2.2
    · rw [if_neg hcut]
      cases r with
      | none =>
        have hseen : seen k ≠ some t := by rw [hfresh k hk]; exact nofun
        exact iff_of_false hseen fun h => nomatch h.2.2
      | some t' =>
        by_cases hpos : k = pos
        · subst hpos
          have hseen : (streamParser pid).note seen k (memory bs ds) (some t') k = some t' :=
            Function.update_self _ _ _
          rw [hseen]
          simp [hw]
        · rw [note_ne hpos, hfresh k hk]
          simp [hpos]

/-- Packets that are each kept at their place. -/
theorem forall_packets_cons {P : TsPacket} {R : List Byte → List (List Byte) → Prop} :
    (∀ i Q, (P :: packets)[i]? = some Q → R Q.bytes (after (n + 188 * i) ds)) ↔
      R P.bytes (after n ds) ∧
        ∀ i Q, packets[i]? = some Q → R Q.bytes (after (n + 188 + 188 * i) ds) := by
  have hnext (i : Nat) : n + 188 * (i + 1) = n + 188 + 188 * i := by omega
  constructor
  · intro h
    apply And.intro (h 0 P rfl)
    intro i Q hQ
    exact hnext i ▸ h (i + 1) Q hQ
  · rintro ⟨h0, h⟩ i Q hQ
    cases i with
    | zero => exact Option.some_inj.mp hQ ▸ h0
    | succ i => exact hnext i ▸ h i Q hQ

/-- If the map is right, a packet that is cut has no access point. -/
theorem kept_of_located {P : TsPacket} (hflat : (after n ds).flatten = P.bytes ++ stream packets)
    (hfresh : ∀ k, pos ≤ k → seen k = none) {seen1 : Nat → Option Nat}
    (hstep : packetStep (streamParser pid) P.bytes seen pos (after n ds) = some seen1)
    (hrest : outcome (streamParser pid) seen1 (pos + 188) packets (after (n + 188) ds) = some seen')
    (hlocated : ∀ k t, pos ≤ k → (seen' k = some t ↔ Located pid pos (P :: packets) k t)) :
    Kept pid P.bytes (after n ds) := by
  apply And.intro (packetStep_isSome.mp (Option.isSome_iff_exists.mpr ⟨seen1, hstep⟩))
  intro hw hcut
  rcases packetStep_cases hstep with ⟨hw', -⟩ | ⟨-, r, hr, hseen⟩
  · cases hw.symm.trans hw'
  · have hread : accessPoint (P.bytes ++ stream packets) = some r :=
      read_memory (a := streamParser pid) accessPoint_extends hflat hr
    rw [memory_cut hcut] at hr
    cases r with
    | none => exact hr
    | some t =>
      have hthere := (hlocated pos t (Nat.le_refl pos)).mpr
        (located_cons.mpr (.inl ⟨rfl, hw, hread⟩))
      have hbefore : seen' pos = none := by
        rw [outcome_frame hrest (by omega), hseen, if_pos hcut, note_ne (by omega)]
        exact hfresh pos (Nat.le_refl pos)
      cases hbefore.symm.trans hthere

theorem outcome_iff (hflat : (after n ds).flatten = stream packets)
    (hfresh : ∀ k, pos ≤ k → seen k = none) :
    (∃ seen', outcome (streamParser pid) seen pos packets (after n ds) = some seen' ∧
      ∀ k t, pos ≤ k → (seen' k = some t ↔ Located pid pos packets k t)) ↔
    ∀ i P, packets[i]? = some P → Kept pid P.bytes (after (n + 188 * i) ds) := by
  induction packets generalizing seen pos n with
  | nil =>
    apply iff_of_true
    · refine ⟨seen, rfl, ?_⟩
      intro k t hk
      rw [hfresh k hk]
      exact iff_of_false nofun fun ⟨i, P, hP, _⟩ => nomatch hP
    · exact fun i P hP => nomatch hP
  | cons P Ps ih =>
    have hstream : stream (P :: Ps) = P.bytes ++ stream Ps := rfl
    have htail : (after (n + 188) ds).flatten = stream Ps := by
      rw [← after_after, flatten_after, hflat, hstream, ← P.length, List.drop_left]
    rw [hstream] at hflat
    have hlater {seen1 : Nat → Option Nat} (hkept : Kept pid P.bytes (after n ds))
        (hstep : packetStep (streamParser pid) P.bytes seen pos (after n ds) = some seen1) :
        ∀ k, pos + 188 ≤ k → seen1 k = none := by
      intro k hk
      apply Option.eq_none_iff_forall_ne_some.mpr
      intro t ht
      have hat := (packetStep_kept hkept hflat hfresh hstep (by omega)).mp ht
      omega
    rw [forall_packets_cons (R := Kept pid)]
    constructor
    · rintro ⟨seen', h, hlocated⟩
      obtain ⟨seen1, hstep, hrest⟩ := Option.bind_eq_some_iff.mp h
      rw [after_after] at hrest
      have hkept := kept_of_located hflat hfresh hstep hrest hlocated
      apply And.intro hkept
      apply (ih htail (hlater hkept hstep)).mp
      refine ⟨seen', hrest, ?_⟩
      intro k t hk
      rw [hlocated k t (by omega), located_cons, or_iff_right fun h => by omega]
    · rintro ⟨hkept, hrest⟩
      obtain ⟨seen1, hstep⟩ := Option.isSome_iff_exists.mp
        (packetStep_isSome.mpr hkept.1)
      obtain ⟨seen', hseen', hlocated⟩ := (ih htail (hlater hkept hstep)).mpr hrest
      refine ⟨seen', ?_, ?_⟩
      · rw [outcome, hstep, Option.bind_some, after_after, hseen']
      · intro k t hk
        rw [located_cons]
        by_cases hnear : k < pos + 188
        · rw [outcome_frame hseen' hnear, packetStep_kept hkept hflat hfresh hstep hk]
          exact (or_iff_left fun h => absurd h.le (by omega)).symm
        · rw [hlocated k t (by omega)]
          exact (or_iff_right fun h => by omega).symm

end

/-- The pieces are analysed in range, every access point is at the offset of its packet, and
the map is the one of the stream in one call, where there is such a call. -/
def Analysed (pid : Int) (packets : List TsPacket) (ds : List (List Byte)) : Prop :=
  ∃ p, (streamParser pid).feed (.start fun _ => none) 0 ds = some p ∧
    (∀ k t, p.seen k = some t ↔ Located pid 0 packets k t) ∧
    ((stream packets).length < 2 ^ 31 →
      ∃ q, (streamParser pid).parseData (.start fun _ => none) 0 (stream packets) = some q ∧
        p.seen = q.seen)

section
variable {pid : Int} {packets : List TsPacket} {ds : List (List Byte)}

theorem feed_iff (hsmall : ∀ d ∈ ds, d.length < 2 ^ 31) (hflat : ds.flatten = stream packets) :
    (∃ p, (streamParser pid).feed (.start fun _ => none) 0 ds = some p ∧
      ∀ k t, p.seen k = some t ↔ Located pid 0 packets k t) ↔
    ∀ i P, packets[i]? = some P → Kept pid P.bytes (after (188 * i) ds) := by
  have hiff := @outcome_iff pid ds packets (fun _ => none) 0 0
    (by rw [flatten_after, hflat, List.drop_zero]) fun k _ => rfl
  rw [← feed_stream (a := streamParser pid) (fun _ => none) hsmall hflat] at hiff
  simp only [Nat.zero_add, Nat.zero_le, forall_true_left] at hiff
  rw [← hiff]
  constructor
  · rintro ⟨p, hp, hlocated⟩
    exact ⟨p.seen, by rw [hp]; rfl, hlocated⟩
  · rintro ⟨seen', hseen', hlocated⟩
    obtain ⟨p, hp, rfl⟩ := Option.map_eq_some_iff.mp hseen'
    exact ⟨p, hp, hlocated⟩

/-- When the access points do not depend on the pieces. -/
theorem analysed_iff (hsmall : ∀ d ∈ ds, d.length < 2 ^ 31) (hflat : ds.flatten = stream packets) :
    Analysed pid packets ds ↔
      ∀ i P, packets[i]? = some P → Kept pid P.bytes (after (188 * i) ds) := by
  rw [← feed_iff hsmall hflat]
  constructor
  · rintro ⟨p, hp, hlocated, -⟩
    exact ⟨p, hp, hlocated⟩
  · rintro ⟨p, hp, hlocated⟩
    refine ⟨p, hp, hlocated, ?_⟩
    intro hlen
    have hkept := (feed_iff hsmall hflat).mp ⟨p, hp, hlocated⟩
    have hfits := fits_whole (a := streamParser pid) accessPoint_extends hflat
      fun i P hP => (hkept i P hP).1
    obtain ⟨q, hq, hlocated'⟩ := (feed_iff
      (by simpa using hlen) (List.append_nil _)).mpr fun i P hP =>
        ⟨hfits i P hP, fun _ hcut => absurd hcut (not_cutIn_whole hP (Nat.le_refl 188))⟩
    refine ⟨q, feed_whole _ ▸ hq, ?_⟩
    funext k
    apply Option.ext
    exact fun t => (hlocated k t).trans (hlocated' k t).symm

end

/-! ## Times -/

/-- The wanted packets, with their times. -/
def times (pid : Int) : List TsPacket → List (List Byte × Option Nat)
  | [] => []
  | P :: Ps =>
    if wantPacket pid false P.bytes then
      (P.bytes, (timeStamp (stream (P :: Ps))).getD none) :: times pid Ps
    else times pid Ps

/-- The pieces are read in range, the wanted packets are processed, as in one call. -/
def Processed (pid : Int) (packets : List TsPacket) (ds : List (List Byte)) : Prop :=
  ∃ p, (timeStampParser pid).feed (.start []) 0 ds = some p ∧
    p.seen.map Prod.fst = (packets.map (·.bytes)).filter (wantPacket pid false) ∧
    ((stream packets).length < 2 ^ 31 →
      ∃ q, (timeStampParser pid).parseData (.start []) 0 (stream packets) = some q ∧
        p.seen = q.seen)

section
variable {pid : Int} {packets : List TsPacket} {ds : List (List Byte)}

theorem times_fst : (times pid packets).map Prod.fst =
    (packets.map (·.bytes)).filter (wantPacket pid false) := by
  induction packets with
  | nil => rfl
  | cons P Ps ih =>
    rw [times, List.map_cons, List.filter_cons]
    split
    · rw [List.map_cons, ih]
    · exact ih

theorem outcome_times {seen seen' : List (List Byte × Option Nat)} {pos n : Nat}
    (hflat : (after n ds).flatten = stream packets)
    (h : outcome (timeStampParser pid) seen pos packets (after n ds) = some seen') :
    seen' = seen ++ times pid packets := by
  induction packets generalizing seen pos n with
  | nil => exact (Option.some_inj.mp h).symm.trans (List.append_nil _).symm
  | cons P Ps ih =>
    have hstream : stream (P :: Ps) = P.bytes ++ stream Ps := rfl
    have htail : (after (n + 188) ds).flatten = stream Ps := by
      rw [← after_after, flatten_after, hflat, hstream, ← P.length, List.drop_left]
    obtain ⟨seen1, hstep, hrest⟩ := Option.bind_eq_some_iff.mp h
    rw [after_after] at hrest
    rw [ih htail hrest, times]
    unfold packetStep at hstep
    have hpid : (timeStampParser pid).pid = pid := rfl
    rw [hpid] at hstep
    split at hstep
    · rename_i hw
      obtain ⟨r, hr, rfl⟩ := Option.map_eq_some_iff.mp hstep
      have hread : timeStamp (P.bytes ++ stream Ps) = some r :=
        read_memory (a := timeStampParser pid) timeStamp_extends hflat hr
      have hnote : (timeStampParser pid).note seen (if CutIn 1 188 0 (after n ds) then pos + 188
          else pos) (memory P.bytes (after n ds)) r =
          seen ++ [((memory P.bytes (after n ds)).take 188, r)] := rfl
      rw [if_pos hw, hstream, hread, hnote, memory_take P.length hflat, List.append_assoc]
      rfl
    · rename_i hw
      rw [if_neg hw]
      split at hstep
      · cases hstep
      · rw [Option.some_inj.mp hstep]

theorem feed_times {p : TsParser (List (List Byte × Option Nat))}
    (hsmall : ∀ d ∈ ds, d.length < 2 ^ 31) (hflat : ds.flatten = stream packets)
    (hp : (timeStampParser pid).feed (.start []) 0 ds = some p) : p.seen = times pid packets := by
  have hfeed := feed_stream (a := timeStampParser pid) [] hsmall hflat
  rw [hp] at hfeed
  exact outcome_times (by rw [flatten_after, hflat, List.drop_zero]) hfeed.symm

theorem feed_fits (hsmall : ∀ d ∈ ds, d.length < 2 ^ 31) (hflat : ds.flatten = stream packets) :
    (∃ p, (timeStampParser pid).feed (.start []) 0 ds = some p) ↔
      ∀ i P, packets[i]? = some P → Fits (timeStampParser pid) P.bytes (after (188 * i) ds) := by
  have hsome : (outcome (timeStampParser pid) [] 0 packets (after 0 ds)).isSome = true ↔
      ∀ i P, packets[i]? = some P → Fits (timeStampParser pid) P.bytes (after (0 + 188 * i) ds) :=
    outcome_isSome
  rw [← feed_stream [] hsmall hflat, Option.isSome_map, Option.isSome_iff_exists] at hsome
  simpa only [Nat.zero_add] using hsome

theorem processed_iff (hsmall : ∀ d ∈ ds, d.length < 2 ^ 31) (hflat : ds.flatten = stream packets) :
    Processed pid packets ds ↔
      ∀ i P, packets[i]? = some P → Fits (timeStampParser pid) P.bytes (after (188 * i) ds) := by
  rw [← feed_fits hsmall hflat]
  constructor
  · rintro ⟨p, hp, -⟩
    exact ⟨p, hp⟩
  · rintro ⟨p, hp⟩
    have hseen := feed_times hsmall hflat hp
    refine ⟨p, hp, hseen ▸ times_fst, ?_⟩
    intro hlen
    have hsmall' : ∀ d ∈ [stream packets], d.length < 2 ^ 31 := by simpa using hlen
    have hflat' : [stream packets].flatten = stream packets := List.append_nil _
    obtain ⟨q, hq⟩ := (feed_fits hsmall' hflat').mpr
      (fits_whole timeStamp_extends hflat ((feed_fits hsmall hflat).mp ⟨p, hp⟩))
    exact ⟨q, feed_whole _ ▸ hq, hseen.trans (feed_times hsmall' hflat' hq).symm⟩

end

/-- The analysis does not depend on the pieces if and only if wanted packets are read in their
memory, packets with access points are not cut, and packets that are not wanted are not cut
in the header and behind it. -/
theorem divisions_iff (pid : Int) (packets : List TsPacket) (ds : List (List Byte))
    (hsmall : ∀ d ∈ ds, d.length < 2 ^ 31) (hflat : ds.flatten = stream packets) :
    (Analysed pid packets ds ↔
      ∀ i P, packets[i]? = some P → Kept pid P.bytes (after (188 * i) ds)) ∧
    (Processed pid packets ds ↔
      ∀ i P, packets[i]? = some P → Fits (timeStampParser pid) P.bytes (after (188 * i) ds)) :=
  ⟨analysed_iff hsmall hflat, processed_iff hsmall hflat⟩

/-- A wanted packet with an access point. -/
def sequencePacket : TsPacket :=
  ⟨[0x47, 0x40, 0, 0x10, 0, 0, 1, 0xE0, 0, 0, 0x80, 0x80, 5, 0x21, 0, 1, 0, 1, 0, 0, 1, 0xB3] ++
    List.replicate 166 0, rfl, rfl⟩

/-- A wanted packet with none. -/
def plainPacket : TsPacket := ⟨[0x47, 0x40, 0, 0x10] ++ List.replicate 184 0, rfl, rfl⟩

set_option maxRecDepth 8000 in
/-- The second packet is cut in the middle. -/
theorem divisions_iff_cut :
    Analysed 0 [sequencePacket, plainPacket]
      [sequencePacket.bytes ++ plainPacket.bytes.take 100, plainPacket.bytes.drop 100] ∧
    Processed 0 [sequencePacket, plainPacket]
      [sequencePacket.bytes ++ plainPacket.bytes.take 100, plainPacket.bytes.drop 100] := by
  obtain ⟨hanalysed, hprocessed⟩ := divisions_iff 0 [sequencePacket, plainPacket]
    [sequencePacket.bytes ++ plainPacket.bytes.take 100, plainPacket.bytes.drop 100]
    (by decide) (by decide)
  constructor
  · apply hanalysed.mpr
    intro i P hP
    rcases i with _ | _ | i
    · obtain rfl := Option.some_inj.mp hP
      exact ⟨rfl, fun _ hcut => absurd hcut (by decide)⟩
    · obtain rfl := Option.some_inj.mp hP
      exact ⟨rfl, fun _ _ => rfl⟩
    · cases hP
  · apply hprocessed.mpr
    intro i P hP
    rcases i with _ | _ | i
    · obtain rfl := Option.some_inj.mp hP
      rfl
    · obtain rfl := Option.some_inj.mp hP
      rfl
    · cases hP

set_option maxRecDepth 4000 in
/-- A packet of another pid that is cut behind its first byte and its header; a packet with
an access point that is cut in the middle; a packet with nothing behind its adaptation field. -/
theorem divisions_differ :
    (¬ Analysed 1 [⟨0x47 :: List.replicate 187 0, rfl, rfl⟩]
        [[0x47], List.replicate 3 0, List.replicate 184 0] ∧
      ¬ Processed 1 [⟨0x47 :: List.replicate 187 0, rfl, rfl⟩]
        [[0x47], List.replicate 3 0, List.replicate 184 0]) ∧
    ¬ Analysed 0 [⟨[0x47, 0x40, 0, 0x10, 0, 0, 1, 0xE0, 0, 0, 0x80, 0x80, 5, 0x21, 0, 1, 0, 1,
          0, 0, 1, 0xB3] ++ List.replicate 166 0, rfl, rfl⟩]
      [[0x47, 0x40, 0, 0x10, 0, 0, 1, 0xE0, 0, 0, 0x80, 0x80, 5, 0x21, 0, 1, 0, 1, 0, 0, 1, 0xB3],
        List.replicate 166 0] ∧
    ¬ Analysed 0 [⟨[0x47, 0x40, 0, 0x30, 183] ++ List.replicate 183 0, rfl, rfl⟩]
      [[0x47, 0x40, 0, 0x30, 183] ++ List.replicate 183 0] ∧
    ¬ Processed 0 [⟨[0x47, 0x40, 0, 0x30, 183] ++ List.replicate 183 0, rfl, rfl⟩]
      [[0x47, 0x40, 0, 0x30, 183] ++ List.replicate 183 0] := by
  refine ⟨⟨?_, ?_⟩, ?_, ?_, ?_⟩
  · intro h
    have hfits := ((analysed_iff (by simp) (by rfl)).mp h 0 _ rfl).1
    exact hfits ⟨by decide, by decide⟩
  · intro h
    have hfits := (processed_iff (by simp) (by rfl)).mp h 0 _ rfl
    exact hfits ⟨by decide, by decide⟩
  · intro h
    have hkept := ((analysed_iff (by simp) (by rfl)).mp h 0 _ rfl).2 rfl (by decide)
    cases hkept
  · intro h
    have hfits := ((analysed_iff (by simp) (by rfl)).mp h 0 _ rfl).1
    cases hfits
  · intro h
    have hfits := (processed_iff (by simp) (by rfl)).mp h 0 _ rfl
    cases hfits

end Tuxbox.Enigma
