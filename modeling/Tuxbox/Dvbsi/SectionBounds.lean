import Tuxbox.Dvbsi.Sections

/-!
# What the section constructors read

The outer loops of a section stay before its checksum. What can leave the section
is the header of a section that is too short for one, and the descriptors of an
entry, whose lengths nothing compares with the bytes that are left.
-/

namespace Tuxbox.Dvbsi

open Parse

section
variable {m : Memory} {valid : Descriptor → Bool}

/-! ## Fields -/

/-- The value of `DVB_LENGTH`. -/
def lengthAt (m : Memory) (p : Nat) : Nat := ((m p).toNat * 256 + (m (p + 1)).toNat) % 4096

theorem dvbLength_apply (p : Nat) : dvbLength p m = (.ok (lengthAt m p), p + 2) := by
  have h := Nat.and_two_pow_sub_one_eq_mod ((m p).toNat * 256 + (m (p + 1)).toNat) 12
  simp only [dvbLength, bind_apply, r16_apply, pure_apply, lengthAt, Nat.max_zero, Prod.mk.injEq,
    Outcome.ok.injEq, and_true]
  exact h

theorem dvbPid_apply (p : Nat) :
    dvbPid p m = (.ok (BitVec.ofNat 13 ((m p).toNat * 256 + (m (p + 1)).toNat)), p + 2) := by
  simp [dvbPid, bind_apply, r16_apply, pure_apply]

theorem ifLonger_apply {α : Type} {p : Parse α} {a other : α} {k : Nat} (h : p m = (.ok a, k))
    (l n : Nat) :
      ifLonger l n p other m = (.ok (if n < l then a else other), if n < l then k else 0) := by
  unfold ifLonger
  split
  · rw [h]
  · rfl

/-- `sectionLength`. -/
def sectionLength (m : Memory) : Nat := lengthAt m 1

theorem longCrcSection_apply : ∃ s : LongCrcSection, s.sectionLength = sectionLength m ∧
    longCrcSection m = (.ok s, max 8 (sectionLength m + 3)) := by
  have hcrc : ∃ c, sectionCrc32 (sectionLength m) m =
      (.ok c, if sectionLength m = 0 then 0 else sectionLength m + 3) := by
    unfold sectionCrc32
    split
    · exact ⟨none, rfl⟩
    · have h32 := r32_apply (m := m) (sectionLength m - 1)
      refine ⟨some _, Prod.ext rfl ?_⟩
      simp only [bind_apply, h32, pure_apply]
      omega
  obtain ⟨c, hc⟩ := hcrc
  refine ⟨⟨m 0, (m 1 >>> 7) &&& 0x01, sectionLength m, (m 3).toNat * 256 + (m (3 + 1)).toNat,
    (m 5 >>> 1) &&& 0x1f, m 5 &&& 0x01, m 6, m 7, c⟩, rfl, ?_⟩
  simp only [longCrcSection, bind_apply, read_apply, dvbLength_apply, r16_apply, pure_apply]
  rw [show lengthAt m 1 = sectionLength m from rfl, hc]
  simp only [Prod.mk.injEq, true_and]
  split <;> omega

/-! ## The descriptors of an entry -/

/-- The bytes of the descriptor at `p`. -/
def descriptorBytes (m : Memory) (p : Nat) : Nat := 2 + (m (p + 1)).toNat

/-- The descriptors that the loop over an entry at `p` comes to end before `n`. -/
def DescriptorsFit (m : Memory) (p first length n : Nat) : Prop :=
  ∀ j, Starts (fun i => i + descriptorBytes m (p + i)) (length + first) first j →
    j < length + first → p + j + descriptorBytes m (p + j) ≤ n

theorem descriptorEntry_apply (p i : Nat) : ∃ b, descriptorEntry p i m =
    (.ok (b, i + descriptorBytes m (p + i)), p + i + descriptorBytes m (p + i)) := by
  obtain ⟨d, -, hd⟩ := descriptor_apply (m := m) (p + i)
  refine ⟨d, ?_⟩
  simp only [descriptorEntry, bind_apply, hd, read_apply, pure_apply, descriptorBytes, Prod.mk.injEq,
    Outcome.ok.injEq, true_and]
  omega

/-- Whatever the bytes are, the loop over the descriptors ends. -/
theorem descriptorLoop_succeeds (p first length : Nat) : ∃ k,
    Succeeds (descriptorLoop valid p first length) m k ∧
      ∀ n, k ≤ n ↔ DescriptorsFit m p first length n := by
  have hbody := @body_of_ok _ m _ (length + first) _ _ fun i _ => descriptorEntry_apply p i
  obtain ⟨bs, k, hl⟩ := @loop_terminates _ _ _ _ _ _ _ _ hbody (length + 1) first (by omega)
    fun j _ _ => ⟨id, by unfold descriptorBytes; omega⟩
  refine ⟨k, ⟨bs.filter valid, ?_⟩, fun n => (loop_ok hbody hl n).1⟩
  simp [descriptorLoop, bind_apply, hl, pure_apply]

/-! ## Entries -/

theorem elementaryStreamInfo_succeeds (p : Nat) : ∃ k,
    Succeeds (elementaryStreamInfo valid p) m k ∧
      ∀ n, k ≤ n ↔ p + 5 ≤ n ∧ DescriptorsFit m p 5 (lengthAt m (p + 3)) n := by
  obtain ⟨k, hk, hn⟩ := @descriptorLoop_succeeds m valid p 5 (lengthAt m (p + 3))
  obtain ⟨ds, hds⟩ := hk
  refine ⟨max (p + 5) k, ?_, fun n => ?_⟩
  · simp only [elementaryStreamInfo, succeeds_read, succeeds_bind (dvbPid_apply _),
      succeeds_bind (dvbLength_apply _), succeeds_bind hds, succeeds_pure, exists_eq_left]
    omega
  · rw [Nat.max_le, hn]

theorem r24_apply (p : Nat) : ∃ v, r24 p m = (.ok v, p + 3) := by
  refine ⟨_, Prod.ext rfl ?_⟩
  simp only [r24, bind_apply, read_apply, r16_apply, pure_apply]
  omega

theorem event_succeeds (p : Nat) : ∃ k, Succeeds (event valid p) m k ∧
    ∀ n, k ≤ n ↔ p + 12 ≤ n ∧ DescriptorsFit m p 12 (lengthAt m (p + 10)) n := by
  obtain ⟨k, hk, hn⟩ := @descriptorLoop_succeeds m valid p 12 (lengthAt m (p + 10))
  obtain ⟨ds, hds⟩ := hk
  obtain ⟨v4, h4⟩ := r24_apply (m := m) (p + 4)
  obtain ⟨v7, h7⟩ := r24_apply (m := m) (p + 7)
  refine ⟨max (p + 12) k, ?_, fun n => ?_⟩
  · simp only [event, succeeds_read, succeeds_r16, succeeds_bind h4, succeeds_bind h7,
      succeeds_bind (dvbLength_apply _), succeeds_bind hds, succeeds_pure, exists_eq_left]
    omega
  · rw [Nat.max_le, hn]

theorem transportStreamInfo_succeeds (p : Nat) : ∃ k,
    Succeeds (transportStreamInfo valid p) m k ∧
      ∀ n, k ≤ n ↔ p + 6 ≤ n ∧ DescriptorsFit m p 6 (lengthAt m (p + 4)) n := by
  obtain ⟨k, hk, hn⟩ := @descriptorLoop_succeeds m valid p 6 (lengthAt m (p + 4))
  obtain ⟨ds, hds⟩ := hk
  refine ⟨max (p + 6) k, ?_, fun n => ?_⟩
  · simp only [transportStreamInfo, succeeds_r16, succeeds_bind (dvbLength_apply _),
      succeeds_bind hds, succeeds_pure, exists_eq_left]
    omega
  · rw [Nat.max_le, hn]

/-- The entries with `header` bytes before their descriptors, the last two of them
their length, that the loop from `start` to `stop` takes. -/
def EntriesFit (m : Memory) (header start stop n : Nat) : Prop :=
  ∀ p, Chain (fun p => header + lengthAt m (p + (header - 2))) stop start p →
    p + (header + lengthAt m (p + (header - 2))) ≤ stop →
    DescriptorsFit m p header (lengthAt m (p + (header - 2))) n

/-- A loop over entries of a section stays inside exactly if their descriptors do. -/
theorem counted_entries {β : Type} {entry : Nat → Parse β} {loopLength : Nat → Parse Nat}
    {least header fuel pos left left2 n : Nat} (hleast : least < header)
      (hheader : header ≤ least + 2)
    (hlen : ∀ p, loopLength p m = (.ok (header + lengthAt m (p + (header - 2))), p + header))
    (hentry : ∀ p, ∃ k, Succeeds (entry p) m k ∧
      ∀ n, k ≤ n ↔ p + header ≤ n ∧ DescriptorsFit m p header (lengthAt m (p + (header - 2))) n)
    (hfuel : left2 < fuel) (hleft : left2 ≤ left) (hn : left2 = 0 ∨ pos + left2 + 1 ≤ n) :
    ∃ es rest k, counted least loopLength entry fuel pos left left2 m = (.ok (es, rest), k) ∧
      (k ≤ n ↔ EntriesFit m header pos (pos + left2) n) := by
  choose size hsize hbound using hentry
  rcases hn with rfl | hn
  · obtain ⟨fuel, rfl⟩ := Nat.exists_eq_add_one_of_ne_zero (Nat.ne_of_gt hfuel)
    refine ⟨[], _, 0, counted_zero fuel pos left, iff_of_true (Nat.zero_le n) ?_⟩
    intro p hp hend
    have := hp.le
    omega
  have hmore : ∀ p, least < header + lengthAt m (p + (header - 2)) := by
    intro p
    omega
  have hslack : header ≤ least + 1 + 1 := hheader
  obtain ⟨es, q, k, hc, -, -, -, hk⟩ := counted_spec hlen hsize hmore hslack hfuel hleft
  refine ⟨es, _, k, hc, ?_⟩
  rw [hk n hn]
  refine forall_congr' fun p => imp_congr_right fun _ => imp_congr_right fun hp => ?_
  rw [hbound]
  exact and_iff_right (by omega)

/-! ## The descriptors of the section itself -/

/-- The descriptors from `p` on end where their length says. -/
def InfoEnds (m : Memory) (p length left : Nat) : Prop :=
  length ≤ left ∧ Chain (descriptorBytes m) (p + length) p (p + length)

theorem counted_info (m : Memory) (pos left length : Nat) :
    ∃ ds rest k, counted 1 descriptorLoopLength descriptor (length + 1) pos left length m =
        (.ok (ds, rest), k) ∧ k ≤ (if left = 0 then 0 else pos + left) ∧
          (rest.left2 = 0 ↔ InfoEnds m pos length left) ∧
      (rest.left2 = 0 → rest = ⟨pos + length, left - length, 0⟩) := by
  rcases Nat.lt_or_ge left length with hlt | hle
  · refine ⟨[], ⟨pos, left, length⟩, 0, counted_none length hlt, Nat.zero_le _, ?_, ?_⟩
    · constructor
      · intro h
        have : length = 0 := h
        omega
      · intro h
        have := h.1
        omega
    · intro h
      have : length = 0 := h
      omega
  · have hlen : ∀ p, descriptorLoopLength p m = (.ok (descriptorBytes m p), p + 2) := by
      intro p
      simp [descriptorLoopLength, bind_apply, read_apply, pure_apply, descriptorBytes]
    have hdesc : ∀ p, Succeeds (descriptor p) m (p + descriptorBytes m p) := by
      intro p
      obtain ⟨d, -, hd⟩ := descriptor_apply (m := m) p
      exact ⟨d, by rw [hd, descriptorBytes, Nat.add_assoc]⟩
    have hmore : ∀ p, 1 < descriptorBytes m p := by
      intro p
      unfold descriptorBytes
      omega
    have hslack : 2 ≤ 1 + 1 + 0 := Nat.le_refl 2
    obtain ⟨ds, q, k, hc, hq, hchain, hlast, hk⟩ :=
      @counted_spec _ m _ _ _ 0 _ _ _ hlen hdesc hmore hslack (length + 1) pos left length
        (Nat.lt_succ_self length) hle
    have hpos := hchain.le
    have hend : q = pos + length ↔ Chain (descriptorBytes m) (pos + length) pos (pos + length) := by
      constructor
      · intro h
        rwa [h] at hchain
      · intro h
        refine hchain.last_unique h hlast ?_
        unfold descriptorBytes
        omega
    refine ⟨ds, _, k, hc, ?_, ?_, ?_⟩
    · split
      · obtain rfl : length = 0 := by omega
        rw [counted_zero] at hc
        have : 0 = k := (Prod.mk.inj hc).2
        omega
      · have := (hk (pos + length) (by omega)).mpr fun p _ hp => hp
        omega
    · simp only [InfoEnds, hle, true_and, ← hend]
      omega
    · intro h
      have h : length - (q - pos) = 0 := h
      have : q - pos = length := by omega
      have : q = pos + length := by omega
      simp only [Rest.mk.injEq]
      omega

/-! ## The sections -/

/-- The program information length, which a short section does not have. -/
def programInfoLength (m : Memory) : Nat := if 12 < sectionLength m then lengthAt m 10 else 0

def networkDescriptorsLength (m : Memory) : Nat := if 9 < sectionLength m then lengthAt m 8 else 0

/-- The section has a header, and the descriptors of the entries end inside it. -/
def SectionFits (t : Table) (m : Memory) : Prop :=
  5 ≤ sectionLength m ∧
    match t with
    | .programMap =>
      let l := programInfoLength m
      InfoEnds m 12 l (sectionLength m - 13) →
        EntriesFit m 5 (12 + l) (12 + (sectionLength m - 13)) (3 + sectionLength m)
    | .eventInformation =>
      EntriesFit m 12 14 (14 + (sectionLength m - 15)) (3 + sectionLength m)
    | .networkInformation =>
      let l := networkDescriptorsLength m
      InfoEnds m 10 l (sectionLength m - 11) → l + 2 ≤ sectionLength m - 11 →
        l + 2 + lengthAt m (10 + l) ≤ sectionLength m - 11 →
        EntriesFit m 6 (12 + l) (12 + l + lengthAt m (10 + l)) (3 + sectionLength m)

theorem esInfoLoop_within_iff {rest : Rest} {n : Nat}
    (hn : rest.left = 0 ∨ rest.pos + rest.left + 1 ≤ n) : Within (esInfoLoop valid rest) m n ↔
      (rest.left2 = 0 → EntriesFit m 5 rest.pos (rest.pos + rest.left) n) := by
  unfold esInfoLoop
  split
  · rename_i h0
    have hlen : ∀ p, esLoopLength p m = (.ok (5 + lengthAt m (p + (5 - 2))), p + 5) := by
      intro p
      simp [esLoopLength, bind_apply, dvbLength_apply, pure_apply]
    have hleast : 4 < 5 := by decide
    obtain ⟨es, r, k, hc, hk⟩ := counted_entries hleast (by decide) hlen
      (fun p => @elementaryStreamInfo_succeeds _ valid p)
      (Nat.lt_succ_self rest.left) (Nat.le_refl _) hn
    rw [within_bind hc, hk]
    simp [h0, within_pure]
  · rename_i h0
    simp [h0, within_pure]

/-- The counter of a loop that starts at `n` and leaves out what is not entries. -/
theorem bytesLeft_eq (l n : Nat) : (if n < l then l - n else 0) = l - n := by
  split <;> omega

theorem programMap_within_iff : Within (programMapSection valid) m (3 + sectionLength m) ↔
    SectionFits .programMap m := by
  obtain ⟨s, hs, hsec⟩ := longCrcSection_apply (m := m)
  obtain ⟨ds, rest, k, hc, hk, h0, hrest⟩ :=
    counted_info m 12 (sectionLength m - 13) (programInfoLength m)
  have hpil : ifLonger s.sectionLength 12 (dvbLength 10) 0 m =
      (.ok (programInfoLength m), if 12 < sectionLength m then 12 else 0) := by
    rw [ifLonger_apply (dvbLength_apply 10), hs]
    rfl
  have hfields : (if 10 < s.sectionLength then 8 + 2 else 0) ≤ 3 + sectionLength m ∧
      (if 12 < sectionLength m then 12 else 0) ≤ 3 + sectionLength m ∧ k ≤ 3 + sectionLength m := by
    rw [hs]
    split_ifs at hk ⊢ <;> omega
  unfold programMapSection
  rw [within_bind hsec, within_bind (ifLonger_apply (dvbPid_apply 8) _ _), within_bind hpil]
  simp only [hs, bytesLeft_eq] at hfields ⊢
  rw [within_bind hc]
  simp only [within_map, SectionFits, hfields, true_and]
  apply and_congr (by omega)
  by_cases hz : rest.left2 = 0
  · rw [esInfoLoop_within_iff, imp_iff_right hz, imp_iff_right (h0.mp hz), hrest hz]
    · have hl := (h0.mp hz).1
      have hstop : 12 + programInfoLength m + (sectionLength m - 13 - programInfoLength m) =
          12 + (sectionLength m - 13) := by omega
      simp only [hstop]
    · rw [hrest hz]
      have hl := (h0.mp hz).1
      simp only
      omega
  · have hno : ¬ InfoEnds m 12 (programInfoLength m) (sectionLength m - 13) := fun h => hz (h0.mpr h)
    simp [esInfoLoop, hz, hno, within_pure]

theorem eventInformation_within_iff : Within (eventInformationSection valid) m (3 + sectionLength m) ↔
    SectionFits .eventInformation m := by
  obtain ⟨s, hs, hsec⟩ := longCrcSection_apply (m := m)
  have hlen : ∀ p, eventLoopLength p m = (.ok (12 + lengthAt m (p + (12 - 2))), p + 12) := by
    intro p
    simp [eventLoopLength, bind_apply, dvbLength_apply, pure_apply]
  have hleast : 11 < 12 := by decide
  have hroom : sectionLength m - 15 = 0 ∨ 14 + (sectionLength m - 15) + 1 ≤ 3 + sectionLength m := by
    omega
  obtain ⟨es, r, k, hc, hk⟩ := counted_entries hleast (by decide) hlen
    (fun p => @event_succeeds _ valid p) (Nat.lt_succ_self (sectionLength m - 15))
    (Nat.le_refl _) hroom
  have hfields : (if 10 < sectionLength m then 8 + 2 else 0) ≤ 3 + sectionLength m ∧
      (if 12 < sectionLength m then 10 + 2 else 0) ≤ 3 + sectionLength m ∧
      (if 13 < sectionLength m then 12 + 1 else 0) ≤ 3 + sectionLength m ∧
      (if 14 < sectionLength m then 13 + 1 else 0) ≤ 3 + sectionLength m := by
    split_ifs <;> omega
  unfold eventInformationSection
  rw [within_bind hsec, within_bind (ifLonger_apply (r16_apply 8) _ _),
    within_bind (ifLonger_apply (r16_apply 10) _ _), within_bind (ifLonger_apply (read_apply 12) _ _),
    within_bind (ifLonger_apply (read_apply 13) _ _)]
  simp only [hs, bytesLeft_eq, hfields, true_and]
  rw [within_bind hc, hk]
  simp only [SectionFits, within_pure, and_true]
  apply and_congr (by omega) Iff.rfl

theorem tsInfoLoop_within_iff {rest : Rest} {n : Nat}
    (hn : 1 < rest.left → rest.pos + rest.left + 1 ≤ n) : Within (tsInfoLoop valid rest) m n ↔
      (rest.left2 = 0 → 2 ≤ rest.left → 2 + lengthAt m rest.pos ≤ rest.left →
        EntriesFit m 6 (rest.pos + 2) (rest.pos + 2 + lengthAt m rest.pos) n) := by
  unfold tsInfoLoop
  split
  · rename_i h
    obtain ⟨h0, h1⟩ := h
    have h2 : 2 ≤ rest.left := h1
    have hn := hn h1
    rw [within_bind (dvbLength_apply rest.pos), within_bind (subtract_ok h2)]
    have hroom : rest.pos + 2 ≤ n := by omega
    simp only [hroom, Nat.zero_le, true_and, imp_iff_right h0, imp_iff_right h2]
    rcases Nat.lt_or_ge (rest.left - 2) (lengthAt m rest.pos) with hlt | hle
    · rw [within_bind (counted_none _ hlt)]
      refine iff_of_true ⟨Nat.zero_le n, within_pure _⟩ fun h => ?_
      omega
    · have hlen : ∀ p, transportStreamLoopLength p m =
          (.ok (6 + lengthAt m (p + (6 - 2))), p + 6) := by
        intro p
        simp [transportStreamLoopLength, bind_apply, dvbLength_apply, pure_apply]
      have hleast : 4 < 6 := by decide
      obtain ⟨es, r, k, hc, hk⟩ := counted_entries hleast (by decide) hlen
        (fun p => @transportStreamInfo_succeeds _ valid p)
        (Nat.lt_succ_self (lengthAt m rest.pos)) hle
        (Or.inr (by omega) : _ ∨ rest.pos + 2 + lengthAt m rest.pos + 1 ≤ n)
      rw [within_bind hc, hk, imp_iff_right (by omega)]
      simp [within_pure]
  · rename_i h
    refine iff_of_true (within_pure _) fun h0 h2 => ?_
    exact absurd ⟨h0, h2⟩ h

theorem networkInformation_within_iff :
    Within (networkInformationSection valid) m (3 + sectionLength m) ↔
      SectionFits .networkInformation m := by
  obtain ⟨s, hs, hsec⟩ := longCrcSection_apply (m := m)
  obtain ⟨ds, rest, k, hc, hk, h0, hrest⟩ :=
    counted_info m 10 (sectionLength m - 11) (networkDescriptorsLength m)
  have hndl : ifLonger s.sectionLength 9 (dvbLength 8) 0 m =
      (.ok (networkDescriptorsLength m), if 9 < sectionLength m then 10 else 0) := by
    rw [ifLonger_apply (dvbLength_apply 8), hs]
    rfl
  have hfields : (if 9 < sectionLength m then 10 else 0) ≤ 3 + sectionLength m ∧
      k ≤ 3 + sectionLength m := by
    split_ifs at hk ⊢ <;> omega
  unfold networkInformationSection
  rw [within_bind hsec, within_bind hndl]
  simp only [hs, bytesLeft_eq]
  rw [within_bind hc]
  simp only [within_map, SectionFits, hfields, true_and]
  apply and_congr (by omega)
  by_cases hz : rest.left2 = 0
  · have hinfo := h0.mp hz
    rw [tsInfoLoop_within_iff, imp_iff_right hz, imp_iff_right hinfo, hrest hz]
    · have hl := hinfo.1
      have hpos : 10 + networkDescriptorsLength m + 2 = 12 + networkDescriptorsLength m := by omega
      simp only [hpos]
      apply imp_congr (by omega)
      apply imp_congr (by omega) Iff.rfl
    · rw [hrest hz]
      have hl := hinfo.1
      simp only
      omega
  · have hno : ¬ InfoEnds m 10 (networkDescriptorsLength m) (sectionLength m - 11) :=
      fun h => hz (h0.mpr h)
    simp [tsInfoLoop, hz, hno, within_pure]

/-- A section constructor ends, without a counter that wraps, and stays inside the
section exactly where the section fits. -/
theorem section_within_iff (t : Table) :
    Within (constructSection valid t) m (3 + sectionLength m) ↔ SectionFits t m := by
  cases t with
  | programMap => exact within_map.trans programMap_within_iff
  | eventInformation => exact within_map.trans eventInformation_within_iff
  | networkInformation => exact within_map.trans networkInformation_within_iff

end

end Tuxbox.Dvbsi
