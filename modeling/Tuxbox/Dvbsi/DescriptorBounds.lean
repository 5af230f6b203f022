import Tuxbox.Dvbsi.Descriptors

/-!
# What the descriptor constructors read

A constructor with a loop over entries trusts the lengths inside its entries.
-/

namespace Tuxbox.Dvbsi

open Parse

section
variable {m : Memory}

/-- A length rounded up to whole elements. -/
def roundUp (length size : Nat) : Nat := (length + (size - 1)) / size * size

theorem each_steps {β : Type} {f : Nat → Parse β} {b : Nat → β} {base size : Nat}
    (hf : ∀ x, f x m = (.ok (b x), base + x + size)) (length : Nat) :
    each f (steps length size) m =
      (.ok ((steps length size).map b),
        if (length + (size - 1)) / size = 0 then 0 else base + roundUp length size) := by
  rw [steps, each_stride hf, roundUp, Nat.add_zero]

/-! ## Entries -/

/-- The bytes of an entry of a content identifier, by its location. -/
def cridLength (m : Memory) (p : Nat) : Nat :=
  if m p &&& 0x03 = 0 then (m (p + 1)).toNat + 2 else if m p &&& 0x03 = 1 then 3 else 0

/-- How far its constructor reads. For a reference it skips a byte too many. -/
def cridReads (m : Memory) (p : Nat) : Nat :=
  if m p &&& 0x03 = 0 then (m (p + 1)).toNat + 2 else if m p &&& 0x03 = 1 then 4 else 1

theorem contentReferenceIdentifier_apply (p : Nat) : ∃ crid,
    contentReferenceIdentifier p m = (.ok crid, p + cridReads m p) ∧
      crid.location = m p &&& 0x03 ∧
      (crid.location = 0 → crid.length = some (m (p + 1)).toNat) := by
  unfold contentReferenceIdentifier cridReads
  by_cases h0 : m p &&& 0x03 = 0
  · refine ⟨⟨(m p >>> 2) &&& 0x3f, m p &&& 0x03, some (m (p + 1)).toNat, [], some 0⟩, ?_, rfl,
      fun _ => rfl⟩
    simp only [bind_apply, read_apply, bytes_apply, pure_apply, h0, if_true, Prod.mk.injEq, true_and]
    split <;> omega
  · by_cases h1 : m p &&& 0x03 = 1
    · refine ⟨⟨(m p >>> 2) &&& 0x3f, m p &&& 0x03, some 0, [],
        some ((m (p + 2)).toNat * 256 + (m (p + 2 + 1)).toNat)⟩, ?_, rfl, fun h => absurd h h0⟩
      simp [bind_apply, read_apply, r16_apply, pure_apply, h1]
    · refine ⟨⟨(m p >>> 2) &&& 0x3f, m p &&& 0x03, none, [], none⟩, ?_, rfl, fun h => absurd h h0⟩
      simp [bind_apply, read_apply, pure_apply, h0, h1]

/-- The bytes behind a cell's linkage information. -/
def cellLength (m : Memory) (p : Nat) : Nat :=
  (m (p + 2)).toNat + 4 + linkageLength (m (p + (m (p + 2)).toNat + 3))

theorem mosaicCell_succeeds (p : Nat) : Succeeds (mosaicCell p) m (p + cellLength m p) := by
  have hf := @each_steps m _ (fun i => elementaryCellField (p + 3 + i))
    (fun i => m (p + 3 + i) &&& 0x3f) (p + 3) 1
    (fun x => by simp [elementaryCellField, bind_apply, read_apply, pure_apply]) (m (p + 2)).toNat
  unfold mosaicCell cellLength linkageLength
  simp only [succeeds_read, succeeds_bind hf, roundUp]
  generalize m (p + (m (p + 2)).toNat + 3) = info
  have he (q : Nat) : (do let e ← r16 q; pure (some e) : Parse (Option Nat)) m = (.ok
      (some ((m q).toNat * 256 + (m (q + 1)).toNat)), q + 2) := by
    simp [bind_apply, r16_apply, pure_apply]
  by_cases h1 : info = 0x01
  · simp only [if_pos h1, succeeds_r16, succeeds_pure, exists_eq_left]
    split <;> omega
  · by_cases h4 : info = 0x04
    · have h23 : ¬ (info = 0x02 ∨ info = 0x03) := by
        rw [h4]
        decide
      have h234 : info = 0x02 ∨ info = 0x03 ∨ info = 0x04 := Or.inr (Or.inr h4)
      simp only [if_neg h1, if_pos h4, if_neg h23, if_pos h234, succeeds_r16, succeeds_pure,
        succeeds_bind (he _), exists_eq_left]
      split <;> omega
    · by_cases h23 : info = 0x02 ∨ info = 0x03
      · have h234 : info = 0x02 ∨ info = 0x03 ∨ info = 0x04 := h23.imp_right Or.inl
        simp only [if_neg h1, if_neg h4, if_pos h23, if_pos h234, succeeds_r16, succeeds_pure,
          succeeds_bind (pure_apply _), exists_eq_left]
        split <;> omega
      · have h234 : ¬ (info = 0x02 ∨ info = 0x03 ∨ info = 0x04) := by
          rintro (h | h | h)
          · exact h23 (Or.inl h)
          · exact h23 (Or.inr h)
          · exact h4 h
        simp only [if_neg h1, if_neg h4, if_neg h23, if_neg h234, succeeds_pure, exists_eq_left]
        split <;> omega

theorem cellFrequencyLink_succeeds (p : Nat) :
    Succeeds (cellFrequencyLink p) m (p + 7 + roundUp (m (p + 6)).toNat 5) := by
  obtain ⟨b, hb⟩ : ∃ b : Nat → SubcellInfo, ∀ x,
      subcellInfo (p + 7 + x) m = (.ok (b x), p + 7 + x + 5) :=
    ⟨_, fun x => by
      simp only [subcellInfo, bind_apply, read_apply, r32_apply, pure_apply, Prod.mk.injEq]
      exact ⟨rfl, by omega⟩⟩
  have hf := each_steps hb (m (p + 6)).toNat
  have h32 := r32_apply (m := m) (p + 2)
  simp only [cellFrequencyLink, succeeds_read, succeeds_r16, succeeds_bind h32, succeeds_bind hf,
    succeeds_pure, exists_eq_left, roundUp]
  split <;> omega

theorem cell_succeeds (p : Nat) : Succeeds (cell p) m (p + 10 + roundUp (m (p + 9)).toNat 8) := by
  obtain ⟨b, hb⟩ : ∃ b : Nat → Subcell, ∀ x, subcell (p + 10 + x) m = (.ok (b x), p + 10 + x + 8) :=
    ⟨_, fun x => by
      simp only [subcell, bind_apply, read_apply, r16_apply, pure_apply, Prod.mk.injEq]
      exact ⟨rfl, by omega⟩⟩
  have hf := each_steps hb (m (p + 9)).toNat
  simp only [cell, succeeds_read, succeeds_r16, succeeds_bind hf, succeeds_pure, exists_eq_left,
    roundUp]
  split <;> omega

/-- The bytes a data service has lines in. -/
def vbiLines (m : Memory) (p : Nat) : Nat :=
  if hasVbiDataLines (m p) then (m (p + 1)).toNat else 0

theorem vbiDataService_succeeds (p : Nat) :
    Succeeds (vbiDataService p) m (p + 2 + vbiLines m p) := by
  have hf := @each_steps m _ (fun i => vbiDataLine (p + 2 + i))
    (fun i => ⟨(m (p + 2 + i) >>> 5) &&& 0x01, m (p + 2 + i) &&& 0x1f⟩) (p + 2) 1
    (fun x => by simp [vbiDataLine, bind_apply, read_apply, pure_apply]) (m (p + 1)).toNat
  simp only [vbiDataService, succeeds_read, vbiLines]
  split
  · simp only [succeeds_bind hf, succeeds_pure, exists_eq_left, roundUp]
    split <;> omega
  · simp only [succeeds_pure, exists_eq_left]
    omega

/-- The bytes of an item, both texts and their lengths. -/
def itemBytes (m : Memory) (p : Nat) : Nat :=
  (m p).toNat + (m (p + (m p).toNat + 1)).toNat + 2

theorem extendedEvent_apply (p : Nat) : ∃ e, extendedEvent p m = (.ok e, p + itemBytes m p) ∧
    e.itemDescriptionLength.toNat + e.itemLength.toNat + 2 = itemBytes m p := by
  refine ⟨⟨m p, m.slice (p + 1) (m p).toNat, m (p + (m p).toNat + 1),
    m.slice (p + (m p).toNat + 2) (m (p + (m p).toNat + 1)).toNat⟩, ?_, rfl⟩
  simp only [extendedEvent, bind_apply, read_apply, bytes_apply, pure_apply, itemBytes,
    Prod.mk.injEq, true_and]
  split <;> split <;> omega

theorem url_apply (p : Nat) :
    url p m = (.ok ⟨m p, List.replicate (m (p + 1)).toNat (m p)⟩, p + 2) := by
  simp [url, bind_apply, read_apply, pure_apply]

theorem ocTransport_succeeds (p : Nat) : Succeeds (ocTransport p) m (p + 8) := by
  simp only [ocTransport, succeeds_read, succeeds_r16, succeeds_pure, exists_eq_left]
  omega

/-! ## When the entries fit -/

/-- The length byte. -/
def payload (m : Memory) : Nat := (m 1).toNat

/-- Every entry that a loop over `stop` bytes comes to. -/
def EveryEntry (next : Nat → Nat) (stop : Nat) (fits : Nat → Prop) : Prop :=
  ∀ j, Starts next stop 0 j → j < stop → fits j

/-- The protocol id of a transport protocol descriptor. -/
def protocolId (m : Memory) : Nat := (m 2).toNat * 256 + (m 3).toNat

/-- The entries of a descriptor lie inside it. `j` is where an entry starts in the
bytes its loop goes over. -/
def Fits (k : Kind) (m : Memory) : Prop :=
  match k with
  | .contentIdentifier =>
    EveryEntry (fun j => j + cridLength m (2 + j)) (payload m) fun j =>
      j + cridReads m (2 + j) ≤ payload m ∧ (m (2 + j) &&& 0x03 = 0 ∨ m (2 + j) &&& 0x03 = 1)
  | .mosaic =>
    1 ≤ payload m ∧ EveryEntry (fun j => j + cellLength m (j + 3)) (payload m - 1) fun j =>
      j + cellLength m (j + 3) ≤ payload m - 1
  | .cellFrequencyLink =>
    -- an entry is too long for the check, or all of them can be read
    (¬ EveryEntry (fun j => j + ((m (j + 10)).toNat + 6)) (payload m) fun j =>
      j + (m (j + 10)).toNat + 6 ≤ payload m) ∨
    EveryEntry (fun j => j + ((m (j + 10)).toNat + 6)) (payload m) fun j =>
      j + 9 ≤ payload m ∧ j + 7 + roundUp (m (j + 8)).toNat 5 ≤ payload m
  | .cellList =>
    EveryEntry (fun j => j + ((m (j + 11)).toNat + 10)) (payload m) fun j =>
      j + 10 + roundUp (m (j + 11)).toNat 8 ≤ payload m
  | .vbiData =>
    EveryEntry (fun j => j + ((m (j + 3)).toNat + 2)) (payload m) fun j =>
      j + 2 + vbiLines m (j + 2) ≤ payload m
  | .extendedEvent =>
    -- the checks of the three lengths do not look at the items
    6 + (m 6).toNat + (m ((m 6).toNat + 7)).toNat ≤ payload m →
      EveryEntry (fun j => j + itemBytes m (j + 7)) (m 6).toNat fun j =>
        j + 5 + itemBytes m (j + 7) ≤ payload m
  | .serviceAvailability => True
  | .linkage => True
  | .transportProtocol =>
    5 ≤ payload m →
      (protocolId m = 2 → 11 ≤ payload m ∧
        EveryEntry (fun j => j + ((m (j + 13)).toNat + 1)) (payload m - 5) fun j =>
          j + 13 ≤ payload m) ∧
      (protocolId m = 3 → (m 5).toNat + 1 ≤ payload m - 5)

/-! ## One constructor at a time -/

theorem base_apply (m : Memory) :
    ∃ d : Descriptor, d.getLength = payload m ∧ descriptor 0 m = (.ok d, 2 + payload m) := by
  obtain ⟨d, hd, h⟩ := descriptor_apply (m := m) 0
  exact ⟨d, hd, by simpa [payload] using h⟩

theorem payload_lt (m : Memory) : payload m < 256 := (m 1).toNat_lt

theorem contentIdentifier_iff : Bounded (construct .contentIdentifier) m (2 + payload m) ↔
    Fits .contentIdentifier m := by
  obtain ⟨d, hd, hap⟩ := base_apply m
  have hbody : ∀ i, i < payload m → ∃ b, contentIdentifierEntry i m =
      (.ok (b, i + cridLength m (2 + i)), 2 + i + cridReads m (2 + i)) := by
    intro i _
    obtain ⟨crid, hc, hloc, hlen⟩ := contentReferenceIdentifier_apply (m := m) (2 + i)
    refine ⟨crid, ?_⟩
    simp only [contentIdentifierEntry, bind_apply, hc, pure_apply, Nat.max_zero, Prod.mk.injEq,
      Outcome.ok.injEq, and_true, true_and]
    rw [cridLength, ← hloc]
    split
    · rename_i h0
      simp [hlen h0]
    · split <;> rfl
  refine (bounded_map (f := fun _ => ())).trans ?_
  unfold contentIdentifierDescriptor
  rw [bounded_bind hap (Nat.le_refl _), hd, bounded_entries_iff hbody (by omega)]
  unfold Fits EveryEntry
  refine forall_congr' fun j => imp_congr_right fun _ => imp_congr_right fun _ => ?_
  refine and_congr (by omega) ?_
  unfold cridLength
  split
  · rename_i h0
    simp [h0]
  · split
    · rename_i h1
      simp [h1]
    · rename_i h0 h1
      simp [h0, h1]

theorem mosaic_iff : Bounded (construct .mosaic) m (2 + payload m) ↔ Fits .mosaic m := by
  obtain ⟨d, hd, hap⟩ := base_apply m
  have hbody : ∀ stop, ∀ i, i < stop → ∃ b, mosaicEntry i m =
      (.ok (b, (i + cellLength m (i + 3)) % 2 ^ 32), i + 3 + cellLength m (i + 3)) := by
    intro stop i _
    obtain ⟨c, hc⟩ := mosaicCell_succeeds (m := m) (i + 3)
    refine ⟨c, ?_⟩
    have h5 : i + 5 = i + 3 + 2 := rfl
    have h6 : i + 3 + 2 + (m (i + 3 + 2)).toNat + 1 = i + 3 + (m (i + 3 + 2)).toNat + 3 := by omega
    simp only [mosaicEntry, bind_apply, hc, h5, read_apply, h6, pure_apply, Prod.mk.injEq, true_and,
      cellLength]
    omega
  have hcell : ∀ p, cellLength m p < 512 := by
    intro p
    have := (m (p + 2)).toNat_lt
    unfold cellLength linkageLength
    split_ifs <;> omega
  have hpos : ∀ p, 0 < cellLength m p := by
    intro p
    unfold cellLength
    omega
  have hlt := payload_lt m
  refine (bounded_map (f := fun _ => ())).trans ?_
  unfold mosaicDescriptor
  rw [bounded_bind hap (Nat.le_refl _), hd]
  rcases Nat.eq_zero_or_pos (payload m) with h0 | h1
  · have hno : ¬ Fits .mosaic m := by
      rintro ⟨h, -⟩
      omega
    refine iff_of_false (not_bounded_bind (read_apply 2) (by omega) fun fuel => ?_) hno
    exact map_not_invalid (loop_not_invalid (hbody (sizeSub (payload m) 1)) fuel 0)
  · have hsub : sizeSub (payload m) 1 = payload m - 1 := by
      rw [sizeSub, if_pos (show 1 ≤ payload m from h1)]
    have hbody' : ∀ i, i < payload m - 1 → ∃ b, mosaicEntry i m =
        (.ok (b, i + cellLength m (i + 3)), i + 3 + cellLength m (i + 3)) := by
      intro i hi
      have hc := hcell (i + 3)
      have hb := hbody (payload m - 1) i hi
      rwa [Nat.mod_eq_of_lt (by omega)] at hb
    rw [bounded_bind (read_apply 2) (by omega), bounded_map, hsub,
      bounded_entries_iff hbody' (by omega)]
    unfold Fits EveryEntry
    refine ⟨fun h => ⟨h1, fun j hj hjs => ?_⟩, fun h j hj hjs => ?_⟩
    · have := (h j hj hjs).1
      omega
    · have := h.2 j hj hjs
      have := hpos (j + 3)
      omega

theorem cellFrequencyLink_iff : Bounded (construct .cellFrequencyLink) m (2 + payload m) ↔
    Fits .cellFrequencyLink m := by
  obtain ⟨d, hd, hap⟩ := base_apply m
  have hbody : Body (cellFrequencyLinkEntry (payload m)) m (payload m)
      (fun j => ¬ j + (m (j + 10)).toNat + 6 ≤ payload m)
      (fun j => j + ((m (j + 10)).toNat + 6))
      (fun j => if j + (m (j + 10)).toNat + 6 ≤ payload m then
        max (j + 11) (j + 9 + roundUp (m (j + 8)).toNat 5) else j + 11) := by
    intro i _
    obtain ⟨link, hlink⟩ := cellFrequencyLink_succeeds (m := m) (i + 2)
    by_cases hc : i + (m (i + 10)).toNat + 6 ≤ payload m
    · simp only [hc, not_true_eq_false, if_false, if_true]
      refine ⟨link, ?_⟩
      have h8 : i + 2 + 6 = i + 8 := rfl
      simp only [cellFrequencyLinkEntry, bind_apply, read_apply, require_apply, hc, if_true, hlink,
        pure_apply, h8, Prod.mk.injEq, true_and]
      omega
    · simp [cellFrequencyLinkEntry, bind_apply, read_apply, require_apply, hc]
  refine (bounded_map (f := fun _ => ())).trans ?_
  unfold cellFrequencyLinkDescriptor
  rw [bounded_bind hap (Nat.le_refl _), hd, bounded_loop_iff hbody (by omega)]
  unfold Fits EveryEntry
  by_cases hbad : ∃ j, Starts (fun j => j + ((m (j + 10)).toNat + 6)) (payload m) 0 j ∧
      j < payload m ∧ ¬ j + (m (j + 10)).toNat + 6 ≤ payload m
  · refine iff_of_true (Or.inl hbad) (Or.inl fun hall => ?_)
    obtain ⟨j, hj, hjs, hb⟩ := hbad
    exact hb (hall j hj hjs)
  · have hgood : ∀ j, Starts (fun j => j + ((m (j + 10)).toNat + 6)) (payload m) 0 j →
        j < payload m → j + (m (j + 10)).toNat + 6 ≤ payload m := by
      intro j hj hjs
      by_contra hb
      exact hbad ⟨j, hj, hjs, hb⟩
    rw [or_iff_right hbad, or_iff_right (not_not_intro hgood)]
    refine forall_congr' fun j => imp_congr_right fun hj => imp_congr_right fun hjs => ?_
    simp only [hgood j hj hjs, if_true]
    omega

theorem cellList_iff : Bounded (construct .cellList) m (2 + payload m) ↔ Fits .cellList m := by
  obtain ⟨d, hd, hap⟩ := base_apply m
  have hbody : ∀ i, i < payload m → ∃ b, cellListEntry i m =
      (.ok (b, i + ((m (i + 11)).toNat + 10)), i + 12 + roundUp (m (i + 11)).toNat 8) := by
    intro i _
    obtain ⟨c, hc⟩ := cell_succeeds (m := m) (i + 2)
    refine ⟨c, ?_⟩
    have h9 : i + 2 + 9 = i + 11 := rfl
    simp only [cellListEntry, bind_apply, hc, read_apply, pure_apply, h9, Prod.mk.injEq, true_and]
    omega
  refine (bounded_map (f := fun _ => ())).trans ?_
  unfold cellListDescriptor
  rw [bounded_bind hap (Nat.le_refl _), hd, bounded_entries_iff hbody (by omega)]
  unfold Fits EveryEntry
  refine forall_congr' fun j => imp_congr_right fun _ => imp_congr_right fun _ => ?_
  omega

theorem vbiData_iff : Bounded (construct .vbiData) m (2 + payload m) ↔ Fits .vbiData m := by
  obtain ⟨d, hd, hap⟩ := base_apply m
  have hbody : ∀ i, i < payload m → ∃ b, vbiDataEntry i m =
      (.ok (b, i + ((m (i + 3)).toNat + 2)), i + 4 + vbiLines m (i + 2)) := by
    intro i _
    obtain ⟨s, hs⟩ := vbiDataService_succeeds (m := m) (i + 2)
    refine ⟨s, ?_⟩
    simp only [vbiDataEntry, bind_apply, hs, read_apply, pure_apply, Prod.mk.injEq, true_and]
    omega
  refine (bounded_map (f := fun _ => ())).trans ?_
  unfold vbiDataDescriptor
  rw [bounded_bind hap (Nat.le_refl _), hd, bounded_entries_iff hbody (by omega)]
  unfold Fits EveryEntry
  refine forall_congr' fun j => imp_congr_right fun _ => imp_congr_right fun _ => ?_
  omega

theorem serviceAvailability_bounded : Bounded (construct .serviceAvailability) m (2 + payload m) := by
  obtain ⟨d, hd, hap⟩ := base_apply m
  have hbody : Body (cellIdEntry (payload m)) m (payload m - 1)
      (fun j => ¬ j + 3 ≤ payload m) (fun j => j + 2)
      (fun j => if j + 3 ≤ payload m then j + 5 else 0) := by
    intro i _
    by_cases hc : i + 3 ≤ payload m
    · simp [cellIdEntry, bind_apply, r16_apply, require_apply, hc, pure_apply]
    · simp [cellIdEntry, bind_apply, require_apply, hc]
  refine (bounded_map (f := fun _ => ())).mpr ?_
  unfold serviceAvailabilityDescriptor
  rw [bounded_bind hap (Nat.le_refl _), hd, bounded_require]
  intro h1
  have hsub : sizeSub (payload m) 1 = payload m - 1 := by rw [sizeSub, if_pos h1]
  rw [bounded_bind (read_apply 2) (by omega), bounded_map, hsub, bounded_loop_iff hbody (by omega)]
  by_cases hbad : ∃ j, Starts (fun j => j + 2) (payload m - 1) 0 j ∧ j < payload m - 1 ∧
      ¬ j + 3 ≤ payload m
  · exact Or.inl hbad
  · right
    intro j hj hjs
    have hc : j + 3 ≤ payload m := by
      by_contra hc
      exact hbad ⟨j, hj, hjs, hc⟩
    simp only [hc, if_true]
    omega

theorem extendedEvent_iff : Bounded (construct .extendedEvent) m (2 + payload m) ↔
    Fits .extendedEvent m := by
  obtain ⟨d, hd, hap⟩ := base_apply m
  have hbody : ∀ i, i < (m 6).toNat → ∃ b, extendedEventEntry i m =
      (.ok (b, i + itemBytes m (i + 7)), i + 7 + itemBytes m (i + 7)) := by
    intro i _
    obtain ⟨e, he, hlen⟩ := extendedEvent_apply (m := m) (i + 7)
    refine ⟨e, ?_⟩
    simp only [extendedEventEntry, bind_apply, he, pure_apply, hlen, Nat.max_zero]
  have hpos : ∀ p, 0 < itemBytes m p := by
    intro p
    unfold itemBytes
    omega
  refine (bounded_map (f := fun _ => ())).trans ?_
  unfold extendedEventDescriptor
  rw [bounded_bind hap (Nat.le_refl _), hd, bounded_require]
  simp only [Fits]
  by_cases h6 : 6 ≤ payload m
  · rw [imp_iff_right h6, bounded_bind (read_apply 2) (by omega),
      bounded_bind (bytes_apply 3 3) (by simp; omega), bounded_bind (read_apply 6) (by omega),
      bounded_require]
    by_cases hitems : 6 + (m 6).toNat ≤ payload m
    · rw [imp_iff_right hitems]
      by_cases htext : 6 + (m 6).toNat + (m ((m 6).toNat + 7)).toNat ≤ payload m
      · rw [imp_iff_right htext, bounded_bind_ok, bounded_entries_iff hbody (by omega)]
        · unfold EveryEntry
          refine forall_congr' fun j => imp_congr_right fun _ => imp_congr_right fun _ => ?_
          have := hpos (j + 7)
          omega
        · intro items
          simp only [succeeds_read, succeeds_bind (require_ok htext), succeeds_bytes, succeeds_pure,
            exists_eq_left]
          refine ⟨_, ?_, rfl⟩
          split <;> omega
      · refine iff_of_true (bounded_bind_invalid ?_ fun items => ?_) fun h => absurd h htext
        · obtain ⟨bs, k, hl⟩ := loop_terminates (body_of_ok hbody)
            (Nat.lt_succ_self ((m 6).toNat - 0)) fun j _ _ => ⟨id, by
              have := hpos (j + 7)
              omega⟩
          exact ⟨_, bs, k, hl⟩
        · exact ⟨(m 6).toNat + 7 + 1, by simp [bind_apply, read_apply, require_apply, htext]⟩
    · refine iff_of_true (fun h => absurd h hitems) fun h => ?_
      omega
  · refine iff_of_true (fun h => absurd h h6) fun h => ?_
    omega

theorem handOverNetwork_cases {n : Nat} (h8 : 8 ≤ n) (t : Byte) :
    handOverNetwork n t m = (.invalid, 0) ∨
      ∃ a k, k ≤ 2 + n ∧ 8 + a.2 ≤ n ∧ handOverNetwork n t m = (.ok a, k) := by
  unfold handOverNetwork
  split
  · by_cases h : 10 ≤ n
    · right
      refine ⟨(some ((m 10).toNat * 256 + (m 11).toNat), 2), 12, by omega, h, ?_⟩
      simp [bind_apply, require_ok h, r16_apply, pure_apply]
    · left
      simp [bind_apply, require_apply, h]
  · exact Or.inr ⟨(none, 0), 0, by omega, h8, pure_apply _⟩

theorem handOverService_cases {n offset : Nat} (h8 : 8 + offset ≤ n) (t : Byte) :
    handOverService n offset t m = (.invalid, 0) ∨
      ∃ a k, k ≤ 2 + n ∧ 8 + a.2 ≤ n ∧ handOverService n offset t m = (.ok a, k) := by
  unfold handOverService
  split
  · by_cases h : 8 + offset + 2 ≤ n
    · right
      refine ⟨(some ((m (offset + 10)).toNat * 256 + (m (offset + 11)).toNat), offset + 2),
        offset + 12, by omega, by omega, ?_⟩
      simp [bind_apply, require_ok h, r16_apply, pure_apply]
    · left
      simp [bind_apply, require_apply, h]
  · exact Or.inr ⟨(none, offset), 0, by omega, h8, pure_apply _⟩

theorem linkage_bounded : Bounded (construct .linkage) m (2 + payload m) := by
  obtain ⟨d, hd, hap⟩ := base_apply m
  refine (bounded_map (f := fun _ => ())).mpr ?_
  unfold linkageDescriptor
  rw [bounded_bind hap (Nat.le_refl _), hd, bounded_require]
  intro h7
  rw [bounded_bind (r16_apply 2) (by omega), bounded_bind (r16_apply 4) (by omega),
    bounded_bind (r16_apply 6) (by omega), bounded_bind (read_apply 8) (by omega)]
  by_cases ht : m 8 = 0x08
  · simp only [if_neg (not_not_intro ht)]
    rw [bounded_require]
    intro h8
    rw [bounded_bind (read_apply 9) (by omega)]
    rcases handOverNetwork_cases (m := m) h8 ((m 9 >>> 4) &&& 0x0f) with hi | ⟨network, k, hk, ho, hn⟩
    · exact bounded_invalid hi
    · rw [bounded_bind hn hk]
      rcases handOverService_cases (m := m) ho (m 9 &&& 0x01) with hi | ⟨service, k', hk', ho', hs⟩
      · exact bounded_invalid hi
      · rw [bounded_bind hs hk']
        apply bounded_of_succeeds
        · rw [succeeds_bytes]
          exact ⟨0, (succeeds_pure _ _).mpr rfl, rfl⟩
        · split <;> omega
  · simp only [if_pos ht]
    apply bounded_of_succeeds
    · rw [succeeds_bytes]
      exact ⟨0, (succeeds_pure _ _).mpr rfl, rfl⟩
    · split <;> omega

theorem urlEntry_apply (p i : Nat) : ∃ b, urlEntry p i m =
    (.ok (b, (i + ((m (p + i)).toNat + 1)) % 2 ^ 32), p + i + 2) :=
  ⟨_, by simp only [urlEntry, bind_apply, url_apply, pure_apply, Nat.max_zero]; rfl⟩

/-- Without a wrap of the index. -/
theorem urlEntry_small (p : Nat) {stop : Nat} (hs : stop ≤ 256) : ∀ i, i < stop → ∃ b,
    urlEntry p i m = (.ok (b, i + ((m (p + i)).toNat + 1)), p + i + 2) := by
  intro i hi
  have := (m (p + i)).toNat_lt
  obtain ⟨b, hb⟩ := urlEntry_apply (m := m) p i
  rw [Nat.mod_eq_of_lt (by omega)] at hb
  exact ⟨b, hb⟩

theorem ipTransport_iff (h5 : 5 ≤ payload m) :
    Bounded (fun fuel => ipTransport fuel 5 (payload m - 5)) m (2 + payload m) ↔
      11 ≤ payload m ∧ EveryEntry (fun j => j + ((m (j + 13)).toNat + 1)) (payload m - 5) fun j =>
        j + 13 ≤ payload m := by
  have hlt := payload_lt m
  have hbody := @urlEntry_small m 13 (payload m - 5) (by omega)
  unfold ipTransport
  rw [bounded_bind (read_apply 5) (by omega)]
  by_cases h11 : 11 ≤ payload m
  · rw [bounded_bind (r16_apply 6) (by omega), bounded_bind (r16_apply 8) (by omega),
      bounded_bind (r16_apply 10) (by omega), bounded_bind (read_apply 12) (by omega), bounded_map,
      bounded_entries_iff hbody (by omega)]
    simp only [h11, true_and, EveryEntry, Nat.add_comm 13]
    refine forall_congr' fun j => imp_congr_right fun _ => imp_congr_right fun _ => ?_
    omega
  · refine iff_of_false (fun h => ?_) fun h => h11 h.1
    have h8 := bounded_tail (r16_apply 6) h
    have h10 := bounded_tail (r16_apply 8) h8
    have h12 := bounded_tail (r16_apply 10) h10
    refine not_bounded_bind (read_apply 12) (by omega) (fun fuel => ?_) h12
    exact map_not_invalid (loop_not_invalid hbody fuel 0)

theorem interactionTransport_iff (h5 : 5 ≤ payload m) :
    Bounded (fun fuel => interactionTransport fuel 5 (payload m - 5)) m (2 + payload m) ↔
      (m 5).toNat + 1 ≤ payload m - 5 := by
  have hlt := payload_lt m
  unfold interactionTransport
  rw [bounded_bind (url_apply 5) (by omega), bounded_map]
  by_cases hb : (m 5).toNat + 1 ≤ payload m - 5
  · have hsub : sizeSub (payload m - 5) ((m 5).toNat + 1) = payload m - 5 - ((m 5).toNat + 1) := by
      rw [sizeSub, if_pos hb]
    refine iff_of_true ?_ hb
    simp only [hsub]
    rw [bounded_entries_iff (urlEntry_small _ (by omega)) (by omega)]
    intro j _ hjs
    omega
  · refine iff_of_false ?_ hb
    have hsub : 0 < sizeSub (payload m - 5) ((m 5).toNat + 1) := by
      have := (m 5).toNat_lt
      rw [sizeSub, if_neg hb]
      omega
    apply not_bounded_entries (fun i _ => urlEntry_apply _ i) hsub
    show 2 + payload m < 5 + ((m 5).toNat + 1) + 0 + 2
    omega

theorem transportProtocol_iff : Bounded (construct .transportProtocol) m (2 + payload m) ↔
    Fits .transportProtocol m := by
  obtain ⟨d, hd, hap⟩ := base_apply m
  refine (bounded_map (f := fun _ => ())).trans ?_
  unfold transportProtocolDescriptor
  rw [bounded_bind hap (Nat.le_refl _), hd, bounded_require]
  simp only [Fits]
  refine imp_congr_right fun h5 => ?_
  rw [bounded_bind (r16_apply 2) (by omega), bounded_bind (read_apply 4) (by omega)]
  have hid : (m 2).toNat * 256 + (m (2 + 1)).toNat = protocolId m := rfl
  rw [hid]
  by_cases h1 : protocolId m = 1
  · have hgood : ∀ h13 : 13 ≤ payload m, Bounded (fun _ => ocTransport 5) m (2 + payload m) :=
      fun h13 => bounded_of_succeeds (ocTransport_succeeds 5) (by omega)
    simp only [h1, if_true, bounded_require, bounded_map, OfNat.one_ne_ofNat, false_imp_iff, and_true,
      iff_true]
    exact hgood
  · simp only [if_neg h1]
    by_cases h2 : protocolId m = 2
    · simp only [h2, if_true, bounded_map, ipTransport_iff h5]
      simp
    · simp only [if_neg h2]
      by_cases h3 : protocolId m = 3
      · simp only [h3, if_true, bounded_map, interactionTransport_iff h5]
        simp
      · simp only [h2, h3, if_false, false_imp_iff, and_self, iff_true]
        exact bounded_pure _

/-- A descriptor constructor is total and bounded exactly where the entries of the
descriptor fit. -/
theorem construct_bounded_iff (k : Kind) (m : Memory) :
    Bounded (construct k) m (2 + payload m) ↔ Fits k m := by
  cases k with
  | contentIdentifier => exact contentIdentifier_iff
  | mosaic => exact mosaic_iff
  | cellFrequencyLink => exact cellFrequencyLink_iff
  | cellList => exact cellList_iff
  | vbiData => exact vbiData_iff
  | extendedEvent => exact extendedEvent_iff
  | serviceAvailability => exact iff_of_true serviceAvailability_bounded trivial
  | linkage => exact iff_of_true linkage_bounded trivial
  | transportProtocol => exact transportProtocol_iff

/-- One reserved location is read over and over. -/
theorem contentIdentifier_reserved_endless :
    ¬ Bounded (construct .contentIdentifier) (fun i => ([0x76, 1, 0x02] : Str).getD i 0)
      (2 + payload fun i => ([0x76, 1, 0x02] : Str).getD i 0) := by
  rw [contentIdentifier_iff]
  intro h
  have h0 := h 0 (.refl 0) (by decide)
  revert h0
  decide

end

end Tuxbox.Dvbsi
