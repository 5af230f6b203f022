import Tuxbox.Dvbsi.NestedEntries

/-!
# Lists of entries with lists of their own

A descriptor is its tag, its length, and the bytes of its entries. Any memory may follow.
-/

namespace Tuxbox.Dvbsi

open Parse

inductive NestedList where
  | cellFrequencyLinks (links : List CellFrequencyLink)
  | cells (cs : List Cell)
  | contentIdentifiers (identifiers : List ContentReferenceIdentifier)
  | mosaic (mosaic : Mosaic)

namespace NestedList

def contents : NestedList → Str
  | .cellFrequencyLinks links => links.flatMap linkBytes
  | .cells cs => cs.flatMap cellBytes
  | .contentIdentifiers identifiers => identifiers.flatMap cridBytes
  | .mosaic x =>
    (x.mosaicEntryPoint * 128 + x.numberOfHorizontalElementaryCells * 16 + 8 +
      x.numberOfVerticalElementaryCells) :: x.mosaicCells.flatMap mosaicCellBytes

def bytes (tag : Byte) (d : NestedList) : Str :=
  tag :: d.contents.length.toUInt8 :: d.contents

/-- The fields have the widths of the layout, and the descriptor has one length byte. -/
structure Encodable (d : NestedList) : Prop where
  length : d.contents.length < 256
  fields : match d with
    | .cellFrequencyLinks links => ∀ e ∈ links, e.Encodable
    | .cells cs => ∀ c ∈ cs, c.Encodable
    | .contentIdentifiers identifiers => ∀ c ∈ identifiers, c.Encodable
    | .mosaic x => x.mosaicEntryPoint.toNat < 2 ∧ x.numberOfHorizontalElementaryCells.toNat < 8 ∧
        x.numberOfVerticalElementaryCells.toNat < 8 ∧ ∀ c ∈ x.mosaicCells, c.Encodable

/-- The constructor ends, and its list and fields are these. -/
def Delivered (m : Memory) : NestedList → Prop
  | .cellFrequencyLinks links => ∃ fuel k, cellFrequencyLinkDescriptor fuel m = (.ok links, k)
  | .cells cs => ∃ fuel k, cellListDescriptor fuel m = (.ok cs, k)
  | .contentIdentifiers identifiers =>
    ∃ fuel k, contentIdentifierDescriptor fuel m = (.ok identifiers, k)
  | .mosaic x => ∃ fuel k, mosaicDescriptor fuel m = (.ok x, k)

end NestedList

/-- The loop over cell frequency links goes on by what it finds ten bytes behind the place it is
at. It comes to a copy of every link, and to the end of the descriptor. -/
inductive LinksLead (m : Memory) (stop : Nat) : Nat → List CellFrequencyLink → Prop where
  | nil {i : Nat} : stop ≤ i → LinksLead m stop i []
  | cons {i : Nat} {e : CellFrequencyLink} {es : List CellFrequencyLink} : i < stop →
      Holds m (i + 2) (linkBytes e) → i + (m (i + 10)).toNat + 6 ≤ stop →
      LinksLead m stop (i + ((m (i + 10)).toNat + 6)) es → LinksLead m stop i (e :: es)

/-- What the bytes must be like. -/
def NestedList.Suits (m : Memory) (d : NestedList) : Prop :=
  match d with
  | .cellFrequencyLinks links => LinksLead m d.contents.length 0 links
  | .contentIdentifiers identifiers =>
    Along (fun i c => CridKept m (2 + i) c) cridBytes 0 identifiers
  | .cells _ => True
  | .mosaic _ => True

section
variable {m : Memory}

/-! ## One kind at a time -/

theorem linksLead_iff {links : List CellFrequencyLink} (hlinks : ∀ e ∈ links, e.Encodable)
    (stop i : Nat) :
    Delivers (cellFrequencyLinkEntry stop) m stop i links ↔ LinksLead m stop i links := by
  have hentry {e : CellFrequencyLink} (he : e.Encodable) (i j : Nat) :
      (∃ k, cellFrequencyLinkEntry stop i m = (.ok (e, j), k)) ↔
        Holds m (i + 2) (linkBytes e) ∧ i + (m (i + 10)).toNat + 6 ≤ stop ∧
          j = i + ((m (i + 10)).toNat + 6) := by
    rw [← link_iff he]
    obtain ⟨k, hk⟩ := cellFrequencyLink_ok m (i + 2)
    by_cases hfit : i + (m (i + 10)).toNat + 6 ≤ stop
    · simp only [cellFrequencyLinkEntry, bind_apply, read_apply, require_apply, hfit, if_true, hk,
        pure_apply, true_and]
      constructor
      · rintro ⟨_, h⟩
        obtain ⟨rfl, rfl⟩ := Prod.mk.inj (Outcome.ok.inj (Prod.mk.inj h).1)
        exact ⟨⟨k, rfl⟩, rfl⟩
      · rintro ⟨⟨_, h⟩, rfl⟩
        rw [Outcome.ok.inj (Prod.mk.inj h).1]
        exact ⟨_, rfl⟩
    · simp [cellFrequencyLinkEntry, bind_apply, read_apply, require_apply, hfit]
  induction links generalizing i with
  | nil =>
    constructor
    · intro h
      cases h with
      | nil hi => exact .nil hi
    · intro h
      cases h with
      | nil hi => exact .nil hi
  | cons e es ih =>
    have he := hlinks e List.mem_cons_self
    have ih (j : Nat) := ih (fun x hx => hlinks x (List.mem_cons_of_mem e hx)) j
    constructor
    · intro h
      cases h with
      | cons hi hb hrest =>
        obtain ⟨hbytes, hfit, rfl⟩ := (hentry he i _).mp ⟨_, hb⟩
        exact .cons hi hbytes hfit ((ih _).mp hrest)
    · intro h
      cases h with
      | cons hi hbytes hfit hrest =>
        obtain ⟨k, hb⟩ := (hentry he i _).mpr ⟨hbytes, hfit, rfl⟩
        exact .cons hi hb ((ih _).mpr hrest)

theorem delivered_base {d : NestedList} {tag : Byte} (hd : d.Encodable)
    (hm : Holds m 0 (d.bytes tag)) :
    Holds m 2 d.contents ∧
      ∃ x : Descriptor, x.getLength = d.contents.length ∧ ∃ k, descriptor 0 m = (.ok x, k) := by
  obtain ⟨-, h1, h2⟩ := hm
  obtain ⟨x, hx, h⟩ := descriptor_apply (m := m) 0
  refine ⟨h2, x, ?_, _, h⟩
  have hlen := hd.length
  rw [hx, h1, Nat.toUInt8, UInt8.toNat_ofNat']
  omega

/-- A constructor that only runs its loop. -/
theorem loop_of_base {β : Type} {x : Descriptor} {k : Nat} (hx : descriptor 0 m = (.ok x, k))
    (body : Nat → Nat → Parse (β × Nat)) (bs : List β) :
    (∃ fuel k, (descriptor 0 >>= fun d => loop (body d.getLength) d.getLength fuel 0) m =
        (.ok bs, k)) ↔ Delivers (body x.getLength) m x.getLength 0 bs := by
  rw [← loop_delivers_iff]
  simp only [bind_apply, hx]
  constructor
  · rintro ⟨fuel, _, h⟩
    exact ⟨fuel, _, Prod.ext (Prod.mk.inj h).1 rfl⟩
  · rintro ⟨fuel, _, h⟩
    exact ⟨fuel, _, Prod.ext (Prod.mk.inj h).1 rfl⟩

theorem along_true {β : Type} {enc : β → Str} (i : Nat) (xs : List β) :
    Along (fun _ _ => True) enc i xs := by
  induction xs generalizing i with
  | nil => trivial
  | cons x xs ih => exact ⟨trivial, ih _⟩

theorem cells_delivers {cs : List Cell} (hcs : ∀ c ∈ cs, c.Encodable)
    (h : Holds m 2 (cs.flatMap cellBytes)) :
    Delivers cellListEntry m (cs.flatMap cellBytes).length 0 cs := by
  refine (delivers_along_iff 2 (fun _ _ => True) ?_ ?_ h (Nat.zero_add _)).mpr
    (along_true 0 cs)
  · intro c hc i _ hi
    have hi : Holds m (i + 2) (cellBytes c) := Nat.add_comm 2 i ▸ hi
    obtain ⟨k, hk⟩ := cell_of_holds (hcs c hc) hi
    have hlen : (cellBytes c).length = (m (i + 11)).toNat + 10 := length_cell (hcs c hc) hi
    refine ⟨c, _, Prod.ext ?_ rfl, iff_of_true rfl trivial⟩
    simp only [cellListEntry, bind_apply, hk, read_apply, pure_apply, hlen]
  · intro c _
    simp [cellBytes, word]

theorem mosaic_delivers {cs : List MosaicCell} (hcs : ∀ c ∈ cs, c.Encodable)
    (hlen : (cs.flatMap mosaicCellBytes).length < 256)
    (h : Holds m 3 (cs.flatMap mosaicCellBytes)) :
    Delivers mosaicEntry m (cs.flatMap mosaicCellBytes).length 0 cs := by
  refine (delivers_along_iff 3 (fun _ _ => True) ?_ ?_ h (Nat.zero_add _)).mpr
    (along_true 0 cs)
  · intro c hc i hstop hi
    have hi : Holds m (i + 3) (mosaicCellBytes c) := Nat.add_comm 3 i ▸ hi
    obtain ⟨k, hk⟩ := mosaicCell_of_holds (hcs c hc) hi
    have hcell := length_mosaicCell (hcs c hc) hi
    have hplace : i + 3 + 2 = i + 5 := rfl
    rw [hplace] at hcell
    have hnum := (m (i + 5)).toNat_lt
    have hlink : linkageLength (m (i + 5 + (m (i + 5)).toNat + 1)) ≤ 8 := by
      unfold linkageLength
      split_ifs <;> decide
    refine ⟨c, _, Prod.ext ?_ rfl, iff_of_true rfl trivial⟩
    simp only [mosaicEntry, bind_apply, hk, read_apply, pure_apply, hcell]
    rw [Nat.mod_eq_of_lt (by omega)]
  · intro c _
    simp [mosaicCellBytes]

theorem crids_iff {cs : List ContentReferenceIdentifier} (hcs : ∀ c ∈ cs, c.Encodable)
    (h : Holds m 2 (cs.flatMap cridBytes)) :
    Delivers contentIdentifierEntry m (cs.flatMap cridBytes).length 0 cs ↔
      Along (fun i c => CridKept m (2 + i) c) cridBytes 0 cs := by
  refine delivers_along_iff 2 _ ?_ ?_ h (Nat.zero_add _)
  · intro c hc i _ hi
    obtain ⟨y, k, hy, hloc, hlen, hkept⟩ := crid_of_holds (hcs c hc) hi
    refine ⟨y, _, Prod.ext ?_ rfl, hkept⟩
    simp only [contentIdentifierEntry, bind_apply, hy, pure_apply, hloc, hlen,
      length_crid (hcs c hc)]
  · intro c _
    simp [cridBytes]

/-- The byte in front of the cells. -/
theorem mosaic_header {e h v : Byte} (he : e.toNat < 2) (hh : h.toNat < 8) (hv : v.toNat < 8) :
    (((e * 128 + h * 16 + 8 + v) >>> 7) &&& 0x01 = e) ∧
      (((e * 128 + h * 16 + 8 + v) >>> 4) &&& 0x07 = h) ∧
      (e * 128 + h * 16 + 8 + v) &&& 0x07 = v := by
  have h128 : (128 : Byte).toNat = 128 := rfl
  have h16 : (16 : Byte).toNat = 16 := rfl
  have h8 : (8 : Byte).toNat = 8 := rfl
  have hsum : (e * 128 + h * 16 + 8 + v).toNat = e.toNat * 128 + h.toNat * 16 + 8 + v.toNat := by
    rw [UInt8.toNat_add, UInt8.toNat_add, UInt8.toNat_add, UInt8.toNat_mul, UInt8.toNat_mul, h128,
      h16, h8]
    omega
  refine ⟨UInt8.toNat_inj.mp ?_, UInt8.toNat_inj.mp ?_, UInt8.toNat_inj.mp ?_⟩
  · rw [toNat_bits (j := 7) (k := 1) rfl (by decide) rfl, hsum]
    omega
  · rw [toNat_bits (j := 4) (k := 3) rfl (by decide) rfl, hsum]
    omega
  · have hmask : (e.toNat * 128 + h.toNat * 16 + 8 + v.toNat) &&& (0x07 : Byte).toNat =
        (e.toNat * 128 + h.toNat * 16 + 8 + v.toNat) % 8 := Nat.and_two_pow_sub_one_eq_mod _ 3
    rw [UInt8.toNat_and, hsum, hmask]
    omega

theorem mosaic_delivered {x : Mosaic} {tag : Byte} (hd : (NestedList.mosaic x).Encodable)
    (hm : Holds m 0 ((NestedList.mosaic x).bytes tag)) : (NestedList.mosaic x).Delivered m := by
  obtain ⟨hcontents, d, hlen, k, hbase⟩ := delivered_base hd hm
  obtain ⟨he, hh, hv, hcs⟩ := hd.fields
  obtain ⟨hheader, hcells⟩ := hcontents
  have hsize := hd.length
  have hcount : (NestedList.mosaic x).contents.length =
      (x.mosaicCells.flatMap mosaicCellBytes).length + 1 := rfl
  obtain ⟨fuel, k', hloop⟩ := (mosaic_delivers hcs (by omega) hcells).loop
  obtain ⟨he', hh', hv'⟩ := mosaic_header he hh hv
  have hstop : sizeSub d.getLength 1 = (x.mosaicCells.flatMap mosaicCellBytes).length := by
    rw [hlen, hcount, sizeSub, if_pos (by omega), Nat.add_sub_cancel]
  refine ⟨fuel, _, Prod.ext ?_ rfl⟩
  simp only [mosaicDescriptor, bind_apply, hbase, read_apply, hstop, hloop, pure_apply, hheader,
    he', hh', hv']

/-- Exactly the entries that were encoded, whatever follows the descriptor. -/
theorem nested_delivered_iff {d : NestedList} {tag : Byte} (hd : d.Encodable)
    (hm : Holds m 0 (d.bytes tag)) : d.Delivered m ↔ d.Suits m := by
  obtain ⟨hcontents, x, hlen, k, hbase⟩ := delivered_base hd hm
  cases d with
  | cellFrequencyLinks links =>
    apply (loop_of_base hbase cellFrequencyLinkEntry links).trans
    rw [hlen]
    exact linksLead_iff hd.fields _ 0
  | cells cs =>
    refine iff_of_true ((loop_of_base hbase (fun _ => cellListEntry) cs).mpr ?_) trivial
    rw [hlen]
    exact cells_delivers hd.fields hcontents
  | contentIdentifiers cs =>
    apply (loop_of_base hbase (fun _ => contentIdentifierEntry) cs).trans
    rw [hlen]
    exact crids_iff hd.fields hcontents
  | mosaic x => exact iff_of_true (mosaic_delivered hd hm) trivial

/-- Memory that has these bytes, and zeros behind them. -/
def zeroAfter (bs : Str) : Memory := fun i => bs.getD i 0

theorem holds_zeroAfter (bs : Str) : Holds (zeroAfter bs) 0 bs := holds_getD [] bs

/-- A cell with one subcell, and one with two. -/
def cellA : NestedList :=
  .cells [⟨0x0102, 0x8001, 0x7fff, 0xabc, 0x123, 8, [⟨7, 1, 2, 0xfff, 0⟩]⟩,
    ⟨0x0304, 0x1000, 0x2000, 0x456, 0x789, 16, [⟨1, 3, 4, 5, 6⟩, ⟨2, 7, 8, 9, 10⟩]⟩]

theorem encodable_cellA : cellA.Encodable where
  length := by decide
  fields := by
    intro c hc
    simp only [List.mem_cons, List.not_mem_nil, or_false] at hc
    rcases hc with rfl | rfl
    · refine ⟨by decide, by decide, by decide, by decide, by decide, ?_, by decide⟩
      intro s hs
      rw [List.mem_singleton.mp hs]
      exact ⟨by decide, by decide, by decide, by decide⟩
    · refine ⟨by decide, by decide, by decide, by decide, by decide, ?_, by decide⟩
      intro s hs
      simp only [List.mem_cons, List.not_mem_nil, or_false] at hs
      rcases hs with rfl | rfl <;> exact ⟨by decide, by decide, by decide, by decide⟩

theorem cellA_delivered : cellA.Delivered (zeroAfter (cellA.bytes 0x6c)) :=
  (nested_delivered_iff encodable_cellA (holds_zeroAfter _)).mpr trivial

/-- A link without subcells, and an identifier of two bytes. -/
def linkA : CellFrequencyLink := ⟨0x0102, 0x11223344, 0, []⟩

def cridA : ContentReferenceIdentifier := ⟨0x31, 0, some 2, [47, 97], some 0⟩

theorem entries_lost :
    ¬ (NestedList.cellFrequencyLinks [linkA]).Delivered
        (zeroAfter ((NestedList.cellFrequencyLinks [linkA]).bytes 0x6d)) ∧
      ¬ (NestedList.contentIdentifiers [cridA]).Delivered
        (zeroAfter ((NestedList.contentIdentifiers [cridA]).bytes 0x76)) := by
  constructor
  · intro h
    have hlink : ∀ e ∈ [linkA], e.Encodable := by
      intro e he
      rw [List.mem_singleton.mp he]
      exact ⟨by decide, by decide, (fun s hs => nomatch hs), by decide⟩
    obtain ⟨d, hd, hbase⟩ := descriptor_apply
      (m := zeroAfter ((NestedList.cellFrequencyLinks [linkA]).bytes 0x6d)) 0
    have hlead := (loop_of_base hbase cellFrequencyLinkEntry _).mp h
    rw [linksLead_iff hlink, hd] at hlead
    -- the byte that is read is behind the descriptor, so that the loop goes on six bytes
    cases hlead with
    | cons _ _ _ hrest =>
      cases hrest with
      | nil hend => exact absurd hend (by decide)
  · intro h
    have hcrid : ∀ c ∈ [cridA], c.Encodable := by
      intro c hc
      rw [List.mem_singleton.mp hc]
      exact ⟨by decide, .inl ⟨rfl, by decide, rfl, rfl⟩⟩
    obtain ⟨d, hd, hbase⟩ := descriptor_apply
      (m := zeroAfter ((NestedList.contentIdentifiers [cridA]).bytes 0x76)) 0
    have hbytes := (holds_zeroAfter ((NestedList.contentIdentifiers [cridA]).bytes 0x76)).2.2
    have hdelivers := (loop_of_base hbase (fun _ => contentIdentifierEntry) _).mp h
    rw [hd] at hdelivers
    obtain ⟨⟨hempty, -⟩, -⟩ := (crids_iff hcrid hbytes).mp hdelivers
    exact absurd (hempty rfl) (by decide)

end

end Tuxbox.Dvbsi
