import Tuxbox.Dvbsi.SectionRoundTrip
import Tuxbox.Lib.ParseLists

/-!
# Entries with lists of their own

The bytes of the entries of four kinds of descriptors, and what their constructors make of them.
-/

namespace Tuxbox.Dvbsi

open Parse

def dword (n : Nat) : Str := word (n / 65536) ++ word (n % 65536)

section
variable {m : Memory} {p n : Nat}

theorem holds_word_iff (hn : n < 65536) :
    Holds m p (word n) ↔ (m p).toNat * 256 + (m (p + 1)).toNat = n := by
  constructor
  · intro h
    exact holds_word h hn
  · intro h
    have h0 := (m p).toNat_lt
    have h1 := (m (p + 1)).toNat_lt
    refine ⟨?_, ?_, trivial⟩
    · apply UInt8.toNat_inj.mp
      rw [Nat.toUInt8, UInt8.toNat_ofNat']
      omega
    · apply UInt8.toNat_inj.mp
      rw [Nat.toUInt8, UInt8.toNat_ofNat']
      omega

theorem holds_dword_iff (hn : n < 2 ^ 32) : Holds m p (dword n) ↔
    ((m p).toNat * 256 + (m (p + 1)).toNat) * 65536 +
      ((m (p + 2)).toNat * 256 + (m (p + 3)).toNat) = n := by
  have hlow : (word (n / 65536)).length = 2 := rfl
  have h2 := (m (p + 2)).toNat_lt
  have h3 := (m (p + 3)).toNat_lt
  have hnext : p + 2 + 1 = p + 3 := rfl
  rw [dword, holds_append, hlow, holds_word_iff (by omega), holds_word_iff (by omega), hnext]
  omega

/-! ## Cell frequency links -/

structure SubcellInfo.Encodable (s : SubcellInfo) : Prop where
  transposerFrequency : s.transposerFrequency < 2 ^ 32

structure CellFrequencyLink.Encodable (e : CellFrequencyLink) : Prop where
  cellId : e.cellId < 65536
  frequency : e.frequency < 2 ^ 32
  subcells : ∀ s ∈ e.subcells, s.Encodable
  length : e.subcellInfoLoopLength.toNat = 5 * e.subcells.length

def subcellInfoBytes (s : SubcellInfo) : Str := s.cellIdExtension :: dword s.transposerFrequency

def linkBytes (e : CellFrequencyLink) : Str :=
  word e.cellId ++ dword e.frequency ++
    e.subcellInfoLoopLength :: e.subcells.flatMap subcellInfoBytes

/-- What the constructor of a subcell makes of five bytes. -/
def subcellInfoAt (m : Memory) (p : Nat) : SubcellInfo :=
  ⟨m p, ((m (p + 1)).toNat * 256 + (m (p + 2)).toNat) * 65536 +
    ((m (p + 3)).toNat * 256 + (m (p + 4)).toNat)⟩

theorem subcellInfoAt_iff {s : SubcellInfo} (hs : s.Encodable) :
    subcellInfoAt m p = s ↔ Holds m p (subcellInfoBytes s) := by
  rw [subcellInfoBytes, Holds, holds_dword_iff hs.transposerFrequency, subcellInfoAt,
    SubcellInfo.mk.injEq]

theorem steps_mul {size n : Nat} (hsize : 0 < size) :
    steps (size * n) size = List.range' 0 n size := by
  have hdiv : (size * n + (size - 1)) / size = n := by
    rw [Nat.mul_add_div hsize, Nat.div_eq_of_lt (by omega), Nat.add_zero]
  rw [steps, hdiv]

theorem cellFrequencyLink_ok (m : Memory) (p : Nat) : ∃ k, cellFrequencyLink p m =
    (.ok ⟨(m p).toNat * 256 + (m (p + 1)).toNat,
      ((m (p + 2)).toNat * 256 + (m (p + 3)).toNat) * 65536 +
        ((m (p + 4)).toNat * 256 + (m (p + 5)).toNat), m (p + 6),
      (steps (m (p + 6)).toNat 5).map fun i => subcellInfoAt m (p + 7 + i)⟩, k) := by
  obtain ⟨k, hk⟩ : ∃ k, each (fun i => subcellInfo (p + 7 + i)) (steps (m (p + 6)).toNat 5) m =
      (.ok ((steps (m (p + 6)).toNat 5).map fun i => subcellInfoAt m (p + 7 + i)), k) :=
    each_ok (fun x => rfl) _
  refine ⟨_, Prod.ext ?_ rfl⟩
  simp only [cellFrequencyLink, bind_apply, r16_apply, r32_apply, read_apply, hk, pure_apply]

/-- A cell frequency link is made of its bytes only. -/
theorem link_iff {e : CellFrequencyLink} (he : e.Encodable) :
    (∃ k, cellFrequencyLink p m = (.ok e, k)) ↔ Holds m p (linkBytes e) := by
  obtain ⟨k, hk⟩ := cellFrequencyLink_ok m p
  have hfields : Holds m p (linkBytes e) ↔
      (m p).toNat * 256 + (m (p + 1)).toNat = e.cellId ∧
      ((m (p + 2)).toNat * 256 + (m (p + 3)).toNat) * 65536 +
        ((m (p + 4)).toNat * 256 + (m (p + 5)).toNat) = e.frequency ∧
      m (p + 6) = e.subcellInfoLoopLength ∧
      Holds m (p + 7) (e.subcells.flatMap subcellInfoBytes) := by
    have h2 : (word e.cellId).length = 2 := rfl
    have h4 : (dword e.frequency).length = 4 := rfl
    rw [linkBytes, List.append_assoc, holds_append, holds_append, h2, h4,
      holds_word_iff he.cellId, holds_dword_iff he.frequency]
    rfl
  have hsubcells (hlen : m (p + 6) = e.subcellInfoLoopLength) :
      (steps (m (p + 6)).toNat 5).map (fun i => subcellInfoAt m (p + 7 + i)) = e.subcells ↔
        Holds m (p + 7) (e.subcells.flatMap subcellInfoBytes) := by
    rw [hlen, he.length, steps_mul (by decide)]
    constructor
    · exact holds_of_fields (a := 0) (fun s hs x => (subcellInfoAt_iff (he.subcells s hs)).mp)
        fun _ _ => rfl
    · exact fields_of_holds (a := 0) (fun s hs x => (subcellInfoAt_iff (he.subcells s hs)).mpr)
        fun _ _ => rfl
  rw [hfields, hk]
  constructor
  · rintro ⟨k', h⟩
    obtain ⟨h1, h2, h3, h4⟩ := CellFrequencyLink.mk.inj (Outcome.ok.inj (Prod.mk.inj h).1)
    exact ⟨h1, h2, h3, (hsubcells h3).mp h4⟩
  · rintro ⟨h1, h2, h3, h4⟩
    rw [h1, h2, (hsubcells h3).mpr h4, h3]
    exact ⟨k, rfl⟩

/-! ## Cells -/

structure Subcell.Encodable (s : Subcell) : Prop where
  subcellLatitude : s.subcellLatitude < 65536
  subcellLongitude : s.subcellLongitude < 65536
  subcellExtendOfLatitude : s.subcellExtendOfLatitude < 4096
  subcellExtendOfLongitude : s.subcellExtendOfLongitude < 4096

structure Cell.Encodable (c : Cell) : Prop where
  cellId : c.cellId < 65536
  cellLatitude : c.cellLatitude < 65536
  cellLongtitude : c.cellLongtitude < 65536
  cellExtendOfLatitude : c.cellExtendOfLatitude < 4096
  cellExtendOfLongtitude : c.cellExtendOfLongtitude < 4096
  subcells : ∀ s ∈ c.subcells, s.Encodable
  length : c.subcellInfoLoopLength.toNat = 8 * c.subcells.length

/-- Two numbers of twelve bits. -/
def extents (a b : Nat) : Str :=
  [(a / 16).toUInt8, (a % 16 * 16 + b / 256).toUInt8, (b % 256).toUInt8]

def subcellBytes (s : Subcell) : Str :=
  s.cellIdExtension :: word s.subcellLatitude ++ word s.subcellLongitude ++
    extents s.subcellExtendOfLatitude s.subcellExtendOfLongitude

def cellBytes (c : Cell) : Str :=
  word c.cellId ++ word c.cellLatitude ++ word c.cellLongtitude ++
    extents c.cellExtendOfLatitude c.cellExtendOfLongtitude ++
    c.subcellInfoLoopLength :: c.subcells.flatMap subcellBytes

theorem extents_of_holds {a b : Nat} (ha : a < 4096) (hb : b < 4096) (h : Holds m p (extents a b)) :
    ((m p).toNat * 256 + (m (p + 1)).toNat) >>> 4 = a ∧
      ((m (p + 1)).toNat * 256 + (m (p + 2)).toNat) &&& 0x0fff = b := by
  obtain ⟨h0, h1, h2, -⟩ := h
  have hmask (x : Nat) : x &&& 0x0fff = x % 4096 := Nat.and_two_pow_sub_one_eq_mod x 12
  have hnext : p + 1 + 1 = p + 2 := rfl
  rw [hnext] at h2
  rw [hmask, Nat.shiftRight_eq_div_pow, h0, h1, h2]
  simp only [Nat.toUInt8, UInt8.toNat_ofNat']
  omega

def subcellAt (m : Memory) (p : Nat) : Subcell :=
  ⟨m p, (m (p + 1)).toNat * 256 + (m (p + 2)).toNat, (m (p + 3)).toNat * 256 + (m (p + 4)).toNat,
    ((m (p + 5)).toNat * 256 + (m (p + 6)).toNat) >>> 4,
    ((m (p + 6)).toNat * 256 + (m (p + 7)).toNat) &&& 0x0fff⟩

theorem subcellAt_of_holds {s : Subcell} (hs : s.Encodable) (h : Holds m p (subcellBytes s)) :
    subcellAt m p = s := by
  simp only [subcellBytes, List.cons_append, List.append_assoc, Holds, holds_append] at h
  obtain ⟨h0, h1, h3, h5⟩ := h
  have hlat := holds_word h1 hs.subcellLatitude
  have hlong := holds_word h3 hs.subcellLongitude
  obtain ⟨hextlat, hextlong⟩ :=
    extents_of_holds hs.subcellExtendOfLatitude hs.subcellExtendOfLongitude h5
  exact Subcell.mk.injEq .. |>.mpr ⟨h0, hlat, hlong, hextlat, hextlong⟩

/-- A cell is made of its bytes. -/
theorem cell_of_holds {c : Cell} (hc : c.Encodable) (h : Holds m p (cellBytes c)) :
    ∃ k, cell p m = (.ok c, k) := by
  simp only [cellBytes, List.append_assoc, holds_append, Holds] at h
  obtain ⟨h0, h2, h4, h6, h9, h10⟩ := h
  have hid := holds_word h0 hc.cellId
  have hlat := holds_word h2 hc.cellLatitude
  have hlong := holds_word h4 hc.cellLongtitude
  obtain ⟨hextlat, hextlong⟩ :=
    extents_of_holds hc.cellExtendOfLatitude hc.cellExtendOfLongtitude h6
  obtain ⟨k, hk⟩ : ∃ k, each (fun i => subcell (p + 10 + i)) (steps (m (p + 9)).toNat 8) m =
      (.ok ((steps (m (p + 9)).toNat 8).map fun i => subcellAt m (p + 10 + i)), k) :=
    each_ok (fun x => rfl) _
  have hlen : m (p + 9) = c.subcellInfoLoopLength := h9
  have hsubcells : (steps (m (p + 9)).toNat 8).map (fun i => subcellAt m (p + 10 + i)) =
      c.subcells := by
    rw [hlen, hc.length, steps_mul (by decide)]
    exact fields_of_holds (a := 0) (fun s hs x => subcellAt_of_holds (hc.subcells s hs))
      (fun _ _ => rfl) h10
  rw [hsubcells] at hk
  refine ⟨_, Prod.ext ?_ rfl⟩
  simp only [cell, bind_apply, r16_apply, read_apply, hk, pure_apply]
  exact congrArg Outcome.ok (Cell.mk.injEq .. |>.mpr
    ⟨hid, hlat, hlong, hextlat, hextlong, hlen, rfl⟩)

/-- The length that the descriptor's loop reads is that of the cell. -/
theorem length_cell {c : Cell} (hc : c.Encodable) (h : Holds m p (cellBytes c)) :
    (cellBytes c).length = (m (p + 9)).toNat + 10 := by
  have hsubcells : (c.subcells.flatMap subcellBytes).length = 8 * c.subcells.length :=
    length_fields fun _ _ => rfl
  have hlen : m (p + 9) = c.subcellInfoLoopLength := by
    simp only [cellBytes, List.append_assoc, holds_append, Holds] at h
    exact h.2.2.2.2.1
  rw [hlen, hc.length, cellBytes, List.length_append, List.length_cons, hsubcells]
  have hhead : (word c.cellId ++ word c.cellLatitude ++ word c.cellLongtitude ++
      extents c.cellExtendOfLatitude c.cellExtendOfLongtitude).length = 9 := rfl
  omega

/-! ## Content reference identifiers -/

/-- With explicit bytes, or with a reference to an identifier elsewhere. -/
structure ContentReferenceIdentifier.Encodable (c : ContentReferenceIdentifier) : Prop where
  type : c.type.toNat < 64
  place : (c.location = 0 ∧ c.cridBytes.length < 256 ∧ c.length = some c.cridBytes.length ∧
      c.reference = some 0) ∨
    (c.location = 1 ∧ c.cridBytes = [] ∧ c.length = some 0 ∧
      ∃ r < 65536, c.reference = some r)

def cridBytes (c : ContentReferenceIdentifier) : Str :=
  (c.type * 4 + c.location) ::
    if c.location = 0 then c.cridBytes.length.toUInt8 :: c.cridBytes
    else word (c.reference.getD 0)

/-- The byte behind a reference is read as its low byte, and explicit bytes are not kept. -/
def CridKept (m : Memory) (p : Nat) (c : ContentReferenceIdentifier) : Prop :=
  (c.location = 0 → c.cridBytes = []) ∧
    (c.location = 1 → m (p + 1) = m (p + 2) ∧ m (p + 3) = m (p + 2))

/-- A byte with some bits above two others. -/
theorem high_low {a b : Byte} (ha : a.toNat < 64) (hb : b.toNat < 4) :
    ((a * 4 + b) >>> 2) &&& 0x3f = a ∧ (a * 4 + b) &&& 0x03 = b := by
  have hsum : (a * 4 + b).toNat = a.toNat * 4 + b.toNat := by
    have h4 : (4 : Byte).toNat = 4 := rfl
    rw [UInt8.toNat_add, UInt8.toNat_mul, h4]
    omega
  constructor
  · apply UInt8.toNat_inj.mp
    rw [toNat_bits (j := 2) (k := 6) rfl (by decide) rfl, hsum]
    omega
  · apply UInt8.toNat_inj.mp
    rw [UInt8.toNat_and, hsum]
    have hmask : (a.toNat * 4 + b.toNat) &&& (0x03 : Byte).toNat = (a.toNat * 4 + b.toNat) % 4 :=
      Nat.and_two_pow_sub_one_eq_mod _ 2
    omega

/-- What is made of a content reference identifier. -/
theorem crid_of_holds {c : ContentReferenceIdentifier} (hc : c.Encodable)
    (h : Holds m p (cridBytes c)) :
    ∃ y k, contentReferenceIdentifier p m = (.ok y, k) ∧ y.location = c.location ∧
      y.length = c.length ∧ (y = c ↔ CridKept m p c) := by
  obtain ⟨type, location, length, bytes, reference⟩ := c
  obtain ⟨h0, hrest⟩ := h
  rcases hc.place with ⟨hloc, hbytes, hlength, href⟩ | ⟨hloc, hbytes, hlength, r, hr, href⟩
  · simp only at hloc hbytes hlength href h0 hrest
    subst hloc hlength href
    obtain ⟨htype, hlocation⟩ := high_low hc.type (show (0 : Byte).toNat < 4 by decide)
    rw [if_pos rfl] at hrest
    have hlen : (m (p + 1)).toNat = bytes.length := by
      rw [hrest.1, Nat.toUInt8, UInt8.toNat_ofNat']
      omega
    refine ⟨⟨type, 0, some bytes.length, [], some 0⟩, _, Prod.ext ?_ rfl, rfl, rfl, ?_⟩
    · simp only [contentReferenceIdentifier, bind_apply, read_apply, h0, htype, hlocation, if_true,
        Parse.bytes_apply, pure_apply, hlen]
    · rw [CridKept]
      simp [eq_comm]
  · simp only at hloc hbytes hlength href h0 hrest
    subst hloc hlength hbytes href
    obtain ⟨htype, hlocation⟩ := high_low hc.type (show (1 : Byte).toNat < 4 by decide)
    have hword := (holds_word_iff hr).mp hrest
    have hnext : p + 1 + 1 = p + 2 := rfl
    rw [hnext] at hword
    have h1 := (m (p + 1)).toNat_lt
    have h2 := (m (p + 2)).toNat_lt
    have h3 := (m (p + 3)).toNat_lt
    have hsame : (m (p + 2)).toNat * 256 + (m (p + 3)).toNat = r ↔
        m (p + 1) = m (p + 2) ∧ m (p + 3) = m (p + 2) := by
      rw [← UInt8.toNat_inj, ← UInt8.toNat_inj]
      omega
    refine ⟨⟨type, 1, some 0, [], some ((m (p + 2)).toNat * 256 + (m (p + 3)).toNat)⟩, _,
      Prod.ext ?_ rfl, rfl, rfl, ?_⟩
    · simp [contentReferenceIdentifier, bind_apply, read_apply, r16_apply, h0, htype, hlocation,
        pure_apply]
    · rw [CridKept]
      simp [hsame]

/-- How far the descriptor's loop goes for an identifier. -/
theorem length_crid {c : ContentReferenceIdentifier} (hc : c.Encodable) (i : Nat) :
    (if c.location = 0 then i + (c.length.getD 0 + 2) else if c.location = 1 then i + 3 else i) =
      i + (cridBytes c).length := by
  unfold cridBytes
  rcases hc.place with ⟨hloc, -, hlength, -⟩ | ⟨hloc, -, -, r, -, href⟩
  · simp [hloc, hlength]
  · simp [hloc, href, word]

/-! ## Mosaic cells -/

/-- The fields of a cell by its linkage, and their bytes: nothing, a bouquet, a service, the
service of another mosaic, an event. -/
inductive Linked : (info : Byte) → (bouquetId eventId originalNetworkId transportStreamId
    serviceId : Option Nat) → Str → Prop where
  | undefined : Linked 0 none none none none none []
  | bouquet {b : Nat} : b < 65536 → Linked 1 (some b) none none none none (word b)
  | service {o t s : Nat} : o < 65536 → t < 65536 → s < 65536 →
      Linked 2 none none (some o) (some t) (some s) (word o ++ word t ++ word s)
  | mosaic {o t s : Nat} : o < 65536 → t < 65536 → s < 65536 →
      Linked 3 none none (some o) (some t) (some s) (word o ++ word t ++ word s)
  | event {o t s e : Nat} : o < 65536 → t < 65536 → s < 65536 → e < 65536 →
      Linked 4 none (some e) (some o) (some t) (some s) (word o ++ word t ++ word s ++ word e)

def linkageBytes (c : MosaicCell) : Str :=
  (c.bouquetId.toList ++ c.originalNetworkId.toList ++ c.transportStreamId.toList ++
    c.serviceId.toList ++ c.eventId.toList).flatMap word

structure MosaicCell.Encodable (c : MosaicCell) : Prop where
  logicalCellId : c.logicalCellId.toNat < 64
  logicalCellPresentationInfo : c.logicalCellPresentationInfo.toNat < 8
  elementaryCellFields : ∀ id ∈ c.elementaryCellFields, id.toNat < 64
  length : c.elementaryCellFieldLength.toNat = c.elementaryCellFields.length
  linked : Linked c.cellLinkageInfo c.bouquetId c.eventId c.originalNetworkId c.transportStreamId
    c.serviceId (linkageBytes c)

/-- The reserved bits are set. -/
def mosaicCellBytes (c : MosaicCell) : Str :=
  [c.logicalCellId * 4 + 0x03, 0xF8 + c.logicalCellPresentationInfo, c.elementaryCellFieldLength] ++
    (c.elementaryCellFields.flatMap (fun id => [0xC0 + id]) ++
      c.cellLinkageInfo :: linkageBytes c)

theorem low_bits {a b mask : Byte} {k : Nat} (hmask : mask.toNat = 2 ^ k - 1)
    (ha : a.toNat % 2 ^ k = 0) (hb : b.toNat < 2 ^ k) (hsum : a.toNat + b.toNat < 256) :
    (a + b) &&& mask = b := by
  apply UInt8.toNat_inj.mp
  rw [UInt8.toNat_and, hmask, Nat.and_two_pow_sub_one_eq_mod, UInt8.toNat_add,
    Nat.mod_eq_of_lt hsum, Nat.add_mod, ha, Nat.zero_add, Nat.mod_mod, Nat.mod_eq_of_lt hb]

/-- Where the linkage of a cell is, and where its fields are. -/
theorem linkage_of_holds {c : MosaicCell} (hc : c.Encodable) (h : Holds m p (mosaicCellBytes c)) :
    (m (p + 2)).toNat = c.elementaryCellFields.length ∧
      m (p + c.elementaryCellFields.length + 3) = c.cellLinkageInfo ∧
      Holds m (p + c.elementaryCellFields.length + 4) (linkageBytes c) := by
  have hn : (c.elementaryCellFields.flatMap fun id => [0xC0 + id]).length =
      c.elementaryCellFields.length := by simp
  rw [mosaicCellBytes, holds_append, holds_append, hn] at h
  obtain ⟨⟨-, -, h2, -⟩, -, hlinkage, hlinked⟩ := h
  have hlen : m (p + 2) = c.elementaryCellFieldLength := h2
  have hplace : p + 3 + c.elementaryCellFields.length = p + c.elementaryCellFields.length + 3 := by
    omega
  refine ⟨by rw [hlen, hc.length], hplace ▸ hlinkage, ?_⟩
  have hnext :
      p + c.elementaryCellFields.length + 4 = p + 3 + c.elementaryCellFields.length + 1 := by
    omega
  rw [hnext]
  exact hlinked

theorem length_linkageBytes {c : MosaicCell} (hc : c.Encodable) :
    (linkageBytes c).length = linkageLength c.cellLinkageInfo := by
  have hl := hc.linked
  generalize linkageBytes c = bytes at hl ⊢
  obtain ⟨_, _, _, _, _, _, _, _, _, _⟩ := c
  simp only at hl ⊢
  cases hl <;> rfl

/-- What the descriptor's loop adds is the length of the cell. -/
theorem length_mosaicCell {c : MosaicCell} (hc : c.Encodable) (h : Holds m p (mosaicCellBytes c)) :
    (mosaicCellBytes c).length = (m (p + 2)).toNat + 4 +
      linkageLength (m (p + 2 + (m (p + 2)).toNat + 1)) := by
  obtain ⟨hlen, hinfo, -⟩ := linkage_of_holds hc h
  have hplace :
      p + 2 + c.elementaryCellFields.length + 1 = p + c.elementaryCellFields.length + 3 := by
    omega
  rw [hlen, hplace, hinfo, ← length_linkageBytes hc, mosaicCellBytes]
  simp
  omega

theorem mosaicCell_of_holds {c : MosaicCell} (hc : c.Encodable)
    (h : Holds m p (mosaicCellBytes c)) : ∃ k, mosaicCell p m = (.ok c, k) := by
  have hid : ((c.logicalCellId * 4 + 3) >>> 2) &&& 0x3f = c.logicalCellId :=
    (high_low hc.logicalCellId (by decide)).1
  have hinfo : (0xF8 + c.logicalCellPresentationInfo) &&& 0x07 = c.logicalCellPresentationInfo := by
    have hlt := hc.logicalCellPresentationInfo
    apply low_bits (k := 3) rfl rfl hlt
    simp
    omega
  obtain ⟨hlength, hlinkage, hlinked⟩ := linkage_of_holds hc h
  obtain ⟨n, hn⟩ : ∃ n, n = c.elementaryCellFields.length := ⟨_, rfl⟩
  rw [← hn] at hlength hlinkage hlinked
  rw [mosaicCellBytes, holds_append, holds_append] at h
  obtain ⟨⟨h0, h1, h2, -⟩, hfields, -⟩ := h
  obtain ⟨k, hk⟩ : ∃ k, each (fun i => elementaryCellField (p + 3 + i)) (steps n 1) m =
      (.ok c.elementaryCellFields, k) := by
    have hvalues : (steps n 1).map (fun i => m (p + 3 + i) &&& 0x3f) = c.elementaryCellFields := by
      rw [hn, ← Nat.one_mul c.elementaryCellFields.length, steps_mul (by decide)]
      refine fields_of_holds (a := 0) (fun b hb x hx => ?_) (fun _ _ => rfl) hfields
      have hlt := hc.elementaryCellFields b hb
      have hx : m (p + 3 + x) = 0xC0 + b := hx.1
      rw [hx]
      apply low_bits (k := 6) rfl rfl hlt
      simp
      omega
    rw [← hvalues]
    exact each_ok (fun x => rfl) _
  have hlen : m (p + 2) = c.elementaryCellFieldLength := h2
  have h1 : m (p + 1) = 0xF8 + c.logicalCellPresentationInfo := h1
  have hl := hc.linked
  obtain ⟨bytes, hbytes⟩ : ∃ x, x = linkageBytes c := ⟨_, rfl⟩
  rw [← hbytes] at hlinked hl
  refine ⟨_, Prod.ext ?_ rfl⟩
  simp only [mosaicCell, bind_apply, read_apply, hlength, hk, h0, hid, h1, hinfo, hlinkage]
  obtain ⟨_, _, _, _, _, _, _, _, _, _⟩ := c
  simp only at hlen hl ⊢
  subst hlen
  cases hl with
  | undefined => rfl
  | bouquet hb => simp [bind_apply, r16_apply, pure_apply, holds_word hlinked hb]
  | service ho ht hs | mosaic ho ht hs =>
    rw [List.append_assoc, holds_append, holds_append] at hlinked
    obtain ⟨h4, h6, h8⟩ := hlinked
    have ho' := holds_word h4 ho
    have ht' : (m (p + n + 6)).toNat * 256 + (m (p + n + 6 + 1)).toNat = _ := holds_word h6 ht
    have hs' : (m (p + n + 8)).toNat * 256 + (m (p + n + 8 + 1)).toNat = _ := holds_word h8 hs
    simp [bind_apply, r16_apply, pure_apply, ho', ht', hs']
  | event ho ht hs he =>
    rw [List.append_assoc, List.append_assoc, holds_append, holds_append, holds_append] at hlinked
    obtain ⟨h4, h6, h8, h10⟩ := hlinked
    have ho' := holds_word h4 ho
    have ht' : (m (p + n + 6)).toNat * 256 + (m (p + n + 6 + 1)).toNat = _ := holds_word h6 ht
    have hs' : (m (p + n + 8)).toNat * 256 + (m (p + n + 8 + 1)).toNat = _ := holds_word h8 hs
    have he' : (m (p + n + 10)).toNat * 256 + (m (p + n + 10 + 1)).toNat = _ := holds_word h10 he
    simp [bind_apply, r16_apply, pure_apply, ho', ht', hs', he']

end

end Tuxbox.Dvbsi
