import Tuxbox.Lib.Bytes
import Tuxbox.Lib.TextPage

/-!
# The teletext cache

`tuxtxt_CacheThread` sorts the rows of the teletext stream into pages, each
magazine collecting its current page in a buffer of its own. The pages of the
cache are kept compressed (`TUXTXT_COMPRESS` 2).

Of a page the rows 1 to 23 are modelled. The header line, the rows 24 and 25
and the page information of packets 26 to 30 are stored elsewhere.
-/

namespace Tuxbox.Tuxtxt

open TextPage

/-- The hamming table, with 0xFF for an error that cannot be corrected. -/
def dehammingTable : List Nat :=
  [0x01, 0xFF, 0x01, 0x01, 0xFF, 0x00, 0x01, 0xFF, 0xFF, 0x02, 0x01, 0xFF, 0x0A, 0xFF, 0xFF, 0x07,
   0xFF, 0x00, 0x01, 0xFF, 0x00, 0x00, 0xFF, 0x00, 0x06, 0xFF, 0xFF, 0x0B, 0xFF, 0x00, 0x03, 0xFF,
   0xFF, 0x0C, 0x01, 0xFF, 0x04, 0xFF, 0xFF, 0x07, 0x06, 0xFF, 0xFF, 0x07, 0xFF, 0x07, 0x07, 0x07,
   0x06, 0xFF, 0xFF, 0x05, 0xFF, 0x00, 0x0D, 0xFF, 0x06, 0x06, 0x06, 0xFF, 0x06, 0xFF, 0xFF, 0x07,
   0xFF, 0x02, 0x01, 0xFF, 0x04, 0xFF, 0xFF, 0x09, 0x02, 0x02, 0xFF, 0x02, 0xFF, 0x02, 0x03, 0xFF,
   0x08, 0xFF, 0xFF, 0x05, 0xFF, 0x00, 0x03, 0xFF, 0xFF, 0x02, 0x03, 0xFF, 0x03, 0xFF, 0x03, 0x03,
   0x04, 0xFF, 0xFF, 0x05, 0x04, 0x04, 0x04, 0xFF, 0xFF, 0x02, 0x0F, 0xFF, 0x04, 0xFF, 0xFF, 0x07,
   0xFF, 0x05, 0x05, 0x05, 0x04, 0xFF, 0xFF, 0x05, 0x06, 0xFF, 0xFF, 0x05, 0xFF, 0x0E, 0x03, 0xFF,
   0xFF, 0x0C, 0x01, 0xFF, 0x0A, 0xFF, 0xFF, 0x09, 0x0A, 0xFF, 0xFF, 0x0B, 0x0A, 0x0A, 0x0A, 0xFF,
   0x08, 0xFF, 0xFF, 0x0B, 0xFF, 0x00, 0x0D, 0xFF, 0xFF, 0x0B, 0x0B, 0x0B, 0x0A, 0xFF, 0xFF, 0x0B,
   0x0C, 0x0C, 0xFF, 0x0C, 0xFF, 0x0C, 0x0D, 0xFF, 0xFF, 0x0C, 0x0F, 0xFF, 0x0A, 0xFF, 0xFF, 0x07,
   0xFF, 0x0C, 0x0D, 0xFF, 0x0D, 0xFF, 0x0D, 0x0D, 0x06, 0xFF, 0xFF, 0x0B, 0xFF, 0x0E, 0x0D, 0xFF,
   0x08, 0xFF, 0xFF, 0x09, 0xFF, 0x09, 0x09, 0x09, 0xFF, 0x02, 0x0F, 0xFF, 0x0A, 0xFF, 0xFF, 0x09,
   0x08, 0x08, 0x08, 0xFF, 0x08, 0xFF, 0xFF, 0x09, 0x08, 0xFF, 0xFF, 0x0B, 0xFF, 0x0E, 0x03, 0xFF,
   0xFF, 0x0C, 0x0F, 0xFF, 0x04, 0xFF, 0xFF, 0x09, 0x0F, 0xFF, 0x0F, 0x0F, 0xFF, 0x0E, 0x0F, 0xFF,
   0x08, 0xFF, 0xFF, 0x05, 0xFF, 0x0E, 0x0D, 0xFF, 0xFF, 0x0E, 0x0F, 0xFF, 0x0E, 0x0E, 0xFF, 0x0E]

def dehamming (b : Byte) : Nat := dehammingTable.getD b.toNat 0xFF

theorem dehamming_cases (b : Byte) : dehamming b < 16 ∨ dehamming b = 0xFF := by
  have hall : ∀ x ∈ dehammingTable, x < 16 ∨ x = 0xFF := by decide +kernel
  rw [dehamming, List.getD_eq_getElem?_getD]
  cases h : dehammingTable[b.toNat]? with
  | none => exact Or.inr rfl
  | some x => exact hall x (List.mem_of_getElem? h)

/-- `rev_lut`: the bits of the upper and of the lower nibble, reversed. -/
def revLut : List Byte :=
  [0x00, 0x08, 0x04, 0x0c, 0x02, 0x0a, 0x06, 0x0e, 0x01, 0x09, 0x05, 0x0d, 0x03, 0x0b, 0x07, 0x0f,
   0x00, 0x80, 0x40, 0xc0, 0x20, 0xa0, 0x60, 0xe0, 0x10, 0x90, 0x50, 0xd0, 0x30, 0xb0, 0x70, 0xf0]

/-- A byte from lsb first to msb first. -/
def msbFirst (b : Byte) : Byte :=
  let upper := ((b >>> 4) &&& 0xf).toNat
  let lower := (b &&& 0xf).toNat
  revLut.getD upper 0 ||| revLut.getD (lower + 16) 0

/-- The 42 bytes of a line from the magazine number on, as received. -/
structure Row where
  bytes : List Byte
  length_eq : bytes.length = 42

namespace Row

/-- `vtxt_row`. -/
def vtxtRow (r : Row) : List Byte := r.bytes.map msbFirst

def dehammed (r : Row) (i : Nat) : Nat := dehamming (r.vtxtRow.getD i 0)

/-- The bytes 2 to 41, which a row of a page is made of. -/
def text (r : Row) : List Byte := r.vtxtRow.drop 2

theorem text_length (r : Row) : r.text.length = 40 := by
  simp [text, vtxtRow, r.length_eq]

theorem dehammed_cases (r : Row) (i : Nat) : r.dehammed i < 16 ∨ r.dehammed i = 0xFF :=
  dehamming_cases _

end Row

def pageSize : Nat := 23 * 40

/-- A buffer of 23 rows, such as `pagedata[magazine]`. -/
@[ext]
structure PageData where
  bytes : List Byte
  length_eq : bytes.length = pageSize

namespace PageData

def blank : PageData := ⟨List.replicate pageSize 0x20, List.length_replicate⟩

/-- A row copied to its place. -/
def store (d : PageData) (n : Nat) (row : List Byte) (hn : n < 23) (hrow : row.length = 40) :
    PageData where
  bytes := splice d.bytes (n * 40) row
  length_eq := by
    have hd := d.length_eq
    have hsize : pageSize = 920 := rfl
    rw [splice_length (by omega), hd]

end PageData

/-- A page of the cache: the bits of `bitmask`, the first bit of a byte first,
and the bytes of `pData`, of which there is one for each bit that is set. -/
structure TstCachedPage where
  pData : Option (List Byte)
  bitmask : List Bool
  bitmask_length : bitmask.length = pageSize
  reads : bitmask.count true ≤ (pData.getD []).length

namespace TstCachedPage

/-- `tuxtxt_erase_page`, also what C4 does to the compressed page. -/
def erase (pg : TstCachedPage) : TstCachedPage where
  pData := pg.pData
  bitmask := List.replicate pageSize false
  bitmask_length := List.length_replicate
  reads := by simp [List.count_replicate]

/-- A page just allocated. -/
def fresh : TstCachedPage where
  pData := none
  bitmask := List.replicate pageSize false
  bitmask_length := List.length_replicate
  reads := by simp [List.count_replicate]

/-- The loop of `tuxtxt_compress_page`. -/
def compress (buffer : PageData) : TstCachedPage where
  pData := some (heads none buffer.bytes)
  bitmask := starts none buffer.bytes
  bitmask_length := by rw [starts_length, buffer.length_eq]
  reads := (count_starts _ _).le

/-- The loop of `tuxtxt_decompress_page`. -/
def decompress (pg : TstCachedPage) : PageData :=
  match pg.pData with
  | none => PageData.blank
  | some pData => ⟨expand 0x20 pg.bitmask pData, by rw [expand_length, pg.bitmask_length]⟩

theorem decompress_compress (buffer : PageData) : (compress buffer).decompress = buffer := by
  refine PageData.ext ?_
  exact expand_starts _ (Or.inl rfl)

@[simp] theorem decompress_erase (pg : TstCachedPage) : pg.erase.decompress = PageData.blank := by
  cases h : pg.pData with
  | none => simp [decompress, erase, h]
  | some pData =>
    refine PageData.ext ?_
    simp [decompress, erase, h, expand_unmarked, PageData.blank]

end TstCachedPage

/-- `tuxtxt_is_dec` -/
def isDec (i : Nat) : Bool := decide (i &&& 0x00F ≤ 9) && decide (i &&& 0x0F0 ≤ 0x90)

/-- `tuxtxt_cache` as far as the pages go, with the buffers and `doupdate` of the
thread. A page or subpage -1 is `none`; the cache table is read at the pair of
page and subpage. -/
structure Cache where
  astCachetable : Nat × Nat → Option TstCachedPage
  currentPage : Nat → Option Nat
  currentSubpage : Nat → Option Nat
  subpagetable : Nat → Option Nat
  pagedata : Nat → PageData
  page : Nat
  subpage : Nat
  zapSubpageManual : Bool
  doupdate : Nat
  pageupdate : Nat

namespace Cache

/-- The page and subpage a magazine is collecting. -/
def collecting (c : Cache) (magazine : Nat) : Option (Nat × Nat) :=
  match c.currentPage magazine, c.currentSubpage magazine with
  | some p, some sp => some (p, sp)
  | _, _ => none

/-- `tuxtxt_compress_page` -/
def compressPage (c : Cache) (p sp : Nat) (buffer : PageData) : Cache :=
  match c.astCachetable (p, sp) with
  | none => c
  | some _ =>
    let page := some (TstCachedPage.compress buffer)
    { c with astCachetable := Function.update c.astCachetable (p, sp) page }

/-- `tuxtxt_decompress_page` -/
def decompressPage (c : Cache) (p sp : Nat) : PageData :=
  match c.astCachetable (p, sp) with
  | none => PageData.blank
  | some pg => pg.decompress

/-- `tuxtxt_allocate_cache`, for the current page and subpage of the magazine. -/
def allocateCache (c : Cache) (p sp : Nat) : Cache :=
  match c.astCachetable (p, sp) with
  | some _ => c
  | none =>
    let page := some TstCachedPage.fresh.erase
    { c with astCachetable := Function.update c.astCachetable (p, sp) page }

/-- C4: the page is empty from here on, compressed and in the buffer. -/
def erasePage (c : Cache) (magazine p sp : Nat) : Cache :=
  let page := (c.astCachetable (p, sp)).map TstCachedPage.erase
  { c with
    astCachetable := Function.update c.astCachetable (p, sp) page
    pagedata := Function.update c.pagedata magazine PageData.blank }

/-- The buffer of the magazine goes to the page it collects. -/
def writeBack (c : Cache) (magazine : Nat) : Cache :=
  match c.collecting magazine with
  | some (p, sp) => c.compressPage p sp (c.pagedata magazine)
  | none => c

/-- `set update flag`: the page on display is written back after every row. -/
def setUpdate (c : Cache) (magazine : Nat) : Cache :=
  match c.collecting magazine with
  | some (p, sp) =>
    if p = c.page then
      let pageupdate := 1 + (if c.doupdate = c.page then 1 else 0)
      let subpage := if c.zapSubpageManual then c.subpage else sp
      { c.compressPage p sp (c.pagedata magazine) with
        pageupdate := pageupdate, doupdate := 0, subpage := subpage }
    else c
  | none => c

/-- The part of packet 0 after the page and subpage are known: the buffer of the
magazine is filled from the cache. Of a hex page only the headline is copied. -/
def openPage (c : Cache) (magazine p sp : Nat) (r : Row) : Cache :=
  let c := { c with
    currentPage := Function.update c.currentPage magazine (some p)
    currentSubpage := Function.update c.currentSubpage magazine (some sp)
    subpagetable := Function.update c.subpagetable p (some sp) }
  let c := c.allocateCache p sp
  let data := c.decompressPage p sp
  let c := { c with pagedata := Function.update c.pagedata magazine data }
  let c := if r.dehammed 5 &&& 8 ≠ 0 then c.erasePage magazine p sp else c
  let c := if r.dehammed 9 &&& 8 ≠ 0 then { c with doupdate := p } else c
  if isDec p then c.setUpdate magazine else c

/-- Packet 0: the header of a page. -/
def header (c : Cache) (magazine : Nat) (r : Row) : Cache :=
  let b2 := r.dehammed 3
  let b3 := r.dehammed 2
  if b2 = 0xFF ∨ b3 = 0xFF then
    { c with currentPage := Function.update c.currentPage magazine none }
  else
    let p := magazine <<< 8 ||| b2 <<< 4 ||| b3
    let noSubpage := { c with
      currentPage := Function.update c.currentPage magazine (some p)
      currentSubpage := Function.update c.currentSubpage magazine none }
    -- ?ff: data transmissions are ignored
    if b2 = 0x0f ∧ b3 = 0x0f then noSubpage
    else
      let b1 := r.dehammed 7
      let b2 := r.dehammed 6
      let b3 := r.dehammed 5
      let b4 := r.dehammed 4
      if b1 = 0xFF ∨ b2 = 0xFF ∨ b3 = 0xFF ∨ b4 = 0xFF then noSubpage
      else
        let sp := if isDec p then (b3 &&& 7) <<< 4 ||| b4 else b4
        c.openPage magazine p sp r

/-- What a row of page `p` leaves in the buffer: seven bits of each byte, on ?fe
what the hamming code gives, on other hex pages the bytes as they are. -/
def content (p : Nat) (r : Row) : List Byte :=
  if isDec p then r.text.map fun b => b &&& 0x7f
  else if p &&& 0xff = 0xfe then r.text.map fun b => (dehamming b).toUInt8
  else r.text

theorem content_length (p : Nat) (r : Row) : (content p r).length = 40 := by
  unfold content
  split
  · simp [r.text_length]
  · split
    · simp [r.text_length]
    · exact r.text_length

/-- Packets 1 to 25. The rows 24 and 25 are kept with the page information. -/
def storeRow (c : Cache) (magazine p packetNumber : Nat) (r : Row) : Cache :=
  if hn : packetNumber - 1 < 23 then
    let data := (c.pagedata magazine).store (packetNumber - 1) (content p r) hn (content_length p r)
    { c with pagedata := Function.update c.pagedata magazine data }
  else c

/-- A row of the stream. Packets 26 to 28 without a designation code are left
before the update flag is set. -/
def receiveRow (c : Cache) (r : Row) : Cache :=
  let b1 := r.dehammed 0
  let b2 := r.dehammed 1
  if b1 = 0xFF ∨ b2 = 0xFF then c
  else
    let packetNumber := (b1 &&& 8) >>> 3 ||| b2 <<< 1
    let magazine := if b1 &&& 7 = 0 then 8 else b1 &&& 7
    if packetNumber = 0 then (c.writeBack magazine).header magazine r
    else if packetNumber = 29 ∧ r.dehammed 2 = 0 then c.setUpdate magazine
    else
      match c.collecting magazine with
      | none => c.setUpdate magazine
      | some (p, _) =>
        if packetNumber ≤ 25 then (c.storeRow magazine p packetNumber r).setUpdate magazine
        else if packetNumber ≤ 28 ∧ r.dehammed 2 = 0xFF then c
        else c.setUpdate magazine

/-- A cleared cache. What is in the buffers of the thread is not determined. -/
def cleared (pagedata : Nat → PageData) : Cache where
  astCachetable := fun _ => none
  currentPage := fun _ => none
  currentSubpage := fun _ => none
  subpagetable := fun _ => none
  pagedata := pagedata
  page := 0x100
  subpage := 0
  zapSubpageManual := false
  doupdate := 0
  pageupdate := 0

end Cache

/-- A row is received, or the viewer goes to another page. -/
inductive Event where
  | row (r : Row)
  | display (page subpage : Nat) (zapSubpageManual : Bool)

/-- One event at the cache. -/
def Cache.step (c : Cache) : Event → Cache
  | .row r => c.receiveRow r
  | .display page subpage zapSubpageManual =>
    { c with page := page, subpage := subpage, zapSubpageManual := zapSubpageManual }

/-- The cache after a sequence of events, the latest first. -/
def Cache.after (c : Cache) (events : List Event) : Cache := events.foldr (fun e c => c.step e) c

end Tuxbox.Tuxtxt
