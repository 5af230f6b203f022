import Tuxbox.Lib.Logged
import Tuxbox.Tuxtxt.Cache

/-!
# The tables of the teletext cache

What the rows and the TOP tables are stored under: the thread and the two functions
that decode TOP tables, with a log of the indices they use. An index outside its
table is noted, and the program does not get further.

The texts of `adip` are not kept, only where they are stored.
-/

namespace Tuxbox.Tuxtxt

open TextPage

/-- The tables with a place for each page. -/
inductive Table where
  | subpagetable
  | basictop
  | adip
  | flofpages
  deriving DecidableEq

/-- A place that is read or written: for a page, in `astCachetable`, or in `adippg`. -/
inductive Access where
  | page (t : Table) (p : Nat)
  | cached (p sp : Nat)
  | adippg (i : Int)
  deriving DecidableEq

/-- The index is in range. -/
def Access.InRange : Access → Prop
  | .page _ p => p < 0x900
  | .cached p sp => p < 0x900 ∧ sp < 0x80
  | .adippg i => 0 ≤ i ∧ i ≤ 9

instance : DecidablePred Access.InRange
  | .page _ p => inferInstanceAs (Decidable (p < 0x900))
  | .cached p sp => inferInstanceAs (Decidable (p < 0x900 ∧ sp < 0x80))
  | .adippg i => inferInstanceAs (Decidable (0 ≤ i ∧ i ≤ 9))

/-- `tuxtxt_cache` with the tables next to the pages; `p24` is kept with each page. -/
structure Tables where
  cache : Cache
  p24 : Nat × Nat → Option (List Byte)
  flofpages : Nat → Nat → Nat
  basictop : Nat → Nat
  adippg : Nat → Nat
  maxadippg : Int
  bttok : Bool

def PageData.get (d : PageData) (i : Nat) : Byte := d.bytes.getD i 0

def PageData.dehammed (d : PageData) (i : Nat) : Nat := dehamming (d.get i)

/-- `tuxtxt_next_dec` -/
def nextDec (i : Nat) : Nat :=
  let i := i + 1
  let i := if 0x09 < i &&& 0x0F then i + 0x06 else i
  let i := if 0x90 < i &&& 0xF0 then i + 0x60 else i
  if 0x899 < i then 0x100 else i

def hamm24par : List (List Nat) :=
  [[0, 33, 34, 3, 35, 2, 1, 32, 36, 5, 6, 39, 7, 38, 37, 4, 37, 4, 7, 38,
    6, 39, 36, 5, 1, 32, 35, 2, 34, 3, 0, 33, 38, 7, 4, 37, 5, 36, 39, 6,
    2, 35, 32, 1, 33, 0, 3, 34, 3, 34, 33, 0, 32, 1, 2, 35, 39, 6, 5, 36,
    4, 37, 38, 7, 39, 6, 5, 36, 4, 37, 38, 7, 3, 34, 33, 0, 32, 1, 2, 35,
    2, 35, 32, 1, 33, 0, 3, 34, 38, 7, 4, 37, 5, 36, 39, 6, 1, 32, 35, 2,
    34, 3, 0, 33, 37, 4, 7, 38, 6, 39, 36, 5, 36, 5, 6, 39, 7, 38, 37, 4,
    0, 33, 34, 3, 35, 2, 1, 32, 40, 9, 10, 43, 11, 42, 41, 8, 12, 45, 46, 15,
    47, 14, 13, 44, 13, 44, 47, 14, 46, 15, 12, 45, 41, 8, 11, 42, 10, 43, 40, 9,
    14, 47, 44, 13, 45, 12, 15, 46, 42, 11, 8, 41, 9, 40, 43, 10, 43, 10, 9, 40,
    8, 41, 42, 11, 15, 46, 45, 12, 44, 13, 14, 47, 15, 46, 45, 12, 44, 13, 14, 47,
    43, 10, 9, 40, 8, 41, 42, 11, 42, 11, 8, 41, 9, 40, 43, 10, 14, 47, 44, 13,
    45, 12, 15, 46, 41, 8, 11, 42, 10, 43, 40, 9, 13, 44, 47, 14, 46, 15, 12, 45,
    12, 45, 46, 15, 47, 14, 13, 44, 40, 9, 10, 43, 11, 42, 41, 8],
   [0, 41, 42, 3, 43, 2, 1, 40, 44, 5, 6, 47, 7, 46, 45, 4, 45, 4, 7, 46,
    6, 47, 44, 5, 1, 40, 43, 2, 42, 3, 0, 41, 46, 7, 4, 45, 5, 44, 47, 6,
    2, 43, 40, 1, 41, 0, 3, 42, 3, 42, 41, 0, 40, 1, 2, 43, 47, 6, 5, 44,
    4, 45, 46, 7, 47, 6, 5, 44, 4, 45, 46, 7, 3, 42, 41, 0, 40, 1, 2, 43,
    2, 43, 40, 1, 41, 0, 3, 42, 46, 7, 4, 45, 5, 44, 47, 6, 1, 40, 43, 2,
    42, 3, 0, 41, 45, 4, 7, 46, 6, 47, 44, 5, 44, 5, 6, 47, 7, 46, 45, 4,
    0, 41, 42, 3, 43, 2, 1, 40, 48, 25, 26, 51, 27, 50, 49, 24, 28, 53, 54, 31,
    55, 30, 29, 52, 29, 52, 55, 30, 54, 31, 28, 53, 49, 24, 27, 50, 26, 51, 48, 25,
    30, 55, 52, 29, 53, 28, 31, 54, 50, 27, 24, 49, 25, 48, 51, 26, 51, 26, 25, 48,
    24, 49, 50, 27, 31, 54, 53, 28, 52, 29, 30, 55, 31, 54, 53, 28, 52, 29, 30, 55,
    51, 26, 25, 48, 24, 49, 50, 27, 50, 27, 24, 49, 25, 48, 51, 26, 30, 55, 52, 29,
    53, 28, 31, 54, 49, 24, 27, 50, 26, 51, 48, 25, 29, 52, 55, 30, 54, 31, 28, 53,
    28, 53, 54, 31, 55, 30, 29, 52, 48, 25, 26, 51, 27, 50, 49, 24],
   [63, 14, 13, 60, 12, 61, 62, 15, 11, 58, 57, 8, 56, 9, 10, 59, 10, 59, 56, 9,
    57, 8, 11, 58, 62, 15, 12, 61, 13, 60, 63, 14, 9, 56, 59, 10, 58, 11, 8, 57,
    61, 12, 15, 62, 14, 63, 60, 13, 60, 13, 14, 63, 15, 62, 61, 12, 8, 57, 58, 11,
    59, 10, 9, 56, 8, 57, 58, 11, 59, 10, 9, 56, 60, 13, 14, 63, 15, 62, 61, 12,
    61, 12, 15, 62, 14, 63, 60, 13, 9, 56, 59, 10, 58, 11, 8, 57, 62, 15, 12, 61,
    13, 60, 63, 14, 10, 59, 56, 9, 57, 8, 11, 58, 11, 58, 57, 8, 56, 9, 10, 59,
    63, 14, 13, 60, 12, 61, 62, 15, 31, 46, 45, 28, 44, 29, 30, 47, 43, 26, 25, 40,
    24, 41, 42, 27, 42, 27, 24, 41, 25, 40, 43, 26, 30, 47, 44, 29, 45, 28, 31, 46,
    41, 24, 27, 42, 26, 43, 40, 25, 29, 44, 47, 30, 46, 31, 28, 45, 28, 45, 46, 31,
    47, 30, 29, 44, 40, 25, 26, 43, 27, 42, 41, 24, 40, 25, 26, 43, 27, 42, 41, 24,
    28, 45, 46, 31, 47, 30, 29, 44, 29, 44, 47, 30, 46, 31, 28, 45, 41, 24, 27, 42,
    26, 43, 40, 25, 30, 47, 44, 29, 45, 28, 31, 46, 42, 27, 24, 41, 25, 40, 43, 26,
    43, 26, 25, 40, 24, 41, 42, 27, 31, 46, 45, 28, 44, 29, 30, 47]]

def hamm24val : List Nat :=
  [0, 0, 0, 0, 1, 1, 1, 1, 0, 0, 0, 0, 1, 1, 1, 1,
   2, 2, 2, 2, 3, 3, 3, 3, 2, 2, 2, 2, 3, 3, 3, 3,
   4, 4, 4, 4, 5, 5, 5, 5, 4, 4, 4, 4, 5, 5, 5, 5,
   6, 6, 6, 6, 7, 7, 7, 7, 6, 6, 6, 6, 7, 7, 7, 7,
   8, 8, 8, 8, 9, 9, 9, 9, 8, 8, 8, 8, 9, 9, 9, 9,
   10, 10, 10, 10, 11, 11, 11, 11, 10, 10, 10, 10, 11, 11, 11, 11,
   12, 12, 12, 12, 13, 13, 13, 13, 12, 12, 12, 12, 13, 13, 13, 13,
   14, 14, 14, 14, 15, 15, 15, 15, 14, 14, 14, 14, 15, 15, 15, 15,
   0, 0, 0, 0, 1, 1, 1, 1, 0, 0, 0, 0, 1, 1, 1, 1,
   2, 2, 2, 2, 3, 3, 3, 3, 2, 2, 2, 2, 3, 3, 3, 3,
   4, 4, 4, 4, 5, 5, 5, 5, 4, 4, 4, 4, 5, 5, 5, 5,
   6, 6, 6, 6, 7, 7, 7, 7, 6, 6, 6, 6, 7, 7, 7, 7,
   8, 8, 8, 8, 9, 9, 9, 9, 8, 8, 8, 8, 9, 9, 9, 9,
   10, 10, 10, 10, 11, 11, 11, 11, 10, 10, 10, 10, 11, 11, 11, 11,
   12, 12, 12, 12, 13, 13, 13, 13, 12, 12, 12, 12, 13, 13, 13, 13,
   14, 14, 14, 14, 15, 15, 15, 15, 14, 14, 14, 14, 15, 15, 15, 15]

def hamm24err : List Int :=
  [0, -1, -1, -1, -1, -1, -1, -1, -1, -1, -1, -1, -1, -1, -1, -1,
   -1, -1, -1, -1, -1, -1, -1, -1, -1, -1, -1, -1, -1, -1, -1, -1,
   0, 0, 0, 0, 0, 0, 0, 0, 0, 0, 0, 0, 0, 0, 0, 0,
   0, 0, 0, 0, 0, 0, 0, 0, -1, -1, -1, -1, -1, -1, -1, -1]

def hamm24cor : List Nat :=
  [0x0, 0x0, 0x0, 0x0, 0x0, 0x0, 0x0, 0x0, 0x0, 0x0, 0x0, 0x0, 0x0, 0x0, 0x0, 0x0,
   0x0, 0x0, 0x0, 0x0, 0x0, 0x0, 0x0, 0x0, 0x0, 0x0, 0x0, 0x0, 0x0, 0x0, 0x0, 0x0,
   0x0, 0x0, 0x0, 0x1, 0x0, 0x2, 0x4, 0x8, 0x0, 0x10, 0x20, 0x40, 0x80, 0x100, 0x200, 0x400,
   0x0, 0x800, 0x1000, 0x2000, 0x4000, 0x8000, 0x10000, 0x20000,
   0x0, 0x0, 0x0, 0x0, 0x0, 0x0, 0x0, 0x0]

/-- Three bytes of a row, 18 bits of which are data; `none` for an error that cannot
be corrected. -/
def Row.deh24 (r : Row) (i : Nat) : Option Nat :=
  let p0 := (r.vtxtRow.getD i 0).toNat
  let p1 := (r.vtxtRow.getD (i + 1) 0).toNat
  let p2 := (r.vtxtRow.getD (i + 2) 0).toNat
  let par := fun k p => (hamm24par.getD k []).getD p 0
  let e := par 0 p0 ^^^ par 1 p1 ^^^ par 2 p2
  let x := hamm24val.getD p0 0 + (p1 &&& 127) * 16 + (p2 &&& 127) * 2048
  if hamm24err.getD e 0 < 0 then none else some (x ^^^ hamm24cor.getD e 0)

/-- The page of link `byte` in packet 27/0, if its number is correct and decimal. -/
def Row.flofLink (r : Row) (b1 byte : Nat) : Option Nat :=
  let b2 := r.dehammed (4 + byte * 6)
  let b3 := r.dehammed (3 + byte * 6)
  if b2 = 0xFF ∨ b3 = 0xFF then none
  else
    let b4 := ((b1 ^^^ (r.dehammed (8 + byte * 6) >>> 1)) &&& 6) |||
      ((b1 ^^^ (r.dehammed (6 + byte * 6) >>> 3)) &&& 1)
    let b4 := if b4 = 0 then 8 else b4
    if b2 ≤ 9 ∧ b3 ≤ 9 then some (b4 <<< 8 ||| b2 <<< 4 ||| b3) else none

/-- The page a link of packet 27/4 leads to. -/
def linkedPage (d1 b1 : Nat) : Nat :=
  let page := ((d1 &&& 0x3c0) >>> 6 ||| (d1 &&& 0x3c000) >>> 10 ||| (d1 &&& 0x3800) >>> 3) ^^^
    (b1 <<< 8)
  if page < 0x100 then page + 0x800 else page

def isalnum (c : Byte) : Bool :=
  (48 ≤ c && c ≤ 57) || (65 ≤ c && c ≤ 90) || (97 ≤ c && c ≤ 122)

/-- From `e` down to a letter or digit, to 0 if there is none. -/
def findEnd (p : List Byte) : (e : Nat) → Nat
  | 0 => 0
  | e + 1 => if isalnum (p.getD (e + 1) 0) then e + 1 else findEnd p e

/-- Before `e` down to a control character. `char` is unsigned on the target. -/
def findStart (p : List Byte) : (e : Nat) → Option Nat
  | 0 => none
  | a + 1 => if p.getD a 0 < 32 then some a else findStart p a

/-- A page just allocated has no packet 24. -/
def Tables.allocateCache (t : Tables) (p sp : Nat) : Tables :=
  match t.cache.astCachetable (p, sp) with
  | some _ => t
  | none => { t with p24 := Function.update t.p24 (p, sp) none }

abbrev Thread := Prog Access Tables

namespace Thread

open Prog

def use (a : Access) : Thread Unit := do
  log a
  if a.InRange then pure () else endless

def modifyCache (f : Cache → Cache) : Thread Unit := modify fun t => { t with cache := f t.cache }

/-! ## Rows -/

/-- The page that is compressed, if there is one. -/
def useCached : Option (Nat × Nat) → Thread Unit
  | some (p, sp) => use (.cached p sp)
  | none => pure ()

def writeBack (magazine : Nat) : Thread Unit := do
  let t ← get
  useCached (t.cache.collecting magazine)
  modifyCache fun c => c.writeBack magazine

def setUpdate (magazine : Nat) : Thread Unit := do
  let t ← get
  useCached ((t.cache.collecting magazine).filter fun page => page.1 = t.cache.page)
  modifyCache fun c => c.setUpdate magazine

def openPage (magazine p sp : Nat) (r : Row) : Thread Unit := do
  use (.page .subpagetable p)
  use (.cached p sp)
  modify fun t => t.allocateCache p sp
  modifyCache fun c => c.openPage magazine p sp r

def header (magazine : Nat) (r : Row) : Thread Unit :=
  let b2 := r.dehammed 3
  let b3 := r.dehammed 2
  if b2 = 0xFF ∨ b3 = 0xFF then modifyCache fun c => c.header magazine r
  else
    let p := magazine <<< 8 ||| b2 <<< 4 ||| b3
    if b2 = 0x0f ∧ b3 = 0x0f then modifyCache fun c => c.header magazine r
    else
      let b1 := r.dehammed 7
      let b2 := r.dehammed 6
      let b3 := r.dehammed 5
      let b4 := r.dehammed 4
      if b1 = 0xFF ∨ b2 = 0xFF ∨ b3 = 0xFF ∨ b4 = 0xFF then
        modifyCache fun c => c.header magazine r
      else
        let sp := if isDec p then (b3 &&& 7) <<< 4 ||| b4 else b4
        openPage magazine p sp r

/-- Packets 1 to 25, of which 24 and 25 are kept with the page. -/
def storeRow (magazine p sp packetNumber : Nat) (r : Row) : Thread Unit := do
  if packetNumber < 24 then modifyCache fun c => c.storeRow magazine p packetNumber r
  else
    modify fun t =>
      let p24 := (t.p24 (p, sp)).getD (List.replicate 80 0)
      let p24 := splice p24 ((packetNumber - 24) * 40) (Cache.content p r)
      { t with p24 := Function.update t.p24 (p, sp) (some p24) }

def storeLink (p byte : Nat) : Option Nat → Thread Unit
  | some link => do
    use (.page .flofpages p)
    modify fun t =>
      { t with
        flofpages := Function.update t.flofpages p (Function.update (t.flofpages p) byte link) }
  | none => pure ()

/-- The links of packet 27/0. -/
def storeLinks (p b1 : Nat) (r : Row) : List Nat → Thread Unit
  | [] => pure ()
  | byte :: bytes => do
    storeLink p byte (r.flofLink b1 byte)
    storeLinks p b1 r bytes

/-- The last two links that are in use take their texts from packet 24. -/
def copyLinks (p : Nat) (text : List Byte) : (l : Nat) → (e : Nat) → Thread Unit
  | l + 2, e => do
    use (.page .flofpages p)
    let t ← get
    if t.flofpages p (l + 2) = 0 then copyLinks p text (l + 1) e
    else
      match findStart text (findEnd text e) with
      | some a => do
        use (.page .adip (t.flofpages p (l + 2)))
        copyLinks p text (l + 1) (a - 1)
      -- nothing is found before the start of the packet any more
      | none => copyLinks p text (l + 1) 0
  | _, _ => pure ()

def extendedLink (r : Row) (i : Nat) : Thread Unit :=
  match r.deh24 (6 * i + 3), r.deh24 (6 * i + 6) with
  | some d1, some _ =>
    let page := linkedPage d1 (r.dehammed 0)
    if page &&& 0xff = 0xff then pure ()
    else if 0x899 < page then pure ()
    else use (.cached page 0)
  | _, _ => pure ()

/-- The links of packet 27/4. -/
def extendedLinks (r : Row) : List Nat → Thread Unit
  | [] => pure ()
  | i :: is => do
    extendedLink r i
    extendedLinks r is

/-- Packet 27. -/
def pageLinks (p sp : Nat) (r : Row) : Thread Unit :=
  let descode := r.dehammed 2
  if descode = 0 then
    let b1 := r.dehammed 0
    if b1 = 0xFF then pure ()
    else do
      storeLinks p (b1 &&& 7) r [0, 1, 2, 3]
      let t ← get
      match t.p24 (p, sp) with
      | some text => copyLinks p text 3 39
      | none => pure ()
  else if descode = 4 then extendedLinks r [0, 1, 2, 3]
  else pure ()

/-- The thread, on the cache of `Cache.receiveRow`. -/
def receiveRow (r : Row) : Thread Unit :=
  let b1 := r.dehammed 0
  let b2 := r.dehammed 1
  if b1 = 0xFF ∨ b2 = 0xFF then pure ()
  else
    let packetNumber := (b1 &&& 8) >>> 3 ||| b2 <<< 1
    let magazine := if b1 &&& 7 = 0 then 8 else b1 &&& 7
    if packetNumber = 0 then do
      writeBack magazine
      header magazine r
    else if packetNumber = 29 ∧ r.dehammed 2 = 0 then setUpdate magazine
    else do
      let t ← get
      match t.cache.collecting magazine with
      | none => setUpdate magazine
      | some (p, sp) => do
        use (.cached p sp)
        if packetNumber ≤ 25 then do
          storeRow magazine p sp packetNumber r
          setUpdate magazine
        else if packetNumber ≤ 28 ∧ r.dehammed 2 = 0xFF then pure ()
        else if packetNumber = 27 then do
          pageLinks p sp r
          setUpdate magazine
        else setUpdate magazine

/-! ## TOP tables -/

/-- The page as it is in the cache, if it was received. -/
def cachedPage (p : Nat) : Thread (Option PageData) := do
  use (.page .subpagetable p)
  let t ← get
  match t.cache.subpagetable p with
  | none => pure none
  | some sp => do
    use (.cached p sp)
    pure ((t.cache.astCachetable (p, sp)).map TstCachedPage.decompress)

/-- The basic top table; false for a hamming error. -/
def topTable (btt : PageData) : List Nat → (current : Nat) → Thread Bool
  | [], _ => pure true
  | i :: is, current =>
    let b1 := if btt.get i = 32 then 0 else btt.dehammed i
    if b1 = 0xFF then pure false
    else do
      use (.page .basictop current)
      modify fun t => { t with basictop := Function.update t.basictop current b1 }
      topTable btt is (nextDec current)

/-- The page linking table; false for a hamming error. -/
def linkTable (btt : PageData) : List Nat → Thread Bool
  | [] => pure true
  | i :: is =>
    let b1 := btt.dehammed (800 + 8 * i)
    if b1 = 0xE then linkTable btt is
    else if b1 = 0xF then pure true
    else
      let b4 := btt.dehammed (800 + 8 * i + 7)
      if b4 ≠ 2 then linkTable btt is
      else
        let b2 := btt.dehammed (800 + 8 * i + 1)
        let b3 := btt.dehammed (800 + 8 * i + 2)
        if b1 = 0xFF ∨ b2 = 0xFF ∨ b3 = 0xFF then pure false
        else do
          let t ← get
          use (.adippg (t.maxadippg + 1))
          let p := b1 <<< 8 ||| b2 <<< 4 ||| b3
          modify fun t =>
            { t with
              maxadippg := t.maxadippg + 1
              adippg := Function.update t.adippg (t.maxadippg + 1).toNat p }
          linkTable btt is

def decodeBtt : Thread Unit := do
  let page ← cachedPage 0x1f0
  match page with
  | none => pure ()
  | some btt =>
    if btt.get 799 = 32 then pure ()
    else do
      let whole ← topTable btt (List.range 800) 0x100
      if whole then do
        modify fun t => { t with maxadippg := -1 }
        let whole ← linkTable btt (List.range 10)
        if whole then modify fun t => { t with bttok := true }
        else pure ()
      else pure ()

/-- The links of one page; false for a hamming error. -/
def decodeLinks (padip : PageData) : List Nat → Thread Bool
  | [] => pure true
  | j :: js =>
    let b1 := padip.dehammed (20 * j)
    if b1 = 0xE then decodeLinks padip js
    else if b1 = 0xF then pure true
    else
      let b2 := padip.dehammed (20 * j + 1)
      let b3 := padip.dehammed (20 * j + 2)
      if b1 = 0xFF ∨ b2 = 0xFF ∨ b3 = 0xFF then pure false
      else if 8 < b1 ∨ 9 < b2 ∨ 9 < b3 then decodeLinks padip js
      else do
        use (.page .adip (b1 <<< 8 ||| b2 <<< 4 ||| b3))
        decodeLinks padip js

/-- The pages of `adippg`; false for a hamming error. -/
def decodePages : List Nat → Thread Bool
  | [] => pure true
  | i :: is => do
    use (.adippg i)
    let t ← get
    if t.adippg i = 0 then decodePages is
    else do
      let page ← cachedPage (t.adippg i)
      match page with
      | none => decodePages is
      | some padip => do
        let whole ← decodeLinks padip (List.range 44)
        if whole then do
          modify fun t => { t with adippg := Function.update t.adippg i 0 }
          decodePages is
        else pure false

/-- `maxadippg` is one less than the number: `adippg` is read before it is tested. -/
def shrink : (n : Nat) → Thread Unit
  | 0 => use (.adippg (-1))
  | n + 1 => do
    use (.adippg n)
    let t ← get
    if t.adippg n = 0 then do
      modify fun t => { t with maxadippg := t.maxadippg - 1 }
      shrink n
    else pure ()

def decodeAdip : Thread Unit := do
  let t ← get
  let n := (t.maxadippg + 1).toNat
  let whole ← decodePages (List.range n)
  if whole then shrink n else pure ()

end Thread

/-- What happens: at the cache, or one of the TOP tables is decoded. -/
inductive Call where
  | event (e : Event)
  | decodeBtt
  | decodeAdip

def Call.run : Call → Thread Unit
  | .event (.row r) => Thread.receiveRow r
  | .event (.display page subpage manual) =>
    Thread.modifyCache fun c => c.step (.display page subpage manual)
  | .decodeBtt => Thread.decodeBtt
  | .decodeAdip => Thread.decodeAdip

/-- `tuxtxt_clear_cache`. What is in `adippg` is not determined. -/
def Tables.cleared (pagedata : Nat → PageData) (adippg : Nat → Nat) : Tables where
  cache := Cache.cleared pagedata
  p24 := fun _ => none
  flofpages := fun _ _ => 0
  basictop := fun _ => 0
  adippg := adippg
  maxadippg := -1
  bttok := false

end Tuxbox.Tuxtxt
