import Tuxbox.Lib.Logged
import Tuxbox.Tuxtxt.Tables

/-! Objects of level 2.5: triplets that draw on a page and invoke other objects.

* `evalObject`: `tuxtxt_eval_object`, to a depth of invocations, with a log of its triplets. -/
namespace Tuxbox.Tuxtxt

open Prog

/-! ## Data -/

/-- Three bytes, 18 bits of which are data; `none` for an error that cannot be corrected. -/
def deh24 (data : List Byte) (i : Nat) : Option Nat :=
  let p0 := (data.getD i 0).toNat
  let p1 := (data.getD (i + 1) 0).toNat
  let p2 := (data.getD (i + 2) 0).toNat
  let par := fun k p => (hamm24par.getD k []).getD p 0
  let e := par 0 p0 ^^^ par 1 p1 ^^^ par 2 p2
  let x := hamm24val.getD p0 0 + (p1 &&& 127) * 16 + (p2 &&& 127) * 2048
  if hamm24err.getD e 0 < 0 then none else some (x ^^^ hamm24cor.getD e 0)

/-- What a cached page has of objects: its rows 1 to 23, and the packets 24 to 26. -/
structure ObjectPage where
  pagedata : List Byte
  p24 : Option (List Byte)
  p26 : Nat → Option (List Byte)

/-- `tuxtxt_iTripletNumber2Data` -/
def ObjectPage.triplet (pg : ObjectPage) (iONr : Nat) : Option Nat :=
  if 506 < iONr then none
  else
    let packet := iONr / 13 + 3
    let packetoffset := 3 * (iONr % 13)
    if packet ≤ 23 then deh24 pg.pagedata (40 * (packet - 1) + packetoffset + 1)
    else if packet ≤ 25 then pg.p24.bind fun p24 => deh24 p24 (40 * (packet - 24) + packetoffset + 1)
    else (pg.p26 (packet - 26)).bind fun p26 => deh24 p26 packetoffset

inductive TObjType where
  | OBJ_PASSIVE
  | OBJ_ACTIVE
  | OBJ_ADAPTIVE
  deriving DecidableEq

def TObjType.ofTriplet (triplet : Nat) : TObjType :=
  if triplet % 3 = 0 then .OBJ_PASSIVE else if triplet % 3 = 1 then .OBJ_ACTIVE else .OBJ_ADAPTIVE

/-- The page that is shown, or another one of the cache. -/
inductive PageRef where
  | shown
  | cached (p s : Nat)
  deriving DecidableEq

/-- Where the objects come from. Those of the page that is shown are all in its packets 26, what
is drawn on it is not read as an object. -/
structure Sources where
  shown : ObjectPage
  pop : Nat
  gpop : Nat
  astCachetable : Nat → Nat → Option ObjectPage

namespace Sources

section
variable (c : Sources)

def page : PageRef → Option ObjectPage
  | .shown => some c.shown
  | .cached p s => c.astCachetable p s

def data (pg : PageRef) (iONr : Nat) : Option Nat := (c.page pg).bind fun page => page.triplet iONr

end

end Sources

/-! ## Attributes -/

def tuxtxt_color_black : Nat := 0
def tuxtxt_color_white : Nat := 7

def C_G0P : Nat := 0
def C_G1C : Nat := 2
def C_G1S : Nat := 3
def C_G2 : Nat := 4
def C_G3 : Nat := 5
def C_OFFSET_DRCS : Nat := 32

structure TstPageAttr where
  fg : Nat
  bg : Nat
  charset : Nat
  doubleh : Bool
  doublew : Bool
  IgnoreAtBlackBgSubst : Bool
  concealed : Bool
  inverted : Bool
  flashing : Nat
  diacrit : Nat
  underline : Bool
  boxwin : Bool
  setX26 : Bool
  setG0G2 : Nat
  deriving DecidableEq

/-- `attrPassive` at the begin of an object. -/
def TstPageAttr.passive : TstPageAttr where
  fg := tuxtxt_color_white
  bg := tuxtxt_color_black
  charset := C_G0P
  doubleh := false
  doublew := false
  IgnoreAtBlackBgSubst := true
  concealed := false
  inverted := false
  flashing := 0
  diacrit := 0
  underline := false
  boxwin := false
  setX26 := false
  setG0G2 := 0x3f

/-- The new attributes of mode 0c. -/
def TstPageAttr.changed (iData : Nat) (a : TstPageAttr) : TstPageAttr :=
  let conc := iData &&& 0x04 ≠ 0
  let inv := iData &&& 0x10 ≠ 0
  let sep := iData &&& 0x20 ≠ 0
  let bw := iData &&& 0x02 ≠ 0
  let a := { a with inverted := if inv then !a.inverted else false }
  let a := if conc then { a with concealed := true, fg := a.bg } else a
  let a :=
    if sep then if a.charset = C_G1C then { a with charset := C_G1S } else { a with underline :=
      true }
    else if a.charset = C_G1S then { a with charset := C_G1C }
    else { a with underline := false }
  { a with
    doublew := iData &&& 0x40 ≠ 0
    doubleh := iData &&& 0x01 ≠ 0
    boxwin := bw
    IgnoreAtBlackBgSubst := if bw then false else a.IgnoreAtBlackBgSubst }

def TstPageAttr.withBg (newcolor : Nat) (a : TstPageAttr) : TstPageAttr :=
  { a with
    bg := newcolor
    IgnoreAtBlackBgSubst := if newcolor = tuxtxt_color_black then true else a.IgnoreAtBlackBgSubst }

/-! ## Drawing -/

/-- What is drawn, and the offset of the next object. -/
structure Drawing where
  page_char : Nat → Nat
  page_atrb : Nat → TstPageAttr
  FullRowColor : Nat → Nat
  FullScrColor : Nat
  tAPx : Nat
  tAPy : Nat

inductive Write where
  | char (offset : Nat) (char : Nat)
  | atrb (offset : Nat) (attr : TstPageAttr)
  | fullRow (row : Nat) (color : Nat)
  deriving DecidableEq

def Drawing.write (s : Drawing) : Write → Drawing
  | .char offset char => { s with page_char := Function.update s.page_char offset char }
  | .atrb offset attr => { s with page_atrb := Function.update s.page_atrb offset attr }
  | .fullRow row color => { s with FullRowColor := Function.update s.FullRowColor row color }

/-- A triplet as it is split up. -/
structure Triplet where
  iAddress : Nat
  iMode : Nat
  iData : Nat
  deriving DecidableEq

def triplet (iOData : Nat) : Triplet :=
  ⟨iOData &&& 0x3f, iOData >>> 6 &&& 0x1f, iOData >>> 11 &&& 0x7f⟩

/-- What an object keeps from triplet to triplet. -/
structure ObjectState where
  APx : Nat
  APy : Nat
  drcssubp : Nat
  gdrcssubp : Nat
  endcol : Int
  attrPassive : TstPageAttr
  deriving DecidableEq

def ObjectState.start : ObjectState := ⟨0, 0, 0, 0, -1, TstPageAttr.passive⟩

/-- The origin of an object. -/
structure Origin where
  APx0 : Nat
  APy0 : Nat
  deriving DecidableEq

/-- How far a cell goes on like this, `n` cells at most. -/
def extent (same : Nat → Bool) : (n : Nat) → (p : Nat) → Nat
  | 0, _ => 0
  | n + 1, p => if same (p + 1) then extent same n (p + 1) + 1 else 0

section
variable (g : Origin) (o : ObjectState) (s : Drawing)

def Origin.offset : Nat := (g.APy0 + o.APy) * 40 + g.APx0 + o.APx

/-- To the end of the row or to a change by the level 1 page. -/
def activeCells (attr : TstPageAttr → Nat) : List Nat :=
  let p := g.offset o
  let oldcolor := attr (s.page_atrb p)
  List.range' p (1 + extent (fun p => attr (s.page_atrb p) = oldcolor) (39 - (g.APx0 + o.APx)) p)

/-- To the end column, relative to the origin. -/
def adaptiveCells : List Nat := List.range' (g.offset o) (1 + (o.endcol - o.APx).toNat)

/-- The cells of mode 0c, which are counted from another column. -/
def attributeCells : List Nat :=
  let c : Int := g.APx0 + if o.endcol = 40 then o.APx else 0
  List.range' (g.offset o) (1 + (o.endcol - 1 - c).toNat)

def setCells (cells : List Nat) (change : TstPageAttr → TstPageAttr) : List Write :=
  cells.map fun i => .atrb i (change (s.page_atrb i))

/-- A colour from this cell on. -/
def setColor (attr : TstPageAttr → Nat) (passive change : TstPageAttr → TstPageAttr) :
    ObjectState × List Write :=
  if o.endcol < 0 then ({ o with attrPassive := passive o.attrPassive }, [])
  else if o.endcol = 40 then (o, setCells s (activeCells g o s attr) change)
  else (o, setCells s (adaptiveCells g o) change)

/-- The attributes of this cell. -/
def setAttr (change : TstPageAttr → TstPageAttr) : ObjectState × List Write :=
  if o.endcol < 0 then
    ({ o with attrPassive := change o.attrPassive }, [.atrb (g.offset o) (change o.attrPassive)])
  else (o, setCells s [g.offset o] change)

def setChar (char : Nat) (change : TstPageAttr → TstPageAttr) : ObjectState × List Write :=
  let (o', writes) := setAttr g o s change
  (o', .char (g.offset o) char :: writes)

/-- The column addresses of `tuxtxt_eval_triplet`, behind the new active column. -/
def drawColumn (t : Triplet) : ObjectState × List Write :=
  match t.iMode with
  | 0x00 =>
    if t.iData >>> 5 = 0 then
      let color := fun (a : TstPageAttr) => { a with fg := t.iData &&& 0x1f }
      setColor g o s TstPageAttr.fg color color
    else (o, [])
  | 0x01 =>
    if 0x20 ≤ t.iData then
      if o.endcol < 0 ∨ (s.page_atrb (g.offset o)).charset ≠ C_G1S then
        setChar g o s t.iData fun a => { a with charset := C_G1C }
      else (o, [.char (g.offset o) t.iData])
    else (o, [])
  | 0x02 | 0x0b => setChar g o s t.iData fun a => { a with charset := C_G3 }
  | 0x03 =>
    if t.iData >>> 5 = 0 then
      let newcolor := t.iData &&& 0x1f
      setColor g o s TstPageAttr.bg (fun a => { a with bg := newcolor }) (TstPageAttr.withBg newcolor)
    else (o, [])
  | 0x06 => (o, [])
  | 0x07 =>
    if t.iData &&& 0x60 ≠ 0 then (o, [])
    else setAttr g o s fun a => { a with flashing := t.iData &&& 0x1f }
  | 0x08 => setAttr g o s fun a => { a with setG0G2 := t.iData &&& 0x3f }
  | 0x09 => setChar g o s t.iData fun a => { a with charset := C_G0P, setX26 := true }
  | 0x0c =>
    if o.endcol < 0 then ({ o with attrPassive := o.attrPassive.changed t.iData }, [])
    else (o, setCells s (attributeCells g o) (TstPageAttr.changed t.iData))
  | 0x0d =>
    let subp := if t.iData &&& 0x40 ≠ 0 then 0x10 + o.drcssubp else o.gdrcssubp
    setChar g o s (t.iData &&& 0x3f) fun a => { a with charset := C_OFFSET_DRCS + subp }
  | 0x0f => setChar g o s t.iData fun a => { a with charset := C_G2 }
  | iMode =>
    if 0x10 ≤ iMode then
      let char := if iMode = 0x10 ∧ t.iData = 0x2a then 0x40 else t.iData
      setChar g o s char fun a =>
        { a with charset := C_G0P, diacrit := iMode &&& 0x0f, setX26 := true }
    else (o, [])

/-- What a triplet draws. -/
def columnTriplet (t : Triplet) : ObjectState × List Write :=
  drawColumn g (if t.iMode ≠ 0x06 then { o with APx := t.iAddress } else o) s t

def rowAddress2Row (row : Nat) : Nat := if row = 40 then 24 else row - 40

/-- The colour of one row, or of all rows from it on. -/
def fullRows (row iData : Nat) : List Write :=
  let rows :=
    if row ≤ 24 ∧ iData >>> 5 = 0 then [row]
    else if iData >>> 5 = 3 then List.range' row (25 - row)
    else []
  rows.map fun row => .fullRow row (iData &&& 0x1f)

/-- The row addresses of `tuxtxt_eval_triplet` but for the invocations. -/
def rowTriplet (t : Triplet) : ObjectState × List Write :=
  match t.iMode with
  | 0x01 =>
    if o.endcol = 40 then
      let APy := rowAddress2Row t.iAddress
      ({ o with APy := APy, endcol := -1 }, fullRows (g.APy0 + APy) t.iData)
    else (o, [])
  | 0x04 =>
    ({ o with
        APy := rowAddress2Row t.iAddress
        APx := if t.iData < 40 then t.iData else o.APx
        endcol := -1 }, [])
  | 0x07 =>
    if t.iAddress = 0x3f then
      ({ o with APx := 0, APy := 0, endcol := -1 },
        if o.endcol = 40 then fullRows g.APy0 t.iData else [])
    else (o, [])
  | 0x15 | 0x16 | 0x17 =>
    if t.iAddress &&& 0x08 = 0 then (o, []) else ({ o with endcol := -1 }, [])
  | 0x18 =>
    if t.iData &&& 0x10 = 0 then (o, [])
    else if t.iData &&& 0x40 ≠ 0 then ({ o with drcssubp := t.iData &&& 0x0f }, [])
    else ({ o with gdrcssubp := t.iData &&& 0x0f }, [])
  | 0x1f => ({ o with endcol := -1 }, [])
  | _ => (o, [])

def drawTriplet (t : Triplet) : ObjectState × List Write :=
  if t.iAddress < 40 then columnTriplet g o s t else rowTriplet g o t

end

/-- `tuxtxt_eval_triplet` returns what is not 0. -/
def Triplet.terminates (t : Triplet) : Bool :=
  40 ≤ t.iAddress &&
    ((0x15 ≤ t.iMode && t.iMode ≤ 0x17 && t.iAddress &&& 0x08 != 0) || t.iMode == 0x1f)

/-- What a triplet does to the rest of `tuxtxt_cache`. -/
def Drawing.after (s : Drawing) (t : Triplet) : Drawing :=
  { s with
    FullScrColor :=
      if 40 ≤ t.iAddress ∧ t.iMode = 0x00 ∧ t.iData >>> 5 = 0 then t.iData &&& 0x1f
      else s.FullScrColor
    tAPx := if 40 ≤ t.iAddress ∧ t.iMode = 0x10 then t.iData else 0
    tAPy := if 40 ≤ t.iAddress ∧ t.iMode = 0x10 then t.iAddress - 40 else 0 }

/-! ## Evaluation -/

/-- An object, by the number of its first triplet. -/
structure Obj where
  page : PageRef
  iONr : Nat
  type : TObjType
  deriving DecidableEq

namespace Sources

section
variable (c : Sources)

/-- `tuxtxt_eval_NumberedObject` up to the object it evaluates. -/
def numberedObject (p s packet triplet : Nat) (high : Bool) : Option Obj :=
  if packet = 0 then none
  else
    match c.astCachetable p s with
    | none => none
    | some pg =>
      match deh24 pg.pagedata (40 * (packet - 1) + 1 + 3 * triplet) with
      | none => none
      | some idata =>
        let iONr := if high then idata >>> 9 else idata &&& 0x1ff
        if iONr ≤ 506 then some ⟨.cached p s, iONr, .ofTriplet triplet⟩ else none

/-- The object that a triplet with this address, mode and data names. -/
def namedObject (pg : PageRef) (t : Triplet) : Option Obj :=
  if t.iAddress &&& 0x10 ≠ 0 then
    let triplet := 3 * (t.iData >>> 5 &&& 0x03) + (t.iMode &&& 0x03)
    let packet := (t.iAddress &&& 0x03) + 1
    let subp := t.iData &&& 0x0f
    let high := (t.iData >>> 4 &&& 0x01) ≠ 0
    c.numberedObject (if t.iAddress &&& 0x08 ≠ 0 then c.gpop else c.pop) subp packet triplet high
  else if t.iAddress &&& 0x08 ≠ 0 then
    let descode := (t.iAddress &&& 0x01) <<< 3 ||| t.iData >>> 4
    let triplet := t.iData &&& 0x0f
    some ⟨pg, 13 * 23 + 13 * descode + triplet, .ofTriplet triplet⟩
  else none

/-- An object is invoked at the active position, but not in a side panel. The new origin is an
`unsigned char`. -/
def invoked (pg : PageRef) (g : Origin) (o : ObjectState) (tAPx tAPy : Nat) (t : Triplet) :
    Option (Obj × Origin) :=
  if 40 ≤ t.iAddress ∧ 0x11 ≤ t.iMode ∧ t.iMode ≤ 0x13 then
    let APx0 := (g.APx0 + o.APx + tAPx) % 256
    let APy0 := (g.APy0 + o.APy + tAPy) % 256
    if APx0 < 40 then (c.namedObject pg t).map fun b => (b, ⟨APx0, APy0⟩) else none
  else none

/-- The last column to which an adaptive object extends changes, from the triplets up to a new
row. -/
def searchEndcol (pg : PageRef) : List Nat → (endcol : Int) → Int
  | [], endcol => endcol
  | i :: is, endcol =>
    match c.data pg i with
    | none => endcol
    | some iTempOData =>
      let t := triplet iTempOData
      if 40 ≤ t.iAddress ∧ (t.iMode = 0x01 ∨ t.iMode = 0x04 ∨ 0x15 ≤ t.iMode ∧ t.iMode ≤ 0x17) then
        endcol
      else searchEndcol pg is (if t.iAddress < 40 ∧ t.iMode ≠ 0x06 then t.iAddress else endcol)

/-- `endcol` before a triplet. -/
def findEndcol (b : Obj) (numbers : List Nat) (o : ObjectState) : ObjectState :=
  if o.endcol < 0 then
    match b.type with
    | .OBJ_PASSIVE => o
    | .OBJ_ACTIVE => { o with endcol := 40 }
    | .OBJ_ADAPTIVE => { o with endcol := c.searchEndcol b.page numbers o.endcol }
  else o

end

end Sources

/-- A triplet that was evaluated, what was known before it, and what it wrote. -/
structure Entry where
  t : Triplet
  origin : Origin
  state : ObjectState
  before : Drawing
  writes : List Write

abbrev Eval := Prog Entry Drawing

section
variable (c : Sources)

/-- `tuxtxt_eval_triplet` -/
def evalTriplet (invoke : Obj → Origin → Eval Unit) (b : Obj) (g : Origin) (t : Triplet)
    (o : ObjectState) : Eval ObjectState := do
  let s ← get
  let (o', writes) := drawTriplet g o s t
  log ⟨t, g, o, s, writes⟩
  modify fun s => writes.foldl Drawing.write s
  match c.invoked b.page g o s.tAPx s.tAPy t with
  | some (b', g') => invoke b' g'
  | none => pure ()
  modify fun s => s.after t
  pure o'

/-- The triplets of an object. It does not end at its first one. -/
def evalTriplets (invoke : Obj → Origin → Eval Unit) (b : Obj) (g : Origin) :
    (numbers : List Nat) → (first : Bool) → ObjectState → Eval Unit
  | [], _, _ => pure ()
  | iONr :: numbers, first, o =>
    match c.data b.page iONr with
    | none => pure ()
    | some iOData => do
      let t := triplet iOData
      let o ← evalTriplet c invoke b g t (c.findEndcol b (iONr :: numbers) o)
      if t.terminates && !first then pure () else evalTriplets invoke b g numbers false o

/-- `tuxtxt_eval_object`, from an active position of 0, to a depth of objects that are invoked. -/
def evalObject : (depth : Nat) → Obj → Origin → Eval Unit
  | 0, _, _ => endless
  | depth + 1, b, g =>
    evalTriplets c (evalObject depth) b g (List.range' b.iONr (507 - b.iONr)) true .start

end

end Tuxbox.Tuxtxt
