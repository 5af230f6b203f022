import Tuxbox.Lib.FirstOf
import Tuxbox.Lib.Numeral
import Tuxbox.Tuxtxt.RenderChar

/-! A page as HTML.

* `Rendered`: both functions called until row 24. -/
namespace Tuxbox.Tuxtxt

/-! ## The page -/

/-- `page_char` and `page_atrb`, 25 rows of 40 cells. -/
structure Page where
  page_char : Nat → Byte
  page_atrb : Nat → TstPageAttr

namespace Page

/-- `tuxtxt_RenderChar` on the attributes of a cell. -/
def swap (p : Page) (i : Nat) : Page where
  page_char := p.page_char
  page_atrb := Function.update p.page_atrb i (swapInverted (p.page_char i) (p.page_atrb i))

def mark (p : Page) (i : Nat) : Page where
  page_char := Function.update p.page_char i 0xff
  page_atrb :=
    Function.update p.page_atrb i { p.page_atrb i with doubleh := false, doublew := false }

/-- A cell of double size covers the ones right of it and below it. -/
def cover (p : Page) (row col : Nat) : Page :=
  let a := p.page_atrb (40 * row + col)
  let p := if col < 39 ∧ a.doublew then p.mark (40 * row + col + 1) else p
  if row < 23 ∧ a.doubleh then
    let p := p.mark (40 * (row + 1) + col)
    if a.doublew ∧ col < 39 then p.mark (40 * (row + 1) + col + 1) else p
  else p

end Page

/-! ## Styles -/

/-- Normal and double size, graphic foreground and background. -/
inductive StyleKind where
  | n
  | d
  | g
  | b
  deriving DecidableEq

/-- The length of `cstyles_n`, `cstyles_d`, `cstyles_g`, `cstyles_b`. -/
def StyleKind.size : StyleKind → Nat
  | n | d => 1024
  | g | b => 32

def StyleKind.letter : StyleKind → Str
  | n => chars "n"
  | d => chars "d"
  | g => chars "g"
  | b => chars "b"

/-- An access to one of the tables. -/
abbrev StyleUse := StyleKind × Nat

def StyleUse.InRange (u : StyleUse) : Prop := u.2 < u.1.size

structure Styles where
  cstyles : StyleUse → UInt16
  stylecount : StyleKind → UInt16

namespace Styles

def empty : Styles := ⟨fun _ => 0, fun _ => 0⟩

/-- A style that is not there yet gets the next number. -/
def note (t : Styles) (u : StyleUse) : Styles :=
  if t.cstyles u = 0 then
    ⟨Function.update t.cstyles u (t.stylecount u.1 + 1),
      Function.update t.stylecount u.1 (t.stylecount u.1 + 1)⟩
  else t

def className (t : Styles) (u : StyleUse) : Str := u.1.letter ++ numeral 16 (t.cstyles u).toNat

end Styles

namespace TstPageAttr

def stylenr (a : TstPageAttr) : Nat := a.fg <<< 5 ||| a.bg

def isDouble (a : TstPageAttr) : Bool := a.doublew && a.doubleh

/-- The style of text. -/
def textStyle (a : TstPageAttr) : StyleUse := (if a.isDouble then .d else .n, a.stylenr)

/-- Graphics in a colour of their own. -/
def isGraphic (a : TstPageAttr) (Char : Int) : Bool := !a.isDouble && Char = 0 && a.fg ≠ a.bg

def styles (a : TstPageAttr) (Char : Int) : List StyleUse :=
  if a.isGraphic Char then [(.g, a.fg), (.b, a.bg)] else [a.textStyle]

end TstPageAttr

/-! ## Markup -/

def flag (b : Bool) (text : String) : Str := if b then chars text else []

/-- A pixel and the ones like it, which have been counted. -/
def pixelHTML (classfg : Str) (fg p pcount : Nat) : Str :=
  chars "<td" ++ (if p = fg then classfg else []) ++
    (if 0 < pcount then chars " colspan=" ++ decNat (pcount + 1) else []) ++ chars "></td>"

def pixelsHTML (classfg : Str) (fg : Nat) : (p pcount : Nat) → List Nat → Str
  | p, pcount, [] => pixelHTML classfg fg p pcount
  | p, pcount, p1 :: line =>
    if p1 = p then pixelsHTML classfg fg p (pcount + 1) line
    else pixelHTML classfg fg p pcount ++ pixelsHTML classfg fg p1 0 line

/-- `tuxtxt_RenderGraphicHTML`, ten lines of twelve pixels. -/
def renderGraphicHTML (graphbuffer : Nat → Nat → Nat) (fgclass bgclass : Str)
    (a : TstPageAttr) : Str :=
  chars "<td " ++ flag a.doublew " COLSPAN=2" ++ flag a.doubleh " ROWSPAN=2" ++
    chars "><table class=" ++ bgclass ++
    chars " cellspacing=0 cellpadding=0><colgroup><col width=1 span=12></colgroup>" ++
    ((List.range 10).flatMap fun srow =>
      chars "<tr>" ++
        pixelsHTML (chars " class=" ++ fgclass) a.fg (graphbuffer srow 0) 0
          ((List.range 11).map fun scol => graphbuffer srow (scol + 1)) ++
        chars "</tr>\n") ++
    chars "</table></td>"

/-- The diacritical marks. -/
def dia : List Nat := [0x20, 0x300, 0x301, 0x302, 0x303, 0x304, 0x306, 0x307, 0x308, 0x323, 0x30a,
  0x317, 0x331, 0x30b, 0x316, 0x30c]

def characterHTML (Char : Int) (a : TstPageAttr) : Str :=
  if Char < 0 then chars "&nbsp;"
  else
    (if 0x20 < Char ∧ Char ≤ 0x7f then [Char.toNat.toUInt8]
      else chars "&#" ++ decInt Char ++ chars ";") ++
    if a.diacrit ≠ 0 ∧ a.diacrit < 16 then
      chars "&#" ++ decNat (dia.getD a.diacrit 0) ++ chars ";"
    else []

/-- `tuxtxt_RenderTextHTML` -/
def renderTextHTML (Char : Int) (cls : Str) (a : TstPageAttr) : Str :=
  chars "<td class=" ++ cls ++ flag a.doublew " COLSPAN=2" ++ flag a.doubleh " ROWSPAN=2" ++
    chars ">" ++ flag a.underline "<u>" ++ flag (a.flashing ≠ 0) "<blink>" ++
    characterHTML Char a ++
    flag a.underline "</u>" ++ flag (a.flashing ≠ 0) "</blink>" ++ chars "</td>"

/-- `tuxtxt_RenderLinkHTML` -/
def renderLinkHTML (number : Nat) (cls : Str) (a : TstPageAttr) : Str :=
  chars "<td class=" ++ cls ++ flag a.isDouble "D" ++ chars " COLSPAN=" ++
    decNat (if a.doublew then 6 else 3) ++ flag a.doubleh " ROWSPAN=2" ++ chars ">" ++
    flag a.underline "<u>" ++ chars "<a href=\"javascript:setpage(" ++ decNat number ++
    chars ",-1)\" class=" ++ cls ++ chars ">" ++ decNat number ++ chars "</a>" ++
    flag a.underline "</u>" ++ chars "</td>"

/-! ## The calls -/

structure TstHTML extends Page, Styles where
  row : Nat
  col : Nat
  pageinfo : Bool

/-- A cell, and the styles that are looked up for it. -/
structure Visit where
  cell : Nat
  styles : List StyleUse

namespace TstHTML

section
variable (h : TstHTML)

def cell : Nat := 40 * h.row + h.col

/-- The character of the cell. -/
def char (c : Charsets) : Int := renderChar c (h.page_char h.cell) (h.page_atrb h.cell)

/-- The attributes of the cell after `tuxtxt_RenderChar`. -/
def attr : TstPageAttr := swapInverted (h.page_char h.cell) (h.page_atrb h.cell)

/-- What both functions do to the page. -/
def covered : Page := (h.swap h.cell).cover h.row h.col

def nextRow : TstHTML := if h.col = 40 then { h with row := h.row + 1, col := 0 } else h

/-- `tuxtxt_RenderStylesHTML` -/
def renderStylesHTML (c : Charsets) : TstHTML × List Visit :=
  if 23 < h.row ∨ 40 ≤ h.col then (h, [])
  else if !h.pageinfo then ({ h with row := 24, col := 0 }, [])
  else
    let styles := h.attr.styles (h.char c)
    ({ h with
        toPage := h.covered
        toStyles := styles.foldl Styles.note h.toStyles
        col := h.col + 1 : TstHTML }.nextRow,
      [⟨h.cell, styles⟩])

end

end TstHTML

/-- Digits that have been read in this call, and their markup. -/
structure Digits where
  numberlink : Nat
  linkcount : Nat
  linkcolorstyle : Str
  nonumberlink : Str

namespace Digits

def none : Digits := ⟨0, 0, [], []⟩

def push (l : Digits) (Char : Int) (cls : Str) (a : TstPageAttr) : Digits where
  numberlink := l.numberlink * 10 + (Char.toNat &&& 0x0f)
  linkcount := l.linkcount + 1
  linkcolorstyle := if l.linkcount = 0 then cls else l.linkcolorstyle
  nonumberlink := l.nonumberlink ++ renderTextHTML Char cls a

/-- Three digits are a link to a page. -/
def html (l : Digits) (a : TstPageAttr) : Str :=
  if l.linkcount = 3 ∧ 100 ≤ l.numberlink ∧ l.numberlink < 900 then
    renderLinkHTML l.numberlink l.linkcolorstyle a
  else l.nonumberlink

end Digits

/-- The pixels that `tuxtxt_RenderChar` draws, and what is in the names of the graphic styles as
long as nothing has been written there. -/
structure Buffers where
  charbuffer : Nat → Nat → Nat → Nat
  graphfgstyle : Str
  graphbgstyle : Str

/-- What a call has visited and built. -/
structure Output where
  visits : List Visit
  nonumberlink : Str
  result : Str

namespace TstHTML

section
variable (c : Charsets) (e : Buffers) (h : TstHTML)

/-- A cell that is not a digit. -/
def cellHTML : Str :=
  let Char := h.char c
  let a := h.attr
  let graph := renderGraphicHTML (e.charbuffer h.cell)
  if Char = -1 then []
  else if a.isGraphic Char then
    graph (h.className (.g, a.fg)) (h.className (.b, a.bg)) a
  -- The names are written for normal size only.
  else if a.isDouble && Char = 0 then graph e.graphfgstyle e.graphbgstyle a
  else renderTextHTML (if Char = 0 then 0x20 else Char) (h.className a.textStyle) a

/-- The loop over digits. It goes to the end of the row at most. -/
def cells : (columns : Nat) → TstHTML → Digits → TstHTML × Output
  | 0, h, l => (h, ⟨[], l.nonumberlink, []⟩)
  | columns + 1, h, l =>
    let Char := h.char c
    let a := h.attr
    let visit : Visit := ⟨h.cell, a.styles Char⟩
    let next : TstHTML := { h with toPage := h.covered, col := h.col + 1 }
    if 0 < h.row ∧ 0x30 ≤ Char ∧ Char ≤ 0x39 then
      let l := l.push Char (h.className a.textStyle) a
      if next.col = 40 then (next, ⟨[visit], l.nonumberlink, l.html a⟩)
      else
        let (next, call) := cells columns next l
        (next, { call with visits := visit :: call.visits })
    else (next, ⟨[visit], l.nonumberlink, l.html a ++ h.cellHTML c e⟩)

def tableHTML : Str :=
  chars "<table border=0 cellspacing=0 cellpadding=0 style=\"" ++
    chars "table-layout:fixed;height=450;width=480\" >" ++
    chars "<colgroup><col width=12 span=40 /></colgroup>"

/-- `tuxtxt_RenderHTML` -/
def renderHTML : TstHTML × Output :=
  if 23 < h.row ∨ 40 ≤ h.col then (h, ⟨[], [], []⟩)
  else if !h.pageinfo then ({ h with row := 24 }, ⟨[], [], chars "Page not available"⟩)
  else
    let head := if h.row = 0 ∧ h.col = 0 then tableHTML else []
    let (next, call) := cells c e (40 - h.col) h .none
    let tail :=
      flag (next.col = 40) "</tr>\n" ++ flag (next.col = 40 && next.row = 23) "</table>\n"
    (next.nextRow, { call with result := head ++ flag (h.col = 0) "<tr>" ++ call.result ++ tail })

end

/-- The state that `tuxtxt_InitHTML` leaves. -/
def init (pageinfo : Bool) (p : Page) : TstHTML where
  toPage := p
  toStyles := .empty
  row := 0
  col := 0
  pageinfo := pageinfo

end TstHTML

/-! ## The whole page -/

/-- Calls until row 24. -/
def untilEnd {α : Type} (call : TstHTML → TstHTML × α) :
    (fuel : Nat) → TstHTML → TstHTML × List α
  | 0, h => (h, [])
  | fuel + 1, h =>
    if h.row < 24 then
      let (h, a) := call h
      let (h, l) := untilEnd call fuel h
      (h, a :: l)
    else (h, [])

/-- Both functions, as the page is sent. -/
structure Rendering where
  styled : TstHTML
  styles : List (List Visit)
  rendered : TstHTML
  calls : List Output

def Page.render (p : Page) (c : Charsets) (e : Buffers) (fuel : Nat) : Rendering :=
  let (styled, styles) := untilEnd (·.renderStylesHTML c) fuel (.init true p)
  let (rendered, calls) := untilEnd (·.renderHTML c e) fuel { styled with row := 0, col := 0 }
  ⟨styled, styles, rendered, calls⟩

end Tuxbox.Tuxtxt
