import Tuxbox.Tuxtxt.HtmlLength

/-! Both functions over a whole page.

* `render_inside_iff`. -/
namespace Tuxbox.Tuxtxt

/-- Nothing is written outside the tables and the buffers. -/
structure Rendering.Inside (r : Rendering) : Prop where
  styled : r.styled.row = 24
  rendered : r.rendered.row = 24
  stylesVisit : r.styles.flatten.map Visit.cell = List.range 960
  callsVisit : (r.calls.flatMap Output.visits).map Visit.cell = List.range 960
  stylesInRange : ∀ v ∈ r.styles.flatten, ∀ u ∈ v.styles, u.InRange
  callsInRange : ∀ v ∈ r.calls.flatMap Output.visits, ∀ u ∈ v.styles, u.InRange
  nonumberlink : ∀ o ∈ r.calls, o.nonumberlink.length < 300
  result : ∀ o ∈ r.calls, o.result.length < 4000

namespace Page

/-! ## Told from the page -/

section
variable (p : Page) (c : Charsets) (i : Nat)

def char : Int := renderChar c (p.page_char i) (p.page_atrb i)

/-- In the first function the colours of an inverted cell are exchanged. -/
def styledVisit : Visit :=
  ⟨i, (swapInverted (p.page_char i) (p.page_atrb i)).styles (p.char c i)⟩

def visit : Visit := ⟨i, (p.page_atrb i).styles (p.char c i)⟩

def stylesTo (n : Nat) : List StyleUse :=
  (List.range n).flatMap fun i => (p.styledVisit c i).styles

/-- Zero for a style that the first function has not seen. -/
def styleNumber (u : StyleUse) : Nat := place (Styles.ofKind (p.stylesTo c 960) u.1) u

def DigitAt : Prop := 0x30 ≤ p.char c i ∧ p.char c i ≤ 0x39

def digitLength : Nat :=
  let a := p.page_atrb i
  18 + hexDigits (p.styleNumber c a.textStyle) + attrLength a +
    if a.diacrit ≠ 0 ∧ a.diacrit < 16 then 6 else 0

/-- Colours of five bits, where they make an index. -/
def ColoursFit : Prop :=
  let a := p.page_atrb i
  if a.isGraphic (p.char c i) then a.fg < 32 ∧ a.bg < 32
  else
    (a.fg < 32 ∧ a.bg < 1024) ∧
      (p.page_char i ≠ 0xff ∧ a.inverted → a.bg < 32 ∧ a.fg < 1024)

def digitsLength (n : Nat) : Nat := ((List.range' i n).map (p.digitLength c)).sum

/-- The colours are indices, there are no graphics of double size, and no row has too long a
sequence of digits. -/
structure Fits : Prop where
  colours : ∀ i < 960, p.ColoursFit c i
  graphics : ∀ i < 960, ¬ ((p.page_atrb i).isDouble ∧ p.char c i = 0)
  digits : ∀ row col n, 0 < row → row < 24 → col + n ≤ 40 →
    (∀ i ∈ List.range' (40 * row + col) n, p.DigitAt c i) →
      p.digitsLength c (40 * row + col) n < 300

end

/-! ## The first function -/

section
variable {p q : Page} {c : Charsets} {i n : Nat}

/-- The page with all covered cells marked. -/
structure Shows (p q : Page) : Prop where
  page_char : ∀ i < 960, q.page_char i = (p.coveredTo i).page_char i
  page_atrb : ∀ i < 960, q.page_atrb i = (p.coveredTo i).page_atrb i
  marked : ∀ i < 960, ∀ j, (q.page_atrb i).Covers (i / 40) (i % 40) j → q.Marked j

theorem shows_coveredTo (p : Page) : Shows p (p.coveredTo 960) where
  page_char _ hi := (coveredTo_visited hi.le le_rfl).1
  page_atrb _ hi := (coveredTo_visited hi.le le_rfl).2
  marked _ hi _ := marked_of_covers hi

def styledAt (p q : Page) (c : Charsets) (n : Nat) : TstHTML where
  toPage := (p.coveredTo n).swapped (· < n)
  toStyles := (q.stylesTo c n).foldl Styles.note .empty
  row := n / 40
  col := n % 40
  pageinfo := true

theorem stylesTo_succ (n : Nat) :
    q.stylesTo c (n + 1) = q.stylesTo c n ++ (q.styledVisit c n).styles := by
  unfold stylesTo
  rw [List.range_succ, List.flatMap_append, List.flatMap_singleton]

theorem nextRow_eq {h : TstHTML} (hcell : h.cell = n) (hcol : h.col ≤ 40) :
    h.nextRow = { h with row := n / 40, col := n % 40 } := by
  unfold TstHTML.cell at hcell
  unfold TstHTML.nextRow
  split_ifs with hend
  · rw [TstHTML.mk.injEq]
    refine ⟨rfl, rfl, ?_, ?_, rfl⟩ <;> omega
  · obtain ⟨q, t, r, k, pageinfo⟩ := h
    rw [TstHTML.mk.injEq]
    dsimp only at hcell hcol hend ⊢
    refine ⟨rfl, rfl, ?_, ?_, rfl⟩ <;> omega

/-- One call visits one cell. -/
theorem styles_step (hq : Shows p q) (hn : n < 960) :
    (styledAt p q c n).renderStylesHTML c = (styledAt p q c (n + 1), [q.styledVisit c n]) := by
  have hchar := hq.page_char n hn
  have hatrb := hq.page_atrb n hn
  have hcell : (styledAt p q c n).cell = n := Nat.div_add_mod n 40
  have hold : ((p.coveredTo n).swapped (· < n)).page_atrb n = q.page_atrb n := by
    rw [hatrb]
    simp [swapped]
  have hvalue : (styledAt p q c n).char c = q.char c n := by
    unfold TstHTML.char Page.char
    rw [hcell]
    exact congrArg₂ (renderChar c) hchar.symm hold
  have hattr : (styledAt p q c n).attr = swapInverted (q.page_char n) (q.page_atrb n) := by
    unfold TstHTML.attr
    rw [hcell]
    exact congrArg₂ swapInverted hchar.symm hold
  have hcovered : (styledAt p q c n).covered = (p.coveredTo (n + 1)).swapped (· < n + 1) := by
    unfold TstHTML.covered
    rw [hcell]
    change (((p.coveredTo n).swapped (· < n)).swap n).cover (n / 40) (n % 40) = _
    rw [swap_below, cover_below (Nat.div_add_mod n 40).symm, coveredTo_succ]
  unfold TstHTML.renderStylesHTML
  have hin : ¬ (23 < (styledAt p q c n).row ∨ 40 ≤ (styledAt p q c n).col) := by
    change ¬ (23 < n / 40 ∨ 40 ≤ n % 40)
    omega
  rw [if_neg hin, show (styledAt p q c n).pageinfo = true from rfl, Bool.not_true,
    if_neg Bool.false_ne_true, hcovered, hattr, hvalue, hcell]
  dsimp only
  rw [nextRow_eq (n := n + 1)]
  · have hstyles : (q.stylesTo c (n + 1)).foldl Styles.note .empty =
        (q.styledVisit c n).styles.foldl Styles.note
          ((q.stylesTo c n).foldl Styles.note .empty) := by
      rw [stylesTo_succ, List.foldl_append]
    unfold styledAt
    rw [hstyles]
    rfl
  · change 40 * (n / 40) + (n % 40 + 1) = n + 1
    omega
  · change n % 40 + 1 ≤ 40
    omega

theorem styles_run (hq : Shows p q) (hn : n ≤ 960) {fuel : Nat} (hfuel : 960 - n ≤ fuel) :
    untilEnd (·.renderStylesHTML c) fuel (styledAt p q c n) =
      (styledAt p q c 960, (List.range' n (960 - n)).map fun i => [q.styledVisit c i]) := by
  induction fuel generalizing n with
  | zero =>
    obtain rfl : n = 960 := by omega
    rfl
  | succ fuel ih =>
    rw [untilEnd]
    by_cases hend : n = 960
    · subst hend
      rfl
    · have hrow : (styledAt p q c n).row < 24 := show n / 40 < 24 by omega
      rw [if_pos hrow, styles_step hq (by omega)]
      dsimp only
      rw [ih (by omega) (by omega), show 960 - n = 960 - (n + 1) + 1 by omega, List.range'_succ,
        List.map_cons]

end

/-! ## The second function -/

section
variable {p q : Page} {c : Charsets} {t : Styles} {e : Buffers} {row col i k n columns : Nat}
  {l : Digits}

def renderedAt (q : Page) (t : Styles) (row col : Nat) : TstHTML where
  toPage := q.swapped fun j => 40 * row + col ≤ j && j < 960
  toStyles := t
  row := row
  col := col
  pageinfo := true

/-- What the function sees at a cell. -/
structure Sees (q : Page) (c : Charsets) (t : Styles) (row col : Nat) : Prop where
  cell : (q.renderedAt t row col).cell = 40 * row + col
  char : (q.renderedAt t row col).char c = q.char c (40 * row + col)
  attr : (q.renderedAt t row col).attr = q.page_atrb (40 * row + col)
  next : { q.renderedAt t row col with
    toPage := (q.renderedAt t row col).covered
    col := (q.renderedAt t row col).col + 1 } = q.renderedAt t row (col + 1)

theorem sees (hq : Shows p q) (hrow : row < 24) (hcol : col < 40) : Sees q c t row col := by
  have hn : 40 * row + col < 960 := by omega
  have hold : (q.renderedAt t row col).page_atrb (40 * row + col) =
      swapInverted (q.page_char (40 * row + col)) (q.page_atrb (40 * row + col)) := by
    simp [renderedAt, swapped, hn]
  have hcover : ∀ j, (q.page_atrb (40 * row + col)).Covers row col j → q.Marked j := by
    have hmarked := hq.marked (40 * row + col) hn
    rwa [show (40 * row + col) / 40 = row by omega, show (40 * row + col) % 40 = col by omega]
      at hmarked
  refine ⟨rfl, ?_, ?_, ?_⟩
  · exact (congrArg (renderChar c _) hold).trans (renderChar_swapInverted _)
  · exact (congrArg (swapInverted _) hold).trans swapInverted_twice
  · have hcovered : (q.renderedAt t row col).covered =
        q.swapped fun j => 40 * row + col + 1 ≤ j && j < 960 := by
      change ((q.swapped fun j => 40 * row + col ≤ j && j < 960).swap
        (40 * row + col)).cover row col = _
      rw [swap_from hn, cover_marked hcover]
    rw [hcovered]
    rfl

/-- The markup of a digit. -/
def digitHTML (q : Page) (c : Charsets) (t : Styles) (i : Nat) : Str :=
  renderTextHTML (q.char c i) (t.className (q.page_atrb i).textStyle) (q.page_atrb i)

/-- Some digits of a row, and the cell behind them if there is one. -/
structure Reads (q : Page) (c : Charsets) (t : Styles) (e : Buffers) (row col columns : Nat)
    (l : Digits) (r : TstHTML × Output) (k : Nat) : Prop where
  le : k ≤ columns
  digits : ∀ i ∈ List.range' (40 * row + col) k, 0 < row ∧ q.DigitAt c i
  last : k < columns → ¬ (0 < row ∧ q.DigitAt c (40 * row + col + k))
  next : r.1 = q.renderedAt t row (col + min columns (k + 1))
  visits : r.2.visits = (List.range' (40 * row + col) (min columns (k + 1))).map (q.visit c)
  nonumberlink : r.2.nonumberlink =
    l.nonumberlink ++ (List.range' (40 * row + col) k).flatMap (q.digitHTML c t)
  result : ∃ l' a, (l.linkcolorstyle.length ≤ 5 → l'.linkcolorstyle.length ≤ 5) ∧
    l'.nonumberlink = r.2.nonumberlink ∧
      r.2.result = Digits.html l' a ++
        if k < columns then (q.renderedAt t row (col + k)).cellHTML c e else []

theorem length_push {Char : Int} {cls : Str} {a : TstPageAttr} (hcls : cls.length ≤ 5)
    (h : l.linkcolorstyle.length ≤ 5) : (l.push Char cls a).linkcolorstyle.length ≤ 5 := by
  unfold Digits.push
  dsimp only
  split_ifs
  · exact hcls
  · exact h

theorem cells_digit (hq : Shows p q) (hrow : row < 24) (hcol : col < 40)
    (hd : 0 < row ∧ q.DigitAt c (40 * row + col)) :
    TstHTML.cells c e (columns + 1) (q.renderedAt t row col) l =
      let a := q.page_atrb (40 * row + col)
      let l := l.push (q.char c (40 * row + col)) (t.className a.textStyle) a
      if col + 1 = 40 then
        (q.renderedAt t row (col + 1), ⟨[q.visit c (40 * row + col)], l.nonumberlink, l.html a⟩)
      else
        let r := TstHTML.cells c e columns (q.renderedAt t row (col + 1)) l
        (r.1, { r.2 with visits := q.visit c (40 * row + col) :: r.2.visits }) := by
  have h := sees (c := c) (t := t) hq hrow hcol
  rw [TstHTML.cells]
  dsimp only
  have hd' : 0 < (q.renderedAt t row col).row ∧ 0x30 ≤ q.char c (40 * row + col) ∧
      q.char c (40 * row + col) ≤ 0x39 := hd
  rw [h.char, h.attr, h.cell, if_pos hd']
  simp only [h.next]
  rfl

theorem cells_other (hq : Shows p q) (hrow : row < 24) (hcol : col < 40)
    (hd : ¬ (0 < row ∧ q.DigitAt c (40 * row + col))) :
    TstHTML.cells c e (columns + 1) (q.renderedAt t row col) l =
      (q.renderedAt t row (col + 1), ⟨[q.visit c (40 * row + col)], l.nonumberlink,
        l.html (q.page_atrb (40 * row + col)) ++ (q.renderedAt t row col).cellHTML c e⟩) := by
  have h := sees (c := c) (t := t) hq hrow hcol
  rw [TstHTML.cells]
  dsimp only
  have hd' : ¬ (0 < (q.renderedAt t row col).row ∧ 0x30 ≤ q.char c (40 * row + col) ∧
      q.char c (40 * row + col) ≤ 0x39) := hd
  rw [h.char, h.attr, h.cell, if_neg hd']
  simp only [h.next]
  rfl

theorem reads_other (hq : Shows p q) (hrow : row < 24) (hcol : col < 40)
    (hd : ¬ (0 < row ∧ q.DigitAt c (40 * row + col))) :
    Reads q c t e row col (columns + 1) l
      (TstHTML.cells c e (columns + 1) (q.renderedAt t row col) l) 0 := by
  rw [cells_other hq hrow hcol hd]
  have hmin : min (columns + 1) (0 + 1) = 1 := by omega
  constructor
  · exact Nat.zero_le _
  · exact fun i hi => absurd hi List.not_mem_nil
  · exact fun _ => hd
  · rw [hmin]
  · rw [hmin]
    rfl
  · exact (List.append_nil _).symm
  · exact ⟨l, _, id, rfl, by rw [if_pos (Nat.succ_pos columns)]; rfl⟩

/-- The digit in the last column. -/
theorem reads_end (hq : Shows p q) (hrow : row < 24) (hcol : col + 1 = 40)
    (hd : 0 < row ∧ q.DigitAt c (40 * row + col)) :
    Reads q c t e row col 1 l (TstHTML.cells c e 1 (q.renderedAt t row col) l) 1 := by
  rw [cells_digit hq hrow (by omega) hd]
  dsimp only
  rw [if_pos hcol]
  constructor
  · exact le_rfl
  · intro i hi
    rw [List.range'_one, List.mem_singleton] at hi
    rwa [hi]
  · exact fun h => absurd h (lt_irrefl 1)
  · rfl
  · rfl
  · rw [List.range'_one, List.flatMap_singleton]
    rfl
  · exact ⟨_, _, length_push (length_className_le _ _), rfl, (List.append_nil _).symm⟩

theorem reads_digit (hq : Shows p q) (hrow : row < 24) (hcol : col + 1 < 40)
    (hd : 0 < row ∧ q.DigitAt c (40 * row + col))
    (h : Reads q c t e row (col + 1) columns
      (l.push (q.char c (40 * row + col))
        (t.className (q.page_atrb (40 * row + col)).textStyle) (q.page_atrb (40 * row + col)))
      (TstHTML.cells c e columns (q.renderedAt t row (col + 1))
        (l.push (q.char c (40 * row + col))
          (t.className (q.page_atrb (40 * row + col)).textStyle) (q.page_atrb (40 * row + col)))) k) :
    Reads q c t e row col (columns + 1) l
      (TstHTML.cells c e (columns + 1) (q.renderedAt t row col) l) (k + 1) := by
  rw [cells_digit hq hrow (by omega) hd]
  dsimp only
  rw [if_neg (by omega)]
  have hmin : min (columns + 1) (k + 1 + 1) = min columns (k + 1) + 1 := by omega
  have hcell : 40 * row + (col + 1) = 40 * row + col + 1 := (Nat.add_assoc ..).symm
  constructor
  · exact Nat.succ_le_succ h.le
  · intro i hi
    rw [List.range'_succ, List.mem_cons] at hi
    rcases hi with rfl | hi
    · exact hd
    · exact h.digits i (hcell ▸ hi)
  · intro hlt
    have hlast := h.last (by omega)
    rwa [hcell, show 40 * row + col + 1 + k = 40 * row + col + (k + 1) by omega] at hlast
  · rw [h.next, hmin, Nat.add_assoc col 1, Nat.add_comm 1]
  · rw [h.visits, hmin, List.range'_succ, List.map_cons, hcell]
  · rw [h.nonumberlink, List.range'_succ, List.flatMap_cons, hcell, ← List.append_assoc]
    rfl
  · obtain ⟨l', a, hcls, hnonumberlink, hresult⟩ := h.result
    refine ⟨l', a, fun hl => hcls (length_push (length_className_le _ _) hl), hnonumberlink, ?_⟩
    rw [hresult, show col + 1 + k = col + (k + 1) by omega]
    simp only [Nat.succ_lt_succ_iff]

theorem cells_reads (hq : Shows p q) (hrow : row < 24) (hcol : col + (columns + 1) = 40)
    (l : Digits) : ∃ k, Reads q c t e row col (columns + 1) l
      (TstHTML.cells c e (columns + 1) (q.renderedAt t row col) l) k := by
  induction columns generalizing col l with
  | zero =>
    by_cases hd : 0 < row ∧ q.DigitAt c (40 * row + col)
    · exact ⟨1, reads_end hq hrow hcol hd⟩
    · exact ⟨0, reads_other hq hrow (by omega) hd⟩
  | succ columns ih =>
    by_cases hd : 0 < row ∧ q.DigitAt c (40 * row + col)
    · obtain ⟨k, hk⟩ := ih (show col + 1 + (columns + 1) = 40 by omega) _
      exact ⟨k + 1, reads_digit hq hrow (by omega) hd hk⟩
    · exact ⟨0, reads_other hq hrow (by omega) hd⟩

/-! ## A call -/

theorem length_html_le {a : TstPageAttr} (h : l.linkcolorstyle.length ≤ 5) :
    (l.html a).length ≤ max l.nonumberlink.length 130 := by
  unfold Digits.html
  split_ifs with hlink
  · exact (length_renderLinkHTML_le hlink.2.2 h a).trans (Nat.le_max_right _ _)
  · exact Nat.le_max_left _ _

theorem length_cellHTML_le {h : TstHTML} (hgraphics : ¬ (h.attr.isDouble ∧ h.char c = 0)) :
    (h.cellHTML c e).length ≤ 2800 := by
  have hclass (u : StyleUse) := length_className_le h.toStyles u
  have hchar : (if h.char c = 0 then 0x20 else h.char c) < 65536 := by
    have hcases := renderChar_cases c (h.page_char h.cell) (h.page_atrb h.cell)
    change h.char c ≤ 0 ∨ 0x20 < h.char c ∧ h.char c < 65536 at hcases
    split_ifs <;> omega
  unfold TstHTML.cellHTML
  dsimp only
  by_cases hcovered : h.char c = -1
  · rw [if_pos hcovered]
    exact Nat.zero_le _
  · rw [if_neg hcovered]
    by_cases hgraph : h.attr.isGraphic (h.char c) = true
    · rw [if_pos hgraph]
      exact length_renderGraphicHTML_le _ (hclass _) (hclass _) _
    · have hdouble : ¬ (h.attr.isDouble && decide (h.char c = 0)) = true := by
        rwa [Bool.and_eq_true, decide_eq_true_eq]
      rw [if_neg hgraph, if_neg hdouble]
      have htext := length_renderTextHTML_le hchar (hclass h.attr.textStyle) h.attr
      omega

/-- The name of the background style has not been written then. -/
theorem le_length_cellHTML {h : TstHTML} (hgraphics : h.attr.isDouble ∧ h.char c = 0) :
    e.graphbgstyle.length ≤ (h.cellHTML c e).length := by
  obtain ⟨hdouble, hchar⟩ := hgraphics
  unfold TstHTML.cellHTML TstPageAttr.isGraphic
  simp only [hdouble, hchar]
  exact le_length_renderGraphicHTML _ _ _ _

theorem length_flag_le (b : Bool) (s : String) : (flag b s).length ≤ (chars s).length := by
  cases b
  · exact Nat.zero_le _
  · exact le_rfl

theorem length_head_le (h : TstHTML) :
    (if h.row = 0 ∧ h.col = 0 then TstHTML.tableHTML else []).length ≤ 138 := by
  split_ifs
  · exact Nat.le_of_eq rfl
  · exact Nat.zero_le _

/-- The cells that a call visits. -/
def visited (n k : Nat) : Nat := min (40 - n % 40) (k + 1)

structure CallAt (q : Page) (c : Charsets) (t : Styles) (e : Buffers) (n k : Nat) (o : Output) :
    Prop where
  le : n % 40 + k ≤ 40
  digits : ∀ i ∈ List.range' n k, 0 < n / 40 ∧ q.DigitAt c i
  last : n % 40 + k < 40 → ¬ (0 < n / 40 ∧ q.DigitAt c (n + k))
  visits : o.visits = (List.range' n (visited n k)).map (q.visit c)
  nonumberlink : o.nonumberlink = (List.range' n k).flatMap (q.digitHTML c t)
  result_le : (∀ i < 960, ¬ ((q.page_atrb i).isDouble ∧ q.char c i = 0)) →
    o.result.length ≤ 3200 + max o.nonumberlink.length 130
  le_result : n % 40 + k < 40 → (q.page_atrb (n + k)).isDouble ∧ q.char c (n + k) = 0 →
    e.graphbgstyle.length ≤ o.result.length

theorem call_at (hq : Shows p q) (hn : n < 960) :
    ∃ k, ((q.renderedAt t (n / 40) (n % 40)).renderHTML c e).1 =
        q.renderedAt t ((n + visited n k) / 40) ((n + visited n k) % 40) ∧
      CallAt q c t e n k ((q.renderedAt t (n / 40) (n % 40)).renderHTML c e).2 := by
  have hrow : n / 40 < 24 := by omega
  have hcell : 40 * (n / 40) + n % 40 = n := Nat.div_add_mod n 40
  obtain ⟨columns, hcolumns⟩ : ∃ m, 40 - n % 40 = m + 1 := ⟨39 - n % 40, by omega⟩
  obtain ⟨k, hk⟩ := cells_reads (c := c) (t := t) (e := e) hq hrow
    (show n % 40 + (columns + 1) = 40 by omega) .none
  have hin : ¬ (23 < (q.renderedAt t (n / 40) (n % 40)).row ∨
      40 ≤ (q.renderedAt t (n / 40) (n % 40)).col) := by
    change ¬ (23 < n / 40 ∨ 40 ≤ n % 40)
    omega
  have hend : n % 40 + visited n k ≤ 40 := by
    unfold visited
    omega
  have hvisited : visited n k = min (columns + 1) (k + 1) := by rw [visited, hcolumns]
  have hlast : 0 < n / 40 ∧ q.DigitAt c (n + k) → ¬ n % 40 + k < 40 := by
    intro hd hlt
    have hnot := hk.last (by omega)
    rw [hcell] at hnot
    exact hnot hd
  refine ⟨k, ?_, ?_⟩
  all_goals
    unfold TstHTML.renderHTML
    rw [if_neg hin, show (q.renderedAt t (n / 40) (n % 40)).pageinfo = true from rfl, Bool.not_true,
      if_neg Bool.false_ne_true, show 40 - (q.renderedAt t (n / 40) (n % 40)).col = columns + 1
      from hcolumns]
    dsimp only
  · rw [hk.next, ← hvisited, nextRow_eq (n := n + visited n k)]
    · unfold renderedAt
      rw [← Nat.add_assoc, hcell, Nat.div_add_mod]
    · change 40 * (n / 40) + (n % 40 + visited n k) = n + visited n k
      omega
    · exact hend
  · have hle := hk.le
    have hdigits := hk.digits
    have hvisits := hk.visits
    have hnonumberlink := hk.nonumberlink
    have hlast := hk.last
    rw [hcell] at hdigits hvisits hnonumberlink hlast
    obtain ⟨l', a, hcls, hl', hresult⟩ := hk.result
    constructor
    · omega
    · exact hdigits
    · exact fun hlt => hlast (by omega)
    · rw [hvisits, hvisited]
    · exact hnonumberlink
    · intro hgraphics
      have hhtml := length_html_le (l := l') (a := a) (hcls (Nat.zero_le 5))
      have htail : (if k < columns + 1 then
          (q.renderedAt t (n / 40) (n % 40 + k)).cellHTML c e else []).length ≤ 2800 := by
        split_ifs with hk'
        · apply length_cellHTML_le
          have h := sees (c := c) (t := t) hq hrow (show n % 40 + k < 40 by omega)
          rw [h.attr, h.char]
          exact hgraphics _ (by omega)
        · exact Nat.zero_le _
      dsimp only
      rw [hresult]
      rw [hl'] at hhtml
      have hhead := length_head_le (q.renderedAt t (n / 40) (n % 40))
      have htr (b : Bool) : (flag b "<tr>").length ≤ 4 := length_flag_le b "<tr>"
      have hrowEnd (b : Bool) : (flag b "</tr>\n").length ≤ 6 := length_flag_le b "</tr>\n"
      have htable (b : Bool) : (flag b "</table>\n").length ≤ 9 := length_flag_le b "</table>\n"
      simp only [List.length_append]
      grw [hhead, htr, hhtml, htail, hrowEnd, htable]
      omega
    · intro hlt hdouble
      have htail :
        e.graphbgstyle.length ≤ ((q.renderedAt t (n / 40) (n % 40 + k)).cellHTML c e).length := by
        apply le_length_cellHTML
        have h := sees (c := c) (t := t) hq hrow hlt
        rw [h.attr, h.char, ← Nat.add_assoc, hcell]
        exact hdouble
      dsimp only
      rw [hresult, if_pos (show k < columns + 1 by omega)]
      simp only [List.length_append]
      omega

/-! ## All calls -/

/-- The calls from a cell on. -/
structure Calls (q : Page) (c : Charsets) (t : Styles) (e : Buffers) (n : Nat)
    (r : TstHTML × List Output) : Prop where
  rendered : r.1 = q.renderedAt t 24 0
  visits : r.2.flatMap Output.visits = (List.range' n (960 - n)).map (q.visit c)
  at_cell : ∀ o ∈ r.2, ∃ m < 960, ∃ k, CallAt q c t e m k o
  reached : ∀ i, n ≤ i → i < 960 →
    ∃ o ∈ r.2, ∃ m ≤ i, ∃ k, i < m + visited m k ∧ CallAt q c t e m k o

theorem calls_nil : Calls q c t e 960 (q.renderedAt t 24 0, []) where
  rendered := rfl
  visits := rfl
  at_cell _ ho := absurd ho List.not_mem_nil
  reached _ hi hlt := absurd hlt (Nat.not_lt.mpr hi)

theorem calls_run (hq : Shows p q) (hn : n ≤ 960) {fuel : Nat} (hfuel : 960 - n ≤ fuel) :
    Calls q c t e n
      (untilEnd (·.renderHTML c e) fuel (q.renderedAt t (n / 40) (n % 40))) := by
  induction fuel generalizing n with
  | zero =>
    obtain rfl : n = 960 := by omega
    exact calls_nil
  | succ fuel ih =>
    rw [untilEnd]
    by_cases hend : n = 960
    · subst hend
      exact calls_nil
    · have hrow : (q.renderedAt t (n / 40) (n % 40)).row < 24 := show n / 40 < 24 by omega
      obtain ⟨k, hnext, hcall⟩ := call_at (c := c) (t := t) (e := e) hq (show n < 960 by omega)
      have hle := hcall.le
      have hpos : 0 < visited n k ∧ n % 40 + visited n k ≤ 40 := by
        unfold visited
        omega
      have hrest := ih (n := n + visited n k) (by omega) (by omega)
      rw [if_pos hrow]
      dsimp only
      rw [hnext]
      constructor
      · exact hrest.rendered
      · rw [List.flatMap_cons, hrest.visits, hcall.visits, ← List.map_append,
          List.range'_append_1]
        congr 2
        omega
      · intro o ho
        rcases List.mem_cons.mp ho with rfl | ho
        · exact ⟨n, by omega, k, hcall⟩
        · exact hrest.at_cell o ho
      · intro i hi hlt
        by_cases hfirst : i < n + visited n k
        · exact ⟨_, List.mem_cons_self, n, hi, k, hfirst, hcall⟩
        · obtain ⟨o, ho, hreached⟩ := hrest.reached i (by omega) hlt
          exact ⟨o, List.mem_cons_of_mem _ ho, hreached⟩

/-! ## What fits -/

theorem stylenr_lt_iff (a : TstPageAttr) : a.stylenr < 1024 ↔ a.fg < 32 ∧ a.bg < 1024 := by
  have hshift : a.fg <<< 5 = a.fg * 32 := Nat.shiftLeft_eq a.fg 5
  unfold TstPageAttr.stylenr
  constructor
  · intro h
    have hfg : a.fg <<< 5 ≤ a.fg <<< 5 ||| a.bg := Nat.left_le_or
    have hbg : a.bg ≤ a.fg <<< 5 ||| a.bg := Nat.right_le_or
    omega
  · rintro ⟨hfg, hbg⟩
    exact Nat.or_lt_two_pow (n := 10) (by omega) hbg

theorem styles_inRange_iff (a : TstPageAttr) (Char : Int) :
    (∀ u ∈ a.styles Char, u.InRange) ↔
      if a.isGraphic Char then a.fg < 32 ∧ a.bg < 32 else a.fg < 32 ∧ a.bg < 1024 := by
  unfold TstPageAttr.styles
  split_ifs
  · simp [StyleUse.InRange, StyleKind.size]
  · rw [List.forall_mem_singleton, ← stylenr_lt_iff]
    unfold StyleUse.InRange TstPageAttr.textStyle
    split_ifs <;> rfl

theorem isGraphic_swapInverted (d : Byte) (a : TstPageAttr) (Char : Int) :
    (swapInverted d a).isGraphic Char = a.isGraphic Char := by
  unfold swapInverted TstPageAttr.isGraphic TstPageAttr.isDouble
  split_ifs
  · simp only [ne_comm]
  · rfl

theorem inRange_iff (q : Page) (c : Charsets) (i : Nat) :
    ((∀ u ∈ (q.styledVisit c i).styles, u.InRange) ∧ ∀ u ∈ (q.visit c i).styles, u.InRange) ↔
      q.ColoursFit c i := by
  unfold styledVisit visit ColoursFit
  dsimp only
  rw [styles_inRange_iff, styles_inRange_iff, isGraphic_swapInverted]
  unfold swapInverted
  by_cases hswap : q.page_char i ≠ 0xFF ∧ (q.page_atrb i).inverted = true
  · rw [if_pos hswap]
    split_ifs
    · exact ⟨fun h => h.2, fun h => ⟨h.symm, h⟩⟩
    · exact ⟨fun h => ⟨h.2, fun _ => h.1⟩, fun h => ⟨h.2 hswap, h.1⟩⟩
  · rw [if_neg hswap]
    split_ifs
    · exact and_self_iff
    · exact ⟨fun h => ⟨h.2, fun h' => absurd h' hswap⟩, fun h => ⟨h.1, h.1⟩⟩

theorem length_stylesTo_le (n : Nat) : (q.stylesTo c n).length ≤ 2 * n := by
  induction n with
  | zero => exact Nat.le_refl 0
  | succ n ih =>
    have htwo : (q.styledVisit c n).styles.length ≤ 2 := by
      unfold styledVisit TstPageAttr.styles
      dsimp only
      split_ifs
      · exact le_rfl
      · exact Nat.le_succ 1
    rw [stylesTo_succ, List.length_append]
    omega

/-- A digit is as long as the page says. -/
theorem length_digitHTML (ht : Styles.Numbered t (q.stylesTo c 960)) (hd : q.DigitAt c i) :
    (q.digitHTML c t i).length = q.digitLength c i := by
  have hlength := length_stylesTo_le (q := q) (c := c) 960
  have hplace := place_le (Styles.ofKind (q.stylesTo c 960) (q.page_atrb i).textStyle.1)
    (q.page_atrb i).textStyle
  have hkind := List.length_filter_le (fun u : StyleUse => u.1 = (q.page_atrb i).textStyle.1)
    (q.stylesTo c 960)
  have hnumber := ht.toNat (u := (q.page_atrb i).textStyle) (by omega)
  have hletter : (q.page_atrb i).textStyle.1.letter.length = 1 := by
    cases (q.page_atrb i).textStyle.1 <;> rfl
  have hclass : (t.className (q.page_atrb i).textStyle).length =
      1 + hexDigits (q.styleNumber c (q.page_atrb i).textStyle) := by
    unfold styleNumber
    unfold Styles.ofKind at hplace hnumber ⊢
    rw [Styles.className, List.length_append, hletter, hnumber, length_numeral (by omega)]
  obtain ⟨hlow, hhigh⟩ := hd
  unfold digitHTML digitLength
  rw [length_renderTextHTML, length_characterHTML (by omega), hclass, if_pos (by omega)]
  dsimp only
  omega

theorem length_digits (ht : Styles.Numbered t (q.stylesTo c 960))
    (hd : ∀ i ∈ List.range' n k, q.DigitAt c i) :
    ((List.range' n k).flatMap (q.digitHTML c t)).length = q.digitsLength c n k := by
  have hmap : (List.range' n k).map (fun i => (q.digitHTML c t i).length) =
      (List.range' n k).map (q.digitLength c) :=
    List.map_congr_left fun i hi => length_digitHTML ht (hd i hi)
  rw [List.length_flatMap, hmap, digitsLength]

/-- A part of a sequence of digits is not longer. -/
theorem digitsLength_le {m : Nat} (hn : n ≤ i) (hk : i + m ≤ n + k) :
    q.digitsLength c i m ≤ q.digitsLength c n k := by
  obtain ⟨before, rfl⟩ := Nat.exists_eq_add_of_le hn
  obtain ⟨after, rfl⟩ : ∃ after, k = before + (m + after) := ⟨k - before - m, by omega⟩
  unfold digitsLength
  rw [← List.range'_append_1, ← List.range'_append_1, List.map_append, List.map_append,
    List.sum_append, List.sum_append]
  omega

theorem le_digitsLength (q : Page) (c : Charsets) (i n : Nat) : 19 * n ≤ q.digitsLength c i n := by
  induction n generalizing i with
  | zero => exact Nat.zero_le _
  | succ n ih =>
    have hfirst : 19 ≤ q.digitLength c i := by
      have hhex : 1 ≤ hexDigits (q.styleNumber c (q.page_atrb i).textStyle) := by
        unfold hexDigits
        split_ifs <;> omega
      unfold digitLength
      dsimp only
      omega
    have hrest := ih (i + 1)
    unfold digitsLength at hrest ⊢
    rw [List.range'_succ, List.map_cons, List.sum_cons]
    omega

/-! ## The result -/

theorem init_eq (p : Page) : TstHTML.init true p = styledAt p q c 0 := by
  unfold TstHTML.init styledAt
  have hpage : (p.coveredTo 0).swapped (· < 0) = p := by
    unfold swapped coveredTo
    simp
  rw [hpage]
  rfl

theorem swapped_visited (r : Page) (m : Nat) :
    r.swapped (· < m) = r.swapped fun j => 40 * 0 + 0 ≤ j && j < m := by
  apply swapped_congr
  intro j
  simp

theorem restart_eq (h : p.coveredTo 960 = q) :
    { styledAt p q c 960 with row := 0, col := 0 } =
      q.renderedAt ((q.stylesTo c 960).foldl Styles.note .empty) 0 0 := by
  unfold styledAt renderedAt
  rw [h, swapped_visited]

/-- The whole run: what the first function visits, and the calls of the second one. -/
theorem render_eq (hq : Shows p q) (h : p.coveredTo 960 = q) {fuel : Nat} (hfuel : 960 ≤ fuel) :
    ∃ r, Calls q c ((q.stylesTo c 960).foldl Styles.note .empty) e 0 r ∧
      p.render c e fuel = ⟨styledAt p q c 960,
        (List.range' 0 960).map fun i => [q.styledVisit c i], r.1, r.2⟩ := by
  refine ⟨_, calls_run hq (Nat.zero_le 960) hfuel, ?_⟩
  unfold Page.render
  rw [init_eq (q := q) (c := c), styles_run hq (Nat.zero_le 960) hfuel]
  dsimp only
  rw [restart_eq h]

theorem flatten_singletons {α β : Type} (f : α → β) (l : List α) :
    (l.map fun i => [f i]).flatten = l.map f := by
  induction l with
  | nil => rfl
  | cons a l ih => rw [List.map_cons, List.flatten_cons, ih, List.map_cons, List.singleton_append]

theorem map_visit_cell (l : List Nat) : (l.map (q.visit c)).map Visit.cell = l := by
  rw [List.map_map]
  exact List.map_id l

theorem map_styledVisit_cell (l : List Nat) : (l.map (q.styledVisit c)).map Visit.cell = l := by
  rw [List.map_map]
  exact List.map_id l

theorem inside_of_fits (hq : Shows p q) (h : p.coveredTo 960 = q) (hfits : q.Fits c) {fuel : Nat}
    (hfuel : 960 ≤ fuel) : (p.render c e fuel).Inside := by
  obtain ⟨r, hcalls, heq⟩ := render_eq (c := c) (e := e) hq h hfuel
  have hlength := length_stylesTo_le (q := q) (c := c) 960
  have hnumbered := Styles.numbered_foldl (q.stylesTo c 960) (by omega)
  rw [heq]
  have hdigits : ∀ o ∈ r.2, o.nonumberlink.length < 300 := by
    intro o ho
    obtain ⟨n, hn, k, hcall⟩ := hcalls.at_cell o ho
    rw [hcall.nonumberlink,
      length_digits hnumbered fun i hi => (hcall.digits i hi).2]
    cases k with
    | zero => exact Nat.zero_lt_succ 299
    | succ k =>
      have hrow := (hcall.digits n (by simp)).1
      have hfit := hfits.digits (n / 40) (n % 40) (k + 1) hrow (by omega) hcall.le
      rw [Nat.div_add_mod] at hfit
      exact hfit fun i hi => (hcall.digits i hi).2
  have hrange : ∀ i ∈ List.range' 0 960, i < 960 := by
    intro i hi
    rw [List.mem_range'_1] at hi
    omega
  constructor
  · rfl
  · exact congrArg TstHTML.row hcalls.rendered
  · rw [flatten_singletons, map_styledVisit_cell, List.range_eq_range']
  · rw [hcalls.visits, map_visit_cell, List.range_eq_range']
  · intro v hv
    rw [flatten_singletons] at hv
    obtain ⟨i, hi, rfl⟩ := List.mem_map.mp hv
    exact ((inRange_iff q c i).mpr (hfits.colours i (hrange i hi))).1
  · intro v hv
    rw [hcalls.visits] at hv
    obtain ⟨i, hi, rfl⟩ := List.mem_map.mp hv
    exact ((inRange_iff q c i).mpr (hfits.colours i (hrange i hi))).2
  · exact hdigits
  · intro o ho
    obtain ⟨n, hn, k, hcall⟩ := hcalls.at_cell o ho
    have hresult := hcall.result_le hfits.graphics
    have hnonumberlink := hdigits o ho
    omega

/-- Names of any length may be where nothing has been written. -/
theorem fits_of_inside (hq : Shows p q) (h : p.coveredTo 960 = q)
    (hinside : ∀ e, (p.render c e 960).Inside) : q.Fits c := by
  have hlength := length_stylesTo_le (q := q) (c := c) 960
  have hnumbered := Styles.numbered_foldl (q.stylesTo c 960) (by omega)
  have hrange : ∀ i < 960, i ∈ List.range' 0 960 := by
    intro i hi
    rw [List.mem_range'_1]
    omega
  constructor
  · intro i hi
    obtain ⟨r, hcalls, heq⟩ := render_eq (c := c) (e := ⟨fun _ _ _ => 0, [], []⟩) hq h le_rfl
    have hin := hinside ⟨fun _ _ _ => 0, [], []⟩
    rw [heq] at hin
    apply (inRange_iff q c i).mp
    constructor
    · apply hin.stylesInRange
      rw [flatten_singletons]
      exact List.mem_map_of_mem (hrange i hi)
    · apply hin.callsInRange
      rw [hcalls.visits]
      exact List.mem_map_of_mem (hrange i hi)
  · intro i hi hdouble
    obtain ⟨r, hcalls, heq⟩ :=
      render_eq (c := c) (e := ⟨fun _ _ _ => 0, [], List.replicate 4000 0⟩) hq h le_rfl
    have hin := hinside ⟨fun _ _ _ => 0, [], List.replicate 4000 0⟩
    rw [heq] at hin
    obtain ⟨o, ho, n, hn, k, hlt, hcall⟩ := hcalls.reached i (Nat.zero_le i) hi
    unfold visited at hlt
    -- It is not a digit, so it is the last cell of its call.
    have hlast : ¬ i < n + k := by
      intro hbefore
      obtain ⟨-, hd, -⟩ := hcall.digits i (List.mem_range'_1.mpr ⟨hn, hbefore⟩)
      omega
    obtain rfl : i = n + k := by omega
    have hlong := hcall.le_result (by omega) hdouble
    have hshort := hin.result o ho
    rw [List.length_replicate] at hlong
    omega
  · intro row col m hrow hlast hle hd
    obtain ⟨r, hcalls, heq⟩ := render_eq (c := c) (e := ⟨fun _ _ _ => 0, [], []⟩) hq h le_rfl
    have hin := hinside ⟨fun _ _ _ => 0, [], []⟩
    rw [heq] at hin
    rcases Nat.eq_zero_or_pos m with rfl | hpos
    · exact Nat.zero_lt_succ 299
    obtain ⟨o, ho, n, hn, k, hlt, hcall⟩ :=
      hcalls.reached (40 * row + col) (Nat.zero_le _) (by omega)
    unfold visited at hlt
    have hsame : n / 40 = row := by omega
    have hstop : ∀ i ∈ List.range' (40 * row + col) m, i ≠ n + k := by
      rintro i hi rfl
      have hbehind := hcall.last (by rw [List.mem_range'_1] at hi; omega)
      exact hbehind ⟨hsame ▸ hrow, hd _ hi⟩
    have hbegin := hstop (40 * row + col) (List.mem_range'_1.mpr ⟨le_rfl, by omega⟩)
    have hend : 40 * row + col + m ≤ n + k := by
      by_contra hlong
      exact hstop (n + k) (List.mem_range'_1.mpr ⟨by omega, by omega⟩) rfl
    have hshort := hin.nonumberlink o ho
    rw [hcall.nonumberlink,
      length_digits hnumbered fun i hi => (hcall.digits i hi).2] at hshort
    exact Nat.lt_of_le_of_lt (digitsLength_le hn hend) hshort

end

end Page

/-- The output stays inside its buffers, whatever is drawn and wherever the buffers are, if and only
if the page fits. -/
theorem render_inside_iff (p : Page) (c : Charsets) :
    (∀ e fuel, 960 ≤ fuel → (p.render c e fuel).Inside) ↔ (p.coveredTo 960).Fits c := by
  have hq := Page.shows_coveredTo p
  constructor
  · intro h
    exact Page.fits_of_inside hq rfl fun e => h e 960 le_rfl
  · intro h e fuel hfuel
    exact Page.inside_of_fits hq rfl h hfuel

/-! ## Pages that do not fit -/

def whiteOnBlack : TstPageAttr where
  fg := tuxtxt_color_white
  bg := tuxtxt_color_black
  charset := C_G0P
  doubleh := false
  doublew := false
  IgnoreAtBlackBgSubst := false
  concealed := false
  inverted := false
  flashing := 0
  diacrit := 0
  underline := false
  boxwin := false
  setX26 := false
  setG0G2 := 0x3f

/-- Row 1 is full of digits. -/
def digitRow : Page where
  page_char i := if i / 40 = 1 then 0x31 else 0x20
  page_atrb _ := whiteOnBlack

/-- A boxed page without a box: both colours are `tuxtxt_color_transp`. -/
def transparent : Page where
  page_char _ := 0x20
  page_atrb _ := { whiteOnBlack with fg := 35, bg := 35 }

/-- A block mosaic of double size in the first cell of row 1. -/
def doubleMosaic : Page where
  page_char i := if i = 40 then 0x35 else 0x20
  page_atrb i :=
    if i = 40 then { whiteOnBlack with charset := C_G1C, doubleh := true, doublew := true }
    else whiteOnBlack

def english : Charsets := ⟨2, 2, fun _ => 0⟩

/-- None of them has all of its output inside the buffers. -/
theorem pages_outside :
    (¬ ∀ e fuel, 960 ≤ fuel → (digitRow.render english e fuel).Inside) ∧
      (¬ ∀ e fuel, 960 ≤ fuel → (transparent.render english e fuel).Inside) ∧
        ¬ ∀ e fuel, 960 ≤ fuel → (doubleMosaic.render english e fuel).Inside := by
  refine ⟨fun h => ?_, fun h => ?_, fun h => ?_⟩
  · have hfits := Page.fits_of_inside (Page.shows_coveredTo _) rfl fun e => h e 960 le_rfl
    rw [Page.coveredTo_eq_self fun _ _ => ⟨rfl, rfl⟩] at hfits
    have hdigit : ∀ i ∈ List.range' (40 * 1 + 0) 16, digitRow.DigitAt english i := by
      intro i hi
      have hrow : i / 40 = 1 := by
        rw [List.mem_range'_1] at hi
        omega
      have hchar : digitRow.page_char i = 0x31 := if_pos hrow
      unfold Page.DigitAt Page.char
      rw [hchar, show digitRow.page_atrb i = whiteOnBlack from rfl]
      decide
    have hshort := hfits.digits 1 0 16 (by decide) (by decide) (by decide) hdigit
    have hlong := digitRow.le_digitsLength english (40 * 1 + 0) 16
    omega
  · have hfits := Page.fits_of_inside (Page.shows_coveredTo _) rfl fun e => h e 960 le_rfl
    rw [Page.coveredTo_eq_self fun _ _ => ⟨rfl, rfl⟩] at hfits
    have hcolours := hfits.colours 0 (by decide)
    unfold Page.ColoursFit at hcolours
    exact absurd hcolours (by decide)
  · have hq := Page.shows_coveredTo doubleMosaic
    have hfits := Page.fits_of_inside hq rfl fun e => h e 960 le_rfl
    have hself : doubleMosaic.coveredTo 40 = doubleMosaic := by
      apply Page.coveredTo_eq_self
      intro i hi
      have hatrb : doubleMosaic.page_atrb i = whiteOnBlack := if_neg hi.ne
      rw [hatrb]
      exact ⟨rfl, rfl⟩
    have hchar := hq.page_char 40 (by decide)
    have hatrb := hq.page_atrb 40 (by decide)
    rw [hself] at hchar hatrb
    have hgraphics := hfits.graphics 40 (by decide)
    unfold Page.char at hgraphics
    rw [hchar, hatrb] at hgraphics
    exact absurd hgraphics (by decide)

end Tuxbox.Tuxtxt
