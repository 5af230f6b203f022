import Mathlib.Algebra.Order.BigOperators.Group.List
import Tuxbox.Tuxtxt.HtmlPage

/-! How long the markup of a cell is.

* `Page.digitLength`: a digit, told from the page;
* `length_renderTextHTML_le`, `length_renderGraphicHTML_le`: any cell. -/
namespace Tuxbox.Tuxtxt

/-! ## Numerals -/

def hexDigits (n : Nat) : Nat := if n < 16 then 1 else if n < 256 then 2 else 3

theorem length_numeral {n : Nat} (h : n < 4096) : (numeral 16 n).length = hexDigits n := by
  unfold hexDigits
  rw [numeral_eq (by decide) (by decide)]
  split_ifs with h1 h2
  · rfl
  · rw [numeral_eq (by decide) (by decide), if_pos (by omega)]
    rfl
  · rw [numeral_eq (by decide) (by decide), if_neg (by omega), numeral_eq (by decide) (by decide),
      if_pos (by omega)]
    rfl

theorem length_numeral_le (n : UInt16) : (numeral 16 n.toNat).length ≤ 4 := by
  have hlt : n.toNat < 16 ^ 4 := n.toNat_lt
  unfold numeral
  rw [List.length_map]
  exact (Nat.length_toDigits_le_iff (by decide) (by decide)).mpr hlt

theorem length_className_le (t : Styles) (u : StyleUse) : (t.className u).length ≤ 5 := by
  have hnumeral := length_numeral_le (t.cstyles u)
  obtain ⟨k, s⟩ := u
  have hletter : k.letter.length = 1 := by cases k <;> rfl
  rw [Styles.className, List.length_append, hletter]
  omega

theorem length_decNat_le {n : Nat} (h : n < 100000) : (decNat n).length ≤ 5 :=
  decNat_length_le (b := 99999) (by omega)

theorem length_decNat_number {n : Nat} (h : n < 900) : (decNat n).length ≤ 3 :=
  decNat_length_le (b := 899) (by omega)

theorem length_flag (b : Bool) (s : String) :
    (flag b s).length = if b then (chars s).length else 0 := by
  cases b <;> rfl

/-! ## Text -/

theorem length_dia {d : Nat} (h : d ≠ 0 ∧ d < 16) : (decNat (dia.getD d 0)).length = 3 := by
  obtain ⟨h0, hlt⟩ := h
  interval_cases d <;> first | exact absurd rfl h0 | rfl

theorem length_characterHTML {Char : Int} {a : TstPageAttr} (h : 0 ≤ Char) :
    (characterHTML Char a).length =
      (if 0x20 < Char ∧ Char ≤ 0x7f then 1 else 3 + (decNat Char.natAbs).length) +
        if a.diacrit ≠ 0 ∧ a.diacrit < 16 then 6 else 0 := by
  unfold characterHTML decInt
  rw [if_neg (Int.not_lt.mpr h), if_neg (Int.not_lt.mpr h), List.length_append]
  congr 1
  · split_ifs
    · rfl
    · rw [List.length_append, List.length_append, show (chars "&#").length = 2 from rfl,
        show (chars ";").length = 1 from rfl]
      omega
  · by_cases hdia : a.diacrit ≠ 0 ∧ a.diacrit < 16
    · rw [if_pos hdia, if_pos hdia, List.length_append, List.length_append, length_dia hdia]
      rfl
    · rw [if_neg hdia, if_neg hdia]
      rfl

theorem length_characterHTML_le {Char : Int} (h : Char < 65536) (a : TstPageAttr) :
    (characterHTML Char a).length ≤ 14 := by
  by_cases hneg : Char < 0
  · unfold characterHTML
    rw [if_pos hneg]
    decide
  · rw [length_characterHTML (Int.not_lt.mp hneg)]
    have hnumber := length_decNat_le (n := Char.natAbs) (by omega)
    split_ifs <;> omega

/-- The attributes of a text cell that its markup shows. -/
def attrLength (a : TstPageAttr) : Nat :=
  (if a.doublew then 10 else 0) + (if a.doubleh then 10 else 0) + (if a.underline then 7 else 0) +
    if a.flashing ≠ 0 then 15 else 0

theorem length_renderTextHTML (Char : Int) (cls : Str) (a : TstPageAttr) :
    (renderTextHTML Char cls a).length =
      16 + cls.length + attrLength a + (characterHTML Char a).length := by
  unfold renderTextHTML attrLength
  simp only [List.length_append, length_flag, decide_eq_true_eq,
    show (chars "<td class=").length = 10 from rfl, show (chars " COLSPAN=2").length = 10 from rfl,
    show (chars " ROWSPAN=2").length = 10 from rfl, show (chars ">").length = 1 from rfl,
    show (chars "<u>").length = 3 from rfl, show (chars "<blink>").length = 7 from rfl,
    show (chars "</u>").length = 4 from rfl, show (chars "</blink>").length = 8 from rfl,
    show (chars "</td>").length = 5 from rfl]
  split_ifs <;> omega

theorem length_renderTextHTML_le {Char : Int} {cls : Str} (hChar : Char < 65536)
    (hcls : cls.length ≤ 5) (a : TstPageAttr) : (renderTextHTML Char cls a).length ≤ 100 := by
  have hcharacter := length_characterHTML_le hChar a
  rw [length_renderTextHTML]
  unfold attrLength
  split_ifs <;> omega

theorem length_renderLinkHTML_le {number : Nat} {cls : Str} (hnumber : number < 900)
    (hcls : cls.length ≤ 5) (a : TstPageAttr) : (renderLinkHTML number cls a).length ≤ 130 := by
  have hdec := length_decNat_number hnumber
  have hspan : (decNat (if a.doublew then 6 else 3)).length = 1 := by split_ifs <;> rfl
  unfold renderLinkHTML
  simp only [List.length_append, length_flag, hspan,
    show (chars "<td class=").length = 10 from rfl, show (chars "D").length = 1 from rfl,
    show (chars " COLSPAN=").length = 9 from rfl, show (chars " ROWSPAN=2").length = 10 from rfl,
    show (chars ">").length = 1 from rfl, show (chars "<u>").length = 3 from rfl,
    show (chars "<a href=\"javascript:setpage(").length = 28 from rfl,
    show (chars ",-1)\" class=").length = 12 from rfl, show (chars "</a>").length = 4 from rfl,
    show (chars "</u>").length = 4 from rfl, show (chars "</td>").length = 5 from rfl]
  split_ifs <;> omega

/-! ## Graphics -/

section
variable {classfg : Str} {fg p pcount : Nat} {line : List Nat}

theorem length_pixelHTML_le (hclass : classfg.length ≤ 12) (hcount : pcount + 1 < 900) :
    (pixelHTML classfg fg p pcount).length ≤ 21 * (pcount + 1) := by
  have hdec := length_decNat_number hcount
  have hfg : (if p = fg then classfg else []).length ≤ 12 := by
    split_ifs
    · exact hclass
    · exact Nat.zero_le 12
  unfold pixelHTML
  simp only [List.length_append, show (chars "<td").length = 3 from rfl,
    show (chars "></td>").length = 6 from rfl]
  by_cases hpos : 0 < pcount
  · rw [if_pos hpos, List.length_append, show (chars " colspan=").length = 9 from rfl]
    omega
  · rw [if_neg hpos, List.length_nil]
    omega

/-- Every pixel has its share of the line. -/
theorem length_pixelsHTML_le (hclass : classfg.length ≤ 12)
    (hcount : pcount + line.length + 1 < 900) :
    (pixelsHTML classfg fg p pcount line).length ≤ 21 * (pcount + 1 + line.length) := by
  induction line generalizing p pcount with
  | nil => exact length_pixelHTML_le hclass hcount
  | cons p1 line ih =>
    rw [List.length_cons] at hcount ⊢
    rw [pixelsHTML]
    split_ifs
    · have hrest : (pixelsHTML classfg fg p (pcount + 1) line).length ≤
          21 * (pcount + 1 + 1 + line.length) := ih (by omega)
      omega
    · have hpixel : (pixelHTML classfg fg p pcount).length ≤ 21 * (pcount + 1) :=
        length_pixelHTML_le hclass (by omega)
      have hrest : (pixelsHTML classfg fg p1 0 line).length ≤ 21 * (0 + 1 + line.length) :=
        ih (by omega)
      rw [List.length_append]
      omega

end

theorem length_renderGraphicHTML_le (graphbuffer : Nat → Nat → Nat) {fgclass bgclass : Str}
    (hfg : fgclass.length ≤ 5) (hbg : bgclass.length ≤ 5) (a : TstPageAttr) :
    (renderGraphicHTML graphbuffer fgclass bgclass a).length ≤ 2800 := by
  have hclass : (chars " class=" ++ fgclass).length ≤ 12 := by
    rw [List.length_append, show (chars " class=").length = 7 from rfl]
    omega
  have hlines : ((List.range 10).flatMap fun srow =>
      chars "<tr>" ++
        pixelsHTML (chars " class=" ++ fgclass) a.fg (graphbuffer srow 0) 0
          ((List.range 11).map fun scol => graphbuffer srow (scol + 1)) ++
        chars "</tr>\n").length ≤ 10 * 262 := by
    rw [List.length_flatMap]
    refine (List.sum_le_card_nsmul _ 262 fun n hn => ?_).trans_eq ?_
    · obtain ⟨srow, -, rfl⟩ := List.mem_map.mp hn
      have hcount : 0 + ((List.range 11).map fun scol => graphbuffer srow (scol + 1)).length + 1 <
          900 := by simp
      have hline : (pixelsHTML (chars " class=" ++ fgclass) a.fg (graphbuffer srow 0) 0
          ((List.range 11).map fun scol => graphbuffer srow (scol + 1))).length ≤ _ :=
        length_pixelsHTML_le hclass hcount
      rw [List.length_map, List.length_range] at hline
      rw [List.length_append, List.length_append, show (chars "<tr>").length = 4 from rfl,
        show (chars "</tr>\n").length = 6 from rfl]
      omega
    · rw [List.length_map, List.length_range]
      rfl
  unfold renderGraphicHTML
  simp only [List.length_append, length_flag,
    show (chars "<td ").length = 4 from rfl, show (chars " COLSPAN=2").length = 10 from rfl,
    show (chars " ROWSPAN=2").length = 10 from rfl,
    show (chars "><table class=").length = 14 from rfl,
    show (chars " cellspacing=0 cellpadding=0><colgroup><col width=1 span=12></colgroup>").length = 71
      from rfl, show (chars "</table></td>").length = 13 from rfl]
  split_ifs <;> omega

/-- The name of the background is part of it. -/
theorem le_length_renderGraphicHTML (graphbuffer : Nat → Nat → Nat) (fgclass bgclass : Str)
    (a : TstPageAttr) :
      bgclass.length ≤ (renderGraphicHTML graphbuffer fgclass bgclass a).length := by
  unfold renderGraphicHTML
  simp only [List.length_append]
  omega

end Tuxbox.Tuxtxt
