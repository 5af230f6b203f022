import Tuxbox.Tuxtxt.EvalL25

/-! Where objects draw.

* `evalObject_right_iff`: objects draw inside the page if and only if their triplets keep these. -/
namespace Tuxbox.Tuxtxt

open Prog

/-- In the page, and an attribute in this row. -/
def Write.Right (row : Nat) : Write → Prop
  | .char offset _ => offset < 25 * 40
  | .atrb offset _ => offset < 25 * 40 ∧ offset / 40 = row
  | .fullRow row _ => row < 25

instance (row : Nat) : DecidablePred (Write.Right row)
  | .char offset _ => inferInstanceAs (Decidable (offset < 25 * 40))
  | .atrb offset _ => inferInstanceAs (Decidable (offset < 25 * 40 ∧ offset / 40 = row))
  | .fullRow row _ => inferInstanceAs (Decidable (row < 25))

section
variable (g : Origin) (o : ObjectState) (s : Drawing)

/-- So many cells from the active position on are in their row of the page. -/
def CellsInside (n : Nat) : Prop := g.APy0 + o.APy < 25 ∧ g.APx0 + o.APx + n ≤ 40

/-- The bounds of a column address. The range of an active object ends with the row, the range of
an adaptive one where its end column says. -/
def ColumnInside (t : Triplet) : Prop :=
  match t.iMode with
  | 0x00 | 0x03 =>
    t.iData >>> 5 = 0 → 0 ≤ o.endcol →
      CellsInside g o (if o.endcol = 40 then 1 else 1 + (o.endcol - o.APx).toNat)
  | 0x01 =>
    0x20 ≤ t.iData →
      if o.endcol < 0 ∨ (s.page_atrb (g.offset o)).charset ≠ C_G1S then CellsInside g o 1
      else g.offset o < 25 * 40
  | 0x04 | 0x05 | 0x06 | 0x0a | 0x0e => True
  | 0x07 => t.iData &&& 0x60 = 0 → CellsInside g o 1
  | 0x0c =>
    0 ≤ o.endcol →
      CellsInside g o (if o.endcol = 40 then 1 else 1 + (o.endcol - 1 - g.APx0).toNat)
  | _ => CellsInside g o 1

end

namespace Entry

section
variable (e : Entry)

/-- With the new active column of a column address. -/
def moved : ObjectState :=
  if e.t.iMode ≠ 0x06 then { e.state with APx := e.t.iAddress } else e.state

/-- What was drawn is in the page, attributes in the row of the active position. -/
def Right : Prop := ∀ w ∈ e.writes, w.Right (e.origin.APy0 + e.state.APy)

/-- The bounds of a triplet, told from what is known before it. -/
def Inside : Prop := e.t.iAddress < 40 → ColumnInside e.origin e.moved e.before e.t

instance : Decidable e.Right := List.decidableBAll _ _

end

end Entry

/-! ## One triplet -/

theorem extent_le (same : Nat → Bool) (n p : Nat) : extent same n p ≤ n := by
  induction n generalizing p with
  | zero => exact le_rfl
  | succ n ih =>
    unfold extent
    split_ifs
    · exact Nat.succ_le_succ (ih (p + 1))
    · exact Nat.zero_le _

section
variable {g : Origin} {o : ObjectState} {s : Drawing} {row n : Nat}
  {change : TstPageAttr → TstPageAttr}

theorem setCells_right_iff {column : Nat} (hn : 0 < n) :
    (∀ w ∈ setCells s (List.range' (row * 40 + column) n) change, w.Right row) ↔
      row < 25 ∧ column + n ≤ 40 := by
  simp only [setCells, List.forall_mem_map, List.mem_range'_1, Write.Right]
  constructor
  · intro h
    have hfirst := h (row * 40 + column) ⟨le_rfl, by omega⟩
    have hlast := h (row * 40 + column + (n - 1)) ⟨by omega, by omega⟩
    omega
  · rintro ⟨hrow, hcolumn⟩ i ⟨hle, hlt⟩
    omega

theorem offset_eq (g : Origin) (o : ObjectState) :
    g.offset o = (g.APy0 + o.APy) * 40 + (g.APx0 + o.APx) := by
  unfold Origin.offset
  omega

theorem activeCells_right_iff (attr : TstPageAttr → Nat) :
    (∀ w ∈ setCells s (activeCells g o s attr) change, w.Right (g.APy0 + o.APy)) ↔
      CellsInside g o 1 := by
  have hle := extent_le (fun p => attr (s.page_atrb p) = attr (s.page_atrb (g.offset o)))
    (39 - (g.APx0 + o.APx)) (g.offset o)
  unfold activeCells CellsInside
  dsimp only
  generalize extent _ _ _ = n at hle ⊢
  rw [offset_eq, setCells_right_iff (by omega)]
  omega

theorem setColor_right_iff (attr : TstPageAttr → Nat) (passive : TstPageAttr → TstPageAttr) :
    (∀ w ∈ (setColor g o s attr passive change).2, w.Right (g.APy0 + o.APy)) ↔
      (0 ≤ o.endcol →
        CellsInside g o (if o.endcol = 40 then 1 else 1 + (o.endcol - o.APx).toNat)) := by
  unfold setColor
  by_cases hpassive : o.endcol < 0
  · simp [hpassive]
  · have hcol : 0 ≤ o.endcol := by omega
    simp only [hpassive, hcol, if_false, true_imp_iff]
    by_cases hactive : o.endcol = 40
    · simp only [hactive, if_true]
      exact activeCells_right_iff attr
    · simp only [hactive, if_false, adaptiveCells]
      rw [offset_eq]
      exact setCells_right_iff (by omega)

theorem setAttr_right_iff :
    (∀ w ∈ (setAttr g o s change).2, w.Right (g.APy0 + o.APy)) ↔
      CellsInside g o 1 := by
  have hone : ∀ a, (∀ w ∈ [Write.atrb (g.offset o) a], w.Right (g.APy0 + o.APy)) ↔
      CellsInside g o 1 := by
    intro a
    unfold CellsInside
    rw [offset_eq, List.forall_mem_singleton, Write.Right]
    omega
  unfold setAttr
  split_ifs
  · exact hone _
  · exact hone _

theorem setChar_right_iff (char : Nat) :
    (∀ w ∈ (setChar g o s char change).2, w.Right (g.APy0 + o.APy)) ↔
      CellsInside g o 1 := by
  have hattr : (∀ w ∈ (setAttr g o s change).2, w.Right (g.APy0 + o.APy)) ↔ CellsInside g o 1 :=
    setAttr_right_iff
  have hoffset := offset_eq g o
  rw [show (setChar g o s char change).2 =
    .char (g.offset o) char :: (setAttr g o s change).2 from rfl, List.forall_mem_cons, hattr,
    Write.Right]
  unfold CellsInside
  omega

theorem attributeCells_right_iff :
    (∀ w ∈ setCells s (attributeCells g o) change, w.Right (g.APy0 + o.APy)) ↔
      CellsInside g o (if o.endcol = 40 then 1 else 1 + (o.endcol - 1 - g.APx0).toNat) := by
  unfold attributeCells CellsInside
  dsimp only
  rw [offset_eq, setCells_right_iff (by omega)]
  split_ifs <;> omega

theorem drawColumn_right_iff (t : Triplet) :
    (∀ w ∈ (drawColumn g o s t).2, w.Right (g.APy0 + o.APy)) ↔ ColumnInside g o s t := by
  have hnone : (∀ w ∈ ([] : List Write), w.Right (g.APy0 + o.APy)) ↔ True :=
    iff_true_intro fun w hw => absurd hw List.not_mem_nil
  obtain ⟨iAddress, iMode, iData⟩ := t
  unfold drawColumn ColumnInside
  dsimp only
  split
  case h_1 =>
    by_cases hcolor : iData >>> 5 = 0
    · simp only [hcolor, if_true, true_imp_iff]
      exact setColor_right_iff _ _
    · simp only [hcolor, if_false, false_imp_iff, hnone]
  case h_2 =>
    by_cases hdata : 0x20 ≤ iData
    · simp only [hdata, if_true, true_imp_iff]
      split_ifs
      · exact setChar_right_iff _
      · exact List.forall_mem_singleton
    · simp only [hdata, if_false, false_imp_iff, hnone]
  case h_5 =>
    by_cases hcolor : iData >>> 5 = 0
    · simp only [hcolor, if_true, true_imp_iff]
      exact setColor_right_iff _ _
    · simp only [hcolor, if_false, false_imp_iff, hnone]
  case h_6 => exact hnone
  case h_7 =>
    by_cases hdata : iData &&& 0x60 = 0
    · simp only [hdata, ne_eq, not_true, if_false, true_imp_iff]
      exact setAttr_right_iff
    · simp only [hdata, ne_eq, not_false_iff, if_true, false_imp_iff, hnone]
  case h_8 => exact setAttr_right_iff
  case h_10 =>
    by_cases hpassive : o.endcol < 0
    · have hcol : ¬ 0 ≤ o.endcol := by omega
      simp only [hpassive, hcol, if_true, false_imp_iff, hnone]
    · have hcol : 0 ≤ o.endcol := by omega
      simp only [hpassive, hcol, if_false, true_imp_iff]
      exact attributeCells_right_iff
  case h_13 h0 h1 h2 hb h3 h6 h7 h8 h9 hc hd hf =>
    by_cases hmode : 0x10 ≤ iMode
    · rw [if_pos hmode]
      refine (setChar_right_iff _).trans ?_
      split
      all_goals first | omega | rfl
    · have hother : iMode = 0x04 ∨ iMode = 0x05 ∨ iMode = 0x0a ∨ iMode = 0x0e := by
        rw [imp_false] at h0 h1 h2 hb h3 h6 h7 h8 h9 hc hd hf
        omega
      rw [if_neg hmode]
      rcases hother with rfl | rfl | rfl | rfl
      all_goals exact hnone
  all_goals exact setChar_right_iff _

theorem fullRows_right (row' iData : Nat) : ∀ w ∈ fullRows row' iData, w.Right row := by
  unfold fullRows
  simp only [List.forall_mem_map, Write.Right]
  split_ifs with hone hall
  · intro r hr
    obtain rfl := List.mem_singleton.mp hr
    omega
  · intro r hr
    have := List.mem_range'_1.mp hr
    omega
  · exact fun r hr => absurd hr List.not_mem_nil

theorem rowTriplet_right (t : Triplet) : ∀ w ∈ (rowTriplet g o t).2, w.Right row := by
  have hnone : ∀ w ∈ ([] : List Write), w.Right row := fun w hw => absurd hw List.not_mem_nil
  unfold rowTriplet
  split <;> try split_ifs
  all_goals first | exact hnone | exact fullRows_right _ _

end

theorem entry_right_iff {e : Entry}
    (h : e.writes = (drawTriplet e.origin e.state e.before e.t).2) : e.Right ↔ e.Inside := by
  have hrow : e.origin.APy0 + e.state.APy = e.origin.APy0 + e.moved.APy := by
    unfold Entry.moved
    split_ifs <;> rfl
  unfold Entry.Right Entry.Inside
  rw [h, drawTriplet]
  by_cases hcolumn : e.t.iAddress < 40
  · rw [if_pos hcolumn, hrow]
    simp only [hcolumn, true_imp_iff]
    exact drawColumn_right_iff e.t
  · rw [if_neg hcolumn]
    exact iff_of_true (rowTriplet_right e.t) fun hlt => absurd hlt hcolumn

/-! ## Runs -/

/-- What was written is what the triplet draws. -/
def Entry.Drawn (e : Entry) : Prop := e.writes = (drawTriplet e.origin e.state e.before e.t).2

section
variable {c : Sources} {invoke : Obj → Origin → Eval Unit} {p : Eval Unit} {s : Drawing}

theorem evalTriplet_logs (hinvoke : ∀ b g, Logs Entry.Drawn (invoke b g)) (b : Obj) (g : Origin)
    (t : Triplet) (o : ObjectState) : Logs Entry.Drawn (evalTriplet c invoke b g t o) := by
  have hlog (s : Drawing) :
      Logs Entry.Drawn (log ⟨t, g, o, s, (drawTriplet g o s t).2⟩ : Eval Unit) :=
    logs_log rfl
  have hend (s : Drawing) : Logs Entry.Drawn (modify (fun s => s.after t) >>= fun _ =>
      pure (drawTriplet g o s t).1 : Eval ObjectState) :=
    (logs_modify _).bind fun _ => logs_pure _
  unfold evalTriplet
  refine logs_get.bind fun s => (hlog s).bind fun _ => (logs_modify _).bind fun _ => ?_
  cases c.invoked b.page g o s.tAPx s.tAPy t with
  | none => exact hend s
  | some i => exact (hinvoke i.1 i.2).bind fun _ => hend s

theorem evalTriplets_logs (hinvoke : ∀ b g, Logs Entry.Drawn (invoke b g)) (b : Obj) (g : Origin)
    (numbers : List Nat) (first : Bool) (o : ObjectState) :
    Logs Entry.Drawn (evalTriplets c invoke b g numbers first o) := by
  induction numbers generalizing first o with
  | nil => exact logs_pure ()
  | cons iONr numbers ih =>
    rw [evalTriplets]
    cases c.data b.page iONr with
    | none => exact logs_pure ()
    | some iOData =>
      apply (evalTriplet_logs hinvoke b g _ _).bind
      intro o'
      split_ifs
      · exact logs_pure ()
      · exact ih false o'

theorem evalObject_logs (depth : Nat) (b : Obj) (g : Origin) :
    Logs Entry.Drawn (evalObject c depth b g) := by
  induction depth generalizing b g with
  | zero => exact logs_endless
  | succ depth ih => exact evalTriplets_logs ih b g _ true _

theorem evalStarts_logs (depth : Nat) (bs : List Obj) :
    Logs Entry.Drawn (evalStarts c depth bs) := by
  induction bs with
  | nil => exact logs_pure ()
  | cons b bs ih =>
    exact (logs_modify _).bind fun _ => (evalObject_logs depth b _).bind fun _ => ih

theorem evalL25_logs (l : L25) (depth : Nat) : Logs Entry.Drawn (l.evalL25 depth) := by
  unfold L25.evalL25
  cases l.astCachetable l.page l.subpage with
  | none => exact logs_pure ()
  | some shown =>
    dsimp only
    split_ifs
    · exact evalStarts_logs depth _
    · exact logs_pure ()

theorem right_iff_inside (h : Logs Entry.Drawn p) :
    (∀ e ∈ (p s).2, e.Right) ↔ ∀ e ∈ (p s).2, e.Inside :=
  forall₂_congr fun e he => entry_right_iff (h s e he)

end

/-- An object of any page, at any origin, and the objects of a page draw inside the page if and
only if all their triplets keep the bounds. -/
theorem objects_right_iff (depth : Nat) (s : Drawing) :
    (∀ (c : Sources) (b : Obj) (g : Origin),
      (∀ e ∈ (evalObject c depth b g s).2, e.Right) ↔
        ∀ e ∈ (evalObject c depth b g s).2, e.Inside) ∧
    ∀ l : L25, (∀ e ∈ (l.evalL25 depth s).2, e.Right) ↔ ∀ e ∈ (l.evalL25 depth s).2, e.Inside :=
  ⟨fun _ b g => right_iff_inside (evalObject_logs depth b g),
    fun l => right_iff_inside (evalL25_logs l depth)⟩

/-- In row 23 of the page an object is invoked that draws in its own row 23. -/
def lowPage : ObjectPage where
  pagedata := List.replicate 920 0x20
  p24 := none
  p26 i :=
    if i = 0 then some ([126, 147, 128, 73, 70, 4, 193, 254, 128, 193, 254, 128, 203, 90, 132, 126,
      147, 128, 136, 164, 65, 193, 254, 128] ++
      List.replicate 15 0)
    else none

def lowObject : L25 where
  page := 0x100
  subpage := 0
  astCachetable p s := if p = 0x100 ∧ s = 0 then some lowPage else none
  p27 := none

def blankDrawing : Drawing := ⟨fun _ => 0x20, fun _ => .passive, fun _ => 0, 0, 0, 0⟩

/-- Row 46 of a page of 25 rows. -/
theorem lowObject_outside :
    Terminates (lowObject.evalL25 2) blankDrawing ∧
      ∃ e ∈ (lowObject.evalL25 2 blankDrawing).2, .char 1840 0x41 ∈ e.writes ∧ ¬ e.Right := by
  have hsome : (lowObject.evalL25 2 blankDrawing).1.isSome = true := by decide
  obtain ⟨⟨a, t⟩, hend⟩ := Option.isSome_iff_exists.mp hsome
  exact ⟨⟨a, t, hend, fun _ _ => trivial⟩, by decide⟩

end Tuxbox.Tuxtxt
