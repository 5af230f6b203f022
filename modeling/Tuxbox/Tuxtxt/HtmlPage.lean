import Tuxbox.Tuxtxt.Html

/-! The page that the two functions see, told from the page alone.

* `noted_cstyles`: styles are numbered in order of appearance. -/
namespace Tuxbox.Tuxtxt

namespace TstPageAttr

def single (a : TstPageAttr) : TstPageAttr := { a with doubleh := false, doublew := false }

/-- The cells that are covered from the cell at `row` and `col`. -/
def Covers (a : TstPageAttr) (row col j : Nat) : Prop :=
  (col < 39 ∧ a.doublew ∧ j = 40 * row + col + 1) ∨
    (row < 23 ∧ a.doubleh ∧
      (j = 40 * (row + 1) + col ∨ a.doublew ∧ col < 39 ∧ j = 40 * (row + 1) + col + 1))

end TstPageAttr

namespace Page

/-! ## Covering -/

/-- What marking some cells does to a page. -/
structure Marks (p q : Page) (s : Nat → Prop) : Prop where
  marked : ∀ j, s j → q.page_char j = 0xff ∧ q.page_atrb j = (p.page_atrb j).single
  other : ∀ j, ¬ s j → q.page_char j = p.page_char j ∧ q.page_atrb j = p.page_atrb j

def Marked (p : Page) (j : Nat) : Prop :=
  p.page_char j = 0xff ∧ (p.page_atrb j).single = p.page_atrb j

section
variable {p q r : Page} {s t : Nat → Prop} {row col i j m n : Nat}

theorem Marks.refl (p : Page) : Marks p p fun _ => False where
  marked _ h := h.elim
  other _ _ := ⟨rfl, rfl⟩

theorem marks_mark (p : Page) (i : Nat) : Marks p (p.mark i) (· = i) where
  marked j h := by
    subst h
    exact ⟨Function.update_self .., Function.update_self ..⟩
  other j h := ⟨Function.update_of_ne h .., Function.update_of_ne h ..⟩

theorem Marks.trans (h : Marks p q s) (h' : Marks q r t) : Marks p r fun j => s j ∨ t j where
  marked j hj := by
    by_cases ht : t j
    · obtain ⟨hchar, hatrb⟩ := h'.marked j ht
      refine ⟨hchar, hatrb.trans ?_⟩
      by_cases hs : s j
      · rw [(h.marked j hs).2]
        rfl
      · rw [(h.other j hs).2]
    · obtain ⟨hchar, hatrb⟩ := h'.other j ht
      rw [hchar, hatrb]
      exact h.marked j (hj.resolve_right ht)
  other j hj := by
    obtain ⟨hchar, hatrb⟩ := h'.other j fun ht => hj (.inr ht)
    rw [hchar, hatrb]
    exact h.other j fun hs => hj (.inl hs)

theorem Marks.congr (h : Marks p q s) (hst : ∀ j, s j ↔ t j) : Marks p q t where
  marked j hj := h.marked j ((hst j).mpr hj)
  other j hj := h.other j fun hs => hj ((hst j).mp hs)

theorem Marks.ite {c : Prop} [Decidable c] (h : Marks p q s) :
    Marks p (if c then q else p) fun j => c ∧ s j := by
  split_ifs with hc
  · exact h.congr fun j => (and_iff_right hc).symm
  · exact (Marks.refl p).congr fun j => (false_iff _).mpr fun hj => hc hj.1

/-- The function marks the cells that are covered. -/
theorem marks_cover (p : Page) (row col : Nat) :
    Marks p (p.cover row col) ((p.page_atrb (40 * row + col)).Covers row col) := by
  unfold cover
  dsimp only
  have hright := (marks_mark p (40 * row + col + 1)).ite
    (c := col < 39 ∧ (p.page_atrb (40 * row + col)).doublew = true)
  generalize (if col < 39 ∧ (p.page_atrb (40 * row + col)).doublew = true then
    p.mark (40 * row + col + 1) else p) = q at hright ⊢
  have hbelow := marks_mark q (40 * (row + 1) + col)
  have hcorner := (marks_mark (q.mark (40 * (row + 1) + col)) (40 * (row + 1) + col + 1)).ite
    (c := (p.page_atrb (40 * row + col)).doublew = true ∧ col < 39)
  refine (hright.trans ((hbelow.trans hcorner).ite
    (c := row < 23 ∧ (p.page_atrb (40 * row + col)).doubleh = true))).congr fun j => ?_
  unfold TstPageAttr.Covers
  simp only [and_assoc]

theorem Marks.preserves (h : Marks p q s) (hj : p.Marked j) : q.Marked j := by
  by_cases hs : s j
  · obtain ⟨hchar, hatrb⟩ := h.marked j hs
    exact ⟨hchar, by rw [hatrb]; rfl⟩
  · obtain ⟨hchar, hatrb⟩ := h.other j hs
    rw [Marked, hchar, hatrb]
    exact hj

theorem Marks.marks (h : Marks p q s) (hj : s j) : q.Marked j := by
  obtain ⟨hchar, hatrb⟩ := h.marked j hj
  exact ⟨hchar, by rw [hatrb]; rfl⟩

theorem Marks.unique (h : Marks p q s) (h' : Marks p r s) : q = r := by
  have hall : ∀ j, q.page_char j = r.page_char j ∧ q.page_atrb j = r.page_atrb j := by
    intro j
    by_cases hj : s j
    · obtain ⟨hchar, hatrb⟩ := h.marked j hj
      obtain ⟨hchar', hatrb'⟩ := h'.marked j hj
      exact ⟨hchar.trans hchar'.symm, hatrb.trans hatrb'.symm⟩
    · obtain ⟨hchar, hatrb⟩ := h.other j hj
      obtain ⟨hchar', hatrb'⟩ := h'.other j hj
      exact ⟨hchar.trans hchar'.symm, hatrb.trans hatrb'.symm⟩
  obtain ⟨chars, atrbs⟩ := q
  obtain ⟨chars', atrbs'⟩ := r
  rw [Page.mk.injEq]
  exact ⟨funext fun j => (hall j).1, funext fun j => (hall j).2⟩

/-- Marking again changes nothing. -/
theorem Marks.eq_self (h : Marks p q s) (hs : ∀ j, s j → p.Marked j) : q = p := by
  apply h.unique
  exact
    { marked := fun j hj => ⟨(hs j hj).1, (hs j hj).2.symm⟩
      other := fun j _ => ⟨rfl, rfl⟩ }

theorem Covers.lt {a : TstPageAttr} (h : a.Covers row col j) : 40 * row + col < j := by
  unfold TstPageAttr.Covers at h
  omega

/-- The page after the first cells. -/
def coveredTo (p : Page) (n : Nat) : Page :=
  (List.range n).foldl (fun p i => p.cover (i / 40) (i % 40)) p

theorem coveredTo_succ (p : Page) (n : Nat) :
    p.coveredTo (n + 1) = (p.coveredTo n).cover (n / 40) (n % 40) := by
  unfold coveredTo
  rw [List.range_succ, List.foldl_concat]

theorem marks_coveredTo (p : Page) (n : Nat) :
    Marks (p.coveredTo n) (p.coveredTo (n + 1))
      (((p.coveredTo n).page_atrb n).Covers (n / 40) (n % 40)) := by
  rw [coveredTo_succ]
  have h := marks_cover (p.coveredTo n) (n / 40) (n % 40)
  rwa [Nat.div_add_mod] at h

/-- Nothing is covered where no cell has double size. -/
theorem coveredTo_eq_self
    (h : ∀ i < n, (p.page_atrb i).doublew = false ∧ (p.page_atrb i).doubleh = false) :
    p.coveredTo n = p := by
  induction n with
  | zero => rfl
  | succ n ih =>
    have hcover := marks_coveredTo p n
    rw [ih fun i hi => h i (Nat.lt_succ_of_lt hi)] at hcover
    apply hcover.eq_self
    intro j hj
    obtain ⟨hw, hh⟩ := h n (Nat.lt_succ_self n)
    simp [TstPageAttr.Covers, hw, hh] at hj

/-- A cell is not changed any more once it has been visited. -/
theorem coveredTo_visited (h : n ≤ m) (hj : j ≤ n) :
    (p.coveredTo m).page_char j = (p.coveredTo n).page_char j ∧
      (p.coveredTo m).page_atrb j = (p.coveredTo n).page_atrb j := by
  induction m, h using Nat.le_induction with
  | base => exact ⟨rfl, rfl⟩
  | succ m hm ih =>
    have hother := (marks_coveredTo p m).other j fun hcovers => by
      have hlt := Covers.lt hcovers
      rw [Nat.div_add_mod] at hlt
      omega
    exact ⟨hother.1.trans ih.1, hother.2.trans ih.2⟩

theorem coveredTo_marked (h : n ≤ m) (hj : (p.coveredTo n).Marked j) : (p.coveredTo m).Marked j := by
  induction m, h using Nat.le_induction with
  | base => exact hj
  | succ m _ ih => exact (marks_coveredTo p m).preserves ih

/-- What is covered in the end has been marked. -/
theorem marked_of_covers (h : n < m) (hj : ((p.coveredTo m).page_atrb n).Covers (n / 40) (n % 40) j) :
    (p.coveredTo m).Marked j := by
  rw [(coveredTo_visited h.le le_rfl).2] at hj
  exact coveredTo_marked h ((marks_coveredTo p n).marks hj)

end

/-! ## Colours -/

/-- The colours of some inverted cells are exchanged. -/
def swapped (p : Page) (s : Nat → Bool) : Page where
  page_char := p.page_char
  page_atrb j := if s j then swapInverted (p.page_char j) (p.page_atrb j) else p.page_atrb j

section
variable {p q : Page} {s : Nat → Bool} {t : Nat → Prop} {row col n : Nat}

theorem swapped_congr {s' : Nat → Bool} (h : ∀ j, s j = s' j) : p.swapped s = p.swapped s' :=
  congrArg p.swapped (funext h)

theorem swap_swapped (p : Page) (s : Nat → Bool) (i : Nat) :
    (p.swapped s).swap i = p.swapped (Function.update s i (!s i)) := by
  unfold swap swapped
  rw [Page.mk.injEq]
  refine ⟨rfl, funext fun j => ?_⟩
  by_cases hj : j = i
  · subst hj
    cases hs : s j <;> simp [hs, swapInverted_twice]
  · simp [Function.update_of_ne hj]

/-- In the first function. -/
theorem swap_below : (p.swapped (· < n)).swap n = p.swapped (· < n + 1) := by
  rw [swap_swapped]
  apply swapped_congr
  intro j
  by_cases hj : j = n
  · subst hj
    simp
  · rw [Function.update_of_ne hj, decide_eq_decide]
    omega

/-- In the second function. -/
theorem swap_from {m : Nat} (h : n < m) :
    (p.swapped fun j => n ≤ j && j < m).swap n = p.swapped fun j => n + 1 ≤ j && j < m := by
  rw [swap_swapped]
  apply swapped_congr
  intro j
  by_cases hj : j = n
  · subst hj
    simp [h]
  · rw [Function.update_of_ne hj, ← Bool.decide_and, ← Bool.decide_and, decide_eq_decide]
    omega

theorem covers_swapInverted {d : Byte} {a : TstPageAttr} {j : Nat} :
    (swapInverted d a).Covers row col j ↔ a.Covers row col j := by
  unfold swapInverted
  split_ifs <;> rfl

theorem covers_swapped {j : Nat} :
    ((p.swapped s).page_atrb n).Covers row col j ↔ (p.page_atrb n).Covers row col j := by
  unfold swapped
  dsimp only
  split_ifs
  · exact covers_swapInverted
  · exact Iff.rfl

theorem Marks.swapped (h : Marks p q t) (hs : ∀ j, t j → s j = false) :
    Marks (p.swapped s) (q.swapped s) t where
  marked j hj := by
    obtain ⟨hchar, hatrb⟩ := h.marked j hj
    simp [Page.swapped, hs j hj, hchar, hatrb]
  other j hj := by
    obtain ⟨hchar, hatrb⟩ := h.other j hj
    simp [Page.swapped, hchar, hatrb]

theorem Marked.swapped {j : Nat} (h : p.Marked j) : (p.swapped s).Marked j := by
  obtain ⟨hchar, hatrb⟩ := h
  refine ⟨hchar, ?_⟩
  simp [Page.swapped, hchar, swapInverted, hatrb]

/-- Covering goes on as if no colours had been exchanged. -/
theorem cover_below (hn : n = 40 * row + col) :
    (p.swapped (· < n + 1)).cover row col = (p.cover row col).swapped (· < n + 1) := by
  apply (marks_cover _ row col).unique
  have h := marks_cover p row col
  refine (h.swapped fun j hj => ?_).congr fun j => covers_swapped.symm
  have hlt := Covers.lt hj
  simp only [decide_eq_false_iff_not]
  omega

/-- Nothing is left to cover. -/
theorem cover_marked (h : ∀ j, (p.page_atrb (40 * row + col)).Covers row col j → p.Marked j) :
    (p.swapped s).cover row col = p.swapped s := by
  apply (marks_cover _ row col).eq_self
  exact fun j hj => (h j (covers_swapped.mp hj)).swapped

end

end Page

/-! ## Numbers of styles -/

namespace Styles

def ofKind (l : List StyleUse) (k : StyleKind) : List StyleUse := l.filter (·.1 = k)

/-- A style has its place among those of its kind. -/
structure Numbered (t : Styles) (l : List StyleUse) : Prop where
  cstyles : ∀ u, t.cstyles u = UInt16.ofNat (place (ofKind l u.1) u)
  stylecount : ∀ k, t.stylecount k = UInt16.ofNat (firsts id (ofKind l k)).length

section
variable {t : Styles} {l : List StyleUse} {u : StyleUse}

theorem mem_ofKind : u ∈ ofKind l u.1 ↔ u ∈ l := by
  simp [ofKind]

theorem ofKind_concat (l : List StyleUse) (u : StyleUse) (k : StyleKind) :
    ofKind (l ++ [u]) k = if u.1 = k then ofKind l k ++ [u] else ofKind l k := by
  unfold ofKind
  rw [List.filter_append]
  split_ifs with h <;> simp [h]

theorem place_ofKind_lt (hl : l.length < 65536) : place (ofKind l u.1) u < 65536 :=
  Nat.lt_of_le_of_lt ((place_le _ u).trans (List.length_filter_le _ l)) hl

theorem Numbered.toNat (h : Numbered t l) (hl : l.length < 65536) :
    (t.cstyles u).toNat = place (ofKind l u.1) u := by
  rw [h.cstyles, UInt16.toNat_ofNat_of_lt' (place_ofKind_lt hl)]

theorem numbered_empty : Numbered empty [] where
  cstyles _ := rfl
  stylecount _ := rfl

theorem Numbered.note (h : Numbered t l) (hl : l.length < 65536) (v : StyleUse) :
    Numbered (t.note v) (l ++ [v]) := by
  have hnew : t.cstyles v = 0 ↔ v ∉ l := by
    rw [← UInt16.toNat_inj, h.toNat hl, UInt16.toNat_zero, place_eq_zero, mem_ofKind]
  have hfirsts (k : StyleKind) := firsts_concat id (ofKind l k) v
  simp only [List.map_id, id_eq] at hfirsts
  unfold Styles.note
  by_cases hv : v ∈ l
  · rw [if_neg (by rwa [hnew, not_not])]
    constructor
    · intro u
      rw [h.cstyles, ofKind_concat]
      split_ifs with hkind
      · rw [place_concat, if_neg]
        rintro ⟨-, hnot⟩
        rw [← hkind, mem_ofKind] at hnot
        exact hnot hv
      · rfl
    · intro k
      rw [h.stylecount, ofKind_concat]
      split_ifs with hkind
      · rw [hfirsts, if_pos (hkind ▸ mem_ofKind.mpr hv)]
      · rfl
  · rw [if_pos (hnew.mpr hv)]
    have hnot : v ∉ ofKind l v.1 := fun hmem => hv (mem_ofKind.mp hmem)
    constructor
    · intro u
      dsimp only
      rw [ofKind_concat]
      by_cases hu : u = v
      · rw [hu, Function.update_self, if_pos rfl, place_concat, if_pos ⟨rfl, hnot⟩, h.stylecount,
          UInt16.ofNat_add]
        rfl
      · rw [Function.update_of_ne hu, h.cstyles]
        split_ifs
        · rw [place_concat, if_neg fun hboth => hu hboth.1]
        · rfl
    · intro k
      dsimp only
      rw [ofKind_concat]
      by_cases hk : k = v.1
      · rw [hk, Function.update_self, if_pos rfl, hfirsts, if_neg hnot, h.stylecount,
          List.length_append, UInt16.ofNat_add]
        rfl
      · rw [Function.update_of_ne hk, if_neg (Ne.symm hk), h.stylecount]

theorem numbered_foldl (l : List StyleUse) (hl : l.length < 65536) :
    Numbered (l.foldl Styles.note empty) l := by
  induction l using List.reverseRecOn with
  | nil => exact numbered_empty
  | append_singleton l v ih =>
    rw [List.length_append, List.length_singleton] at hl
    rw [List.foldl_concat]
    exact (ih (by omega)).note (by omega) v

end

end Styles

end Tuxbox.Tuxtxt
