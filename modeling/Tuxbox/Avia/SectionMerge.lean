import Tuxbox.Avia.SectionKept
import Mathlib.Data.Finset.Card

/-!
# Merged section filters

The rows of several filters are merged until no two of them can stand for
each other. Every filter keeps a row that accepts what it accepts; whether
that row still negates the version byte for it depends on the order in which
rows with different negations were merged.
-/

namespace Tuxbox.Avia

namespace FilterRow

/-- A row that negates its version byte by itself. -/
def Flagged (r : FilterRow) : Prop := r.unchanged = true ∧ r.verNot = true

instance (r : FilterRow) : Decidable r.Flagged := inferInstanceAs (Decidable (_ ∧ _))

theorem sameNot_iff {x y : FilterRow} : x.sameNot y = true ↔
    x.notValue = y.notValue ∧ x.notMask = y.notMask ∧ x.verNot = y.verNot := by
  simp [sameNot]

theorem sameNot_trans {x y z : FilterRow} (h : x.sameNot y = true) (h' : y.sameNot z = true) :
    x.sameNot z = true := by
  rw [sameNot_iff] at *
  exact ⟨h.1.trans h'.1, h.2.1.trans h'.2.1, h.2.2.trans h'.2.2⟩

/-- The values of a row lie under its masks. -/
def Normal (r : FilterRow) : Prop := ∀ k, r.value k &&& r.mask k = r.value k

end FilterRow

/-! ## Rows that stand for two -/

theorem compareLen_pos (a b : Fin 8) : 1 ≤ compareLen a b ∧ compareLen a b ≤ 8 := by
  unfold compareLen
  split <;> omega

/-- Two rows are found to differ in one bit only where a single byte is
compared: the check fails for every further byte. -/
theorem differentBit_some {x y : FilterRow} {len : Nat} {bit : Option (Fin 8 × U8)}
    (hlen : 1 ≤ len) (hlen8 : len ≤ 8) (h : x.differentBit y len = some bit) :
    len = 1 ∧ x.mask 0 = y.mask 0 ∧ bit = some (0, x.value 0 ^^^ y.value 0) := by
  obtain ⟨n, rfl⟩ : ∃ n, len = n + 1 := ⟨len - 1, by omega⟩
  have hlist : List.finRange 8 = [0, 1, 2, 3, 4, 5, 6, 7] := rfl
  simp only [FilterRow.differentBit, hlist, List.take_succ_cons, List.foldlM_cons] at h
  by_cases hdiff : x.mask 0 = y.mask 0 ∧ x.value 0 ≠ y.value 0
  · by_cases hone : hweight8 (x.value 0 ^^^ y.value 0) = 1
    · simp only [hdiff, ne_eq, not_false_eq_true, and_self, if_true, Option.isSome_none,
        Bool.false_eq_true, if_false, hone, Option.bind_eq_bind, Option.bind_some] at h
      cases n with
      | zero =>
        simp only [List.take_zero, List.foldlM_nil, Option.pure_def, Option.some.injEq] at h
        exact ⟨rfl, hdiff.1, h.symm⟩
      | succ n =>
        simp [List.take_succ_cons, List.foldlM_cons] at h
    · simp [hdiff, hone] at h
  · simp [hdiff] at h

section
variable {m v v' : U8}

theorem xor_under (hv : v &&& m = v) (hv' : v' &&& m = v') : m &&& (v ^^^ v') = v ^^^ v' := by
  apply BitVec.eq_of_getLsbD_eq
  intro i hi
  have h := congrArg (BitVec.getLsbD · i) hv
  have h' := congrArg (BitVec.getLsbD · i) hv'
  simp only [BitVec.getLsbD_and] at h h'
  simp only [BitVec.getLsbD_and, BitVec.getLsbD_xor]
  cases hm : m.getLsbD i <;> simp_all

theorem and_not_xor : v &&& (m &&& ~~~(v ^^^ v')) = v' &&& (m &&& ~~~(v ^^^ v')) := by
  apply BitVec.eq_of_getLsbD_eq
  intro i hi
  simp only [BitVec.getLsbD_and, BitVec.getLsbD_xor, BitVec.getLsbD_not, hi, decide_true,
    Bool.true_and]
  cases v.getLsbD i <;> cases v'.getLsbD i <;> simp

end

/-- What a row has to be to take the place of rows `x` and `y`. -/
structure StandsFor (row x y : FilterRow) : Prop where
  left : row.pattern.Covers x.pattern
  right : row.pattern.Covers y.pattern
  normal : row.Normal
  inUse : row.inUse ≠ none
  unchanged : row.unchanged = (x.unchanged && x.sameNot y)
  mark : row.sameNot x = true

theorem sameNot_self (x : FilterRow) : x.sameNot x = true := by simp [FilterRow.sameNot]

theorem mergeBit_standsFor {x y row : FilterRow} {len : Nat} {bit : Option (Fin 8 × U8)}
    (hx : x.Normal) (hy : y.Normal) (hlen : 1 ≤ len) (hlen8 : len ≤ 8)
    (hbit : x.differentBit y len = some bit) (h : x.mergeBit y len bit = some row) :
    StandsFor row x y := by
  obtain ⟨rfl, hmask, rfl⟩ := differentBit_some hlen hlen8 hbit
  have hsub : x.mask 0 - (x.value 0 ^^^ y.value 0) = x.mask 0 &&& ~~~(x.value 0 ^^^ y.value 0) :=
    sub_eq_and_not (xor_under (hx 0) (hmask ▸ hy 0))
  simp only [FilterRow.mergeBit, Function.update_self, Option.ite_none_left_eq_some,
    Option.some.injEq] at h
  obtain ⟨huse, rfl⟩ := h
  have hbyte : ∀ (p : Fin 8 → Prop), p 0 → (∀ k : Fin 8, k ≠ 0 → p k) → ∀ k, p k := by
    intro p h0 hp k
    by_cases hk : k = 0
    · exact hk ▸ h0
    · exact hp k hk
  constructor
  · -- the merged row compares fewer bits of byte 0 and no other byte
    refine hbyte _ ?_ ?_
    · simp only [FilterRow.pattern, Fin.val_zero, Nat.lt_one_iff, if_true, Function.update_self,
        hsub]
      exact ⟨and_and_left _ _, by rw [BitVec.and_assoc, BitVec.and_self]⟩
    · intro k hk
      simp [FilterRow.pattern, hk]
  · refine hbyte _ ?_ ?_
    · simp only [FilterRow.pattern, Fin.val_zero, Nat.lt_one_iff, if_true, Function.update_self,
        hsub]
      refine ⟨?_, ?_⟩
      · rw [← hmask]
        exact and_and_left _ _
      · rw [BitVec.and_assoc, BitVec.and_self]
        exact and_not_xor
    · intro k hk
      simp [FilterRow.pattern, hk]
  · refine hbyte _ ?_ ?_
    · simp only [Fin.val_zero, Nat.lt_one_iff, if_true, Function.update_self]
      rw [BitVec.and_assoc, BitVec.and_self]
    · intro k hk
      simp [hk]
  · exact huse
  · rfl
  · simp [FilterRow.sameNot]

theorem lastByte_ne_none {len : Nat} (hlen : 1 ≤ len) (hlen8 : len ≤ 8) :
    FilterRow.lastByte len ≠ none := by
  simp [FilterRow.lastByte]
  omega

theorem mergeSubset_standsFor {x y : FilterRow} {len : Nat} (hlen : 1 ≤ len) (hlen8 : len ≤ 8)
    (h : x.newValid y len) : StandsFor (x.mergeSubset y len) x y := by
  constructor
  · intro k
    by_cases hk : k.val < len
    · simp only [FilterRow.pattern, FilterRow.mergeSubset, hk, if_true]
      exact ⟨and_and_left _ _, by rw [BitVec.and_assoc, BitVec.and_self]⟩
    · simp [FilterRow.pattern, FilterRow.mergeSubset, hk]
  · intro k
    by_cases hk : k.val < len
    · simp only [FilterRow.pattern, FilterRow.mergeSubset, hk, if_true]
      refine ⟨by rw [BitVec.and_assoc, BitVec.and_self], ?_⟩
      rw [BitVec.and_assoc, BitVec.and_self, (h k hk).2]
    · simp [FilterRow.pattern, FilterRow.mergeSubset, hk]
  · intro k
    by_cases hk : k.val < len
    · simp only [FilterRow.mergeSubset, hk, if_true]
      rw [BitVec.and_assoc, BitVec.and_self]
    · simp [FilterRow.mergeSubset, hk]
  · exact lastByte_ne_none hlen hlen8
  · rfl
  · simp [FilterRow.sameNot, FilterRow.mergeSubset]

/-- A comparison leaves everything as it is or replaces two rows by one. -/
theorem Merge.compare_cases {m m' : Merge} {i j : Nat} (hi : (m.rows i).Normal)
    (hj : (m.rows j).Normal) (h : m.compare i j = some m') :
    m' = m ∨ (1 < m.anzFilters ∧ (m.rows i).inUse ≠ none ∧ (m.rows j).inUse ≠ none ∧
      ∃ row, StandsFor row (m.rows i) (m.rows j) ∧ m' = m.absorb i j row) := by
  unfold Merge.compare at h
  split at h
  · cases h
    exact .inl rfl
  · rename_i hanz
    split at h
    · rename_i a b ha hb
      obtain ⟨hlen, hlen8⟩ := compareLen_pos a b
      simp only at h
      split at h
      · rename_i bit hbit
        obtain ⟨row, hrow, rfl⟩ := Option.map_eq_some_iff.mp h
        exact .inr ⟨by omega, by simp [ha], by simp [hb], row,
          mergeBit_standsFor hi hj hlen hlen8 hbit hrow, rfl⟩
      · split at h
        · rename_i hvalid
          cases h
          exact .inr ⟨by omega, by simp [ha], by simp [hb], _,
            mergeSubset_standsFor hlen hlen8 hvalid, rfl⟩
        · cases h
          exact .inl rfl
    · cases h
      exact .inl rfl

/-! ## The invariant of merging -/

/-- Rows in use are counted. -/
def Merge.Counted (m : Merge) : Prop :=
  ((Finset.range maxSectionFilters).filter fun i => (m.rows i).inUse ≠ none).card = m.anzFilters

/-- What merging keeps of any `n` rows. -/
structure Merge.Sound (n : Nat) (m : Merge) : Prop where
  normal : ∀ i, (m.rows i).Normal
  counted : m.Counted
  inside : ∀ i, (m.rows i).inUse ≠ none → i < n

/-- What merging keeps of the rows `orig` it started with. A row that negates its
version byte stands for filters that negate this byte so and, its own apart, no
other one. -/
structure Merge.Inv (only : Nat → Prop) (orig : Nat → FilterRow) (n : Nat) (m : Merge) : Prop
    extends Merge.Sound n m where
  owner : ∀ o < n, ∃ i, (m.rows i).inUse ≠ none ∧ (m.rows i).pattern.Covers (orig o).pattern ∧
    ((m.rows i).Flagged → (m.rows i).sameNot (orig o) = true ∧ (i = o ∨ only o))

/-- Row `i`, which negates its version byte, takes in row `j` with the same byte
and still negates it, but `j` stands for more: it has taken in a row with another
mark, or its filter negates other bytes too. -/
def Merge.MixesUp (only : Nat → Prop) (m : Merge) (p : Nat × Nat) : Prop :=
  (m.compare p.1 p.2).map (·.anzFilters) ≠ some m.anzFilters ∧ (m.rows p.1).Flagged ∧
    (m.rows p.1).sameNot (m.rows p.2) = true ∧
    ((m.rows p.2).unchanged = false ∨ ¬ only p.2)

instance (only : Nat → Prop) [DecidablePred only] (m : Merge) (p : Nat × Nat) :
    Decidable (m.MixesUp only p) := inferInstanceAs (Decidable (_ ∧ _ ∧ _ ∧ (_ ∨ _)))

section
variable {only : Nat → Prop} {orig : Nat → FilterRow} {n i j : Nat} {m m' : Merge}
  {row : FilterRow}

theorem Merge.absorb_rows (k : Nat) : (m.absorb i j row).rows k =
    if k = j then { m.rows j with inUse := none } else if k = i then row else m.rows k := by
  simp only [Merge.absorb, Function.update_apply]

theorem Merge.absorb_rows_left (hij : i < j) : (m.absorb i j row).rows i = row := by
  simp [Merge.absorb_rows, Nat.ne_of_lt hij]

theorem Merge.absorb_counted (hc : m.Counted) (hij : i ≠ j) (hj : j < maxSectionFilters)
    (hiu : (m.rows i).inUse ≠ none) (hju : (m.rows j).inUse ≠ none) (hrow : row.inUse ≠ none) :
    (m.absorb i j row).Counted := by
  have hset : ((Finset.range maxSectionFilters).filter fun k =>
      ((m.absorb i j row).rows k).inUse ≠ none) =
      ((Finset.range maxSectionFilters).filter fun k => (m.rows k).inUse ≠ none).erase j := by
    ext k
    simp only [Finset.mem_filter, Finset.mem_range, Finset.mem_erase, Merge.absorb_rows]
    by_cases hkj : k = j
    · simp [hkj]
    · by_cases hki : k = i
      · simp [hki, hij, hrow, hiu]
      · simp [hkj, hki]
  have hmem : j ∈ (Finset.range maxSectionFilters).filter fun k => (m.rows k).inUse ≠ none := by
    simp [hj, hju]
  rw [Merge.Counted, hset, Finset.card_erase_of_mem hmem, hc]
  rfl

/-- Rows `i` and `j` are in use, and `row` takes their place. -/
structure Merge.Absorbs (m : Merge) (i j : Nat) (row : FilterRow) : Prop where
  lt : i < j
  bound : j < maxSectionFilters
  left : (m.rows i).inUse ≠ none
  right : (m.rows j).inUse ≠ none
  standsFor : StandsFor row (m.rows i) (m.rows j)

theorem Merge.Sound.absorb (h : m.Sound n) (ha : m.Absorbs i j row) :
    (m.absorb i j row).Sound n where
  normal := by
    intro k
    rw [Merge.absorb_rows]
    split
    · exact h.normal j
    · split
      · exact ha.standsFor.normal
      · exact h.normal k
  counted := Merge.absorb_counted h.counted (Nat.ne_of_lt ha.lt) ha.bound ha.left ha.right
    ha.standsFor.inUse
  inside := by
    intro k hk
    rw [Merge.absorb_rows] at hk
    split at hk
    · simp at hk
    · split at hk
      · rename_i hki
        exact hki ▸ h.inside i ha.left
      · exact h.inside k hk

/-- Replacing two rows by one that stands for both keeps the invariant. -/
theorem Merge.Inv.absorb (h : m.Inv only orig n) (ha : m.Absorbs i j row)
    (hclean : (m.rows i).Flagged → (m.rows i).sameNot (m.rows j) = true →
      (m.rows j).unchanged = true ∧ only j) : (m.absorb i j row).Inv only orig n := by
  have hrow := ha.standsFor
  have hi : (m.absorb i j row).rows i = row := Merge.absorb_rows_left ha.lt
  -- a row that still negates its version byte did so before, and took in the same mark
  have hold (hf : row.Flagged) : (m.rows i).Flagged ∧ (m.rows i).sameNot (m.rows j) = true := by
    obtain ⟨hun, hver⟩ := hf
    rw [hrow.unchanged, Bool.and_eq_true] at hun
    exact ⟨⟨hun.1, (FilterRow.sameNot_iff.mp hrow.mark).2.2 ▸ hver⟩, hun.2⟩
  refine ⟨h.toSound.absorb ha, fun o ho => ?_⟩
  obtain ⟨k, hku, hcov, hflag⟩ := h.owner o ho
  by_cases hkj : k = j
  · subst hkj
    refine ⟨i, by rw [hi]; exact hrow.inUse, by rw [hi]; exact hrow.right.trans hcov, ?_⟩
    rw [hi]
    intro hf
    obtain ⟨hfi, hsame⟩ := hold hf
    obtain ⟨hun, honly⟩ := hclean hfi hsame
    obtain ⟨hmark, hown⟩ := hflag ⟨hun, (FilterRow.sameNot_iff.mp hsame).2.2 ▸ hfi.2⟩
    refine ⟨FilterRow.sameNot_trans hrow.mark (FilterRow.sameNot_trans hsame hmark), .inr ?_⟩
    rcases hown with rfl | hown
    · exact honly
    · exact hown
  · by_cases hki : k = i
    · subst hki
      refine ⟨k, by rw [hi]; exact hrow.inUse, by rw [hi]; exact hrow.left.trans hcov, ?_⟩
      rw [hi]
      intro hf
      obtain ⟨hmark, hown⟩ := hflag (hold hf).1
      exact ⟨FilterRow.sameNot_trans hrow.mark hmark, hown⟩
    · have hk : (m.absorb i j row).rows k = m.rows k := by
        simp [Merge.absorb_rows, hkj, hki]
      exact ⟨k, by rw [hk]; exact hku, by rw [hk]; exact hcov, by rw [hk]; exact hflag⟩

theorem rowPairs_ordered : ∀ p ∈ rowPairs, p.1 < p.2 ∧ p.2 < maxSectionFilters := by decide

/-- The pairs that up to `n` passes compare. -/
def passes (n : Nat) : List (Nat × Nat) := (List.replicate n rowPairs).flatten

/-- What every absorption keeps, comparing pairs keeps. -/
theorem Merge.pairs_keep {I : Merge → Prop} {ok : Merge → Nat × Nat → Prop}
    (hnormal : ∀ m, I m → ∀ i, (m.rows i).Normal)
    (keep : ∀ m i j row, I m → ok m (i, j) → m.compare i j = some (m.absorb i j row) →
      m.Absorbs i j row → I (m.absorb i j row)) {ps : List (Nat × Nat)}
    (hps : ∀ p ∈ ps, p.1 < p.2 ∧ p.2 < maxSectionFilters) (h : I m)
    (hok : Admits (fun m p => Merge.compare m p.1 p.2) ok m ps)
    (hm : runList (fun m p => Merge.compare m p.1 p.2) m ps = some m') : I m' := by
  induction ps generalizing m with
  | nil => cases hm; exact h
  | cons p ps ih =>
    obtain ⟨t, hstep, hm⟩ := runList_cons hm
    obtain ⟨hp, hrest⟩ := hok t hstep
    obtain ⟨hlt, hbound⟩ := hps p List.mem_cons_self
    refine ih (fun q hq => hps q (List.mem_cons_of_mem p hq)) ?_ hrest hm
    rcases Merge.compare_cases (hnormal m h p.1) (hnormal m h p.2) hstep with
      rfl | ⟨-, hiu, hju, row, hrow, rfl⟩
    · exact h
    · exact keep m p.1 p.2 row h hp hstep ⟨hlt, hbound, hiu, hju, hrow⟩

/-- And so does the whole of merging. -/
theorem Merge.run_keeps {I : Merge → Prop} {ok : Merge → Nat × Nat → Prop}
    (hnormal : ∀ m, I m → ∀ i, (m.rows i).Normal)
    (keep : ∀ m i j row, I m → ok m (i, j) → m.compare i j = some (m.absorb i j row) →
      m.Absorbs i j row → I (m.absorb i j row)) {fuel : Nat} (h : I m)
    (hok : Admits (fun m p => Merge.compare m p.1 p.2) ok m (passes fuel))
    (hm : m.run fuel = some m') : I m' := by
  induction fuel generalizing m with
  | zero => cases hm; exact h
  | succ fuel ih =>
    have hlist : passes (fuel + 1) = rowPairs ++ passes fuel := rfl
    rw [hlist] at hok
    obtain ⟨hfirst, hrest⟩ := hok.append
    simp only [Merge.run] at hm
    split at hm
    · cases hm
    · rename_i m₁ hpass
      have h₁ : I m₁ := Merge.pairs_keep hnormal keep rowPairs_ordered h hfirst hpass
      split at hm
      · cases hm
        exact h₁
      · exact ih h₁ (hrest m₁ hpass) hm

theorem Merge.Sound.run (h : m.Sound n) {fuel : Nat} (hm : m.run fuel = some m') : m'.Sound n :=
  have hok : Admits (fun m p => Merge.compare m p.1 p.2) (fun _ _ => True) m (passes fuel) :=
    admits_of_forall (fun _ _ => trivial) m _
  Merge.run_keeps (fun _ h => h.normal) (fun _ _ _ _ h _ _ ha => h.absorb ha) h hok hm

/-- Merging that mixes up no negations keeps the invariant. -/
theorem Merge.Inv.run (h : m.Inv only orig n) {fuel : Nat}
    (hok : Admits (fun m p => Merge.compare m p.1 p.2) (fun m p => ¬ m.MixesUp only p) m
      (passes fuel)) (hm : m.run fuel = some m') : m'.Inv only orig n := by
  refine Merge.run_keeps (fun _ h => h.normal) ?_ h hok hm
  intro s i j row hs hclean hstep ha
  apply hs.absorb ha
  intro hf hsame
  have hanz : 1 ≤ s.anzFilters := by
    rw [← hs.counted]
    exact Finset.card_pos.mpr ⟨i, by simp [ha.left, lt_trans ha.lt ha.bound]⟩
  have hmerged : (s.compare i j).map (·.anzFilters) ≠ some s.anzFilters := by
    simp only [hstep, Option.map_some, Merge.absorb, ne_eq, Option.some.injEq]
    omega
  have hno : ¬ ((s.rows j).unchanged = false ∨ ¬ only j) :=
    fun hor => hclean ⟨hmerged, hf, hsame, hor⟩
  simpa [not_or] using hno

theorem Merge.compare_anz (hm : m.compare i j = some m') :
    m'.anzFilters = m.anzFilters ∨ (1 < m.anzFilters ∧ m'.anzFilters = m.anzFilters - 1) := by
  unfold Merge.compare at hm
  split at hm
  · cases hm
    exact .inl rfl
  · rename_i hanz
    split at hm
    · simp only at hm
      split at hm
      · obtain ⟨row, -, rfl⟩ := Option.map_eq_some_iff.mp hm
        exact .inr ⟨by omega, rfl⟩
      · split at hm
        · cases hm
          exact .inr ⟨by omega, rfl⟩
        · cases hm
          exact .inl rfl
    · cases hm
      exact .inl rfl

theorem Merge.pass_anz (hpos : 1 ≤ m.anzFilters) (hm : m.pass = some m') :
    1 ≤ m'.anzFilters ∧ m'.anzFilters ≤ m.anzFilters := by
  have hrun : Runs _ (fun _ _ => True) m m' := Runs.ofList (fun _ _ _ => trivial) hm
  refine hrun.invariant (I := fun s => 1 ≤ s.anzFilters ∧ s.anzFilters ≤ m.anzFilters) ?_
    ⟨hpos, Nat.le_refl _⟩
  intro s p t hs _ hstep
  rcases Merge.compare_anz hstep with h | ⟨h1, h2⟩ <;> omega

theorem Merge.run_anz {fuel : Nat} (hpos : 1 ≤ m.anzFilters) (hm : m.run fuel = some m') :
    1 ≤ m'.anzFilters ∧ m'.anzFilters ≤ m.anzFilters := by
  induction fuel generalizing m with
  | zero => cases hm; exact ⟨hpos, Nat.le_refl _⟩
  | succ fuel ih =>
    simp only [Merge.run] at hm
    split at hm
    · cases hm
    · rename_i m₁ hpass
      obtain ⟨h1, h2⟩ := Merge.pass_anz hpos hpass
      split at hm
      · cases hm
        exact ⟨h1, h2⟩
      · obtain ⟨h3, h4⟩ := ih h1 hm
        exact ⟨h3, Nat.le_trans h4 h2⟩

end

/-! ## The rows of a list of filters -/

theorem copyFilters_spec {stack : Stack} {fs : List DmxSectionFilter} {n : Nat}
    {rows : List FilterRow} (h : copyFilters stack n fs = some rows) (hn : n ≤ maxSectionFilters) :
    n + fs.length ≤ maxSectionFilters ∧ rows.length = fs.length ∧
    ∀ (i : Nat) (f : DmxSectionFilter), fs[i]? = some f →
      rows[i]? = some (normalize (stack (n + i)) f) := by
  induction fs generalizing n rows with
  | nil =>
    cases h
    exact ⟨hn, rfl, by simp⟩
  | cons f fs ih =>
    simp only [copyFilters] at h
    split at h
    · cases h
    · rename_i hroom
      split at h
      · cases h
      · obtain ⟨rest, hrest, rfl⟩ := Option.map_eq_some_iff.mp h
        obtain ⟨h1, h2, h3⟩ := ih hrest (by omega)
        refine ⟨by simp only [List.length_cons]; omega, by simp [h2], ?_⟩
        intro i g hg
        cases i with
        | zero =>
          simp only [List.getElem?_cons_zero, Option.some.injEq] at hg
          simp [hg]
        | succ i =>
          simp only [List.getElem?_cons_succ] at hg ⊢
          rw [h3 i g hg]
          congr 3
          omega

theorem stripAll_spec {rows out : List FilterRow} (h : stripAll rows = some out) :
    out.length = rows.length ∧
    ∀ (i : Nat) (r : FilterRow), rows[i]? = some r →
      ∃ r', out[i]? = some r' ∧ r.strip = some r' := by
  induction rows generalizing out with
  | nil =>
    cases h
    exact ⟨rfl, by simp⟩
  | cons r rows ih =>
    simp only [stripAll] at h
    split at h
    · cases h
    · rename_i r' hr
      obtain ⟨rest, hrest, rfl⟩ := Option.map_eq_some_iff.mp h
      obtain ⟨h1, h2⟩ := ih hrest
      refine ⟨by simp [h1], ?_⟩
      intro i x hx
      cases i with
      | zero =>
        simp only [List.getElem?_cons_zero, Option.some.injEq] at hx
        exact ⟨r', rfl, hx ▸ hr⟩
      | succ i =>
        simp only [List.getElem?_cons_succ] at hx ⊢
        exact h2 i x hx

section
variable {r r' : FilterRow}

/-- A stripped row is the positive part of its filter. -/
theorem strip_pattern (h : r.strip = some r') : r'.pattern = r.positive.pattern := by
  simp only [FilterRow.strip] at h
  split at h
  · cases h
  · cases h
    rfl

theorem strip_mark (h : r.strip = some r') :
    r'.verNot = r.verNot ∧ r'.unchanged = r.unchanged ∧ r'.notMask = r.notMask ∧
    r'.notValue = r.notValue := by
  simp only [FilterRow.strip] at h
  split at h
  · cases h
  · cases h
    exact ⟨rfl, rfl, rfl, rfl⟩

theorem strip_inUse (h : r.strip = some r') : r'.inUse ≠ none := by
  simp only [FilterRow.strip] at h
  split at h
  · cases h
  · cases h
    simp

theorem strip_normal (h : r.strip = some r') : r'.Normal := by
  intro k
  change r'.pattern.value k &&& r'.pattern.mask k = r'.pattern.value k
  rw [strip_pattern h]
  change (r.value k &&& (r.mask k &&& r.mode k)) &&& (r.mask k &&& r.mode k) = _
  rw [BitVec.and_assoc, BitVec.and_self]
  rfl

end

/-- The rows that merging starts with: row `i` is the positive part of filter
`i`, and no other row is in use. -/
structure Stripped (stack : Stack) (fs : List DmxSectionFilter) (rows : List FilterRow) : Prop where
  length_le : rows.length ≤ maxSectionFilters
  length_eq : rows.length = fs.length
  row : ∀ (i : Nat) (f : DmxSectionFilter), fs[i]? = some f →
    ∃ r, rows[i]? = some r ∧ (normalize (stack i) f).strip = some r

theorem stripped_of {stack : Stack} {fs : List DmxSectionFilter} {rows out : List FilterRow}
    (hc : copyFilters stack 0 fs = some rows) (hs : stripAll rows = some out) :
    Stripped stack fs out := by
  obtain ⟨h1, h2, h3⟩ := copyFilters_spec hc (Nat.zero_le _)
  obtain ⟨h4, h5⟩ := stripAll_spec hs
  refine ⟨by omega, by omega, ?_⟩
  intro i f hf
  have hrow := h3 i f hf
  rw [Nat.zero_add] at hrow
  exact h5 i _ hrow

section
variable {stack : Stack} {fs : List DmxSectionFilter} {rows : List FilterRow}

theorem ofRows_lt {i : Nat} {r : FilterRow} (h : rows[i]? = some r) :
    (Merge.ofRows rows).rows i = r := by
  simp [Merge.ofRows, List.getD_eq_getElem?_getD, h]

theorem ofRows_ge {i : Nat} (h : rows.length ≤ i) :
    (Merge.ofRows rows).rows i = FilterRow.unused := by
  simp [Merge.ofRows, List.getD_eq_getElem?_getD, List.getElem?_eq_none h]

/-- The row of filter `i` at the start. -/
theorem Stripped.start (h : Stripped stack fs rows) {i : Nat} (hi : i < rows.length) :
    ∃ f, fs[i]? = some f ∧ (normalize (stack i) f).strip = some ((Merge.ofRows rows).rows i) := by
  have hfs : i < fs.length := by rw [← h.length_eq]; exact hi
  obtain ⟨r, hr, hstrip⟩ := h.row i fs[i] (List.getElem?_eq_getElem hfs)
  rw [ofRows_lt hr]
  exact ⟨fs[i], List.getElem?_eq_getElem hfs, hstrip⟩

theorem Stripped.inUse_iff (h : Stripped stack fs rows) (i : Nat) :
    ((Merge.ofRows rows).rows i).inUse ≠ none ↔ i < rows.length := by
  constructor
  · intro hu
    by_contra hge
    rw [ofRows_ge (by omega)] at hu
    exact hu rfl
  · intro hi
    obtain ⟨f, -, hrow⟩ := h.start hi
    exact strip_inUse hrow

theorem Stripped.sound (h : Stripped stack fs rows) :
    (Merge.ofRows rows).Sound rows.length where
  normal := by
    intro i
    by_cases hi : i < rows.length
    · obtain ⟨f, -, hrow⟩ := h.start hi
      exact strip_normal hrow
    · rw [ofRows_ge (by omega)]
      intro k
      exact BitVec.and_self
  counted := by
    have hset : ((Finset.range maxSectionFilters).filter fun i =>
        ((Merge.ofRows rows).rows i).inUse ≠ none) = Finset.range rows.length := by
      ext i
      have := h.length_le
      simp only [Finset.mem_filter, Finset.mem_range, h.inUse_iff]
      omega
    rw [Merge.Counted, hset, Finset.card_range]
    rfl
  inside := fun i hi => (h.inUse_iff i).mp hi

theorem Stripped.inv (h : Stripped stack fs rows) (only : Nat → Prop) :
    (Merge.ofRows rows).Inv only (Merge.ofRows rows).rows rows.length where
  toSound := h.sound
  owner := fun o ho => ⟨o, (h.inUse_iff o).mpr ho, Pattern.Covers.refl,
    fun _ => ⟨sameNot_self _, .inl rfl⟩⟩

/-- Filter `i` negates no byte but that of the version. -/
def OnlyVersion (fs : List DmxSectionFilter) (i : Nat) : Prop :=
  ∀ f ∈ fs[i]?, ∀ k, f.Negates k → k = 5

instance (fs : List DmxSectionFilter) : DecidablePred (OnlyVersion fs) :=
  fun i => inferInstanceAs (Decidable (∀ f ∈ fs[i]?, ∀ k, f.maskAndNotMode k ≠ 0#8 → k = 5))

/-- The rows of several filters before the first pass. -/
def mergeStart (stack : Stack) (fs : List DmxSectionFilter) : Option Merge :=
  ((copyFilters stack 0 fs).bind stripAll).map Merge.ofRows

/-- The condition on a feed with several filters: no comparison mixes up the
negations, and a row that negates its version byte in the end is that of a filter
which negates nothing else. -/
def KeptTogether (stack : Stack) (fs : List DmxSectionFilter) : Prop :=
  ∀ m₀ ∈ mergeStart stack fs,
    Admits (fun m p => Merge.compare m p.1 p.2) (fun m p => ¬ m.MixesUp (OnlyVersion fs) p) m₀
      (passes fs.length) ∧
    ∀ m ∈ m₀.run fs.length, ∀ i < maxSectionFilters, (m.rows i).inUse ≠ none →
      (m.rows i).Flagged → OnlyVersion fs i

/-- The rows in use are as many as `anz_filters` says. -/
theorem Merge.used_length {m : Merge} (h : m.Counted) : m.used.length = m.anzFilters := by
  have hcount : m.used.length =
      ((List.range maxSectionFilters).filter fun i => (m.rows i).inUse ≠ none).length := by
    simp [Merge.used, List.filter_map, Function.comp_def]
  rw [hcount, ← h]
  rfl

theorem Merge.mem_used {m : Merge} {n i : Nat} (h : m.Sound n)
    (hn : n ≤ maxSectionFilters) (hi : (m.rows i).inUse ≠ none) : m.rows i ∈ m.used := by
  have hlt := h.inside i hi
  simp only [Merge.used, List.mem_filter, List.mem_map, List.mem_range, decide_eq_true_eq]
  exact ⟨⟨i, by omega, rfl⟩, hi⟩

/-- The rows to program for several filters: at least one, at most as many. -/
theorem analyseMany_length {copied : List FilterRow} {a : Analysis}
    (hc : copyFilters stack 0 fs = some copied) (hne : fs ≠ [])
    (ha : analyseMany copied = some a) : 1 ≤ a.rows.length ∧ a.rows.length ≤ fs.length := by
  simp only [analyseMany] at ha
  split at ha
  · cases ha
  · rename_i out hstrip
    have hstart := stripped_of hc hstrip
    have hpos : 0 < fs.length := List.length_pos_iff.mpr hne
    split at ha
    · cases ha
    · rename_i m hm
      cases ha
      have hsound := hstart.sound.run hm
      have hanz := Merge.run_anz (m := Merge.ofRows out)
        (by rw [Merge.ofRows, hstart.length_eq]; exact hpos) hm
      have hlen := Merge.used_length hsound.counted
      have hle : m.anzFilters ≤ fs.length := by rw [← hstart.length_eq]; exact hanz.2
      simp only [List.length_take]
      omega

/-- Merging leaves every filter a row that lets its sections pass. -/
theorem merged_accepts {m : Merge} (h : Stripped stack fs rows)
    (hinv : m.Inv (OnlyVersion fs) (Merge.ofRows rows).rows rows.length)
    (hend : ∀ i < maxSectionFilters, (m.rows i).inUse ≠ none → (m.rows i).Flagged →
      OnlyVersion fs i) {f : DmxSectionFilter} (hf : f ∈ fs) {s : SectionHead}
    (hacc : f.Accepts s) : ∃ r ∈ m.used, (r.entry false).Matches s := by
  obtain ⟨o, ho⟩ := List.mem_iff_getElem?.mp hf
  obtain ⟨r, hr, hstrip⟩ := h.row o f ho
  have hlen : o < rows.length := (List.getElem?_eq_some_iff.mp hr).1
  obtain ⟨i, hiu, hcov, hflag⟩ := hinv.owner o hlen
  rw [ofRows_lt hr] at hcov hflag
  refine ⟨m.rows i, Merge.mem_used hinv.toSound h.length_le hiu, ?_⟩
  have hpat : (m.rows i).pattern.Matches s.seen := by
    apply hcov.matches
    rw [strip_pattern hstrip]
    exact positive_pattern_matches _ hacc
  by_cases hfl : (m.rows i).Flagged
  · -- the row still negates the version byte, as the filter does
    obtain ⟨hmark, hown⟩ := hflag hfl
    obtain ⟨hval, hmask, hver⟩ := FilterRow.sameNot_iff.mp hmark
    obtain ⟨hv, -, hm, hw⟩ := strip_mark hstrip
    have hneg : f.VersionNegated := by
      rw [← normalize_verNot (stack o), ← hv, ← hver]
      exact hfl.2
    have honly : OnlyVersion fs o := by
      rcases hown with rfl | hown
      · exact hend i (lt_of_lt_of_le hlen h.length_le) hiu hfl
      · exact hown
    obtain ⟨hm', hw'⟩ := normalize_notMask (stack o) hneg
    rw [version_entry_matches hfl.1 hfl.2 (hmask.trans (hm.trans hm')) (hval.trans (hw.trans hw'))]
    exact ⟨fun k _ => hpat k, version_differs hacc hneg (honly f ho)⟩
  · rw [entry_matches_plain _ _ hfl]
    exact hpat

/-- The entries for several filters lose no section of theirs. -/
theorem many_kept {copied : List FilterRow} {a : Analysis} (hc : copyFilters stack 0 fs = some copied)
    (ha : analyseMany copied = some a) (hkept : KeptTogether stack fs) {f : DmxSectionFilter}
    (hf : f ∈ fs) {s : SectionHead} (hacc : f.Accepts s) : EntriesAccept a.andOr a.entries s := by
  simp only [analyseMany] at ha
  split at ha
  · cases ha
  · rename_i out hstrip
    split at ha
    · cases ha
    · rename_i m hm
      cases ha
      have hstart := stripped_of hc hstrip
      obtain ⟨hclean, hend⟩ := hkept (Merge.ofRows out) (by simp [mergeStart, hc, hstrip])
      rw [← hstart.length_eq] at hclean hend
      have hinv := (hstart.inv (OnlyVersion fs)).run hclean hm
      obtain ⟨r, hr, hmatch⟩ := merged_accepts hstart hinv (hend m hm) hf hacc
      have hall : m.used.take m.anzFilters = m.used := by
        rw [← Merge.used_length hinv.counted, List.take_length]
      obtain ⟨j, hj⟩ := List.mem_iff_getElem?.mp hr
      simp only [EntriesAccept, if_true, Analysis.entries, hall]
      refine ⟨r.entry false, ?_, hmatch⟩
      refine List.mem_iff_getElem?.mpr ⟨j, ?_⟩
      simp [List.getElem?_mapIdx, hj]

end

/-! ## What an allocation keeps -/

/-- The condition under which the programmed entries lose no section. -/
def Kept (stack : Stack) : List DmxSectionFilter → Prop
  | [f] => f.KeptAlone
  | fs => KeptTogether stack fs

theorem analyse_cases {stack : Stack} {fs : List DmxSectionFilter} {a : Analysis}
    (h : analyse stack fs = some a) :
    (∃ f, fs = [f] ∧ a = analyseOne (normalize (stack 0) f)) ∨
    (2 ≤ fs.length ∧ ∃ rows, copyFilters stack 0 fs = some rows ∧ analyseMany rows = some a) := by
  simp only [analyse] at h
  split at h
  · cases h
  · rename_i hne
    split at h
    · cases h
    · rename_i r hc
      cases h
      obtain ⟨-, hlen, hrow⟩ := copyFilters_spec hc (Nat.zero_le _)
      obtain ⟨f, rfl⟩ := List.length_eq_one_iff.mp hlen.symm
      have hr := hrow 0 f rfl
      simp only [List.getElem?_cons_zero, Option.some.injEq, Nat.add_zero] at hr
      exact .inl ⟨f, rfl, by rw [hr]⟩
    · rename_i rows hone hc
      obtain ⟨-, hlen, -⟩ := copyFilters_spec hc (Nat.zero_le _)
      refine .inr ⟨?_, rows, hc, h⟩
      by_contra hshort
      have hpos : 0 < fs.length := List.length_pos_iff.mpr hne
      obtain ⟨r, rfl⟩ := List.length_eq_one_iff.mp (show rows.length = 1 by omega)
      exact hone r rfl

/-- What is programmed takes one entry at least and sixteen at most. -/
theorem analyse_length {stack : Stack} {fs : List DmxSectionFilter} {a : Analysis}
    (h : analyse stack fs = some a) : 1 ≤ a.rows.length ∧ a.rows.length ≤ maxSectionFilters := by
  rcases analyse_cases h with ⟨f, rfl, rfl⟩ | ⟨hlen, rows, hc, hmany⟩
  · unfold analyseOne maxSectionFilters
    split
    · simp
    · split
      · simp
      · split <;> simp
  · obtain ⟨hroom, -, -⟩ := copyFilters_spec hc (Nat.zero_le _)
    have hne : fs ≠ [] := List.length_pos_iff.mp (by omega)
    obtain ⟨h1, h2⟩ := analyseMany_length hc hne hmany
    exact ⟨h1, by omega⟩

/-- One table, every version but one. -/
def otherVersions (tableId version : U8) : DmxSectionFilter :=
  { filterValue := fun i => if i = 0 then tableId else if i = 5 then version else 0#8
    filterMask := fun i => if i = 0 then 0xFF#8 else if i = 5 then 0x3E#8 else 0#8
    filterMode := fun i => if i = 5 then 0#8 else 0xFF#8 }

/-- All sections of a table. -/
def wholeTable (tableId : U8) : DmxSectionFilter :=
  { filterValue := fun i => if i = 0 then tableId else 0#8
    filterMask := fun i => if i = 0 then 0xFF#8 else 0#8
    filterMode := fun _ => 0xFF#8 }

/-- One table, every version but one, and of that every section but the first. -/
def otherSections (tableId version : U8) : DmxSectionFilter :=
  { filterValue := fun i => if i = 0 then tableId else if i = 5 then version else 0#8
    filterMask := fun i => if i = 0 ∨ i = 6 then 0xFF#8 else if i = 5 then 0x3E#8 else 0#8
    filterMode := fun i => if i = 5 ∨ i = 6 then 0#8 else 0xFF#8 }

/-- Tables 0x40, 0x41 and 0x43 without one version, and all of table 0x42. -/
def neighbourTables : List DmxSectionFilter :=
  [ { otherVersions 0x40#8 0x0A#8 with
      filterMask := fun i => if i = 0 then 0xFE#8 else if i = 5 then 0x3E#8 else 0#8 },
    otherVersions 0x43#8 0x0A#8, wholeTable 0x42#8 ]

end Tuxbox.Avia
