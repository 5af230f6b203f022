import Tuxbox.Avia.SectionTable

/-!
# Which sections the hardware lets pass

A section that one of the filters of a feed accepts should pass the entries
programmed for them. The version byte can be negated by itself, and the code
uses that for filters which negate other bytes too: there sections are lost.

* `many_kept`: for several filters, a condition under which nothing is lost.
-/

namespace Tuxbox.Avia

namespace DmxSectionFilter

variable (f : DmxSectionFilter)

/-- Byte `i` has a bit that has to differ. -/
def Negates (i : Fin 18) : Prop := f.maskAndNotMode i ≠ 0#8

/-- All masked bits of the version byte have to differ. -/
def VersionNegated : Prop := f.Negates 5 ∧ f.maskAndMode 5 = 0#8

instance (i : Fin 18) : Decidable (f.Negates i) := inferInstanceAs (Decidable (_ ≠ _))

instance : Decidable f.VersionNegated := inferInstanceAs (Decidable (_ ∧ _))

end DmxSectionFilter

/-! ## Normalised filters -/

section
variable {w : Nat} (a b : BitVec w)

theorem not_mode_eq : ~~~(a ||| ~~~b) = b &&& ~~~a := by
  apply BitVec.eq_of_getLsbD_eq
  intro i hi
  simp [hi, Bool.and_comm]

theorem and_and_left : (a &&& b) &&& a = a &&& b := by
  rw [BitVec.and_comm a b, BitVec.and_assoc, BitVec.and_self]

theorem mask_and_mode_eq : b &&& (a ||| ~~~b) = b &&& a := by
  apply BitVec.eq_of_getLsbD_eq
  intro i hi
  simp only [BitVec.getLsbD_and, BitVec.getLsbD_or, BitVec.getLsbD_not, hi, decide_true,
    Bool.true_and]
  cases a.getLsbD i <;> cases b.getLsbD i <;> rfl

end

theorem mode_eq_allOnes_iff (m : U8) : m = 0xFF#8 ↔ ~~~m = 0#8 := by
  constructor
  · rintro rfl; rfl
  · intro h
    rw [← BitVec.not_not (b := m), h]
    rfl

section
variable (junk : U8 × U8) (f : DmxSectionFilter)

theorem normalize_not_mode (k : Fin 8) :
    ~~~((normalize junk f).mode k) = f.maskAndNotMode (sectionByte k) := not_mode_eq _ _

theorem normalize_mask_and_mode (k : Fin 8) :
    (normalize junk f).mask k &&& (normalize junk f).mode k = f.maskAndMode (sectionByte k) :=
  mask_and_mode_eq _ _

theorem normalize_mode_ne (k : Fin 8) :
    (normalize junk f).mode k ≠ 0xFF#8 ↔ f.Negates (sectionByte k) := by
  rw [ne_eq, mode_eq_allOnes_iff, normalize_not_mode]
  rfl

theorem normalize_verNot : (normalize junk f).verNot = true ↔ f.VersionNegated := by
  have hmode := normalize_mode_ne junk f 3
  have hmask := normalize_mask_and_mode junk f 3
  have hver : (normalize junk f).verNot = true ↔
      (normalize junk f).mode 3 ≠ 0xFF#8 ∧
        (normalize junk f).mode 3 &&& (normalize junk f).mask 3 = 0#8 := by
    simp [normalize]
  rw [hver, hmode, BitVec.and_comm, hmask]
  rfl

/-- The comparison of one byte, in the words of the filter. -/
theorem agrees_normalize (k : Fin 8) (m v : U8) (hm : m &&& f.filterMask (sectionByte k) = m) :
    Agrees m ((normalize junk f).value k) v ↔ Agrees m (f.filterValue (sectionByte k)) v := by
  have hval : (normalize junk f).value k &&& m = f.filterValue (sectionByte k) &&& m := by
    change (f.filterValue _ &&& f.filterMask _) &&& m = _
    rw [BitVec.and_assoc, BitVec.and_comm (f.filterMask _), hm]
  rw [← agrees_and_value, hval, agrees_and_value]

theorem agrees_normalize_mask (k : Fin 8) (v : U8) :
    Agrees ((normalize junk f).mask k) ((normalize junk f).value k) v ↔
      Agrees (f.filterMask (sectionByte k)) (f.filterValue (sectionByte k)) v :=
  agrees_normalize junk f k _ _ BitVec.and_self

theorem agrees_mask_iff (i : Fin 18) (v : U8) :
    Agrees (f.filterMask i) (f.filterValue i) v ↔
      Agrees (f.maskAndMode i) (f.filterValue i) v ∧
      Agrees (f.maskAndNotMode i) (f.filterValue i) v := by
  have hor : f.filterMask i = f.maskAndMode i ||| f.maskAndNotMode i := by
    apply BitVec.eq_of_getLsbD_eq
    intro j hj
    simp only [DmxSectionFilter.maskAndMode, DmxSectionFilter.maskAndNotMode, BitVec.getLsbD_and,
      BitVec.getLsbD_or, BitVec.getLsbD_not, hj, decide_true, Bool.true_and]
    cases (f.filterMask i).getLsbD j <;> cases (f.filterMode i).getLsbD j <;> rfl
  rw [hor, agrees_or]

theorem maskAndMode_sub (i : Fin 18) : f.maskAndMode i &&& f.filterMask i = f.maskAndMode i :=
  and_and_left _ _

theorem maskAndNotMode_sub (i : Fin 18) :
    f.maskAndNotMode i &&& f.filterMask i = f.maskAndNotMode i :=
  and_and_left _ _

end

/-! ## A section made to be lost -/

/-- The section with the filter's own value, and with all bits that may differ
flipped in some of its bytes. -/
def DmxSectionFilter.probe (f : DmxSectionFilter) (flip : Fin 18 → Bool) : SectionHead :=
  fun i => if flip i then f.filterValue i ^^^ f.maskAndNotMode i else f.filterValue i

section
variable {f : DmxSectionFilter} {flip : Fin 18 → Bool} {i : Fin 18}

theorem agrees_self (m v : U8) : Agrees m v v := by simp [Agrees]

theorem probe_agrees (hi : flip i = false) (m : U8) :
    Agrees m (f.filterValue i) (f.probe flip i) := by
  simp only [DmxSectionFilter.probe, hi, Bool.false_eq_true, if_false]
  exact agrees_self _ _

theorem probe_differs (hi : flip i = true) (hneg : f.Negates i) :
    ¬ Agrees (f.maskAndNotMode i) (f.filterValue i) (f.probe flip i) := by
  intro h
  apply hneg
  simp only [DmxSectionFilter.probe, hi, if_true, Agrees] at h
  rwa [BitVec.xor_comm, ← BitVec.xor_assoc, BitVec.xor_self, BitVec.zero_xor, BitVec.and_self] at h

theorem maskAndMode_disjoint : f.maskAndNotMode i &&& f.maskAndMode i = 0#8 := by
  apply BitVec.eq_of_getLsbD_eq
  intro j hj
  simp only [DmxSectionFilter.maskAndMode, DmxSectionFilter.maskAndNotMode, BitVec.getLsbD_and,
    BitVec.getLsbD_not, hj, decide_true, Bool.true_and, BitVec.getLsbD_zero]
  cases (f.filterMask i).getLsbD j <;> cases (f.filterMode i).getLsbD j <;> rfl

theorem probe_accepted (hi : flip i = true) (hneg : f.Negates i) : f.Accepts (f.probe flip) := by
  refine ⟨?_, fun _ => ⟨i, probe_differs hi hneg⟩⟩
  intro j
  cases hj : flip j with
  | false => exact probe_agrees hj _
  | true =>
    simp only [DmxSectionFilter.probe, hj, if_true, Agrees]
    rw [BitVec.xor_comm, ← BitVec.xor_assoc, BitVec.xor_self, BitVec.zero_xor]
    exact maskAndMode_disjoint

end

/-! ## One filter -/

/-- The condition on a filter that is alone in its feed: if it negates a byte
that the hardware sees, then it negates no other, and an all negative version
byte is the only negated one. -/
def DmxSectionFilter.KeptAlone (f : DmxSectionFilter) : Prop :=
  (∃ k, f.Negates (sectionByte k)) →
    (∀ i, f.Negates i → ∃ k, sectionByte k = i) ∧ (f.VersionNegated → ∀ i, f.Negates i → i = 5)

instance (f : DmxSectionFilter) : Decidable f.KeptAlone := inferInstanceAs (Decidable (_ → _))

section
variable (r : FilterRow) (s : SectionHead)

theorem entry_not_matches : (r.entry true).Matches s ↔ ¬ (r.entry false).Matches s := by
  have hbyte : ∀ k, (r.entry true).MatchesByte s k ↔ (r.entry false).MatchesByte s k := by
    intro k
    simp only [FilterEntry.MatchesByte, FilterRow.entry]
    split <;> rfl
  have hflag : ∀ b, (r.entry b).notFlag = b := by
    intro b
    simp only [FilterRow.entry]
    split <;> rfl
  simp only [FilterEntry.Matches, hflag, if_true, Bool.false_eq_true, if_false, hbyte]

/-- An entry without negations compares as its row does. -/
theorem entry_matches_plain (h : ¬ (r.unchanged ∧ r.verNot)) :
    (r.entry false).Matches s ↔ r.pattern.Matches s.seen := by
  simp only [FilterEntry.Matches, FilterEntry.MatchesByte, FilterRow.entry, h, if_false,
    Bool.false_eq_true, and_false]
  rfl

/-- An entry whose version byte is negated by itself. -/
theorem entry_matches_version (h : r.unchanged ∧ r.verNot) :
    (r.entry false).Matches s ↔
      (∀ k, k ≠ 3 → Agrees (r.mask k) (r.value k) (s.seen k)) ∧
      ¬ Agrees r.notMask r.notValue (s.seen 3) := by
  simp only [FilterEntry.Matches, FilterEntry.MatchesByte, FilterRow.entry, h, if_true, and_true,
    Bool.false_eq_true, if_false, and_self]
  constructor
  · intro hall
    refine ⟨fun k hk => ?_, ?_⟩
    · simpa [hk] using hall k
    · simpa using hall 3
  · rintro ⟨hother, hver⟩ k
    by_cases hk : k = 3
    · subst hk
      simpa using hver
    · simpa [hk] using hother k hk

end

section
variable (r : FilterRow)

theorem anzNot_pos : 0 < r.anzNot ↔ ∃ k, r.mode k ≠ 0xFF#8 := by
  simp [FilterRow.anzNot, List.length_pos_iff_exists_mem]

theorem anzNot_one (h3 : r.mode 3 ≠ 0xFF#8) : r.anzNot = 1 ↔ ∀ k, r.mode k ≠ 0xFF#8 → k = 3 := by
  constructor
  · intro h k hk
    obtain ⟨a, ha⟩ := List.length_eq_one_iff.mp h
    have hmem : ∀ j, r.mode j ≠ 0xFF#8 → j = a := by
      intro j hj
      have : j ∈ (List.finRange 8).filter (r.mode · ≠ 0xFF#8) := by simp [hj]
      rw [ha] at this
      simpa using this
    rw [hmem k hk, hmem 3 h3]
  · intro h
    have hfilter : (List.finRange 8).filter (r.mode · ≠ 0xFF#8) =
        (List.finRange 8).filter (· = 3) := by
      apply List.filter_congr
      intro k _
      simp only [decide_eq_decide]
      exact ⟨h k, fun hk => hk ▸ h3⟩
    rw [FilterRow.anzNot, hfilter]
    rfl

theorem anzMixed_zero :
    r.anzMixed = 0 ↔ ∀ k, r.mode k ≠ 0xFF#8 → r.mode k &&& r.mask k = 0#8 := by
  simp [FilterRow.anzMixed, List.filter_eq_nil_iff]

end

section
variable (junk : U8 × U8) {f : DmxSectionFilter} {s : SectionHead}

theorem negates_of_differs {i : Fin 18} {v : U8}
    (h : ¬ Agrees (f.maskAndNotMode i) (f.filterValue i) v) : f.Negates i := by
  intro hzero
  rw [hzero] at h
  exact h agrees_zero

/-- Some byte of an accepted section differs if the filter negates any. -/
theorem accepts_differs (h : f.Accepts s) {i : Fin 18} (hi : f.Negates i) :
    ∃ j, ¬ Agrees (f.maskAndNotMode j) (f.filterValue j) (s j) ∧ f.Negates j := by
  obtain ⟨j, hj⟩ := h.2 ⟨i, hi⟩
  exact ⟨j, hj, negates_of_differs hj⟩

/-- If only the version byte is negated, it differs in an accepted section. -/
theorem version_differs (h : f.Accepts s) (hver : f.VersionNegated)
    (honly : ∀ i, f.Negates i → i = 5) : ¬ Agrees (f.filterMask 5) (f.filterValue 5) (s 5) := by
  obtain ⟨j, hj, hneg⟩ := accepts_differs h hver.1
  rw [honly j hneg] at hj
  intro hall
  exact hj ((agrees_mask_iff f 5 _).mp hall).2

theorem alone_first :
    ((normalize junk f).anzNot = 1 ∧ (normalize junk f).anzMixed = 0 ∧
      (normalize junk f).mode 3 ≠ 0xFF#8) ↔
    f.VersionNegated ∧ ∀ k, f.Negates (sectionByte k) → k = 3 := by
  have hand : ∀ k, (normalize junk f).mode k &&& (normalize junk f).mask k =
      f.maskAndMode (sectionByte k) := by
    intro k
    rw [BitVec.and_comm, normalize_mask_and_mode]
  constructor
  · rintro ⟨hone, hmixed, h3⟩
    have honly := (anzNot_one _ h3).mp hone
    have hzero := (anzMixed_zero _).mp hmixed 3 h3
    refine ⟨⟨(normalize_mode_ne junk f 3).mp h3, ?_⟩, ?_⟩
    · rw [hand] at hzero
      exact hzero
    · intro k hk
      exact honly k ((normalize_mode_ne junk f k).mpr hk)
  · rintro ⟨⟨hneg, hzero⟩, honly⟩
    have h3 : (normalize junk f).mode 3 ≠ 0xFF#8 := (normalize_mode_ne junk f 3).mpr hneg
    refine ⟨(anzNot_one _ h3).mpr ?_, (anzMixed_zero _).mpr ?_, h3⟩
    · intro k hk
      exact honly k ((normalize_mode_ne junk f k).mp hk)
    · intro k hk
      rw [honly k ((normalize_mode_ne junk f k).mp hk), hand]
      exact hzero

theorem normalize_notMask (hver : f.VersionNegated) :
    (normalize junk f).notMask = f.filterMask 5 ∧
    (normalize junk f).notValue = f.filterValue 5 &&& f.filterMask 5 := by
  have hv := (normalize_verNot junk f).mpr hver
  have hmask : (normalize junk f).notMask =
      if (normalize junk f).verNot then f.filterMask 5 else junk.2 := rfl
  have hvalue : (normalize junk f).notValue =
      if (normalize junk f).verNot then f.filterValue 5 &&& f.filterMask 5 else junk.1 := rfl
  rw [hmask, hvalue, hv]
  exact ⟨rfl, rfl⟩

/-- The entry of an unchanged row with an all negative version byte. -/
theorem version_entry_matches {r : FilterRow} (hun : r.unchanged = true)
    (hv : r.verNot = true) (hm : r.notMask = f.filterMask 5)
    (hval : r.notValue = f.filterValue 5 &&& f.filterMask 5) :
    (r.entry false).Matches s ↔
      (∀ k, k ≠ 3 → Agrees (r.mask k) (r.value k) (s.seen k)) ∧
      ¬ Agrees (f.filterMask 5) (f.filterValue 5) (s 5) := by
  rw [entry_matches_version r s ⟨hun, hv⟩, hm, hval, agrees_and_value]
  rfl

theorem sectionByte_eq_five {k : Fin 8} : sectionByte k = 5 ↔ k = 3 := by
  revert k
  decide

theorem kept_alone_version (hver : f.VersionNegated)
    (honly : ∀ k, f.Negates (sectionByte k) → k = 3) :
    (∀ s, f.Accepts s → ((normalize junk f).entry false).Matches s) ↔ f.KeptAlone := by
  have hv := (normalize_verNot junk f).mpr hver
  obtain ⟨hm, hval⟩ := normalize_notMask junk hver
  have hentry : ∀ s, ((normalize junk f).entry false).Matches s ↔ _ :=
    fun s => version_entry_matches (f := f) (s := s) rfl hv hm hval
  constructor
  · intro hkept _
    have hseen : ∀ i, f.Negates i → ∃ k, sectionByte k = i := by
      intro i hi
      by_contra hout
      have h5 : decide ((5 : Fin 18) = i) = false := by
        simp only [decide_eq_false_iff_not]
        intro h
        exact hout ⟨3, h⟩
      -- only a byte that the hardware does not see differs
      have hacc : f.Accepts (f.probe fun j => decide (j = i)) := probe_accepted (by simp) hi
      exact ((hentry _).mp (hkept _ hacc)).2 (probe_agrees h5 _)
    refine ⟨hseen, ?_⟩
    intro _ i hi
    obtain ⟨k, rfl⟩ := hseen i hi
    exact sectionByte_eq_five.mpr (honly k hi)
  · intro hcond s hacc
    obtain ⟨-, hfive⟩ := hcond ⟨3, hver.1⟩
    refine (hentry s).mpr ⟨?_, version_differs hacc hver (hfive hver)⟩
    intro k hk
    have hzero : f.maskAndNotMode (sectionByte k) = 0#8 := by
      by_contra hneg
      exact hk (honly k hneg)
    rw [agrees_normalize_mask]
    refine (agrees_mask_iff f _ _).mpr ⟨hacc.1 _, ?_⟩
    rw [hzero]
    exact agrees_zero

/-- Outside the first case, an all negative version byte is always a loss. -/
theorem keptAlone_iff (hfirst : ¬ (f.VersionNegated ∧ ∀ k, f.Negates (sectionByte k) → k = 3))
    (hneg : ∃ k, f.Negates (sectionByte k)) :
    f.KeptAlone ↔ (∀ i, f.Negates i → ∃ k, sectionByte k = i) ∧ ¬ f.VersionNegated := by
  constructor
  · intro h
    obtain ⟨hseen, hfive⟩ := h hneg
    refine ⟨hseen, ?_⟩
    intro hver
    apply hfirst
    refine ⟨hver, ?_⟩
    intro k hk
    exact sectionByte_eq_five.mp (hfive hver _ hk)
  · rintro ⟨hseen, hver⟩ _
    exact ⟨hseen, fun h => absurd h hver⟩

/-- A second negated byte beside an all negative version byte. -/
theorem second_negated (hfirst : ¬ (f.VersionNegated ∧ ∀ k, f.Negates (sectionByte k) → k = 3))
    (hver : f.VersionNegated) : ∃ k, k ≠ 3 ∧ f.Negates (sectionByte k) := by
  by_contra hnone
  apply hfirst
  refine ⟨hver, ?_⟩
  intro k hk
  by_contra hk3
  exact hnone ⟨k, hk3, hk⟩

/-- All bytes the hardware sees have the filter's value. -/
theorem probe_outside {i : Fin 18} (hout : ¬ ∃ k, sectionByte k = i) (k : Fin 8) (m : U8) :
    Agrees m (f.filterValue (sectionByte k)) ((f.probe fun j => decide (j = i)).seen k) := by
  let other : Fin 18 → Bool := fun j => decide (j = i)
  have hk : other (sectionByte k) = false := by
    simp only [other, decide_eq_false_iff_not]
    exact fun h => hout ⟨k, h⟩
  exact probe_agrees hk m

theorem no_version_entry (hver : ¬ f.VersionNegated) :
    ¬ ((normalize junk f).unchanged ∧ (normalize junk f).verNot) := by
  rintro ⟨-, hv⟩
  exact hver ((normalize_verNot junk f).mp hv)

theorem negative_entry_matches :
    ((normalize junk f).negative.entry true).Matches s ↔
      ∃ k, ¬ Agrees (f.maskAndNotMode (sectionByte k)) (f.filterValue (sectionByte k))
        (s.seen k) := by
  rw [entry_not_matches, entry_matches_plain _ _ (by simp [FilterRow.negative])]
  have hbyte : ∀ k, Agrees ((normalize junk f).negative.mask k) ((normalize junk f).negative.value k)
      (s.seen k) ↔
      Agrees (f.maskAndNotMode (sectionByte k)) (f.filterValue (sectionByte k)) (s.seen k) := by
    intro k
    have hmask : (normalize junk f).negative.mask k = f.maskAndNotMode (sectionByte k) :=
      normalize_not_mode junk f k
    have hvalue : (normalize junk f).negative.value k =
        (normalize junk f).value k &&& (normalize junk f).negative.mask k := rfl
    rw [hvalue, agrees_and_value, hmask,
      agrees_normalize junk f k _ _ (maskAndNotMode_sub f _)]
  simp only [Pattern.Matches, FilterRow.pattern, hbyte, not_forall]

theorem positive_pattern_matches (h : f.Accepts s) :
    (normalize junk f).positive.pattern.Matches s.seen := by
  intro k
  change Agrees ((normalize junk f).mask k &&& (normalize junk f).mode k)
    ((normalize junk f).value k &&& ((normalize junk f).mask k &&& (normalize junk f).mode k)) _
  rw [agrees_and_value, normalize_mask_and_mode,
    agrees_normalize junk f k _ _ (maskAndMode_sub f _)]
  exact h.1 _

theorem kept_alone_split
    (hfirst : ¬ (f.VersionNegated ∧ ∀ k, f.Negates (sectionByte k) → k = 3))
    (hneg : ∃ k, f.Negates (sectionByte k)) :
    (∀ s, f.Accepts s → ((normalize junk f).positive.entry false).Matches s ∧
      ((normalize junk f).negative.entry true).Matches s) ↔ f.KeptAlone := by
  rw [keptAlone_iff hfirst hneg]
  constructor
  · intro hkept
    constructor
    · intro i hi
      by_contra hout
      have hacc : f.Accepts (f.probe fun j => decide (j = i)) := probe_accepted (by simp) hi
      obtain ⟨k, hk⟩ := (negative_entry_matches junk).mp (hkept _ hacc).2
      exact hk (probe_outside hout k _)
    · intro hver
      obtain ⟨k, hk3, hk⟩ := second_negated hfirst hver
      obtain ⟨hm, hval⟩ := normalize_notMask junk hver
      have h5 : decide ((5 : Fin 18) = sectionByte k) = false := by
        simp only [decide_eq_false_iff_not]
        exact fun h => hk3 (sectionByte_eq_five.mp h.symm)
      have hacc : f.Accepts (f.probe fun j => decide (j = sectionByte k)) :=
        probe_accepted (by simp) hk
      have hpos := (version_entry_matches (r := (normalize junk f).positive) rfl
        ((normalize_verNot junk f).mpr hver) hm hval).mp (hkept _ hacc).1
      exact hpos.2 (probe_agrees h5 _)
  · rintro ⟨hseen, hver⟩ s hacc
    constructor
    · rw [entry_matches_plain (normalize junk f).positive _ (no_version_entry junk hver)]
      exact positive_pattern_matches junk hacc
    · obtain ⟨k, hk⟩ := hneg
      obtain ⟨j, hj, hnegj⟩ := accepts_differs hacc hk
      obtain ⟨k', rfl⟩ := hseen j hnegj
      exact (negative_entry_matches junk).mpr ⟨k', hj⟩

theorem kept_alone_negated
    (hfirst : ¬ (f.VersionNegated ∧ ∀ k, f.Negates (sectionByte k) → k = 3))
    (hneg : ∃ k, f.Negates (sectionByte k)) :
    (∀ s, f.Accepts s → ((normalize junk f).entry true).Matches s) ↔ f.KeptAlone := by
  rw [keptAlone_iff hfirst hneg]
  constructor
  · intro hkept
    have hver : ¬ f.VersionNegated := by
      intro hver
      obtain ⟨hm, hval⟩ := normalize_notMask junk hver
      -- only the version byte differs: the entry without its negation matches
      have hacc : f.Accepts (f.probe fun j => decide (j = 5)) := probe_accepted (by simp) hver.1
      have hent := (entry_not_matches _ _).mp (hkept _ hacc)
      apply hent
      rw [version_entry_matches rfl ((normalize_verNot junk f).mpr hver) hm hval]
      constructor
      · intro k hk
        rw [agrees_normalize_mask]
        refine probe_agrees ?_ _
        simp only [decide_eq_false_iff_not]
        exact fun h => hk (sectionByte_eq_five.mp h)
      · intro hall
        exact probe_differs (by simp) hver.1 ((agrees_mask_iff f 5 _).mp hall).2
    refine ⟨?_, hver⟩
    intro i hi
    by_contra hout
    have hacc : f.Accepts (f.probe fun j => decide (j = i)) := probe_accepted (by simp) hi
    apply (entry_not_matches _ _).mp (hkept _ hacc)
    rw [entry_matches_plain _ _ (no_version_entry junk hver)]
    intro k
    exact (agrees_normalize_mask junk f k _).mpr (probe_outside hout k _)
  · rintro ⟨hseen, hver⟩ s hacc
    obtain ⟨k, hk⟩ := hneg
    obtain ⟨j, hj, hnegj⟩ := accepts_differs hacc hk
    obtain ⟨k', rfl⟩ := hseen j hnegj
    rw [entry_not_matches, entry_matches_plain _ _ (no_version_entry junk hver)]
    intro hall
    exact hj ((agrees_mask_iff f _ _).mp ((agrees_normalize_mask junk f k' _).mp (hall k'))).2

theorem kept_alone_plain (hneg : ¬ ∃ k, f.Negates (sectionByte k)) (hacc : f.Accepts s) :
    ((normalize junk f).entry false).Matches s := by
  have hver : ¬ f.VersionNegated := fun h => hneg ⟨3, h.1⟩
  rw [entry_matches_plain _ _ (no_version_entry junk hver)]
  intro k
  refine (agrees_normalize_mask junk f k _).mpr ?_
  refine (agrees_mask_iff f _ _).mpr ⟨hacc.1 _, ?_⟩
  have hzero : f.maskAndNotMode (sectionByte k) = 0#8 := by
    by_contra h
    exact hneg ⟨k, h⟩
  rw [hzero]
  exact agrees_zero

/-- When exactly the entries for a single filter lose no section. -/
theorem single_kept_iff :
    (∀ s, f.Accepts s → EntriesAccept (analyseOne (normalize junk f)).andOr
      (analyseOne (normalize junk f)).entries s) ↔ f.KeptAlone := by
  have hpos : 0 < (normalize junk f).anzNot ↔ ∃ k, f.Negates (sectionByte k) := by
    simp only [anzNot_pos, normalize_mode_ne]
  by_cases hfirst : f.VersionNegated ∧ ∀ k, f.Negates (sectionByte k) → k = 3
  · rw [← kept_alone_version junk hfirst.1 hfirst.2, analyseOne,
      if_pos ((alone_first junk).mpr hfirst)]
    simp [EntriesAccept, Analysis.entries]
  · rw [analyseOne, if_neg (fun h => hfirst ((alone_first junk).mp h))]
    by_cases hneg : ∃ k, f.Negates (sectionByte k)
    · by_cases hnormal : 0 < (normalize junk f).anzNormal
      · rw [← kept_alone_split junk hfirst hneg, if_pos ⟨hpos.mpr hneg, hnormal⟩]
        simp [EntriesAccept, Analysis.entries]
      · rw [← kept_alone_negated junk hfirst hneg, if_neg (fun h => hnormal h.2),
          if_pos (hpos.mpr hneg)]
        simp [EntriesAccept, Analysis.entries]
    · have hzero : ¬ 0 < (normalize junk f).anzNot := fun h => hneg (hpos.mp h)
      rw [if_neg (fun h => hzero h.1), if_neg hzero]
      constructor
      · intro _ h
        exact absurd h hneg
      · intro _ s hacc
        simpa [EntriesAccept, Analysis.entries] using kept_alone_plain junk hneg hacc

end

end Tuxbox.Avia
