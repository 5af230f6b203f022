import Tuxbox.Nhttpd.Params

/-!
# Values and numbers of the parameters

Every value is found under its name. The number of a parameter is counted from the
entries there are, and a value is an entry too: the numbers are right as long as
only bare names came, and for names that are empty.
-/

namespace Tuxbox.Nhttpd

theorem decNat_inj {a b : Nat} (h : decNat a = decNat b) : a = b := by
  have hread := congrArg readNat h
  rwa [readNat_decNat, readNat_decNat] at hread

@[simp] theorem entry_set (m : OrdMap Str Str) (k v k' : Str) :
    entry (m.set k v) k' = if k' = k then v else entry m k' := by
  unfold entry
  rw [OrdMap.find_set]
  split <;> rfl

/-! ## Values -/

/-- The values given for `name`. -/
def valuesOf (ps : List Param) (name : Str) : List Str :=
  ps.filterMap fun
    | .bare _ => none
    | .valued n value => if n = name then some value else none

theorem joined_intercalate (values : List Str) {old : Str} (h : old ≠ []) :
    values.foldl joinValue old = (chars ",").intercalate (old :: values) := by
  induction values generalizing old with
  | nil => simp
  | cons v vs ih =>
    have hjoin : joinValue old v = old ++ chars "," ++ v := if_neg h
    rw [List.foldl_cons, hjoin, ih (by simp [h]), List.intercalate_cons_cons]
    cases vs with
    | nil => simp
    | cons w ws => simp [List.intercalate_cons_cons]

theorem takeParam_entry {name : Str} (h : ∀ k, name ≠ decNat k) (m : OrdMap Str Str) (p : Param) :
    entry (takeParam m p) name = (valuesOf [p] name).foldl joinValue (entry m name) := by
  cases p with
  | bare n => simp [takeParam, addNumber, h, valuesOf]
  | valued n value =>
    by_cases hn : name = n
    · subst hn
      simp [takeParam, addNumber, h, valuesOf]
    · simp [takeParam, addNumber, h, valuesOf, hn, Ne.symm hn]

/-- The entry of a name that is no number: all its values, joined. -/
theorem run_values {name : Str} (h : ∀ k, name ≠ decNat k) (ps : List Param)
    (m : OrdMap Str Str) :
    entry (ps.foldl takeParam m) name = (valuesOf ps name).foldl joinValue (entry m name) := by
  induction ps generalizing m with
  | nil => rfl
  | cons p ps ih =>
    have hcons : valuesOf (p :: ps) name = valuesOf [p] name ++ valuesOf ps name := by
      rw [valuesOf, valuesOf, valuesOf, ← List.filterMap_append]
      rfl
    rw [List.foldl_cons, ih, takeParam_entry h, hcons, List.foldl_append]

theorem valuesOf_ne_nil {ps : List Param} (hv : ∀ p ∈ ps, p.Valid) {name v : Str}
    (h : v ∈ valuesOf ps name) : v ≠ [] := by
  obtain ⟨p, hp, hpv⟩ := List.mem_filterMap.mp h
  cases p with
  | bare _ => simp at hpv
  | valued n value =>
    obtain ⟨-, rfl⟩ : n = name ∧ value = v := by simpa using hpv
    exact (hv _ hp).1

theorem values_joined {ps : List Param} (hv : ∀ p ∈ ps, p.Valid) {name : Str}
    (h : ∀ k, name ≠ decNat k) :
    entry ((sent ps).foldl takeParam OrdMap.empty) name =
      (chars ",").intercalate (valuesOf ps name) := by
  have hsent : valuesOf (sent ps) name = valuesOf ps name := by cases ps <;> rfl
  rw [run_values h, hsent]
  cases hvs : valuesOf ps name with
  | nil => rfl
  | cons v vs =>
    have hne : v ≠ [] := valuesOf_ne_nil hv (hvs ▸ List.mem_cons_self)
    exact joined_intercalate vs hne

/-! ## Numbers -/

/-- No value is given for a number. -/
def Param.Tame : Param → Prop
  | .bare _ => True
  | .valued name _ => ∀ k, name ≠ decNat k

/-- Numbers above the size are free. -/
def Low (m : OrdMap Str Str) : Prop := ∀ k, m.contains (decNat k) = true → k ≤ m.size

theorem Low.free {m : OrdMap Str Str} (h : Low m) {k : Nat} (hk : m.size < k) :
    m.contains (decNat k) = false := by
  by_contra hc
  have := h k (by simpa using hc)
  omega

theorem Low.entry {m : OrdMap Str Str} (h : Low m) {k : Nat} (hk : m.size < k) :
    entry m (decNat k) = [] := by
  have hfree := h.free hk
  unfold OrdMap.contains at hfree
  unfold Nhttpd.entry
  rw [Option.isSome_eq_false_iff, Option.isNone_iff_eq_none] at hfree
  rw [hfree]
  rfl

theorem Low.addNumber {m : OrdMap Str Str} (h : Low m) (name : Str) :
    Low (addNumber m name) ∧ (addNumber m name).size = m.size + 1 := by
  have hsize : (Nhttpd.addNumber m name).size = m.size + 1 := by
    unfold Nhttpd.addNumber
    rw [OrdMap.size_set, h.free (Nat.lt_succ_self _)]
    rfl
  refine ⟨fun k hk => ?_, hsize⟩
  rw [hsize]
  unfold Nhttpd.addNumber at hk
  rw [OrdMap.contains, OrdMap.find_set] at hk
  split at hk
  · rename_i heq
    exact (decNat_inj heq).le
  · exact Nat.le_succ_of_le (h k hk)

theorem size_le_set (m : OrdMap Str Str) (k v : Str) : m.size ≤ (m.set k v).size := by
  rw [OrdMap.size_set]
  split <;> omega

theorem Low.set {m : OrdMap Str Str} (h : Low m) {name : Str} (hn : ∀ k, name ≠ decNat k)
    (value : Str) : Low (m.set name value) := by
  intro k hk
  rw [OrdMap.contains, OrdMap.find_set, if_neg (Ne.symm (hn k))] at hk
  exact (h k hk).trans (size_le_set m name value)

theorem Low.takeParam {m : OrdMap Str Str} (h : Low m) {p : Param} (hp : p.Tame) :
    Low (takeParam m p) ∧ m.size < (takeParam m p).size := by
  cases p with
  | bare name =>
    obtain ⟨hl, hs⟩ := h.addNumber (trim name)
    exact ⟨hl, by rw [Nhttpd.takeParam, hs]; omega⟩
  | valued name value =>
    obtain ⟨hl, hs⟩ := (h.set hp (joinValue (Nhttpd.entry m name) value)).addNumber name
    have hle := size_le_set m name (joinValue (Nhttpd.entry m name) value)
    exact ⟨hl, by rw [Nhttpd.takeParam, hs]; omega⟩

/-- A number that was given away is not touched again. -/
theorem takeParam_entry_le {m : OrdMap Str Str} {p : Param} (hp : p.Tame) {k : Nat}
    (hk : k ≤ m.size) : entry (takeParam m p) (decNat k) = entry m (decNat k) := by
  have hnew {n : Nat} (hn : m.size ≤ n) : decNat k ≠ decNat (n + 1) := by
    intro heq
    have := decNat_inj heq
    omega
  cases p with
  | bare name =>
    rw [takeParam, addNumber, entry_set, if_neg (hnew le_rfl)]
  | valued name value =>
    rw [takeParam, addNumber, entry_set, if_neg (hnew (size_le_set m name _)), entry_set,
      if_neg (Ne.symm (hp k))]

theorem run_entry_le {ps : List Param} (hps : ∀ p ∈ ps, p.Tame) {m : OrdMap Str Str}
    (hm : Low m) {k : Nat} (hk : k ≤ m.size) :
    entry (ps.foldl takeParam m) (decNat k) = entry m (decNat k) := by
  induction ps generalizing m with
  | nil => rfl
  | cons p ps ih =>
    have hp := hps p List.mem_cons_self
    obtain ⟨hlow, hlt⟩ := hm.takeParam hp
    rw [List.foldl_cons, ih (fun q hq => hps q (List.mem_cons_of_mem p hq)) hlow (by omega),
      takeParam_entry_le hp hk]

/-! ## Behind a value -/

/-- Parameters without a name leave the numbers from some place on empty. -/
theorem run_entry_empty {ps : List Param} (hps : ∀ p ∈ ps, p.name = []) {m : OrdMap Str Str}
    {i : Nat} (hm : ∀ k, i < k → entry m (decNat k) = []) {k : Nat} (hk : i < k) :
    entry (ps.foldl takeParam m) (decNat k) = [] := by
  induction ps generalizing m with
  | nil => exact hm k hk
  | cons p ps ih =>
    have hname := hps p List.mem_cons_self
    apply ih fun q hq => hps q (List.mem_cons_of_mem p hq)
    intro j hj
    cases p with
    | bare name =>
      obtain rfl : name = [] := hname
      rw [takeParam, addNumber, entry_set, hm j hj]
      exact ite_self []
    | valued name value =>
      obtain rfl : name = [] := hname
      rw [takeParam, addNumber, entry_set, entry_set, if_neg (decNat_ne_nil j), hm j hj]
      exact ite_self []

/-- Once the numbers are ahead of the parameters, only empty names are found. -/
theorem names_empty {ps : List Param} (hps : ∀ p ∈ ps, p.Tame) {m : OrdMap Str Str} (hm : Low m)
    {i : Nat} (hi : i < m.size) (hempty : ∀ k, i < k → entry m (decNat k) = [])
    (hfound : ∀ j (h : j < ps.length),
      entry (ps.foldl takeParam m) (decNat (i + 1 + j)) = ps[j].name) :
    ∀ p ∈ ps, p.name = [] := by
  induction ps generalizing m i with
  | nil => simp
  | cons p ps ih =>
    have htame := hps p List.mem_cons_self
    have htail := fun q hq => hps q (List.mem_cons_of_mem p hq)
    have hname : p.name = [] := by
      have hhead := hfound 0 (Nat.succ_pos _)
      rw [run_entry_le hps hm (by omega), hempty _ (by omega)] at hhead
      exact hhead.symm
    obtain ⟨hlow, hlt⟩ := hm.takeParam htame
    have hrest : ∀ q ∈ ps, q.name = [] := by
      apply ih htail hlow (show i + 1 < _ by omega)
      · intro k hk
        have hone : ∀ q ∈ [p], q.name = [] := by simpa using hname
        exact run_entry_empty hone hempty (show i < k by omega)
      · intro j hj
        have hnext := hfound (j + 1) (Nat.succ_lt_succ hj)
        rwa [show i + 1 + (j + 1) = i + 1 + 1 + j by omega] at hnext
    intro q hq
    rcases List.mem_cons.mp hq with rfl | hq
    · exact hname
    · exact hrest q hq

/-! ## The numbers that are right -/

/-- Bare names that `trim` leaves as they are, and then only empty names. -/
def Numbered (ps : List Param) : Prop :=
  ∃ front back, ps = front ++ back ∧ (∀ p ∈ front, p.Bare ∧ trim p.name = p.name) ∧
    ∀ p ∈ back, p.name = []

theorem Numbered.tame {ps : List Param} (h : Numbered ps) : ∀ p ∈ ps, p.Tame := by
  obtain ⟨front, back, rfl, hfront, hback⟩ := h
  intro p hp
  cases p with
  | bare _ => exact trivial
  | valued name _ =>
    rcases List.mem_append.mp hp with hp | hp
    · exact (hfront _ hp).1.elim
    · have hname : name = [] := hback _ hp
      exact fun k => hname ▸ Ne.symm (decNat_ne_nil k)

theorem Numbered.found {ps : List Param} (h : Numbered ps) {m : OrdMap Str Str} (hm : Low m)
    (j : Nat) (hj : j < ps.length) :
    entry (ps.foldl takeParam m) (decNat (m.size + 1 + j)) = ps[j].name := by
  have htame := h.tame
  obtain ⟨front, back, rfl, hfront, hback⟩ := h
  induction front generalizing m j with
  | nil =>
    have hname : back[j].name = [] := hback _ (List.getElem_mem hj)
    have hempty : entry (back.foldl takeParam m) (decNat (m.size + 1 + j)) = [] :=
      run_entry_empty hback (fun k => hm.entry) (show m.size < m.size + 1 + j by omega)
    exact hempty.trans hname.symm
  | cons p front ih =>
    obtain ⟨hlow, hlt⟩ := hm.takeParam (htame p List.mem_cons_self)
    have htail := fun q hq => htame q (List.mem_cons_of_mem p hq)
    obtain ⟨hbare, htrim⟩ := hfront p List.mem_cons_self
    cases p with
    | valued _ _ => exact hbare.elim
    | bare name =>
      have hsize : (takeParam m (.bare name)).size = m.size + 1 := (hm.addNumber _).2
      cases j with
      | zero =>
        have hkept := run_entry_le htail hlow hsize.ge
        rw [takeParam, addNumber, entry_set, if_pos rfl] at hkept
        exact hkept.trans htrim
      | succ j =>
        have hrest := ih hlow j (Nat.lt_of_succ_lt_succ hj) htail
          (fun q hq => hfront q (List.mem_cons_of_mem _ hq))
        rw [hsize] at hrest
        rwa [show m.size + 1 + (j + 1) = m.size + 1 + 1 + j by omega]

/-- Only numbers are names. -/
def Digits (m : OrdMap Str Str) : Prop := ∀ name, m.contains name = true → ∃ k, name = decNat k

theorem numbered_of_found {ps : List Param} (hps : ∀ p ∈ ps, p.Tame) {m : OrdMap Str Str}
    (hm : Low m) (hd : Digits m)
    (hfound : ∀ j (h : j < ps.length),
      entry (ps.foldl takeParam m) (decNat (m.size + 1 + j)) = ps[j].name) :
    Numbered ps := by
  induction ps generalizing m with
  | nil => exact ⟨[], [], rfl, by simp, by simp⟩
  | cons p ps ih =>
    have htame := hps p List.mem_cons_self
    have htail := fun q hq => hps q (List.mem_cons_of_mem p hq)
    obtain ⟨hlow, hlt⟩ := hm.takeParam htame
    have hhead : entry (takeParam m p) (decNat (m.size + 1)) = p.name := by
      have hzero := hfound 0 (Nat.succ_pos _)
      rwa [List.foldl_cons, run_entry_le htail hlow hlt] at hzero
    cases p with
    | bare name =>
      have hsize : (takeParam m (.bare name)).size = m.size + 1 := (hm.addNumber _).2
      have htrim : trim name = name := by
        rwa [takeParam, addNumber, entry_set, if_pos rfl] at hhead
      have hdigits : Digits (takeParam m (.bare name)) := by
        intro n hn
        rw [takeParam, addNumber, OrdMap.contains, OrdMap.find_set] at hn
        split at hn
        · exact ⟨_, ‹_›⟩
        · exact hd n hn
      have hrest : Numbered ps := by
        apply ih htail hlow hdigits
        intro j hj
        have hnext := hfound (j + 1) (Nat.succ_lt_succ hj)
        rw [hsize]
        rwa [show m.size + 1 + (j + 1) = m.size + 1 + 1 + j by omega] at hnext
      obtain ⟨front, back, rfl, hfront, hback⟩ := hrest
      refine ⟨.bare name :: front, back, rfl, ?_, hback⟩
      intro q hq
      rcases List.mem_cons.mp hq with rfl | hq
      · exact ⟨trivial, htrim⟩
      · exact hfront q hq
    | valued name value =>
      -- the value is an entry of its own, so the number comes out one too high
      have hnew : m.contains name = false := by
        by_contra hc
        obtain ⟨k, hk⟩ := hd name (by simpa using hc)
        exact htame k hk
      have hsize : (m.set name (joinValue (entry m name) value)).size = m.size + 1 := by
        rw [OrdMap.size_set, hnew]
        rfl
      have hname : name = [] := by
        have hne : decNat (m.size + 1) ≠ decNat (m.size + 1 + 1) :=
          fun heq => absurd (decNat_inj heq) (by omega)
        rw [takeParam, addNumber, entry_set, hsize, if_neg hne, entry_set,
          if_neg (Ne.symm (htame _)), hm.entry (Nat.lt_succ_self _)] at hhead
        exact hhead.symm
      subst hname
      have hempty : ∀ k, m.size < k →
          entry (takeParam m (.valued [] value)) (decNat k) = [] := by
        intro k hk
        have hone : ∀ q ∈ [Param.valued [] value], q.name = [] := by simp [Param.name]
        exact run_entry_empty hone (fun _ => hm.entry) hk
      have hall : ∀ q ∈ ps, q.name = [] := by
        apply names_empty htail hlow (i := m.size + 1)
        · rw [takeParam, ((hm.set htame _).addNumber []).2, hsize]
          omega
        · exact fun k hk => hempty k (by omega)
        · intro j hj
          have hnext := hfound (j + 1) (Nat.succ_lt_succ hj)
          rwa [show m.size + 1 + (j + 1) = m.size + 1 + 1 + j by omega] at hnext
      refine ⟨[], .valued [] value :: ps, rfl, by simp, ?_⟩
      intro q hq
      rcases List.mem_cons.mp hq with rfl | hq
      · rfl
      · exact hall q hq

/-- What a list of parameters should leave: its values under their names, its names under
their numbers. -/
structure Kept (ps : List Param) (m : OrdMap Str Str) : Prop where
  values : ∀ name, (∀ k, name ≠ decNat k) →
    entry m name = (chars ",").intercalate (valuesOf ps name)
  numbers : ∀ i (h : i < ps.length), entry m (decNat (i + 1)) = ps[i].name

theorem low_empty : Low OrdMap.empty := by
  intro k hk
  simp [OrdMap.contains] at hk

/-- Values are never lost. The numbers are right for `Numbered` lists, and for no others
unless a value is given for a number. -/
theorem params_kept {ps : List Param} {s : Str} (h : Encodes ps s) (hv : ∀ p ∈ ps, p.Valid) :
    (∀ fuel, s.length < fuel →
      parseParamsLoop fuel OrdMap.empty s = parseParams OrdMap.empty s) ∧
    (∀ name, (∀ k, name ≠ decNat k) → entry (parseParams OrdMap.empty s) name =
      (chars ",").intercalate (valuesOf ps name)) ∧
    (Numbered ps → Kept ps (parseParams OrdMap.empty s)) ∧
    ((∀ p ∈ ps, p.Tame) → Kept ps (parseParams OrdMap.empty s) → Numbered ps) := by
  obtain ⟨hparse, hends⟩ := parseParams_encodes h hv OrdMap.empty
  have hrun : ∀ i (h : i < ps.length), entry (parseParams OrdMap.empty s) (decNat (i + 1)) =
      entry (ps.foldl takeParam OrdMap.empty)
        (decNat ((OrdMap.empty : OrdMap Str Str).size + 1 + i)) := by
    intro i hi
    have hsent : sent ps = ps := by
      cases ps with
      | nil => simp at hi
      | cons _ _ => rfl
    rw [hparse, hsent, Nat.add_comm i]
    rfl
  have hvalues : ∀ name, (∀ k, name ≠ decNat k) → entry (parseParams OrdMap.empty s) name =
      (chars ",").intercalate (valuesOf ps name) := by
    intro name hname
    rw [hparse]
    exact values_joined hv hname
  refine ⟨hends, hvalues, fun hn => ⟨hvalues, ?_⟩, fun htame hkept => ?_⟩
  · intro i hi
    rw [hrun i hi]
    exact hn.found low_empty i hi
  · apply numbered_of_found htame low_empty
    · intro name hname
      simp [OrdMap.contains] at hname
    · intro i hi
      rw [← hrun i hi]
      exact hkept.numbers i hi

def twoNames : List Param := [.bare (chars "a b"), .bare (chars "c")]

theorem twoNames_encodes : Encodes twoNames (chars "a+b&c") :=
  ⟨[chars "a+b", chars "c"],
    .cons (.bare (.plain (by decide) (.blank (.plain (by decide) .nil))))
      (.cons (.bare (.plain (by decide) .nil)) .nil),
    rfl⟩

/-- Two bare names, the first with a blank in it. -/
theorem twoNames_kept : Kept twoNames (parseParams OrdMap.empty (chars "a+b&c")) := by
  have hvalid : ∀ p ∈ twoNames, p.Valid := by simp [twoNames, Param.Valid]
  apply (params_kept twoNames_encodes hvalid).2.2.1
  refine ⟨twoNames, [], rfl, ?_, by simp⟩
  intro p hp
  rcases List.mem_cons.mp hp with rfl | hp
  · exact ⟨trivial, by decide⟩
  · obtain rfl := List.mem_singleton.mp hp
    exact ⟨trivial, by decide⟩

/-- The number of `a=x` is 2. -/
theorem numbers_shifted :
    ¬ ∀ ps s, Encodes ps s → (∀ p ∈ ps, p.Valid) → Kept ps (parseParams OrdMap.empty s) := by
  intro h
  have hencodes : Encodes [.valued (chars "a") (chars "x")] (chars "a=x") :=
    ⟨[chars "a=x"],
      .cons (.valued (.plain (by decide) .nil) (.plain (by decide) .nil)) .nil, rfl⟩
  have hvalid : ∀ p ∈ [Param.valued (chars "a") (chars "x")], p.Valid := by
    intro p hp
    obtain rfl := List.mem_singleton.mp hp
    exact ⟨by decide, by decide⟩
  have hfirst := (h _ _ hencodes hvalid).numbers 0 (by decide)
  have hmissing : entry (parseParams OrdMap.empty (chars "a=x")) (decNat 1) = [] := by
    decide +kernel
  rw [Nat.zero_add, hmissing] at hfirst
  exact absurd hfirst (by decide)

end Tuxbox.Nhttpd
