import Tuxbox.Avia.SectionFilter

/-!
# Section filter tables

The filter definition and parameter tables in the demultiplexer's RAM,
`section_map`, the search for space in it, and
`prop_ucode_alloc_section_filter` as a whole.
-/

namespace Tuxbox.Avia

/-- One index of the three filter parameter tables. -/
structure FilterEntry where
  mask : Fin 8 → U8
  param : Fin 8 → U8
  notFlag : Bool
  notFlagVerIdByte : Bool

namespace FilterEntry

/-- The comparison of index `k`; that of index 3, the version byte, can be
negated by itself. -/
def MatchesByte (e : FilterEntry) (s : SectionHead) (k : Fin 8) : Prop :=
  if k = 3 ∧ e.notFlagVerIdByte then ¬ Agrees (e.mask k) (e.param k) (s.seen k)
  else Agrees (e.mask k) (e.param k) (s.seen k)

/-- What the microcode does with an entry. -/
def Matches (e : FilterEntry) (s : SectionHead) : Prop :=
  if e.notFlag then ¬ ∀ k, e.MatchesByte s k else ∀ k, e.MatchesByte s k

instance (e : FilterEntry) (s : SectionHead) (k : Fin 8) : Decidable (e.MatchesByte s k) :=
  inferInstanceAs (Decidable (if k = 3 ∧ e.notFlagVerIdByte then
    ¬ Agrees (e.mask k) (e.param k) (s.seen k) else Agrees (e.mask k) (e.param k) (s.seen k)))

instance (e : FilterEntry) (s : SectionHead) : Decidable (e.Matches s) :=
  inferInstanceAs (Decidable (if e.notFlag then
    ¬ ∀ k, e.MatchesByte s k else ∀ k, e.MatchesByte s k))

end FilterEntry

/-- The parameters of a row; a version byte negated by itself keeps the mask
and value it had before the negative bits were taken out. -/
def FilterRow.entry (r : FilterRow) (notFlag : Bool) : FilterEntry :=
  if r.unchanged ∧ r.verNot then
    { mask := Function.update r.mask 3 r.notMask
      param := Function.update r.value 3 r.notValue
      notFlag
      notFlagVerIdByte := true }
  else { mask := r.mask, param := r.value, notFlag, notFlagVerIdByte := false }

/-- The entries of an analysis, as they are written to the tables. -/
def Analysis.entries (a : Analysis) : List FilterEntry :=
  a.rows.mapIdx fun j r =>
    r.entry (if j = 0 then a.notTheFirst else if j = 1 then a.notTheSecond else false)

structure SectionTables where
  /-- `section_map`, `none` for -1. -/
  sectionMap : Nat → Option Nat
  /-- `filter_definition_table`, its `and_or_flag`: true for OR. -/
  filterDefinitionTable : Nat → Bool
  /-- The copy of it in the RAM. -/
  riscDefinitionTable : Nat → Bool
  riscParameterTable : Nat → FilterEntry

/-- After `avia_gt_dmx_risc_init`; nothing reads the RAM's parameters before
they are written. -/
def SectionTables.init : SectionTables :=
  { sectionMap := fun _ => none
    filterDefinitionTable := fun _ => false
    riscDefinitionTable := fun _ => false
    riscParameterTable := fun _ => ⟨fun _ => 0#8, fun _ => 0#8, false, false⟩ }

/-- `sAviaGtSection` -/
structure AviaGtSection where
  idx : Nat
  filtercount : Nat
deriving DecidableEq

/-- The entries of a section filter, combined by OR or by AND. -/
def EntriesAccept (andOr : Bool) (entries : List FilterEntry) (s : SectionHead) : Prop :=
  if andOr then ∃ e ∈ entries, e.Matches s else ∀ e ∈ entries, e.Matches s

instance (andOr : Bool) (entries : List FilterEntry) (s : SectionHead) :
    Decidable (EntriesAccept andOr entries s) :=
  inferInstanceAs (Decidable (if andOr then
    ∃ e ∈ entries, e.Matches s else ∀ e ∈ entries, e.Matches s))

/-- Whether the microcode lets a section pass for a section filter. -/
def SectionTables.Accepts (t : SectionTables) (sec : AviaGtSection) (s : SectionHead) : Prop :=
  EntriesAccept (t.riscDefinitionTable sec.idx)
    ((List.range sec.filtercount).map fun i => t.riscParameterTable (sec.idx + i)) s

instance (t : SectionTables) (sec : AviaGtSection) (s : SectionHead) :
    Decidable (t.Accepts sec s) :=
  inferInstanceAs (Decidable (EntriesAccept _ _ s))

/-! ## Search for space -/

/-- The variables of the search: `j`, `new_entry`, `new_entry_len`, `entry`
and `entry_len`. -/
structure Search where
  run : Bool
  newEntry : Option Nat
  newEntryLen : Nat
  entry : Option Nat
  entryLen : Nat

def Search.start : Search := ⟨false, none, 33, none, 33⟩

def Search.step (map : Nat → Option Nat) (anz : Nat) (q : Search) (i : Nat) : Search :=
  if map i = none then
    if q.run then { q with newEntryLen := q.newEntryLen + 1 }
    else
      -- a run begins; the one before it is known in full now
      let best := q.newEntryLen < q.entryLen ∧ anz ≤ q.newEntryLen
      { run := true
        newEntry := some i
        newEntryLen := 1
        entry := if best then q.newEntry else q.entry
        entryLen := if best then q.newEntryLen else q.entryLen }
  else { q with run := false }

/-- The search for the shortest free run that is long enough. -/
def findSpace (map : Nat → Option Nat) (anz : Nat) : Option Nat :=
  let q := (List.range 32).foldl (Search.step map anz) Search.start
  if (q.entry = none ∧ q.newEntry ≠ none ∧ anz ≤ q.newEntryLen) ∨
      (q.newEntryLen < q.entryLen ∧ anz ≤ q.newEntryLen) then q.newEntry
  else q.entry

/-- `[e, e + n)` is free in `map`. -/
def FreeRun (map : Nat → Option Nat) (e n : Nat) : Prop := ∀ i, e ≤ i → i < e + n → map i = none

/-- What the search knows after the first `i` entries. -/
structure Search.Inv (map : Nat → Option Nat) (anz i : Nat) (q : Search) : Prop where
  entryLen_le : q.entryLen ≤ 33
  noEntry : q.entry = none → q.entryLen = 33
  entry : ∀ e, q.entry = some e →
    anz ≤ q.entryLen ∧ e + q.entryLen ≤ i ∧ FreeRun map e q.entryLen
  noNew : q.newEntry = none → q.newEntryLen = 33 ∧ q.run = false ∧ ∀ k < i, map k ≠ none
  new : ∀ e, q.newEntry = some e →
    e + q.newEntryLen ≤ i ∧ FreeRun map e q.newEntryLen ∧ (∀ k, k + 1 = e → map k ≠ none)
  running : ∀ e, q.newEntry = some e → q.run = true → e + q.newEntryLen = i
  ended : ∀ e, q.newEntry = some e → q.run = false →
    e + q.newEntryLen < i ∧ ∀ k, e + q.newEntryLen ≤ k → k < i → map k ≠ none
  -- a free window is part of the last run, or a run before it was long enough
  window : ∀ a, a + anz ≤ i → FreeRun map a anz →
    q.entry ≠ none ∨ ∃ e, q.newEntry = some e ∧ e ≤ a ∧ a + anz ≤ e + q.newEntryLen

theorem Search.inv_start (map : Nat → Option Nat) {anz : Nat} (hanz : 1 ≤ anz) :
    Search.start.Inv map anz 0 where
  entryLen_le := Nat.le_refl _
  noEntry := fun _ => rfl
  entry := by intro e h; cases h
  noNew := fun _ => ⟨rfl, rfl, by intro k hk; omega⟩
  new := by intro e h; cases h
  running := by intro e h; cases h
  ended := by intro e h; cases h
  window := by intro a ha _; omega

section
variable {map : Nat → Option Nat} {anz i : Nat} {q : Search}

theorem FreeRun.snoc {e n : Nat} (h : FreeRun map e n) (hi : map (e + n) = none) :
    FreeRun map e (n + 1) := by
  intro k hk hk'
  by_cases hlast : k = e + n
  · rw [hlast, hi]
  · exact h k hk (by omega)

/-- A used entry ends the run. -/
theorem Search.Inv.used (h : q.Inv map anz i) (hanz : 1 ≤ anz) (hi : map i ≠ none) :
    ({ q with run := false } : Search).Inv map anz (i + 1) where
  entryLen_le := h.entryLen_le
  noEntry := h.noEntry
  entry := by
    intro e he
    obtain ⟨h1, h2, h3⟩ := h.entry e he
    exact ⟨h1, Nat.le_succ_of_le h2, h3⟩
  noNew := by
    intro hn
    obtain ⟨h1, -, h3⟩ := h.noNew hn
    refine ⟨h1, rfl, ?_⟩
    intro k hk
    by_cases hki : k = i
    · rwa [hki]
    · exact h3 k (by omega)
  new := by
    intro e he
    obtain ⟨h1, h2, h3⟩ := h.new e he
    exact ⟨Nat.le_succ_of_le h1, h2, h3⟩
  running := by simp
  ended := by
    intro e he _
    refine ⟨Nat.lt_succ_of_le (h.new e he).1, ?_⟩
    intro k hk hk'
    by_cases hki : k = i
    · rwa [hki]
    · cases hr : q.run with
      | true => have := h.running e he hr; simp only at hk; omega
      | false => exact (h.ended e he hr).2 k hk (by omega)
  window := by
    intro a ha hfree
    by_cases hlast : a + anz = i + 1
    · exact absurd (hfree i (by omega) (by omega)) hi
    · exact h.window a (by omega) hfree

/-- A free entry makes the run longer. -/
theorem Search.Inv.longer (h : q.Inv map anz i) (hi : map i = none) (hr : q.run = true) :
    ({ q with newEntryLen := q.newEntryLen + 1 } : Search).Inv map anz (i + 1) where
  entryLen_le := h.entryLen_le
  noEntry := h.noEntry
  entry := by
    intro e he
    obtain ⟨h1, h2, h3⟩ := h.entry e he
    exact ⟨h1, Nat.le_succ_of_le h2, h3⟩
  noNew := by
    intro hn
    have := (h.noNew hn).2.1
    simp [hr] at this
  new := by
    intro e he
    obtain ⟨h1, h2, h3⟩ := h.new e he
    exact ⟨Nat.succ_le_succ h1, h2.snoc (by rw [h.running e he hr, hi]), h3⟩
  running := by
    intro e he _
    have := h.running e he hr
    simp only
    omega
  ended := by simp [hr]
  window := by
    intro a ha hfree
    by_cases hlast : a + anz = i + 1
    · obtain ⟨e, hn⟩ : ∃ e, q.newEntry = some e := by
        cases hn : q.newEntry with
        | none => have := (h.noNew hn).2.1; simp [hr] at this
        | some e => exact ⟨e, rfl⟩
      have hend := h.running e hn hr
      refine .inr ⟨e, hn, ?_, by simp only; omega⟩
      -- otherwise the window would contain the used entry before the run
      by_contra hlt
      have hbefore := (h.new e hn).2.2 (e - 1) (by omega)
      exact hbefore (hfree (e - 1) (by omega) (by omega))
    · rcases h.window a (by omega) hfree with hw | ⟨e, hn, ha', hb'⟩
      · exact .inl hw
      · exact .inr ⟨e, hn, ha', by simp only; omega⟩

/-- A free entry begins a run. -/
theorem Search.Inv.begins (h : q.Inv map anz i) (hlt : i < 32)
    (hi : map i = none) (hr : q.run = false) : (q.step map anz i).Inv map anz (i + 1) := by
  have hused : ∀ k, k + 1 = i → map k ≠ none := by
    intro k hk
    cases hn : q.newEntry with
    | none => exact (h.noNew hn).2.2 k (by omega)
    | some e => exact (h.ended e hn hr).2 k (by have := (h.ended e hn hr).1; omega) (by omega)
  have hstart : FreeRun map i 1 := by
    intro k hk hk'
    rwa [show k = i by omega]
  by_cases hbest : q.newEntryLen < q.entryLen ∧ anz ≤ q.newEntryLen
  · have hstep : q.step map anz i = ⟨true, some i, 1, q.newEntry, q.newEntryLen⟩ := by
      simp [Search.step, hi, hr, hbest]
    have hnew : ∃ e, q.newEntry = some e := by
      cases hn : q.newEntry with
      | none => have := (h.noNew hn).1; have := h.entryLen_le; omega
      | some e => exact ⟨e, rfl⟩
    obtain ⟨e, he⟩ := hnew
    rw [hstep]
    constructor
    · have := h.entryLen_le; simp only; omega
    · simp [he]
    · intro e' he'
      obtain ⟨h1, h2, -⟩ := h.new e' he'
      exact ⟨hbest.2, Nat.le_succ_of_le h1, h2⟩
    · simp
    · rintro e' ⟨⟩
      exact ⟨Nat.le_refl _, hstart, hused⟩
    · rintro e' ⟨⟩ _
      rfl
    · simp
    · intro a _ _
      exact .inl (by simp [he])
  · have hstep : q.step map anz i = ⟨true, some i, 1, q.entry, q.entryLen⟩ := by
      simp [Search.step, hi, hr, hbest]
    rw [hstep]
    constructor
    · exact h.entryLen_le
    · exact h.noEntry
    · intro e' he'
      obtain ⟨h1, h2, h3⟩ := h.entry e' he'
      exact ⟨h1, Nat.le_succ_of_le h2, h3⟩
    · simp
    · rintro e' ⟨⟩
      exact ⟨Nat.le_refl _, hstart, hused⟩
    · rintro e' ⟨⟩ _
      rfl
    · simp
    · intro a ha hfree
      by_cases hlast : a + anz = i + 1
      · refine .inr ⟨i, rfl, ?_, by simp only; omega⟩
        by_contra hai
        exact hused (i - 1) (by omega) (hfree (i - 1) (by omega) (by omega))
      · rcases h.window a (by omega) hfree with hw | ⟨e, he, ha', hb'⟩
        · exact .inl hw
        · -- the run before is long enough, so an entry at most as long was kept
          refine .inl ?_
          intro hnone
          have h33 := h.noEntry hnone
          have hle := (h.new e he).1
          omega

theorem Search.Inv.step (h : q.Inv map anz i) (hanz : 1 ≤ anz) (hlt : i < 32) :
    (q.step map anz i).Inv map anz (i + 1) := by
  by_cases hi : map i = none
  · cases hr : q.run with
    | true =>
      have hstep : q.step map anz i = { q with newEntryLen := q.newEntryLen + 1 } := by
        simp [Search.step, hi, hr]
      rw [hstep]
      exact h.longer hi hr
    | false => exact h.begins hlt hi hr
  · have hstep : q.step map anz i = { q with run := false } := by simp [Search.step, hi]
    rw [hstep]
    exact h.used hanz hi

theorem Search.inv_range (hanz : 1 ≤ anz) {n : Nat} (hn : n ≤ 32) :
    ((List.range n).foldl (Search.step map anz) Search.start).Inv map anz n := by
  induction n with
  | zero => exact Search.inv_start map hanz
  | succ n ih =>
    rw [List.range_succ, List.foldl_append]
    exact (ih (by omega)).step hanz (by omega)

/-- The space found is free and lies inside the table. -/
theorem findSpace_spec (hanz : 1 ≤ anz) {e : Nat} (h : findSpace map anz = some e) :
    e + anz ≤ 32 ∧ FreeRun map e anz := by
  have hinv : ((List.range 32).foldl (Search.step map anz) Search.start).Inv map anz 32 :=
    Search.inv_range hanz (Nat.le_refl 32)
  simp only [findSpace] at h
  split at h
  · rename_i hlast
    obtain ⟨h1, h2, -⟩ := hinv.new e h
    have hlen : anz ≤ ((List.range 32).foldl (Search.step map anz) Search.start).newEntryLen := by
      rcases hlast with ⟨-, -, hl⟩ | ⟨-, hl⟩ <;> exact hl
    exact ⟨by omega, fun k hk hk' => h2 k hk (by omega)⟩
  · obtain ⟨h1, h2, h3⟩ := hinv.entry e h
    exact ⟨by omega, fun k hk hk' => h3 k hk (by omega)⟩

/-- No space is found only where no free run is long enough. -/
theorem findSpace_none (hanz : 1 ≤ anz) (h : findSpace map anz = none) (e : Nat)
    (he : e + anz ≤ 32) : ¬ FreeRun map e anz := by
  intro hfree
  have hinv : ((List.range 32).foldl (Search.step map anz) Search.start).Inv map anz 32 :=
    Search.inv_range hanz (Nat.le_refl 32)
  simp only [findSpace] at h
  split at h
  · rename_i hlast
    obtain ⟨h33, -, hused⟩ := hinv.noNew h
    exact hused e (by omega) (hfree e (Nat.le_refl _) (by omega))
  · rename_i hlast
    rcases hinv.window e he hfree with hw | ⟨e', he', ha, hb⟩
    · exact hw h
    · exact hlast (.inl ⟨h, by simp [he'], by omega⟩)

/-- A search that finds nothing has seen every long enough run broken. -/
theorem findSpace_isSome_iff (hanz : 1 ≤ anz) :
    (findSpace map anz).isSome ↔ ∃ e, e + anz ≤ 32 ∧ FreeRun map e anz := by
  constructor
  · intro h
    obtain ⟨e, he⟩ := Option.isSome_iff_exists.mp h
    exact ⟨e, findSpace_spec hanz he⟩
  · rintro ⟨e, he, hfree⟩
    cases h : findSpace map anz with
    | none => exact absurd hfree (findSpace_none hanz h e he)
    | some e' => rfl

end

/-! ## Allocation -/

/-- The rest of `prop_ucode_alloc_section_filter`, for rows already analysed. -/
def SectionTables.program (t : SectionTables) (a : Analysis) (entry : Nat) : SectionTables :=
  let anz := a.rows.length
  let definition := Function.update t.filterDefinitionTable entry a.andOr
  { sectionMap := fun i => if entry ≤ i ∧ i < entry + anz then some entry else t.sectionMap i
    filterDefinitionTable := definition
    -- two definitions share one word of the RAM and are written together
    riscDefinitionTable := fun i => if i / 2 = entry / 2 then definition i
      else t.riscDefinitionTable i
    riscParameterTable := fun i =>
      if entry ≤ i then (a.entries[i - entry]?).getD (t.riscParameterTable i)
      else t.riscParameterTable i }

/-- `prop_ucode_alloc_section_filter`; `none` where it returns 0. -/
def SectionTables.allocSectionFilter (stack : Stack) (filters : List DmxSectionFilter)
    (t : SectionTables) : Option (SectionTables × AviaGtSection) :=
  match analyse stack filters with
  | none => none
  | some a =>
    match findSpace t.sectionMap a.rows.length with
    | none => none
    | some entry => some (t.program a entry, ⟨entry, a.rows.length⟩)

theorem Analysis.entries_length (a : Analysis) : a.entries.length = a.rows.length := by
  simp [Analysis.entries]

/-- The tables hold the entries of the analysis. -/
theorem SectionTables.program_accepts (t : SectionTables) (a : Analysis) (entry : Nat)
    (s : SectionHead) :
    (t.program a entry).Accepts ⟨entry, a.rows.length⟩ s ↔ EntriesAccept a.andOr a.entries s := by
  have hdef : (t.program a entry).riscDefinitionTable entry = a.andOr := by
    simp [SectionTables.program]
  have hentries : ((List.range a.rows.length).map fun i =>
      (t.program a entry).riscParameterTable (entry + i)) = a.entries := by
    apply List.ext_getElem (by simp [Analysis.entries_length])
    intro i hi _
    have hlt : i < a.entries.length := by simpa [Analysis.entries_length] using hi
    simp [SectionTables.program, List.getElem?_eq_getElem hlt]
  simp only [SectionTables.Accepts, hdef, hentries]

theorem SectionTables.alloc_cases {stack : Stack} {filters : List DmxSectionFilter}
    {t t' : SectionTables} {sec : AviaGtSection}
    (h : t.allocSectionFilter stack filters = some (t', sec)) :
    ∃ a entry, analyse stack filters = some a ∧
      findSpace t.sectionMap a.rows.length = some entry ∧
      t' = t.program a entry ∧ sec = ⟨entry, a.rows.length⟩ := by
  simp only [SectionTables.allocSectionFilter] at h
  split at h
  · cases h
  · rename_i a ha
    split at h
    · cases h
    · rename_i entry he
      cases h
      exact ⟨a, entry, ha, he, rfl, rfl⟩

end Tuxbox.Avia
