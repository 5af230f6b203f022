import Tuxbox.Avia.Ucode
import Tuxbox.Avia.SectionMerge
import Mathlib.Data.List.Nodup

/-!
# Allocation of section filters

`section_map` is a flat array in which a run of entries is known only by the
index of its first one. Beside it stands the list of live allocations: what
`prop_ucode_alloc_section_filter` returned and nothing has released yet.
-/

namespace Tuxbox.Avia

/-- Entry `i` lies in the run of the allocation. -/
def AviaGtSection.Covers (sec : AviaGtSection) (i : Nat) : Prop :=
  sec.idx ≤ i ∧ i < sec.idx + sec.filtercount

/-- The array is a disjoint union of free entries and of the runs of the live
allocations, each filled with its first index. -/
structure Laid (map : Nat → Option Nat) (live : List AviaGtSection) : Prop where
  bounds : ∀ sec ∈ live, 1 ≤ sec.filtercount ∧ sec.idx + sec.filtercount ≤ 32
  distinct : (live.map (·.idx)).Nodup
  entries : ∀ i x, map i = some x ↔ ∃ sec ∈ live, sec.idx = x ∧ sec.Covers i

section
variable {map : Nat → Option Nat} {live : List AviaGtSection} {sec sec' : AviaGtSection}

theorem Laid.init : Laid (fun _ => none) [] :=
  ⟨by simp, by simp, by simp⟩

theorem Laid.unique (h : Laid map live) (hs : sec ∈ live) (hs' : sec' ∈ live)
    (he : sec.idx = sec'.idx) : sec = sec' :=
  List.inj_on_of_nodup_map h.distinct hs hs' he

/-- The entries of a live allocation hold its first index. -/
theorem Laid.held (h : Laid map live) (hs : sec ∈ live) {i : Nat} (hi : sec.Covers i) :
    map i = some sec.idx := (h.entries i sec.idx).mpr ⟨sec, hs, rfl, hi⟩

theorem Laid.first (h : Laid map live) (hs : sec ∈ live) : map sec.idx = some sec.idx :=
  h.held hs ⟨Nat.le_refl _, by have := (h.bounds sec hs).1; omega⟩

/-- No other entry holds it. -/
theorem Laid.covers_of (h : Laid map live) (hs : sec ∈ live) {i : Nat}
    (hi : map i = some sec.idx) : sec.Covers i := by
  obtain ⟨sec', hs', he, hc⟩ := (h.entries i sec.idx).mp hi
  rw [← h.unique hs' hs he]
  exact hc

/-- Runs of different allocations are apart. -/
theorem Laid.disjoint (h : Laid map live) (hs : sec ∈ live) (hs' : sec' ∈ live) {i : Nat}
    (hi : sec.Covers i) (hi' : sec'.Covers i) : sec = sec' := by
  have hmap := (h.held hs hi).symm.trans (h.held hs' hi')
  exact h.unique hs hs' (Option.some.inj hmap)

/-- Marking a free run adds an allocation. -/
theorem Laid.mark (h : Laid map live) {e n : Nat} (hn : 1 ≤ n) (hb : e + n ≤ 32)
    (hfree : FreeRun map e n) :
    Laid (fun i => if e ≤ i ∧ i < e + n then some e else map i) (⟨e, n⟩ :: live) where
  bounds := by
    intro s hs
    rcases List.mem_cons.mp hs with rfl | hs
    · exact ⟨hn, hb⟩
    · exact h.bounds s hs
  distinct := by
    simp only [List.map_cons, List.nodup_cons, List.mem_map]
    refine ⟨?_, h.distinct⟩
    rintro ⟨s, hs, rfl⟩
    have hfirst := h.first hs
    rw [hfree s.idx (Nat.le_refl _) (by omega)] at hfirst
    cases hfirst
  entries := by
    intro i x
    simp only [List.mem_cons]
    constructor
    · intro hi
      split at hi
      · rename_i hin
        cases hi
        exact ⟨⟨e, n⟩, .inl rfl, rfl, hin⟩
      · obtain ⟨s, hs, hx, hc⟩ := (h.entries i x).mp hi
        exact ⟨s, .inr hs, hx, hc⟩
    · rintro ⟨s, rfl | hs, rfl, hc⟩
      · exact if_pos hc
      · rw [if_neg]
        · exact h.held hs hc
        · rintro ⟨hle, hlt⟩
          have hheld := h.held hs hc
          rw [hfree i hle hlt] at hheld
          cases hheld

/-- The loop clears the entries from `nr` on, up to the first with another
index. -/
theorem clearRun_apply (idx n nr : Nat) (map : Nat → Option Nat) (i : Nat) :
    Ucode.clearRun idx n nr map i =
      if nr ≤ i ∧ i < nr + n ∧ ∀ k, nr ≤ k → k ≤ i → map k = some idx then none else map i := by
  induction n generalizing nr map with
  | zero =>
    rw [Ucode.clearRun, if_neg]
    rintro ⟨h1, h2, -⟩
    omega
  | succ n ih =>
    rw [Ucode.clearRun]
    by_cases hnr : map nr = some idx
    · rw [if_pos hnr, ih]
      by_cases hi : i = nr
      · subst hi
        rw [if_neg (by rintro ⟨h, -, -⟩; omega), Function.update_self, if_pos]
        refine ⟨Nat.le_refl _, by omega, ?_⟩
        intro k hk hk'
        rwa [show k = i by omega]
      · rw [Function.update_of_ne hi]
        apply if_congr _ rfl rfl
        constructor
        · rintro ⟨h1, h2, h3⟩
          refine ⟨by omega, by omega, ?_⟩
          intro k hk hk'
          by_cases hkn : k = nr
          · rwa [hkn]
          · have := h3 k (by omega) hk'
            rwa [Function.update_of_ne hkn] at this
        · rintro ⟨h1, h2, h3⟩
          refine ⟨by omega, by omega, ?_⟩
          intro k hk hk'
          rw [Function.update_of_ne (by omega)]
          exact h3 k (by omega) hk'
    · rw [if_neg hnr, if_neg]
      rintro ⟨h1, -, h3⟩
      exact hnr (h3 nr (Nat.le_refl _) h1)

/-- Clearing from the first entry of a run frees the run and nothing else. -/
theorem Laid.clear_apply (h : Laid map live) (hs : sec ∈ live) (i : Nat) :
    (sec.Covers i → Ucode.clearRun sec.idx (32 - sec.idx) sec.idx map i = none) ∧
    (¬ sec.Covers i → Ucode.clearRun sec.idx (32 - sec.idx) sec.idx map i = map i) := by
  rw [clearRun_apply]
  have hb := (h.bounds sec hs).2
  constructor
  · intro hc
    rw [if_pos]
    refine ⟨hc.1, by have := hc.2; omega, ?_⟩
    intro k hk hk'
    exact h.held hs ⟨hk, by have := hc.2; omega⟩
  · intro hc
    rw [if_neg]
    rintro ⟨h1, -, h3⟩
    exact hc (h.covers_of hs (h3 i h1 (Nat.le_refl _)))

theorem Laid.clear (h : Laid map live) (hs : sec ∈ live) :
    Laid (Ucode.clearRun sec.idx (32 - sec.idx) sec.idx map)
      (live.filter (·.idx ≠ sec.idx)) where
  bounds := fun s hs' => h.bounds s (List.mem_of_mem_filter hs')
  distinct := h.distinct.sublist (List.filter_sublist.map _)
  entries := by
    intro i x
    simp only [List.mem_filter, decide_eq_true_eq]
    by_cases hc : sec.Covers i
    · rw [(h.clear_apply hs i).1 hc]
      constructor
      · intro hx
        cases hx
      · rintro ⟨s, ⟨hs', hne⟩, -, hc'⟩
        exact absurd (congrArg AviaGtSection.idx (h.disjoint hs' hs hc' hc)) hne
    · rw [(h.clear_apply hs i).2 hc, h.entries]
      constructor
      · rintro ⟨s, hs', hx, hc'⟩
        refine ⟨s, ⟨hs', ?_⟩, hx, hc'⟩
        intro he
        rw [h.unique hs' hs he] at hc'
        exact hc hc'
      · rintro ⟨s, ⟨hs', -⟩, hx, hc'⟩
        exact ⟨s, hs', hx, hc'⟩

end

/-! ## The calls -/

/-- The microcode's tables with the live allocations. -/
structure Sections where
  ucode : Ucode
  live : List AviaGtSection

def Sections.init : Sections := ⟨Ucode.init, []⟩

/-- The calls that allocate and free, as the napi layer makes them: a section
filter is connected to a feed, or freed, by who allocated it. -/
inductive SectionCall
  | allocSectionFilter (stack : Stack) (filters : List DmxSectionFilter)
  | allocSectionFeed (queueNr : Nat) (sec : AviaGtSection) (pid : U16)
  | allocFeed (queueNr : Nat) (type : FeedMode) (pid : U16)
  | freeSectionFilter (sec : AviaGtSection)
  | stopFeed (feedIdx : Fin 32)

namespace Sections

/-- An allocation is released when no feed uses it any more. -/
def release (s : Sections) (u : Ucode) (idx : Nat) : List AviaGtSection :=
  if u.Uses idx then s.live else s.live.filter (·.idx ≠ idx)

def step (info : UcodeInfo) (s : Sections) : SectionCall → Option Sections
  | .allocSectionFilter stack filters =>
    match s.ucode.tables.allocSectionFilter stack filters with
    | none => some s
    | some (tables, sec) => some ⟨{ s.ucode with tables }, sec :: s.live⟩
  | .allocSectionFeed queueNr sec pid =>
    some ⟨(s.ucode.allocSectionFeed info queueNr sec pid).1, s.live⟩
  | .allocFeed queueNr type pid => some ⟨(s.ucode.allocFeed info queueNr type pid).1, s.live⟩
  | .freeSectionFilter sec => some ⟨s.ucode.freeSectionFilter sec.idx, s.release s.ucode sec.idx⟩
  | .stopFeed i =>
    let u := s.ucode.stopFeed i true
    match (s.ucode.ucodeFeed i).destQueue, (s.ucode.ucodeFeed i).sectionIdx with
    | some _, some idx => some ⟨u, s.release u idx⟩
    | _, _ => some ⟨u, s.live⟩

def Permitted (s : Sections) : SectionCall → Prop
  | .allocSectionFeed _ sec _ => sec ∈ s.live
  | .freeSectionFilter sec => sec ∈ s.live
  | _ => True

/-- The map is laid out, and feeds use live allocations only. -/
structure Inv (s : Sections) : Prop where
  laid : Laid s.ucode.tables.sectionMap s.live
  used : ∀ i idx, (s.ucode.ucodeFeed i).sectionIdx = some idx →
    (s.ucode.ucodeFeed i).destQueue ≠ none ∧ ∃ sec ∈ s.live, sec.idx = idx

/-- A run that a feed uses is kept as it is while one does, and is free in all
its entries after that. -/
def FreesWithLastFeed (s t : Sections) : Prop :=
  ∀ sec ∈ s.live, s.ucode.Uses sec.idx →
    (t.ucode.Uses sec.idx → sec ∈ t.live ∧
      ∀ i, sec.Covers i → t.ucode.tables.sectionMap i = some sec.idx) ∧
    (¬ t.ucode.Uses sec.idx → sec ∉ t.live ∧
      ∀ i, sec.Covers i → t.ucode.tables.sectionMap i = none)

/-- The removal of feed `k` ends its use of a run, and of no other feed's. -/
def EndsUse (s t : Sections) (k : Fin 32) : Prop :=
  ∀ idx, t.ucode.Uses idx ↔ ∃ i, i ≠ k ∧ (s.ucode.ucodeFeed i).sectionIdx = some idx

theorem inv_init : Inv init where
  laid := Laid.init
  used := by
    intro i idx h
    cases h

section
variable {info : UcodeInfo} {s t : Sections}

/-- Calls that leave the feeds' section filters in use free nothing. -/
theorem Inv.frees_of_kept (ht : Inv t) (hlive : ∀ sec ∈ s.live, sec ∈ t.live)
    (huse : ∀ idx, s.ucode.Uses idx → t.ucode.Uses idx) : FreesWithLastFeed s t := by
  intro sec hsec hu
  refine ⟨fun _ => ⟨hlive sec hsec, fun i hi => ht.laid.held (hlive sec hsec) hi⟩, ?_⟩
  intro hno
  exact absurd (huse _ hu) hno

theorem step_allocSectionFilter (h : Inv s) {stack : Stack} {filters : List DmxSectionFilter}
    (ht : s.step info (.allocSectionFilter stack filters) = some t) :
    Inv t ∧ FreesWithLastFeed s t := by
  simp only [step] at ht
  split at ht
  · cases ht
    exact ⟨h, h.frees_of_kept (fun _ hs => hs) (fun _ hu => hu)⟩
  · rename_i tables sec halloc
    cases ht
    obtain ⟨a, entry, ha, hspace, rfl, rfl⟩ := SectionTables.alloc_cases halloc
    have hlen := (analyse_length ha).1
    obtain ⟨hb, hfree⟩ := findSpace_spec hlen hspace
    have hinv : Inv ⟨{ s.ucode with tables := s.ucode.tables.program a entry },
        ⟨entry, a.rows.length⟩ :: s.live⟩ := by
      refine ⟨h.laid.mark hlen hb hfree, ?_⟩
      intro i idx hi
      obtain ⟨hq, sec, hsec, he⟩ := h.used i idx hi
      exact ⟨hq, sec, List.mem_cons_of_mem _ hsec, he⟩
    exact ⟨hinv, hinv.frees_of_kept (fun _ hs => List.mem_cons_of_mem _ hs) (fun _ hu => hu)⟩

/-- A new feed, with a live section filter or without one. -/
theorem step_allocGenericFeed (h : Inv s) {queueNr : Nat} {type : FeedMode}
    {sec : Option AviaGtSection} {pid : U16} (hsec : ∀ x ∈ sec, x ∈ s.live) :
    Inv ⟨(s.ucode.allocGenericFeed info queueNr type sec pid).1, s.live⟩ ∧
    FreesWithLastFeed s ⟨(s.ucode.allocGenericFeed info queueNr type sec pid).1, s.live⟩ := by
  cases hres : (s.ucode.allocGenericFeed info queueNr type sec pid).2 with
  | none =>
    obtain ⟨hu, -⟩ := Ucode.allocGenericFeed_none hres
    rw [hu]
    have hinv : Inv ⟨{ s.ucode with irqsEnabled := false }, s.live⟩ := ⟨h.laid, h.used⟩
    exact ⟨hinv, hinv.frees_of_kept (fun _ hs => hs) (fun _ hu => hu)⟩
  | some k =>
    obtain ⟨hfree, -, own, hadd, -⟩ := Ucode.allocGenericFeed_some hres
    have hnone : (s.ucode.ucodeFeed k).sectionIdx = none := by
      by_contra hsome
      obtain ⟨idx, hidx⟩ := Option.ne_none_iff_exists'.mp hsome
      exact (h.used k idx hidx).1 hfree
    have hinv : Inv ⟨(s.ucode.allocGenericFeed info queueNr type sec pid).1, s.live⟩ := by
      refine ⟨by rw [hadd.tables]; exact h.laid, ?_⟩
      intro i idx hi
      rw [hadd.ucodeFeed] at hi ⊢
      by_cases hik : i = k
      · subst hik
        simp only [Function.update_self, Ucode.newFeed, Option.map_eq_some_iff] at hi ⊢
        obtain ⟨x, hx, he⟩ := hi
        exact ⟨by simp, x, hsec x hx, he⟩
      · rw [Function.update_of_ne hik] at hi ⊢
        exact h.used i idx hi
    refine ⟨hinv, hinv.frees_of_kept (fun _ hs => hs) ?_⟩
    rintro idx ⟨i, hi⟩
    refine ⟨i, ?_⟩
    have hik : i ≠ k := by
      rintro rfl
      rw [hnone] at hi
      cases hi
    rw [hadd.ucodeFeed, Function.update_of_ne hik]
    exact hi

/-- An allocation without feeds is freed; nobody else's is touched. -/
theorem Inv.freed (h : Inv s) {u : Ucode} {sec : AviaGtSection} (hsec : sec ∈ s.live)
    (hmap : u.tables.sectionMap = s.ucode.tables.sectionMap) (huse : ¬ u.Uses sec.idx)
    (hfeed : ∀ i idx, (u.ucodeFeed i).sectionIdx = some idx →
      (u.ucodeFeed i).destQueue ≠ none ∧ ∃ x ∈ s.live, x.idx = idx) :
    Inv ⟨u.freeSectionFilter sec.idx, s.live.filter (·.idx ≠ sec.idx)⟩ ∧
    ∀ i, sec.Covers i → (u.freeSectionFilter sec.idx).tables.sectionMap i = none := by
  have hb := h.laid.bounds sec hsec
  have hfirst : u.tables.sectionMap sec.idx = some sec.idx := by
    rw [hmap]
    exact h.laid.first hsec
  have hclear := Ucode.freeSectionFilter_map (by omega) hfirst huse
  rw [hmap] at hclear
  refine ⟨⟨?_, ?_⟩, ?_⟩
  · simp only [hclear]
    exact h.laid.clear hsec
  · intro i idx hi
    simp only [Ucode.freeSectionFilter_ucodeFeed] at hi ⊢
    obtain ⟨hq, x, hx, he⟩ := hfeed i idx hi
    refine ⟨hq, x, ?_, he⟩
    have hne : x.idx ≠ sec.idx := by
      intro heq
      exact huse ⟨i, by rw [hi, ← he, heq]⟩
    simp [hx, hne]
  · intro i hi
    rw [hclear]
    exact (h.laid.clear_apply hsec i).1 hi

theorem step_freeSectionFilter (h : Inv s) {sec : AviaGtSection} (hsec : sec ∈ s.live)
    (ht : s.step info (.freeSectionFilter sec) = some t) : Inv t ∧ FreesWithLastFeed s t := by
  cases ht
  by_cases huse : s.ucode.Uses sec.idx
  · have hsame : s.ucode.freeSectionFilter sec.idx = s.ucode := by
      simp only [Ucode.freeSectionFilter, huse, if_true, ite_self]
    rw [hsame, release, if_pos huse]
    exact ⟨h, h.frees_of_kept (fun _ hs => hs) (fun _ hu => hu)⟩
  · rw [release, if_neg huse]
    obtain ⟨hinv, -⟩ := h.freed hsec rfl huse h.used
    refine ⟨hinv, ?_⟩
    intro x hx hu
    have hmem : x ∈ s.live.filter (·.idx ≠ sec.idx) := by
      have hne : x.idx ≠ sec.idx := fun he => huse (he ▸ hu)
      simp [hx, hne]
    have hstill : (s.ucode.freeSectionFilter sec.idx).Uses x.idx := by
      simpa [Ucode.Uses] using hu
    exact ⟨fun _ => ⟨hmem, fun i hi => hinv.laid.held hmem hi⟩, fun hno => absurd hstill hno⟩

/-- The feeds that are left after a removal use live allocations. -/
theorem Inv.used_removed (h : Inv s) {k : Fin 32} (i : Fin 32) (idx : Nat)
    (hi : ((s.ucode.removeFeed k).ucodeFeed i).sectionIdx = some idx) :
    ((s.ucode.removeFeed k).ucodeFeed i).destQueue ≠ none ∧ ∃ x ∈ s.live, x.idx = idx := by
  rw [Ucode.removeFeed_ucodeFeed] at hi ⊢
  by_cases hik : i = k
  · simp [hik, Ucode.removed] at hi
  · rw [Function.update_of_ne hik] at hi ⊢
    exact h.used i idx hi

/-- Only the feed's own section filter can lose its last user. -/
theorem uses_other {k : Fin 32} {idx n : Nat} (hidx : (s.ucode.ucodeFeed k).sectionIdx = some idx)
    (hn : n ≠ idx) (hu : s.ucode.Uses n) : (s.ucode.removeFeed k).Uses n := by
  obtain ⟨i, hi⟩ := hu
  apply Ucode.uses_removed.mpr
  refine ⟨i, ?_, hi⟩
  rintro rfl
  rw [hidx] at hi
  exact hn (Option.some.inj hi).symm

/-- The removal of a feed that leaves the section tables alone. -/
theorem Inv.removed_kept (h : Inv s) {k : Fin 32}
    (htab : (s.ucode.removeFeed k).tables = s.ucode.tables)
    (huse : ∀ n, s.ucode.Uses n → (s.ucode.removeFeed k).Uses n) :
    Inv ⟨(s.ucode.removeFeed k).setPidTable k true true 0#16, s.live⟩ ∧
    FreesWithLastFeed s ⟨(s.ucode.removeFeed k).setPidTable k true true 0#16, s.live⟩ := by
  have hmap : ((s.ucode.removeFeed k).setPidTable k true true 0#16).tables = s.ucode.tables := htab
  have hinv : Inv ⟨(s.ucode.removeFeed k).setPidTable k true true 0#16, s.live⟩ :=
    ⟨by rw [hmap]; exact h.laid, h.used_removed⟩
  exact ⟨hinv, hinv.frees_of_kept (fun _ hs => hs) huse⟩

/-- The removal of the last feed of a section filter. -/
theorem Inv.removed_last (h : Inv s) {k : Fin 32} {sec : AviaGtSection} (hsec : sec ∈ s.live)
    (hidx : (s.ucode.ucodeFeed k).sectionIdx = some sec.idx)
    (huse : ¬ (s.ucode.removeFeed k).Uses sec.idx) :
    Inv ⟨(s.ucode.removeFeed k).setPidTable k true true 0#16, s.live.filter (·.idx ≠ sec.idx)⟩ ∧
    FreesWithLastFeed s
      ⟨(s.ucode.removeFeed k).setPidTable k true true 0#16, s.live.filter (·.idx ≠ sec.idx)⟩ := by
  have htab := Ucode.removeFeed_tables_some hidx
  rw [if_neg huse] at htab
  obtain ⟨hfreed, hnone⟩ := h.freed
    (u := { s.ucode with ucodeFeed := (s.ucode.removeFeed k).ucodeFeed }) hsec rfl huse
    h.used_removed
  rw [← htab] at hnone
  have hinv : Inv ⟨(s.ucode.removeFeed k).setPidTable k true true 0#16,
      s.live.filter (·.idx ≠ sec.idx)⟩ := by
    have hl := hfreed.laid
    have hu := hfreed.used
    simp only [← htab] at hl
    simp only [Ucode.freeSectionFilter_ucodeFeed] at hu
    exact ⟨hl, hu⟩
  refine ⟨hinv, ?_⟩
  intro x hx hu
  by_cases hxs : x.idx = sec.idx
  · have hxeq := h.laid.unique hx hsec hxs
    subst hxeq
    exact ⟨fun hyes => absurd hyes huse, fun _ => ⟨by simp, hnone⟩⟩
  · have hmem : x ∈ s.live.filter (·.idx ≠ sec.idx) := by simp [hx, hxs]
    refine ⟨fun _ => ⟨hmem, fun i hi => hinv.laid.held hmem hi⟩, ?_⟩
    intro hno
    exact absurd (uses_other hidx hxs hu) hno

theorem step_stopFeed (h : Inv s) {k : Fin 32} (ht : s.step info (.stopFeed k) = some t) :
    Inv t ∧ FreesWithLastFeed s t := by
  simp only [step] at ht
  split at ht
  · rename_i q idx hq hidx
    cases ht
    rw [Ucode.stopFeed_remove (by simp [hq])]
    obtain ⟨-, sec, hsec, rfl⟩ := h.used k idx hidx
    by_cases huse : ((s.ucode.removeFeed k).setPidTable k true true 0#16).Uses sec.idx
    · rw [release, if_pos huse]
      have hleft : (s.ucode.removeFeed k).Uses sec.idx := huse
      have htab := Ucode.removeFeed_tables_some hidx
      rw [if_pos hleft] at htab
      refine h.removed_kept htab ?_
      intro n hn
      by_cases hne : n = sec.idx
      · exact hne ▸ huse
      · exact uses_other hidx hne hn
    · rw [release, if_neg huse]
      exact h.removed_last hsec hidx huse
  · rename_i hcase
    cases ht
    by_cases hq : (s.ucode.ucodeFeed k).destQueue = none
    · rw [Ucode.stopFeed_unused hq]
      exact ⟨h, h.frees_of_kept (fun _ hs => hs) (fun _ hu => hu)⟩
    · -- a feed without section filter
      have hidx : (s.ucode.ucodeFeed k).sectionIdx = none := by
        by_contra hsome
        obtain ⟨idx, hidx⟩ := Option.ne_none_iff_exists'.mp hsome
        obtain ⟨q, hq'⟩ := Option.ne_none_iff_exists'.mp hq
        exact hcase q idx hq' hidx
      rw [Ucode.stopFeed_remove hq]
      refine h.removed_kept (Ucode.removeFeed_tables_none hidx) ?_
      rintro n ⟨i, hi⟩
      apply Ucode.uses_removed.mpr
      refine ⟨i, ?_, hi⟩
      rintro rfl
      rw [hidx] at hi
      cases hi

/-- After the removal of a feed its run is used by others only. -/
theorem stopFeed_endsUse (h : Inv s) {k : Fin 32} (ht : s.step info (.stopFeed k) = some t) :
    s.EndsUse t k := by
  have ht' : t.ucode = s.ucode.stopFeed k true := by
    simp only [step] at ht
    split at ht <;> cases ht <;> rfl
  intro idx
  rw [ht']
  by_cases hq : (s.ucode.ucodeFeed k).destQueue = none
  · rw [Ucode.stopFeed_unused hq]
    constructor
    · rintro ⟨i, hi⟩
      refine ⟨i, ?_, hi⟩
      rintro rfl
      exact (h.used i idx hi).1 hq
    · rintro ⟨i, -, hi⟩
      exact ⟨i, hi⟩
  · rw [Ucode.stopFeed_remove hq]
    exact Ucode.uses_removed

/-- Every call keeps the map laid out and frees a run with its last feed. -/
theorem step_laid (h : Inv s) {call : SectionCall} (hok : s.Permitted call)
    (ht : s.step info call = some t) : Inv t ∧ FreesWithLastFeed s t := by
  cases call with
  | allocSectionFilter stack filters => exact step_allocSectionFilter h ht
  | allocSectionFeed queueNr sec pid =>
    cases ht
    refine step_allocGenericFeed h ?_
    intro x hx
    cases hx
    exact hok
  | allocFeed queueNr type pid =>
    cases ht
    exact step_allocGenericFeed h (by simp)
  | freeSectionFilter sec => exact step_freeSectionFilter h hok ht
  | stopFeed k => exact step_stopFeed h ht

end

end Sections

/-- In every state reached, `section_map` consists of free entries and of the
runs of the live allocations, a call frees a run with its last feed and not
before, a feed uses its run until it is removed, and an allocation fails for lack
of space only where no free run is long enough. -/
theorem section_map_is_laid (info : UcodeInfo) (s : Sections)
    (h : Runs (Sections.step info) Sections.Permitted Sections.init s) :
    Laid s.ucode.tables.sectionMap s.live ∧
    (∀ call t, s.Permitted call → s.step info call = some t → Sections.FreesWithLastFeed s t) ∧
    (∀ k t, s.step info (.stopFeed k) = some t → s.EndsUse t k) ∧
    ∀ stack filters a, analyse stack filters = some a →
      ((s.ucode.tables.allocSectionFilter stack filters).isSome ↔
        ∃ e, e + a.rows.length ≤ 32 ∧ FreeRun s.ucode.tables.sectionMap e a.rows.length) ∧
      ∀ tables sec, s.ucode.tables.allocSectionFilter stack filters = some (tables, sec) →
        sec.filtercount = a.rows.length ∧ sec.idx + sec.filtercount ≤ 32 ∧
        FreeRun s.ucode.tables.sectionMap sec.idx sec.filtercount := by
  have hinv : s.Inv := h.invariant (fun _ _ _ hs hok ht => (Sections.step_laid hs hok ht).1)
    Sections.inv_init
  refine ⟨hinv.laid, fun call t hok ht => (Sections.step_laid hinv hok ht).2,
    fun k t ht => Sections.stopFeed_endsUse hinv ht, ?_⟩
  intro stack filters a ha
  have hlen := (analyse_length ha).1
  constructor
  · rw [← findSpace_isSome_iff hlen]
    simp only [SectionTables.allocSectionFilter, ha]
    cases findSpace s.ucode.tables.sectionMap a.rows.length <;> simp
  · intro tables sec halloc
    obtain ⟨a', entry, ha', hspace, -, rfl⟩ := SectionTables.alloc_cases halloc
    rw [ha] at ha'
    cases ha'
    obtain ⟨hb, hfree⟩ := findSpace_spec hlen hspace
    exact ⟨rfl, hb, hfree⟩

/-- Every capability. -/
def fullInfo : UcodeInfo := ⟨true, true, true, true, 1, fun _ => 0⟩

/-- A filter for its feed, and the feed is removed again: its entry was taken and
is free. -/
theorem section_map_is_laid_one :
    ∃ s t, Runs (Sections.step fullInfo) Sections.Permitted Sections.init s ∧
      s.ucode.tables.sectionMap 0 = some 0 ∧ s.ucode.Uses 0 ∧
      s.step fullInfo (.stopFeed 0) = some t ∧ t.ucode.tables.sectionMap 0 = none := by
  have hlist : (runList (Sections.step fullInfo) Sections.init
      [.allocSectionFilter (fun _ => (0, 0)) [otherVersions 0x50#8 0x0A#8],
        .allocSectionFeed 3 ⟨0, 1⟩ 0x100#16]).map (fun s => (s.live,
          decide (∀ i, (s.ucode.ucodeFeed i).sectionIdx = if i = 0 then some 0 else none),
          (s.step fullInfo (.stopFeed 0)).isSome)) = some ([⟨0, 1⟩], true, true) := by
    decide
  have hfirst : (Sections.init.step fullInfo (.allocSectionFilter (fun _ => (0, 0))
      [otherVersions 0x50#8 0x0A#8])).map (·.live) = some [⟨0, 1⟩] := by
    decide
  obtain ⟨s, hs, heq⟩ := Option.map_eq_some_iff.mp hlist
  obtain ⟨s₁, hs₁, hlive₁⟩ := Option.map_eq_some_iff.mp hfirst
  simp only [Prod.mk.injEq, decide_eq_true_eq] at heq
  obtain ⟨hlive, hfeeds, hstop⟩ := heq
  obtain ⟨t, ht⟩ := Option.isSome_iff_exists.mp hstop
  have hfeed : s₁.step fullInfo (.allocSectionFeed 3 ⟨0, 1⟩ 0x100#16) = some s := by
    simp only [runList, hs₁] at hs
    exact hs
  have hrun : Runs (Sections.step fullInfo) Sections.Permitted Sections.init s :=
    (Runs.refl.tail _ trivial hs₁).tail _ (by rw [Sections.Permitted, hlive₁]; simp) hfeed
  have hmem : (⟨0, 1⟩ : AviaGtSection) ∈ s.live := by simp [hlive]
  have huse : s.ucode.Uses 0 := ⟨0, by simp [hfeeds]⟩
  obtain ⟨hlaid, hfrees, hends, -⟩ := section_map_is_laid fullInfo s hrun
  have hno : ¬ t.ucode.Uses 0 := by
    rw [hends 0 t ht]
    rintro ⟨i, hi, huses⟩
    simp [hfeeds, hi] at huses
  exact ⟨s, t, hrun, hlaid.first hmem, huse, ht,
    ((hfrees (.stopFeed 0) t trivial ht _ hmem huse).2 hno).2 0 ⟨le_rfl, by decide⟩⟩

end Tuxbox.Avia
