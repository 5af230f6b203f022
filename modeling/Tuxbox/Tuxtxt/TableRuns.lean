import Tuxbox.Tuxtxt.TableBounds

/-!
# Runs on the teletext tables
-/

namespace Tuxbox.Tuxtxt

open Prog Thread

/-! ## What is found -/

/-- A hamming error in the links of a page, before their end. -/
def linksDamaged (padip : PageData) : List Nat → Bool
  | [] => false
  | j :: js =>
    let b1 := padip.dehammed (20 * j)
    if b1 = 0xE then linksDamaged padip js
    else if b1 = 0xF then false
    else if b1 = 0xFF ∨ padip.dehammed (20 * j + 1) = 0xFF ∨ padip.dehammed (20 * j + 2) = 0xFF then
      true
    else linksDamaged padip js

/-- A page of `adippg` that was received with a hamming error. -/
def Cache.damaged (c : Cache) (p : Nat) : Bool :=
  decide (p ≠ 0) && match c.cachedPage p with
    | some padip => linksDamaged padip (List.range 44)
    | none => false

/-- How many entries `adippg` has. -/
def Tables.entries (t : Tables) : Nat := (t.maxadippg + 1).toNat

/-- The entries are page numbers up to one with a hamming error; without such an error
an entry is left that was not received. -/
def Tables.Decodable (t : Tables) : Prop :=
  (∃ i < t.entries, t.cache.damaged (t.adippg i) = true ∧ ∀ k ≤ i, t.adippg k < 0x900) ∨
  ((∀ i < t.entries, t.adippg i < 0x900) ∧
    ∃ i < t.entries, t.adippg i ≠ 0 ∧ t.cache.cachedPage (t.adippg i) = none)

section
variable {c : Cache} {s t : Tables}

/-! ## `tuxtxt_decode_adip` -/

theorem ends_decodeLinks {padip : PageData} {js : List Nat} {b : Bool} :
    Ends Access.InRange (decodeLinks padip js) s b t ↔
      b = !linksDamaged padip js ∧ t = s := by
  induction js with
  | nil => exact ends_pure
  | cons j js ih =>
    unfold decodeLinks linksDamaged
    dsimp only
    split
    · exact ih
    · split
      · exact ends_pure
      · split
        · exact ends_pure
        · split
          · exact ih
          · rw [ends_bind]
            have hplace : (Access.page .adip (padip.dehammed (20 * j) <<< 8 |||
                padip.dehammed (20 * j + 1) <<< 4 ||| padip.dehammed (20 * j + 2))).InRange := by
              show _ < 0x900
              rw [pageNumber_bits (by omega) (by omega)]
              omega
            constructor
            · rintro ⟨_, s', huse, h⟩
              rw [(ends_use.mp huse).2] at h
              exact ih.mp h
            · intro h
              exact ⟨(), s, ends_use.mpr ⟨hplace, rfl⟩, ih.mpr h⟩

/-- The entry of a page that was decoded. -/
def Tables.clear (t : Tables) (i : Nat) : Tables :=
  match t.cache.cachedPage (t.adippg i) with
  | some _ => { t with adippg := Function.update t.adippg i 0 }
  | none => t

/-- What becomes of the entries: each is a page that is decoded or was not received, or
one has a hamming error; nothing if an entry is no page. -/
def Tables.decodePages : Tables → List Nat → Option (Bool × Tables)
  | t, [] => some (true, t)
  | t, i :: is =>
    if t.adippg i < 0x900 then
      if t.cache.damaged (t.adippg i) then some (false, t) else (t.clear i).decodePages is
    else none

theorem clear_frame (t : Tables) (i : Nat) :
    (t.clear i).cache = t.cache ∧ (t.clear i).flofpages = t.flofpages ∧
      (t.clear i).maxadippg = t.maxadippg ∧
      (∀ k, k ≠ i → (t.clear i).adippg k = t.adippg k) ∧
      ((t.clear i).adippg i ≠ 0 ↔ t.adippg i ≠ 0 ∧ t.cache.cachedPage (t.adippg i) = none) := by
  unfold Tables.clear
  cases h : t.cache.cachedPage (t.adippg i) with
  | none => simp
  | some page =>
    refine ⟨rfl, rfl, rfl, fun k hk => Function.update_of_ne hk _ _, ?_⟩
    simp

theorem clear_zero {i : Nat} (h : t.adippg i = 0) : t.clear i = t := by
  unfold Tables.clear
  split
  · have hsame : Function.update t.adippg i 0 = t.adippg := by
      rw [← h, Function.update_eq_self]
    rw [hsame]
  · rfl

/-- One entry. -/
theorem ends_useGet {α : Type} {a : Access} (ha : a.InRange) {f : Tables → Thread α} {b : α} :
    Ends Access.InRange (use a >>= fun _ => get >>= f) s b t ↔ Ends Access.InRange (f s) s b t := by
  rw [ends_bind]
  constructor
  · rintro ⟨_, s', huse, h⟩
    rw [(ends_use.mp huse).2, ends_bind] at h
    obtain ⟨_, s'', hget, h⟩ := h
    obtain ⟨rfl, rfl⟩ := ends_get.mp hget
    exact h
  · intro h
    exact ⟨(), s, ends_use.mpr ⟨ha, rfl⟩, ends_bind.mpr ⟨s, s, ends_get.mpr ⟨rfl, rfl⟩, h⟩⟩

theorem ends_decodePages_cons (hc : s.cache.Bounded) {i : Nat} {is : List Nat} (hi : i ≤ 9)
    {b : Bool} :
    Ends Access.InRange (decodePages (i :: is)) s b t ↔
      s.adippg i < 0x900 ∧ if s.cache.damaged (s.adippg i) then b = false ∧ t = s
        else Ends Access.InRange (decodePages is) (s.clear i) b t := by
  have hplace : (Access.adippg i).InRange := ⟨by omega, by omega⟩
  rw [decodePages, ends_useGet hplace]
  by_cases hzero : s.adippg i = 0
  · have hundamaged : s.cache.damaged (s.adippg i) = false := by simp [Cache.damaged, hzero]
    rw [if_pos hzero, hundamaged, clear_zero hzero, hzero]
    simp
  rw [if_neg hzero, ends_bind]
  simp only [ends_cachedPage hc]
  cases hpage : s.cache.cachedPage (s.adippg i) with
  | none =>
    have hundamaged : s.cache.damaged (s.adippg i) = false := by simp [Cache.damaged, hpage]
    have hclear : s.clear i = s := by simp [Tables.clear, hpage]
    rw [hundamaged, hclear]
    simp
  | some padip =>
    have hdamaged : s.cache.damaged (s.adippg i) = linksDamaged padip (List.range 44) := by
      simp [Cache.damaged, hpage, hzero]
    have hclear : s.clear i = { s with adippg := Function.update s.adippg i 0 } := by
      simp [Tables.clear, hpage]
    rw [hdamaged, hclear]
    cases hlinks : linksDamaged padip (List.range 44) with
    | false => simp [ends_decodeLinks, hlinks]
    | true => simp [ends_decodeLinks, hlinks]

theorem ends_decodePages (hc : s.cache.Bounded) {is : List Nat} (his : ∀ i ∈ is, i ≤ 9) {b : Bool} :
    Ends Access.InRange (decodePages is) s b t ↔ s.decodePages is = some (b, t) := by
  induction is generalizing s with
  | nil =>
    rw [Tables.decodePages, Option.some_inj, Prod.mk.injEq]
    exact ends_pure.trans ⟨fun h => ⟨h.1.symm, h.2.symm⟩, fun h => ⟨h.1.symm, h.2.symm⟩⟩
  | cons i is ih =>
    have hclear := (clear_frame s i).1
    rw [ends_decodePages_cons hc (his i List.mem_cons_self), Tables.decodePages,
      ih (hclear ▸ hc) fun k hk => his k (List.mem_cons_of_mem i hk)]
    by_cases hp : s.adippg i < 0x900
    · rw [if_pos hp]
      split
      · simp [hp, eq_comm]
      · simp [hp]
    · simp [hp]

theorem decodePages_frame {is : List Nat} {b : Bool} (h : s.decodePages is = some (b, t)) :
    t.cache = s.cache ∧ t.flofpages = s.flofpages ∧ t.maxadippg = s.maxadippg ∧
      ∀ k ∉ is, t.adippg k = s.adippg k := by
  induction is generalizing s with
  | nil =>
    cases h
    exact ⟨rfl, rfl, rfl, fun _ _ => rfl⟩
  | cons i is ih =>
    rw [Tables.decodePages] at h
    split at h
    case isFalse => cases h
    split at h
    · cases h
      exact ⟨rfl, rfl, rfl, fun _ _ => rfl⟩
    · obtain ⟨hcache, hflof, hmax, hother, -⟩ := clear_frame s i
      obtain ⟨hcache', hflof', hmax', hother'⟩ := ih h
      refine ⟨hcache'.trans hcache, hflof'.trans hflof, hmax'.trans hmax, fun k hk => ?_⟩
      simp only [List.mem_cons, not_or] at hk
      exact (hother' k hk.2).trans (hother k hk.1)

section
variable {m n : Nat}

/-- All entries are pages, decoded or not received. -/
theorem decodePages_whole (h : s.decodePages (List.range' m n) = some (true, t)) :
    ∀ i, m ≤ i → i < m + n → s.adippg i < 0x900 ∧ s.cache.damaged (s.adippg i) = false ∧
      (t.adippg i ≠ 0 ↔ s.adippg i ≠ 0 ∧ s.cache.cachedPage (s.adippg i) = none) := by
  induction n generalizing m s with
  | zero =>
    intro i hlow hhigh
    omega
  | succ n ih =>
    rw [List.range'_succ, Tables.decodePages] at h
    split at h
    case isFalse => cases h
    case isTrue hp =>
      split at h
      case isTrue => cases h
      case isFalse hundamaged =>
        obtain ⟨hcache, -, -, hother, hhere⟩ := clear_frame s m
        intro i hlow hhigh
        by_cases hi : i = m
        · subst hi
          have hnot : i ∉ List.range' (i + 1) n := by simp
          rw [(decodePages_frame h).2.2.2 i hnot]
          exact ⟨hp, Bool.eq_false_iff.mpr hundamaged, hhere⟩
        · have hlater := ih h i (by omega) (by omega)
          rwa [hother i hi, hcache] at hlater

/-- An entry has a hamming error, those up to it are pages. -/
theorem decodePages_damaged (h : s.decodePages (List.range' m n) = some (false, t)) :
    ∃ i, m ≤ i ∧ i < m + n ∧ s.cache.damaged (s.adippg i) = true ∧
      ∀ k, m ≤ k → k ≤ i → s.adippg k < 0x900 := by
  induction n generalizing m s with
  | zero => cases h
  | succ n ih =>
    rw [List.range'_succ, Tables.decodePages] at h
    split at h
    case isFalse => cases h
    case isTrue hp =>
      split at h
      case isTrue hdamaged =>
        refine ⟨m, Nat.le_refl m, by omega, hdamaged, fun k hlow hhigh => ?_⟩
        rwa [Nat.le_antisymm hhigh hlow]
      case isFalse =>
        obtain ⟨hcache, -, -, hother, -⟩ := clear_frame s m
        obtain ⟨i, hlow, hhigh, hdamaged, hpages⟩ := ih h
        rw [hother i (by omega), hcache] at hdamaged
        refine ⟨i, by omega, by omega, hdamaged, fun k hk hki => ?_⟩
        by_cases hkm : k = m
        · rwa [hkm]
        · rw [← hother k hkm]
          exact hpages k (by omega) hki

/-- An entry is no page, and none before it has a hamming error. -/
theorem decodePages_outside (h : s.decodePages (List.range' m n) = none) :
    ∃ i, m ≤ i ∧ i < m + n ∧ 0x900 ≤ s.adippg i ∧
      ∀ k, m ≤ k → k < i → s.cache.damaged (s.adippg k) = false := by
  induction n generalizing m s with
  | zero => cases h
  | succ n ih =>
    rw [List.range'_succ, Tables.decodePages] at h
    split at h
    case isFalse hp => exact ⟨m, Nat.le_refl m, by omega, by omega, fun k hlow hhigh => by omega⟩
    case isTrue =>
      split at h
      case isTrue => cases h
      case isFalse hundamaged =>
        obtain ⟨hcache, -, -, hother, -⟩ := clear_frame s m
        obtain ⟨i, hlow, hhigh, hp, hbefore⟩ := ih h
        rw [hother i (by omega)] at hp
        refine ⟨i, by omega, by omega, hp, fun k hk hki => ?_⟩
        by_cases hkm : k = m
        · rw [hkm]
          exact Bool.eq_false_iff.mpr hundamaged
        · have hlater := hbefore k (by omega) hki
          rwa [hother k hkm, hcache] at hlater

end

/-- An entry that is left ends the loop before it reads in front of the table. -/
theorem ends_shrink {n : Nat} (hn : n ≤ 10) :
    (∃ t, Ends Access.InRange (shrink n) s () t) ↔ ∃ i < n, s.adippg i ≠ 0 := by
  induction n generalizing s with
  | zero =>
    have hbefore : ¬ (Access.adippg (-1)).InRange := by decide
    simp [shrink, hbefore]
  | succ n ih =>
    have hplace : (Access.adippg n).InRange := ⟨by omega, by omega⟩
    rw [shrink]
    simp only [ends_bind, ends_use, ends_get]
    by_cases hzero : s.adippg n = 0
    · have hrest := ih (s := { s with maxadippg := s.maxadippg - 1 }) (by omega)
      have hlast : (∃ i < n + 1, s.adippg i ≠ 0) ↔ ∃ i < n, s.adippg i ≠ 0 := by
        constructor
        · rintro ⟨i, hi, hne⟩
          rcases Nat.lt_succ_iff_lt_or_eq.mp hi with hi | rfl
          · exact ⟨i, hi, hne⟩
          · exact absurd hzero hne
        · rintro ⟨i, hi, hne⟩
          exact ⟨i, by omega, hne⟩
      rw [hlast, ← hrest]
      simp [hzero, hplace]
    · simp only [iff_true_right (show ∃ i < n + 1, s.adippg i ≠ 0 from ⟨n, by omega, hzero⟩)]
      exact ⟨s, (), s, ⟨hplace, rfl⟩, s, s, ⟨rfl, rfl⟩, by
        rw [if_neg hzero]; exact ends_pure.mpr ⟨rfl, rfl⟩⟩

theorem shrink_frame {n : Nat} (hmax : s.maxadippg + 1 = n)
    (h : Ends Access.InRange (shrink n) s () t) :
    t.cache = s.cache ∧ t.flofpages = s.flofpages ∧ -1 ≤ t.maxadippg ∧
      t.maxadippg ≤ s.maxadippg := by
  induction n generalizing s with
  | zero =>
    have hbefore : ¬ (Access.adippg (-1)).InRange := by decide
    exact absurd (ends_use.mp h).1 hbefore
  | succ n ih =>
    rw [shrink] at h
    simp only [ends_bind, ends_use, ends_get] at h
    obtain ⟨_, _, ⟨-, rfl⟩, _, _, ⟨rfl, rfl⟩, h⟩ := h
    split at h
    · obtain ⟨_, s', hs', h⟩ := ends_bind.mp h
      have hs' := ends_modify.mp hs'
      subst hs'
      obtain ⟨hcache, hflof, hlow, hhigh⟩ := ih (by dsimp only; omega) h
      dsimp only at hhigh
      exact ⟨hcache, hflof, hlow, by omega⟩
    · obtain ⟨-, rfl⟩ := ends_pure.mp h
      exact ⟨rfl, rfl, by omega, Int.le_refl _⟩

theorem ends_decodeAdip :
    Ends Access.InRange decodeAdip s () t ↔
      ∃ b s', Ends Access.InRange (decodePages (List.range s.entries)) s b s' ∧
        Ends Access.InRange (if b then shrink s.entries else pure ()) s' () t := by
  unfold decodeAdip
  rw [ends_bind]
  constructor
  · rintro ⟨_, _, hget, h⟩
    obtain ⟨rfl, rfl⟩ := ends_get.mp hget
    exact ends_bind.mp h
  · intro h
    exact ⟨s, s, ends_get.mpr ⟨rfl, rfl⟩, ends_bind.mpr h⟩

theorem entries_le (hs : s.Bounded) : s.entries ≤ 10 ∧ s.maxadippg + 1 = s.entries := by
  have hmax := hs.maxadippg
  unfold Tables.entries
  omega

/-- `tuxtxt_decode_adip` stays in range exactly where its tables can be decoded. -/
theorem ends_decodeAdip_iff (hs : s.Bounded) :
    (∃ t, Ends Access.InRange decodeAdip s () t) ↔ s.Decodable := by
  have hle := (entries_le hs).1
  have hplaces : ∀ i ∈ List.range s.entries, i ≤ 9 := fun i hi => by
    have := List.mem_range.mp hi
    omega
  have hpages : ∀ b s', Ends Access.InRange (decodePages (List.range s.entries)) s b s' ↔
      s.decodePages (List.range' 0 s.entries) = some (b, s') := fun b s' => by
    rw [← List.range_eq_range']
    exact ends_decodePages hs.cache hplaces
  constructor
  · rintro ⟨t, h⟩
    obtain ⟨b, s', hdecode, hshrink⟩ := ends_decodeAdip.mp h
    rw [hpages] at hdecode
    cases b with
    | false =>
      obtain ⟨i, -, hi, hdamaged, hbefore⟩ := decodePages_damaged hdecode
      exact .inl ⟨i, by omega, hdamaged, fun k hk => hbefore k (Nat.zero_le k) hk⟩
    | true =>
      have hwhole := decodePages_whole hdecode
      obtain ⟨i, hi, hleft⟩ := (ends_shrink hle).mp ⟨t, hshrink⟩
      refine .inr ⟨fun k hk => (hwhole k (Nat.zero_le k) (by omega)).1, i, hi, ?_⟩
      exact (hwhole i (Nat.zero_le i) (by omega)).2.2.mp hleft
  · intro h
    cases hdecode : s.decodePages (List.range' 0 s.entries) with
    | none =>
      obtain ⟨i, -, hi, hp, hbefore⟩ := decodePages_outside hdecode
      rcases h with ⟨j, hj, hdamaged, hall⟩ | ⟨hall, -⟩
      · rcases Nat.lt_or_ge j i with hlt | hge
        · rw [hbefore j (Nat.zero_le j) hlt] at hdamaged
          cases hdamaged
        · exact absurd (hall i hge) (Nat.not_lt_of_le hp)
      · exact absurd (hall i (by omega)) (Nat.not_lt_of_le hp)
    | some result =>
      obtain ⟨b, s'⟩ := result
      cases b with
      | false => exact ⟨s', ends_decodeAdip.mpr ⟨false, s', (hpages _ _).mpr hdecode,
          ends_pure.mpr ⟨rfl, rfl⟩⟩⟩
      | true =>
        have hwhole := decodePages_whole hdecode
        rcases h with ⟨i, hi, hdamaged, -⟩ | ⟨-, i, hi, hleft⟩
        · rw [(hwhole i (Nat.zero_le i) (by omega)).2.1] at hdamaged
          cases hdamaged
        · have hentry := (hwhole i (Nat.zero_le i) (by omega)).2.2.mpr hleft
          obtain ⟨t, ht⟩ := (ends_shrink (s := s') hle).mpr ⟨i, hi, hentry⟩
          exact ⟨t, ends_decodeAdip.mpr ⟨true, s', (hpages _ _).mpr hdecode, ht⟩⟩

theorem decodeAdip_bounded (hs : s.Bounded) (h : Ends Access.InRange decodeAdip s () t) :
    t.Bounded := by
  obtain ⟨hle, hmax⟩ := entries_le hs
  obtain ⟨b, s', hdecode, hshrink⟩ := ends_decodeAdip.mp h
  rw [ends_decodePages hs.cache fun i hi => by have := List.mem_range.mp hi; omega] at hdecode
  obtain ⟨hcache, hflof, hmax', -⟩ := decodePages_frame hdecode
  have hs' : s'.Bounded := ⟨hcache ▸ hs.cache, hflof ▸ hs.flofpages, hmax' ▸ hs.maxadippg⟩
  cases b with
  | false =>
    obtain ⟨-, rfl⟩ := ends_pure.mp hshrink
    exact hs'
  | true =>
    obtain ⟨hcache', hflof', hlow, hhigh⟩ := shrink_frame (hmax' ▸ hmax) hshrink
    exact ⟨hcache' ▸ hs'.cache, hflof' ▸ hs'.flofpages, hlow, hhigh.trans hs'.maxadippg.2⟩

end

/-! ## Runs -/

/-- The page a magazine collects is allocated. -/
def Tables.Allocated (t : Tables) : Prop :=
  ∀ m p s, t.cache.currentPage m = some p → t.cache.currentSubpage m = some s →
    t.cache.astCachetable (p, s) ≠ none

/-- Every index that is used is in range, and in every state what is collected is
allocated. -/
def Safe : Tables → List Call → Prop
  | t, [] => t.Allocated
  | t, e :: es => t.Allocated ∧ ∃ t', Ends Access.InRange e.run t () t' ∧ Safe t' es

/-- Every call of `tuxtxt_decode_adip` finds decodable tables. -/
def Meets : Tables → List Call → Prop
  | _, [] => True
  | t, e :: es => (e = .decodeAdip → t.Decodable) ∧ ∀ t', (e.run t).1 = some ((), t') → Meets t' es

section
variable {t t' : Tables}

theorem Tables.Bounded.allocated (ht : t.Bounded) : t.Allocated := by
  intro m p s hp hs
  have hcollecting : t.cache.collecting m = some (p, s) := by
    unfold Cache.collecting
    rw [hp, hs]
  exact (ht.cache.collecting m p s hcollecting).2.2

theorem cleared_bounded (pagedata : Nat → PageData) (adippg : Nat → Nat) :
    (Tables.cleared pagedata adippg).Bounded := by
  have hmax : (-1 : Int) ≤ -1 ∧ (-1 : Int) ≤ 9 := by decide
  refine ⟨⟨fun m p s h => ?_, fun p s h => ?_⟩, fun p l => Nat.zero_lt_succ _, hmax⟩
  · cases h
  · cases h

theorem Turns.ends {p : Thread Unit} {c' : Cache} (h : Turns t.cache p c') (ht : t.Bounded) :
    ∃ t', Ends Access.InRange p t () t' ∧ t'.Bounded := by
  obtain ⟨_, t', hend, ht', -⟩ := h t ⟨ht, rfl⟩
  exact ⟨t', hend, ht'⟩

theorem Cache.Bounded.display {c : Cache} (h : c.Bounded) (page subpage : Nat) (manual : Bool) :
    (c.step (.display page subpage manual)).Bounded :=
  h.frame rfl (fun _ hkey => hkey) rfl

/-- One call. -/
theorem ends_call_iff (ht : t.Bounded) (e : Call) :
    ((∃ t', Ends Access.InRange e.run t () t') ↔ (e = .decodeAdip → t.Decodable)) ∧
      ∀ t', Ends Access.InRange e.run t () t' → t'.Bounded := by
  have hturns : ∀ {p : Thread Unit} {c' : Cache}, Turns t.cache p c' → e.run = p →
      e ≠ .decodeAdip → ((∃ t', Ends Access.InRange e.run t () t') ↔
        (e = .decodeAdip → t.Decodable)) ∧ ∀ t', Ends Access.InRange e.run t () t' → t'.Bounded := by
    rintro p c' h rfl hne
    obtain ⟨t', hend, ht'⟩ := h.ends ht
    refine ⟨⟨fun _ he => absurd he hne, fun _ => ⟨t', hend⟩⟩, fun u hu => ?_⟩
    rw [(hend.unique hu).2]
    exact ht'
  cases e with
  | event e =>
    cases e with
    | row r => exact hturns (turns_receiveRow r) rfl (by simp)
    | display page subpage manual =>
      exact hturns (turns_modifyCache (f := fun c => c.step (.display page subpage manual))
        fun h => h.display page subpage manual) rfl (by simp)
  | decodeBtt => exact hturns turns_decodeBtt rfl (by simp)
  | decodeAdip =>
    have hiff := ends_decodeAdip_iff ht
    exact ⟨⟨fun h _ => hiff.mp h, fun h => hiff.mpr (h rfl)⟩, fun t' h => decodeAdip_bounded ht h⟩

theorem Tables.Bounded.safe_iff (ht : t.Bounded) (es : List Call) : Safe t es ↔ Meets t es := by
  induction es generalizing t with
  | nil => exact iff_of_true ht.allocated trivial
  | cons e es ih =>
    obtain ⟨hends, hbounded⟩ := ends_call_iff ht e
    rw [Safe, Meets, ← hends]
    constructor
    · rintro ⟨-, t', hend, hsafe⟩
      refine ⟨⟨t', hend⟩, fun u hu => ?_⟩
      have heq : t' = u := congrArg Prod.snd (Option.some_inj.mp (hend.1.symm.trans hu))
      rw [← heq]
      exact (ih (hbounded t' hend)).mp hsafe
    · rintro ⟨⟨t', hend⟩, hmeets⟩
      exact ⟨ht.allocated, t', hend, (ih (hbounded t' hend)).mpr (hmeets t' hend.1)⟩

end

/-- A run of rows and decodings uses indices in range only, and what a magazine collects is
allocated, if and only if every call of `tuxtxt_decode_adip` finds such tables. -/
theorem safe_iff_meets (pagedata : Nat → PageData) (adippg : Nat → Nat) (es : List Call) :
    Safe (Tables.cleared pagedata adippg) es ↔ Meets (Tables.cleared pagedata adippg) es :=
  (cleared_bounded pagedata adippg).safe_iff es

/-! ## A link to page 900 -/

theorem zeroRow_length (start : List Byte) (h : start.length ≤ 42) :
    (start ++ List.replicate (42 - start.length) (160 : Byte)).length = 42 := by
  rw [List.length_append, List.length_replicate]
  omega

/-- A row that begins with these bytes, and zeros as the hamming code has them. -/
def zeroRow (start : List Byte) (h : start.length ≤ 42) : Row where
  bytes := start ++ List.replicate (42 - start.length) 160
  length_eq := zeroRow_length start h

/-- Page 1F0 with its rows 20 and 21, and the next page. -/
def linkRows : List Row :=
  [zeroRow [0, 160, 160, 86] (by decide), zeroRow [0, 48] (by decide),
    zeroRow [226, 48, 226, 160, 160, 160, 160, 160, 160, 144, 86] (by decide),
    zeroRow [0] (by decide)]

def linkCalls : List Call :=
  linkRows.map (fun r => .event (.row r)) ++ [.decodeBtt, .decodeAdip]

/-- The page as it is received: blank pages in the basic top table but for the last
ones, a link to page 900 and the end of the links. -/
def linkBtt : PageData where
  bytes := List.replicate 760 32 ++ (List.replicate 40 5 ++
    ([71, 5, 5, 5, 5, 5, 5, 9, 106] ++ List.replicate 31 5 ++ List.replicate 80 32))
  length_eq := by decide +kernel

section
variable {s t : Tables}

theorem safe_rows {rows : List Row} {es : List Call} (ht : t.Bounded)
    (h : Safe t (rows.map (fun r => .event (.row r)) ++ es)) :
    ∃ t', Safe t' es ∧ t'.Bounded ∧ t'.cache = rows.foldl Cache.receiveRow t.cache := by
  induction rows generalizing t with
  | nil => exact ⟨t, h, ht, rfl⟩
  | cons r rows ih =>
    obtain ⟨-, t', hend, hsafe⟩ := h
    obtain ⟨_, u, hend', hu, hcache⟩ := turns_receiveRow r t ⟨ht, rfl⟩
    obtain ⟨-, rfl⟩ := hend'.unique hend
    rw [List.foldl_cons, ← hcache]
    exact ih hu hsafe

theorem linkRows_page :
    (linkRows.foldl Cache.receiveRow (Cache.cleared fun _ => PageData.blank)).cachedPage 0x1f0 =
      some linkBtt := by
  have hbytes : ((linkRows.foldl Cache.receiveRow (Cache.cleared fun _ => PageData.blank)).cachedPage
      0x1f0).map PageData.bytes = some linkBtt.bytes := by decide +kernel
  obtain ⟨page, hpage, heq⟩ := Option.map_eq_some_iff.mp hbytes
  rw [hpage, PageData.ext heq]

theorem linkBtt_top {i : Nat} (hi : i < 800) : linkBtt.get i = 32 ∨ linkBtt.get i = 5 := by
  unfold PageData.get linkBtt
  rw [List.getD_eq_getElem?_getD, List.getElem?_append, List.length_replicate]
  by_cases hlow : i < 760
  · left
    rw [if_pos hlow, List.getElem?_replicate_of_lt hlow]
    rfl
  · right
    have hplace : i - 760 < 40 := by omega
    rw [if_neg hlow, List.getElem?_append, List.length_replicate, if_pos hplace,
      List.getElem?_replicate_of_lt hplace]
    rfl

theorem topTable_whole {is : List Nat} {current : Nat} {b : Bool} (his : ∀ i ∈ is, i < 800)
    (h : Ends Access.InRange (topTable linkBtt is current) s b t) : b = true ∧ t.cache = s.cache := by
  induction is generalizing s current with
  | nil =>
    obtain ⟨rfl, rfl⟩ := ends_pure.mp h
    exact ⟨rfl, rfl⟩
  | cons i is ih =>
    have hfive : dehamming 5 = 0 := by decide
    have hzero : (if linkBtt.get i = 32 then 0 else linkBtt.dehammed i) = 0 := by
      rcases linkBtt_top (his i List.mem_cons_self) with htop | htop
      · rw [if_pos htop]
      · rw [PageData.dehammed, htop, hfive, ite_self]
    rw [topTable, hzero] at h
    obtain ⟨_, s', huse, h⟩ := ends_bind.mp h
    obtain ⟨_, s'', hmodify, h⟩ := ends_bind.mp h
    obtain ⟨hb, hcache⟩ := ih (fun k hk => his k (List.mem_cons_of_mem i hk)) h
    refine ⟨hb, ?_⟩
    rw [hcache, ends_modify.mp hmodify, (ends_use.mp huse).2]

theorem linkTable_link {b : Bool} (hmax : s.maxadippg = -1)
    (h : Ends Access.InRange (linkTable linkBtt (List.range 10)) s b t) :
    t.maxadippg = 0 ∧ t.adippg 0 = 0x900 := by
  have hlinks : linkBtt.dehammed 800 = 9 ∧ linkBtt.dehammed 801 = 0 ∧ linkBtt.dehammed 802 = 0 ∧
      linkBtt.dehammed 807 = 2 ∧ linkBtt.dehammed 808 = 0xF := by decide +kernel
  obtain ⟨h0, h1, h2, h7, h8⟩ := hlinks
  have hrange : List.range 10 = [0, 1, 2, 3, 4, 5, 6, 7, 8, 9] := rfl
  rw [hrange] at h
  simp only [linkTable] at h
  simp [h0, h1, h2, h7, h8, hmax] at h
  simp [h.2.2]

theorem decodeBtt_link (hs : s.Bounded) (hpage : s.cache.cachedPage 0x1f0 = some linkBtt)
    (h : Ends Access.InRange decodeBtt s () t) : t.maxadippg = 0 ∧ t.adippg 0 = 0x900 := by
  obtain ⟨page, s₁, hcached, h⟩ := ends_bind.mp h
  obtain ⟨-, hpage', rfl⟩ := (ends_cachedPage hs.cache).mp hcached
  rw [hpage] at hpage'
  subst hpage'
  have hfull : linkBtt.get 799 ≠ 32 := by decide +kernel
  dsimp only at h
  rw [if_neg hfull] at h
  obtain ⟨whole, s₂, htop, h⟩ := ends_bind.mp h
  obtain ⟨rfl, -⟩ := topTable_whole (fun i hi => List.mem_range.mp hi) htop
  rw [if_pos rfl] at h
  obtain ⟨_, s₃, hreset, h⟩ := ends_bind.mp h
  obtain ⟨whole, s₄, hlinks, h⟩ := ends_bind.mp h
  have hlink := linkTable_link (by rw [ends_modify.mp hreset]) hlinks
  cases whole with
  | false =>
    obtain ⟨-, rfl⟩ := ends_pure.mp h
    exact hlink
  | true =>
    have hok := ends_modify.mp h
    subst hok
    exact hlink

end

theorem linkCalls_unsafe :
    ¬ Safe (Tables.cleared (fun _ => PageData.blank) fun _ => 0) linkCalls := by
  intro h
  obtain ⟨s, hsafe, hs, hcache⟩ := safe_rows (cleared_bounded _ _) h
  have hpage : s.cache.cachedPage 0x1f0 = some linkBtt := by
    rw [hcache]
    exact linkRows_page
  obtain ⟨-, t, hbtt, -, u, hadip, -⟩ := hsafe
  have ht : t.Bounded := (ends_call_iff hs .decodeBtt).2 t hbtt
  obtain ⟨hmax, hentry⟩ := decodeBtt_link hs hpage hbtt
  have hentries : t.entries = 1 := by rw [Tables.entries, hmax]; rfl
  have hpages : ∀ i < t.entries, ¬ t.adippg i < 0x900 := fun i hi => by
    have hzero : i = 0 := by omega
    rw [hzero, hentry]
    exact Nat.lt_irrefl _
  rcases (ends_decodeAdip_iff ht).mp ⟨u, hadip⟩ with ⟨i, hi, -, hbefore⟩ | ⟨hall, i, hi, -⟩
  · exact hpages i hi (hbefore i (Nat.le_refl i))
  · exact hpages i hi (hall i hi)

end Tuxbox.Tuxtxt
