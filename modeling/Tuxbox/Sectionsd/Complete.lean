import Tuxbox.Sectionsd.Duplicates

/-! When `check_complete` finds a table complete. The walk takes the next key for the
next section of the table. Keys of other networks are in between, and a step of eight may
skip sections that the table has.

Main results: `checkComplete_iff`, the walk as a condition on the cache, and
`complete_iff_covers`, when it is right. -/
namespace Tuxbox.Sectionsd

/-- What a section of an EIT table is asked for by. -/
structure Table where
  tableId : Nat
  eit : tableId = 0x4e ∨ tableId = 0x50
  extensionId : UInt16
  onid : UInt16
  tsid : UInt16

/-- The segments of a table, eight section numbers each. `segmentLast` is the last number that
a segment has. -/
structure Segments (last : Nat) where
  segmentLast : Nat → Nat
  first_le : ∀ i ≤ last / 8, 8 * i ≤ segmentLast i
  final : segmentLast (last / 8) = last

namespace Table

def key (T : Table) (n : Nat) : Nat :=
  createSectionsId T.tableId T.extensionId.toNat n T.onid.toNat T.tsid.toNat

def Cached (T : Table) (cached : Cache) (n : Nat) : Prop := ∃ e ∈ cached.entries, e.1 = T.key n

/-- The numbers that a table transmits. -/
def Transmits {last : Nat} (g : Segments last) (n : Nat) : Prop :=
  n ≤ last ∧ n ≤ g.segmentLast (n / 8)

/-- Every section is cached. -/
def Covers (T : Table) (cached : Cache) {last : Nat} (g : Segments last) : Prop :=
  ∀ n, Transmits g n → T.Cached cached n

/-- In the order of the keys there is nothing but sections of the table before its last. -/
def Alone (T : Table) (cached : Cache) (last : Nat) : Prop :=
  ∀ e ∈ cached.entries, T.key 0 < e.1 → e.1 < T.key last → ∃ n < 256, e.1 = T.key n

/-- The next section that is cached has a number that is one or eight higher. -/
def Steps (T : Table) (cached : Cache) (last : Nat) : Prop :=
  ∀ n < last, T.Cached cached n → ∃ m < 256, (m = n + 1 ∨ m = n + 8) ∧ T.Cached cached m ∧
    ∀ k, n < k → k < m → ¬ T.Cached cached k

/-! ## Keys -/

variable (T : Table)

theorem key_eq {n : Nat} (hn : n < 256) : T.key n = T.tableId * 2 ^ 56 +
    (T.extensionId.toNat * 2 ^ 40 + (n * 2 ^ 32 + (T.onid.toNat * 2 ^ 16 + T.tsid.toNat))) :=
  createSectionsId_eq T.extensionId.toNat_lt hn T.onid.toNat_lt T.tsid.toNat_lt

theorem key_lt_iff {n m : Nat} (hn : n < 256) (hm : m < 256) : T.key n < T.key m ↔ n < m := by
  rw [key_eq T hn, key_eq T hm]
  omega

theorem key_inj {n m : Nat} (hn : n < 256) (hm : m < 256) (h : T.key n = T.key m) : n = m := by
  rw [key_eq T hn, key_eq T hm] at h
  omega

/-- The parts of an id are those of a section of the table. -/
theorem isKey_iff {id n : Nat} (hid : id < 2 ^ 64) :
    (id >>> 56 &&& 0xff = T.tableId ∧ id >>> 40 &&& 0xffff = T.extensionId.toNat ∧
        id >>> 32 &&& 0xff = n ∧ id >>> 16 &&& 0xffff = T.onid.toNat ∧
        id &&& 0xffff = T.tsid.toNat) ↔ n < 256 ∧ id = T.key n := by
  have he := T.extensionId.toNat_lt
  have ho := T.onid.toNat_lt
  have hx := T.tsid.toNat_lt
  have ht : T.tableId < 256 := by
    have := T.eit
    omega
  have hbyte : ∀ a : Nat, a &&& 0xff = a % 256 := fun a => Nat.and_two_pow_sub_one_eq_mod a 8
  have hword : ∀ a : Nat, a &&& 0xffff = a % 65536 := fun a => Nat.and_two_pow_sub_one_eq_mod a 16
  simp only [hbyte, hword, Nat.shiftRight_eq_div_pow]
  constructor
  · rintro ⟨h1, h2, h3, h4, h5⟩
    have hn : n < 256 := by omega
    refine ⟨hn, ?_⟩
    rw [key_eq T hn]
    omega
  · rintro ⟨hn, rfl⟩
    rw [key_eq T hn]
    omega

theorem key_lt {n : Nat} (hn : n < 256) : T.key n < 2 ^ 64 := by
  have he := T.extensionId.toNat_lt
  have ho := T.onid.toNat_lt
  have hx := T.tsid.toNat_lt
  have ht := T.eit
  rw [key_eq T hn]
  omega

/-! ## The walk -/

def loop (T : Table) (last : Nat) (l : List (Nat × Nat)) (c : Nat) : Bool :=
  completeLoop T.tableId T.extensionId.toNat T.onid.toNat T.tsid.toNat last l c

section
variable {T : Table} {last c : Nat} {a : Nat × Nat} {l : List (Nat × Nat)}

theorem loop_step {n : Nat} (hn : n < 256) (ha : a.1 = T.key n) (hc : n = c + 1 ∨ n = c + 8) :
    T.loop last (a :: l) c = if n = last then true else T.loop last l n := by
  obtain ⟨h1, h2, h3, h4, h5⟩ := (T.isKey_iff (ha ▸ T.key_lt hn)).mpr ⟨hn, ha⟩
  unfold loop
  rw [completeLoop, h3, if_pos ⟨h1, h2, hc, h4, h5⟩]

theorem loop_stop (hid : a.1 < 2 ^ 64)
    (h : ∀ n < 256, a.1 = T.key n → ¬ (n = c + 1 ∨ n = c + 8)) :
    T.loop last (a :: l) c = false := by
  unfold loop
  rw [completeLoop, if_neg]
  rintro ⟨h1, h2, hc, h4, h5⟩
  obtain ⟨hn, ha⟩ := (T.isKey_iff hid).mp ⟨h1, h2, rfl, h4, h5⟩
  exact h _ hn ha hc

/-- The numbers only go up. -/
theorem loop_past (hid : ∀ e ∈ l, e.1 < 2 ^ 64) (h : last ≤ c) : T.loop last l c = false := by
  induction l generalizing c with
  | nil => rfl
  | cons a l ih =>
    by_cases hstep : ∃ n < 256, a.1 = T.key n ∧ (n = c + 1 ∨ n = c + 8)
    · obtain ⟨n, hn, ha, hc⟩ := hstep
      rw [loop_step hn ha hc, if_neg (by omega)]
      exact ih (fun e he => hid e (List.mem_cons_of_mem a he)) (by omega)
    · exact loop_stop (hid a List.mem_cons_self) fun n hn ha hc => hstep ⟨n, hn, ha, hc⟩

/-- A walk that is successful, from a section before the last on. -/
structure Walks (T : Table) (last : Nat) (l : List (Nat × Nat)) (c : Nat) : Prop where
  last_mem : ∃ e ∈ l, e.1 = T.key last
  alone : ∀ e ∈ l, e.1 < T.key last → ∃ n < 256, e.1 = T.key n
  steps : ∀ n < last, (n = c ∨ ∃ e ∈ l, e.1 = T.key n) →
    ∃ m < 256, (m = n + 1 ∨ m = n + 8) ∧ (∃ e ∈ l, e.1 = T.key m) ∧
      ∀ k, n < k → k < m → ¬ ∃ e ∈ l, e.1 = T.key k

theorem loop_iff (hlast : last < 256) (hid : ∀ e ∈ l, e.1 < 2 ^ 64)
    (hs : l.Pairwise fun a b => a.1 < b.1) (hl : ∀ e ∈ l, T.key c < e.1) (hc : c < last) :
    T.loop last l c = true ↔ T.Walks last l c := by
  induction l generalizing c with
  | nil => exact iff_of_false Bool.false_ne_true fun ⟨⟨_, h, _⟩, _, _⟩ => List.not_mem_nil h
  | cons a l ih =>
    obtain ⟨ha, hs⟩ := List.pairwise_cons.mp hs
    have hid' : ∀ e ∈ l, e.1 < 2 ^ 64 := fun e he => hid e (List.mem_cons_of_mem a he)
    have hmem : ∀ {n}, (∃ e ∈ a :: l, e.1 = T.key n) ↔ a.1 = T.key n ∨ ∃ e ∈ l, e.1 = T.key n := by
      simp only [List.mem_cons, exists_eq_or_imp, implies_true]
    constructor
    · intro hloop
      by_cases hstep : ∃ n < 256, a.1 = T.key n ∧ (n = c + 1 ∨ n = c + 8)
      · obtain ⟨n, hn, han, hnc⟩ := hstep
        -- nothing is between the section the walk is at and the next entry
        have hbetween : ∀ k, c < k → k < n → ¬ ∃ e ∈ a :: l, e.1 = T.key k := by
          rintro k - hkn ⟨e, he, hek⟩
          have hlt := (T.key_lt_iff (by omega) hn).mpr hkn
          rcases List.mem_cons.mp he with rfl | he
          · omega
          · have := ha e he
            omega
        rw [loop_step hn han hnc] at hloop
        split at hloop
        · rename_i hnl
          subst hnl
          refine ⟨⟨a, List.mem_cons_self, han⟩, ?_, ?_⟩
          · intro e he helt
            rcases List.mem_cons.mp he with rfl | he
            · omega
            · have := ha e he
              omega
          · intro k hk hkmem
            have hkc : k = c := by
              rcases hkmem with hkc | ⟨e, he, hek⟩
              · exact hkc
              · have hlt := (T.key_lt_iff (by omega) hn).mpr hk
                rcases List.mem_cons.mp he with rfl | he
                · omega
                · have := ha e he
                  omega
            subst hkc
            exact ⟨n, hn, hnc, ⟨a, List.mem_cons_self, han⟩, hbetween⟩
        · rename_i hnl
          have hnlast : n < last := by
            by_contra hge
            rw [loop_past hid' (by omega)] at hloop
            cases hloop
          obtain ⟨hlastmem, halone, hsteps⟩ :=
            (ih hid' hs (fun e he => han ▸ ha e he) hnlast).mp hloop
          refine ⟨hmem.mpr (.inr hlastmem), ?_, ?_⟩
          · intro e he helt
            rcases List.mem_cons.mp he with rfl | he
            · exact ⟨n, hn, han⟩
            · exact halone e he helt
          · intro k hk hkmem
            by_cases hkc : k = c
            · subst hkc
              exact ⟨n, hn, hnc, ⟨a, List.mem_cons_self, han⟩, hbetween⟩
            · have hkl : k = n ∨ ∃ e ∈ l, e.1 = T.key k := by
                rcases hkmem with hkmem | hkmem
                · exact absurd hkmem hkc
                · exact (hmem.mp hkmem).imp_left fun hak =>
                    T.key_inj (by omega) hn (hak.symm.trans han)
              obtain ⟨m, hm, hkm, hmmem, hnone⟩ := hsteps k hk hkl
              refine ⟨m, hm, hkm, hmem.mpr (.inr hmmem), ?_⟩
              intro j hkj hjm hj
              rcases hmem.mp hj with haj | hj
              · have hjn := T.key_inj (by omega) hn (haj.symm.trans han)
                have hnk : n ≤ k := by
                  rcases hkl with hkn | ⟨e, he, hek⟩
                  · omega
                  · have h1 := ha e he
                    rw [han, hek, T.key_lt_iff hn (by omega)] at h1
                    omega
                omega
              · exact hnone j hkj hjm hj
      · rw [loop_stop (hid a List.mem_cons_self) fun n hn han hnc => hstep ⟨n, hn, han, hnc⟩]
          at hloop
        cases hloop
    · rintro ⟨hlastmem, halone, hsteps⟩
      obtain ⟨m, hm, hcm, ⟨e, he, hem⟩, hnone⟩ := hsteps c hc (.inl rfl)
      have hmlast : m ≤ last := by
        by_contra hlt
        exact hnone last hc (by omega) hlastmem
      -- the first entry is the next section
      have ham : a.1 = T.key m := by
        rcases List.mem_cons.mp he with rfl | he
        · exact hem
        · exfalso
          have halt := ha e he
          have hle : T.key m ≤ T.key last := by
            rcases Nat.lt_or_eq_of_le hmlast with hlt | heq
            · exact le_of_lt ((T.key_lt_iff hm hlast).mpr hlt)
            · exact le_of_eq (congrArg T.key heq)
          obtain ⟨n, hn, han⟩ := halone a List.mem_cons_self (by omega)
          have hcn := hl a List.mem_cons_self
          rw [hem, han, T.key_lt_iff hn hm] at halt
          rw [han, T.key_lt_iff (by omega) hn] at hcn
          exact hnone n hcn halt ⟨a, List.mem_cons_self, han⟩
      rw [loop_step hm ham hcm]
      split
      · rfl
      · rename_i hml
        refine (ih hid' hs (fun e he => ham ▸ ha e he) (by omega)).mpr ⟨?_, ?_, ?_⟩
        · refine (hmem.mp hlastmem).resolve_left fun hal => hml ?_
          exact T.key_inj hm hlast (ham.symm.trans hal)
        · exact fun e he => halone e (List.mem_cons_of_mem a he)
        · intro n hn hnmem
          have hmn : m ≤ n := by
            rcases hnmem with hnm | ⟨e, he, hen⟩
            · omega
            · have h1 := ha e he
              rw [ham, hen, T.key_lt_iff hm (by omega)] at h1
              omega
          have hn' : n = c ∨ ∃ e ∈ a :: l, e.1 = T.key n := by
            rcases hnmem with rfl | hnmem
            · exact .inr (hmem.mpr (.inl ham))
            · exact .inr (hmem.mpr (.inr hnmem))
          obtain ⟨j, hj, hnj, hjmem, hjnone⟩ := hsteps n hn hn'
          refine ⟨j, hj, hnj, (hmem.mp hjmem).resolve_left fun haj => ?_, ?_⟩
          · have := T.key_inj hm hj (ham.symm.trans haj)
            omega
          · exact fun k hk hkj hkmem => hjnone k hk hkj (hmem.mpr (.inr hkmem))

end

/-! ## The whole check -/

/-- What the walk asks of the cache, from the first section on. -/
theorem walks_iff {cached : Cache} {before behind : List (Nat × Nat)} {e : Nat × Nat} {last : Nat}
    (hcached : cached.entries = before ++ e :: behind) (he : e.1 = T.key 0) (h0 : 0 < last)
    (hlast : last < 256) :
    T.Walks last behind 0 ↔
      T.Cached cached last ∧ T.Alone cached last ∧ T.Steps cached last := by
  have hs := cached.sorted
  rw [hcached, List.pairwise_append, List.pairwise_cons] at hs
  obtain ⟨-, ⟨hbehind, -⟩, hbefore⟩ := hs
  -- an entry above the first section is behind it
  have hmem : ∀ {x : Nat × Nat}, T.key 0 < x.1 → (x ∈ cached.entries ↔ x ∈ behind) := by
    intro x hx
    rw [hcached, List.mem_append, List.mem_cons]
    constructor
    · rintro (hx' | rfl | hx')
      · have := hbefore x hx' e List.mem_cons_self
        omega
      · omega
      · exact hx'
    · exact fun hx' => .inr (.inr hx')
  have hkey : ∀ {n : Nat}, 0 < n → n < 256 →
      (T.Cached cached n ↔ ∃ x ∈ behind, x.1 = T.key n) := by
    intro n h0n hn
    have hlt := (T.key_lt_iff (by omega) hn).mpr h0n
    constructor
    · rintro ⟨x, hx, hxn⟩
      exact ⟨x, (hmem (by omega)).mp hx, hxn⟩
    · rintro ⟨x, hx, hxn⟩
      exact ⟨x, (hmem (by omega)).mpr hx, hxn⟩
  have hzero : T.Cached cached 0 := ⟨e, by rw [hcached]; simp, he⟩
  constructor
  · rintro ⟨hlastmem, halone, hsteps⟩
    refine ⟨(hkey h0 hlast).mpr hlastmem, ?_, ?_⟩
    · exact fun x hx h0x hxl => halone x ((hmem h0x).mp hx) hxl
    · intro n hn hnc
      have hn' : n = 0 ∨ ∃ x ∈ behind, x.1 = T.key n := by
        rcases Nat.eq_zero_or_pos n with hn0 | hn0
        · exact .inl hn0
        · exact .inr ((hkey hn0 (by omega)).mp hnc)
      obtain ⟨m, hm, hnm, hmem', hnone⟩ := hsteps n hn hn'
      refine ⟨m, hm, hnm, (hkey (by omega) hm).mpr hmem', ?_⟩
      exact fun k hnk hkm hk => hnone k hnk hkm ((hkey (by omega) (by omega)).mp hk)
  · rintro ⟨hlastc, halone, hsteps⟩
    refine ⟨(hkey h0 hlast).mp hlastc, ?_, ?_⟩
    · intro x hx hxl
      have h0x : T.key 0 < x.1 := he ▸ hbehind x hx
      exact halone x ((hmem h0x).mpr hx) h0x hxl
    · intro n hn hnc
      have hn' : T.Cached cached n := by
        rcases Nat.eq_zero_or_pos n with rfl | hn0
        · exact hzero
        · exact (hkey hn0 (by omega)).mpr (hnc.resolve_left (by omega))
      obtain ⟨m, hm, hnm, hmc, hnone⟩ := hsteps n hn hn'
      refine ⟨m, hm, hnm, (hkey (by omega) hm).mp hmc, ?_⟩
      exact fun k hnk hkm hk => hnone k hnk hkm ((hkey (by omega) (by omega)).mpr hk)

theorem checkComplete_iff {d : DMX} {cached : Cache} {last : Nat}
    (hservice : d.currentService = T.extensionId.toNat) (hid : ∀ e ∈ cached.entries, e.1 < 2 ^ 64)
    (hlast : last < 256) :
    d.checkComplete cached T.tableId T.extensionId.toNat T.onid.toNat T.tsid.toNat last = true ↔
      last = 0 ∨ T.Cached cached 0 ∧ T.Cached cached last ∧ T.Alone cached last ∧
        T.Steps cached last := by
  unfold DMX.checkComplete
  rw [if_pos ⟨T.eit, hservice⟩]
  by_cases hzero : last = 0
  · rw [if_pos hzero]
    exact iff_of_true rfl (.inl hzero)
  have h0 : 0 < last := Nat.pos_of_ne_zero hzero
  rw [if_neg hzero]
  simp only [hzero, false_or]
  have hfirst : createSectionsId T.tableId T.extensionId.toNat 0 T.onid.toNat T.tsid.toNat =
      T.key 0 := rfl
  rw [hfirst]
  cases hdrop : cached.entries.dropWhile (·.1 ≠ T.key 0) with
  | nil =>
    refine iff_of_false Bool.false_ne_true ?_
    rintro ⟨⟨e, he, hek⟩, -⟩
    have := List.dropWhile_eq_nil_iff.mp hdrop e he
    exact of_decide_eq_true this hek
  | cons e behind =>
    have hcached : cached.entries =
        cached.entries.takeWhile (·.1 ≠ T.key 0) ++ e :: behind := by
      rw [← hdrop]
      exact (List.takeWhile_append_dropWhile).symm
    have he : e.1 = T.key 0 := by
      have h := List.head?_dropWhile_not (fun x : Nat × Nat => decide (x.1 ≠ T.key 0))
        cached.entries
      rw [hdrop] at h
      simpa using h
    have hs := cached.sorted
    rw [hcached, List.pairwise_append, List.pairwise_cons] at hs
    have hbehind : ∀ x ∈ behind, x ∈ cached.entries := by
      intro x hx
      rw [hcached]
      exact List.mem_append_right _ (List.mem_cons_of_mem e hx)
    have hloop := loop_iff (T := T) (c := 0) hlast (fun x hx => hid x (hbehind x hx)) hs.2.1.2
      (fun x hx => he ▸ hs.2.1.1 x hx) h0
    refine (hloop.trans (T.walks_iff hcached he h0 hlast)).trans ?_
    have hzero : T.Cached cached 0 := ⟨e, by rw [hcached]; simp, he⟩
    exact ⟨fun h => ⟨hzero, h⟩, fun h => h.2⟩

/-- Of each segment that is left by a step of eight, the first section only is cached. -/
def Filled (T : Table) (cached : Cache) (last : Nat) : Prop :=
  ∀ i < last / 8, (∀ k, 8 * i < k → k < 8 * i + 8 → ¬ T.Cached cached k) ∨
    ∀ k, 8 * i < k → k < 8 * i + 8 → T.Cached cached k

/-- With the first section of each segment in the cache, the steps are those within a segment
that is there as a whole, and those from one segment to the next. -/
theorem steps_iff_filled {cached : Cache} {last : Nat} (g : Segments last)
    (hcovers : T.Covers cached g) (hlast : last < 256) :
    T.Steps cached last ↔ T.Filled cached last := by
  have hfirst : ∀ i ≤ last / 8, T.Cached cached (8 * i) := by
    intro i hi
    have := g.first_le i hi
    refine hcovers (8 * i) ⟨by omega, ?_⟩
    rwa [Nat.mul_div_cancel_left i (by decide)]
  constructor
  · intro hsteps i hi
    by_cases hany : ∃ k, 8 * i < k ∧ k < 8 * i + 8 ∧ T.Cached cached k
    · obtain ⟨k, hik, hki, hk⟩ := hany
      have hnext : T.Cached cached (8 * i + 8) := hfirst (i + 1) (by omega)
      have hall : ∀ j < 8, T.Cached cached (8 * i + j) := by
        intro j hj
        induction j with
        | zero => exact hfirst i (by omega)
        | succ j ih =>
          obtain ⟨m, hm, hjm, hmc, hnone⟩ := hsteps (8 * i + j) (by omega) (ih (by omega))
          rcases hjm with rfl | rfl
          · exact hmc
          · rcases Nat.eq_zero_or_pos j with rfl | hj0
            · exact absurd hk (hnone k (by omega) (by omega))
            · exact absurd hnext (hnone _ (by omega) (by omega))
      refine .inr fun n hn hn' => ?_
      have h := hall (n - 8 * i) (by omega)
      rwa [Nat.add_sub_cancel' (by omega)] at h
    · exact .inl fun k h1 h2 hk => hany ⟨k, h1, h2, hk⟩
  · intro hfilled n hn hnc
    by_cases hsucc : T.Cached cached (n + 1)
    · exact ⟨n + 1, by omega, .inl rfl, hsucc, fun k h1 h2 => by omega⟩
    have hi : n / 8 < last / 8 := by
      by_contra hge
      have hseg : (n + 1) / 8 = last / 8 := by omega
      refine hsucc (hcovers (n + 1) ⟨hn, ?_⟩)
      rw [hseg, g.final]
      exact hn
    have hnext : T.Cached cached (8 * (n / 8 + 1)) := hfirst _ (by omega)
    have hin : n + 1 < 8 * (n / 8) + 8 := by
      by_contra hge
      have heq : 8 * (n / 8 + 1) = n + 1 := by omega
      exact hsucc (heq ▸ hnext)
    have hnone := (hfilled (n / 8) hi).resolve_right fun hall =>
      hsucc (hall (n + 1) (by omega) hin)
    have hn8 : n = 8 * (n / 8) := by
      by_contra hne
      exact hnone n (by omega) (by omega) hnc
    refine ⟨n + 8, by omega, .inr rfl, ?_, fun k h1 h2 => hnone k (by omega) (by omega)⟩
    have heq : n + 8 = 8 * (n / 8 + 1) := by omega
    exact heq ▸ hnext

/-- While sections are missing, the walk has to stop: at the ends of the table, at a section of
another network, or at a gap that is not seven sections wide. With all of them there it must not. -/
structure Settles (T : Table) (cached : Cache) {last : Nat} (g : Segments last) : Prop where
  covered : T.Covers cached g → last = 0 ∨ T.Alone cached last ∧ T.Filled cached last
  missing : ¬ T.Covers cached g → last ≠ 0 ∧
    (T.Cached cached 0 → T.Cached cached last → T.Alone cached last → ¬ T.Steps cached last)

/-- A table counts as complete exactly when all its sections are cached, if it settles. -/
theorem complete_iff_covers {d : DMX} {cached : Cache} {last : Nat} (g : Segments last)
    (hservice : d.currentService = T.extensionId.toNat) (hid : ∀ e ∈ cached.entries, e.1 < 2 ^ 64)
    (hlast : last < 256) :
    (d.checkComplete cached T.tableId T.extensionId.toNat T.onid.toNat T.tsid.toNat last = true ↔
      T.Covers cached g) ↔ T.Settles cached g := by
  rw [T.checkComplete_iff hservice hid hlast]
  by_cases hcovers : T.Covers cached g
  · have h0 : T.Cached cached 0 := hcovers 0 ⟨Nat.zero_le last, Nat.zero_le _⟩
    have hl : T.Cached cached last := hcovers last ⟨Nat.le_refl last, g.final.ge⟩
    rw [T.steps_iff_filled g hcovers hlast]
    constructor
    · intro h
      exact ⟨fun _ => (h.mpr hcovers).imp_right fun h => ⟨h.2.2.1, h.2.2.2⟩,
        fun hnot => absurd hcovers hnot⟩
    · intro h
      exact iff_of_true ((h.covered hcovers).imp_right fun h => ⟨h0, hl, h⟩) hcovers
  · constructor
    · intro h
      refine ⟨fun hc => absurd hc hcovers, fun _ =>
        ⟨fun hlast0 => hcovers (h.mp (.inl hlast0)), ?_⟩⟩
      exact fun h0 hl ha hs => hcovers (h.mp (.inr ⟨h0, hl, ha, hs⟩))
    · intro h
      obtain ⟨hlast0, hstop⟩ := h.missing hcovers
      refine iff_of_false ?_ hcovers
      rintro (hzero | ⟨h0, hl, ha, hs⟩)
      · exact hlast0 hzero
      · exact hstop h0 hl ha hs

/-- Two segments, the first of which ends early. -/
def sample : Table := ⟨0x50, .inr rfl, 7, 1, 1⟩

def sampleSegments : Segments 8 where
  segmentLast i := if i = 0 then 3 else 8
  first_le := by decide
  final := rfl

/-- The first section of each segment. -/
def sampleCache : Cache := (OrdMap.empty.set (sample.key 0) 1).set (sample.key 8) 1

def sampleDmx : DMX := (DMX.create 0x12 true).setCurrentService 7 true

theorem complete_iff_covers_sample :
    (sampleDmx.checkComplete sampleCache 0x50 7 1 1 8 = true ↔
      sample.Covers sampleCache sampleSegments) ↔ sample.Settles sampleCache sampleSegments :=
  complete_iff_covers sample sampleSegments rfl (by decide) (by decide)

/-- The step of eight hides that sections one to three are missing. -/
theorem complete_hides_missing : ¬ ∀ (T : Table) (d : DMX) (cached : Cache) (last : Nat)
    (g : Segments last), d.currentService = T.extensionId.toNat →
      (∀ e ∈ cached.entries, e.1 < 2 ^ 64) → last < 256 →
      (d.checkComplete cached T.tableId T.extensionId.toNat T.onid.toNat T.tsid.toNat last = true ↔
        T.Covers cached g) := by
  intro h
  have hcovers := (h sample sampleDmx sampleCache 8 sampleSegments rfl (by decide) (by decide)).mp
    (by decide)
  have hmissing : ∀ e ∈ sampleCache.entries, e.1 ≠ sample.key 1 := by decide
  obtain ⟨e, he, hek⟩ := hcovers 1 ⟨by decide, by decide⟩
  exact hmissing e he hek

end Table

end Tuxbox.Sectionsd
