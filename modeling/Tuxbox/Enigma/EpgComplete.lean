import Tuxbox.Enigma.EpgCache
import Tuxbox.Lib.Run

/-!
# When the reader of a source is done

The sections of one source come in any order. A table of a service has its sections in
segments of eight numbers.
-/

namespace Tuxbox.Enigma.Epg

open Buffer

/-! ## Keys -/

namespace Eit

/-- The section of a table of a service. -/
def SameTable (a b : Eit) : Prop := a.table_id = b.table_id ∧ a.service = b.service

def SameSection (a b : Eit) : Prop := a.SameTable b ∧ a.section_number = b.section_number

theorem key_eq (e : Eit) (n : Nat) :
    e.key n = e.table_id.toNat * 2 ^ 24 + (e.service.sid * 2 ^ 8 + n % 2 ^ 8) := by
  have hlo := e.service_id_lo.toNat_lt
  have hhi := e.service_id_hi.toNat_lt
  have hmod := Nat.mod_lt n (show 0 < 2 ^ 8 by decide)
  have hmask : n &&& 0xFF = n % 2 ^ 8 := Nat.and_two_pow_sub_one_eq_mod n 8
  have hlow : e.service_id_lo.toNat <<< 8 ||| n % 2 ^ 8 =
      e.service_id_lo.toNat * 2 ^ 8 + n % 2 ^ 8 := by
    rw [← Nat.shiftLeft_add_eq_or_of_lt hmod, Nat.shiftLeft_eq]
  have hservice : e.service_id_hi.toNat <<< 16 ||| (e.service_id_lo.toNat * 2 ^ 8 + n % 2 ^ 8) =
      HILO e.service_id_hi e.service_id_lo * 2 ^ 8 + n % 2 ^ 8 := by
    rw [← Nat.shiftLeft_add_eq_or_of_lt (by omega), Nat.shiftLeft_eq]
    unfold HILO
    omega
  unfold key
  rw [hmask, hlow, hservice, ← Nat.shiftLeft_add_eq_or_of_lt (by unfold HILO; omega),
    Nat.shiftLeft_eq]
  rfl

theorem sid_lt (e : Eit) : e.service.sid < 2 ^ 16 := by
  have hlo := e.service_id_lo.toNat_lt
  have hhi := e.service_id_hi.toNat_lt
  unfold service HILO
  dsimp only
  omega

/-- A key tells the table, the service id and the section. -/
theorem key_inj {a b : Eit} {n m : Nat} (hn : n < 256) (hm : m < 256) (h : a.key n = b.key m) :
    a.table_id = b.table_id ∧ a.service.sid = b.service.sid ∧ n = m := by
  have ha := a.sid_lt
  have hb := b.sid_lt
  rw [key_eq, key_eq] at h
  refine ⟨UInt8.toNat_inj.mp ?_, ?_, ?_⟩ <;> omega

theorem key_congr {a b : Eit} (htable : a.table_id = b.table_id)
    (hsid : a.service.sid = b.service.sid) (n : Nat) : a.key n = b.key n := by
  rw [key_eq, key_eq, htable, hsid]

end Eit

/-! ## What is expected -/

theorem subset_foldl {f : TidMap → Nat → TidMap} (hf : ∀ s i, s ⊆ f s i) (l : List Nat)
    (s : TidMap) : s ⊆ l.foldl f s := by
  induction l generalizing s with
  | nil => exact fun _ h => h
  | cons i l ih => exact (hf s i).trans (ih (f s i))

/-- What one round adds is there after all of them. -/
theorem mem_foldl {f : TidMap → Nat → TidMap} (hf : ∀ s i, s ⊆ f s i) {l : List Nat} {i k : Nat}
    (hi : i ∈ l) (hk : ∀ s, k ∈ f s i) (s : TidMap) : k ∈ l.foldl f s := by
  induction l generalizing s with
  | nil => exact nomatch hi
  | cons j l ih =>
    rcases List.mem_cons.mp hi with rfl | hi
    · exact subset_foldl hf l _ (hk s)
    · exact ih hi (f s j)

theorem subset_calcStep (e : Eit) (s : TidMap) (i : Nat) : s ⊆ calcStep e s i := by
  unfold calcStep
  split
  · exact subset_foldl (fun _ _ => Finset.subset_insert _ _) _ s
  · exact Finset.subset_insert _ _

theorem subset_calcSections (e : Eit) (incr : Nat) (s : TidMap) : s ⊆ calcSections e incr s :=
  (Finset.subset_insert _ s).trans (subset_foldl (subset_calcStep e) _ _)

/-- A section that is the first of a segment, or any section where there are no segments. -/
theorem mem_rounds {incr i last : Nat} (hincr : 0 < incr) (hdvd : incr ∣ i) (hi : i ≤ last) :
    i ∈ List.range' 0 (last / incr + 1) incr := by
  obtain ⟨k, rfl⟩ := hdvd
  rw [List.mem_range']
  refine ⟨k, Nat.lt_succ_of_le ?_, by omega⟩
  rw [Nat.le_div_iff_mul_le hincr, Nat.mul_comm]
  exact hi

section
variable {e : Eit} {incr i : Nat}

/-- What is expected with a section. -/
theorem first_mem_calcSections (hincr : 0 < incr) (hdvd : incr ∣ i)
    (hi : i ≤ e.last_section_number.toNat) (s : TidMap) : e.key i ∈ calcSections e incr s := by
  by_cases hown : i = e.section_number.toNat
  · subst hown
    exact subset_foldl (subset_calcStep e) _ _ (Finset.mem_insert_self _ s)
  · refine mem_foldl (subset_calcStep e) (mem_rounds hincr hdvd hi) (fun s => ?_) _
    rw [calcStep, if_neg hown]
    exact Finset.mem_insert_self _ s

/-- With the first section of a segment the others are expected. -/
theorem rest_mem_calcSections (hincr : 0 < incr) (hdvd : incr ∣ e.section_number.toNat)
    (hlast : e.section_number ≤ e.last_section_number) {n : Nat}
    (hfirst : e.section_number.toNat ≤ n) (hn : n ≤ e.segment_last_section_number.toNat)
    (s : TidMap) : e.key n ∈ calcSections e incr s := by
  refine mem_foldl (subset_calcStep e) (mem_rounds hincr hdvd hlast) (fun s => ?_) _
  rw [calcStep, if_pos rfl]
  have hmem : n ∈ List.range' e.section_number.toNat
      (e.segment_last_section_number.toNat + 1 - e.section_number.toNat) := by
    rw [List.mem_range'_1]
    omega
  exact mem_foldl (f := fun calced x => insert (e.key x) calced)
    (fun _ _ => Finset.subset_insert _ _) hmem (fun s => Finset.mem_insert_self (e.key n) s) s

end

/-! ## A section -/

theorem updated_sections (env : Environment) (service : EpgKey) (source : Nat) (c : EpgCache) :
    (c.updated env service source).sections = c.sections := by
  unfold EpgCache.updated
  split
  · rfl
  · split <;> rfl

theorem readEvents_sections {env : Environment} {data : Str} {source len ptr : Nat}
    {service : EpgKey} {c d : EpgCache}
    (h : c.readEvents env data source len ptr service = some d) :
    d.sections = c.sections := by
  unfold EpgCache.readEvents at h
  obtain ⟨first, -, h⟩ := Option.bind_eq_some_iff.mp h
  obtain ⟨r, -, h⟩ := Option.bind_eq_some_iff.mp h
  obtain rfl := Option.some_inj.mp h
  exact updated_sections env service source _

theorem eq_of_complete {source : Nat} {c : EpgCache} (h : c.complete source = true) :
    (c.sections (source / 2)).seen = (c.sections (source / 2)).calced := by
  unfold EpgCache.complete at h
  rw [Bool.and_eq_true, decide_eq_true_eq] at h
  exact h.2

section
variable {source : Nat} {env : Environment} {data : Str} {c d : EpgCache} {e : Eit} {ret : Int}

/-- What a section does to those of its source. -/
theorem sectionRead_sections (hsource : source ≠ SCHEDULE_MHW) (hstate : c.state ≤ 1)
    (he : readEit data = some e) (h : c.sectionRead env data source = some (ret, d)) :
    d.sections (source / 2) = ((c.sections (source / 2)).enter e source).2 ∧
      (ret = -ECANCELED → (d.sections (source / 2)).seen = (d.sections (source / 2)).calced) := by
  have hown : (c.enter e source).2.sections (source / 2) =
      ((c.sections (source / 2)).enter e source).2 := by
    unfold EpgCache.enter
    rw [if_neg hsource]
    exact Function.update_self _ _ _
  have hret : ∀ {c : EpgCache} {r : Int}, r = -ECANCELED →
      r = (if c.complete source then -ECANCELED else 0) →
      (c.sections (source / 2)).seen = (c.sections (source / 2)).calced := by
    intro c r hr heq
    split at heq
    · rename_i hcomplete
      exact eq_of_complete hcomplete
    · exact absurd (heq.symm.trans hr) (by decide)
  unfold EpgCache.sectionRead at h
  rw [if_neg (by omega), he, Option.bind_eq_bind, Option.bind_some] at h
  rcases hentered : c.enter e source with ⟨seen, c1⟩
  rw [hentered] at h hown
  dsimp only at h hown
  split at h
  · split at h
    · obtain ⟨rfl, rfl⟩ := Prod.mk.inj (Option.some_inj.mp h)
      exact ⟨hown, fun hr => absurd hr (by decide)⟩
    · obtain ⟨c2, hread, h⟩ := Option.bind_eq_some_iff.mp h
      obtain ⟨hr, rfl⟩ := Prod.mk.inj (Option.some_inj.mp h)
      rw [← hown, ← readEvents_sections hread]
      exact ⟨rfl, fun h => hret h hr.symm⟩
  · obtain ⟨hr, rfl⟩ := Prod.mk.inj (Option.some_inj.mp h)
    exact ⟨hown, fun h => hret h hr.symm⟩

end

/-! ## Streams -/

/-- The numbers of a table: its segments have eight each, and some have fewer sections. -/
structure Numbers where
  last : Nat
  segmentLast : Nat → Nat

def Numbers.Transmits (g : Numbers) (n : Nat) : Prop := n ≤ g.last ∧ n ≤ g.segmentLast (n / 8)

/-- A section of a table that has these numbers. -/
def Eit.OfTable (numbers : Byte → EpgKey → Numbers) (e : Eit) : Prop :=
  e.section_number ≤ e.last_section_number ∧
    e.last_section_number.toNat = (numbers e.table_id e.service).last ∧
    e.segment_last_section_number.toNat =
      (numbers e.table_id e.service).segmentLast (e.section_number.toNat / 8)

/-- What comes from the demultiplexer, and what is so at that time. -/
structure Reading where
  state : Int
  env : Environment
  data : Str

/-- The section belongs to a table that has these numbers. -/
def Reading.Encodes (numbers : Byte → EpgKey → Numbers) (r : Reading) : Prop :=
  ∀ e, readEit r.data = some e → e.OfTable numbers

/-- The cache, the sections that came, and those of them that were not ignored. -/
structure Stream where
  cache : EpgCache
  received : List Eit
  processed : List Eit

namespace Stream

variable {source : Nat}

def start (mhwepg : Bool) (c : EpgCache) : Stream := ⟨c.startEPG mhwepg, [], []⟩

def sections (source : Nat) (s : Stream) : Sections := s.cache.sections (source / 2)

/-- Whether a section is passed as seen. -/
def ignores (source : Nat) (e : Eit) (s : Stream) : Bool := e.sectionNo ∈ (s.sections source).seen

def read (source : Nat) (s : Stream) (r : Reading) : Option (Int × Stream) := do
  let e ← readEit r.data
  let (ret, c) ← { s.cache with state := r.state }.sectionRead r.env r.data source
  pure (ret,
    if r.state > 1 then { s with cache := c }
    else ⟨c, e :: s.received, if s.ignores source e then s.processed else e :: s.processed⟩)

def step (source : Nat) (s : Stream) (r : Reading) : Option Stream := (s.read source r).map Prod.snd

/-- No other service of the table had the same id before. -/
def Unmixed (s : Stream) (r : Reading) : Prop :=
  ∀ e, readEit r.data = some e → ∀ a ∈ s.received, a.table_id = e.table_id →
    a.service.sid = e.service.sid → a.service = e.service

/-- The section is not lost, and the reader does not stop too early. -/
structure Keeps (source : Nat) (numbers : Byte → EpgKey → Numbers) (s : Stream) (r : Reading) :
    Prop where
  processed : r.state ≤ 1 → ∀ e, readEit r.data = some e → s.ignores source e →
    ∃ p ∈ s.processed, p.SameSection e
  complete : r.state ≤ 1 → ∀ t, s.read source r = some (-ECANCELED, t) →
    ∀ e ∈ t.received, ∀ n, (numbers e.table_id e.service).Transmits n →
      ∃ p ∈ t.processed, p.SameTable e ∧ p.section_number.toNat = n

/-! ## What a run keeps -/

/-- A section says what to expect whatever was expected before. -/
def Expects (source : Nat) (p : Eit) (k : Nat) : Prop :=
  ∀ t, k ∈ calcSections p (if source = NOWNEXT then 1 else 8) t

structure Noted (source : Nat) (numbers : Byte → EpgKey → Numbers) (s : Stream) : Prop where
  seen : ∀ k ∈ (s.sections source).seen, ∃ p ∈ s.processed, p.sectionNo = k
  calced : ∀ p ∈ s.processed, ∀ k, Expects source p k → k ∈ (s.sections source).calced
  received : ∀ e ∈ s.received, ∃ p ∈ s.processed, p.SameSection e
  processed : ∀ p ∈ s.processed, p ∈ s.received
  ofTable : ∀ e ∈ s.received, e.OfTable numbers
  unmixed : ∀ a ∈ s.received, ∀ b ∈ s.received, a.table_id = b.table_id →
    a.service.sid = b.service.sid → a.service = b.service

variable {numbers : Byte → EpgKey → Numbers} {s t : Stream} {r : Reading} {ret : Int}

theorem noted_start (mhwepg : Bool) (c : EpgCache) (hsource : source / 2 < 3) :
    (start mhwepg c).Noted source numbers := by
  have hempty : (start mhwepg c).sections source = ⟨∅, ∅⟩ := if_pos hsource
  constructor
  · rw [hempty]
    exact fun _ h => absurd h (Finset.notMem_empty _)
  all_goals exact fun _ h => nomatch h

/-- A section with the key of one that was processed is that one. -/
theorem same_of_key {e p : Eit}
    (hkey : p.sectionNo = e.sectionNo)
    (hunmixed : p.table_id = e.table_id → p.service.sid = e.service.sid → p.service = e.service) :
    p.SameSection e := by
  obtain ⟨htable, hsid, hnumber⟩ :=
    Eit.key_inj p.section_number.toNat_lt e.section_number.toNat_lt hkey
  exact ⟨⟨htable, hunmixed htable hsid⟩, UInt8.toNat_inj.mp hnumber⟩

theorem ignored_processed (h : s.Noted source numbers) (hr : s.Unmixed r) {e : Eit}
    (he : readEit r.data = some e) (hignored : s.ignores source e) :
    ∃ p ∈ s.processed, p.SameSection e := by
  obtain ⟨p, hp, hkey⟩ := h.seen _ (of_decide_eq_true hignored)
  exact ⟨p, hp, same_of_key hkey (hr e he p (h.processed p hp))⟩

theorem read_eq (h : s.read source r = some (ret, t)) : ∃ e c, readEit r.data = some e ∧
    { s.cache with state := r.state }.sectionRead r.env r.data source = some (ret, c) ∧
    t = if r.state > 1 then { s with cache := c }
      else ⟨c, e :: s.received, if s.ignores source e then s.processed else e :: s.processed⟩ := by
  unfold read at h
  obtain ⟨e, he, h⟩ := Option.bind_eq_some_iff.mp h
  obtain ⟨⟨ret', c⟩, hc, h⟩ := Option.bind_eq_some_iff.mp h
  obtain ⟨rfl, rfl⟩ := Prod.mk.inj (Option.some_inj.mp h)
  exact ⟨e, c, he, hc, rfl⟩

/-- A reader that is not needed any more reads nothing. -/
theorem noted_done (h : s.Noted source numbers) {c : EpgCache} (hstate : r.state > 1)
    (hc : { s.cache with state := r.state }.sectionRead r.env r.data source = some (ret, c)) :
    ({ s with cache := c } : Stream).Noted source numbers := by
  unfold EpgCache.sectionRead at hc
  rw [if_pos hstate] at hc
  obtain ⟨-, rfl⟩ := Prod.mk.inj (Option.some_inj.mp hc)
  exact ⟨h.seen, h.calced, h.received, h.processed, h.ofTable, h.unmixed⟩

section
variable {e : Eit} {c : EpgCache}

theorem unmixed_cons (h : s.Noted source numbers) (hr : s.Unmixed r)
    (he : readEit r.data = some e) : ∀ a ∈ e :: s.received, ∀ b ∈ e :: s.received,
      a.table_id = b.table_id → a.service.sid = b.service.sid → a.service = b.service := by
  intro a ha b hb htable hsid
  rw [List.mem_cons] at ha hb
  rcases ha with rfl | ha <;> rcases hb with rfl | hb
  · rfl
  · exact (hr a he b hb htable.symm hsid.symm).symm
  · exact hr b he a ha htable hsid
  · exact h.unmixed a ha b hb htable hsid

theorem ofTable_cons (h : s.Noted source numbers) (hr : r.Encodes numbers)
    (he : readEit r.data = some e) : ∀ a ∈ e :: s.received, a.OfTable numbers := by
  intro a ha
  rcases List.mem_cons.mp ha with rfl | ha
  · exact hr a he
  · exact h.ofTable a ha

theorem noted_ignored (h : s.Noted source numbers) (hencodes : r.Encodes numbers)
    (hunmixed : s.Unmixed r) (he : readEit r.data = some e) (hignored : s.ignores source e)
    (hc : c.sections (source / 2) = ((s.sections source).enter e source).2) :
    (⟨c, e :: s.received, s.processed⟩ : Stream).Noted source numbers := by
  have hsections : c.sections (source / 2) = s.sections source := by
    rw [hc, Sections.enter, if_pos (of_decide_eq_true hignored)]
  constructor
  · exact fun k hk => h.seen k (by rwa [sections, hsections] at hk)
  · intro p hp k hk
    have hmem := h.calced p hp k hk
    rwa [sections, hsections]
  · intro a ha
    rcases List.mem_cons.mp ha with rfl | ha
    · exact ignored_processed h hunmixed he hignored
    · exact h.received a ha
  · exact fun p hp => List.mem_cons_of_mem e (h.processed p hp)
  · exact ofTable_cons h hencodes he
  · exact unmixed_cons h hunmixed he

theorem noted_new (h : s.Noted source numbers) (hencodes : r.Encodes numbers)
    (hunmixed : s.Unmixed r) (he : readEit r.data = some e) (hnew : ¬ s.ignores source e)
    (hc : c.sections (source / 2) = ((s.sections source).enter e source).2) :
    (⟨c, e :: s.received, e :: s.processed⟩ : Stream).Noted source numbers := by
  have hsections : c.sections (source / 2) = ⟨insert e.sectionNo (s.sections source).seen,
      calcSections e (if source = NOWNEXT then 1 else 8) (s.sections source).calced⟩ := by
    rw [hc, Sections.enter, if_neg (fun hmem => hnew (decide_eq_true hmem))]
  constructor
  · intro k hk
    rw [sections, hsections, Finset.mem_insert] at hk
    rcases hk with rfl | hk
    · exact ⟨e, List.mem_cons_self, rfl⟩
    · obtain ⟨p, hp, hkey⟩ := h.seen k hk
      exact ⟨p, List.mem_cons_of_mem e hp, hkey⟩
  · intro p hp k hk
    rw [sections, hsections]
    rcases List.mem_cons.mp hp with rfl | hp
    · exact hk _
    · exact subset_calcSections e _ _ (h.calced p hp k hk)
  · intro a ha
    rcases List.mem_cons.mp ha with rfl | ha
    · exact ⟨a, List.mem_cons_self, ⟨rfl, rfl⟩, rfl⟩
    · obtain ⟨p, hp, hsame⟩ := h.received a ha
      exact ⟨p, List.mem_cons_of_mem e hp, hsame⟩
  · intro p hp
    rcases List.mem_cons.mp hp with rfl | hp
    · exact List.mem_cons_self
    · exact List.mem_cons_of_mem e (h.processed p hp)
  · exact ofTable_cons h hencodes he
  · exact unmixed_cons h hunmixed he

end

theorem noted_read (hsource : source ≠ SCHEDULE_MHW) (h : s.Noted source numbers)
    (hencodes : r.Encodes numbers) (hunmixed : s.Unmixed r)
    (hread : s.read source r = some (ret, t)) : t.Noted source numbers := by
  obtain ⟨e, c, he, hc, rfl⟩ := read_eq hread
  by_cases hstate : r.state > 1
  · rw [if_pos hstate]
    exact noted_done h hstate hc
  · rw [if_neg hstate]
    have hsections := (sectionRead_sections hsource (Int.not_lt.mp hstate) he hc).1
    by_cases hignored : s.ignores source e
    · rw [if_pos hignored]
      exact noted_ignored h hencodes hunmixed he hignored hsections
    · rw [if_neg hignored]
      exact noted_new h hencodes hunmixed he hignored hsections

/-- A section of a table that came, by its key. -/
theorem processed_of_key (h : s.Noted source numbers) {a : Eit} (ha : a ∈ s.received) {n : Nat}
    (hn : n < 256) (hkey : a.key n ∈ (s.sections source).seen) :
    ∃ p ∈ s.processed, p.SameTable a ∧ p.section_number.toNat = n := by
  obtain ⟨p, hp, hp_key⟩ := h.seen _ hkey
  obtain ⟨htable, hsid, hnumber⟩ := Eit.key_inj p.section_number.toNat_lt hn hp_key
  exact ⟨p, hp, ⟨htable, h.unmixed p (h.processed p hp) a ha htable hsid⟩, hnumber⟩

/-- Where all that is expected was seen, every section of every table was processed. -/
theorem covers_of_seen (h : s.Noted source numbers)
    (hseen : (s.sections source).seen = (s.sections source).calced) {e : Eit}
    (he : e ∈ s.received) {n : Nat} (hn : (numbers e.table_id e.service).Transmits n) :
    ∃ p ∈ s.processed, p.SameTable e ∧ p.section_number.toNat = n := by
  obtain ⟨p, hp, ⟨htable, hservice⟩, -⟩ := h.received e he
  have hpr := h.processed p hp
  obtain ⟨-, hlast, -⟩ := h.ofTable p hpr
  rw [← htable, ← hservice] at hn
  obtain ⟨hnlast, hnsegment⟩ := hn
  rw [← hlast] at hnlast
  have hbyte := p.last_section_number.toNat_lt
  suffices hkey : p.key n ∈ (s.sections source).seen by
    obtain ⟨q, hq, hsame, hnumber⟩ := processed_of_key h hpr (by omega) hkey
    exact ⟨q, hq, ⟨hsame.1.trans htable, hsame.2.trans hservice⟩, hnumber⟩
  rw [hseen]
  by_cases hsource : source = NOWNEXT
  · refine h.calced p hp _ fun t => ?_
    rw [if_pos hsource]
    exact first_mem_calcSections Nat.one_pos (one_dvd n) hnlast t
  · -- the first section of the segment is expected, and was seen
    have hfirst : p.key (8 * (n / 8)) ∈ (s.sections source).seen := by
      rw [hseen]
      refine h.calced p hp _ fun t => ?_
      rw [if_neg hsource]
      exact first_mem_calcSections (by decide) (Nat.dvd_mul_right 8 _) (by omega) t
    obtain ⟨q, hq, hsame, hnumber⟩ := processed_of_key h hpr (by omega) hfirst
    obtain ⟨hqnumber, -, hqsegment⟩ := h.ofTable q (h.processed q hq)
    rw [hsame.1, hsame.2, hnumber, Nat.mul_div_cancel_left _ (by decide)] at hqsegment
    rw [← Eit.key_congr hsame.1 (congrArg EpgKey.sid hsame.2)]
    refine h.calced q hq _ fun t => ?_
    rw [if_neg hsource]
    exact rest_mem_calcSections (by decide) (hnumber ▸ Nat.dvd_mul_right 8 _) hqnumber (by omega)
      (by omega) t

theorem keeps_of_noted (hsource : source ≠ SCHEDULE_MHW) (h : s.Noted source numbers)
    (hencodes : r.Encodes numbers) (hunmixed : s.Unmixed r) : s.Keeps source numbers r := by
  constructor
  · intro _ e he hignored
    exact ignored_processed h hunmixed he hignored
  · intro hstate t hread e he n hn
    have ht := noted_read hsource h hencodes hunmixed hread
    refine covers_of_seen ht ?_ he hn
    obtain ⟨a, c, ha, hc, rfl⟩ := read_eq hread
    rw [if_neg (Int.not_lt.mpr hstate)]
    exact (sectionRead_sections hsource hstate ha hc).2 rfl

theorem noted_of_runs (hsource : source ≠ SCHEDULE_MHW) (hindex : source / 2 < 3) {mhwepg : Bool}
    {c : EpgCache}
    (h : Runs (step source) (fun s r => r.Encodes numbers ∧ s.Unmixed r) (start mhwepg c) s) :
    s.Noted source numbers := by
  refine h.invariant (fun s r t hs hr hstep => ?_) (noted_start mhwepg c hindex)
  obtain ⟨⟨ret, u⟩, hread, rfl⟩ := Option.map_eq_some_iff.mp hstep
  exact noted_read hsource hs hr.1 hr.2 hread

/-- No section is lost, and no reader stops too early, where no two services of one table that
come have the same id. -/
theorem keeps_sections (hsource : source = NOWNEXT ∨ source = SCHEDULE ∨ source = SCHEDULE_OTHER)
    {mhwepg : Bool} {c : EpgCache}
    (h : Runs (step source) (fun s r => r.Encodes numbers ∧ s.Unmixed r) (start mhwepg c) s)
    (hencodes : r.Encodes numbers) (hunmixed : s.Unmixed r) : s.Keeps source numbers r := by
  have hmhw : source ≠ SCHEDULE_MHW ∧ source / 2 < 3 := by
    rcases hsource with rfl | rfl | rfl <;> decide
  exact keeps_of_noted hmhw.1 (noted_of_runs hmhw.1 hmhw.2 h) hencodes hunmixed

/-- A section without events, of the service 1 of some transport stream. Its table has two. -/
def sampleReading (tsid number : Byte) : Reading :=
  ⟨0, ⟨0, 0, fun _ => true⟩, [0x60, 0xF0, 0x0B, 0, 1, 0xC1, number, 1, 0, tsid, 0, 1, 1, 0x60]⟩

def sampleEit (tsid : Nat) (number : Byte) : Eit := ⟨0x60, 11, 0, 1, number, 1, tsid, 1, 1, 0x60⟩

def sampleNumbers (_ : Byte) (_ : EpgKey) : Numbers := ⟨1, fun _ => 1⟩

theorem encodes_sample (tsid number : Byte) (h : number ≤ 1) :
    (sampleReading tsid number).Encodes sampleNumbers := by
  intro e he
  obtain rfl := Option.some_inj.mp he
  exact ⟨h, rfl, rfl⟩

theorem received_sample {s t : Stream} {number : Byte}
    (h : step SCHEDULE_OTHER s (sampleReading 1 number) = some t) :
    t.received = sampleEit 1 number :: s.received := by
  obtain ⟨⟨ret, u⟩, hread, rfl⟩ := Option.map_eq_some_iff.mp h
  obtain ⟨a, c, ha, -, rfl⟩ := read_eq hread
  obtain rfl := Option.some_inj.mp ha
  rfl

/-- Both sections of a table, and the first one again. -/
theorem keeps_repeated : ∃ s, Runs (step SCHEDULE_OTHER)
      (fun s r => r.Encodes sampleNumbers ∧ s.Unmixed r) (start false .initial) s ∧
    s.received = [sampleEit 1 1, sampleEit 1 0] ∧
    s.Keeps SCHEDULE_OTHER sampleNumbers (sampleReading 1 0) := by
  have hsome : ((step SCHEDULE_OTHER (start false .initial) (sampleReading 1 0)).bind
      fun s => step SCHEDULE_OTHER s (sampleReading 1 1)).isSome = true := by decide
  obtain ⟨s, hs⟩ := Option.isSome_iff_exists.mp hsome
  obtain ⟨u, hu, hs⟩ := Option.bind_eq_some_iff.mp hs
  have hfirst : u.received = [sampleEit 1 0] := received_sample hu
  have hboth : s.received = [sampleEit 1 1, sampleEit 1 0] := by
    rw [received_sample hs, hfirst]
  have hencodes (number : Byte) (h : number ≤ 1) := encodes_sample 1 number h
  have hunmixed {s : Stream} {number : Byte} (hs : s.received ⊆ [sampleEit 1 1, sampleEit 1 0]) :
      s.Unmixed (sampleReading 1 number) := by
    intro e he a ha _ _
    obtain rfl := Option.some_inj.mp he
    have hservice : ∀ a ∈ [sampleEit 1 1, sampleEit 1 0], a.service = (sampleEit 1 0).service := by
      decide
    exact hservice a (hs ha)
  have hrun : Runs (step SCHEDULE_OTHER) (fun s r => r.Encodes sampleNumbers ∧ s.Unmixed r)
      (start false .initial) s := by
    have hstart : (start false .initial).Unmixed (sampleReading 1 0) :=
      hunmixed (List.nil_subset _)
    apply (Runs.refl.tail (sampleReading 1 0) ⟨hencodes 0 (by decide), hstart⟩ hu).tail
      (sampleReading 1 1) ?_ hs
    exact ⟨hencodes 1 (by decide), hunmixed (by simp [hfirst])⟩
  refine ⟨s, hrun, hboth, ?_⟩
  exact keeps_sections (.inr (.inr rfl)) hrun (hencodes 0 (by decide)) (hunmixed (by simp [hboth]))

/-- The section of the other stream is passed, though none of its service was processed. -/
theorem other_stream_ignored : ∃ s, Runs (step SCHEDULE_OTHER)
      (fun _ r => r.Encodes sampleNumbers) (start false .initial) s ∧
    (sampleReading 2 0).Encodes sampleNumbers ∧
    ¬ s.Keeps SCHEDULE_OTHER sampleNumbers (sampleReading 2 0) := by
  refine ⟨_, Runs.refl.tail (sampleReading 1 0) (encodes_sample 1 0 (by decide)) rfl,
    encodes_sample 2 0 (by decide), fun h => ?_⟩
  obtain ⟨p, hp, ⟨-, hservice⟩, -⟩ := h.processed (by decide) (sampleEit 2 0) rfl rfl
  obtain rfl := List.mem_singleton.mp hp
  exact absurd (congrArg EpgKey.tsid hservice) (by decide)

end Stream

end Tuxbox.Enigma.Epg
