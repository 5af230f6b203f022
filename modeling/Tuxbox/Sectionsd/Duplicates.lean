import Tuxbox.Sectionsd.Dmx
import Tuxbox.Lib.Run

/-! Which sections the shared cache withholds. Its key has the network and the
transport stream of EIT sections only; an SDT section is told apart by its
transport stream, which is its table extension, but not by its network. -/
namespace Tuxbox.Sectionsd

/-! ## What a section is about -/

def isEit (tableId : Nat) : Prop := 0x4e ≤ tableId ∧ tableId ≤ 0x6f

def isSdt (tableId : Nat) : Prop := tableId = 0x42 ∨ tableId = 0x46

instance (tableId : Nat) : Decidable (isEit tableId) := inferInstanceAs (Decidable (_ ∧ _))

instance (tableId : Nat) : Decidable (isSdt tableId) := inferInstanceAs (Decidable (_ ∨ _))

/-- Zero for the tables that have none. -/
def Section.originalNetworkId (s : Section) : Nat :=
  if isEit s.tableId then s.word 10 else if isSdt s.tableId then s.word 8 else 0

def Section.transportStreamId (s : Section) : Nat :=
  if isEit s.tableId then s.word 8 else if isSdt s.tableId then s.tableExtensionId else 0

/-- The same section, possibly in another version. -/
structure SameSection (s t : Section) : Prop where
  table : s.tableId = t.tableId
  ext : s.tableExtensionId = t.tableExtensionId
  onid : s.originalNetworkId = t.originalNetworkId
  tsid : s.transportStreamId = t.transportStreamId
  number : s.sectionNumber = t.sectionNumber

/-- Two SDT sections of different networks that the cache takes for one. -/
structure Clash (s t : Section) : Prop where
  sdt : isSdt t.tableId
  table : s.tableId = t.tableId
  ext : s.tableExtensionId = t.tableExtensionId
  number : s.sectionNumber = t.sectionNumber
  version : s.versionNumber = t.versionNumber
  onid : s.originalNetworkId ≠ t.originalNetworkId

/-- The tables of the object's pid. -/
def Inst.carries (i : Inst) (tableId : Nat) : Prop :=
  match i with
  | .eit | .cn => isEit tableId
  | .sdt => isSdt tableId ∨ tableId = 0x4a
  | .nit => tableId = 0x40 ∨ tableId = 0x41

/-- Headers, fixed loops and CRC. -/
def minLength (tableId : Nat) : Nat := if isEit tableId then 15 else if isSdt tableId then 12 else 13

/-- A current section that the object can read through its present filter. -/
structure WellFormed (d : DMX) (i : Inst) (s : Section) : Prop where
  reads : d.dummyFilter = false
  filtered : (s.tableId ^^^ d.currentFilter.filter.toNat) &&& d.currentFilter.mask.toNat = 0
  table : i.carries s.tableId
  complete : s.length = s.sectionLength + 3
  long : minLength s.tableId ≤ s.sectionLength
  extended : s.sectionSyntaxIndicator ≠ 0
  current : s.currentNextIndicator ≠ 0

/-- The section was returned before, and none of its other versions since. -/
def Duplicate (returned : List (Inst × Section)) (s : Section) : Prop :=
  ∃ before p after, returned = before ++ p :: after ∧ SameSection p.2 s ∧
    p.2.versionNumber = s.versionNumber ∧ ∀ q ∈ after, ¬ SameSection q.2 s

/-- What is read is a well-formed section, a timeout or an error. -/
def OnStream (w : Demux) : Demux.Act → Prop
  | .getSection i (some s) _ _ =>
    (w.dmx i).dummyFilter = true ∨ s = [] ∨ WellFormed (w.dmx i) i s
  | _ => True

def NoClash (w : Demux) : Demux.Act → Prop
  | .getSection _ (some s) _ _ => ∀ p ∈ w.seen, ¬ Clash p.2 s
  | _ => True

/-! ## The key -/

def Inst.sectionsId (i : Inst) (s : Section) : Nat := i.dmx.sectionsId s

theorem byte_lt (s : Section) (i : Nat) : s.byte i < 256 := UInt8.toNat_lt _

theorem word_lt (s : Section) (i : Nat) : s.word i < 65536 := by
  have h1 := byte_lt s i
  have h2 := byte_lt s (i + 1)
  unfold Section.word
  omega

theorem createSectionsId_eq {t e n o x : Nat} (he : e < 65536) (hn : n < 256) (ho : o < 65536)
    (hx : x < 65536) :
    createSectionsId t e n o x = t * 2 ^ 56 + (e * 2 ^ 40 + (n * 2 ^ 32 + (o * 2 ^ 16 + x))) := by
  unfold createSectionsId
  rw [or_shift o (by omega), or_shift n (by omega), or_shift e (by omega), or_shift t (by omega)]

/-- The key determines what it is made of. -/
theorem sectionsId_eq_iff (i j : Inst) (s t : Section) :
    i.sectionsId s = j.sectionsId t ↔
      s.tableId = t.tableId ∧ s.tableExtensionId = t.tableExtensionId ∧
      s.sectionNumber = t.sectionNumber ∧ i.dmx.cacheOnid s = j.dmx.cacheOnid t ∧
      i.dmx.cacheTsid s = j.dmx.cacheTsid t := by
  have honid : ∀ (d : DMX) (s : Section), d.cacheOnid s < 65536 := by
    intro d s
    have h := word_lt s 10
    unfold DMX.cacheOnid
    split <;> omega
  have htsid : ∀ (d : DMX) (s : Section), d.cacheTsid s < 65536 := by
    intro d s
    have h := word_lt s 8
    unfold DMX.cacheTsid
    split <;> omega
  have hs := word_lt s 3
  have ht := word_lt t 3
  have ns := byte_lt s 6
  have nt := byte_lt t 6
  have os := honid i.dmx s
  have ot := honid j.dmx t
  have xs := htsid i.dmx s
  have xt := htsid j.dmx t
  unfold Inst.sectionsId DMX.sectionsId Section.tableExtensionId Section.sectionNumber
  rw [createSectionsId_eq hs ns os xs, createSectionsId_eq ht nt ot xt]
  constructor
  · intro h
    omega
  · rintro ⟨h1, h2, h3, h4, h5⟩
    rw [h1, h2, h3, h4, h5]

/-- A table belongs to one pid only, so that the tables decide which part of
the header the key takes. -/
theorem cacheOnid_eq {i : Inst} {s : Section} (h : i.carries s.tableId) :
    i.dmx.cacheOnid s = (if isEit s.tableId then s.word 10 else 0) ∧
      i.dmx.cacheTsid s = (if isEit s.tableId then s.word 8 else 0) := by
  have hpid : i.dmx.pID = 0x12 ↔ isEit s.tableId := by
    cases i with
    | eit | cn =>
      unfold Inst.carries at h
      exact ⟨fun _ => h, fun _ => rfl⟩
    | sdt =>
      have hne : ¬ isEit s.tableId := by
        unfold Inst.carries isSdt at h
        unfold isEit
        omega
      exact ⟨fun hp => absurd hp (by decide), fun he => absurd he hne⟩
    | nit =>
      have hne : ¬ isEit s.tableId := by
        unfold Inst.carries at h
        unfold isEit
        omega
      exact ⟨fun hp => absurd hp (by decide), fun he => absurd he hne⟩
  unfold DMX.cacheOnid DMX.cacheTsid
  simp only [hpid, and_self]

theorem key_of_sameSection {i j : Inst} {s t : Section} (hs : i.carries s.tableId)
    (ht : j.carries t.tableId) (h : SameSection s t) : i.sectionsId s = j.sectionsId t := by
  obtain ⟨table, ext, onid, tsid, number⟩ := h
  obtain ⟨os, xs⟩ := cacheOnid_eq hs
  obtain ⟨ot, xt⟩ := cacheOnid_eq ht
  rw [sectionsId_eq_iff, os, ot, xs, xt]
  refine ⟨table, ext, number, ?_, ?_⟩
  · unfold Section.originalNetworkId at onid
    rw [table] at onid ⊢
    split <;> rename_i h
    · simpa only [if_pos h] using onid
    · rfl
  · unfold Section.transportStreamId at tsid
    rw [table] at tsid ⊢
    split <;> rename_i h
    · simpa only [if_pos h] using tsid
    · rfl

/-- Where no two networks clash, one key and one version are one section. -/
theorem sameSection_of_key {i j : Inst} {s t : Section} (hs : i.carries s.tableId)
    (ht : j.carries t.tableId) (hkey : i.sectionsId s = j.sectionsId t)
    (hversion : s.versionNumber = t.versionNumber) (hclash : ¬ Clash s t) : SameSection s t := by
  obtain ⟨os, xs⟩ := cacheOnid_eq hs
  obtain ⟨ot, xt⟩ := cacheOnid_eq ht
  rw [sectionsId_eq_iff, os, ot, xs, xt] at hkey
  obtain ⟨table, ext, number, onid, tsid⟩ := hkey
  have honid : s.originalNetworkId = t.originalNetworkId := by
    by_contra hne
    by_cases hsdt : isSdt t.tableId
    · exact hclash ⟨hsdt, table, ext, number, hversion, hne⟩
    · apply hne
      unfold Section.originalNetworkId
      simp only [table, if_neg hsdt] at onid ⊢
      exact onid
  refine ⟨table, ext, honid, ?_, number⟩
  unfold Section.transportStreamId
  rw [table] at tsid ⊢
  split <;> rename_i h
  · simpa only [if_pos h] using tsid
  · rw [ext]

/-! ## One read -/

/-- A well-formed section gets as far as the cache. -/
theorem getSection_wellFormed {d : DMX} {i : Inst} {s : Section} (h : WellFormed d i s)
    (cached : Cache) (restarted : Bool) (timeouts : Int) :
    (d.cache = true →
      d.getSection cached (some s) restarted timeouts = d.lookupSection cached s) ∧
    (d.cache = false → (d.getSection cached (some s) restarted timeouts).rc = s.length ∧
      (d.getSection cached (some s) restarted timeouts).cached = cached ∧
      ∃ v, (d.getSection cached (some s) restarted timeouts).dmx = { d with eitVersion := v }) := by
  obtain ⟨reads, filtered, -, complete, long, extended, current⟩ := h
  have hlong : 12 ≤ s.sectionLength ∧ (isEit s.tableId → 15 ≤ s.sectionLength) := by
    unfold minLength at long
    split_ifs at long with h1 h2
    · exact ⟨by omega, fun _ => long⟩
    · exact ⟨long, fun h => absurd h h1⟩
    · exact ⟨by omega, fun h => absurd h h1⟩
  have hshort : ¬ (s.sectionLength < 5 ∨
      (0x4e ≤ s.tableId ∧ s.tableId ≤ 0x6f ∧ s.sectionLength < 14)) := by
    rintro (h | ⟨h1, h2, h3⟩)
    · omega
    · have := hlong.2 ⟨h1, h2⟩
      omega
  have heq : d.getSection cached (some s) restarted timeouts =
      if d.cache = false then
        ⟨s.length, { d with eitVersion :=
          if s.tableId = 0x4e ∧ (s.tableExtensionId : Int) = d.currentService ∧
              s.versionNumber ≠ d.eitVersion then s.versionNumber
          else d.eitVersion }, cached, 0⟩
      else d.lookupSection cached s := by
    unfold DMX.getSection
    simp only [reads, Bool.false_eq_true, if_false]
    rw [if_neg (by omega), if_neg (by omega), if_neg (by omega), if_neg (not_not.mpr complete),
      if_neg (not_not.mpr filtered), if_neg hshort, if_pos ⟨extended, current⟩]
  constructor
  · intro hc
    rw [heq, if_neg (by simp [hc])]
  · intro hc
    rw [heq, if_pos hc]
    exact ⟨rfl, rfl, _, rfl⟩

/-- Withheld with the version the cache has, or returned and kept. -/
theorem lookupSection_cases (d : DMX) (cached : Cache) (s : Section) :
    (∃ n, (d.lookupSection cached s).dmx = { d with firstSkipped := n }) ∧
    ((cached.find (d.sectionsId s) = some s.versionNumber ∧
      (d.lookupSection cached s).rc = -1 ∧ (d.lookupSection cached s).cached = cached) ∨
    ((d.lookupSection cached s).rc = s.length ∧
      ∀ k, (d.lookupSection cached s).cached.find k =
        if k = d.sectionsId s then some s.versionNumber else cached.find k)) := by
  cases hfind : cached.find (d.sectionsId s) with
  | none =>
    simp only [DMX.lookupSection, hfind]
    refine ⟨⟨_, rfl⟩, .inr ⟨trivial, ?_⟩⟩
    intro k
    rw [OrdMap.find_insertNew]
    by_cases hk : k = d.sectionsId s
    · simp [hk, hfind]
    · simp [hk]
  | some version =>
    by_cases hv : version = s.versionNumber
    · simp only [DMX.lookupSection, hfind, hv, if_true]
      exact ⟨⟨_, rfl⟩, .inl ⟨trivial, trivial, trivial⟩⟩
    · simp only [DMX.lookupSection, hfind, hv, if_false]
      refine ⟨⟨_, rfl⟩, .inr ⟨trivial, ?_⟩⟩
      intro k
      rw [OrdMap.find_set]

theorem restart_kept (d : DMX) (restarted : Bool) :
    (d.restart restarted).pID = d.pID ∧ (d.restart restarted).cache = d.cache := by
  cases restarted <;> exact ⟨rfl, rfl⟩

/-- No read changes what an object is. -/
theorem getSection_kept (d : DMX) (cached : Cache) (read : Option Section) (restarted : Bool)
    (timeouts : Int) :
    (d.getSection cached read restarted timeouts).dmx.pID = d.pID ∧
      (d.getSection cached read restarted timeouts).dmx.cache = d.cache := by
  have hrestart := restart_kept d restarted
  unfold DMX.getSection
  split
  · exact ⟨rfl, rfl⟩
  · cases read with
    | none => exact hrestart
    | some s =>
      obtain ⟨⟨n, hn⟩, -⟩ := lookupSection_cases d cached s
      dsimp only
      split_ifs
      all_goals first | exact hrestart | exact ⟨rfl, rfl⟩ | rw [hn]; exact ⟨rfl, rfl⟩

/-- What a read of the stream does to the cache and to what was returned. -/
theorem step_getSection {w w' : Demux} {i : Inst} {read : Option Section} {restarted : Bool}
    {timeouts : Int} (hstream : OnStream w (.getSection i read restarted timeouts))
    (h : w.step (.getSection i read restarted timeouts) = some w') :
    (∃ more, w'.seen = w.seen ++ more) ∧
    ((w'.cached = w.cached ∧ w'.returned = w.returned) ∨
    ∃ s, WellFormed (w.dmx i) i s ∧ w'.seen = w.seen ++ [(i, s)] ∧
      w'.returned = w.returned ++ [(i, s)] ∧
      ∀ k, w'.cached.find k =
        if k = (w.dmx i).sectionsId s then some s.versionNumber else w.cached.find k) := by
  simp only [Demux.step, Option.some.injEq] at h
  subst h
  refine ⟨⟨_, rfl⟩, ?_⟩
  unfold Demux.answer Demux.noted
  by_cases hdummy : (w.dmx i).dummyFilter = true
  · left
    simp [DMX.getSection, hdummy]
  · have hreads : (w.dmx i).dummyFilter = false := by simpa using hdummy
    cases read with
    | none =>
      left
      simp [DMX.getSection, hreads]
    | some s =>
      obtain hd | rfl | hwf := hstream
      · exact absurd hd hdummy
      · left
        simp [DMX.getSection, hreads]
      · obtain ⟨hcached, huncached⟩ := getSection_wellFormed hwf w.cached restarted timeouts
        cases hc : (w.dmx i).cache with
        | false =>
          left
          obtain ⟨-, hsame, -⟩ := huncached hc
          simp [hsame]
        | true =>
          have hne : s ≠ [] := by
            intro hnil
            have hlen := hwf.complete
            rw [hnil] at hlen
            simp at hlen
          obtain ⟨b, bs, rfl⟩ := List.exists_cons_of_ne_nil hne
          rw [hcached hc]
          obtain ⟨-, ⟨-, hrc, hsame⟩ | ⟨hrc, hfind⟩⟩ :=
            lookupSection_cases (w.dmx i) w.cached (b :: bs)
          · left
            simp [hrc, hsame]
          · right
            have hrc' : (((b :: bs).length : Nat) : Int) ≠ -1 := by omega
            refine ⟨b :: bs, hwf, ?_, ?_, hfind⟩
            · simp [hreads]
            · simp [hrc, hreads]
              omega

/-! ## Runs -/

/-- The cache has, for each key, the version returned last. -/
structure CacheKept (w : Demux) : Prop where
  setup : ∀ i, (w.dmx i).pID = i.dmx.pID ∧ (w.dmx i).cache = i.dmx.cache
  seen : ∀ p ∈ w.returned, p ∈ w.seen
  carried : ∀ p ∈ w.returned, p.1.carries p.2.tableId
  last : ∀ k v, w.cached.find k = some v →
    ∃ before p after, w.returned = before ++ p :: after ∧ p.1.sectionsId p.2 = k ∧
      p.2.versionNumber = v ∧ ∀ q ∈ after, q.1.sectionsId q.2 ≠ k

theorem sectionsId_setup {w : Demux} (h : CacheKept w) (i : Inst) (s : Section) :
    (w.dmx i).sectionsId s = i.sectionsId s := by
  simp only [Inst.sectionsId, DMX.sectionsId, DMX.cacheOnid, DMX.cacheTsid, (h.setup i).1]

theorem update_setup {w : Demux} {i : Inst} {d : DMX}
    (h : ∀ i, (w.dmx i).pID = i.dmx.pID ∧ (w.dmx i).cache = i.dmx.cache)
    (hd : d.pID = (w.dmx i).pID ∧ d.cache = (w.dmx i).cache) (j : Inst) :
    ((w.update i d).dmx j).pID = j.dmx.pID ∧ ((w.update i d).dmx j).cache = j.dmx.cache := by
  unfold Demux.update
  by_cases hj : j = i
  · simp only [hj, if_true, hd.1, hd.2]
    exact h i
  · simp only [hj, if_false]
    exact h j

/-- What was returned last under a key stays so when another key comes. -/
theorem last_append {returned : List (Inst × Section)} {k v : Nat} {q : Inst × Section}
    (hq : q.1.sectionsId q.2 ≠ k)
    (h : ∃ before p after, returned = before ++ p :: after ∧ p.1.sectionsId p.2 = k ∧
      p.2.versionNumber = v ∧ ∀ q ∈ after, q.1.sectionsId q.2 ≠ k) :
    ∃ before p after, returned ++ [q] = before ++ p :: after ∧ p.1.sectionsId p.2 = k ∧
      p.2.versionNumber = v ∧ ∀ q ∈ after, q.1.sectionsId q.2 ≠ k := by
  obtain ⟨before, p, after, hsplit, hkey, hversion, hafter⟩ := h
  refine ⟨before, p, after ++ [q], ?_, hkey, hversion, ?_⟩
  · rw [hsplit, List.append_assoc, List.cons_append]
  · intro q' hq'
    cases List.mem_append.mp hq' with
    | inl hold => exact hafter q' hold
    | inr hnew =>
      rw [List.mem_singleton.mp hnew]
      exact hq

theorem step_cacheKept (w : Demux) (a : Demux.Act) (w' : Demux) (hw : CacheKept w)
    (hok : OnStream w a ∧ NoClash w a) (h : w.step a = some w') : CacheKept w' := by
  cases a with
  | addfilter i filter mask =>
    cases h
    exact ⟨update_setup hw.setup ⟨rfl, rfl⟩, hw.seen, hw.carried, hw.last⟩
  | change i filterIndex service restarted =>
    cases h
    exact ⟨update_setup hw.setup (restart_kept _ restarted), hw.seen, hw.carried, hw.last⟩
  | dropCachedSectionIDs =>
    cases h
    refine ⟨hw.setup, ?_, ?_, ?_⟩
    · intro p hp
      cases hp
    · intro p hp
      cases hp
    · intro k v hk
      cases hk
  | getSection i read restarted timeouts =>
    have hsetup : ∀ j, (w'.dmx j).pID = j.dmx.pID ∧ (w'.dmx j).cache = j.dmx.cache := by
      cases h
      exact update_setup hw.setup (getSection_kept _ _ _ _ _)
    obtain ⟨⟨more, hmore⟩, ⟨hc, hr⟩ | ⟨s, hwf, hs, hr, hfind⟩⟩ := step_getSection hok.1 h
    · refine ⟨hsetup, ?_, ?_, ?_⟩
      · intro p hp
        rw [hr] at hp
        rw [hmore]
        exact List.mem_append_left more (hw.seen p hp)
      · rw [hr]
        exact hw.carried
      · rw [hc, hr]
        exact hw.last
    · refine ⟨hsetup, ?_, ?_, ?_⟩
      · intro p hp
        rw [hr] at hp
        rw [hs]
        rcases List.mem_append.mp hp with hp | hp
        · exact List.mem_append_left _ (hw.seen p hp)
        · exact List.mem_append_right _ hp
      · intro p hp
        rw [hr] at hp
        rcases List.mem_append.mp hp with hp | hp
        · exact hw.carried p hp
        · rw [List.mem_singleton.mp hp]
          exact hwf.table
      · intro k v hk
        rw [hfind, sectionsId_setup hw] at hk
        rw [hr]
        by_cases hki : k = i.sectionsId s
        · rw [if_pos hki] at hk
          cases hk
          refine ⟨w.returned, (i, s), [], rfl, hki.symm, rfl, ?_⟩
          intro q hq
          cases hq
        · rw [if_neg hki] at hk
          exact last_append (fun heq => hki heq.symm) (hw.last k v hk)

theorem reachable_cacheKept {w : Demux}
    (hrun : Runs Demux.step (fun w a => OnStream w a ∧ NoClash w a) .initial w) : CacheKept w := by
  refine hrun.invariant step_cacheKept ⟨fun i => ⟨rfl, rfl⟩, ?_, ?_, ?_⟩
  · intro p hp
    cases hp
  · intro p hp
    cases hp
  · intro k v hk
    cases hk

/-- As long as no two networks clash, every section is returned unless it is
the version of it that was returned last. -/
theorem withheld_only_duplicates {w : Demux}
    (hrun : Runs Demux.step (fun w a => OnStream w a ∧ NoClash w a) .initial w)
    {i : Inst} {s : Section} (hs : WellFormed (w.dmx i) i s)
    (hclash : ∀ p ∈ w.seen, ¬ Clash p.2 s) (restarted : Bool) (timeouts : Int) :
    (w.answer i (some s) restarted timeouts).rc = s.length ∨
      (w.answer i (some s) restarted timeouts).rc = -1 ∧ Duplicate w.returned s := by
  have hkept := reachable_cacheKept hrun
  obtain ⟨hcached, huncached⟩ := getSection_wellFormed hs w.cached restarted timeouts
  unfold Demux.answer
  cases hc : (w.dmx i).cache with
  | false => exact .inl (huncached hc).1
  | true =>
    rw [hcached hc]
    obtain ⟨-, ⟨hfind, hrc, -⟩ | ⟨hrc, -⟩⟩ := lookupSection_cases (w.dmx i) w.cached s
    · right
      rw [sectionsId_setup hkept] at hfind
      obtain ⟨before, p, after, hsplit, hkey, hversion, hafter⟩ := hkept.last _ _ hfind
      have hp : p ∈ w.returned := by simp [hsplit]
      refine ⟨hrc, before, p, after, hsplit, ?_, hversion, ?_⟩
      · exact sameSection_of_key (hkept.carried p hp) hs.table hkey hversion
          (hclash p (hkept.seen p hp))
      · intro q hq hsame
        have hq' : q ∈ w.returned := by simp [hsplit, hq]
        exact hafter q hq (key_of_sameSection (hkept.carried q hq') hs.table hsame)
    · exact .inl hrc

/-- The description of transport stream 1 of one network or another. -/
def sdtSection (onid : Byte) : Section :=
  [0x42, 0xF0, 0x0C, 0, 1, 0xC3, 0, 0, 0, onid, 0xFF, 0, 0, 0, 0]

def sdtStarted : Demux := Demux.initial.update .sdt ((Inst.dmx .sdt).addfilter 0x42 0xf3)

theorem sdtSection_wellFormed : WellFormed (sdtStarted.dmx .sdt) .sdt (sdtSection 1) where
  reads := by decide
  filtered := by decide
  table := .inl (.inl rfl)
  complete := by decide
  long := by decide
  extended := by decide
  current := by decide

theorem sdtStarted_run (ok : Demux → Demux.Act → Prop)
    (h : ok .initial (.addfilter .sdt 0x42 0xf3)) : Runs Demux.step ok .initial sdtStarted :=
  Runs.refl.tail (.addfilter .sdt 0x42 0xf3) h rfl

/-- Its next version. -/
def sdtNext : Section := (sdtSection 1).set 5 0xC5

/-- A section that was returned is withheld when it is repeated, and its next version
is returned. -/
theorem withheld_only_duplicates_first :
    ∃ w, Runs Demux.step (fun w a => OnStream w a ∧ NoClash w a) .initial w ∧
      (w.answer .sdt (some (sdtSection 1)) true 0).rc = -1 ∧
      Duplicate w.returned (sdtSection 1) ∧ (w.answer .sdt (some sdtNext) true 0).rc = 15 := by
  have hrun : Runs Demux.step (fun w a => OnStream w a ∧ NoClash w a) .initial _ :=
    (sdtStarted_run _ ⟨trivial, trivial⟩).tail (.getSection .sdt (some (sdtSection 1)) true 0)
      ⟨.inr (.inr sdtSection_wellFormed), fun p hp => by cases hp⟩ rfl
  refine ⟨_, hrun, ?_⟩
  have hrepeated := withheld_only_duplicates (i := .sdt) (s := sdtSection 1) hrun
    ⟨by decide, by decide, .inl (.inl rfl), by decide, by decide, by decide, by decide⟩
    (fun p hp hclash => ?_) true 0
  · have hnext := withheld_only_duplicates (i := .sdt) (s := sdtNext) hrun
      ⟨by decide, by decide, .inl (.inl rfl), by decide, by decide, by decide, by decide⟩
      (fun p hp hclash => ?_) true 0
    · obtain ⟨hrc, hdup⟩ := hrepeated.resolve_left (by decide)
      refine ⟨hrc, hdup, hnext.resolve_right fun h => absurd h.1 (by decide)⟩
    · rw [List.mem_singleton.mp hp] at hclash
      exact absurd hclash.version (by decide)
  · rw [List.mem_singleton.mp hp] at hclash
    exact absurd rfl hclash.onid

/-- The section of the second network is withheld although only that of the
first was returned. -/
theorem sdt_networks_clash :
    ∃ w, Runs Demux.step OnStream .initial w ∧
      WellFormed (w.dmx .sdt) .sdt (sdtSection 2) ∧
      (w.answer .sdt (some (sdtSection 2)) true 0).rc = -1 ∧
      ¬ Duplicate w.returned (sdtSection 2) := by
  refine ⟨_, (sdtStarted_run _ trivial).tail (.getSection .sdt (some (sdtSection 1)) true 0)
    (.inr (.inr (sdtSection_wellFormed))) rfl, ?_, by decide, ?_⟩
  · exact ⟨by decide, by decide, .inl (.inl rfl), by decide, by decide, by decide, by decide⟩
  · rintro ⟨before, p, after, hsplit, hsame, -⟩
    have hp : p ∈ [(Inst.sdt, sdtSection 1)] := by
      have hmem : p ∈ before ++ p :: after := by simp
      rw [← hsplit] at hmem
      exact hmem
    rw [List.mem_singleton.mp hp] at hsame
    exact absurd hsame.onid (by decide)

end Tuxbox.Sectionsd
