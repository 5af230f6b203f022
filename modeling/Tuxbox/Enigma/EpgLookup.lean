import Tuxbox.Enigma.EpgOverlap

/-!
# The event at a time

`lookupEvent` takes the last event that begins before a time, if it lasts until then. Else it
goes through all events of the service.

* `lookup_right_iff`: when it finds the event that is on at that time.

There is no result where the code steps back from the first event of a service.
-/

namespace Tuxbox.Enigma.Epg

open ServiceMap

namespace ServiceMap

/-- The loop over the events in the order of their ids. -/
def scan (heap : EventPtr → Option EventData) (t : Int) :
    List (Nat × EventPtr) → Option (Option EventData)
  | [] => some none
  | (_, p) :: rest => do
    let o ← heap p
    if o.getStartTime ≤ t ∧ t ≤ o.getStartTime + o.getDuration then pure (some o)
    else scan heap t rest

/-- `lower_bound` is the first event that begins at `t` or later, and `i--` the one before. -/
def lookup (t : Int) (m : ServiceMap) : Option (Option EventData) :=
  if m.second.entries.filter (t ≤ ·.1) = [] then scan m.heap t m.first.entries
  else
    match (m.second.entries.filter (·.1 < t)).getLast? with
    | none => none
    | some (first, p) => do
      let o ← m.heap p
      if t ≤ first + o.getDuration then pure (some o) else scan m.heap t m.first.entries

end ServiceMap

/-- Without a time, what is on now. -/
def asked (t now : Int) : Int := if t = 0 then now else t

def EpgCache.lookupEvent (service : EpgKey) (t now : Int) (c : EpgCache) :
    Option (Option EventData) :=
  if c.isLoading then some none
  else
    match c.eventDB service with
    | none => some none
    | some m => if m.first.entries = [] then some none else m.lookup (asked t now)

/-! ## What is on -/

namespace ServiceMap

/-- No event lasts into one that begins later. -/
def Apart (m : ServiceMap) : Prop :=
  ∀ k o k' o', m.At k o → m.At k' o' → k < k' → k + o.getDuration ≤ k'

/-- The last event that begins by `t`, if it lasts until then. -/
def OnAir (m : ServiceMap) (t : Int) (o : EventData) : Prop :=
  ∃ k, m.At k o ∧ k ≤ t ∧ t ≤ k + o.getDuration ∧ ∀ k' o', m.At k' o' → k' ≤ t → k' ≤ k

def Finds (m : ServiceMap) (t : Int) (r : Option EventData) : Prop :=
  ∀ o, r = some o ↔ m.OnAir t o

variable {m : ServiceMap} {t k : Int} {o : EventData}

theorem OnAir.unique {o' : EventData} (h : m.OnAir t o) (h' : m.OnAir t o') : o = o' := by
  obtain ⟨k, ho, hk, -, hlast⟩ := h
  obtain ⟨k', ho', hk', -, hlast'⟩ := h'
  obtain rfl := le_antisymm (hlast' k o ho hk) (hlast k' o' ho' hk')
  exact ho.unique ho'

theorem finds_some (h : m.OnAir t o) : m.Finds t (some o) :=
  fun _ => ⟨fun heq => Option.some_inj.mp heq ▸ h, fun h' => congrArg some (h.unique h')⟩

theorem finds_none (h : ∀ k o, m.At k o → k ≤ t → k + o.getDuration < t) : m.Finds t none :=
  fun o => ⟨fun heq => (nomatch heq), fun ⟨k, ho, hk, hend, _⟩ => by
    have := h k o ho hk
    omega⟩

/-! ## The scan -/

/-- An event that has begun and has not ended. -/
def Covers (m : ServiceMap) (t : Int) (o : EventData) : Prop :=
  ∃ k, m.At k o ∧ k ≤ t ∧ t ≤ k + o.getDuration

theorem scan_spec (hm : m.Linked) {l : List (Nat × EventPtr)}
    (hl : ∀ x ∈ l, m.first.find x.1 = some x.2) : ∃ r, scan m.heap t l = some r ∧
      (∀ o, r = some o → m.Covers t o) ∧
      (r = none → ∀ x ∈ l, ∀ o, m.heap x.2 = some o →
        ¬ (o.getStartTime ≤ t ∧ t ≤ o.getStartTime + o.getDuration)) := by
  induction l with
  | nil => exact ⟨none, rfl, fun o h => (nomatch h), fun _ x hx => (nomatch hx)⟩
  | cons x l ih =>
    obtain ⟨id, p⟩ := x
    obtain ⟨r, hr, hsome, hnone⟩ := ih fun y hy => hl y (List.mem_cons_of_mem _ hy)
    obtain ⟨o, ho, -, hsecond⟩ := hm.byId id p (hl _ List.mem_cons_self)
    rw [scan, ho, Option.bind_eq_bind, Option.bind_some]
    split
    · rename_i hon
      refine ⟨some o, rfl, fun o' heq => ?_, fun h => nomatch h⟩
      obtain rfl := Option.some_inj.mp heq
      exact ⟨_, ⟨p, hsecond, ho⟩, hon.1, hon.2⟩
    · rename_i hoff
      refine ⟨r, hr, hsome, fun heq y hy o' ho' => ?_⟩
      rcases List.mem_cons.mp hy with rfl | hy
      · rwa [← Option.some_inj.mp (ho.symm.trans ho')]
      · exact hnone heq y hy o' ho'

theorem scan_first (hm : m.Linked) (t : Int) : ∃ r, scan m.heap t m.first.entries = some r ∧
    (∀ o, r = some o → m.Covers t o) ∧
    (r = none → ∀ k o, m.At k o → k ≤ t → k + o.getDuration < t) := by
  obtain ⟨r, hr, hsome, hnone⟩ := scan_spec (t := t) hm
    fun x hx => (m.first.find_eq_some x.1 x.2).mpr hx
  refine ⟨r, hr, hsome, fun heq k o ho hk => ?_⟩
  obtain ⟨p, hp, hheap⟩ := ho
  have hfirst := hm.first_of_at hp hheap
  have hstart := hm.start ⟨p, hp, hheap⟩
  have hoff := hnone heq _ ((m.first.find_eq_some _ p).mp hfirst) o hheap
  rw [hstart] at hoff
  by_contra hend
  exact hoff ⟨hk, by omega⟩

/-! ## The search -/

/-- The last event that begins before `t`. -/
theorem getLast_before {p : EventPtr}
    (h : (m.second.entries.filter (·.1 < t)).getLast? = some (k, p)) :
    m.second.find k = some p ∧ k < t ∧ ∀ k' o', m.At k' o' → k' < t → k' ≤ k := by
  obtain ⟨before, hsplit⟩ := List.getLast?_eq_some_iff.mp h
  have hmem : (k, p) ∈ m.second.entries.filter (·.1 < t) := by
    rw [hsplit]
    exact List.mem_append_right _ List.mem_cons_self
  obtain ⟨hentry, hlt⟩ := List.mem_filter.mp hmem
  refine ⟨(m.second.find_eq_some k p).mpr hentry, of_decide_eq_true hlt, ?_⟩
  rintro k' o' ⟨q, hq, -⟩ hk'
  have hq' : (k', q) ∈ m.second.entries.filter (·.1 < t) :=
    List.mem_filter.mpr ⟨(m.second.find_eq_some k' q).mp hq, decide_eq_true hk'⟩
  have hsorted := m.second.sorted.filter (·.1 < t)
  rw [hsplit] at hq' hsorted
  rcases List.mem_append.mp hq' with hq' | hq'
  · exact ((List.pairwise_append.mp hsorted).2.2 _ hq' _ List.mem_cons_self).le
  · exact (congrArg Prod.fst (List.mem_singleton.mp hq')).le

theorem filter_eq_nil (hm : m.Linked) {f : Int → Prop} [DecidablePred f] :
    m.second.entries.filter (fun x => f x.1) = [] ↔ ∀ k o, m.At k o → ¬ f k := by
  rw [List.filter_eq_nil_iff]
  constructor
  · rintro h k o ⟨p, hp, -⟩ hk
    exact h (k, p) ((m.second.find_eq_some k p).mp hp) (decide_eq_true hk)
  · rintro h ⟨k, p⟩ hx hk
    obtain ⟨o, ho, -, -⟩ := hm.byTime k p ((m.second.find_eq_some k p).mpr hx)
    exact h k o ⟨p, (m.second.find_eq_some k p).mpr hx, ho⟩ (of_decide_eq_true hk)

/-- One event ends at `t`, and the next begins. -/
def Meets (m : ServiceMap) (t : Int) : Prop :=
  ∃ k o o', m.At k o ∧ k < t ∧ k + o.getDuration = t ∧ m.At t o'

/-- An event begins before `t`, if there are any. -/
def Begun (m : ServiceMap) (t : Int) : Prop :=
  (∃ k o, m.At k o) → ∃ k o, m.At k o ∧ k < t

theorem onAir_of_covers (hapart : m.Apart) (hmeets : ¬ m.Meets t) (h : m.Covers t o) :
    m.OnAir t o := by
  obtain ⟨k, ho, hk, hend⟩ := h
  refine ⟨k, ho, hk, hend, fun k' o' ho' hk' => ?_⟩
  by_contra hlater
  have := hapart k o k' o' ho ho' (by omega)
  obtain rfl : k' = t := by omega
  exact hmeets ⟨k, o, o', ho, by omega, by omega, ho'⟩

/-- The search finds what is on, or what is on at the end of another event. -/
theorem lookup_begun (hm : m.Linked) (hbegun : m.Begun t) : ∃ r, m.lookup t = some r ∧
    (∀ o, r = some o → m.Covers t o) ∧
    (r = none → ∀ k o, m.At k o → k ≤ t → k + o.getDuration < t) := by
  unfold lookup
  split
  · exact scan_first hm t
  · rename_i hlater
    split
    · -- an event begins at `t` or later, but none before
      rename_i hlast
      have hnone := (filter_eq_nil hm (f := (· < t))).mp (List.getLast?_eq_none_iff.mp hlast)
      exfalso
      apply hlater
      rw [filter_eq_nil hm (f := (t ≤ ·))]
      intro k o ho _
      obtain ⟨k', o', ho', hk'⟩ := hbegun ⟨k, o, ho⟩
      exact hnone k' o' ho' hk'
    · rename_i first p hlast
      obtain ⟨hp, hlt, -⟩ := getLast_before hlast
      obtain ⟨o, ho, -, -⟩ := hm.byTime first p hp
      rw [ho, Option.bind_eq_bind, Option.bind_some]
      split
      · rename_i hend
        refine ⟨some o, rfl, fun o' heq => ?_, fun h => nomatch h⟩
        obtain rfl := Option.some_inj.mp heq
        exact ⟨first, ⟨p, hp, ho⟩, hlt.le, hend⟩
      · exact scan_first hm t

/-- At the end of an event the next is not found, though it begins then. -/
theorem lookup_meets (hm : m.Linked) (hapart : m.Apart) {o' : EventData} (ho : m.At k o)
    (hk : k < t) (hend : k + o.getDuration = t) (ho' : m.At t o') : m.lookup t = some (some o) := by
  unfold lookup
  rw [if_neg]
  · split
    · rename_i hlast
      have hnone := (filter_eq_nil hm (f := (· < t))).mp (List.getLast?_eq_none_iff.mp hlast)
      exact absurd hk (hnone k o ho)
    · rename_i first p hlast
      obtain ⟨hp, hlt, hmax⟩ := getLast_before hlast
      obtain ⟨o₁, ho₁, -, -⟩ := hm.byTime first p hp
      have hfirst : first = k := by
        by_contra hne
        have := hmax k o ho hk
        have := hapart k o first o₁ ho ⟨p, hp, ho₁⟩ (by omega)
        omega
      subst hfirst
      obtain rfl := ho.unique ⟨p, hp, ho₁⟩
      rw [ho₁, Option.bind_eq_bind, Option.bind_some, if_pos hend.ge]
      rfl
  · rw [filter_eq_nil hm (f := (t ≤ ·))]
    exact fun h => h t o' ho' le_rfl

/-- No event before `t` is found where there is none. -/
theorem lookup_not_begun (hm : m.Linked) (hbegun : ¬ m.Begun t) : m.lookup t = none := by
  obtain ⟨⟨k, o, ho⟩, hnone⟩ := Classical.not_imp.mp hbegun
  have hfirst : m.second.entries.filter (·.1 < t) = [] :=
    (filter_eq_nil hm).mpr fun k' o' ho' hk' => hnone ⟨k', o', ho', hk'⟩
  have hlater : m.second.entries.filter (t ≤ ·.1) ≠ [] := by
    rw [Ne, filter_eq_nil hm (f := (t ≤ ·))]
    exact fun h => h k o ho (not_lt.mp fun hlt => hnone ⟨k, o, ho, hlt⟩)
  unfold lookup
  rw [if_neg hlater, hfirst]
  rfl

theorem lookup_finds_iff (hm : m.Linked) (hapart : m.Apart) :
    (∃ r, m.lookup t = some r ∧ m.Finds t r) ↔ m.Begun t ∧ ¬ m.Meets t := by
  constructor
  · rintro ⟨r, hr, hfinds⟩
    refine ⟨?_, ?_⟩
    · by_contra hbegun
      rw [lookup_not_begun hm hbegun] at hr
      exact nomatch hr
    · rintro ⟨k, o, o', ho, hk, hend, ho'⟩
      rw [lookup_meets hm hapart ho hk hend ho'] at hr
      obtain ⟨k₁, ho₁, -, -, hlast⟩ := (hfinds o).mp (Option.some_inj.mp hr).symm
      have hat := hlast t o' ho' le_rfl
      have hk₁ : k₁ = k := (hm.start ho₁).symm.trans (hm.start ho)
      omega
  · rintro ⟨hbegun, hmeets⟩
    obtain ⟨r, hr, hsome, hnone⟩ := lookup_begun hm hbegun
    refine ⟨r, hr, ?_⟩
    cases r with
    | none => exact finds_none (hnone rfl)
    | some o => exact finds_some (onAir_of_covers hapart hmeets (hsome o rfl))

end ServiceMap

/-- What is on at a time is found just where an event begins before it, and none ends where the
next begins. -/
theorem lookupEvent_finds_iff {c : EpgCache} {service : EpgKey} {m : ServiceMap} {t now : Int}
    (hloading : c.isLoading = false) (hc : c.eventDB service = some m) (hm : m.Linked)
    (hapart : m.Apart) :
    (∃ r, c.lookupEvent service t now = some r ∧ m.Finds (asked t now) r) ↔
      m.Begun (asked t now) ∧ ¬ m.Meets (asked t now) := by
  unfold EpgCache.lookupEvent
  rw [hloading, if_neg Bool.false_ne_true, hc]
  dsimp only
  split
  · rename_i hempty
    have hnone : ∀ k o, ¬ m.At k o := by
      rintro k o ⟨p, hp, ho⟩
      have hmem := (m.first.find_eq_some _ p).mp (hm.first_of_at hp ho)
      rw [hempty] at hmem
      exact nomatch hmem
    refine iff_of_true ⟨none, rfl, finds_none fun k o ho => absurd ho (hnone k o)⟩ ⟨?_, ?_⟩
    · rintro ⟨k, o, ho⟩
      exact absurd ho (hnone k o)
    · rintro ⟨k, o, -, ho, -⟩
      exact hnone k o ho
  · exact lookup_finds_iff hm hapart

/-! ## Two programmes, one after the other -/

/-- From 12:00 to 12:30, and from 12:30 to 13:00. -/
def noonEvent : EventData := ⟨10, 2, [0, 1, 0xCC, 0x00, 0x12, 0x00, 0x00, 0x00, 0x30, 0x00], []⟩

def laterEvent : EventData := ⟨10, 2, [0, 2, 0xCC, 0x00, 0x12, 0x30, 0x00, 0x00, 0x30, 0x00], []⟩

def sampleMap : ServiceMap where
  heap p := if p = 0 then some noonEvent else if p = 1 then some laterEvent else none
  fresh := 2
  first := (OrdMap.empty.set 1 0).set 2 1
  second := (OrdMap.empty.set 1005480000 0).set 1005481800 1

def sampleCache : EpgCache := { EpgCache.initial with eventDB := fun _ => some sampleMap }

theorem sample_at_iff {k : Int} {o : EventData} : sampleMap.At k o ↔
    k = 1005480000 ∧ o = noonEvent ∨ k = 1005481800 ∧ o = laterEvent := by
  constructor
  · rintro ⟨p, hp, ho⟩
    simp only [sampleMap, OrdMap.find_set, OrdMap.find_empty] at hp
    split at hp
    · obtain rfl := Option.some_inj.mp hp
      exact .inr ⟨‹_›, (Option.some_inj.mp ho).symm⟩
    · split at hp
      · obtain rfl := Option.some_inj.mp hp
        exact .inl ⟨‹_›, (Option.some_inj.mp ho).symm⟩
      · exact nomatch hp
  · rintro (⟨rfl, rfl⟩ | ⟨rfl, rfl⟩)
    · exact ⟨0, by decide, rfl⟩
    · exact ⟨1, by decide, rfl⟩

theorem linked_sampleMap : sampleMap.Linked := by
  constructor
  · intro k p hp
    simp only [sampleMap, OrdMap.find_set, OrdMap.find_empty] at hp
    split at hp
    · obtain rfl := Option.some_inj.mp hp
      rename_i hk
      exact ⟨laterEvent, rfl, by rw [hk]; decide, by decide⟩
    · split at hp
      · obtain rfl := Option.some_inj.mp hp
        rename_i hk
        exact ⟨noonEvent, rfl, by rw [hk]; decide, by decide⟩
      · exact nomatch hp
  · intro id p hp
    simp only [sampleMap, OrdMap.find_set, OrdMap.find_empty] at hp
    split at hp
    · obtain rfl := Option.some_inj.mp hp
      rename_i hid
      exact ⟨laterEvent, rfl, by rw [hid]; decide, by decide⟩
    · split at hp
      · obtain rfl := Option.some_inj.mp hp
        rename_i hid
        exact ⟨noonEvent, rfl, by rw [hid]; decide, by decide⟩
      · exact nomatch hp
  · intro p hp
    have hne : p ≠ 0 ∧ p ≠ 1 := by
      constructor <;> rintro rfl <;> exact absurd hp (by decide)
    exact (if_neg hne.1).trans (if_neg hne.2)

theorem apart_sampleMap : sampleMap.Apart := by
  intro k o k' o' ho ho' hlt
  rcases sample_at_iff.mp ho with ⟨rfl, rfl⟩ | ⟨rfl, rfl⟩ <;>
    rcases sample_at_iff.mp ho' with ⟨rfl, rfl⟩ | ⟨rfl, rfl⟩
  · exact absurd hlt (lt_irrefl _)
  · decide
  · exact absurd hlt (by decide)
  · exact absurd hlt (lt_irrefl _)

/-- At 12:15 the first is found. -/
theorem found_within : ∃ r, sampleCache.lookupEvent ⟨1, 1, 1⟩ 1005480900 0 = some r ∧
    sampleMap.Finds 1005480900 r := by
  refine (lookupEvent_finds_iff rfl rfl linked_sampleMap apart_sampleMap).mpr ⟨fun _ => ?_, ?_⟩
  · exact ⟨_, _, sample_at_iff.mpr (.inl ⟨rfl, rfl⟩), by decide⟩
  · rintro ⟨k, o, o', -, -, -, ho'⟩
    rcases sample_at_iff.mp ho' with ⟨hk, -⟩ | ⟨hk, -⟩ <;> exact absurd hk (by decide)

/-- At 12:30 the first is still found, though the second has begun. -/
theorem predecessor_found : sampleMap.Linked ∧ sampleMap.Apart ∧
    sampleCache.lookupEvent ⟨1, 1, 1⟩ 1005481800 0 = some (some noonEvent) ∧
    sampleMap.OnAir 1005481800 laterEvent := by
  have hnoon : sampleMap.At 1005480000 noonEvent := sample_at_iff.mpr (.inl ⟨rfl, rfl⟩)
  have hlater : sampleMap.At 1005481800 laterEvent := sample_at_iff.mpr (.inr ⟨rfl, rfl⟩)
  refine ⟨linked_sampleMap, apart_sampleMap, ?_, 1005481800, hlater, le_rfl, by decide, ?_⟩
  · exact lookup_meets linked_sampleMap apart_sampleMap hnoon (by decide) (by decide) hlater
  · intro k o _ hk
    exact hk

end Tuxbox.Enigma.Epg
