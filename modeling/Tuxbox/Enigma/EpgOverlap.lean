import Tuxbox.Enigma.EpgComplete
import Tuxbox.Enigma.EpgStore

/-!
# Events that overlap

When an event is stored, those that overlap with it for more than five minutes go. The search
backwards begins with the event itself, and ends at once where that is short.
-/

namespace Tuxbox.Enigma.Epg

open Buffer ServiceMap

/-! ## One event -/

namespace ServiceMap

/-- No event lasts for more than five minutes into one that begins later. -/
def Disjoint (m : ServiceMap) : Prop :=
  ∀ k o k' o', m.At k o → m.At k' o' → k < k' → k + o.getDuration - 300 ≤ k'

/-- No event is of the private content or of the MHW reader. -/
def Plain (m : ServiceMap) : Prop :=
  ∀ k o, m.At k o → o.type.toNat ≠ PRIVATE ∧ o.type.toNat ≠ SCHEDULE_MHW

end ServiceMap

/-- Of the event `o` at `k` and the one of `duration` at `TM`, the earlier lasts into the later. -/
def Overlaps (TM duration k : Int) (o : EventData) : Prop :=
  k < TM ∧ TM < k + o.getDuration - 300 ∨ TM < k ∧ k < TM + duration - 300

/-- What goes overlaps with the event that came. -/
theorem fixOverlapping_overlapped {s t : Storing} {TM duration k : Int} {ret : Bool}
    (hs : s.map.Linked) (h : s.FixOverlapping TM duration = some (ret, t)) {o : EventData}
    (ho : s.map.At k o) (hgone : ¬ t.map.At k o) : Overlaps TM duration k o := by
  rcases ((Storing.pruned_fixOverlapping hs h).kept k o ho).resolve_left hgone with hbad | hbad
  · exact .inl ⟨hbad.1, hbad.2.2⟩
  · exact .inr ⟨hbad.1, hbad.2.2⟩

theorem erasable_of_plain {m : ServiceMap} (h : m.Plain) {k TM : Int} {o : EventData}
    (ho : m.At k o) (hk : k ≠ TM) : Storing.erasable TM k o = true := by
  obtain ⟨hprivate, hmhw⟩ := h k o ho
  unfold Storing.erasable
  rw [decide_eq_true hk, decide_eq_true hprivate, decide_eq_true hmhw]
  rfl

/-- The entries up to `TM`, the last first. -/
theorem reverse_filter_le {m : OrdMap Int EventPtr} {TM : Int} {p : EventPtr}
    (h : m.find TM = some p) : (m.entries.filter (·.1 ≤ TM)).reverse =
      (TM, p) :: (m.entries.filter (·.1 < TM)).reverse := by
  obtain ⟨before, behind, hsplit⟩ := List.append_of_mem ((m.find_eq_some TM p).mp h)
  have hsorted := m.sorted
  rw [hsplit, List.pairwise_append, List.pairwise_cons] at hsorted
  obtain ⟨-, ⟨hbehind, -⟩, hbefore⟩ := hsorted
  have hlt : ∀ x ∈ before, x.1 < TM := fun x hx => hbefore x hx _ List.mem_cons_self
  have hle : before.filter (·.1 ≤ TM) = before := List.filter_eq_self.mpr fun x hx =>
    decide_eq_true (hlt x hx).le
  have hlt' : before.filter (·.1 < TM) = before := List.filter_eq_self.mpr fun x hx =>
    decide_eq_true (hlt x hx)
  have hnone : behind.filter (·.1 ≤ TM) = [] := List.filter_eq_nil_iff.mpr fun x hx => by
    simpa using hbehind x hx
  have hnone' : behind.filter (·.1 < TM) = [] := List.filter_eq_nil_iff.mpr fun x hx => by
    simpa using (hbehind x hx).le
  rw [hsplit, List.filter_append, List.filter_append, List.filter_cons_of_pos (by simp),
    List.filter_cons_of_neg (by simp), hle, hlt', hnone, hnone', List.append_nil,
    List.reverse_append]
  rfl

section
variable {s t u : Storing} {TM duration k : Int} {p : EventPtr} {o : EventData} {ret : Bool}

/-- The loop that goes back begins at the new event, whose own duration decides whether it goes
on. -/
theorem fixBefore_start (hp : s.map.second.find TM = some p) (ho : s.map.heap p = some o) :
    s.fixBefore TM (s.map.second.entries.filter (·.1 ≤ TM)).reverse false =
      if 300 < o.getDuration then
        s.fixBefore TM (s.map.second.entries.filter (·.1 < TM)).reverse false
      else some (false, s) := by
  have hkeep : Storing.erasable TM TM o = false := by
    unfold Storing.erasable
    rw [decide_eq_false (not_not.mpr rfl)]
    rfl
  rw [reverse_filter_le hp, Storing.fixBefore, ho, Option.bind_eq_bind, Option.bind_some, hkeep]
  by_cases hlong : 300 < o.getDuration
  · rw [if_pos hlong, if_pos (by omega), if_neg Bool.false_ne_true]
    split
    · rename_i hnone
      rw [hnone]
      rfl
    · rfl
  · rw [if_neg hlong, if_neg (by omega)]
    rfl

/-- The last event before the new one does not last into it, where that is not short. -/
theorem fixBefore_last (hs : s.map.Linked) (hplain : s.map.Plain)
    (hp : s.map.second.find TM = some p) (ho : s.map.heap p = some o) (hlong : 300 < o.getDuration)
    (h : s.fixBefore TM (s.map.second.entries.filter (·.1 ≤ TM)).reverse false = some (ret, u))
    {o' : EventData} (ho' : u.map.At k o') (hk : k < TM)
    (hlast : ∀ k₁ o₁, s.map.At k₁ o₁ → k₁ < TM → k₁ ≤ k) : k + o'.getDuration - 300 ≤ TM := by
  rw [fixBefore_start hp ho, if_pos hlong] at h
  have hahead := Storing.ahead_reverse (Storing.ahead_filter s (·.1 < TM))
  have hs' := (Storing.pruned_fixBefore hs hahead h).at_of_at ho'
  obtain ⟨q, hq, hheap⟩ := hs'
  have hmem : (k, q) ∈ (s.map.second.entries.filter (·.1 < TM)).reverse :=
    List.mem_reverse.mpr (List.mem_filter.mpr
      ⟨(s.map.second.find_eq_some k q).mp hq, decide_eq_true hk⟩)
  have hsorted : (s.map.second.entries.filter (·.1 < TM)).reverse.Pairwise fun a b => b.1 < a.1 :=
    List.pairwise_reverse.mpr (s.map.second.sorted.filter _)
  cases hrest : (s.map.second.entries.filter (·.1 < TM)).reverse with
  | nil =>
    rw [hrest] at hmem
    exact nomatch hmem
  | cons x xs =>
    obtain ⟨k₁, p₁⟩ := x
    rw [hrest] at hmem hsorted hahead h
    have hx : (k₁, p₁) ∈ (s.map.second.entries.filter (·.1 < TM)).reverse :=
      hrest ▸ List.mem_cons_self
    have hfirst : s.map.second.find k₁ = some p₁ := hahead.1 _ List.mem_cons_self
    obtain ⟨o₁, ho₁, -⟩ := hs.byTime k₁ p₁ hfirst
    have hle := hlast k₁ o₁ ⟨p₁, hfirst, ho₁⟩
      (of_decide_eq_true (List.mem_filter.mp (List.mem_reverse.mp hx)).2)
    have heq : k₁ = k := by
      rcases List.mem_cons.mp hmem with heq | hmem
      · exact (congrArg Prod.fst heq).symm
      · have := (List.pairwise_cons.mp hsorted).1 _ hmem
        omega
    subst heq
    have hgone := Storing.fixBefore_head hs hahead h ho'
    have herase := erasable_of_plain hplain ⟨q, hq, hheap⟩ hk.ne
    by_contra hover
    exact hgone ⟨herase, by omega⟩

/-- The same after both loops. -/
theorem fixOverlapping_last (hs : s.map.Linked) (hplain : s.map.Plain)
    (hp : s.map.second.find TM = some p) (ho : s.map.heap p = some o) (hlong : 300 < o.getDuration)
    (h : s.FixOverlapping TM duration = some (ret, t)) {o' : EventData} (ho' : t.map.At k o')
    (hk : k < TM) (hlast : ∀ k₁ o₁, s.map.At k₁ o₁ → k₁ < TM → k₁ ≤ k) :
    k + o'.getDuration - 300 ≤ TM := by
  obtain ⟨ret₁, u, hu, ht⟩ := Storing.fixOverlapping_eq h
  have hbefore : Pruned (Storing.Overlapped TM duration) s.map u.map := Storing.pruned_before hs hu
  have hbehind : Pruned (Storing.Overlapped TM duration) u.map t.map :=
    Storing.pruned_behind hbefore.linked ht
  exact fixBefore_last hs hplain hp ho hlong hu (hbehind.at_of_at ho') hk hlast

theorem plain_of_pruned {bad : Int → EventData → Prop} {m n : ServiceMap} (h : Pruned bad m n)
    (hm : m.Plain) : n.Plain :=
  fun k o ho => hm k o (h.at_of_at ho)

/-- No event begins too early behind the new one. -/
theorem fixOverlapping_behind (hs : s.map.Linked) (hplain : s.map.Plain)
    (h : s.FixOverlapping TM duration = some (ret, t)) {o' : EventData} (ho' : t.map.At k o')
    (hk : TM < k) : TM + duration - 300 ≤ k := by
  obtain ⟨ret₁, u, hu, ht⟩ := Storing.fixOverlapping_eq h
  have hbefore : Pruned (Storing.Overlapped TM duration) s.map u.map := Storing.pruned_before hs hu
  have hbehind : Pruned (Storing.Overlapped TM duration) u.map t.map :=
    Storing.pruned_behind hbefore.linked ht
  obtain ⟨q, hq, hheap⟩ := hbehind.at_of_at ho'
  have hmem : k ∈ (u.map.second.entries.filter (TM ≤ ·.1)).map Prod.fst :=
    List.mem_map_of_mem (List.mem_filter.mpr
      ⟨(u.map.second.find_eq_some k q).mp hq, decide_eq_true hk.le⟩)
  have hgone := Storing.fixBehind_gone hbefore.linked (Storing.ahead_filter u _)
    (u.map.second.sorted.filter _) ht hmem ho'
  have herase := erasable_of_plain (plain_of_pruned hbefore hplain) ⟨q, hq, hheap⟩ hk.ne'
  by_contra hover
  exact hgone ⟨herase, by omega⟩

/-- Where the new event is short, nothing before it goes. -/
theorem fixOverlapping_short (hs : s.map.Linked) (hp : s.map.second.find TM = some p)
    (ho : s.map.heap p = some o) (hshort : ¬ 300 < o.getDuration)
    (h : s.FixOverlapping TM duration = some (ret, t)) {o' : EventData} (ho' : s.map.At k o')
    (hk : k < TM) : t.map.At k o' := by
  obtain ⟨ret₁, u, hu, ht⟩ := Storing.fixOverlapping_eq h
  rw [fixBefore_start hp ho, if_neg hshort] at hu
  obtain ⟨-, rfl⟩ := Prod.mk.inj (Option.some_inj.mp hu)
  refine ((Storing.pruned_fixBehind hs (Storing.ahead_filter s _) ht).kept k o' ho').resolve_right
    fun hbad => ?_
  obtain ⟨x, hx, rfl⟩ := List.mem_map.mp hbad.1
  have := of_decide_eq_true (List.mem_filter.mp hx).2
  omega

end

/-! ## A stored event -/

section
variable {m n : ServiceMap} {e : Str} {source event_id : Nat} {TM duration : Int} {o : EventData}
  {u v : Storing} {ret : Bool}

/-- The event is not short, or no other event before it lasts into it. -/
def Room (event_id : Nat) (TM duration : Int) (m : ServiceMap) : Prop :=
  300 < duration ∨ ∀ k o, m.At k o → k < TM → o.getEventID ≠ event_id →
    k + o.getDuration - 300 ≤ TM

theorem plain_of_stored (hm : m.Linked) (hplain : m.Plain) (hd : Describes e event_id TM duration)
    (hsource : source = NOWNEXT ∨ source = SCHEDULE)
    (h : Stored e source event_id TM duration o u v ret m n) : u.map.Plain ∧ n.Plain := by
  have hu : u.map.Plain := by
    intro k o' ho'
    rcases (h.placed.at_iff hm).mp ho' with ⟨-, rfl⟩ | ⟨-, ho', -⟩
    · rw [h.type]
      rcases hsource with rfl | rfl <;> decide
    · exact hplain k o' ho'
  obtain ⟨hid, hstart, -⟩ := hd o h.head
  have hprune := Storing.pruned_fixOverlapping (h.placed.linked hm hid hstart) h.fixed
  exact ⟨hu, fun k o' ho' => hu k o' (hprune.at_of_at ((h.same k o').mp ho'))⟩

/-- The schedule stays disjoint just where the event has room. -/
theorem stored_disjoint_iff (hm : m.Linked) (hplain : m.Plain) (hdisjoint : m.Disjoint)
    (hd : Describes e event_id TM duration) (hsource : source = NOWNEXT ∨ source = SCHEDULE)
    (h : Stored e source event_id TM duration o u v ret m n) :
    n.Disjoint ↔ Room event_id TM duration m := by
  obtain ⟨hid, hstart, hduration⟩ := hd o h.head
  have hu := h.placed.linked hm hid hstart
  have hplain' := (plain_of_stored hm hplain hd hsource h).1
  have hprune := Storing.pruned_fixOverlapping hu h.fixed
  have hp : u.map.second.find TM = some m.fresh := by rw [h.placed.second, if_pos rfl]
  have hown : u.map.At TM o := ⟨m.fresh, hp, h.placed.own⟩
  constructor
  · intro hn
    by_contra hroom
    obtain ⟨hshort, hlate⟩ := not_or.mp hroom
    apply hlate
    intro k o' ho' hk hother
    have hk' : u.map.At k o' := (h.placed.at_iff hm).mpr (.inr ⟨hk.ne, ho', hother⟩)
    have hstays := fixOverlapping_short hu hp h.placed.own (hduration ▸ hshort) h.fixed hk' hk
    have hnew : v.map.At TM o := (hprune.kept TM o hown).resolve_right (by
      rintro (⟨hlt, -⟩ | ⟨hlt, -⟩) <;> exact lt_irrefl TM hlt)
    exact hn k o' TM o ((h.same k o').mpr hstays) ((h.same TM o).mpr hnew) hk
  · intro hroom k o₁ k' o₂ h₁ h₂ hlt
    rw [h.same] at h₁ h₂
    have h₁' := (h.placed.at_iff hm).mp (hprune.at_of_at h₁)
    have h₂' := (h.placed.at_iff hm).mp (hprune.at_of_at h₂)
    rcases h₁' with ⟨rfl, rfl⟩ | ⟨hk, hm₁, hother⟩
    · rw [hduration]
      exact fixOverlapping_behind hu hplain' h.fixed h₂ hlt
    rcases h₂' with ⟨rfl, rfl⟩ | ⟨hk', hm₂, -⟩
    · rcases hroom with hlong | hroom
      · -- only the last event before the new one can last into it
        by_cases hlast : ∀ k₁ o', u.map.At k₁ o' → k₁ < k' → k₁ ≤ k
        · exact fixOverlapping_last hu hplain' hp h.placed.own (hduration ▸ hlong) h.fixed h₁ hlt
            hlast
        · push Not at hlast
          obtain ⟨k₁, o', ho', hlt₁, hbetween⟩ := hlast
          rcases (h.placed.at_iff hm).mp ho' with ⟨rfl, -⟩ | ⟨-, hm', -⟩
          · exact absurd hlt₁ (lt_irrefl _)
          · exact (hdisjoint k o₁ k₁ o' hm₁ hm' hbetween).trans hlt₁.le
      · exact hroom k o₁ hm₁ hlt hother
    · exact hdisjoint k o₁ k' o₂ hm₁ hm₂ hlt

end

/-! ## The events of a section -/

theorem string_drop (data : Str) (ptr n : Nat) :
    string (data.drop ptr) 0 n = string data ptr n := by
  unfold string
  rw [List.length_drop, List.drop_drop, Nat.zero_add, Nat.add_zero]
  by_cases hn : n = 0
  · rw [if_pos hn, if_pos hn]
  · have hlen : n ≤ data.length - ptr ↔ ptr + n ≤ data.length := by omega
    simp only [if_neg hn, hlen]

theorem describes_drop {data : Str} {ptr : Nat} {head : Str} (h : string data ptr 10 = some head) :
    Describes (data.drop ptr) (headID head) (headStart head) (headDuration head) := by
  intro o ho
  rw [string_drop, h] at ho
  obtain rfl := Option.some_inj.mp ho
  exact ⟨rfl, rfl, rfl⟩

/-- An event of a section that is not passed. -/
structure EventHere (env : Environment) (data : Str) (ptr size : Nat) (head : Str) : Prop where
  sized : eventSize data ptr = some size
  descriptors : 14 ≤ size
  bytes : string data ptr 10 = some head
  due : env.due head = true

section
variable {env : Environment} {data : Str} {source ptr : Nat} {s : Storing} {r : Nat × Storing}

theorem le_eventSize {size : Nat} (h : eventSize data ptr = some size) : 12 ≤ size := by
  obtain ⟨hi, -, h⟩ := Option.bind_eq_some_iff.mp h
  obtain ⟨lo, -, h⟩ := Option.bind_eq_some_iff.mp h
  obtain rfl := Option.some_inj.mp h
  exact Nat.le_add_left _ _

theorem eventStep_cases (h : eventStep env data source ptr s = some r) :
    ∃ size, eventSize data ptr = some size ∧ r.1 = ptr + size ∧ (r.2 = s ∨
      ∃ head, EventHere env data ptr size head ∧ s.storeEvent (data.drop ptr) size source
        (headID head) (headStart head) (headDuration head) = some r.2) := by
  obtain ⟨size, hsize, h⟩ := Option.bind_eq_some_iff.mp h
  refine ⟨size, hsize, ?_⟩
  split at h
  · obtain rfl := Option.some_inj.mp h
    exact ⟨rfl, .inl rfl⟩
  · obtain ⟨head, hhead, h⟩ := Option.bind_eq_some_iff.mp h
    split at h
    · obtain ⟨t, ht, h⟩ := Option.bind_eq_some_iff.mp h
      obtain rfl := Option.some_inj.mp h
      exact ⟨rfl, .inr ⟨head, ⟨hsize, by omega, hhead, ‹_›⟩, ht⟩⟩
    · obtain rfl := Option.some_inj.mp h
      exact ⟨rfl, .inl rfl⟩

theorem moves_eventStep (stop : Nat) : Moves (eventStep env data source) stop := by
  intro ptr s r _ h
  obtain ⟨size, hsize, hr, -⟩ := eventStep_cases h
  have := le_eventSize hsize
  omega

end

/-- Where neither the event nor its time is there, both iterators tell where it goes, and are of
elements that are still there. -/
def HintsFit (event_id : Nat) (TM : Int) (s : Storing) : Prop :=
  s.map.first.find event_id = none → s.map.second.find TM = none →
    s.prevEventIt.all s.map.first.contains = true ∧ s.prevTimeIt.all s.map.second.contains = true

instance (event_id : Nat) (TM : Int) (s : Storing) : Decidable (HintsFit event_id TM s) :=
  inferInstanceAs (Decidable (_ → _ → _))

/-- Otherwise an iterator of an erased element is used. -/
theorem storeEvent_dangling {s : Storing} {e : Str} {size source event_id : Nat} {TM duration : Int}
    (h : ¬ HintsFit event_id TM s) : s.storeEvent e size source event_id TM duration = none := by
  unfold HintsFit at h
  push Not at h
  obtain ⟨hfirst, hsecond, hints⟩ := h
  unfold Storing.storeEvent Storing.atTime
  rw [hfirst, hsecond]
  change (s.create e size source).bind _ = none
  rw [Option.bind_eq_none_iff]
  intro c hc
  obtain ⟨r, -, hr⟩ := Option.bind_eq_some_iff.mp hc
  obtain rfl := Option.some_inj.mp hr
  by_cases hevent : s.prevEventIt.all s.map.first.contains = true
  · simp [Storing.insertFirst, Storing.insertSecond, Storing.setFirst, hevent, hints hevent]
  · simp [Storing.insertFirst, hevent]

/-- The event at a place of a section is skipped, or it has room in the maps that it comes to and
the iterators fit. -/
def FitsAt (env : Environment) (data : Str) (source : Nat) (x : Nat × Storing) : Prop :=
  ∀ size head, EventHere env data x.1 size head →
    Skips source (headID head) (headStart head) x.2.map ∨
      Room (headID head) (headStart head) (headDuration head) x.2.map ∧
        HintsFit (headID head) (headStart head) x.2

/-- What is so of the maps of a service. -/
structure Schedule (m : ServiceMap) : Prop where
  linked : m.Linked
  plain : m.Plain
  disjoint : m.Disjoint

theorem schedule_empty : Schedule .empty :=
  ⟨linked_empty, fun _ _ ⟨_, h, _⟩ => (nomatch h), fun _ _ _ _ ⟨_, h, _⟩ => (nomatch h)⟩

theorem schedule_eventStep {env : Environment} {data : Str} {source ptr : Nat} {s : Storing}
    {r : Nat × Storing} (hsource : source = NOWNEXT ∨ source = SCHEDULE)
    (h : eventStep env data source ptr s = some r) (hfits : FitsAt env data source (ptr, s))
    (hs : Schedule s.map) : Schedule r.2.map := by
  obtain ⟨size, -, -, hr | ⟨head, hhere, hstore⟩⟩ := eventStep_cases h
  · rwa [hr]
  · have hd := describes_drop hhere.bytes
    rcases storeEvent_cases hs.linked hd hstore with ⟨-, hr⟩ | ⟨hskip, o, u, v, ret, hstored⟩
    · rwa [hr]
    · have hroom := ((hfits size head hhere).resolve_left hskip).1
      exact ⟨hstored.linked, (plain_of_stored hs.linked hs.plain hd hsource hstored).2,
        (stored_disjoint_iff hs.linked hs.plain hs.disjoint hd hsource hstored).mpr hroom⟩

/-! ## Sections -/

/-- The loop over the events of a section. -/
def EventLoop (env : Environment) (data : Str) (source : Nat) (a b : Nat × Storing) : Prop :=
  eventStep env data source a.1 a.2 = some b

/-- A section, and the source it comes from. -/
structure SectionCall extends Reading where
  source : Nat

namespace EpgCache

def call (c : EpgCache) (r : SectionCall) : Option EpgCache :=
  ({ c with state := r.state }.sectionRead r.env r.data r.source).map Prod.snd

/-- Every event of a section has room where the loop comes to it. -/
def Fits (c : EpgCache) (r : SectionCall) : Prop :=
  ∀ e, readEit r.data = some e → ∀ x,
    Leads (EventLoop r.env r.data r.source) e.len (e.firstEvent, c.opened e.service) x →
      x.1 < e.len → FitsAt r.env r.data r.source x

/-- The schedule of every service. -/
def Schedules (c : EpgCache) : Prop := ∀ service m, c.eventDB service = some m → Schedule m

variable {c d : EpgCache} {r : SectionCall}

theorem schedule_opened (h : c.Schedules) (service : EpgKey) : Schedule (c.opened service).map := by
  unfold opened
  cases hm : c.eventDB service with
  | none => exact schedule_empty
  | some m => exact h service m hm

/-- The schedule is disjoint wherever the loop comes to. -/
theorem schedule_leads (hsource : r.source = NOWNEXT ∨ r.source = SCHEDULE) (h : c.Schedules)
    (hfits : c.Fits r) {e : Eit} (he : readEit r.data = some e) {x : Nat × Storing}
    (hx : Leads (EventLoop r.env r.data r.source) e.len (e.firstEvent, c.opened e.service) x) :
    Schedule x.2.map := by
  have hkeep : ∀ a b : Nat × Storing, a.1 < e.len → EventLoop r.env r.data r.source a b →
      FitsAt r.env r.data r.source a → Schedule a.2.map → Schedule b.2.map :=
    fun _ _ _ hstep hgood hs => schedule_eventStep hsource hstep hgood hs
  exact leads_keeps hkeep (hfits e he) hx (schedule_opened h e.service)

theorem eventDB_enter (e : Eit) (source : Nat) (c : EpgCache) :
    (c.enter e source).2.eventDB = c.eventDB ∧ (c.enter e source).2.store = c.store := by
  unfold enter
  split <;> exact ⟨rfl, rfl⟩

theorem eventDB_updated (env : Environment) (service : EpgKey) (source : Nat) (c : EpgCache) :
    (c.updated env service source).eventDB = c.eventDB := by
  unfold updated
  split
  · rfl
  · split <;> rfl

theorem schedules_readEvents (hsource : r.source = NOWNEXT ∨ r.source = SCHEDULE)
    (h : c.Schedules) (hfits : c.Fits r) {e : Eit} (he : readEit r.data = some e)
    (hread : c.readEvents r.env r.data r.source e.len e.firstEvent e.service = some d) :
    d.Schedules := by
  obtain ⟨first, -, hread⟩ := Option.bind_eq_some_iff.mp hread
  obtain ⟨q, hq, hread⟩ := Option.bind_eq_some_iff.mp hread
  obtain rfl := Option.some_inj.mp hread
  have hleads := (walk_leads id (EventLoop r.env r.data r.source) (moves_eventStep _)
    (fun _ _ _ _ hstep => hstep) hq).1
  have hend : Schedule q.2.map := schedule_leads hsource h hfits he hleads
  intro service m hm
  rw [eventDB_updated] at hm
  change Function.update c.eventDB e.service (some q.2.map) service = some m at hm
  by_cases hservice : service = e.service
  · rw [hservice, Function.update_self] at hm
    exact Option.some_inj.mp hm ▸ hend
  · rw [Function.update_of_ne hservice] at hm
    exact h service m hm

theorem schedules_call (hsource : r.source = NOWNEXT ∨ r.source = SCHEDULE) (h : c.Schedules)
    (hfits : c.Fits r) (hcall : c.call r = some d) : d.Schedules := by
  obtain ⟨⟨ret, d'⟩, hread, rfl⟩ := Option.map_eq_some_iff.mp hcall
  unfold sectionRead at hread
  split at hread
  · obtain ⟨-, rfl⟩ := Prod.mk.inj (Option.some_inj.mp hread)
    exact h
  · obtain ⟨e, he, hread⟩ := Option.bind_eq_some_iff.mp hread
    have hdb := eventDB_enter e r.source { c with state := r.state }
    rcases hentered : enter e r.source { c with state := r.state } with ⟨seen, c₁⟩
    rw [hentered] at hread hdb
    dsimp only at hread hdb
    have h₁ : c₁.Schedules := by
      intro service m hm
      rw [hdb.1] at hm
      exact h service m hm
    have hfits₁ : c₁.Fits r := by
      unfold Fits opened at hfits ⊢
      rw [hdb.1, hdb.2]
      exact hfits
    split at hread
    · split at hread
      · obtain ⟨-, rfl⟩ := Prod.mk.inj (Option.some_inj.mp hread)
        exact h₁
      · obtain ⟨c₂, hevents, hread⟩ := Option.bind_eq_some_iff.mp hread
        obtain ⟨-, rfl⟩ := Prod.mk.inj (Option.some_inj.mp hread)
        exact schedules_readEvents hsource h₁ hfits₁ he hevents
    · obtain ⟨-, rfl⟩ := Prod.mk.inj (Option.some_inj.mp hread)
      exact h₁

end EpgCache

/-- A section of the present and following events or of the schedule whose events have room. -/
def Permitted (c : EpgCache) (r : SectionCall) : Prop :=
  (r.source = NOWNEXT ∨ r.source = SCHEDULE) ∧ c.Fits r

theorem schedules_of_runs {c d : EpgCache} (hc : ∀ service, c.eventDB service = none)
    (h : Runs EpgCache.call Permitted c d) : d.Schedules := by
  refine h.invariant (fun _ _ _ hs hr hcall => EpgCache.schedules_call hr.1 hs hr.2 hcall) ?_
  intro service m hm
  exact nomatch (hc service).symm.trans hm

/-- Where every event has room, the schedule of every service is disjoint after every section and
after every event of one. Only events go that overlap with the one that is stored. An event whose
iterators do not fit has no result. -/
theorem schedules_disjoint {c d : EpgCache} (hc : ∀ service, c.eventDB service = none)
    (h : Runs EpgCache.call Permitted c d) :
    (∀ service m, d.eventDB service = some m → m.Disjoint) ∧
    (∀ r, Permitted d r → ∀ e, readEit r.data = some e → ∀ x,
      Leads (EventLoop r.env r.data r.source) e.len (e.firstEvent, d.opened e.service) x →
        x.2.map.Disjoint) ∧
    (∀ (s t : Storing) TM duration ret, s.map.Linked →
      s.FixOverlapping TM duration = some (ret, t) →
        ∀ k o, s.map.At k o → ¬ t.map.At k o → Overlaps TM duration k o) ∧
    ∀ (s : Storing) e size source event_id TM duration, ¬ HintsFit event_id TM s →
      s.storeEvent e size source event_id TM duration = none := by
  have hd := schedules_of_runs hc h
  exact ⟨fun service m hm => (hd service m hm).disjoint,
    fun r hr e he x hx => (EpgCache.schedule_leads hr.1 hd hr.2 he hx).disjoint,
    fun s t TM duration ret hs hfix k o ho hgone => fixOverlapping_overlapped hs hfix ho hgone,
    fun s e size source event_id TM duration h => storeEvent_dangling h⟩

/-! ## An event of five minutes -/

/-- A section of the schedule of one service. -/
def sampleSection (number : Byte) (events : Str) : SectionCall where
  state := 0
  env := ⟨1005480000, 7, fun _ => true⟩
  data := [0x50, 0xF0, (events.length + 15).toUInt8, 0, 1, 0xC1, number, 1, 0, 1, 0, 1, 1, 0x50] ++
    events
  source := SCHEDULE

/-- An event of that day, with a descriptor that is not kept. The times are in BCD. -/
def sampleEvent (id : Byte) (hour minute hours minutes : Byte) : Str :=
  [0, id, 0xCC, 0x00, hour, minute, 0x00, hours, minutes, 0x00, 0x80, 0x02, 0x55, 0x00]

/-- From 12:00 to 12:30. -/
def longEvent : Str := sampleEvent 1 0x12 0x00 0x00 0x30

/-- From 12:10 to 12:15. -/
def shortEvent : Str := sampleEvent 2 0x12 0x10 0x00 0x05

/-- From 12:00 to 12:30 and from 12:40 to 13:20. -/
def earlySection : SectionCall := sampleSection 0 (longEvent ++ sampleEvent 2 0x12 0x40 0x00 0x40)

/-- From 12:10 to 12:50 and from 13:00 to 14:00. -/
def lateSection : SectionCall :=
  sampleSection 1 (sampleEvent 3 0x12 0x10 0x00 0x40 ++ sampleEvent 4 0x13 0x00 0x01 0x00)

/-- When the events of the service begin, and how long they last. -/
def times (c : EpgCache) : Option (List (Int × Int)) :=
  (c.eventDB ⟨1, 1, 1⟩).map fun m =>
    m.second.entries.filterMap fun x => (m.heap x.2).map fun o => (x.1, o.getDuration)

theorem at_of_times {c : EpgCache} {l : List (Int × Int)} (h : times c = some l) :
    ∃ m, c.eventDB ⟨1, 1, 1⟩ = some m ∧ ∀ k n, (k, n) ∈ l → ∃ o, m.At k o ∧ o.getDuration = n := by
  obtain ⟨m, hm, rfl⟩ := Option.map_eq_some_iff.mp h
  refine ⟨m, hm, fun k n hkn => ?_⟩
  obtain ⟨⟨k', p⟩, hp, hkn⟩ := List.mem_filterMap.mp hkn
  obtain ⟨o, ho, hkn⟩ := Option.map_eq_some_iff.mp hkn
  obtain ⟨rfl, rfl⟩ := Prod.mk.inj hkn
  exact ⟨o, ⟨p, (m.second.find_eq_some k' p).mpr hp, ho⟩, rfl⟩

/-- From here on the loop finds long events only, and iterators that fit. -/
def longFrom (r : SectionCall) (stop : Nat) : Nat → Nat × Storing → Bool
  | 0, x => stop ≤ x.1
  | n + 1, x => stop ≤ x.1 ||
    (string r.data x.1 10).any (fun head =>
      300 < headDuration head ∧ HintsFit (headID head) (headStart head) x.2) &&
    (eventStep r.env r.data r.source x.1 x.2).any (longFrom r stop n)

theorem fitsAt_of_longFrom {r : SectionCall} {stop n : Nat} {a x : Nat × Storing}
    (h : longFrom r stop n a = true) (hx : Leads (EventLoop r.env r.data r.source) stop a x)
    (hlt : x.1 < stop) : FitsAt r.env r.data r.source x := by
  induction n generalizing a with
  | zero =>
    have hend : stop ≤ a.1 := of_decide_eq_true h
    rcases leads_cases hx with rfl | ⟨hstart, -⟩ <;> omega
  | succ n ih =>
    rw [longFrom, Bool.or_eq_true, Bool.and_eq_true, Option.any_eq_true, Option.any_eq_true] at h
    rcases h with hend | ⟨⟨head, hhead, hlong⟩, y, hy, hrest⟩
    · have hend : stop ≤ a.1 := of_decide_eq_true hend
      rcases leads_cases hx with rfl | ⟨hstart, -⟩ <;> omega
    · rcases leads_cases hx with rfl | ⟨-, c, hc, hx⟩
      · intro size head' hhere
        obtain rfl := Option.some_inj.mp (hhead.symm.trans hhere.bytes)
        obtain ⟨hlong, hints⟩ := of_decide_eq_true hlong
        exact .inr ⟨.inl hlong, hints⟩
      · obtain rfl := Option.some_inj.mp (hy.symm.trans hc)
        exact ih hrest hx

/-- The two events of a section are long. -/
def bothLong (c : EpgCache) (r : SectionCall) : Bool :=
  (readEit r.data).all fun e => longFrom r e.len 2 (e.firstEvent, c.opened e.service)

theorem permitted_of_bothLong {c : EpgCache} {r : SectionCall} (hr : r.source = SCHEDULE)
    (h : bothLong c r = true) : Permitted c r := by
  refine ⟨.inr hr, fun e he x hx hlt => ?_⟩
  rw [bothLong, he] at h
  exact fitsAt_of_longFrom h hx hlt

/-- The event at 12:10 puts both others out, and the one behind it stays. -/
theorem late_section_disjoint : ∃ d, Runs EpgCache.call Permitted .initial d ∧
    times d = some [(1005480600, 2400), (1005483600, 3600)] ∧
    (∀ service m, d.eventDB service = some m → m.Disjoint) := by
  have hearly : bothLong .initial earlySection = true := by decide +kernel
  have htimes : (EpgCache.initial.call earlySection).map (fun c =>
        (times c, bothLong c lateSection, (c.call lateSection).bind times)) =
      some (some [(1005480000, 1800), (1005482400, 2400)], true,
        some [(1005480600, 2400), (1005483600, 3600)]) := by
    decide +kernel
  obtain ⟨c, hc, heq⟩ := Option.map_eq_some_iff.mp htimes
  simp only [Prod.mk.injEq] at heq
  obtain ⟨-, hlate, hend⟩ := heq
  obtain ⟨d, hd, ht⟩ := Option.bind_eq_some_iff.mp hend
  have hrun : Runs EpgCache.call Permitted .initial d :=
    (Runs.refl.tail _ (permitted_of_bothLong rfl hearly) hc).tail _
      (permitted_of_bothLong rfl hlate) hd
  exact ⟨d, hrun, ht, (schedules_disjoint (fun _ => rfl) hrun).1⟩

/-- The programme from 12:00 stays when one of five minutes comes at 12:10. -/
theorem short_event_overlaps : ∃ d, Runs EpgCache.call
      (fun _ r => r.source = NOWNEXT ∨ r.source = SCHEDULE) .initial d ∧
    ¬ ∀ service m, d.eventDB service = some m → m.Disjoint := by
  have htimes : (EpgCache.initial.call (sampleSection 0 (longEvent ++ shortEvent))).bind times =
      some [(1005480000, 1800), (1005480600, 300)] := by decide +kernel
  obtain ⟨d, hd, ht⟩ := Option.bind_eq_some_iff.mp htimes
  refine ⟨d, Runs.refl.tail (sampleSection 0 (longEvent ++ shortEvent)) (.inr rfl) hd, fun h => ?_⟩
  obtain ⟨m, hm, hat⟩ := at_of_times ht
  obtain ⟨o, ho, hduration⟩ := hat 1005480000 1800 (by decide)
  obtain ⟨o', ho', -⟩ := hat 1005480600 300 (by decide)
  have hend := h _ m hm _ o _ o' ho ho' (by decide)
  rw [hduration] at hend
  exact absurd hend (by decide)

end Tuxbox.Enigma.Epg
