import Tuxbox.Enigma.EpgLinked

/-!
# What storing an event does

An event is skipped, or it comes into both maps, and then the events it overlaps with go.

* `PutFirst`, `Skipped`: what each way leaves of the maps;
-/

namespace Tuxbox.Enigma.Epg

open Buffer ServiceMap

theorem contains_of_find {κ υ : Type} [LinearOrder κ] {m : OrdMap κ υ} {k : κ} {v : υ}
    (h : m.find k = some v) : m.contains k = true := by
  rw [OrdMap.contains, h]
  rfl

/-! ## One map -/

/-- A pointer comes into the `eventMap`. The object that was there is deleted. -/
structure PutFirst (event_id : Nat) (p : EventPtr) (m n : ServiceMap) : Prop where
  first : ∀ id, n.first.find id = if id = event_id then some p else m.first.find id
  second : n.second = m.second
  heap : ∀ q, m.first.find event_id ≠ some q → n.heap q = m.heap q
  dead : ∀ q, m.heap q = none → n.heap q = none
  fresh : n.fresh = m.fresh

structure PutSecond (TM : Int) (p : EventPtr) (m n : ServiceMap) : Prop where
  second : ∀ k, n.second.find k = if k = TM then some p else m.second.find k
  first : n.first = m.first
  heap : ∀ q, m.second.find TM ≠ some q → n.heap q = m.heap q
  dead : ∀ q, m.heap q = none → n.heap q = none
  fresh : n.fresh = m.fresh

section
variable {s t : Storing} {event_id : Nat} {TM : Int} {p : EventPtr}

theorem update_dead {heap : EventPtr → Option EventData} (p : EventPtr) {q : EventPtr}
    (h : heap q = none) : Function.update heap p none q = none := by
  by_cases hq : q = p
  · rw [hq, Function.update_self]
  · rw [Function.update_of_ne hq, h]

theorem replaceFirst_put (h : s.replaceFirst event_id p = some t) :
    PutFirst event_id p s.map t.map := by
  unfold Storing.replaceFirst at h
  obtain ⟨old, hold, h⟩ := Option.bind_eq_some_iff.mp h
  obtain ⟨u, hu, h⟩ := Option.bind_eq_some_iff.mp h
  obtain rfl := Option.some_inj.mp h
  obtain ⟨o, store, -, rfl⟩ := Storing.delete_eq hu
  refine ⟨fun id => OrdMap.find_set _ _ _ _, rfl, fun q hq => ?_, fun q => update_dead old, rfl⟩
  have hne : q ≠ old := by
    rintro rfl
    exact hq hold
  exact Function.update_of_ne hne none s.map.heap

theorem replaceSecond_put (h : s.replaceSecond TM p = some t) : PutSecond TM p s.map t.map := by
  unfold Storing.replaceSecond at h
  obtain ⟨old, hold, h⟩ := Option.bind_eq_some_iff.mp h
  obtain ⟨u, hu, h⟩ := Option.bind_eq_some_iff.mp h
  obtain rfl := Option.some_inj.mp h
  obtain ⟨o, store, -, rfl⟩ := Storing.delete_eq hu
  refine ⟨fun k => OrdMap.find_set _ _ _ _, rfl, fun q hq => ?_, fun q => update_dead old, rfl⟩
  have hne : q ≠ old := by
    rintro rfl
    exact hq hold
  exact Function.update_of_ne hne none s.map.heap

theorem insertFirst_put (h : s.insertFirst event_id p = some t)
    (hnew : s.map.first.find event_id = none) : PutFirst event_id p s.map t.map := by
  unfold Storing.insertFirst at h
  split at h
  · obtain rfl := Option.some_inj.mp h
    refine ⟨fun id => ?_, rfl, fun _ _ => rfl, fun _ hq => hq, rfl⟩
    refine (OrdMap.find_insertNew _ _ _ _).trans ?_
    rw [hnew, Option.getD_none]
  · exact nomatch h

theorem insertSecond_put (h : s.insertSecond TM p = some t)
    (hnew : s.map.second.find TM = none) : PutSecond TM p s.map t.map := by
  unfold Storing.insertSecond at h
  split at h
  · obtain rfl := Option.some_inj.mp h
    refine ⟨fun k => ?_, rfl, fun _ _ => rfl, fun _ hq => hq, rfl⟩
    refine (OrdMap.find_insertNew _ _ _ _).trans ?_
    rw [hnew, Option.getD_none]
  · exact nomatch h

end

theorem putFirst_set (s : Storing) (event_id : Nat) (p : EventPtr) :
    PutFirst event_id p s.map (s.setFirst (s.map.first.set event_id p)).map :=
  ⟨fun _ => OrdMap.find_set _ _ _ _, rfl, fun _ _ => rfl, fun _ hq => hq, rfl⟩

theorem putSecond_set (s : Storing) (TM : Int) (p : EventPtr) :
    PutSecond TM p s.map (s.setSecond (s.map.second.set TM p)).map :=
  ⟨fun _ => OrdMap.find_set _ _ _ _, rfl, fun _ _ => rfl, fun _ hq => hq, rfl⟩

/-! ## Both maps -/

/-- The places of an event are free, but for the objects that are deleted when it comes. -/
structure Cleared (event_id : Nat) (TM : Int) (m n : ServiceMap) : Prop where
  first : ∀ id, id ≠ event_id →
    n.first.find id = if m.idAt TM = some id then none else m.first.find id
  firstOwn : n.first.find event_id = m.first.find event_id
  second : ∀ k, k ≠ TM →
    n.second.find k = if m.timeOf event_id = some k then none else m.second.find k
  secondOwn : n.second.find TM = m.second.find TM
  heap : n.heap = m.heap
  fresh : n.fresh = m.fresh

section
variable {s t : Storing} {e : Str} {size source event_id : Nat} {TM duration : Int}

/-- A new object in both maps. -/
theorem placed_of_put {m n u v : ServiceMap} {o : EventData} (hm : m.Linked)
    (hclear : Cleared event_id TM m n)
    (hfirst : PutFirst event_id n.fresh
      { n with heap := Function.update n.heap n.fresh (some o), fresh := n.fresh + 1 } u)
    (hsecond : PutSecond TM n.fresh u v) : Placed event_id TM o m v := by
  have hlive : ∀ {q}, m.heap q ≠ none → q ≠ m.fresh := fun hq heq =>
    hq (heq ▸ hm.fresh _ le_rfl)
  have hown : n.first.find event_id ≠ some m.fresh ∧ n.second.find TM ≠ some m.fresh := by
    rw [hclear.firstOwn, hclear.secondOwn]
    constructor
    · intro h
      obtain ⟨o', ho', -⟩ := hm.byId _ _ h
      exact hlive (by rw [ho']; exact Option.some_ne_none _) rfl
    · intro h
      obtain ⟨o', ho', -⟩ := hm.byTime _ _ h
      exact hlive (by rw [ho']; exact Option.some_ne_none _) rfl
  have hu : u.second.find TM = n.second.find TM := by rw [hfirst.second]
  constructor
  · intro id
    rw [hsecond.first, hfirst.first, hclear.fresh]
    split
    · rfl
    · exact hclear.first id ‹_›
  · intro k
    rw [hsecond.second, hfirst.second, hclear.fresh]
    split
    · rfl
    · exact hclear.second k ‹_›
  · rw [hsecond.heap _ (hu ▸ hown.2), hfirst.heap _ hown.1, ← hclear.fresh]
    exact Function.update_self _ _ _
  · intro q hq hid hTM
    rw [hsecond.heap q (by rw [hu, hclear.secondOwn]; exact hTM),
      hfirst.heap q (by rw [hclear.firstOwn]; exact hid), ← hclear.heap]
    exact Function.update_of_ne (hclear.fresh ▸ hq) _ _
  · intro q hq
    rw [hsecond.fresh, hfirst.fresh] at hq
    apply hsecond.dead
    apply hfirst.dead
    have hne : q ≠ n.fresh := by
      rintro rfl
      exact absurd hq (Nat.not_succ_le_self _)
    refine (Function.update_of_ne hne _ _).trans ?_
    rw [hclear.heap]
    exact hm.fresh q (hclear.fresh ▸ Nat.le_of_succ_le hq)

/-- What is done with an event that is not skipped: it comes into its places, and the others that
it overlaps with go. -/
structure Stored (e : Str) (source event_id : Nat) (TM duration : Int) (o : EventData)
    (u v : Storing) (ret : Bool) (m n : ServiceMap) : Prop where
  head : string e 0 10 = some o.head
  type : o.type = UInt8.ofNat source
  placed : Placed event_id TM o m u.map
  fixed : u.FixOverlapping TM duration = some (ret, v)
  linked : n.Linked
  same : ∀ k o', n.At k o' ↔ v.map.At k o'

theorem stored_of_put {m : ServiceMap} (hm : m.Linked) (hd : Describes e event_id TM duration)
    (hclear : Cleared event_id TM m s.map) {o : EventData} (hhead : string e 0 10 = some o.head)
    (htype : o.type = UInt8.ofNat source) {w u : Storing}
    (hfirst : PutFirst event_id s.map.fresh
      { s.map with
        heap := Function.update s.map.heap s.map.fresh (some o), fresh := s.map.fresh + 1 } w.map)
    (hsecond : PutSecond TM s.map.fresh w.map u.map) (h : u.fixed TM duration = some t) :
    ∃ o u v ret, Stored e source event_id TM duration o u v ret m t.map := by
  have hplaced := placed_of_put hm hclear hfirst hsecond
  obtain ⟨hid, hstart, -⟩ := hd o hhead
  have hu := hplaced.linked hm hid hstart
  obtain ⟨ret, v, hfixed, htv⟩ := Storing.fixed_eq h
  have hv := (Storing.pruned_fixOverlapping hu hfixed).linked
  exact ⟨o, u, v, ret, hhead, htype, hplaced, hfixed, htv ▸ hv, fun k o' => htv ▸ Iff.rfl⟩

theorem place_stored {m : ServiceMap} (hm : m.Linked) (hd : Describes e event_id TM duration)
    {ev_erase tm_erase : Bool}
    (h : s.place e size source event_id TM duration ev_erase tm_erase = some t)
    (hclear : Cleared event_id TM m s.map) (hev : ev_erase = false → m.second.find TM = none)
    (htm : tm_erase = false → m.first.find event_id = none) :
    ∃ o u v ret, Stored e source event_id TM duration o u v ret m t.map := by
  unfold Storing.place at h
  obtain ⟨⟨p, c⟩, hc, h⟩ := Option.bind_eq_some_iff.mp h
  obtain ⟨rfl, o, store, hhead, htype, rfl⟩ := Storing.create_eq hc
  cases ev_erase <;> cases tm_erase
  all_goals
    obtain ⟨w, hw, h⟩ := Option.bind_eq_some_iff.mp h
    obtain ⟨u, hu, h⟩ := Option.bind_eq_some_iff.mp h
  · have hfirst := insertFirst_put hw (hclear.firstOwn.trans (htm rfl))
    have hfree : w.map.second.find TM = none := by
      rw [hfirst.second]
      exact hclear.secondOwn.trans (hev rfl)
    exact stored_of_put hm hd hclear hhead htype hfirst (insertSecond_put hu hfree) h
  · have hfirst := replaceFirst_put hw
    have hfree : w.map.second.find TM = none := by
      rw [hfirst.second]
      exact hclear.secondOwn.trans (hev rfl)
    exact stored_of_put hm hd hclear hhead htype hfirst (insertSecond_put hu hfree) h
  · have hfirst := insertFirst_put hw (hclear.firstOwn.trans (htm rfl))
    exact stored_of_put hm hd hclear hhead htype hfirst (replaceSecond_put hu) h
  · exact stored_of_put hm hd hclear hhead htype (replaceFirst_put hw) (replaceSecond_put hu) h

/-- An object that is in no map may be deleted. -/
theorem linked_delete {m : ServiceMap} (hm : m.Linked) {q : EventPtr}
    (hq : ∀ k, m.second.find k ≠ some q) :
    ({ m with heap := Function.update m.heap q none } : ServiceMap).Linked ∧
      ∀ k o, ServiceMap.At { m with heap := Function.update m.heap q none } k o ↔ m.At k o := by
  have hkeep : ∀ {k p}, m.second.find k = some p → Function.update m.heap q none p = m.heap p := by
    intro k p hp
    have hne : p ≠ q := by
      rintro rfl
      exact hq k hp
    exact Function.update_of_ne hne none m.heap
  refine ⟨⟨fun k p hp => ?_, fun id p hp => ?_, fun p hp => update_dead q (hm.fresh p hp)⟩,
    fun k o => ⟨?_, ?_⟩⟩
  · obtain ⟨o, ho, hstart, hfirst⟩ := hm.byTime k p hp
    exact ⟨o, (hkeep hp).trans ho, hstart, hfirst⟩
  · obtain ⟨o, ho, hid, hsecond⟩ := hm.byId id p hp
    exact ⟨o, (hkeep hsecond).trans ho, hid, hsecond⟩
  · rintro ⟨p, hp, ho⟩
    exact ⟨p, hp, (hkeep hp).symm.trans ho⟩
  · rintro ⟨p, hp, ho⟩
    exact ⟨p, hp, (hkeep hp).trans ho⟩

/-- The same event at the same time. -/
theorem renew_stored (hs : s.map.Linked) (hd : Describes e event_id TM duration) {old : EventPtr}
    {o : EventData} (hfirst : s.map.first.find event_id = some old)
    (hsecond : s.map.second.find TM = some old) (ho : s.map.heap old = some o)
    (h : s.renew e size source event_id TM duration old = some t) :
    ∃ o u v ret, Stored e source event_id TM duration o u v ret s.map t.map := by
  obtain ⟨hid, hstart⟩ := hs.second_of_first hfirst ho
  have hTM : o.getStartTime = TM := hs.second_inj hstart hsecond
  unfold Storing.renew at h
  obtain ⟨⟨p, c⟩, hcreate, h⟩ := Option.bind_eq_some_iff.mp h
  obtain ⟨rfl, o₁, store, hhead, htype, hc⟩ := Storing.create_eq hcreate
  have hmap : c.map = { s.map with
      heap := Function.update s.map.heap s.map.fresh (some o₁), fresh := s.map.fresh + 1 } := by
    rw [hc]
  obtain ⟨w, hw, h⟩ := Option.bind_eq_some_iff.mp h
  obtain ⟨ret, v, hfixed, hwv⟩ := Storing.fixed_eq hw
  obtain ⟨o₂, store', -, rfl⟩ := Storing.delete_eq h
  have hidAt : s.map.idAt TM = some event_id := by
    rw [idAt, hsecond, Option.bind_some, ho, ← hid]
    rfl
  have htimeOf : s.map.timeOf event_id = some TM := by
    rw [timeOf, hfirst, Option.bind_some, ho, ← hTM]
    rfl
  have hclear : Cleared event_id TM s.map s.map := by
    refine ⟨fun id hne => ?_, rfl, fun k hne => ?_, rfl, rfl, rfl⟩
    · rw [hidAt, if_neg fun heq => hne (Option.some_inj.mp heq).symm]
    · rw [htimeOf, if_neg fun heq => hne (Option.some_inj.mp heq).symm]
  have hplaced := placed_of_put hs hclear (by
      rw [← hmap]
      exact putFirst_set c event_id s.map.fresh)
    (putSecond_set (c.setFirst (c.map.first.set event_id s.map.fresh)) TM s.map.fresh)
  obtain ⟨hid₁, hstart₁, -⟩ := hd o₁ hhead
  have hprune := Storing.pruned_fixOverlapping (hplaced.linked hs hid₁ hstart₁) hfixed
  have hold : ∀ k, w.map.second.find k ≠ some old := by
    intro k hk
    rw [hwv] at hk
    have hu := (hprune.second k old hk).1
    by_cases hkTM : k = TM
    · rw [hkTM, hplaced.second, if_pos rfl] at hu
      rw [← Option.some_inj.mp hu, hs.fresh _ le_rfl] at ho
      exact nomatch ho
    · obtain ⟨-, hsk, -⟩ := (hplaced.second_ne hs hkTM).mp hu
      exact hkTM (hs.second_inj hsk hsecond)
  have hdelete := linked_delete (hwv ▸ hprune.linked : w.map.Linked) hold
  exact ⟨o₁, _, v, ret, hhead, htype, hplaced, hfixed, hdelete.1,
    fun k o' => hwv ▸ hdelete.2 k o'⟩

/-- An event of a better source is there, under the id or at the time. -/
def Skips (source event_id : Nat) (TM : Int) (m : ServiceMap) : Prop :=
  (∃ p o, m.first.find event_id = some p ∧ m.heap p = some o ∧ source > o.type.toNat) ∨
    m.first.find event_id = none ∧ ∃ o, m.At TM o ∧ source > o.type.toNat

/-- Where the event was not there before. -/
theorem atTime_cases (hs : s.map.Linked) (hd : Describes e event_id TM duration)
    (hnew : s.map.first.find event_id = none)
    (h : s.atTime e size source event_id TM duration false = some t) :
    Skips source event_id TM s.map ∧ t = s ∨ ¬ Skips source event_id TM s.map ∧
      ∃ o u v ret, Stored e source event_id TM duration o u v ret s.map t.map := by
  have htime : s.map.timeOf event_id = none := by
    rw [timeOf, hnew]
    rfl
  unfold Storing.atTime at h
  split at h
  · rename_i hfree
    have hid : s.map.idAt TM = none := by
      rw [idAt, hfree]
      rfl
    have hclear : Cleared event_id TM s.map s.map :=
      ⟨fun id _ => by rw [hid]; rfl, rfl, fun k _ => by rw [htime]; rfl, rfl, rfl, rfl⟩
    refine .inr ⟨?_, place_stored hs hd h hclear (fun _ => hfree) fun _ => hnew⟩
    rintro (⟨p, o, hp, -⟩ | ⟨-, o, ⟨p, hp, -⟩, -⟩)
    · exact nomatch hnew.symm.trans hp
    · exact nomatch hfree.symm.trans hp
  · rename_i p hp
    obtain ⟨o, ho, h⟩ := Option.bind_eq_some_iff.mp h
    have hfirst := hs.first_of_at hp ho
    split at h
    · rename_i hskip
      exact .inl ⟨.inr ⟨hnew, o, ⟨p, hp, ho⟩, hskip.1⟩, (Option.some_inj.mp h).symm⟩
    · rename_i hskip
      have hother : o.getEventID ≠ event_id := by
        intro hid
        rw [hid, hnew] at hfirst
        exact nomatch hfirst
      rw [if_pos (contains_of_find hfirst)] at h
      refine .inr ⟨?_, place_stored hs hd h ?_ (fun hf => nomatch hf) fun _ => hnew⟩
      · rintro (⟨q, o', hq, -⟩ | ⟨-, o', ho', hsource⟩)
        · exact nomatch hnew.symm.trans hq
        · rw [ho'.unique ⟨p, hp, ho⟩] at hsource
          exact hskip ⟨hsource, rfl⟩
      · have hidAt : s.map.idAt TM = some o.getEventID := by
          rw [idAt, hp, Option.bind_some, ho]
          rfl
        refine ⟨fun id hid => ?_, ?_, fun k _ => by rw [htime]; rfl, rfl, rfl, rfl⟩
        · rw [hidAt]
          refine (OrdMap.find_erase _ _ _).trans ?_
          simp only [Option.some.injEq, eq_comm]
        · exact (OrdMap.find_erase _ _ _).trans (if_neg hother.symm)

/-- Where the event was there at another time. -/
theorem atTime_moved (hs : s.map.Linked) (hd : Describes e event_id TM duration) {old : EventPtr}
    {o : EventData} (hfirst : s.map.first.find event_id = some old) (ho : s.map.heap old = some o)
    (hTM : o.getStartTime ≠ TM)
    (h : Storing.atTime e size source event_id TM duration true
      { s.setSecond (s.map.second.erase o.getStartTime) with prevTimeIt := none } = some t) :
    ∃ o u v ret, Stored e source event_id TM duration o u v ret s.map t.map := by
  have htimeOf : s.map.timeOf event_id = some o.getStartTime := by
    rw [timeOf, hfirst, Option.bind_some, ho]
    rfl
  have hsecond : ∀ k, k ≠ TM → (s.map.second.erase o.getStartTime).find k =
      if s.map.timeOf event_id = some k then none else s.map.second.find k := by
    intro k _
    rw [htimeOf, OrdMap.find_erase]
    simp only [Option.some.injEq, eq_comm]
  have hown : (s.map.second.erase o.getStartTime).find TM = s.map.second.find TM := by
    rw [OrdMap.find_erase, if_neg hTM.symm]
  unfold Storing.atTime at h
  split at h
  · rename_i hfree
    have hfree' : s.map.second.find TM = none := hown.symm.trans hfree
    have hid : s.map.idAt TM = none := by
      rw [idAt, hfree']
      rfl
    refine place_stored hs hd h ?_ (fun _ => hfree') fun hf => nomatch hf
    exact ⟨fun id _ => by rw [hid]; rfl, rfl, hsecond, hown, rfl, rfl⟩
  · rename_i p hp
    have hp' : s.map.second.find TM = some p := hown.symm.trans hp
    obtain ⟨o', ho', h⟩ := Option.bind_eq_some_iff.mp h
    have ho'' : s.map.heap p = some o' := ho'
    have hother := hs.first_of_at hp' ho''
    have hne : event_id ≠ o'.getEventID := by
      rintro rfl
      rw [hfirst] at hother
      rw [← Option.some_inj.mp hother, ho] at ho''
      exact hTM (Option.some_inj.mp ho'' ▸ hs.start ⟨p, hp', ho'⟩)
    have hidAt : s.map.idAt TM = some o'.getEventID := by
      rw [idAt, hp', Option.bind_some, ho'']
      rfl
    rw [if_neg fun hskip => nomatch hskip.2] at h
    have hplace := (if_pos (contains_of_find hother)).symm.trans h
    refine place_stored hs hd hplace ?_ (fun hf => nomatch hf) fun hf => nomatch hf
    refine ⟨fun id _ => ?_, ?_, hsecond, hown, rfl, rfl⟩
    · rw [hidAt]
      refine (OrdMap.find_erase _ _ _).trans ?_
      simp only [Option.some.injEq, eq_comm]
      rfl
    · exact (OrdMap.find_erase _ _ _).trans (if_neg hne)

/-- An event is skipped where a better source has it or its time, and else it is stored. -/
theorem storeEvent_cases (hs : s.map.Linked) (hd : Describes e event_id TM duration)
    (h : s.storeEvent e size source event_id TM duration = some t) :
    Skips source event_id TM s.map ∧ t = s ∨ ¬ Skips source event_id TM s.map ∧
      ∃ o u v ret, Stored e source event_id TM duration o u v ret s.map t.map := by
  unfold Storing.storeEvent at h
  split at h
  · exact atTime_cases hs hd ‹_› h
  · rename_i p hp
    obtain ⟨o, ho, h⟩ := Option.bind_eq_some_iff.mp h
    obtain ⟨hid, hsecond⟩ := hs.second_of_first hp ho
    split at h
    · rename_i hsource
      exact .inl ⟨.inl ⟨p, o, hp, ho, hsource⟩, (Option.some_inj.mp h).symm⟩
    · rename_i hsource
      refine .inr ⟨?_, ?_⟩
      · rintro (⟨q, o', hq, ho', hskip⟩ | ⟨hnew, -⟩)
        · obtain rfl := Option.some_inj.mp (hp.symm.trans hq)
          obtain rfl := Option.some_inj.mp (ho.symm.trans ho')
          exact hsource hskip
        · exact nomatch hp.symm.trans hnew
      · rw [if_pos (contains_of_find hsecond)] at h
        split at h
        · rename_i hTM
          exact renew_stored hs hd hp (hTM ▸ hsecond) ho h
        · exact atTime_moved hs hd hp ho ‹_› h

end

end Tuxbox.Enigma.Epg
