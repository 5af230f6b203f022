import Tuxbox.Enigma.EpgCache

/-!
# The two maps of a service

Each object is in both maps, under its event id and under its start time.
-/

namespace Tuxbox.Enigma.Epg

open Buffer

namespace ServiceMap

/-- Each map has every object of the other, under the key that the object says. -/
structure Linked (m : ServiceMap) : Prop where
  byTime : ∀ k p, m.second.find k = some p → ∃ o, m.heap p = some o ∧ o.getStartTime = k ∧
    m.first.find o.getEventID = some p
  byId : ∀ k p, m.first.find k = some p → ∃ o, m.heap p = some o ∧ o.getEventID = k ∧
    m.second.find o.getStartTime = some p
  fresh : ∀ p, m.fresh ≤ p → m.heap p = none

/-- The event stored at a time. -/
def At (m : ServiceMap) (k : Int) (o : EventData) : Prop :=
  ∃ p, m.second.find k = some p ∧ m.heap p = some o

variable {m : ServiceMap}

theorem linked_empty : empty.Linked :=
  ⟨fun _ _ h => (nomatch h), fun _ _ h => (nomatch h), fun _ _ => rfl⟩

theorem Linked.start (h : m.Linked) {k : Int} {o : EventData} (ho : m.At k o) :
    o.getStartTime = k := by
  obtain ⟨p, hp, hheap⟩ := ho
  obtain ⟨o', ho', hstart, -⟩ := h.byTime k p hp
  rwa [Option.some_inj.mp (hheap.symm.trans ho')]

theorem At.unique {k : Int} {o o' : EventData} (h : m.At k o) (h' : m.At k o') : o = o' := by
  obtain ⟨p, hp, ho⟩ := h
  obtain ⟨p', hp', ho'⟩ := h'
  rw [hp] at hp'
  rw [← Option.some_inj.mp hp'] at ho'
  exact Option.some_inj.mp (ho.symm.trans ho')

/-- The same object is found by its id. -/
theorem Linked.first_of_at (h : m.Linked) {k : Int} {p : EventPtr} {o : EventData}
    (hp : m.second.find k = some p) (ho : m.heap p = some o) :
    m.first.find o.getEventID = some p := by
  obtain ⟨o', ho', -, hfirst⟩ := h.byTime k p hp
  rwa [Option.some_inj.mp (ho.symm.trans ho')]

theorem Linked.second_of_first (h : m.Linked) {id : Nat} {p : EventPtr} {o : EventData}
    (hp : m.first.find id = some p) (ho : m.heap p = some o) :
    o.getEventID = id ∧ m.second.find o.getStartTime = some p := by
  obtain ⟨o', ho', hid, hsecond⟩ := h.byId id p hp
  rw [Option.some_inj.mp (ho.symm.trans ho')]
  exact ⟨hid, hsecond⟩

/-- An object is at one time. -/
theorem Linked.second_inj (h : m.Linked) {k k' : Int} {p : EventPtr} (hk : m.second.find k = some p)
    (hk' : m.second.find k' = some p) : k = k' := by
  obtain ⟨o, ho, rfl, -⟩ := h.byTime k p hk
  obtain ⟨o', ho', rfl, -⟩ := h.byTime k' p hk'
  rw [Option.some_inj.mp (ho.symm.trans ho')]

end ServiceMap

open ServiceMap

/-! ## Objects -/

theorem initEventData_head {e : Str} {size type : Nat} {s s' : EventStore} {o : EventData}
    (h : initEventData e size type s = some (s', o)) :
    string e 0 10 = some o.head ∧ o.type = UInt8.ofNat type := by
  unfold initEventData at h
  obtain ⟨r, -, h⟩ := Option.bind_eq_some_iff.mp h
  dsimp only at h
  split at h
  · exact nomatch h
  · obtain ⟨head, hhead, h⟩ := Option.bind_eq_some_iff.mp h
    obtain ⟨-, rfl⟩ := Prod.mk.inj (Option.some_inj.mp h)
    exact ⟨hhead, rfl⟩

/-- The bytes of an event say its id, its start and its duration. -/
def Describes (e : Str) (event_id : Nat) (TM duration : Int) : Prop :=
  ∀ o : EventData, string e 0 10 = some o.head →
    o.getEventID = event_id ∧ o.getStartTime = TM ∧ o.getDuration = duration

namespace Storing

variable {s t : Storing} {p : EventPtr}

theorem create_eq {e : Str} {size source : Nat} (h : s.create e size source = some (p, t)) :
    p = s.map.fresh ∧ ∃ o store, string e 0 10 = some o.head ∧ o.type = UInt8.ofNat source ∧
      t = { s with store := store, map := { s.map with
        heap := Function.update s.map.heap s.map.fresh (some o), fresh := s.map.fresh + 1 } } := by
  unfold create at h
  obtain ⟨⟨store, o⟩, ho, h⟩ := Option.bind_eq_some_iff.mp h
  obtain ⟨rfl, rfl⟩ := Prod.mk.inj (Option.some_inj.mp h)
  obtain ⟨hhead, htype⟩ := initEventData_head ho
  exact ⟨rfl, o, store, hhead, htype, rfl⟩

theorem delete_eq (h : s.delete p = some t) : ∃ o store, s.map.heap p = some o ∧
    t = { s with
      store := store, map := { s.map with heap := Function.update s.map.heap p none } } := by
  unfold delete at h
  obtain ⟨o, ho, h⟩ := Option.bind_eq_some_iff.mp h
  obtain ⟨store, -, h⟩ := Option.bind_eq_some_iff.mp h
  exact ⟨o, store, ho, (Option.some_inj.mp h).symm⟩

theorem eraseEvent_eq {k : Int} (h : s.eraseEvent k p = some t) : ∃ o store,
    s.map.heap p = some o ∧
    t = { s with store := store, map := { s.map with
      heap := Function.update s.map.heap p none
      first := s.map.first.erase o.getEventID
      second := s.map.second.erase k } } := by
  unfold eraseEvent at h
  obtain ⟨o, ho, h⟩ := Option.bind_eq_some_iff.mp h
  obtain ⟨u, hu, h⟩ := Option.bind_eq_some_iff.mp h
  obtain ⟨o', store, -, rfl⟩ := delete_eq hu
  exact ⟨o, store, ho, (Option.some_inj.mp h).symm⟩

end Storing

/-! ## Removals -/

/-- Events are gone that meet a condition, and nothing else is changed. -/
structure Pruned (bad : Int → EventData → Prop) (m n : ServiceMap) : Prop where
  linked : n.Linked
  second : ∀ k p, n.second.find k = some p → m.second.find k = some p ∧ n.heap p = m.heap p
  kept : ∀ k o, m.At k o → n.At k o ∨ bad k o
  fresh : n.fresh = m.fresh

namespace Pruned

variable {m n u : ServiceMap} {bad bad' : Int → EventData → Prop}

theorem refl (h : m.Linked) : Pruned bad m m :=
  ⟨h, fun _ _ hp => ⟨hp, rfl⟩, fun _ _ ho => .inl ho, rfl⟩

theorem at_of_at (h : Pruned bad m n) {k : Int} {o : EventData} (ho : n.At k o) : m.At k o := by
  obtain ⟨p, hp, hheap⟩ := ho
  obtain ⟨hsecond, hsame⟩ := h.second k p hp
  exact ⟨p, hsecond, hsame ▸ hheap⟩

theorem trans (h : Pruned bad m n) (h' : Pruned bad n u) : Pruned bad m u where
  linked := h'.linked
  second k p hp := by
    obtain ⟨hn, hheap⟩ := h'.second k p hp
    obtain ⟨hm, hheap'⟩ := h.second k p hn
    exact ⟨hm, hheap.trans hheap'⟩
  kept k o ho := (h.kept k o ho).elim (h'.kept k o) .inr
  fresh := h'.fresh.trans h.fresh

theorem mono (hbad : ∀ k o, m.At k o → bad k o → bad' k o) (h : Pruned bad m n) :
    Pruned bad' m n where
  linked := h.linked
  second := h.second
  kept k o ho := (h.kept k o ho).imp_right (hbad k o ho)
  fresh := h.fresh

end Pruned

/-- One event goes from both maps. -/
theorem pruned_eraseEvent {s t : Storing} {k : Int} {p : EventPtr} (hs : s.map.Linked)
    (hp : s.map.second.find k = some p) (h : s.eraseEvent k p = some t) :
    Pruned (fun k' _ => k' = k) s.map t.map ∧ t.map.second.find k = none := by
  obtain ⟨o, store, ho, rfl⟩ := Storing.eraseEvent_eq h
  have hfirst := hs.first_of_at hp ho
  -- another entry is another object
  have hother : ∀ k' q, (s.map.second.erase k).find k' = some q →
      k' ≠ k ∧ s.map.second.find k' = some q ∧ q ≠ p := by
    intro k' q hq
    rw [OrdMap.find_erase] at hq
    split at hq
    · exact nomatch hq
    · rename_i hne
      refine ⟨hne, hq, fun heq => hne ?_⟩
      exact hs.second_inj hq (heq ▸ hp)
  refine ⟨⟨⟨?_, ?_, ?_⟩, ?_, ?_, rfl⟩, by simp⟩
  · intro k' q hq
    obtain ⟨-, hsecond, hne⟩ := hother k' q hq
    obtain ⟨o', ho', hstart', hfirst'⟩ := hs.byTime k' q hsecond
    refine ⟨o', (Function.update_of_ne hne _ _).trans ho', hstart', ?_⟩
    have hid : o'.getEventID ≠ o.getEventID := by
      intro hid
      rw [hid, hfirst] at hfirst'
      exact hne (Option.some_inj.mp hfirst').symm
    change (s.map.first.erase o.getEventID).find o'.getEventID = some q
    rw [OrdMap.find_erase, if_neg hid]
    exact hfirst'
  · intro id q hq
    change (s.map.first.erase o.getEventID).find id = some q at hq
    rw [OrdMap.find_erase] at hq
    split at hq
    · exact nomatch hq
    · rename_i hid
      obtain ⟨o', hheap, hid', hsecond⟩ := hs.byId id q hq
      have hne : q ≠ p := by
        rintro rfl
        obtain rfl := Option.some_inj.mp (ho.symm.trans hheap)
        exact hid hid'.symm
      refine ⟨o', (Function.update_of_ne hne _ _).trans hheap, hid', ?_⟩
      change (s.map.second.erase k).find o'.getStartTime = some q
      rw [OrdMap.find_erase, if_neg fun hk => hne ?_]
      · exact hsecond
      · rw [hk, hp] at hsecond
        exact (Option.some_inj.mp hsecond).symm
  · intro q hq
    change Function.update s.map.heap p none q = none
    by_cases hqp : q = p
    · rw [hqp, Function.update_self]
    · rw [Function.update_of_ne hqp]
      exact hs.fresh q hq
  · intro k' q hq
    obtain ⟨-, hsecond, hne⟩ := hother k' q hq
    exact ⟨hsecond, Function.update_of_ne hne none s.map.heap⟩
  · rintro k' o' ⟨q, hq, ho'⟩
    by_cases hk : k' = k
    · exact .inr hk
    · refine .inl ⟨q, ?_, ?_⟩
      · change (s.map.second.erase k).find k' = some q
        rw [OrdMap.find_erase, if_neg hk]
        exact hq
      · refine (Function.update_of_ne (fun heq => hk ?_) _ _).trans ho'
        exact hs.second_inj hq (heq ▸ hp)

theorem Pruned.second_of_kept {bad : Int → EventData → Prop} {m n : ServiceMap}
    (h : Pruned bad m n) (hm : m.Linked) {k : Int} {p : EventPtr} (hp : m.second.find k = some p)
    (hbad : ∀ o, ¬ bad k o) : n.second.find k = some p := by
  obtain ⟨o, ho, -, -⟩ := hm.byTime k p hp
  obtain ⟨q, hq, -⟩ := (h.kept k o ⟨p, hp, ho⟩).resolve_right (hbad o)
  rw [← Option.some_inj.mp ((h.second k q hq).1.symm.trans hp)]
  exact hq

/-- The entries a loop has still to go through. -/
def Ahead (s : Storing) (xs : List (Int × EventPtr)) : Prop :=
  (∀ x ∈ xs, s.map.second.find x.1 = some x.2) ∧ (xs.map Prod.fst).Nodup

theorem Ahead.tail {s : Storing} {x : Int × EventPtr} {xs : List (Int × EventPtr)}
    (h : Ahead s (x :: xs)) : Ahead s xs :=
  ⟨fun y hy => h.1 y (List.mem_cons_of_mem x hy), (List.nodup_cons.mp h.2).2⟩

/-- They are there when the one before them is erased. -/
theorem Ahead.erased {s t : Storing} {x : Int × EventPtr} {xs : List (Int × EventPtr)}
    (hs : s.map.Linked) (h : Ahead s (x :: xs)) (ht : Pruned (fun k _ => k = x.1) s.map t.map) :
    Ahead t xs := by
  refine ⟨fun y hy => ht.second_of_kept hs (h.tail.1 y hy) fun _ heq => ?_, h.tail.2⟩
  exact (List.nodup_cons.mp h.2).1 (heq ▸ List.mem_map_of_mem hy)

namespace Storing

variable {s t : Storing} {TM duration k : Int} {xs : List (Int × EventPtr)} {ret ret' : Bool}

/-- An event before `TM` that lasts too long. -/
def LastsInto (TM k : Int) (o : EventData) : Prop :=
  erasable TM k o = true ∧ TM < k + o.getDuration - 300

/-- An event that begins too early behind `TM`. -/
def BeginsIn (TM duration k : Int) (o : EventData) : Prop :=
  erasable TM k o = true ∧ k < TM + duration - 300

theorem pruned_later {bad : Int → EventData → Prop} {x : Int × EventPtr} {m n : ServiceMap}
    (h : Pruned (fun k o => k ∈ xs.map Prod.fst ∧ bad k o) m n) :
    Pruned (fun k o => k ∈ (x :: xs).map Prod.fst ∧ bad k o) m n :=
  h.mono fun _ _ _ hbad => ⟨List.mem_cons_of_mem _ hbad.1, hbad.2⟩

theorem pruned_head {bad : Int → EventData → Prop} {p : EventPtr} {o : EventData} {n : ServiceMap}
    (hat : s.map.At k o) (hbad : bad k o) (h : Pruned (fun k' _ => k' = k) s.map n) :
    Pruned (fun k' o => k' ∈ ((k, p) :: xs).map Prod.fst ∧ bad k' o) s.map n := by
  refine h.mono fun k' o' ho' hk => ?_
  subst hk
  rw [ho'.unique hat]
  exact ⟨List.mem_cons_self, hbad⟩

theorem pruned_fixBefore (hs : s.map.Linked) (hx : Ahead s xs)
    (h : s.fixBefore TM xs ret = some (ret', t)) :
    Pruned (fun k o => k ∈ xs.map Prod.fst ∧ LastsInto TM k o) s.map t.map := by
  induction xs generalizing s ret with
  | nil =>
    obtain ⟨-, rfl⟩ := Prod.mk.inj (Option.some_inj.mp h)
    exact .refl hs
  | cons x xs ih =>
    obtain ⟨k, p⟩ := x
    have hp : s.map.second.find k = some p := hx.1 _ List.mem_cons_self
    unfold fixBefore at h
    obtain ⟨o, ho, h⟩ := Option.bind_eq_some_iff.mp h
    split at h
    · rename_i hlasts
      split at h
      · rename_i herase
        obtain ⟨u, hu, h⟩ := Option.bind_eq_some_iff.mp h
        obtain ⟨hprune, -⟩ := pruned_eraseEvent hs hp hu
        have hone : Pruned (fun k' o => k' ∈ ((k, p) :: xs).map Prod.fst ∧ LastsInto TM k' o)
            s.map u.map := pruned_head ⟨p, hp, ho⟩ ⟨herase, hlasts⟩ hprune
        split at h
        · obtain ⟨-, rfl⟩ := Prod.mk.inj (Option.some_inj.mp h)
          exact hone
        · exact hone.trans (pruned_later (ih hprune.linked (hx.erased hs hprune) h))
      · split at h
        · obtain ⟨-, rfl⟩ := Prod.mk.inj (Option.some_inj.mp h)
          exact .refl hs
        · exact pruned_later (ih hs hx.tail h)
    · obtain ⟨-, rfl⟩ := Prod.mk.inj (Option.some_inj.mp h)
      exact .refl hs

/-- The event the loop begins with does not stay if it lasts too long. -/
theorem fixBefore_head {p : EventPtr} (hs : s.map.Linked) (hx : Ahead s ((k, p) :: xs))
    (h : s.fixBefore TM ((k, p) :: xs) ret = some (ret', t)) {o : EventData}
    (ho : t.map.At k o) : ¬ LastsInto TM k o := by
  have hp : s.map.second.find k = some p := hx.1 _ List.mem_cons_self
  have hprune := pruned_fixBefore hs hx h
  rintro ⟨herase, hlasts⟩
  obtain ⟨q, hq, hheap⟩ := hprune.at_of_at ho
  rw [hp] at hq
  rw [← Option.some_inj.mp hq] at hheap
  unfold fixBefore at h
  rw [hheap, Option.bind_eq_bind, Option.bind_some, if_pos hlasts, if_pos herase] at h
  obtain ⟨u, hu, h⟩ := Option.bind_eq_some_iff.mp h
  obtain ⟨hone, hgone⟩ := pruned_eraseEvent hs hp hu
  obtain ⟨r, hr, -⟩ := ho
  split at h
  · obtain ⟨-, rfl⟩ := Prod.mk.inj (Option.some_inj.mp h)
    exact nomatch hgone.symm.trans hr
  · have hrest := pruned_fixBefore hone.linked (hx.erased hs hone) h
    exact nomatch hgone.symm.trans (hrest.second k r hr).1

theorem pruned_fixBehind (hs : s.map.Linked) (hx : Ahead s xs)
    (h : s.fixBehind TM duration xs ret = some (ret', t)) :
    Pruned (fun k o => k ∈ xs.map Prod.fst ∧ BeginsIn TM duration k o) s.map t.map := by
  induction xs generalizing s ret with
  | nil =>
    obtain ⟨-, rfl⟩ := Prod.mk.inj (Option.some_inj.mp h)
    exact .refl hs
  | cons x xs ih =>
    obtain ⟨k, p⟩ := x
    have hp : s.map.second.find k = some p := hx.1 _ List.mem_cons_self
    unfold fixBehind at h
    split at h
    · rename_i hbegins
      obtain ⟨o, ho, h⟩ := Option.bind_eq_some_iff.mp h
      split at h
      · rename_i herase
        obtain ⟨u, hu, h⟩ := Option.bind_eq_some_iff.mp h
        obtain ⟨hprune, -⟩ := pruned_eraseEvent hs hp hu
        apply (pruned_head ⟨p, hp, ho⟩ ⟨herase, hbegins⟩ hprune).trans
        exact pruned_later (ih hprune.linked (hx.erased hs hprune) h)
      · exact pruned_later (ih hs hx.tail h)
    · obtain ⟨-, rfl⟩ := Prod.mk.inj (Option.some_inj.mp h)
      exact .refl hs

/-- No event stays that begins too early. -/
theorem fixBehind_gone (hs : s.map.Linked) (hx : Ahead s xs)
    (hsorted : xs.Pairwise fun a b => a.1 < b.1)
    (h : s.fixBehind TM duration xs ret = some (ret', t)) (hk : k ∈ xs.map Prod.fst)
    {o : EventData} (ho : t.map.At k o) : ¬ BeginsIn TM duration k o := by
  induction xs generalizing s ret with
  | nil => exact nomatch hk
  | cons x xs ih =>
    obtain ⟨k₁, p⟩ := x
    have hp : s.map.second.find k₁ = some p := hx.1 _ List.mem_cons_self
    obtain ⟨hlt, hrest⟩ := List.pairwise_cons.mp hsorted
    unfold fixBehind at h
    split at h
    · obtain ⟨o₁, ho₁, hloop⟩ := Option.bind_eq_some_iff.mp h
      split at hloop
      · obtain ⟨u, hu, hfix⟩ := Option.bind_eq_some_iff.mp hloop
        obtain ⟨hone, hgone⟩ := pruned_eraseEvent hs hp hu
        have hahead := hx.erased hs hone
        rcases List.mem_cons.mp hk with rfl | hk
        · obtain ⟨q, hq, -⟩ := (pruned_fixBehind hone.linked hahead hfix).at_of_at ho
          exact nomatch hgone.symm.trans hq
        · exact ih hone.linked hahead hrest hfix hk
      · rename_i herase
        rcases List.mem_cons.mp hk with rfl | hk
        · have hsame := (pruned_fixBehind hs hx.tail hloop).at_of_at ho
          rw [hsame.unique ⟨p, hp, ho₁⟩]
          exact fun hbegins => herase hbegins.1
        · exact ih hs hx.tail hrest hloop hk
    · -- the entries are in order, so that those behind begin later still
      rename_i hlate
      obtain ⟨y, hy, rfl⟩ := List.mem_map.mp hk
      rintro ⟨-, hbegins⟩
      rcases List.mem_cons.mp hy with rfl | hy
      · exact hlate hbegins
      · have := hlt y hy
        omega

theorem ahead_filter (s : Storing) (f : Int × EventPtr → Bool) :
    Ahead s (s.map.second.entries.filter f) :=
  ⟨fun x hx => (s.map.second.find_eq_some x.1 x.2).mpr (List.mem_of_mem_filter hx),
    (List.filter_sublist.map _).nodup s.map.second.keys_nodup⟩

theorem ahead_reverse (h : Ahead s xs) : Ahead s xs.reverse :=
  ⟨fun x hx => h.1 x (List.mem_reverse.mp hx), by
    rw [List.map_reverse]
    exact List.nodup_reverse.mpr h.2⟩

/-- Only events that overlap with the one at `TM` are erased. -/
def Overlapped (TM duration k : Int) (o : EventData) : Prop :=
  k < TM ∧ LastsInto TM k o ∨ TM < k ∧ BeginsIn TM duration k o

theorem erasable_ne {o : EventData} (h : erasable TM k o = true) : k ≠ TM := by
  unfold erasable at h
  rw [Bool.and_eq_true, Bool.and_eq_true] at h
  exact of_decide_eq_true h.1.1

theorem fixOverlapping_eq (h : s.FixOverlapping TM duration = some (ret', t)) : ∃ ret u,
    s.fixBefore TM (s.map.second.entries.filter (·.1 ≤ TM)).reverse false = some (ret, u) ∧
    u.fixBehind TM duration (u.map.second.entries.filter (TM ≤ ·.1)) ret = some (ret', t) := by
  obtain ⟨⟨ret, u⟩, hu, h⟩ := Option.bind_eq_some_iff.mp h
  exact ⟨ret, u, hu, h⟩

theorem pruned_before {u : Storing} (hs : s.map.Linked)
    (h : s.fixBefore TM (s.map.second.entries.filter (·.1 ≤ TM)).reverse ret = some (ret', u)) :
    Pruned (Overlapped TM duration) s.map u.map := by
  have hahead := ahead_reverse (ahead_filter s (·.1 ≤ TM))
  refine (pruned_fixBefore hs hahead h).mono fun k o _ hbad => .inl ⟨?_, hbad.2⟩
  obtain ⟨x, hx, rfl⟩ := List.mem_map.mp hbad.1
  have hle := of_decide_eq_true (List.mem_filter.mp (List.mem_reverse.mp hx)).2
  have hne := erasable_ne hbad.2.1
  omega

theorem pruned_behind (hs : s.map.Linked)
    (h : s.fixBehind TM duration (s.map.second.entries.filter (TM ≤ ·.1)) ret = some (ret', t)) :
    Pruned (Overlapped TM duration) s.map t.map := by
  refine (pruned_fixBehind hs (ahead_filter s _) h).mono fun k o _ hbad => .inr ⟨?_, hbad.2⟩
  obtain ⟨x, hx, rfl⟩ := List.mem_map.mp hbad.1
  have hle := of_decide_eq_true (List.mem_filter.mp hx).2
  have hne := erasable_ne hbad.2.1
  omega

theorem pruned_fixOverlapping (hs : s.map.Linked)
    (h : s.FixOverlapping TM duration = some (ret', t)) :
    Pruned (Overlapped TM duration) s.map t.map := by
  obtain ⟨ret, u, hu, ht⟩ := fixOverlapping_eq h
  have hprune : Pruned (Overlapped TM duration) s.map u.map := pruned_before hs hu
  exact hprune.trans (pruned_behind hprune.linked ht)

theorem fixed_eq (h : s.fixed TM duration = some t) :
    ∃ ret u, s.FixOverlapping TM duration = some (ret, u) ∧ t.map = u.map := by
  obtain ⟨⟨ret, u⟩, hu, h⟩ := Option.bind_eq_some_iff.mp h
  obtain rfl := Option.some_inj.mp h
  exact ⟨ret, u, hu, by split <;> rfl⟩

end Storing

/-! ## An event in its places -/

namespace ServiceMap

/-- The id of the event at a time, and the time of the event with an id. -/
def idAt (m : ServiceMap) (TM : Int) : Option Nat :=
  ((m.second.find TM).bind m.heap).map EventData.getEventID

def timeOf (m : ServiceMap) (event_id : Nat) : Option Int :=
  ((m.first.find event_id).bind m.heap).map EventData.getStartTime

end ServiceMap

/-- The event `o`, with the pointer `p`, is in its places. The event that had its id is gone, and
so is the one that was at its time. -/
structure Placed (event_id : Nat) (TM : Int) (o : EventData) (m n : ServiceMap) : Prop where
  first : ∀ id, n.first.find id = if id = event_id then some m.fresh else
    if m.idAt TM = some id then none else m.first.find id
  second : ∀ k, n.second.find k = if k = TM then some m.fresh else
    if m.timeOf event_id = some k then none else m.second.find k
  own : n.heap m.fresh = some o
  heap : ∀ q, q ≠ m.fresh → m.first.find event_id ≠ some q → m.second.find TM ≠ some q →
    n.heap q = m.heap q
  fresh : ∀ q, n.fresh ≤ q → n.heap q = none

namespace Placed

variable {event_id : Nat} {TM : Int} {o : EventData} {m n : ServiceMap}

/-- The event with the id is the one at that time. -/
theorem timeOf_eq_iff (hm : m.Linked) {k : Int} {q : EventPtr} {o' : EventData}
    (hq : m.second.find k = some q) (ho : m.heap q = some o') :
    m.timeOf event_id = some k ↔ o'.getEventID = event_id := by
  have hfirst := hm.first_of_at hq ho
  have hstart := hm.start ⟨q, hq, ho⟩
  unfold timeOf
  constructor
  · intro htime
    obtain ⟨o₁, ho₁, htime⟩ := Option.map_eq_some_iff.mp htime
    obtain ⟨r, hr, ho₁⟩ := Option.bind_eq_some_iff.mp ho₁
    obtain ⟨hid, hsecond⟩ := hm.second_of_first hr ho₁
    rw [htime, hq] at hsecond
    rw [← Option.some_inj.mp hsecond, ho] at ho₁
    rwa [Option.some_inj.mp ho₁]
  · rintro rfl
    rw [hfirst, Option.bind_some, ho, ← hstart]
    rfl

theorem idAt_eq_iff (hm : m.Linked) {id : Nat} {q : EventPtr} {o' : EventData}
    (hq : m.first.find id = some q) (ho : m.heap q = some o') :
    m.idAt TM = some id ↔ o'.getStartTime = TM := by
  obtain ⟨hid, hsecond⟩ := hm.second_of_first hq ho
  unfold idAt
  constructor
  · intro h
    obtain ⟨o₁, ho₁, h⟩ := Option.map_eq_some_iff.mp h
    obtain ⟨r, hr, ho₁⟩ := Option.bind_eq_some_iff.mp ho₁
    have hfirst := hm.first_of_at hr ho₁
    rw [h, hq] at hfirst
    rw [← Option.some_inj.mp hfirst] at hr
    exact hm.second_inj hsecond hr
  · rintro rfl
    rw [hsecond, Option.bind_some, ho, ← hid]
    rfl

/-- Another event stays where it is. -/
theorem heap_kept (hm : m.Linked) (h : Placed event_id TM o m n) {k : Int} {q : EventPtr}
    {o' : EventData} (hk : k ≠ TM) (hq : m.second.find k = some q) (ho : m.heap q = some o')
    (hid : o'.getEventID ≠ event_id) : n.heap q = some o' := by
  rw [h.heap q, ho]
  · rintro rfl
    rw [hm.fresh _ le_rfl] at ho
    exact nomatch ho
  · exact fun hfirst => hid (hm.second_of_first hfirst ho).1
  · exact fun hTM => hk (hm.second_inj hq hTM)

theorem second_ne (hm : m.Linked) (h : Placed event_id TM o m n) {k : Int} (hk : k ≠ TM)
    {q : EventPtr} : n.second.find k = some q ↔
      ∃ o', m.second.find k = some q ∧ m.heap q = some o' ∧ o'.getEventID ≠ event_id := by
  rw [h.second, if_neg hk]
  constructor
  · intro hq
    split at hq
    · exact nomatch hq
    · rename_i htime
      obtain ⟨o', ho', -, -⟩ := hm.byTime k q hq
      exact ⟨o', hq, ho', fun hid => htime ((timeOf_eq_iff hm hq ho').mpr hid)⟩
  · rintro ⟨o', hq, ho', hid⟩
    rw [if_neg fun htime => hid ((timeOf_eq_iff hm hq ho').mp htime), hq]

/-- What is stored afterwards. -/
theorem at_iff (hm : m.Linked) (h : Placed event_id TM o m n) {k : Int} {o' : EventData} :
    n.At k o' ↔ k = TM ∧ o' = o ∨ k ≠ TM ∧ m.At k o' ∧ o'.getEventID ≠ event_id := by
  by_cases hk : k = TM
  · subst hk
    have hself : n.second.find k = some m.fresh := by rw [h.second, if_pos rfl]
    constructor
    · exact fun ho => .inl ⟨rfl, ho.unique ⟨m.fresh, hself, h.own⟩⟩
    · rintro (⟨-, rfl⟩ | ⟨hne, -⟩)
      · exact ⟨m.fresh, hself, h.own⟩
      · exact absurd rfl hne
  · constructor
    · rintro ⟨q, hq, ho⟩
      obtain ⟨o₁, hm₁, ho₁, hid⟩ := (h.second_ne hm hk).mp hq
      rw [h.heap_kept hm hk hm₁ ho₁ hid] at ho
      rw [← Option.some_inj.mp ho]
      exact .inr ⟨hk, ⟨q, hm₁, ho₁⟩, hid⟩
    · rintro (⟨hTM, -⟩ | ⟨-, ⟨q, hq, ho⟩, hid⟩)
      · exact absurd hTM hk
      · exact ⟨q, (h.second_ne hm hk).mpr ⟨o', hq, ho, hid⟩, h.heap_kept hm hk hq ho hid⟩

theorem linked (hm : m.Linked) (h : Placed event_id TM o m n) (hid : o.getEventID = event_id)
    (hstart : o.getStartTime = TM) : n.Linked := by
  constructor
  · intro k q hq
    by_cases hk : k = TM
    · subst hk
      rw [h.second, if_pos rfl] at hq
      rw [← Option.some_inj.mp hq]
      refine ⟨o, h.own, hstart, ?_⟩
      rw [h.first, if_pos hid]
    · obtain ⟨o', hm', ho', hid'⟩ := (h.second_ne hm hk).mp hq
      have hfirst := hm.first_of_at hm' ho'
      have hstart' := hm.start ⟨q, hm', ho'⟩
      refine ⟨o', h.heap_kept hm hk hm' ho' hid', hstart', ?_⟩
      rw [h.first, if_neg hid', if_neg, hfirst]
      rw [idAt_eq_iff hm hfirst ho', hstart']
      exact hk
  · intro id q hq
    rw [h.first] at hq
    split at hq
    · rename_i heq
      subst heq
      rw [← Option.some_inj.mp hq]
      refine ⟨o, h.own, hid, ?_⟩
      rw [h.second, if_pos hstart]
    · rename_i hne
      split at hq
      · exact nomatch hq
      · rename_i hat
        obtain ⟨o', ho', hid', hsecond⟩ := hm.byId id q hq
        rw [idAt_eq_iff hm hq ho'] at hat
        have hne' : o'.getEventID ≠ event_id := fun heq => hne (hid'.symm.trans heq)
        exact ⟨o', h.heap_kept hm hat hsecond ho' hne', hid',
          (h.second_ne hm hat).mpr ⟨o', hsecond, ho', hne'⟩⟩
  · exact h.fresh

end Placed

end Tuxbox.Enigma.Epg
