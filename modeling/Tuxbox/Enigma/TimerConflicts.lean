import Tuxbox.Enigma.TimerCalls

/-!
# Conflicts in the timer list

An entry that has an error or is finished does not count any more: `Overlapping` lets
another one take its time.
-/

namespace Tuxbox.Enigma

open PlaylistEntry

/-- No error, and not finished. -/
def PlaylistEntry.Pending (e : PlaylistEntry) : Prop := e.has (stateError ||| stateFinished) = false

/-- Entries that can become the next event. -/
def PlaylistEntry.Due (e : PlaylistEntry) : Prop :=
  e.has isRepeating = true ∨ e.has stateWaiting = true

namespace TimerManager

/-- Pending entries do not conflict. -/
def Apart (z : TimeZone) (n m : TimerNode) : Prop :=
  n.entry.Pending → m.entry.Pending → ¬ Intersect z n.entry m.entry

/-- What calls that only add timers keep. -/
structure Sane (z : TimeZone) (s : TimerManager) : Prop where
  apart : s.list.Pairwise (Apart z)
  timed : ∀ n ∈ s.list, n.entry.Pending → n.entry.Timed
  next : ∀ h, s.nextStartingEvent = some h → ∃ n ∈ s.list, n.handle = h ∧ n.entry.Due

section
variable {z : TimeZone} {c : Clock} {now : Int} {s t : TimerManager} {h : Nat}
  {e e' e1 e2 entry : PlaylistEntry}

theorem overlap_comm (t1 d1 t2 d2 : Int) : overlap t1 d1 t2 d2 = overlap t2 d2 t1 d1 := by
  rw [overlap, overlap, max_comm, min_comm]

theorem weekOverlap_comm (t1 d1 t2 d2 : Int) :
    weekOverlap t1 d1 t2 d2 = weekOverlap t2 d2 t1 d1 := by
  unfold weekOverlap
  rw [overlap_comm t1]
  split_ifs <;> rfl

theorem mmOverlap_comm (z : TimeZone) (e1 e2 : PlaylistEntry) :
    mmOverlap z e1 e2 = mmOverlap z e2 e1 := by
  rw [Bool.eq_iff_iff]
  simp only [mmOverlap, List.any_eq_true, Bool.and_eq_true]
  constructor
  · rintro ⟨x, hx, hbit, y, hy, hbit', hover⟩
    exact ⟨y, hy, hbit', x, hx, hbit, weekOverlap_comm .. ▸ hover⟩
  · rintro ⟨x, hx, hbit, y, hy, hbit', hover⟩
    exact ⟨y, hy, hbit', x, hx, hbit, weekOverlap_comm .. ▸ hover⟩

/-- `Overlapping` is symmetric. -/
theorem overlapping_comm (z : TimeZone) (now : Int) (e1 e2 : PlaylistEntry) :
    overlapping z now e1 e2 = overlapping z now e2 e1 := by
  unfold overlapping
  cases h1 : e1.has isRepeating <;> cases h2 : e2.has isRepeating
  · simp only [Bool.false_and, Bool.false_eq_true, if_false]
    rw [overlap_comm, Bool.and_comm (!e1.has _)]
  · rfl
  · rfl
  · exact mmOverlap_comm z e1 e2

/-! ## The loop of `setNextEvent` -/

theorem Fails.not_pending (hf : Fails e e') : ¬ e'.Pending := by
  intro hp
  cases hf.2.symm.trans hp

/-- A pending element was there before. -/
theorem parseEvents_pending {next : Option Nat} {time : Int} {l : List TimerNode} {n : TimerNode}
    (hn : n ∈ (parseEvents c next time l).1) (hp : n.entry.Pending) : n ∈ l := by
  induction l generalizing next time with
  | nil => exact hn
  | cons m l ih =>
    rcases parseEvents_cons (c := c) next time m l with
      ⟨-, heq⟩ | ⟨-, heq⟩ | ⟨-, -, e, next', time', hentry, heq⟩
    · rwa [heq] at hn
    · rw [heq] at hn
      exact List.mem_cons_of_mem m (ih hn)
    · rw [heq] at hn
      rcases List.mem_cons.mp hn with rfl | hn
      · rcases hentry with ⟨rfl, -⟩ | ⟨hf, -⟩
        · exact List.mem_cons_self
        · exact absurd hp hf.not_pending
      · exact List.mem_cons_of_mem m (ih hn)

theorem parseEvents_apart {next : Option Nat} {time : Int} {l : List TimerNode}
    (hl : l.Pairwise (Apart z)) : (parseEvents c next time l).1.Pairwise (Apart z) := by
  induction l generalizing next time with
  | nil => exact hl
  | cons m l ih =>
    obtain ⟨hm, hrest⟩ := List.pairwise_cons.mp hl
    rcases parseEvents_cons (c := c) next time m l with
      ⟨-, heq⟩ | ⟨-, heq⟩ | ⟨-, -, e, next', time', hentry, heq⟩
    · exact heq ▸ hl
    · exact heq ▸ ih hrest
    · rw [heq, List.pairwise_cons]
      apply And.intro _ (ih hrest)
      intro n hn hp hpn
      rcases hentry with ⟨rfl, -⟩ | ⟨hf, -⟩
      · exact hm n (parseEvents_pending hn hpn) hp hpn
      · exact absurd hp hf.not_pending

/-- The next event repeats or waits. -/
theorem parseEvents_due {next : Option Nat} {time : Int} {l : List TimerNode}
    (hnext : (parseEvents c next time l).2 = some h) :
    next = some h ∨ ∃ n ∈ (parseEvents c next time l).1, n.handle = h ∧ n.entry.Due := by
  induction l generalizing next time with
  | nil => exact .inl hnext
  | cons m l ih =>
    rcases parseEvents_cons (c := c) next time m l with
      ⟨hstop, heq⟩ | ⟨-, heq⟩ | ⟨-, -, e, next', time', hentry, heq⟩
    · rw [heq] at hnext ⊢
      cases hnext
      exact .inr ⟨m, List.mem_cons_self, rfl, .inr hstop.2.1⟩
    · rw [heq] at hnext ⊢
      exact ih hnext
    · rw [heq] at hnext ⊢
      rcases ih hnext with hn | ⟨n, hn, hh, hdue⟩
      · rcases hentry with ⟨rfl, rfl | ⟨rfl, hdue⟩⟩ | ⟨-, rfl⟩
        · exact .inl hn
        · exact .inr ⟨_, List.mem_cons_self, Option.some_inj.mp hn, hdue⟩
        · exact .inl hn
      · exact .inr ⟨n, List.mem_cons_of_mem _ hn, hh, hdue⟩

/-! ## Calls that add timers -/

theorem not_pending_finished (hf : e.has stateFinished = true) : ¬ e.Pending := by
  intro hp
  rw [Pending, BitVec.or_comm] at hp
  cases hf.symm.trans (has_left hp)

theorem has_set_of_has {flags flags' : BitVec 32} (h : e.has flags' = true) :
    (e.set flags).has flags' = true := by
  rw [has, decide_eq_true_eq] at h ⊢
  intro hzero
  have hflags : e.type &&& flags' = ((e.type ||| flags) &&& flags') &&& e.type := by
    apply BitVec.eq_of_getLsbD_eq
    intro i _
    simp only [BitVec.getLsbD_and, BitVec.getLsbD_or]
    cases e.type.getLsbD i <;> simp
  rw [PlaylistEntry.set] at hzero
  rw [hflags, hzero] at h
  exact h BitVec.zero_and

/-- The event that is told to wait again is finished. -/
theorem leavePrevEvent_sane {prev : Option Nat} (hs : s.Inv) (hz : s.Sane z)
    (ht : s.leavePrevEvent prev = some t) : t.Sane z := by
  unfold leavePrevEvent at ht
  split at ht
  · exact Option.some_inj.mp ht ▸ hz
  split at ht
  · cases ht
  rename_i p _ e hfind
  split at ht
  · rename_i hflags
    cases ht
    simp only [Bool.and_eq_true] at hflags
    have hsame : ∀ n ∈ s.list, (change p (·.set stateWaiting) n).entry.Pending →
        change p (·.set stateWaiting) n = n := by
      intro n hn hp
      unfold change at hp ⊢
      split at hp
      · rename_i hh
        have hentry := hs.entry_eq hfind hn hh
        have hfinished : (n.entry.set stateWaiting).has stateFinished = true :=
          has_set_of_has (hentry ▸ hflags.1.2)
        exact absurd hp (not_pending_finished hfinished)
      · rename_i hh
        rw [if_neg hh]
    refine ⟨?_, ?_, ?_⟩
    · rw [List.pairwise_map]
      apply hz.apart.imp_of_mem
      intro n m hn hm hapart hpn hpm
      have hn' := hsame n hn hpn
      have hm' := hsame m hm hpm
      rw [hn'] at hpn ⊢
      rw [hm'] at hpm ⊢
      exact hapart hpn hpm
    · intro n' hn' hp
      obtain ⟨n, hn, rfl⟩ := List.mem_map.mp hn'
      have hn' := hsame n hn hp
      rw [hn'] at hp ⊢
      exact hz.timed n hn hp
    · intro h hh
      obtain ⟨n, hn, rfl, hdue⟩ := hz.next h hh
      refine ⟨_, List.mem_map_of_mem hn, ?_, ?_⟩
      · unfold change
        split <;> rfl
      · unfold change
        split
        · exact hdue.imp has_set_of_has has_set_of_has
        · exact hdue
  · exact Option.some_inj.mp ht ▸ hz

theorem setNextEvent_sane (hs : s.Inv) (hz : s.Sane z) (ht : s.setNextEvent c = some t) :
    t.Sane z := by
  unfold setNextEvent at ht
  apply leavePrevEvent_sane (parseEvents_inv hs _) _ ht
  refine ⟨parseEvents_apart hz.apart, ?_, ?_⟩
  · exact fun n hn hp => hz.timed n (parseEvents_pending hn hp) hp
  · intro h hn
    exact (parseEvents_due hn).resolve_left (nomatch ·)

theorem pushBack_sane (hz : s.Sane z) (htimed : entry.Timed) (hp : entry.Pending)
    (hfree : ∀ n ∈ s.list, overlapping z now n.entry entry = false) :
    (s.pushBack entry).Sane z := by
  refine ⟨?_, ?_, ?_⟩
  · apply List.pairwise_append.mpr
    refine ⟨hz.apart, List.pairwise_singleton _ _, ?_⟩
    intro n hn m hm hpn _ hmeet
    obtain rfl := List.mem_singleton.mp hm
    have hover := (overlapping_iff z now (hz.timed n hn hpn) htimed hpn hp).mpr hmeet
    cases (hfree n hn).symm.trans hover
  · intro n hn hpn
    rcases List.mem_append.mp hn with hn | hn
    · exact hz.timed n hn hpn
    · obtain rfl := List.mem_singleton.mp hn
      exact htimed
  · intro h hh
    obtain ⟨n, hn, hrest⟩ := hz.next h hh
    exact ⟨n, List.mem_append_left _ hn, hrest⟩

theorem Sane.keptNext (hz : s.Sane z) : s.KeptNext c := by
  intro h hh
  obtain ⟨n, hn, rfl, hdue⟩ := hz.next h hh
  obtain ⟨l₁, l₂, hl⟩ := List.append_of_mem hn
  refine ⟨l₁, n, l₂, hl, rfl, ?_⟩
  intro hold
  rcases hdue with hdue | hdue
  · cases hold.1.symm.trans hdue
  · cases hold.2.1.symm.trans hdue

/-- A timer that is added, or refused, leaves the list without conflicts. -/
theorem add_sane (hs : s.Inv) (hz : s.Sane z) (htimed : entry.Timed) (hp : entry.Pending) :
    ∃ r, s.addEventToTimerList z c entry = some r ∧ r.1.Inv ∧ r.1.Sane z := by
  have hfree (hany : ¬ ∃ n ∈ s.list, overlapping z c.now n.entry entry = true) :
      (s.pushBack entry).Sane z := by
    apply pushBack_sane hz htimed hp
    exact fun n hn => Bool.eq_false_iff.mpr fun hover => hany ⟨n, hn, hover⟩
  have hsome : (s.addEventToTimerList z c entry).isSome = true := by
    rw [add_isSome hs, or_iff_not_imp_left]
    exact fun hany => ⟨(hz.keptNext (c := c)).liveOrEnd, fun _ => (hfree hany).keptNext⟩
  obtain ⟨r, hr⟩ := Option.isSome_iff_exists.mp hsome
  refine ⟨r, hr, add_inv hs hr, ?_⟩
  unfold addEventToTimerList at hr
  split at hr
  · cases hr
    exact hz
  rename_i hany
  obtain ⟨hapart, htimes, hnext⟩ := hfree (mt List.any_eq_true.mpr hany)
  obtain ⟨b, -, hr⟩ := Option.bind_eq_some_iff.mp hr
  split at hr
  · obtain ⟨t, ht, rfl⟩ := Option.map_eq_some_iff.mp hr
    obtain ⟨hnodup, hlist, hlt⟩ := pushBack_inv hs
    exact setNextEvent_sane (s := { s.pushBack entry with nextAction := .setNextEvent })
      ⟨hnodup, hlist, hlt⟩ ⟨hapart, htimes, hnext⟩ ht
  · cases hr
    exact ⟨hapart, htimes, hnext⟩

/-- A timer that is refused changes nothing. -/
theorem add_refused (ht : s.addEventToTimerList z c entry = some (t, -1)) : t = s := by
  unfold addEventToTimerList at ht
  split at ht
  · exact (Prod.mk.inj (Option.some_inj.mp ht)).1.symm
  obtain ⟨b, -, ht⟩ := Option.bind_eq_some_iff.mp ht
  split at ht
  · obtain ⟨u, -, hu⟩ := Option.map_eq_some_iff.mp ht
    cases (Prod.mk.inj hu).2
  · cases (Prod.mk.inj (Option.some_inj.mp ht)).2

theorem empty_sane (z : TimeZone) : empty.Sane z :=
  ⟨.nil, fun _ hn => (nomatch hn), fun _ hn => nomatch hn⟩

end

/-- Timers of the list do not conflict. -/
theorem timers_apart (z : TimeZone) :
    (∀ now e1 e2, e1.Timed → e2.Timed → e1.Pending → e2.Pending →
      (overlapping z now e1 e2 = true ↔ Intersect z e1 e2)) ∧
    (∀ now e1 e2, overlapping z now e1 e2 = overlapping z now e2 e1) ∧
    (∀ c e s t, addEventToTimerList z c e s = some (t, -1) → t = s) ∧
    ∀ entries : List (Clock × PlaylistEntry), (∀ a ∈ entries, a.2.Timed ∧ a.2.Pending) →
      Keeps (step z) (fun s => s.list.Pairwise (Apart z)) empty
        (entries.map fun a => .add a.1 a.2) := by
  refine ⟨?_, overlapping_comm z, fun c e s t => add_refused, ?_⟩
  · exact fun now e1 e2 h1 h2 hp1 hp2 => overlapping_iff z now h1 h2 hp1 hp2
  intro entries hentries
  have hstep : ∀ (s : TimerManager) (a : TimerCall), s.Inv ∧ s.Sane z →
      (∃ c e, a = .add c e ∧ e.Timed ∧ e.Pending) → ∃ t, s.step z a = some t ∧ t.Inv ∧ t.Sane z := by
    rintro s _ ⟨hs, hz⟩ ⟨c, e, rfl, htimed, hp⟩
    obtain ⟨r, hr, hkept⟩ := add_sane (c := c) hs hz htimed hp
    exact ⟨r.1, congrArg (Option.map Prod.fst) hr, hkept⟩
  apply keeps_of_invariant hstep (fun s hs => hs.2.apart) ⟨empty_inv, empty_sane z⟩
  intro a ha
  obtain ⟨b, hb, rfl⟩ := List.mem_map.mp ha
  exact ⟨b.1, b.2, rfl, hentries b hb⟩

theorem timers_apart_two :
    overlapping ⟨3600, id⟩ 0 ⟨1, -1, 6000, 600, stateWaiting⟩
      ⟨2, -1, 6300, 600, stateWaiting⟩ = true ∧
    Keeps (step ⟨3600, id⟩) (fun s => s.list.Pairwise (Apart ⟨3600, id⟩)) empty
      [.add ⟨100, fun t _ _ _ => t, id⟩ ⟨1, -1, 6000, 600, stateWaiting⟩,
        .add ⟨100, fun t _ _ _ => t, id⟩ ⟨2, -1, 6300, 600, stateWaiting⟩] := by
  obtain ⟨hiff, -, -, hkeeps⟩ := timers_apart ⟨3600, id⟩
  have h1 : (⟨1, -1, 6000, 600, stateWaiting⟩ : PlaylistEntry).Timed :=
    ⟨by decide, by decide, by decide, by decide, by decide⟩
  have h2 : (⟨2, -1, 6300, 600, stateWaiting⟩ : PlaylistEntry).Timed :=
    ⟨by decide, by decide, by decide, by decide, by decide⟩
  constructor
  · apply (hiff 0 _ _ h1 h2 rfl rfl).mpr
    exact ⟨6000, 6300, rfl, rfl, 6400, by decide⟩
  · apply hkeeps [(⟨100, fun t _ _ _ => t, id⟩, ⟨1, -1, 6000, 600, stateWaiting⟩),
      (⟨100, fun t _ _ _ => t, id⟩, ⟨2, -1, 6300, 600, stateWaiting⟩)]
    intro a ha
    rcases List.mem_pair.mp ha with rfl | rfl
    · exact ⟨h1, rfl⟩
    · exact ⟨h2, rfl⟩

/-- An entry whose end is not a `time_t` does not overlap itself. A timer that is over when
it is added has an error at once, and can be added again. -/
theorem timers_conflict :
    (overlapping ⟨0, id⟩ 0 ⟨1, -1, 2147483580, 86400, stateWaiting⟩
        ⟨1, -1, 2147483580, 86400, stateWaiting⟩ = false ∧
      Intersect ⟨0, id⟩ ⟨1, -1, 2147483580, 86400, stateWaiting⟩
        ⟨1, -1, 2147483580, 86400, stateWaiting⟩) ∧
    ∃ s, runList (step ⟨0, id⟩) empty
        [.add ⟨10000, fun t _ _ _ => t, id⟩ ⟨1, -1, 6000, 600, stateWaiting⟩,
          .add ⟨10000, fun t _ _ _ => t, id⟩ ⟨1, -1, 6000, 600, stateWaiting⟩] = some s ∧
      ¬ s.list.Pairwise fun n m => ¬ Intersect ⟨0, id⟩ n.entry m.entry := by
  refine ⟨⟨by decide, 2147483580, 2147483580, rfl, rfl, 2147483580, by decide⟩, _, rfl, ?_⟩
  intro hpairs
  apply (List.pairwise_cons.mp hpairs).1 _ List.mem_cons_self
  exact ⟨6000, 6000, rfl, rfl, 6000, by decide⟩

end TimerManager

end Tuxbox.Enigma
