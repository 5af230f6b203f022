import Tuxbox.Enigma.TimerHandles

/-!
# Aborted events

An abort changes flags and the last activation of the running event, which no
comparison of entries looks at.
-/

namespace Tuxbox.Enigma

open PlaylistEntry

namespace TimerManager

section
variable {s t : TimerManager} {h : Nat} {f : PlaylistEntry → PlaylistEntry} {c : Clock}
  {entry : PlaylistEntry}

/-- A change of a timer that no comparison of entries sees. -/
structure Like (e e' : PlaylistEntry) : Prop where
  service : e'.service = e.service
  timeBegin : e'.timeBegin = e.timeBegin
  flags : e'.type &&& (isRepeating ||| allDays) = e.type &&& (isRepeating ||| allDays)

theorem Like.refl (e : PlaylistEntry) : Like e e := ⟨rfl, rfl, rfl⟩

theorem Like.trans {e e' e'' : PlaylistEntry} (h : Like e e') (h' : Like e' e'') : Like e e'' :=
  ⟨h'.service.trans h.service, h'.timeBegin.trans h.timeBegin, h'.flags.trans h.flags⟩

theorem like_set (e : PlaylistEntry) {flags : BitVec 32}
    (hf : flags &&& (isRepeating ||| allDays) = 0) : Like e (e.set flags) := by
  refine ⟨rfl, rfl, ?_⟩
  have hor : (e.type ||| flags) &&& (isRepeating ||| allDays) =
      (e.type &&& (isRepeating ||| allDays)) ||| (flags &&& (isRepeating ||| allDays)) := by
    apply BitVec.eq_of_getLsbD_eq
    intro i _
    simp only [BitVec.getLsbD_and, BitVec.getLsbD_or, Bool.and_or_distrib_right]
  exact hor.trans (hf ▸ BitVec.or_zero)

theorem like_unset (e : PlaylistEntry) {flags : BitVec 32}
    (hf : flags &&& (isRepeating ||| allDays) = 0) : Like e (e.unset flags) :=
  ⟨rfl, rfl, and_unset hf⟩

theorem like_activate (c : Clock) (e : PlaylistEntry) : Like e (c.activate e) := ⟨rfl, rfl, rfl⟩

/-- Timers have another type than entries of a playlist. -/
theorem type_ne_one {e : PlaylistEntry} {flags : BitVec 32} (he : e.has flags = true)
    (hf : 1 &&& flags = 0) : e.type ≠ 1 := by
  intro h1
  have hne := of_decide_eq_true he
  rw [h1] at hne
  exact hne hf

theorem Like.same {e e' : PlaylistEntry} (h : Like e e') (he : e.type ≠ 1) (he' : e'.type ≠ 1)
    (entry : PlaylistEntry) : e'.same entry = e.same entry := by
  have hmask {m : BitVec 32} (hm : (isRepeating ||| allDays) &&& m = m) :
      e'.type &&& m = e.type &&& m := by
    rw [← hm, ← BitVec.and_assoc, ← BitVec.and_assoc, h.flags]
  have hrep : e'.has isRepeating = e.has isRepeating := by
    rw [has, has, hmask (by decide)]
  unfold PlaylistEntry.same
  rw [if_neg he, if_neg he', hrep, h.service, h.timeBegin, hmask (by decide)]

theorem changeNext_list (s : TimerManager) (f g : PlaylistEntry → PlaylistEntry) :
    ((s.changeNext f).changeNext g).list = (s.changeNext fun e => g (f e)).list := by
  unfold changeNext
  cases hn : s.nextStartingEvent with
  | none => simp [hn]
  | some h =>
    simp only [List.map_map]
    apply List.map_congr_left
    intro n _
    simp only [Function.comp, change]
    split <;> simp [*]

theorem changeNext_id (s : TimerManager) : (s.changeNext fun e => e).list = s.list := by
  unfold changeNext
  cases s.nextStartingEvent with
  | none => rfl
  | some h =>
    have hsame : change h (fun e => e) = id := by
      funext n
      unfold change
      split <;> rfl
    dsimp only
    rw [hsame, List.map_id]

theorem changeNext_action (s : TimerManager) (a : TimerAction) :
    ({ s with nextAction := a }.changeNext f).list = (s.changeNext f).list := by
  unfold changeNext
  cases s.nextStartingEvent <;> rfl

/-- What an abort makes of the next event. -/
structure Marks (f : PlaylistEntry → PlaylistEntry) : Prop where
  like : ∀ e, Like e (f e)
  error : ∀ e, e.has stateError = true → (f e).has stateError = true

theorem stopEvent_list (ht : s.stopEvent = some t) :
    ∃ f, Marks f ∧ t.list = (s.changeNext f).list := by
  obtain ⟨e, -, ht⟩ := Option.bind_eq_some_iff.mp ht
  split at ht
  · dsimp only at ht
    obtain ⟨u, hu, ht⟩ := Option.bind_eq_some_iff.mp ht
    obtain ⟨-, -, rfl⟩ := Option.map_eq_some_iff.mp ht
    refine ⟨finish, ⟨?_, ?_⟩, ?_⟩
    · intro e
      unfold finish
      dsimp only
      split
      · exact like_unset e (by decide)
      · exact (like_unset e (by decide)).trans (like_set _ (by decide))
    · intro e he
      have hkept : (e.unset stateRunning).has stateError = true :=
        (has_unset e (by decide)).trans he
      unfold finish
      dsimp only
      rwa [if_pos hkept]
    · split at hu
      · obtain ⟨-, -, rfl⟩ := Option.map_eq_some_iff.mp hu
        rfl
      · cases hu
        rfl
  · cases ht
    exact ⟨fun e => e, ⟨Like.refl, fun _ h => h⟩, (changeNext_id s).symm⟩

theorem abortEvent_list (ht : s.abortEvent c errorUserAborted = some t) :
    ∃ f, (∀ e, Like e (f e)) ∧ (∀ e, (f e).has stateError = true) ∧
      t.list = (s.changeNext f).list := by
  obtain ⟨e, -, ht⟩ := Option.bind_eq_some_iff.mp ht
  dsimp only at ht
  obtain ⟨f, hmarks, hlist⟩ := stopEvent_list ht
  have herror (e : PlaylistEntry) :
      (f (e.set (stateError ||| errorUserAborted))).has stateError = true :=
    hmarks.error _ (has_set e (by decide))
  have hset (e : PlaylistEntry) : Like e (f (e.set (stateError ||| errorUserAborted))) :=
    (like_set e (by decide)).trans (hmarks.like _)
  rw [changeNext_list, changeNext_action] at hlist
  split at hlist
  · rw [changeNext_list] at hlist
    refine ⟨_, ?_, fun e => herror _, hlist⟩
    intro e
    refine Like.trans ?_ (hset _)
    have hrun : Like e ((e.unset stateWaiting).set stateRunning) :=
      (like_unset e (by decide)).trans (like_set _ (by decide))
    split
    · exact hrun.trans (like_activate c _)
    · exact hrun
  · exact ⟨_, hset, herror, hlist⟩

/-- The first element that is the same as an entry is at the same place after an abort. -/
theorem abortEvent_first (hs : s.Inv) (hruns : s.Runs entry)
    (ht : s.abortEvent c errorUserAborted = some t) :
    (∃ n, t.First entry n ∧ n.handle = h) ↔ ∃ n, s.First entry n ∧ n.handle = h := by
  obtain ⟨f, hlike, herror, hlist⟩ := abortEvent_list ht
  obtain ⟨e, he, -, hrun⟩ := hruns
  obtain ⟨h', hn, hfind⟩ := Option.bind_eq_some_iff.mp he
  have hsame : ∀ n ∈ s.list, (change h' f n).entry.same entry = n.entry.same entry := by
    intro n hmem
    unfold change
    split
    · rename_i hhandle
      have hentry := hs.entry_eq hfind hmem hhandle
      rw [← hentry] at hrun
      exact (hlike n.entry).same (type_ne_one hrun (by decide))
        (type_ne_one (herror n.entry) (by decide)) entry
    · rfl
  have hchanged : t.list = s.list.map (change h' f) := by
    rw [hlist, changeNext, hn]
  have hfirst : t.list.find? (fun n => n.entry.same entry) =
      (s.list.find? fun n => n.entry.same entry).map (change h' f) := by
    rw [hchanged, List.find?_map]
    congr 1
    apply List.find?_congr
    exact hsame
  have hhandle (n : TimerNode) : (change h' f n).handle = n.handle := by
    unfold change
    split <;> rfl
  unfold First
  rw [hfirst]
  constructor
  · rintro ⟨n, hn, rfl⟩
    obtain ⟨m, hm, rfl⟩ := Option.map_eq_some_iff.mp hn
    exact ⟨m, hm, (hhandle m).symm⟩
  · rintro ⟨n, hn, rfl⟩
    exact ⟨_, congrArg (Option.map (change h' f)) hn, hhandle n⟩

end

end TimerManager

end Tuxbox.Enigma
