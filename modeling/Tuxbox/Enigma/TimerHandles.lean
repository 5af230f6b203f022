import Tuxbox.Enigma.TimerManager
import Mathlib.Data.List.Find
import Mathlib.Data.List.Nodup

/-!
# The next event of the timer manager
-/

namespace Tuxbox.Enigma

open PlaylistEntry

namespace TimerManager

section
variable {s t : TimerManager} {h h' : Nat} {f : PlaylistEntry → PlaylistEntry} {c : Clock}
  {v : TimerEnv} {entry : PlaylistEntry}

theorem find_isSome : (s.find h).isSome = true ↔ h ∈ handles s.list := by
  simp [find, handles, List.find?_isSome]

theorem next_isSome : s.next.isSome = true ↔ s.Live := by
  unfold next Live
  cases hn : s.nextStartingEvent with
  | none => simp
  | some h => simp [find_isSome]

/-- Calls that leave the elements and the next event where they are. -/
structure Frame (s t : TimerManager) : Prop where
  handles : handles t.list = handles s.list
  next : t.nextStartingEvent = s.nextStartingEvent
  fresh : t.fresh = s.fresh

theorem Frame.refl (s : TimerManager) : Frame s s := ⟨rfl, rfl, rfl⟩

theorem Frame.trans {u : TimerManager} (h : Frame s t) (h' : Frame t u) : Frame s u :=
  ⟨h'.handles.trans h.handles, h'.next.trans h.next, h'.fresh.trans h.fresh⟩

theorem Frame.of_action {a : TimerAction} (h : Frame { s with nextAction := a } t) : Frame s t :=
  ⟨h.handles, h.next, h.fresh⟩

theorem Frame.live (h : Frame s t) : t.Live ↔ s.Live := by
  unfold Live
  rw [h.handles, h.next]

theorem handles_change (l : List TimerNode) : handles (l.map (change h f)) = handles l := by
  unfold handles
  rw [List.map_map]
  apply List.map_congr_left
  intro n _
  simp only [Function.comp, change]
  split <;> rfl

theorem changeNext_frame (s : TimerManager) (f : PlaylistEntry → PlaylistEntry) :
    Frame s (s.changeNext f) := by
  unfold changeNext
  split
  · exact .refl s
  · exact ⟨handles_change _, rfl, rfl⟩

/-- A call that needs the next event and leaves it where it is. -/
structure Uses (s : TimerManager) (r : Option TimerManager) : Prop where
  isSome : r.isSome = true ↔ s.Live
  frame : ∀ t, r = some t → Frame s t

theorem Uses.exists {r : Option TimerManager} (h : Uses s r) (hs : s.Live) :
    ∃ t, r = some t ∧ Frame s t := by
  obtain ⟨t, ht⟩ := Option.isSome_iff_exists.mp (h.isSome.mpr hs)
  exact ⟨t, ht, h.frame t ht⟩

theorem uses_bind {g : PlaylistEntry → Option TimerManager}
    (h : ∀ e, s.next = some e → ∃ t, g e = some t ∧ Frame s t) : Uses s (s.next.bind g) := by
  have hlive := next_isSome (s := s)
  cases hn : s.next with
  | none =>
    rw [hn] at hlive
    exact ⟨hlive, fun t ht => nomatch ht⟩
  | some e =>
    obtain ⟨t, ht, hframe⟩ := h e hn
    rw [hn] at hlive
    rw [Option.bind_some, ht]
    exact ⟨hlive, fun u hu => Option.some_inj.mp hu ▸ hframe⟩

theorem uses_map {g : PlaylistEntry → TimerManager} (h : ∀ e, Frame s (g e)) :
    Uses s (s.next.map g) := by
  rw [Option.map_eq_bind]
  exact uses_bind fun e _ => ⟨g e, rfl, h e⟩

theorem live_of_next {e : PlaylistEntry} (h : s.next = some e) : s.Live :=
  next_isSome.mp (h ▸ rfl)

theorem stopRecording_uses : Uses s s.stopRecording := uses_map fun _ => .refl s

theorem stopEvent_uses : Uses s s.stopEvent := by
  apply uses_bind
  intro e he
  have hlive := live_of_next he
  split
  · dsimp only
    generalize hs' : s.changeNext _ = s'
    have hframe : Frame s s' := hs' ▸ changeNext_frame s _
    have hstopped : ∃ t, (if e.has recTimerEntry = true then
        { s' with nextAction := .stopRecording }.stopRecording else some s') = some t ∧
        Frame s t := by
      split
      · have huses := stopRecording_uses (s := { s' with nextAction := .stopRecording })
        obtain ⟨t, ht, hframe'⟩ := huses.exists (hframe.live.mpr hlive)
        exact ⟨t, ht, hframe.trans hframe'.of_action⟩
      · exact ⟨s', rfl, hframe⟩
    obtain ⟨t, ht, hframe⟩ := hstopped
    rw [ht, Option.bind_some]
    obtain ⟨e', he'⟩ := Option.isSome_iff_exists.mp (next_isSome.mpr (hframe.live.mpr hlive))
    rw [he']
    exact ⟨_, rfl, hframe.handles, hframe.next, hframe.fresh⟩
  · exact ⟨_, rfl, rfl, rfl, rfl⟩

theorem Uses.of_frame {r : Option TimerManager} (hframe : Frame s t) (h : Uses t r) :
    Uses s r :=
  ⟨h.isSome.trans hframe.live, fun u hu => hframe.trans (h.frame u hu)⟩

theorem abortEvent_uses (c : Clock) (err : BitVec 32) : Uses s (s.abortEvent c err) := by
  apply uses_bind
  intro e he
  dsimp only
  have hstart : ∃ s', Frame s s' ∧ (if e.has stateWaiting = true then s.changeNext fun e =>
      if ((e.unset stateWaiting).set stateRunning).has isRepeating = true then
        c.activate ((e.unset stateWaiting).set stateRunning)
      else (e.unset stateWaiting).set stateRunning else s) = s' := by
    split
    · exact ⟨_, changeNext_frame s _, rfl⟩
    · exact ⟨s, .refl s, rfl⟩
  obtain ⟨s', hframe, hs'⟩ := hstart
  rw [hs']
  have hset : Frame s ({ s' with nextAction := .stopEvent }.changeNext
      (·.set (stateError ||| err))) :=
    hframe.trans (changeNext_frame { s' with nextAction := .stopEvent } _).of_action
  exact (stopEvent_uses.of_frame hset).exists (live_of_next he)

theorem startRecording_uses : Uses s (s.startRecording v) := by
  apply uses_bind
  intro e he
  split
  · exact (abortEvent_uses v.clock errorNoSpaceLeft).exists (live_of_next he)
  · exact ⟨s, rfl, .refl s⟩

theorem startEvent_uses : Uses s (s.startEvent v) := by
  apply uses_bind
  intro e he
  have hlive := live_of_next he
  dsimp only
  generalize hs' : s.changeNext _ = s'
  have hframe : Frame s s' := hs' ▸ changeNext_frame s _
  have hstarted : ∃ t, (if (!e.has doFinishOnly && e.has recTimerEntry) = true then
      { s' with nextAction := .startRecording }.startRecording v else some s') = some t ∧
      Frame s t := by
    split
    · have huses := startRecording_uses (v := v) (s := { s' with nextAction := .startRecording })
      obtain ⟨t, ht, hframe'⟩ := huses.exists (hframe.live.mpr hlive)
      exact ⟨t, ht, hframe.trans hframe'.of_action⟩
    · exact ⟨s', rfl, hframe⟩
  obtain ⟨t, ht, hframe⟩ := hstarted
  rw [ht, Option.bind_some]
  split
  · exact ⟨t, rfl, hframe⟩
  · obtain ⟨e', he'⟩ := Option.isSome_iff_exists.mp (next_isSome.mpr (hframe.live.mpr hlive))
    rw [he']
    exact ⟨_, rfl, hframe.handles, hframe.next, hframe.fresh⟩

theorem startCountdown_uses : Uses s s.startCountdown :=
  uses_map fun _ => (changeNext_frame { s with nextAction := .startEvent } _).of_action

theorem updateRunningEvent_uses (duration : Int) (afterEvent : BitVec 32) :
    Uses s (s.updateRunningEvent duration afterEvent) := by
  apply uses_map
  intro e
  split
  · exact (changeNext_frame { s with nextAction := .stopEvent } _).of_action
  · exact .refl s

/-! ## The loop of `setNextEvent` -/

theorem exists_split_cons {α : Type} {P : List α → α → Prop} {a : α} {l : List α} :
    (∃ l₁ x l₂, a :: l = l₁ ++ x :: l₂ ∧ P l₁ x) ↔
      P [] a ∨ ∃ l₁ x l₂, l = l₁ ++ x :: l₂ ∧ P (a :: l₁) x := by
  constructor
  · rintro ⟨l₁, x, l₂, heq, hP⟩
    cases l₁ with
    | nil =>
      obtain ⟨rfl, rfl⟩ := List.cons.inj heq
      exact .inl hP
    | cons b l₁ =>
      obtain ⟨rfl, rfl⟩ := List.cons.inj heq
      exact .inr ⟨l₁, x, l₂, rfl, hP⟩
  · rintro (hP | ⟨l₁, x, l₂, rfl, hP⟩)
    · exact ⟨[], a, l, rfl, hP⟩
    · exact ⟨a :: l₁, x, l₂, rfl, hP⟩

theorem stays_cons {n : TimerNode} {l : List TimerNode} (hstop : ¬ Stops c n) :
    Stays c h (n :: l) ↔ (n.handle = h ∧ ¬ Old n) ∨ Stays c h l := by
  unfold Stays
  rw [exists_split_cons (P := fun l₁ n => n.handle = h ∧ (Old n → ∃ m ∈ l₁, Stops c m))]
  simp [hstop]

theorem Stops.not_old {n : TimerNode} (hstop : Stops c n) : ¬ Old n := by
  intro hold
  cases hold.2.1.symm.trans hstop.2.1

theorem stays_stop {n : TimerNode} {l : List TimerNode} (hstop : Stops c n) :
    Stays c h (n :: l) ↔ h ∈ handles (n :: l) := by
  have hnew := hstop.not_old
  unfold Stays
  rw [exists_split_cons (P := fun l₁ n => n.handle = h ∧ (Old n → ∃ m ∈ l₁, Stops c m))]
  have hrest : (∃ l₁ x l₂, l = l₁ ++ x :: l₂ ∧ x.handle = h ∧
      (Old x → ∃ m ∈ n :: l₁, Stops c m)) ↔ h ∈ handles l := by
    constructor
    · rintro ⟨l₁, x, l₂, rfl, rfl, -⟩
      simp [handles]
    · intro hmem
      obtain ⟨x, hx, rfl⟩ := List.mem_map.mp hmem
      obtain ⟨l₁, l₂, rfl⟩ := List.append_of_mem hx
      exact ⟨l₁, x, l₂, rfl, rfl, fun _ => ⟨n, List.mem_cons_self, hstop⟩⟩
  rw [hrest]
  simp [handles, hnew, eq_comm]

/-- A single event that is outdated, or has an error, waits no more. -/
def Fails (e e' : PlaylistEntry) : Prop :=
  e.has isRepeating = false ∧ e'.has (stateError ||| stateFinished) = true

theorem has_error {e : PlaylistEntry} (he : e.has stateError = true) :
    e.has (stateError ||| stateFinished) = true := by
  by_contra hne
  have := has_left (Bool.eq_false_iff.mpr hne)
  rw [he] at this
  cases this

theorem has_set (e : PlaylistEntry) {flags flags' : BitVec 32} (hf : flags &&& flags' ≠ 0) :
    (e.set flags).has flags' = true := by
  apply decide_eq_true
  intro hzero
  dsimp only [PlaylistEntry.set] at hzero
  have hflags : flags &&& flags' = ((e.type ||| flags) &&& flags') &&& flags := by
    apply BitVec.eq_of_getLsbD_eq
    intro i _
    simp only [BitVec.getLsbD_and, BitVec.getLsbD_or]
    cases flags.getLsbD i <;> simp
  rw [hflags, hzero] at hf
  exact hf BitVec.zero_and

theorem and_unset {x flags mask : BitVec 32} (hf : flags &&& mask = 0) :
    (x &&& ~~~flags) &&& mask = x &&& mask := by
  apply BitVec.eq_of_getLsbD_eq
  intro i hi
  have hbit := congrArg (fun x => x.getLsbD i) hf
  have hzero : (0 : BitVec 32).getLsbD i = false := BitVec.getLsbD_zero
  simp only [BitVec.getLsbD_and, hzero] at hbit
  simp only [BitVec.getLsbD_and, BitVec.getLsbD_not, hi, decide_true, Bool.true_and]
  cases hfi : flags.getLsbD i
  · simp
  · rw [hfi, Bool.true_and] at hbit
    simp [hbit]

theorem has_unset (e : PlaylistEntry) {flags flags' : BitVec 32} (hf : flags &&& flags' = 0) :
    (e.unset flags).has flags' = e.has flags' := by
  rw [has, has, unset, and_unset hf]

/-- What the loop of `setNextEvent` does with the first element. -/
theorem parseEvents_cons (next : Option Nat) (time : Int) (n : TimerNode) (l : List TimerNode) :
    (Stops c n ∧ parseEvents c next time (n :: l) = (n :: l, some n.handle)) ∨
    (Old n ∧ parseEvents c next time (n :: l) = parseEvents c next time l) ∨
    (¬ Stops c n ∧ ¬ Old n ∧ ∃ e next' time',
      (e = n.entry ∧ (next' = next ∨ next' = some n.handle ∧
          (n.entry.has isRepeating = true ∨ n.entry.has stateWaiting = true)) ∨
        Fails n.entry e ∧ next' = next) ∧
      parseEvents c next time (n :: l) =
        (⟨n.handle, e⟩ :: (parseEvents c next' time' l).1, (parseEvents c next' time' l).2)) := by
  unfold Stops Old
  cases hrep : n.entry.has isRepeating with
  | true =>
    right
    right
    simp only [parseEvents, hrep, if_true]
    split
    · exact ⟨by simp, by simp, n.entry, _, _, .inl ⟨rfl, .inr ⟨rfl, .inl trivial⟩⟩, rfl⟩
    · exact ⟨by simp, by simp, n.entry, _, _, .inl ⟨rfl, .inl rfl⟩, rfl⟩
  | false =>
    simp only [parseEvents, hrep, Bool.false_eq_true, if_false]
    cases hwait : n.entry.has stateWaiting with
    | false =>
      cases hdo : n.entry.has doFinishOnly with
      | true => exact .inr (.inl ⟨by simp, by simp⟩)
      | false =>
        right
        right
        exact ⟨by simp, by simp, n.entry, next, time, .inl ⟨rfl, .inl rfl⟩, by simp⟩
    | true =>
      cases herr : n.entry.has stateError with
      | true =>
        right
        right
        refine ⟨by simp, by simp, n.entry.unset stateWaiting, next, time,
          .inr ⟨⟨hrep, ?_⟩, rfl⟩, by simp⟩
        apply has_error
        rw [has_unset _ (by decide), herr]
      | false =>
        by_cases hout : n.entry.timeBegin + n.entry.duration < c.now
        · right
          right
          refine ⟨by simp; omega, by simp,
            (n.entry.unset stateWaiting).set (stateError ||| errorOutdated), next, time,
            .inr ⟨⟨hrep, ?_⟩, rfl⟩, by simp [hout]⟩
          exact has_set _ (by decide)
        · cases hdo : n.entry.has doFinishOnly with
          | true =>
            left
            exact ⟨⟨trivial, rfl, rfl, by omega, rfl⟩, by simp [hout]⟩
          | false =>
            right
            right
            by_cases hbefore : n.entry.timeBegin - c.now < time
            · exact ⟨by simp, by simp, n.entry, some n.handle, n.entry.timeBegin - c.now,
                .inl ⟨rfl, .inr ⟨rfl, .inr rfl⟩⟩, by simp [hout, hbefore]⟩
            · exact ⟨by simp, by simp, n.entry, next, time, .inl ⟨rfl, .inl rfl⟩,
                by simp [hout, hbefore]⟩

/-- Which elements stay. -/
theorem mem_parseEvents (next : Option Nat) (time : Int) (l : List TimerNode) :
    h ∈ handles (parseEvents c next time l).1 ↔ Stays c h l := by
  induction l generalizing next time with
  | nil => simp [parseEvents, handles, Stays]
  | cons n l ih =>
    rcases parseEvents_cons (c := c) next time n l with
      ⟨hstop, heq⟩ | ⟨hold, heq⟩ | ⟨hstop, hold, e, next', time', -, heq⟩
    · rw [heq, stays_stop hstop]
    · have hstop : ¬ Stops c n := fun hstop => hstop.not_old hold
      rw [heq, ih, stays_cons hstop]
      simp [hold]
    · rw [heq, stays_cons hstop, ← ih next' time']
      simp [handles, hold, eq_comm]

theorem parseEvents_sublist (next : Option Nat) (time : Int) (l : List TimerNode) :
    (handles (parseEvents c next time l).1).Sublist (handles l) := by
  induction l generalizing next time with
  | nil => exact List.Sublist.refl _
  | cons n l ih =>
    rcases parseEvents_cons (c := c) next time n l with
      ⟨-, heq⟩ | ⟨-, heq⟩ | ⟨-, -, e, next', time', -, heq⟩
    · rw [heq]
    · rw [heq]
      exact (ih next time).cons n.handle
    · rw [heq]
      exact (ih next' time').cons_cons n.handle

/-- The next event is one of them. -/
theorem parseEvents_next (next : Option Nat) (time : Int) (l : List TimerNode)
    (hnext : (parseEvents c next time l).2 = some h) :
    next = some h ∨ h ∈ handles (parseEvents c next time l).1 := by
  induction l generalizing next time with
  | nil => exact .inl hnext
  | cons n l ih =>
    rcases parseEvents_cons (c := c) next time n l with
      ⟨hstop, heq⟩ | ⟨hold, heq⟩ | ⟨hstop, hold, e, next', time', hentry, heq⟩
    · rw [heq] at hnext ⊢
      cases hnext
      right
      simp [handles]
    · rw [heq] at hnext ⊢
      exact ih next time hnext
    · rw [heq] at hnext ⊢
      have hhandles : handles (⟨n.handle, e⟩ :: (parseEvents c next' time' l).1) =
          n.handle :: handles (parseEvents c next' time' l).1 := rfl
      rw [hhandles, List.mem_cons]
      rcases ih next' time' hnext with hn | hn
      · rcases hentry with ⟨-, rfl | ⟨rfl, -⟩⟩ | ⟨-, rfl⟩
        · exact .inl hn
        · exact .inr (.inl (Option.some_inj.mp hn).symm)
        · exact .inl hn
      · exact .inr (.inr hn)

/-- Handles are not used twice. -/
structure Inv (s : TimerManager) : Prop where
  nodup : (handles s.list).Nodup
  list : ∀ h ∈ handles s.list, h < s.fresh
  next : ∀ h, s.nextStartingEvent = some h → h < s.fresh

/-- A handle is one element's. -/
theorem Inv.entry_eq {n : TimerNode} {e : PlaylistEntry} (hs : s.Inv) (hfind : s.find h = some e)
    (hn : n ∈ s.list) (hh : n.handle = h) : n.entry = e := by
  obtain ⟨m, hm, rfl⟩ := Option.map_eq_some_iff.mp hfind
  have hmh : m.handle = h := by simpa using List.find?_some hm
  rw [List.inj_on_of_nodup_map hs.nodup hn (List.mem_of_find?_eq_some hm) (hh.trans hmh.symm)]

theorem Frame.inv (h : Frame s t) (hs : s.Inv) : t.Inv := by
  obtain ⟨hnodup, hlist, hnext⟩ := hs
  refine ⟨?_, ?_, ?_⟩
  · rwa [h.handles]
  · rwa [h.handles, h.fresh]
  · rwa [h.next, h.fresh]

theorem Stays.mem {l : List TimerNode} (hs : Stays c h l) : h ∈ handles l := by
  obtain ⟨l₁, n, l₂, rfl, rfl, -⟩ := hs
  simp [handles]

theorem KeptNext.liveOrEnd (hs : s.KeptNext c) : s.LiveOrEnd := fun h hn => (hs h hn).mem

theorem Live.liveOrEnd (hs : s.Live) : s.LiveOrEnd := by
  obtain ⟨h, hn, hmem⟩ := hs
  intro h' hn'
  obtain rfl := Option.some_inj.mp (hn.symm.trans hn')
  exact hmem

theorem leavePrevEvent_isSome (prev : Option Nat) :
    (s.leavePrevEvent prev).isSome = true ↔ ∀ h, prev = some h → h ∈ handles s.list := by
  unfold leavePrevEvent
  cases prev with
  | none => simp
  | some p =>
    have hfind := find_isSome (s := s) (h := p)
    dsimp only
    cases hp : s.find p with
    | none =>
      rw [hp] at hfind
      simpa using hfind
    | some e =>
      rw [hp] at hfind
      have hmem := hfind.mp rfl
      dsimp only
      split <;> simpa using hmem

theorem leavePrevEvent_frame {prev : Option Nat} (ht : s.leavePrevEvent prev = some t) :
    Frame s t := by
  unfold leavePrevEvent at ht
  split at ht
  · exact Option.some_inj.mp ht ▸ .refl s
  split at ht
  · cases ht
  split at ht
  · cases ht
    exact ⟨handles_change _, rfl, rfl⟩
  · exact Option.some_inj.mp ht ▸ .refl s

/-- `setNextEvent` returns if the previous event is not erased, and keeps the invariant. -/
theorem setNextEvent_isSome : (s.setNextEvent c).isSome = true ↔ s.KeptNext c := by
  unfold setNextEvent
  dsimp only
  rw [leavePrevEvent_isSome]
  exact forall₂_congr fun h _ => mem_parseEvents none 2147483647 s.list

/-- Before the previous event is left. -/
theorem parseEvents_inv (hs : s.Inv) (a : TimerAction) :
    ({ s with
      list := (parseEvents c none 2147483647 s.list).1
      nextStartingEvent := (parseEvents c none 2147483647 s.list).2
      nextAction := a } : TimerManager).Inv := by
  have hkept : ∀ h ∈ handles (parseEvents c none 2147483647 s.list).1, h < s.fresh :=
    fun h hmem => hs.list h ((mem_parseEvents none 2147483647 s.list).mp hmem).mem
  refine ⟨?_, hkept, ?_⟩
  · exact (parseEvents_sublist none 2147483647 s.list).nodup hs.nodup
  · intro h hn
    rcases parseEvents_next none 2147483647 s.list hn with hn | hmem
    · cases hn
    · exact hkept h hmem

theorem setNextEvent_inv (hs : s.Inv) (ht : s.setNextEvent c = some t) : t.Inv := by
  unfold setNextEvent at ht
  exact (leavePrevEvent_frame ht).inv (parseEvents_inv hs _)

theorem idle_isSome : s.idle.isSome = true ↔ s.LiveOrEnd := by
  unfold idle LiveOrEnd
  cases hn : s.nextStartingEvent with
  | none => simp
  | some h => simp [find_isSome]

theorem idle_iff {b : Bool} (hb : s.idle = some b) : b = true ↔ s.Idle := by
  unfold idle at hb
  unfold Idle next
  split at hb
  · rename_i hn
    cases hb
    simp [hn]
  · rename_i h hn
    obtain ⟨e, he, rfl⟩ := Option.map_eq_some_iff.mp hb
    simp [hn, he]

theorem runs_isSome : (s.runs entry).isSome = true ↔ s.LiveOrEnd := by
  unfold runs LiveOrEnd
  cases hn : s.nextStartingEvent with
  | none => simp
  | some h => simp [find_isSome]

theorem runs_iff {b : Bool} (hb : s.runs entry = some b) : b = true ↔ s.Runs entry := by
  unfold runs at hb
  unfold Runs next
  split at hb
  · rename_i hn
    cases hb
    simp [hn]
  · rename_i h hn
    obtain ⟨e, he, rfl⟩ := Option.map_eq_some_iff.mp hb
    simp [hn, he]

theorem replan_isSome : s.replan.isSome = true ↔ s.LiveOrEnd := by
  rw [replan, Option.isSome_map, idle_isSome]

theorem replan_frame (ht : s.replan = some t) : Frame s t := by
  obtain ⟨idle, -, rfl⟩ := Option.map_eq_some_iff.mp ht
  split
  · exact ⟨rfl, rfl, rfl⟩
  · exact .refl s

end

end TimerManager

end Tuxbox.Enigma
