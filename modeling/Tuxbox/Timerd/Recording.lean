import Tuxbox.Timerd.Restart

/-! Starts and stops of recordings. The pass starts a recording; the pass, a
stop and a removal end it, and each of them looks at the state and the stop
time of the event, which other commands write. -/
namespace Tuxbox.Timerd

/-- Whether a recording runs, as its notices tell; `none` after a start of a
running recording, a stop of one that does not run, or a deletion while it
runs. -/
def follow : Option Bool → Kind → Option Bool
  | none, _ => none
  | some _, .created evt | some _, .loaded evt => some (evt.eventState = .isRunning)
  | some running, .fire => if running then none else some true
  | some running, .recordStop => if running then some false else none
  | some running, .deleted => if running then none else some false
  | some running, .announce | some running, .removed => some running

def phase (log : List Notice) (g : Nat) : Option Bool := (kindsOf log g).foldl follow (some false)

/-- Every start is followed by one stop before the next start and before the
deletion, and nothing else is stopped. -/
def Paired (log : List Notice) (g : Nat) : Prop := phase log g ≠ none

theorem phase_append (log ns : List Notice) (g : Nat) :
    phase (log ++ ns) g = (kindsOf ns g).foldl follow (phase log g) := by
  rw [phase, kindsOf_append, List.foldl_append]
  rfl

/-- A recording that was made with a stop time. -/
def Recording (log : List Notice) (g : Nat) : Prop :=
  ∃ e, (⟨g, .created e⟩ ∈ log ∨ ⟨g, .loaded e⟩ ∈ log) ∧ e.data.isRecord = true ∧ 0 < e.stopTime

/-- The object of a recording with a stop time is among the notices. -/
def recordingIn (log : List Notice) (g : Nat) : Bool :=
  log.any fun n =>
    match n.kind with
    | .created e | .loaded e => n.tag = g ∧ e.data.isRecord = true ∧ 0 < e.stopTime
    | _ => false

theorem recordingIn_iff (log : List Notice) (g : Nat) :
    recordingIn log g = true ↔ Recording log g := by
  simp only [recordingIn, List.any_eq_true]
  constructor
  · rintro ⟨⟨t, k⟩, hn, hk⟩
    cases k with
    | created e =>
      obtain ⟨rfl, hrec⟩ := of_decide_eq_true hk
      exact ⟨e, Or.inl hn, hrec⟩
    | loaded e =>
      obtain ⟨rfl, hrec⟩ := of_decide_eq_true hk
      exact ⟨e, Or.inr hn, hrec⟩
    | _ => cases hk
  · rintro ⟨e, hmem, hrec⟩
    cases hmem with
    | inl hm => exact ⟨_, hm, decide_eq_true ⟨rfl, hrec⟩⟩
    | inr hm => exact ⟨_, hm, decide_eq_true ⟨rfl, hrec⟩⟩

instance (log : List Notice) (g : Nat) : Decidable (Recording log g) :=
  decidable_of_iff _ (recordingIn_iff log g)

/-- A running recording is not rescheduled, and none loses its stop time. -/
def recordingSafe : Permit where
  stop _ := True
  reschedule e := e.data.isRecord = true → 0 < e.stopTime → e.eventState ≠ .isRunning
  modify stopTime e := e.data.isRecord = true → 0 < e.stopTime → 0 < stopTime

/-- The event of a recording: it has a stop time, and its state is what the
notices tell. -/
structure InStep (log : List Notice) (e : CTimerEvent) : Prop where
  isRecord : e.data.isRecord = true
  stop : 0 < e.stopTime
  phase : phase log e.tag = some (decide (e.eventState = .isRunning))

structure RecordingsInStep (w : World) : Prop where
  events : ∀ id e, w.events.find id = some e → Recording w.log e.tag → InStep w.log e
  paired : ∀ g, Recording w.log g → Paired w.log g
  unseen : w.isTimeSet = false → ∀ n ∈ w.log, n.tag ∉ w.file.tags

section
variable {lc : LibC} {clean : Prop} {w w' : World}

theorem stopKinds_running {e : CTimerEvent} (hr : e.data.isRecord = true) (hs : 0 < e.stopTime) :
    World.stopKinds e = if e.eventState = .isRunning then [.recordStop] else [] := by
  simp [World.stopKinds, World.stopNotices, hr, hs]

/-- A change of a recording's event keeps it in step with what it sends. -/
theorem change_inStep (hl : lc.Sane) {log : List Notice} {e e' : CTimerEvent} {kinds : List Kind}
    (h : InStep log e) (hc : Change lc recordingSafe clean e kinds e') :
    InStep (log ++ kinds.map fun k => ⟨e.tag, k⟩) e' := by
  have hsame := hc.same
  have hrec : e'.data.isRecord = true := hsame.isRecord.trans h.isRecord
  have hstop : 0 < e'.stopTime := by
    cases hc with
    | reschedule hr => exact hr.stop hl h.stop
    | modify _ hp => exact hp h.isRecord h.stop
    | announce hf | fire hf | halt hf | finish hf | remove hf | stop hf | look hf =>
      rw [hf.stopTime]
      exact h.stop
  refine ⟨hrec, hstop, ?_⟩
  rw [hsame.tag, phase_append, kindsOf_own, h.phase]
  have hcommand : (World.stopKinds e).foldl follow (some (decide (e.eventState = .isRunning))) =
      some false := by
    rw [stopKinds_running h.isRecord h.stop]
    by_cases hs : e.eventState = .isRunning <;> simp [hs, follow]
  cases hc with
  | announce _ hs hs' => simp [hs, hs', follow]
  | fire hf hs hs' =>
    have hne : e.stopTime ≠ 0 := by have := h.stop; omega
    rw [if_neg hne] at hs'
    cases hs with
    | inl hs | inr hs => simp [hs, hs', follow]
  | halt _ hs _ hs' =>
    simp [World.stopNotices, h.isRecord, hs, hs', follow]
  | finish _ hs hs' => simp [hs, hs']
  | reschedule hr _ _ hor =>
    have hs : e.eventState ≠ .isRunning := by
      cases hor with
      | inl hs => rw [hs]; simp
      | inr hp => exact hp h.isRecord h.stop
    simp [hs, hr.eventState]
  | remove _ hs' =>
    rw [List.foldl_append, hcommand]
    simp [hs', follow]
  | stop _ _ hs' =>
    rw [hcommand]
    simp [hs']
  | modify _ _ hs' =>
    rw [hs']
    by_cases hp : e.eventState = .preannounce <;> simp [hp]
  | look _ hs' => rw [hs']; rfl

/-- Commands and passes make no new objects of old timers. -/
theorem recording_append {log : List Notice} {g g' : Nat} {kinds : List Kind}
    (hk : ∀ k ∈ kinds, ∀ e, k ≠ .created e ∧ k ≠ .loaded e)
    (h : Recording (log ++ kinds.map fun k => ⟨g, k⟩) g') : Recording log g' := by
  obtain ⟨e, hmem, hrec⟩ := h
  refine ⟨e, ?_, hrec⟩
  have old {k : Kind} (hke : k = .created e ∨ k = .loaded e)
      (hm : (⟨g', k⟩ : Notice) ∈ log ++ kinds.map fun k => ⟨g, k⟩) : (⟨g', k⟩ : Notice) ∈ log := by
    cases List.mem_append.mp hm with
    | inl hm => exact hm
    | inr hm =>
      obtain ⟨k', hk', he⟩ := List.mem_map.mp hm
      cases he
      have := hk k hk' e
      cases hke with
      | inl he => exact absurd he this.1
      | inr he => exact absurd he this.2
  cases hmem with
  | inl hm => exact Or.inl (old (Or.inl rfl) hm)
  | inr hm => exact Or.inr (old (Or.inr rfl) hm)

theorem phase_other {log : List Notice} {g g' : Nat} (h : g ≠ g') (kinds : List Kind) :
    phase (log ++ kinds.map fun k => ⟨g, k⟩) g' = phase log g' := by
  rw [phase_append, kindsOf_other h]
  rfl

theorem InStep.other {log : List Notice} {g : Nat} {e : CTimerEvent} (h : InStep log e)
    (hne : g ≠ e.tag)
    (kinds : List Kind) : InStep (log ++ kinds.map fun k => ⟨g, k⟩) e :=
  ⟨h.isRecord, h.stop, (phase_other hne kinds).trans h.phase⟩

theorem inStep_move (hl : lc.Sane) (hw : WF w) (h : RecordingsInStep w) {id : Nat}
    {e e' : CTimerEvent}
    {kinds : List Kind} {touched : Bool} (hf : w.events.find id = some e)
    (hc : Change lc recordingSafe clean e kinds e') :
    RecordingsInStep (w.replace id e.tag kinds e' touched) := by
  have hkinds := hc.kinds
  have hevents : ∀ i x, (w.replace id e.tag kinds e' touched).events.find i = some x →
      Recording (w.log ++ kinds.map fun k => ⟨e.tag, k⟩) x.tag →
      InStep (w.log ++ kinds.map fun k => ⟨e.tag, k⟩) x := by
    intro i x hx hrec
    have hrec := recording_append hkinds hrec
    cases find_replace hx with
    | inl hi =>
      obtain ⟨rfl, rfl⟩ := hi
      exact change_inStep hl (h.events i e hf (hc.same.tag ▸ hrec)) hc
    | inr hi =>
      have hne : e.tag ≠ x.tag := fun he => hi.1 (hw.inj i x id e hi.2 hf he.symm)
      exact (h.events i x hi.2 hrec).other hne kinds
  refine ⟨by rw [World.replace_log]; exact hevents, ?_, ?_⟩
  · intro g hrec
    rw [World.replace_log] at hrec ⊢
    by_cases hg : e.tag = g
    · have htag : e'.tag = g := hc.same.tag.trans hg
      have hin := hevents id e' (by simp) (by rw [htag]; exact hrec)
      rw [Paired, ← htag, hin.phase]
      simp
    · rw [Paired, phase_other hg]
      exact h.paired g (recording_append hkinds hrec)
  · intro hn n hn'
    rw [World.replace_isTimeSet] at hn
    rw [World.replace_log] at hn'
    rw [World.replace_file]
    cases List.mem_append.mp hn' with
    | inl hold => exact h.unseen hn n hold
    | inr hnew =>
      obtain ⟨k, _, rfl⟩ := List.mem_map.mp hnew
      exact fun hm => hw.waiting hn e.tag hm id e hf rfl

theorem inStep_delete (hw : WF w) (h : RecordingsInStep w) {id : Nat} {e : CTimerEvent}
    (ht : w.isTimeSet = true) (hf : w.events.find id = some e) (hterm : e.eventState = .terminated) :
    RecordingsInStep (w.delete id e) := by
  have hkinds : ∀ k ∈ [Kind.deleted], ∀ x, k ≠ .created x ∧ k ≠ .loaded x := by simp
  refine ⟨?_, ?_, fun hn => ?_⟩
  · intro i x hx hrec
    obtain ⟨hi, hold⟩ := find_delete hx
    have hne : e.tag ≠ x.tag := fun he => hi (hw.inj i x id e hold hf he.symm)
    exact (h.events i x hold (recording_append hkinds hrec)).other hne [.deleted]
  · intro g hrec
    have hrec := recording_append hkinds hrec
    change phase (w.log ++ [Kind.deleted].map fun k => ⟨e.tag, k⟩) g ≠ none
    by_cases hg : e.tag = g
    · subst hg
      rw [phase_append, kindsOf_own, (h.events id e hf hrec).phase]
      simp [hterm, follow]
    · rw [phase_other hg]
      exact h.paired g hrec
  · change w.isTimeSet = false at hn
    rw [hn] at ht
    cases ht

theorem inStep_add (hw : WF w) (h : RecordingsInStep w) {evt : CTimerEvent}
    (htag : evt.tag = w.nextTag) :
    RecordingsInStep (w.addNew evt) := by
  have hnone : kindsOf w.log evt.tag = [] := by
    apply kindsOf_eq_nil
    intro n hn he
    have := hw.logged n hn
    omega
  have hphase : phase (w.log ++ [Kind.created evt].map fun k => ⟨evt.tag, k⟩) evt.tag =
      some (decide (evt.eventState = .isRunning)) := by
    rw [phase_append, kindsOf_own, phase, hnone]
    rfl
  -- the new timer is a recording if its object is one
  have hnew (hrec : Recording (w.addNew evt).log evt.tag) :
    evt.data.isRecord = true ∧ 0 < evt.stopTime := by
    obtain ⟨x, hmem, hx⟩ := hrec
    have hold (k : Kind) : (⟨evt.tag, k⟩ : Notice) ∉ w.log := by
      rw [← mem_kindsOf, hnone]
      simp
    simp only [World.addNew, List.mem_append, List.mem_singleton, Notice.mk.injEq, true_and, hold,
      false_or,
      Kind.created.injEq, reduceCtorEq, or_false] at hmem
    rw [← hmem]
    exact hx
  have hother {g : Nat} (hg : evt.tag ≠ g) (hrec : Recording (w.addNew evt).log g) :
    Recording w.log g := by
    obtain ⟨x, hmem, hx⟩ := hrec
    refine ⟨x, ?_, hx⟩
    simpa [World.addNew, Ne.symm hg] using hmem
  refine ⟨?_, ?_, ?_⟩
  · intro i x hx hrec
    cases find_addNew hx with
    | inl hi =>
      rw [hi.2] at hrec ⊢
      obtain ⟨hr, hs⟩ := hnew hrec
      exact ⟨hr, hs, hphase⟩
    | inr hi =>
      have hne : evt.tag ≠ x.tag := by
        have := hw.tags i x hi.2
        omega
      exact (h.events i x hi.2 (hother hne hrec)).other hne [.created evt]
  · intro g hrec
    change phase (w.log ++ [Kind.created evt].map fun k => ⟨evt.tag, k⟩) g ≠ none
    by_cases hg : evt.tag = g
    · subst hg
      rw [hphase]
      simp
    · rw [phase_other hg]
      exact h.paired g (hother hg hrec)
  · intro hn n hn'
    cases List.mem_append.mp hn' with
    | inl hold => exact h.unseen hn n hold
    | inr hnew' =>
      rw [List.mem_singleton.mp hnew']
      intro hm
      have hlt : evt.tag < w.nextTag := hw.fileTags.2 _ hm
      omega

theorem inStep_micro (hl : lc.Sane) (hw : WF w) (h : RecordingsInStep w)
    (hm : Micro lc recordingSafe clean w w') : RecordingsInStep w' := by
  cases hm with
  | move id e e' kinds touched hf hc _ => exact inStep_move hl hw h hf hc
  | delete id e ht hf hterm => exact inStep_delete hw h ht hf hterm
  | add evt htag _ _ => exact inStep_add hw h htag
  | flags => exact ⟨h.events, h.paired, h.unseen⟩
  | save _ ht _ hs =>
    obtain ⟨_, _, rfl⟩ := save_eq hs
    refine ⟨h.events, h.paired, fun hn => ?_⟩
    change w.isTimeSet = false at hn
    rw [hn] at ht
    cases ht

/-- A timer that arrives has no notice before its load. -/
theorem kindsOf_arrival {now : Int} (hw : WF w) (hset : w.isTimeSet = false) (h : RecordingsInStep w)
    (hl : Loaded now w w') {k : CTimerEvent} (hk : k ∈ arrivals w now) :
    kindsOf w'.log k.tag = [.loaded k] := by
  have hnone : kindsOf w.log k.tag = [] := by
    apply kindsOf_eq_nil
    intro n hn he
    obtain ⟨r, _, _, hor⟩ := mem_arrivals hk
    cases hor with
    | inl hhas =>
      obtain ⟨i, hg, _⟩ := hhas
      exact h.unseen hset n hn (he ▸ List.mem_of_getElem? hg)
    | inr hfresh =>
      have := hw.logged n hn
      omega
  rw [hl.log, kindsOf_append, hnone, kindsOf_arrivals hw hk]
  rfl

theorem inStep_load {now : Int} (hw : WF w) (hset : w.isTimeSet = false) (h : RecordingsInStep w)
    (hl : Loaded now w w') : RecordingsInStep w' := by
  have hkinds {k : CTimerEvent} (hk : k ∈ arrivals w now) : kindsOf w'.log k.tag = [.loaded k] :=
    kindsOf_arrival hw hset h hl hk
  have hphase {k : CTimerEvent} (hk : k ∈ arrivals w now) :
      phase w'.log k.tag = some (decide (k.eventState = .isRunning)) := by
    rw [phase, hkinds hk]
    rfl
  have hold {g : Nat} (hg : ∀ k ∈ arrivals w now, k.tag ≠ g) (hrec : Recording w'.log g) :
      Recording w.log g ∧ phase w'.log g = phase w.log g := by
    obtain ⟨e, hmem, he⟩ := hrec
    rw [← mem_kindsOf, ← mem_kindsOf, hl.kindsOf_other hg, mem_kindsOf, mem_kindsOf] at hmem
    exact ⟨⟨e, hmem, he⟩, by rw [phase, hl.kindsOf_other hg]; rfl⟩
  refine ⟨?_, ?_, fun hn => ?_⟩
  · intro i x hx hrec
    cases (hl.find i x).mp hx with
    | inl hin =>
      have hg : ∀ k ∈ arrivals w now, k.tag ≠ x.tag :=
        fun k hk he => (arrival_tag hw hset hk).2 i x hin he.symm
      obtain ⟨hrec', hsame⟩ := hold hg hrec
      have := h.events i x hin hrec'
      exact ⟨this.isRecord, this.stop, hsame.trans this.phase⟩
    | inr hin =>
      obtain ⟨_, _, k, hk, rfl⟩ := mem_numbered hin
      obtain ⟨e, hmem, hrec', hstop⟩ := hrec
      change (⟨k.tag, .created e⟩ : Notice) ∈ w'.log ∨ (⟨k.tag, .loaded e⟩ : Notice) ∈ w'.log at hmem
      rw [← mem_kindsOf, ← mem_kindsOf, hkinds hk] at hmem
      simp only [List.mem_singleton, reduceCtorEq, Kind.loaded.injEq, false_or] at hmem
      subst hmem
      exact ⟨hrec', hstop, hphase (k := e) hk⟩
  · intro g hrec
    by_cases hg : ∃ k ∈ arrivals w now, k.tag = g
    · obtain ⟨k, hk, rfl⟩ := hg
      rw [Paired, hphase hk]
      simp
    · have hg : ∀ k ∈ arrivals w now, k.tag ≠ g := fun k hk he => hg ⟨k, hk, he⟩
      obtain ⟨hrec', hsame⟩ := hold hg hrec
      rw [Paired, hsame]
      exact h.paired g hrec'
  · rw [hl.isTimeSet] at hn
    cases hn

end

/-! ## Runs -/

/-- The calls of one run of the daemon that keep recordings in step. -/
def RecordingSafe (w : World) (a : Act) : Prop :=
  recordingSafe.Allows w a ∧ ∀ wake, a ≠ .shutdown wake

theorem inStep_step {lc : LibC} (hl : lc.Sane) {w w' : World} {a : Act} (hw : Sound w)
    (h : RecordingsInStep w) (hok : RecordingSafe w a) (hstep : step lc w a = some w') :
    RecordingsInStep w' := by
  refine step_keeps hw hok.1 (fun _ _ hw h hm => inStep_micro hl hw h hm) ?_ ?_ h hstep
  · rintro env rfl hset hload
    exact inStep_load hw.wf hset h hload
  · rintro wake rfl _
    exact absurd rfl (hok.2 wake)

/-- **Starts and stops of recordings come in pairs.** In every run in which no
running recording is rescheduled and no recording is given a stop time that is
not positive, every recording made with a stop time is stopped once after each
start, before the next start and before its deletion, and is stopped only while
it runs. -/
theorem record_start_stop_paired {lc : LibC} (hl : lc.Sane) {text : Option Str} {b : Bool} {w : World}
    (hrun : Runs (step lc) RecordingSafe (World.start text b) w) {g : Nat} (hg : Recording w.log g) :
    Paired w.log g := by
  have hinv : Sound w ∧ RecordingsInStep w := by
    apply hrun.invariant (I := fun w => Sound w ∧ RecordingsInStep w)
    · intro s a t hs hok hstep
      exact ⟨step_sound hs.1 hstep, inStep_step hl hs.1 hs.2 hok hstep⟩
    · refine ⟨start_sound text b, ?_, ?_, ?_⟩
      · intro i x hx
        cases hx
      · rintro g ⟨e, hmem, _⟩
        cases hmem with
        | inl hm => cases hm
        | inr hm => cases hm
      · intro _ n hn
        cases hn
  exact hinv.2.paired g hg

/-- A recording from 1000 to 5000, every day. -/
def dailyRecording : AddMsg := ⟨0, 1000, 5000, repeatDaily, 0, .record ⟨0, 0, 1, 0⟩ false []⟩

/-- Started and stopped by the passes, then planned for the next day. -/
theorem record_start_stop_paired_daily :
    ∃ w, runList (step utcJanuary) (World.start none false)
        [.timeSet (noEpg 500), .addTimer (noEpg 500) dailyRecording, .pass (noEpg 1000),
          .pass (noEpg 5000)] = some w ∧
      Recording w.log 0 ∧ kindsOf (w.log.drop 1) 0 = [.fire, .recordStop] ∧ Paired w.log 0 := by
  have hlog : (runList (step utcJanuary) (World.start none false)
      [.timeSet (noEpg 500), .addTimer (noEpg 500) dailyRecording, .pass (noEpg 1000),
        .pass (noEpg 5000)]).map (fun w =>
          decide (Recording w.log 0 ∧ kindsOf (w.log.drop 1) 0 = [.fire, .recordStop])) =
            some true := by
    decide
  obtain ⟨w, hw, heq⟩ := Option.map_eq_some_iff.mp hlog
  obtain ⟨hrec, hkinds⟩ := of_decide_eq_true heq
  refine ⟨w, hw, hrec, hkinds, record_start_stop_paired utcJanuary_sane (Runs.ofList ?_ hw) hrec⟩
  intro s a ha
  simp only [List.mem_cons, List.not_mem_nil, or_false] at ha
  rcases ha with rfl | rfl | rfl | rfl <;> exact ⟨trivial, fun wake he => by cases he⟩

/-- A reschedule while the recording runs: it is started again on the next day
and was never stopped. -/
theorem reschedule_loses_stop :
    ¬ ∀ (lc : LibC), lc.Sane → ∀ (text : Option Str) (b : Bool) (w : World),
    Runs (step lc) (fun _ a => ∀ wake, a ≠ .shutdown wake) (World.start text b) w →
    ∀ g, Recording w.log g → Paired w.log g := by
  intro h
  have hlog : (runList (step utcJanuary) (World.start none false)
      [.timeSet (noEpg 500), .addTimer (noEpg 500) dailyRecording, .pass (noEpg 1000),
        .rescheduleEvent (noEpg 2000) 1, .pass (noEpg 90000)]).map (fun w =>
          decide (Recording w.log 0 ∧ phase w.log 0 = none)) = some true := by
    decide
  obtain ⟨w, hw, heq⟩ := Option.map_eq_some_iff.mp hlog
  obtain ⟨hrec, hphase⟩ := of_decide_eq_true heq
  refine h utcJanuary utcJanuary_sane none false w (Runs.ofList ?_ hw) 0 hrec hphase
  intro s a ha wake he
  subst he
  simp at ha

end Tuxbox.Timerd
