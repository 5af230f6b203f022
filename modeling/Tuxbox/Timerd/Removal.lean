import Tuxbox.Timerd.Restart

/-! Removed timers. `removeEvent` only marks the event as terminated and leaves
the rest to the timer thread, so a removal lasts as long as nothing takes the
mark away before the thread has seen it. -/
namespace Tuxbox.Timerd

def Removed (log : List Notice) (g : Nat) : Prop := ⟨g, .removed⟩ ∈ log

/-- After its removal a timer is neither announced nor fired. -/
def Quiet (log : List Notice) : Prop :=
  ∀ before after g, log = before ++ ⟨g, .removed⟩ :: after →
    ∀ n ∈ after, n.tag = g → n.kind ≠ .announce ∧ n.kind ≠ .fire

theorem quiet_append {log ns : List Notice} (h : Quiet log)
    (hn : ∀ n ∈ ns, n.kind = .announce ∨ n.kind = .fire → ¬ Removed (log ++ ns) n.tag) :
    Quiet (log ++ ns) := by
  intro before after g heq n hmem htag
  have hrem : Removed (log ++ ns) g := by
    rw [heq]
    simp [Removed]
  have late (hm : n ∈ ns) : n.kind ≠ .announce ∧ n.kind ≠ .fire := by
    constructor
    · exact fun hk => hn n hm (Or.inl hk) (htag ▸ hrem)
    · exact fun hk => hn n hm (Or.inr hk) (htag ▸ hrem)
  -- the removal is in the old log or among the new notices
  cases List.append_eq_append_iff.mp heq with
  | inl hnew =>
    obtain ⟨c, _, hns⟩ := hnew
    exact late (by rw [hns]; simp [hmem])
  | inr hold =>
    obtain ⟨c, hlog, hafter⟩ := hold
    cases c with
    | nil =>
      refine late ?_
      rw [List.nil_append] at hafter
      rw [← hafter]
      exact List.mem_cons_of_mem _ hmem
    | cons d c =>
      simp only [List.cons_append, List.cons.injEq] at hafter
      obtain ⟨rfl, rfl⟩ := hafter
      cases List.mem_append.mp hmem with
      | inl hm => exact h before c g hlog n hm htag
      | inr hm => exact late hm

theorem removed_append (log : List Notice) (g g' : Nat) (kinds : List Kind) :
    Removed (log ++ kinds.map fun k => ⟨g, k⟩) g' ↔ Removed log g' ∨
      (g' = g ∧ Kind.removed ∈ kinds) := by
  simp only [Removed, List.mem_append, List.mem_map, Notice.mk.injEq]
  constructor
  · rintro (h | ⟨k, hk, rfl, rfl⟩)
    · exact Or.inl h
    · exact Or.inr ⟨rfl, hk⟩
  · rintro (h | ⟨rfl, hk⟩)
    · exact Or.inl h
    · exact Or.inr ⟨_, hk, rfl, rfl⟩

theorem removed_of_concat {log : List Notice} {g g' : Nat} {k : Kind} (hk : Kind.removed ≠ k)
    (h : Removed (log ++ [⟨g, k⟩]) g') : Removed log g' := by
  cases (removed_append log g g' [k]).mp h with
  | inl hold => exact hold
  | inr hnew => exact absurd (List.mem_singleton.mp hnew.2) hk

/-! ## The invariant -/

/-- Stops and reschedules of events that wait for their deletion are out. -/
def notTerminated : Permit where
  stop e := e.eventState ≠ .terminated
  reschedule e := e.eventState ≠ .terminated
  modify _ _ := True

/-- Removed timers are marked in the map, and in the file unless the file is
going to be written again. -/
structure Gone (w : World) : Prop where
  plain : AllPlain w
  quiet : Quiet w.log
  marked : ∀ id e, w.events.find id = some e → Removed w.log e.tag → e.eventState = .terminated
  file : ∀ g r, w.file.Has g r → Removed w.log g → r.eventState = .terminated ∨
    (w.isTimeSet = true ∧ (w.saveEvents = true ∨ ∃ id e, w.events.find id = some e ∧ e.tag = g))

theorem TimerFile.Has.mem {f : TimerFile} {g : Nat} {r : CTimerEvent} (h : f.Has g r) :
    g ∈ f.tags := by
  obtain ⟨i, hg, _⟩ := h
  exact List.mem_of_getElem? hg

section
variable {lc : LibC} {clean : Prop} {w w' : World}

/-- A change of a marked event keeps the mark and sends nothing. -/
theorem change_terminated {e e' : CTimerEvent} {kinds : List Kind}
    (h : Change lc notTerminated clean e kinds e') (he : e.eventState = .terminated) :
    e'.eventState = .terminated := by
  cases h with
  | announce _ hs => rw [he] at hs; cases hs
  | fire _ hs => rw [he] at hs; cases hs <;> contradiction
  | halt _ hs => rw [he] at hs; cases hs
  | finish _ hs => rw [he] at hs; cases hs
  | reschedule _ _ _ hs =>
    cases hs with
    | inl hs => rw [he] at hs; cases hs
    | inr hs => exact absurd he hs
  | remove _ hs => exact hs
  | stop _ hs => exact absurd he hs
  | modify _ _ hs => rw [hs, he]; rfl
  | look _ hs => rw [hs, he]

theorem change_removed {e e' : CTimerEvent} {kinds : List Kind}
    (h : Change lc notTerminated clean e kinds e') (hk : Kind.removed ∈ kinds) :
    e'.eventState = .terminated := by
  cases h with
  | remove _ hs => exact hs
  | halt => cases mem_stopNotices hk
  | stop => cases mem_stopKinds hk
  | announce => simp at hk
  | fire => simp at hk
  | _ => cases hk

/-- What announces or fires an event finds it planned, and removes nothing. -/
theorem change_announces {e e' : CTimerEvent} {kinds : List Kind} {k : Kind}
    (h : Change lc notTerminated clean e kinds e') (hk : k ∈ kinds)
      (hk' : k = .announce ∨ k = .fire) :
    e.eventState ≠ .terminated ∧ Kind.removed ∉ kinds := by
  cases h with
  | announce _ hs => exact ⟨by rw [hs]; simp, by simp⟩
  | fire _ hs => exact ⟨by cases hs with | inl hs | inr hs => rw [hs]; simp, by simp⟩
  | halt => rw [mem_stopNotices hk] at hk'; cases hk' <;> contradiction
  | stop => rw [mem_stopKinds hk] at hk'; cases hk' <;> contradiction
  | remove =>
    cases List.mem_append.mp hk with
    | inl hm => rw [mem_stopKinds hm] at hk'; cases hk' <;> contradiction
    | inr hm => rw [List.mem_singleton.mp hm] at hk'; cases hk' <;> contradiction
  | _ => cases hk

theorem gone_move (hw : WF w) (h : Gone w) (hclean : clean) {id : Nat} {e e' : CTimerEvent}
    {kinds : List Kind} {touched : Bool} (hf : w.events.find id = some e)
    (hc : Change lc notTerminated clean e kinds e') (hm : Micro lc notTerminated clean w
      (w.replace id e.tag kinds e' touched)) : Gone (w.replace id e.tag kinds e' touched) := by
  have hsame := hc.same
  refine ⟨hm.allPlain hclean h.plain, ?_, ?_, ?_⟩
  · rw [World.replace_log]
    apply quiet_append h.quiet
    intro n hn hk hrem
    obtain ⟨k, hkm, rfl⟩ := List.mem_map.mp hn
    obtain ⟨hstate, hnot⟩ := change_announces hc hkm hk
    cases (removed_append w.log e.tag e.tag kinds).mp hrem with
    | inl hold => exact hstate (h.marked id e hf hold)
    | inr hnew => exact hnot hnew.2
  · intro i x hx hrem
    rw [World.replace_log, removed_append] at hrem
    cases find_replace hx with
    | inl hi =>
      obtain ⟨rfl, rfl⟩ := hi
      cases hrem with
      | inl hold => exact change_terminated hc (h.marked i e hf (hsame.tag ▸ hold))
      | inr hnew => exact change_removed hc hnew.2
    | inr hi =>
      cases hrem with
      | inl hold => exact h.marked i x hi.2 hold
      | inr hnew => exact absurd (hw.inj i x id e hi.2 hf hnew.1) hi.1
  · intro g r hr hrem
    rw [World.replace_file] at hr
    rw [World.replace_log, removed_append] at hrem
    rw [World.replace_isTimeSet, World.replace_saveEvents]
    by_cases hg : e.tag = g
    · cases ht : w.isTimeSet with
      | false => exact absurd hg (hw.waiting ht g hr.mem id e hf)
      | true => exact Or.inr ⟨rfl, Or.inr ⟨id, e', by simp, hsame.tag.trans hg⟩⟩
    · cases hrem with
      | inr hnew => exact absurd hnew.1.symm hg
      | inl hold =>
        refine (h.file g r hr hold).imp_right fun hor => ⟨hor.1, ?_⟩
        cases hor.2 with
        | inl hs => exact Or.inl (by rw [hs]; rfl)
        | inr hin =>
          obtain ⟨i, x, hx, hxg⟩ := hin
          have hi : i ≠ id := by
            rintro rfl
            rw [hf] at hx
            cases hx
            exact hg hxg
          exact Or.inr ⟨i, x, by simp [hi, hx], hxg⟩

theorem gone_micro (hw : WF w) (hclean : clean) (h : Gone w)
    (hm : Micro lc notTerminated clean w w') :
    Gone w' := by
  have hm' := hm
  cases hm with
  | move id e e' kinds touched hf hc _ => exact gone_move hw h hclean hf hc hm'
  | delete id e ht hf hterm =>
    have hrem (g : Nat) : Removed (w.delete id e).log g → Removed w.log g :=
      removed_of_concat (by simp)
    refine ⟨hm'.allPlain hclean h.plain, ?_, ?_, ?_⟩
    · apply quiet_append h.quiet
      intro n hn hk
      rw [List.map_singleton, List.mem_singleton] at hn
      rw [hn] at hk
      cases hk <;> contradiction
    · exact fun i x hx hr => h.marked i x (find_delete hx).2 (hrem _ hr)
    · exact fun g r _ _ => Or.inr ⟨ht, Or.inl rfl⟩
  | add evt htag hstate _ =>
    have hrem (g : Nat) : Removed (w.addNew evt).log g → Removed w.log g :=
      removed_of_concat (by simp)
    refine ⟨hm'.allPlain hclean h.plain, ?_, ?_, ?_⟩
    · apply quiet_append h.quiet
      intro n hn hk
      rw [List.mem_singleton] at hn
      rw [hn] at hk
      cases hk <;> contradiction
    · intro i x hx hr
      cases find_addNew hx with
      | inl hi =>
        -- nobody has removed the new timer
        have hlt := hw.logged _ (hrem _ hr)
        rw [hi.2] at hlt
        exact absurd (htag ▸ hlt : w.nextTag < w.nextTag) (lt_irrefl _)
      | inr hi => exact h.marked i x hi.2 (hrem _ hr)
    · intro g r hr hrm
      refine (h.file g r hr (hrem g hrm)).imp_right fun hor => ⟨hor.1, Or.inl ?_⟩
      simp [World.addNew, CTimerManager.addEvent]
  | flags safety timerWakeup saveEvents hs =>
    refine ⟨h.plain, h.quiet, h.marked, fun g r hr hrm => ?_⟩
    exact (h.file g r hr hrm).imp_right fun hor => ⟨hor.1, hor.2.imp_left hs⟩
  | save _ ht hid hs =>
    have hhas := save_has hw h.plain hid hs
    obtain ⟨text, _, rfl⟩ := save_eq hs
    refine ⟨h.plain, h.quiet, h.marked, fun g r hr hrm => ?_⟩
    obtain ⟨i, x, hx, rfl, rfl⟩ := (hhas g r).mp hr
    exact Or.inl (h.marked i x hx hrm)

/-- What the load must not find: a marked entry that is out of date and
repeats, whose mark it would replace. -/
def LoadKeepsMarks (w : World) (now : Int) : Prop :=
  ∀ g r, w.file.Has g r → r.eventState = .terminated → r.eventRepeat ≠ repeatOnce →
    now ≤ r.alarmTime ∨ now < r.stopTime

theorem gone_load {now : Int} (hw : Sound w) (hw' : w'.eventID < 2 ^ 31) (hset : w.isTimeSet = false)
    (hok : LoadKeepsMarks w now) (h : Gone w) (hl : Loaded now w w') : Gone w' := by
  have hrem (g : Nat) (hr : Removed w'.log g) : Removed w.log g := by
    rw [Removed, hl.log] at hr
    cases List.mem_append.mp hr with
    | inl hr => exact hr
    | inr hr =>
      obtain ⟨k, _, he⟩ := List.mem_map.mp hr
      cases he
  have hmarked :
    ∀ id e, w'.events.find id = some e → Removed w'.log e.tag → e.eventState = .terminated := by
    intro i x hx hr
    have hr := hrem _ hr
    cases hl.known hx (hw.wf.logged _ hr) with
    | inl hold => exact h.marked i x hold hr
    | inr hnew =>
      obtain ⟨r, k, hhas, hkept, heq⟩ := hnew
      have hterm : r.eventState = .terminated := by
        cases h.file x.tag r hhas hr with
        | inl hterm => exact hterm
        | inr hor => rw [hset] at hor; cases hor.1
      have hstate : x.eventState = k.eventState := by rw [heq]; rfl
      rw [hstate]
      cases (kept_spec hkept).2 with
      | inl hstate => exact hstate.trans hterm
      | inr hstate =>
        obtain ⟨_, halarm, hstop, hrepeat⟩ := hstate
        have := hok x.tag r hhas hterm hrepeat
        simp only at halarm hstop
        omega
  refine ⟨hl.plain h.plain, ?_, hmarked, ?_⟩
  · rw [hl.log]
    apply quiet_append h.quiet
    intro n hn hk
    obtain ⟨k, _, rfl⟩ := List.mem_map.mp hn
    cases hk <;> contradiction
  · intro g r hr hrm
    obtain ⟨i, x, hx, rfl, rfl⟩ := (hl.has h.plain hw' g r).mp hr
    exact Or.inl (hmarked i x hx hrm)

/-- A shutdown writes the marks, or they are in the file already. -/
def ShutdownKeepsMarks (w : World) : Prop :=
  w.saveEvents = true ∨ ∀ id e r, w.events.find id = some e → e.eventState = .terminated →
    w.file.Has e.tag r → r.eventState = .terminated

theorem gone_restart (hw : Sound w) (hok : ShutdownKeepsMarks w) (h : Gone w) (hr : Restarted w w') :
    Gone w' := by
  refine ⟨hr.allPlain, by rw [hr.log]; exact h.quiet, ?_, ?_⟩
  · intro i x hx
    rw [hr.events] at hx
    cases hx
  · intro g r hhas hrem
    rw [hr.log] at hrem
    left
    cases hs : w.saveEvents with
    | true =>
      obtain ⟨i, x, hx, rfl, rfl⟩ := (hr.has hs h.plain hw.counter g r).mp hhas
      exact h.marked i x hx hrem
    | false =>
      rw [hr.untouched hs] at hhas
      cases h.file g r hhas hrem with
      | inl hterm => exact hterm
      | inr hor =>
        cases hor.2 with
        | inl hs' => rw [hs] at hs'; cases hs'
        | inr hin =>
          obtain ⟨i, x, hx, rfl⟩ := hin
          cases hok with
          | inl hs' => rw [hs] at hs'; cases hs'
          | inr hall => exact hall i x r hx (h.marked i x hx hrem) hhas

end

/-! ## Runs -/

/-- The calls that leave the marks of removed timers alone. -/
def KeepsMarks (w : World) (a : Act) : Prop :=
  a.Plain ∧ notTerminated.Allows w a ∧
    match a with
    | .timeSet env => LoadKeepsMarks w env.now
    | .shutdown _ => ShutdownKeepsMarks w
    | _ => True

theorem gone_step {lc : LibC} {w w' : World} {a : Act} (hw : Sound w) (h : Gone w)
    (hok : KeepsMarks w a)
    (hstep : step lc w a = some w') : Gone w' := by
  obtain ⟨hplain, hallows, hext⟩ := hok
  refine step_keeps hw hallows (fun w w' hw h hm => gone_micro hw hplain h hm) ?_ ?_ h hstep
  · rintro env rfl hset hl
    exact gone_load hw (step_sound hw hstep).counter hset hext h hl
  · rintro b rfl hr
    exact gone_restart hw hext h hr

theorem start_gone (text : Option Str) (b : Bool) : Gone (World.start text b) := by
  constructor
  · intro i x hx
    cases hx
  · intro before after g heq
    cases before <;> cases heq
  · intro i x hx
    cases hx
  · intro g r _ hr
    cases hr

/-- **A removed timer stays removed.** In every run from any file in which no
terminated event is stopped or rescheduled, no shutdown forgets a mark, no load
replaces one and no text has a line break, no timer is announced or fired after
its removal. -/
theorem removal_permanent {lc : LibC} {text : Option Str} {b : Bool} {w : World}
    (hrun : Runs (step lc) KeepsMarks (World.start text b) w) : Quiet w.log := by
  have hinv : Sound w ∧ Gone w := by
    apply hrun.invariant (I := fun w => Sound w ∧ Gone w)
    · intro s a t hs hok hstep
      exact ⟨step_sound hs.1 hstep, gone_step hs.1 hs.2 hok hstep⟩
    · exact ⟨start_sound text b, start_gone text b⟩
  exact hinv.2.quiet

/-- A reminder for every day. -/
def dailyReminder : AddMsg := ⟨0, 2000, 0, repeatDaily, 0, .remind (chars "News")⟩

/-- The calls of a first day: of two reminders the earlier one fires, the other
is removed. -/
def removalCalls : List Act :=
  [.addTimer (noEpg 500) dailyReminder, .addTimer (noEpg 500) { dailyReminder with alarmTime := 550 },
    .pass (noEpg 560), .removeEvent (noEpg 570) 1, .setRecordingSafety 60 120]

/-- Removed, saved with its mark and loaded again, the reminder is still marked. -/
theorem removal_permanent_reload :
    ∃ w, Runs (step utcJanuary) KeepsMarks (World.start none false) w ∧ w.loads = [500, 1000] ∧
      Removed w.log 0 ∧ ⟨1, .fire⟩ ∈ w.log ∧ Quiet w.log := by
  have hend : (runList (step utcJanuary) (World.start none false)
      (.timeSet (noEpg 500) :: removalCalls)).map (fun s => (s.saveEvents,
        (step utcJanuary s (.shutdown false)).map fun t =>
          ((timersIn t.file.text).all (fun r => 1000 ≤ r.alarmTime),
            (step utcJanuary t (.timeSet (noEpg 1000))).map fun w =>
              decide (w.loads = [500, 1000] ∧ ⟨0, .removed⟩ ∈ w.log ∧ ⟨1, .fire⟩ ∈ w.log)))) =
      some (true, some (true, some true)) := by
    decide +kernel
  obtain ⟨s, hs, heq⟩ := Option.map_eq_some_iff.mp hend
  obtain ⟨hdirty, hstop⟩ := Prod.mk.inj heq
  obtain ⟨t, ht, heq⟩ := Option.map_eq_some_iff.mp hstop
  obtain ⟨hlater, hload⟩ := Prod.mk.inj heq
  obtain ⟨w, hw, hlog⟩ := Option.map_eq_some_iff.mp hload
  have hfirst : KeepsMarks (World.start none false) (.timeSet (noEpg 500)) := by
    refine ⟨trivial, trivial, ?_⟩
    rintro g r ⟨i, _, hr⟩
    cases i <;> cases hr
  have hcalls : ∀ (s : World), ∀ a ∈ removalCalls, KeepsMarks s a := by
    intro s a ha
    have hnews : newline ∉ chars "News" := by decide
    simp only [removalCalls, List.mem_cons, List.not_mem_nil, or_false] at ha
    rcases ha with rfl | rfl | rfl | rfl | rfl
    · exact ⟨⟨noEpg_plain 500, hnews⟩, trivial, trivial⟩
    · exact ⟨⟨noEpg_plain 500, hnews⟩, trivial, trivial⟩
    · exact ⟨noEpg_plain 560, trivial, trivial⟩
    · exact ⟨trivial, trivial, trivial⟩
    · exact ⟨trivial, trivial, trivial⟩
  have hload : KeepsMarks t (.timeSet (noEpg 1000)) := by
    refine ⟨trivial, trivial, ?_⟩
    rintro g r ⟨i, _, hr⟩ - -
    exact Or.inl (of_decide_eq_true (List.all_eq_true.mp hlater r (List.mem_of_getElem? hr)))
  have hdown : KeepsMarks s (.shutdown false) := ⟨trivial, trivial, Or.inl hdirty⟩
  have hrun : Runs (step utcJanuary) KeepsMarks (World.start none false) w :=
    ((Runs.ofList_cons hfirst hcalls hs).tail _ hdown ht).tail _ hload hw
  obtain ⟨hloads, hremoved, hfire⟩ := of_decide_eq_true hlog
  exact ⟨w, hrun, hloads, hremoved, hfire, removal_permanent hrun⟩

/-- Stopped after its removal, the reminder is rescheduled and fires. -/
theorem stop_revives_removed : ¬ ∀ (lc : LibC) (text : Option Str) (b : Bool) (w : World),
    Runs (step lc) (fun _ _ => True) (World.start text b) w → Quiet w.log := by
  intro h
  have hlog : (runList (step utcJanuary) (World.start none false)
      [.timeSet (noEpg 500), .addTimer (noEpg 500) dailyReminder, .removeEvent (noEpg 500) 1,
        .stopEvent (noEpg 500) 1, .pass (noEpg 600), .pass (noEpg 2000)]).map
          (fun w => w.log.drop 1) =
      some [⟨0, .removed⟩, ⟨0, .fire⟩] := by
    decide
  obtain ⟨w, hw, hdrop⟩ := Option.map_eq_some_iff.mp hlog
  have hquiet := h utcJanuary none false w (Runs.ofList (fun _ _ _ => trivial) hw)
  have hsplit : w.log = w.log.take 1 ++ ⟨0, .removed⟩ :: [⟨0, .fire⟩] := by
    rw [← hdrop]
    exact (List.take_append_drop 1 w.log).symm
  exact (hquiet _ _ 0 hsplit ⟨0, .fire⟩ (by simp) rfl).2 rfl

end Tuxbox.Timerd
