import Tuxbox.Timerd.Restart

/-! The repeat count. It goes down with every reschedule, whoever asks for it;
what a timer has fired and what it may still fire never exceed the count it was
made with. -/
namespace Tuxbox.Timerd

def fires (log : List Notice) (g : Nat) : Nat := (kindsOf log g).count .fire

/-- How often an event may still fire: a planned one as often as it counts, any
other one time less. -/
def budget (e : CTimerEvent) : Nat :=
  if e.eventState = .scheduled ∨ e.eventState = .preannounce then e.repeatCount.toNat
  else e.repeatCount.toNat - 1

/-- The count is not zero, which would mean no limit, and there are `n` for what
has happened and what can. -/
def Within (n fired : Nat) (e : CTimerEvent) : Prop :=
  0 < e.repeatCount.toNat ∧ fired + budget e ≤ n

theorem fires_append (log ns : List Notice) (g : Nat) :
    fires (log ++ ns) g = fires log g + fires ns g := by
  simp [fires, kindsOf_append]

theorem fires_own (log : List Notice) (g : Nat) (kinds : List Kind) :
    fires (log ++ kinds.map fun k => ⟨g, k⟩) g = fires log g + kinds.count .fire := by
  rw [fires_append]
  simp [fires, kindsOf_own]

theorem fires_other {g g' : Nat} (h : g ≠ g') (log : List Notice) (kinds : List Kind) :
    fires (log ++ kinds.map fun k => ⟨g, k⟩) g' = fires log g' := by
  rw [fires_append]
  simp [fires, kindsOf_other h]

/-- `modifyEvent` is not called on the timer `g`. -/
def modifyOther (g : Nat) : Permit where
  stop _ := True
  reschedule _ := True
  modify _ e := e.tag ≠ g

theorem budget_le_count (e : CTimerEvent) : budget e ≤ e.repeatCount.toNat := by
  unfold budget
  split <;> omega

theorem budget_le {e e' : CTimerEvent} (hc : e'.repeatCount = e.repeatCount)
    (hs : e'.eventState ≠ .scheduled ∧ e'.eventState ≠ .preannounce) : budget e' ≤ budget e := by
  simp only [budget, hs, or_self, if_false, hc]
  split <;> omega

section
variable {lc : LibC} {clean : Prop} {w w' : World} {g n : Nat}

/-- A change of the event pays for what it fires. -/
theorem change_within {fired : Nat} {e e' : CTimerEvent} {kinds : List Kind} (h : Within n fired e)
    (hg : e.tag = g) (hc : Change lc (modifyOther g) clean e kinds e') :
    Within n (fired + kinds.count .fire) e' := by
  obtain ⟨hpos, hsum⟩ := h
  -- an end of any kind
  have ended {ks : List Kind} (hf : Fixed clean e e')
      (hs : e'.eventState ≠ .scheduled ∧ e'.eventState ≠ .preannounce) (hk : ks.count .fire = 0) :
      Within n (fired + ks.count .fire) e' := by
    have := budget_le hf.repeatCount hs
    refine ⟨hf.repeatCount ▸ hpos, ?_⟩
    omega
  have stopCount : (World.stopKinds e).count .fire = 0 :=
    List.count_eq_zero.mpr fun hm => by cases mem_stopKinds hm
  cases hc with
  | announce hf hs hs' =>
    refine ⟨hf.repeatCount ▸ hpos, ?_⟩
    simp only [budget, hs, hs', hf.repeatCount, true_or, or_true, if_true] at hsum ⊢
    simpa using hsum
  | fire hf hs hs' =>
    have hne : e'.eventState ≠ .scheduled ∧ e'.eventState ≠ .preannounce := by
      rw [hs']
      split <;> simp
    refine ⟨hf.repeatCount ▸ hpos, ?_⟩
    simp only [budget, hs, hne, or_self, if_true, if_false, hf.repeatCount,
      List.count_singleton_self] at hsum ⊢
    omega
  | halt hf _ _ hs' =>
    exact ended hf (by rw [hs']; simp) (List.count_eq_zero.mpr fun hm => by cases mem_stopNotices hm)
  | finish hf _ hs' => exact ended hf (by rw [hs']; simp) rfl
  | remove hf hs' =>
    refine ended hf (by rw [hs']; simp) ?_
    rw [List.count_append, stopCount]
    rfl
  | stop hf _ hs' => exact ended hf (by rw [hs']; simp) stopCount
  | look hf hs' =>
    refine ⟨hf.repeatCount ▸ hpos, ?_⟩
    simpa [budget, hs', hf.repeatCount] using hsum
  | modify _ hp _ => exact absurd hg hp
  | reschedule hr _ hne _ =>
    have hgt : e.repeatCount > 0 := by
      rw [gt_iff_lt, UInt32.lt_iff_toNat_lt]
      exact hpos
    have htwo : 2 ≤ e.repeatCount.toNat := by
      have : e.repeatCount.toNat ≠ 1 := fun h1 => hne (UInt32.toNat_inj.mp h1)
      omega
    have hcount : e'.repeatCount.toNat = e.repeatCount.toNat - 1 := by
      rw [hr.repeatCount, if_pos hgt, UInt32.toNat_sub_of_le _ _ (by
        rw [UInt32.le_iff_toNat_le]; exact hpos)]
      rfl
    refine ⟨by omega, ?_⟩
    have hle : e.repeatCount.toNat - 1 ≤ budget e := by
      unfold budget
      split <;> omega
    simp only [budget, hr.eventState, true_or, if_true, hcount, List.count_nil]
    omega

/-- The event of timer `g` and its entry in the file stay within `n`; an entry
that does not is about to be written over. -/
structure Bounded (g n : Nat) (w : World) : Prop where
  fired : fires w.log g ≤ n
  events : ∀ id e, w.events.find id = some e → e.tag = g → Within n (fires w.log g) e
  file : ∀ r, w.file.Has g r →
    Within n (fires w.log g) r ∨ (w.isTimeSet = true ∧ w.saveEvents = true)

theorem within_readBack {fired : Nat} {e : CTimerEvent} (h : Within n fired e) :
    Within n fired (readBack e) := h

theorem bounded_move (hw : WF w) (h : Bounded g n w) {id : Nat} {e e' : CTimerEvent}
    {kinds : List Kind}
    {touched : Bool} (hf : w.events.find id = some e)
      (hc : Change lc (modifyOther g) clean e kinds e')
    (ht : Kind.fire ∈ kinds → w.isTimeSet = true ∧ touched = true) :
    Bounded g n (w.replace id e.tag kinds e' touched) := by
  by_cases hg : e.tag = g
  · have hin := change_within (h.events id e hf hg) hg hc
    have hfires :
      fires (w.replace id e.tag kinds e' touched).log g = fires w.log g + kinds.count .fire := by
      rw [World.replace_log, hg, fires_own]
    refine ⟨?_, ?_, ?_⟩
    · rw [hfires]
      exact Nat.le_of_add_right_le hin.2
    · intro i x hx htag
      rw [hfires]
      cases find_replace hx with
      | inl hi => rw [hi.2]; exact hin
      | inr hi => exact absurd (hw.inj i x id e hi.2 hf (htag.trans hg.symm)) hi.1
    · intro r hr
      rw [World.replace_file] at hr
      rw [hfires, World.replace_isTimeSet, World.replace_saveEvents]
      by_cases hfire : Kind.fire ∈ kinds
      · obtain ⟨hset, htouched⟩ := ht hfire
        exact Or.inr ⟨hset, by simp [htouched]⟩
      · rw [List.count_eq_zero.mpr hfire]
        exact (h.file r hr).imp_right fun hor => ⟨hor.1, by simp [hor.2]⟩
  · have hfires : fires (w.replace id e.tag kinds e' touched).log g = fires w.log g := by
      rw [World.replace_log, fires_other hg]
    refine ⟨by rw [hfires]; exact h.fired, ?_, ?_⟩
    · intro i x hx htag
      rw [hfires]
      cases find_replace hx with
      | inl hi => exact absurd (hc.same.tag.symm.trans (hi.2 ▸ htag)) hg
      | inr hi => exact h.events i x hi.2 htag
    · intro r hr
      rw [World.replace_file] at hr
      rw [hfires, World.replace_isTimeSet, World.replace_saveEvents]
      exact (h.file r hr).imp_right fun hor => ⟨hor.1, by simp [hor.2]⟩

theorem bounded_micro (hw : WF w) (hp : AllPlain w) (hknown : g < w.nextTag) (h : Bounded g n w)
    (hm : Micro lc (modifyOther g) clean w w') : Bounded g n w' := by
  cases hm with
  | move id e e' kinds touched hf hc ht => exact bounded_move hw h hf hc ht
  | delete id e ht hf hterm =>
    have hfires : fires (w.delete id e).log g = fires w.log g := by
      change fires (w.log ++ [⟨e.tag, .deleted⟩]) g = _
      rw [fires_append]
      by_cases hg : e.tag = g <;> simp [fires, kindsOf, hg]
    refine ⟨by rw [hfires]; exact h.fired, ?_, fun r _ => Or.inr ⟨ht, rfl⟩⟩
    intro i x hx htag
    rw [hfires]
    exact h.events i x (find_delete hx).2 htag
  | add evt htag _ _ =>
    have hne : evt.tag ≠ g := by omega
    have hfires : fires (w.addNew evt).log g = fires w.log g := fires_other hne w.log [.created evt]
    refine ⟨by rw [hfires]; exact h.fired, ?_, ?_⟩
    · intro i x hx hxg
      rw [hfires]
      cases find_addNew hx with
      | inl hi => rw [hi.2] at hxg; exact absurd hxg hne
      | inr hi => exact h.events i x hi.2 hxg
    · intro r hr
      rw [hfires]
      refine (h.file r hr).imp_right fun hor => ⟨hor.1, ?_⟩
      simp [World.addNew, CTimerManager.addEvent]
  | flags safety timerWakeup saveEvents hs =>
    exact ⟨h.fired, h.events, fun r hr => (h.file r hr).imp_right fun hor => ⟨hor.1, hs hor.2⟩⟩
  | save _ _ hid hs =>
    have hhas := save_has hw hp hid hs
    obtain ⟨_, _, rfl⟩ := save_eq hs
    refine ⟨h.fired, h.events, fun r hr => ?_⟩
    obtain ⟨i, x, hx, hxg, rfl⟩ := (hhas g r).mp hr
    exact Or.inl (within_readBack (h.events i x hx hxg))

theorem bounded_load {now : Int} (hw' : w'.eventID < 2 ^ 31) (hp : AllPlain w)
    (hset : w.isTimeSet = false) (hknown : g < w.nextTag) (h : Bounded g n w) (hl : Loaded now w w') :
    Bounded g n w' := by
  have hfires : fires w'.log g = fires w.log g := by
    have hzero : fires ((arrivals w now).map fun k => ⟨k.tag, .loaded k⟩) g = 0 := by
      rw [fires, List.count_eq_zero, mem_kindsOf]
      intro hm
      obtain ⟨k, _, he⟩ := List.mem_map.mp hm
      cases he
    rw [hl.log, fires_append, hzero]
    rfl
  have hevents : ∀ id e, w'.events.find id = some e → e.tag = g → Within n (fires w'.log g) e := by
    intro i x hx htag
    rw [hfires]
    cases hl.known hx (htag ▸ hknown) with
    | inl hold => exact h.events i x hold htag
    | inr hnew =>
      obtain ⟨r, k, hhas, hkept, heq⟩ := hnew
      rw [htag] at hhas
      have hr : Within n (fires w.log g) r := by
        cases h.file r hhas with
        | inl hr => exact hr
        | inr hor => rw [hset] at hor; cases hor.1
      obtain ⟨hkeq, hstate⟩ := kept_spec hkept
      have hcount : k.repeatCount = r.repeatCount := by rw [hkeq]
      rw [heq]
      change Within n (fires w.log g) k
      refine ⟨hcount ▸ hr.1, le_trans (Nat.add_le_add_left ?_ _) hr.2⟩
      cases hstate with
      | inl hs =>
        have hs : k.eventState = r.eventState := hs
        simp [budget, hs, hcount]
      | inr hs => exact budget_le hcount (by rw [hs.1]; simp)
  refine ⟨by rw [hfires]; exact h.fired, hevents, fun r hr => ?_⟩
  obtain ⟨i, x, hx, hxg, rfl⟩ := (hl.has hp hw' g r).mp hr
  exact Or.inl (within_readBack (hevents i x hx hxg))

theorem bounded_restart (hw : Sound w) (hp : AllPlain w) (h : Bounded g n w) (hr : Restarted w w') :
    Bounded g n w' := by
  refine ⟨by rw [hr.log]; exact h.fired, fun i x hx => ?_, fun r hhas => Or.inl ?_⟩
  · rw [hr.events] at hx
    cases hx
  · rw [hr.log]
    cases hs : w.saveEvents with
    | true =>
      obtain ⟨i, x, hx, hxg, rfl⟩ := (hr.has hs hp hw.counter g r).mp hhas
      exact within_readBack (h.events i x hx hxg)
    | false =>
      rw [hr.untouched hs] at hhas
      cases h.file r hhas with
      | inl hin => exact hin
      | inr hor => rw [hs] at hor; cases hor.2

/-- A timer that has just been made. -/
theorem bounded_new (hw : WF w) {evt : CTimerEvent} (htag : evt.tag = w.nextTag)
    (hn : 0 < evt.repeatCount.toNat) : Bounded evt.tag evt.repeatCount.toNat (w.addNew evt) := by
  have hfires : fires (w.addNew evt).log evt.tag = 0 := by
    have hnone : kindsOf w.log evt.tag = [] := by
      apply kindsOf_eq_nil
      intro m hm he
      have := hw.logged m hm
      omega
    change fires (w.log ++ [Kind.created evt].map fun k => ⟨evt.tag, k⟩) evt.tag = 0
    rw [fires_own, fires, hnone]
    rfl
  refine ⟨by rw [hfires]; omega, ?_, ?_⟩
  · intro i x hx hxg
    rw [hfires]
    cases find_addNew hx with
    | inl hi =>
      rw [hi.2]
      refine ⟨hn, ?_⟩
      have hle : budget (entered i evt) ≤ evt.repeatCount.toNat := budget_le_count (entered i evt)
      omega
    | inr hi =>
      have := hw.tags i x hi.2
      omega
  · intro r hr
    obtain ⟨i, hg, _⟩ := hr
    have hlt : evt.tag < w.nextTag := hw.fileTags.2 _ (List.mem_of_getElem? hg)
    omega

/-- An object is either old or the one this step has made. -/
theorem created_cases {p : Permit} {e : CTimerEvent} (hm : Micro lc p clean w w')
    (h : ⟨g, .created e⟩ ∈ w'.log) :
    ⟨g, .created e⟩ ∈ w.log ∨ (w' = w.addNew e ∧ e.tag = g ∧ e.tag = w.nextTag) := by
  cases hm with
  | move id x x' kinds touched hf hc _ =>
    left
    rw [World.replace_log] at h
    cases List.mem_append.mp h with
    | inl hold => exact hold
    | inr hnew =>
      obtain ⟨k, hk, he⟩ := List.mem_map.mp hnew
      cases he
      exact absurd rfl (hc.kinds _ hk e).1
  | delete id x =>
    left
    cases List.mem_append.mp h with
    | inl hold => exact hold
    | inr hnew => simp at hnew
  | add evt htag _ _ =>
    cases List.mem_append.mp h with
    | inl hold => exact Or.inl hold
    | inr hnew =>
      rw [List.mem_singleton] at hnew
      cases hnew
      exact Or.inr ⟨rfl, rfl, htag⟩
  | flags => exact Or.inl h
  | save _ _ _ hs =>
    obtain ⟨_, _, rfl⟩ := save_eq hs
    exact Or.inl h

/-- Whatever count the timer `g` was made with bounds it. -/
structure Counted (g : Nat) (w : World) : Prop where
  plain : AllPlain w
  bounded : ∀ e, ⟨g, .created e⟩ ∈ w.log → 0 < e.repeatCount.toNat → Bounded g e.repeatCount.toNat w

theorem counted_micro (hw : WF w) (hclean : clean) (h : Counted g w)
    (hm : Micro lc (modifyOther g) clean w w') : Counted g w' := by
  refine ⟨hm.allPlain hclean h.plain, fun e he hn => ?_⟩
  cases created_cases hm he with
  | inl hold => exact bounded_micro hw h.plain (hw.logged _ hold) (h.bounded e hold hn) hm
  | inr hnew =>
    obtain ⟨rfl, rfl, htag⟩ := hnew
    exact bounded_new hw htag hn

end

/-! ## Runs -/

/-- The calls that do not modify the timer `g`, with texts without line
breaks. -/
def KeepsCount (g : Nat) (w : World) (a : Act) : Prop := a.Plain ∧ (modifyOther g).Allows w a

theorem counted_step {lc : LibC} {g : Nat} {w w' : World} {a : Act} (hw : Sound w) (h : Counted g w)
    (hok : KeepsCount g w a) (hstep : step lc w a = some w') : Counted g w' := by
  refine step_keeps hw hok.2 (fun _ _ hw h hm => counted_micro hw hok.1 h hm) ?_ ?_ h hstep
  · rintro env rfl hset hl
    refine ⟨hl.plain h.plain, fun e he hn => ?_⟩
    have hold : ⟨g, .created e⟩ ∈ w.log := by
      rw [hl.log] at he
      cases List.mem_append.mp he with
      | inl hold => exact hold
      | inr hnew =>
        obtain ⟨k, _, heq⟩ := List.mem_map.mp hnew
        cases heq
    exact bounded_load (step_sound hw hstep).counter h.plain hset (hw.wf.logged _ hold)
      (h.bounded e hold hn) hl
  · rintro b rfl hr
    refine ⟨hr.allPlain, fun e he hn => ?_⟩
    rw [hr.log] at he
    exact bounded_restart hw h.plain (h.bounded e he hn) hr

/-- **The repeat count is a bound.** In every run from any file, over shutdowns
and restarts, in which no text has a line break and `modifyEvent` is not called
on the timer, a timer made with a count above zero fires at most as often as it
counts, and its count never gets to zero. -/
theorem repeat_count_bounds {lc : LibC} {text : Option Str} {b : Bool} {g : Nat} {w : World}
    (hrun : Runs (step lc) (KeepsCount g) (World.start text b) w) {e : CTimerEvent}
    (he : ⟨g, .created e⟩ ∈ w.log) (hn : 1 ≤ e.repeatCount.toNat) :
    fires w.log g ≤ e.repeatCount.toNat ∧
      ∀ id x, w.events.find id = some x → x.tag = g → x.repeatCount ≠ 0 := by
  have hinv : Sound w ∧ Counted g w := by
    apply hrun.invariant (I := fun w => Sound w ∧ Counted g w)
    · intro s a t hs hok hstep
      exact ⟨step_sound hs.1 hstep, counted_step hs.1 hs.2 hok hstep⟩
    · refine ⟨start_sound text b, ?_, ?_⟩
      · intro i x hx
        cases hx
      · intro x hx
        cases hx
  have hbound := hinv.2.bounded e he hn
  refine ⟨hbound.fired, fun id x hx htag h0 => ?_⟩
  have := (hbound.events id x hx htag).1
  rw [h0] at this
  cases this

/-- A recording that is to be made once, though it repeats. -/
def singleRecording : AddMsg := ⟨0, 1000, 5000, repeatDaily, 1, .record ⟨0, 0, 1, 0⟩ false []⟩

/-- The object that is made for it. -/
def singleRecordingEvent : CTimerEvent where
  tag := 0
  eventID := 0
  data := .record ⟨0, 0, 1, 0⟩ [] []
  eventState := .scheduled
  previousState := .scheduled
  eventRepeat := repeatDaily
  repeatCount := 1
  alarmTime := 1000
  stopTime := 5000
  announceTime := 0

/-- It fires once, also over a restart while it runs. -/
theorem repeat_count_bounds_restart :
    ∃ w, runList (step utcJanuary) (World.start none false)
        [.timeSet (noEpg 500), .addTimer (noEpg 500) singleRecording, .pass (noEpg 1000),
          .shutdown false,
          .timeSet (noEpg 2000), .pass (noEpg 2001)] = some w ∧
      ⟨0, .created singleRecordingEvent⟩ ∈ w.log ∧ fires w.log 0 ≤ 1 ∧
      ∀ id x, w.events.find id = some x → x.tag = 0 → x.repeatCount ≠ 0 := by
  have hlog : (runList (step utcJanuary) (World.start none false)
      [.timeSet (noEpg 500), .addTimer (noEpg 500) singleRecording, .pass (noEpg 1000),
        .shutdown false,
        .timeSet (noEpg 2000), .pass (noEpg 2001)]).map (fun w =>
          decide (⟨0, .created singleRecordingEvent⟩ ∈ w.log)) = some true := by
    decide +kernel
  obtain ⟨w, hw, hmem⟩ := Option.map_eq_some_iff.mp hlog
  have hcreated : ⟨0, .created singleRecordingEvent⟩ ∈ w.log := of_decide_eq_true hmem
  refine ⟨w, hw, hcreated, repeat_count_bounds (Runs.ofList ?_ hw) hcreated (by decide)⟩
  intro s a ha
  simp only [List.mem_cons, List.not_mem_nil, or_false] at ha
  rcases ha with rfl | rfl | rfl | rfl | rfl | rfl
  · exact ⟨trivial, trivial⟩
  · exact ⟨⟨noEpg_plain 500, List.not_mem_nil⟩, trivial⟩
  · exact ⟨noEpg_plain 1000, trivial⟩
  · exact ⟨trivial, trivial⟩
  · exact ⟨trivial, trivial⟩
  · exact ⟨noEpg_plain 2001, trivial⟩

/-- A reminder whose text brings a line of its own into the file. -/
def twoLineReminder : AddMsg := ⟨0, 100000, 0, repeatOnce, 1, .remind (chars "\nEVENT_STATE_1=0")⟩

/-- With it the running recording is read back as planned, and fires again. -/
theorem two_line_text_refires : ¬ ∀ (lc : LibC) (text : Option Str) (b : Bool) (g : Nat) (w : World),
    Runs (step lc) (fun w a => (modifyOther g).Allows w a) (World.start text b) w →
    ∀ e, ⟨g, .created e⟩ ∈ w.log → 1 ≤ e.repeatCount.toNat →
      fires w.log g ≤ e.repeatCount.toNat ∧
        ∀ id x, w.events.find id = some x → x.tag = g → x.repeatCount ≠ 0 := by
  intro h
  have hlog : (runList (step utcJanuary) (World.start none false)
      [.timeSet (noEpg 500), .addTimer (noEpg 500) singleRecording,
        .addTimer (noEpg 500) twoLineReminder,
        .pass (noEpg 1000), .shutdown false, .timeSet (noEpg 2000), .pass (noEpg 2001)]).map (fun w =>
          decide (⟨0, .created singleRecordingEvent⟩ ∈ w.log ∧ fires w.log 0 = 2)) = some true := by
    decide +kernel
  obtain ⟨w, hw, heq⟩ := Option.map_eq_some_iff.mp hlog
  obtain ⟨hcreated, hfires⟩ := of_decide_eq_true heq
  have hrun :
    Runs (step utcJanuary) (fun w a => (modifyOther 0).Allows w a) (World.start none false) w := by
    apply Runs.ofList _ hw
    intro s a ha
    simp only [List.mem_cons, List.not_mem_nil, or_false] at ha
    rcases ha with rfl | rfl | rfl | rfl | rfl | rfl | rfl <;> trivial
  have hbound := (h utcJanuary none false 0 w hrun singleRecordingEvent hcreated (by decide)).1
  rw [hfires] at hbound
  exact absurd hbound (by decide)

end Tuxbox.Timerd
