import Tuxbox.Timerd.Manager

/-! What can happen to one event. Every command and every branch of a pass makes
one of the changes of `Change`, which names the fields that later arguments
rest on: state, stop time, repetition and count. -/
namespace Tuxbox.Timerd
open Config

/-- The titles of sectionsd have no line break. -/
def Sectionsd.Plain (sdc : Sectionsd) : Prop := ∀ id t, sdc.getEPGidShort id = some t → newline ∉ t

/-- Nothing but the data of the class has changed. `clean` is what the plain
texts of the data depend on. -/
structure SameButData (clean : Prop) (e e' : CTimerEvent) : Prop where
  eq : e' = { e with data := e'.data }
  isRecord : e'.data.isRecord = e.data.isRecord
  plain : clean → e.data.Plain → e'.data.Plain

section
variable {clean : Prop}

theorem SameButData.refl (e : CTimerEvent) : SameButData clean e e := ⟨rfl, rfl, fun _ h => h⟩

theorem SameButData.trans {e e' e'' : CTimerEvent} (h : SameButData clean e e')
    (h' : SameButData clean e' e'') : SameButData clean e e'' := by
  refine ⟨?_, h'.isRecord.trans h.isRecord, fun hc hp => h'.plain hc (h.plain hc hp)⟩
  rw [h'.eq, h.eq]

theorem lookupEpg_plain {sdc : Sectionsd} (hs : sdc.Plain) {wanted : ChannelEvent → Bool}
    {info : EventInfo}
    {title : Str} (ht : newline ∉ title) :
      newline ∉ (CTimerEvent.lookupEpg sdc wanted info title).2 := by
  unfold CTimerEvent.lookupEpg
  simp only
  split
  · rename_i h
    simp only [apply_ite Prod.snd]
    split
    · cases hg : sdc.getEPGidShort _ with
      | none => exact ht
      | some t => exact hs _ t hg
    · exact ht
  · split
    · cases hg : sdc.getEPGidShort info.epgID with
      | none => exact ht
      | some t => exact hs _ t hg
    · exact ht

theorem getEpgId_same {sdc : Sectionsd} (hs : clean → sdc.Plain) (e : CTimerEvent) :
    SameButData clean e (e.getEpgId sdc) := by
  unfold CTimerEvent.getEpgId
  split
  · rename_i info dir title hd
    refine ⟨rfl, by rw [hd]; rfl, fun hc hp => ?_⟩
    rw [hd] at hp
    obtain ⟨hdir, htitle⟩ := (EventData.plain_pair rfl).mp hp
    exact (EventData.plain_pair rfl).mpr ⟨hdir, lookupEpg_plain (hs hc) htitle⟩
  · rename_i info dir title hd
    refine ⟨rfl, by rw [hd]; rfl, fun hc hp => ?_⟩
    rw [hd] at hp
    obtain ⟨hdir, htitle⟩ := (EventData.plain_pair rfl).mp hp
    exact (EventData.plain_pair rfl).mpr ⟨hdir, lookupEpg_plain (hs hc) htitle⟩
  · exact .refl e

theorem refresh_same {sdc : Sectionsd} (hs : clean → sdc.Plain) (e : CTimerEvent) :
    SameButData clean e (e.refresh sdc) := by
  unfold CTimerEvent.refresh
  split
  · split
    · exact getEpgId_same hs e
    · exact .refl e
  · split
    · exact getEpgId_same hs e
    · exact .refl e
  · exact .refl e

theorem clearEpgId_same (e : CTimerEvent) : SameButData clean e e.clearEpgId := by
  unfold CTimerEvent.clearEpgId
  split
  · rename_i info dir title hd
    exact ⟨rfl, by rw [hd]; rfl, fun _ hp => by rw [hd] at hp; exact hp⟩
  · rename_i info dir title hd
    exact ⟨rfl, by rw [hd]; rfl, fun _ hp => by rw [hd] at hp; exact hp⟩
  · rename_i info hd
    exact ⟨rfl, by rw [hd]; rfl, fun _ hp => by rw [hd] at hp; exact hp⟩
  · exact .refl e

end

/-! ## Reschedule -/

/-- What is relied on of the C library: `mktime` undoes `localtime`, and a later
day or month is at least an hour later. -/
structure LibC.Sane (lc : LibC) : Prop where
  inverse : ∀ t, lc.mktime (lc.localtime t) = t
  later_day :
    ∀ t k, 0 < k → t + 3600 ≤ lc.mktime { lc.localtime t with mday := (lc.localtime t).mday + k }
  later_month : ∀ t, t + 3600 ≤ lc.mktime { lc.localtime t with mon := (lc.localtime t).mon + 1 }

/-- A zone without summer time, as it counts in January 1970. -/
def utcJanuary : LibC where
  localtime t :=
    { sec := t % 60, min := t / 60 % 60, hour := t / 3600 % 24, mday := t / 86400 + 1
      mon := 0, year := 70
      wday := (t / 86400 + 4) % 7, yday := t / 86400, isdst := 0 }
  mktime t := t.sec + 60 * t.min + 3600 * t.hour + 86400 * (t.mday - 1 + 31 * t.mon)

theorem utcJanuary_sane : utcJanuary.Sane := by
  constructor
  · intro t
    simp only [utcJanuary]
    omega
  · intro t k hk
    simp only [utcJanuary]
    omega
  · intro t
    simp only [utcJanuary]
    omega

/-- A call at a time when there is no EPG. -/
def noEpg (now : Int) : Env := ⟨now, ⟨fun _ => [], fun _ => none⟩, 10, []⟩

theorem noEpg_plain (now : Int) : (noEpg now).sectionsd.Plain := by
  intro id t h
  cases h

theorem advance_later {lc : LibC} (hl : lc.Sane) {r : Int32} {t : Int} {t' : Tm}
    (h : CTimerEvent.advance r (lc.localtime t) = some t') :
    t' = lc.localtime t ∨ t + 3600 ≤ lc.mktime t' := by
  unfold CTimerEvent.advance at h
  split at h
  · cases h; exact Or.inr (hl.later_day t 1 (by decide))
  split at h
  · cases h; exact Or.inr (hl.later_day t 7 (by decide))
  split at h
  · cases h; exact Or.inr (hl.later_day t 14 (by decide))
  split at h
  · cases h; exact Or.inr (hl.later_day t 28 (by decide))
  split at h
  · cases h; exact Or.inr (hl.later_month t)
  split at h
  · cases h; exact Or.inl rfl
  split at h
  · simp only at h
    split at h
    · cases h
    · cases h; exact Or.inl rfl
  · cases h; exact Or.inl rfl

/-- Times that move never move back, so a stop time stays above zero. -/
structure Advanced (lc : LibC) (e e' : CTimerEvent) : Prop where
  eq : e' = { e with
    alarmTime := e'.alarmTime, announceTime := e'.announceTime, stopTime := e'.stopTime }
  stop : lc.Sane → 0 < e.stopTime → 0 < e'.stopTime

theorem advanceTimes_advanced {lc : LibC} {e e' : CTimerEvent} (h : e.advanceTimes lc = some e') :
    Advanced lc e e' := by
  unfold CTimerEvent.advanceTimes at h
  simp only at h
  cases ha : CTimerEvent.advance e.eventRepeat (lc.localtime e.alarmTime) with
  | none => simp [ha] at h
  | some t =>
    simp only [ha, Option.some.injEq] at h
    subst h
    refine ⟨rfl, fun hl hs => ?_⟩
    simp only [gt_iff_lt, hs, if_true]
    cases advance_later hl ha with
    | inl he =>
      subst he
      simp [hl.inverse, CTimerEvent.dstCorrection, hs]
    | inr hlater =>
      have hcorr : -3600 ≤ CTimerEvent.dstCorrection (lc.localtime e.alarmTime).isdst
          (lc.localtime (e.alarmTime + (lc.mktime t - e.alarmTime))).isdst := by
        unfold CTimerEvent.dstCorrection
        split
        · exact Int.le_refl _
        · split <;> decide
      omega

theorem Advanced.trans {lc : LibC} {e e' e'' : CTimerEvent} (h : Advanced lc e e')
    (h' : Advanced lc e' e'') : Advanced lc e e'' := by
  refine ⟨?_, fun hl hs => h'.stop hl (h.stop hl hs)⟩
  rw [h'.eq, h.eq]

theorem rescheduleLoop_advanced {lc : LibC} {now : Int} {rounds : Nat} {e e' : CTimerEvent}
    (h : CTimerEvent.rescheduleLoop lc now rounds e = some e') : Advanced lc e e' := by
  induction rounds generalizing e with
  | zero =>
    simp only [CTimerEvent.rescheduleLoop] at h
    split at h
    · cases h
    · cases h; exact ⟨rfl, fun _ hs => hs⟩
  | succ rounds ih =>
    simp only [CTimerEvent.rescheduleLoop] at h
    split at h
    · cases ha : e.advanceTimes lc with
      | none => simp [ha] at h
      | some e1 =>
        rw [ha] at h
        exact (advanceTimes_advanced ha).trans (ih h)
    · cases h; exact ⟨rfl, fun _ hs => hs⟩

/-- What a reschedule makes of a repeating event. -/
structure Rescheduled (lc : LibC) (clean : Prop) (e e' : CTimerEvent) : Prop where
  tag : e'.tag = e.tag
  eventID : e'.eventID = e.eventID
  isRecord : e'.data.isRecord = e.data.isRecord
  plain : clean → e.data.Plain → e'.data.Plain
  eventState : e'.eventState = .scheduled
  eventRepeat : e'.eventRepeat = e.eventRepeat
  repeatCount : e'.repeatCount = if e.repeatCount > 0 then e.repeatCount - 1 else e.repeatCount
  stop : lc.Sane → 0 < e.stopTime → 0 < e'.stopTime

theorem reschedule_rescheduled {lc : LibC} {env : Env} {clean : Prop}
    (hs : clean → env.sectionsd.Plain)
    {force : Bool} {e e' : CTimerEvent} (hr : e.eventRepeat ≠ repeatOnce)
    (h : e.reschedule lc env force = some e') : Rescheduled lc clean e e' := by
  obtain ⟨e1, h1, rfl⟩ := Option.map_eq_some_iff.mp h
  have hclear : SameButData clean e e.clearEpgId := clearEpgId_same e
  have hepg := getEpgId_same hs e1
  have hr' : e.clearEpgId.eventRepeat ≠ repeatOnce := by rw [hclear.eq]; exact hr
  rw [CTimerEvent.rescheduleTimes, if_neg hr'] at h1
  generalize ht : (if force = true then e.clearEpgId.advanceTimes lc
    else CTimerEvent.rescheduleLoop lc env.now env.rounds e.clearEpgId) = times at h1
  cases times with
  | none => simp at h1
  | some e2 =>
    have hadv : Advanced lc e.clearEpgId e2 := by
      split at ht
      · exact advanceTimes_advanced ht
      · exact rescheduleLoop_advanced ht
    simp only [Option.some.injEq] at h1
    have hdata : e2.data = e.clearEpgId.data := by rw [hadv.eq]
    have hdata1 : e1.data = e2.data := by rw [← h1]
    have hstop : lc.Sane → 0 < e.stopTime → 0 < e1.stopTime := by
      intro hl hpos
      rw [← h1]
      exact hadv.stop hl (by rw [hclear.eq]; exact hpos)
    have hcount : e2.repeatCount = e.repeatCount := by rw [hadv.eq, hclear.eq]
    constructor
    · rw [hepg.eq, ← h1, hadv.eq, hclear.eq]
    · rw [hepg.eq, ← h1, hadv.eq, hclear.eq]
    · rw [hepg.isRecord, hdata1, hdata, hclear.isRecord]
    · exact fun hc hp => hepg.plain hc (hdata1 ▸ hdata ▸ hclear.plain hc hp)
    · rw [hepg.eq, ← h1]
    · rw [hepg.eq, ← h1, hadv.eq, hclear.eq]
    · rw [hepg.eq, ← h1, ← hcount]
    · rw [hepg.eq]
      exact hstop

/-! ## Changes -/

/-- Conditions on the events that commands are used on; `modify` also sees the
new stop time. -/
structure Permit where
  stop : CTimerEvent → Prop
  reschedule : CTimerEvent → Prop
  modify : Int → CTimerEvent → Prop

def Permit.any : Permit := ⟨fun _ => True, fun _ => True, fun _ _ => True⟩

/-- The same timer: only state, times and data can differ. -/
structure SameTimer (clean : Prop) (e e' : CTimerEvent) : Prop where
  tag : e'.tag = e.tag
  eventID : e'.eventID = e.eventID
  isRecord : e'.data.isRecord = e.data.isRecord
  plain : clean → e.data.Plain → e'.data.Plain

/-- Only the state can differ, and the EPG data. -/
structure Fixed (clean : Prop) (e e' : CTimerEvent) : Prop extends SameTimer clean e e' where
  stopTime : e'.stopTime = e.stopTime
  eventRepeat : e'.eventRepeat = e.eventRepeat
  repeatCount : e'.repeatCount = e.repeatCount

inductive Change (lc : LibC) (p : Permit) (clean : Prop) (e : CTimerEvent) :
    List Kind → CTimerEvent → Prop
  | announce {e' : CTimerEvent} : Fixed clean e e' → e.eventState = .scheduled →
      e'.eventState = .preannounce → Change lc p clean e [.announce] e'
  | fire {e' : CTimerEvent} : Fixed clean e e' →
      e.eventState = .scheduled ∨ e.eventState = .preannounce →
      e'.eventState = (if e.stopTime = 0 then .hasFinished else .isRunning) →
      Change lc p clean e [.fire] e'
  | halt {e' : CTimerEvent} : Fixed clean e e' → e.eventState = .isRunning → 0 < e.stopTime →
      e'.eventState = .hasFinished → Change lc p clean e (World.stopNotices e) e'
  | finish {e' : CTimerEvent} : Fixed clean e e' → e.eventState = .hasFinished →
      e'.eventState = .terminated → Change lc p clean e [] e'
  | reschedule {e' : CTimerEvent} : Rescheduled lc clean e e' →
      e.eventRepeat ≠ repeatOnce → e.repeatCount ≠ 1 →
      e.eventState = .hasFinished ∨ p.reschedule e → Change lc p clean e [] e'
  | remove {e' : CTimerEvent} : Fixed clean e e' → e'.eventState = .terminated →
      Change lc p clean e (World.stopKinds e ++ [.removed]) e'
  | stop {e' : CTimerEvent} : Fixed clean e e' → p.stop e → e'.eventState = .hasFinished →
      Change lc p clean e (World.stopKinds e) e'
  | modify {e' : CTimerEvent} : SameTimer clean e e' → p.modify e'.stopTime e →
      e'.eventState = (if e.eventState = .preannounce then .scheduled else e.eventState) →
      e'.eventRepeat ≠ repeatWeekdays → Change lc p clean e [] e'
  | look {e' : CTimerEvent} :
    Fixed clean e e' → e'.eventState = e.eventState → Change lc p clean e [] e'

section
variable {lc : LibC} {p : Permit} {clean : Prop}

theorem SameButData.fixed {e e' : CTimerEvent} (h : SameButData clean e e') : Fixed clean e e' := by
  have heq := h.eq
  exact ⟨⟨by rw [heq], by rw [heq], h.isRecord, h.plain⟩, by rw [heq], by rw [heq], by rw [heq]⟩

theorem SameButData.eventState {e e' : CTimerEvent} (h : SameButData clean e e') :
    e'.eventState = e.eventState := by
  rw [h.eq]

theorem Fixed.trans {e e' e'' : CTimerEvent} (h : Fixed clean e e') (h' : Fixed clean e' e'') :
    Fixed clean e e'' where
  tag := h'.tag.trans h.tag
  eventID := h'.eventID.trans h.eventID
  isRecord := h'.isRecord.trans h.isRecord
  plain := fun hc hp => h'.plain hc (h.plain hc hp)
  stopTime := h'.stopTime.trans h.stopTime
  eventRepeat := h'.eventRepeat.trans h.eventRepeat
  repeatCount := h'.repeatCount.trans h.repeatCount

theorem setState_fixed (e : CTimerEvent) (newstate : EventState) :
    Fixed clean e (e.setState newstate) :=
  ⟨⟨rfl, rfl, rfl, fun _ h => h⟩, rfl, rfl, rfl⟩

theorem Change.same {e e' : CTimerEvent} {kinds : List Kind} (h : Change lc p clean e kinds e') :
    SameTimer clean e e' := by
  cases h with
  | reschedule h => exact ⟨h.tag, h.eventID, h.isRecord, h.plain⟩
  | modify h => exact h
  | announce h | fire h | halt h | finish h | remove h | stop h | look h => exact h.toSameTimer

/-- A stop sends nothing but `EVT_RECORD_STOP`. -/
theorem mem_stopNotices {e : CTimerEvent} {k : Kind} (h : k ∈ World.stopNotices e) :
    k = .recordStop := by
  unfold World.stopNotices at h
  split at h
  · exact List.mem_singleton.mp h
  · cases h

theorem mem_stopKinds {e : CTimerEvent} {k : Kind} (h : k ∈ World.stopKinds e) : k = .recordStop := by
  unfold World.stopKinds at h
  split at h
  · exact mem_stopNotices h
  · cases h

/-- A change makes no object. -/
theorem Change.kinds {e e' : CTimerEvent} {kinds : List Kind} (h : Change lc p clean e kinds e') :
    ∀ k ∈ kinds, ∀ x, k ≠ .created x ∧ k ≠ .loaded x := by
  intro k hk x
  cases h with
  | announce => rw [List.mem_singleton.mp hk]; simp
  | fire => rw [List.mem_singleton.mp hk]; simp
  | halt => rw [mem_stopNotices hk]; simp
  | stop => rw [mem_stopKinds hk]; simp
  | remove =>
    cases List.mem_append.mp hk with
    | inl hm => rw [mem_stopKinds hm]; simp
    | inr hm => rw [List.mem_singleton.mp hm]; simp
  | _ => cases hk

/-- At most a change: the phases of a pass often do nothing. -/
def AtMost (lc : LibC) (p : Permit) (clean : Prop) (e : CTimerEvent) (kinds : List Kind)
    (e' : CTimerEvent) : Prop :=
  (kinds = [] ∧ e' = e) ∨ Change lc p clean e kinds e'

theorem announceStep_change {env : Env} (hs : clean → env.sectionsd.Plain) (e : CTimerEvent) :
    AtMost lc p clean e (World.announceStep env e).2 (World.announceStep env e).1 := by
  unfold World.announceStep
  split
  · rename_i h
    have hr := refresh_same hs (e.setState .preannounce)
    exact Or.inr (.announce ((setState_fixed e _).trans hr.fixed) h.2.1 hr.eventState)
  · exact Or.inl ⟨rfl, rfl⟩

theorem fireEvent_same {env : Env} (hs : clean → env.sectionsd.Plain) (e : CTimerEvent) :
    SameButData clean e (World.fireEvent e env) := by
  unfold World.fireEvent
  split
  · exact refresh_same hs e
  · exact .refl e

theorem fireStep_change {env : Env} (hs : clean → env.sectionsd.Plain) (e : CTimerEvent) :
    AtMost lc p clean e (World.fireStep env e).2 (World.fireStep env e).1 := by
  unfold World.fireStep
  split
  · rename_i h
    have hr := fireEvent_same hs (e.setState .isRunning)
    have hfixed := (setState_fixed e .isRunning).trans hr.fixed
    have hstop : (World.fireEvent (e.setState .isRunning) env).stopTime = e.stopTime :=
      hfixed.stopTime
    by_cases h0 : e.stopTime = 0
    · have := hfixed.trans (setState_fixed (World.fireEvent (e.setState .isRunning) env) .hasFinished)
      refine Or.inr ?_
      simp only [hstop, h0, if_true]
      exact .fire this h.2.1 (by simp [CTimerEvent.setState, h0])
    · refine Or.inr ?_
      simp only [hstop, h0, if_false]
      exact .fire hfixed h.2.1 (by rw [hr.eventState]; simp [CTimerEvent.setState, h0])
  · exact Or.inl ⟨rfl, rfl⟩

theorem stopStep_change {env : Env} (e : CTimerEvent) :
    AtMost lc p clean e (World.stopStep env e).2 (World.stopStep env e).1 := by
  unfold World.stopStep
  split
  · rename_i h
    simp only [World.stopWanted, decide_eq_true_eq] at h
    exact Or.inr (.halt (setState_fixed e _) h.2.1 h.1 rfl)
  · exact Or.inl ⟨rfl, rfl⟩

theorem finishStep_change {env : Env} (hs : clean → env.sectionsd.Plain) {e e' : CTimerEvent}
    (h : World.finishStep lc env e = some e') : AtMost lc p clean e [] e' := by
  unfold World.finishStep at h
  split at h
  · rename_i hstate
    split at h
    · rename_i hr
      exact Or.inr (.reschedule (reschedule_rescheduled hs hr.1 h) hr.1 hr.2 (Or.inl hstate))
    · cases h
      exact Or.inr (.finish (setState_fixed e _) hstate rfl)
  · cases h
    exact Or.inl ⟨rfl, rfl⟩

theorem cString_plain {s : Str} (h : newline ∉ s) : newline ∉ cString s :=
  fun hm => h (List.takeWhile_subset _ hm)

theorem plainRepeat_ne (r : Int32) : CTimerManager.plainRepeat r ≠ repeatWeekdays := by
  unfold CTimerManager.plainRepeat
  split
  · decide
  · assumption

theorem modified_change {env : Env} (hs : clean → env.sectionsd.Plain)
    {announceTime alarmTime stopTime : Int}
    {repeatCount : UInt32} {eventRepeat : Int32} {dir : Str} (hd : clean → newline ∉ dir)
      {e : CTimerEvent}
    (hp : p.modify stopTime e) :
    Change lc p clean e []
      (World.modified env announceTime alarmTime stopTime repeatCount eventRepeat dir e) := by
  -- looking up the EPG data keeps the rest
  have looked (e1 : CTimerEvent) (h : SameTimer clean e e1) (ht : e1.stopTime = stopTime)
      (hst : e1.eventState = if e.eventState = .preannounce then .scheduled else e.eventState)
      (hr : e1.eventRepeat ≠ repeatWeekdays) :
      Change lc p clean e [] (e1.clearEpgId.getEpgId env.sectionsd) := by
    have hclear : SameButData clean e1 e1.clearEpgId := clearEpgId_same e1
    have hsame := hclear.trans (getEpgId_same hs _)
    have hfixed := hsame.fixed
    refine .modify ⟨hfixed.tag.trans h.tag, hfixed.eventID.trans h.eventID,
      hfixed.isRecord.trans h.isRecord, fun hc hp => hfixed.plain hc (h.plain hc hp)⟩ ?_ ?_ ?_
    · rw [hfixed.stopTime, ht]
      exact hp
    · rw [hsame.eventState, hst]
    · rw [hfixed.eventRepeat]
      exact hr
  unfold World.modified
  simp only
  split
  · rename_i info dir' title hdata
    refine looked _ ⟨rfl, rfl, by rw [hdata]; rfl, fun hc hplain => ?_⟩ rfl rfl (plainRepeat_ne _)
    rw [hdata] at hplain
    have htitle := ((EventData.plain_pair rfl).mp hplain).2
    exact (EventData.plain_pair rfl).mpr ⟨cString_plain (hd hc), htitle⟩
  · exact looked _ ⟨rfl, rfl, rfl, fun _ h => h⟩ rfl rfl (plainRepeat_ne _)
  · exact .modify ⟨rfl, rfl, rfl, fun _ h => h⟩ hp rfl (plainRepeat_ne _)

end

end Tuxbox.Timerd
