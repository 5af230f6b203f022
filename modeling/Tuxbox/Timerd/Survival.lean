import Tuxbox.Timerd.Restart

/-! The timers of the file over one run of the daemon. They are read when the
time gets known, but a shutdown saves whatever is in the map at any time. -/
namespace Tuxbox.Timerd

/-- The time of a timer that does not repeat had passed when the file was
read. -/
def Outdated (w : World) (r : CTimerEvent) : Prop :=
  ∃ now ∈ w.loads, r.eventRepeat = repeatOnce ∧ r.alarmTime < now ∧ r.stopTime ≤ now

/-- Timer `g` has come to its end, as `r` in the file or in the timer thread. -/
def Ended (w : World) (g : Nat) (r : CTimerEvent) : Prop :=
  ⟨g, .deleted⟩ ∈ w.log ∨ Outdated w r

/-- Until the load the file is as it was; from then on its timers are both in
the map and in the file until they end. -/
structure Survives (text : Option Str) (b : Bool) (w : World) : Prop where
  plain : AllPlain w
  before : w.isTimeSet = false → w.file = (World.start text b).file
  after : w.isTimeSet = true → ∀ g r, (World.start text b).file.Has g r →
    ((∃ id e, w.events.find id = some e ∧ e.tag = g) ∧ ∃ r', w.file.Has g r') ∨ Ended w g r

theorem start_has {text : Option Str} {b : Bool} {i : Nat} {r : CTimerEvent}
    (h : (timersIn text)[i]? = some r) : (World.start text b).file.Has i r := by
  have hlt : i < (timersIn text).length := (List.getElem?_eq_some_iff.mp h).1
  exact ⟨i, by simp [World.start, hlt], h⟩

section
variable {lc : LibC} {p : Permit} {clean : Prop} {text : Option Str} {b : Bool} {w w' : World}

theorem kept_none {now : Int} {e : CTimerEvent} (h : World.kept now e = none) :
    e.eventRepeat = repeatOnce ∧ e.alarmTime < now ∧ e.stopTime ≤ now := by
  unfold World.kept at h
  split at h
  · cases h
  · rename_i hold
    split at h
    · cases h
    · rename_i hr
      exact ⟨by simpa using hr, by omega, by omega⟩

theorem Ended.micro {g : Nat} {r : CTimerEvent} (h : Ended w g r) (hm : Micro lc p clean w w') :
    Ended w' g r := by
  obtain ⟨hlog, hloads⟩ := hm.history
  refine h.imp (fun hd => hlog hd) fun ho => ?_
  rw [Outdated, hloads]
  exact ho

theorem survives_micro (hw : WF w) (hclean : clean) (h : Survives text b w)
    (hm : Micro lc p clean w w') : Survives text b w' := by
  have hset := hm.isTimeSet
  refine ⟨hm.allPlain hclean h.plain, ?_, ?_⟩
  · intro hn
    rw [hset] at hn
    cases hm with
    | move => rw [World.replace_file]; exact h.before hn
    | delete _ _ ht => rw [hn] at ht; cases ht
    | save _ ht => rw [hn] at ht; cases ht
    | add => exact h.before hn
    | flags => exact h.before hn
  · intro ht g r hr
    rw [hset] at ht
    cases h.after ht g r hr with
    | inr hend => exact Or.inr (hend.micro hm)
    | inl hin =>
      obtain ⟨⟨i, x, hx, hxg⟩, hfile⟩ := hin
      cases hm with
      | move id e e' kinds touched hf hc _ =>
        left
        rw [World.replace_file, World.replace_events]
        refine ⟨?_, hfile⟩
        by_cases hi : i = id
        · subst hi
          rw [hf] at hx
          cases hx
          exact ⟨i, e', by simp, hc.same.tag.trans hxg⟩
        · exact ⟨i, x, by simp [hi, hx], hxg⟩
      | delete id e _ hf _ =>
        by_cases hi : i = id
        · subst hi
          rw [hf] at hx
          cases hx
          exact Or.inr (Or.inl (List.mem_append_right _ (by simp [hxg])))
        · refine Or.inl ⟨⟨i, x, ?_, hxg⟩, hfile⟩
          change (w.events.erase id).find i = some x
          simp [hi, hx]
      | add evt =>
        have hi : i ≠ w.eventID + 1 := by
          have := (hw.ids i x hx).2.2
          omega
        exact Or.inl ⟨⟨i, x, by simp [World.addNew, CTimerManager.addEvent, hi, hx], hxg⟩, hfile⟩
      | flags => exact Or.inl ⟨⟨i, x, hx, hxg⟩, hfile⟩
      | save _ _ hid hs =>
        have hhas := save_has hw h.plain hid hs
        obtain ⟨_, _, rfl⟩ := save_eq hs
        exact Or.inl ⟨⟨i, x, hx, hxg⟩, readBack x, (hhas g _).mpr ⟨i, x, hx, hxg, rfl⟩⟩

theorem survives_load {now : Int} (hw' : w'.eventID < 2 ^ 31) (hset : w.isTimeSet = false)
    (h : Survives text b w) (hl : Loaded now w w') : Survives text b w' := by
  refine ⟨hl.plain h.plain, fun hn => ?_, fun _ g r hr => ?_⟩
  · rw [hl.isTimeSet] at hn
    cases hn
  · rw [← h.before hset] at hr
    cases hk : World.kept now { r with tag := g } with
    | none =>
      have hout := kept_none hk
      exact Or.inr (Or.inr ⟨now, by rw [hl.loads]; simp, hout⟩)
    | some k =>
      have htag : k.tag = g := by rw [(kept_spec hk).1]
      obtain ⟨i, hi⟩ : ∃ i, (i, entered i k) ∈ numbered w.eventID (arrivals w now) :=
        numbered_mem (arrivals_mem hr hk)
      have hfind := (hl.find i (entered i k)).mpr (Or.inr hi)
      refine Or.inl ⟨⟨i, _, hfind, htag⟩, readBack (entered i k), ?_⟩
      exact (hl.has h.plain hw' g _).mpr ⟨i, _, hfind, htag, rfl⟩

end

/-- Anything but a shutdown, with texts without line breaks. -/
def BeforeShutdown (_ : World) (a : Act) : Prop := a.Plain ∧ ∀ wake, a ≠ .shutdown wake

theorem survives_step {lc : LibC} {text : Option Str} {b : Bool} {w w' : World} {a : Act}
    (hw : Sound w)
    (h : Survives text b w) (hok : BeforeShutdown w a) (hstep : step lc w a = some w') :
    Survives text b w' := by
  refine step_keeps hw (any_allows w a) (fun w w' hw h hm => survives_micro hw hok.1 h hm)
    ?_ ?_ h hstep
  · rintro env rfl hset hl
    exact survives_load (step_sound hw hstep).counter hset h hl
  · rintro wake rfl _
    exact absurd rfl (hok.2 wake)

theorem start_survives (text : Option Str) (b : Bool) : Survives text b (World.start text b) := by
  constructor
  · intro i x hx
    cases hx
  · exact fun _ => rfl
  · intro ht
    cases ht

/-! ## What the entries are -/

/-- Timer `g` has the entry `r` in the file when its event is saved now. -/
def SavedAs (w : World) (g : Nat) (r : CTimerEvent) : Prop :=
  ∃ id e, w.events.find id = some e ∧ e.tag = g ∧ r = readBack e

/-- The file is that of the events, and nothing is to be saved. -/
def JustSaved (w : World) : Prop :=
  w.saveEvents = false ∧ ∀ g r, w.file.Has g r → SavedAs w g r

theorem listEvents_file (w : World) (sdc : Sectionsd) : (w.listEvents sdc).file = w.file := by
  unfold World.listEvents
  generalize w.events.keys = ids
  induction ids generalizing w with
  | nil => rfl
  | cons id ids ih =>
    rw [List.foldl_cons, ih]
    unfold World.refreshEvent
    split
    · rfl
    · exact World.replace_file ..

/-- The commands of the clients do not write the file. -/
theorem command_file {lc : LibC} {w w' : World} {a : Act} (ht : ∀ env, a ≠ .timeSet env)
    (hpass : ∀ env, a ≠ .pass env) (hsh : ∀ wake, a ≠ .shutdown wake) (h : act lc w a = some w') :
    w'.file = w.file := by
  have hafter (now : Int) (id : Nat) (e : CTimerEvent) : (w.afterStop now id e).file = w.file := by
    unfold World.afterStop
    split <;> simp
  cases a with
  | timeSet env => exact absurd rfl (ht env)
  | pass env => exact absurd rfl (hpass env)
  | shutdown wake => exact absurd rfl (hsh wake)
  | addTimer env msg =>
    simp only [act] at h
    split at h <;> cases h <;> rfl
  | removeEvent env id =>
    cases h
    unfold World.removeEvent
    split <;> simp [hafter]
  | stopEvent env id =>
    cases h
    unfold World.stopEvent
    split <;> simp [hafter]
  | rescheduleEvent env id =>
    simp only [act, World.rescheduleEvent] at h
    split at h
    · cases h
      rfl
    · split at h
      · split at h
        · cases h
        · cases h
          exact World.replace_file ..
      · cases h
        rfl
  | modifyEvent env id announceTime alarmTime stopTime repeatCount eventRepeat dir =>
    cases h
    unfold World.modifyEvent
    split <;> simp
  | modifyApids id apids =>
    cases h
    unfold World.modifyApids
    split
    · rfl
    · split <;> simp
  | listEvents env => cases h; exact listEvents_file w _
  | setRecordingSafety pre post => cases h; rfl
  | setZaptoSafety pre => cases h; rfl

/-- A step leaves the file alone, or saves it. -/
theorem step_file {lc : LibC} {w w' : World} {a : Act} (hw : Sound w) (hp : AllPlain w)
    (hok : BeforeShutdown w a) (hstep : step lc w a = some w') :
    w'.file = w.file ∧ w'.isTimeSet = w.isTimeSet ∨ JustSaved w' := by
  obtain ⟨hact, hid⟩ := Option.filter_eq_some_iff.mp hstep
  have hid := of_decide_eq_true hid
  cases step_cases hw.wf (any_allows w a) hstep with
  | inr hs =>
    rcases hs with ⟨env, -, -, hl⟩ | ⟨wake, rfl, -⟩
    · exact Or.inr ⟨hl.saveEvents, fun g r hr => (hl.has hp hid g r).mp hr⟩
    · exact absurd rfl (hok.2 wake)
  | inl hs =>
    by_cases hpass : ∃ env, a = .pass env
    · obtain ⟨env, rfl⟩ := hpass
      simp only [act] at hact
      split at hact
      · rename_i hset
        obtain ⟨w1, s1, hf1, hflush⟩ :=
          pass_flush (p := .any) (fun hc : (Act.pass env).Plain => hc) hw.wf hset hact
        have hid1 : w1.eventID < 2 ^ 31 := flush_eventID hflush ▸ hid
        have hp1 : AllPlain w1 :=
          s1.keeps (fun _ _ _ hp hm => hm.allPlain hok.1 hp) hw.wf hp
        unfold World.flush at hflush
        split at hflush
        · have hhas := save_has (s1.wf hw.wf) hp1 hid1 hflush
          obtain ⟨_, _, rfl⟩ := save_eq hflush
          exact Or.inr ⟨rfl, fun g r hr => (hhas g r).mp hr⟩
        · cases hflush
          exact Or.inl ⟨hf1, s1.isTimeSet⟩
      · cases hact
    · refine Or.inl ⟨command_file (fun env he => ?_) (fun env he => hpass ⟨env, he⟩) hok.2 hact,
        hs.isTimeSet⟩
      subst he
      have hset := hs.isTimeSet
      simp only [act] at hact
      split at hact
      · cases hact
      · rename_i hn
        have := (timeSet_loaded hw.wf (by simpa using hn) hact).isTimeSet
        rw [hset] at this
        exact absurd this hn

/-- From the load on the file is that of a state of the run. -/
def SavedBefore (lc : LibC) (start w : World) : Prop :=
  w.isTimeSet = true → ∃ s, Runs (step lc) BeforeShutdown start s ∧
    Runs (step lc) BeforeShutdown s w ∧
    s.file = w.file ∧ JustSaved s

theorem savedBefore_step {lc : LibC} {start w w' : World} {a : Act} (hw : Sound w) (hp : AllPlain w)
    (hrun : Runs (step lc) BeforeShutdown start w) (h : SavedBefore lc start w)
    (hok : BeforeShutdown w a) (hstep : step lc w a = some w') : SavedBefore lc start w' := by
  intro hset
  cases step_file hw hp hok hstep with
  | inl hsame =>
    obtain ⟨s, hs, hrest, hfile, hsaved⟩ := h (hsame.2 ▸ hset)
    exact ⟨s, hs, hrest.tail a hok hstep, hfile.trans hsame.1.symm, hsaved⟩
  | inr hsaved => exact ⟨w', hrun.tail a hok hstep, .refl, rfl, hsaved⟩

/-- What entry the timer `i` has in the end, if `r` was its first one. When
anything is to be saved it is that of its event. Else it is that of its event at
the last save, and before the load the first one. -/
structure LastEntry (lc : LibC) (start w : World) (i : Nat) (r r' : CTimerEvent) : Prop where
  unread : w.isTimeSet = false → r' = r
  dirty : w.saveEvents = true → SavedAs w i r'
  clean : w.isTimeSet = true → w.saveEvents = false → ∃ s, Runs (step lc) BeforeShutdown start s ∧
    Runs (step lc) BeforeShutdown s w ∧ s.saveEvents = false ∧ s.file = w.file ∧ SavedAs s i r'

/-- **No timer of the file is lost.** A run from any file ends in a shutdown,
after the time got known or before anything was to be saved. Then every timer
of the first file is in the last one as it was last, was deleted by the timer
thread, or had its time passed when the file was read. -/
theorem no_timer_lost {lc : LibC} {text : Option Str} {b wake : Bool} {w w' : World}
    (hrun : Runs (step lc) BeforeShutdown (World.start text b) w)
    (hend : w.isTimeSet = true ∨ w.saveEvents = false ∨ timersIn text = [])
    (hstop : step lc w (.shutdown wake) = some w') (i : Nat) (r : CTimerEvent)
    (hr : (timersIn text)[i]? = some r) :
    (∃ r', w'.file.Has i r' ∧ LastEntry lc (World.start text b) w i r r') ∨ Ended w i r := by
  have hinv : Runs (step lc) BeforeShutdown (World.start text b) w ∧ Sound w ∧ Survives text b w ∧
      SavedBefore lc (World.start text b) w := by
    apply hrun.invariant (I := fun w => Runs (step lc) BeforeShutdown (World.start text b) w ∧
      Sound w ∧ Survives text b w ∧ SavedBefore lc (World.start text b) w)
    · rintro s a t ⟨hs, hw, h, hsaved⟩ hok hstep
      exact ⟨hs.tail a hok hstep, step_sound hw hstep, survives_step hw h hok hstep,
        savedBefore_step hw h.plain hs hsaved hok hstep⟩
    · exact ⟨.refl, start_sound text b, start_survives text b, fun hn => by cases hn⟩
  obtain ⟨-, hw, h, hsaved⟩ := hinv
  have hrest := shutdown_restarted hw.wf (Option.filter_eq_some_iff.mp hstop).1
  have hfirst : (World.start text b).file.Has i r := start_has hr
  cases ht : w.isTimeSet with
  | true =>
    refine (h.after ht i r hfirst).imp_left fun hin => ?_
    obtain ⟨⟨id, e, he, htag⟩, r', hfile⟩ := hin
    cases hs : w.saveEvents with
    | true =>
      have hevent : SavedAs w i (readBack e) := ⟨id, e, he, htag, rfl⟩
      refine ⟨readBack e, (hrest.has hs h.plain hw.counter i _).mpr hevent, ⟨?_, fun _ => hevent, ?_⟩⟩
      · intro hn
        rw [ht] at hn
        cases hn
      · intro _ hn
        rw [hs] at hn
        cases hn
    | false =>
      obtain ⟨s, hstart, hto, heq, hclean, hhas⟩ := hsaved ht
      refine ⟨r', hrest.untouched hs ▸ hfile, ⟨?_, ?_, fun _ _ => ?_⟩⟩
      · intro hn
        rw [ht] at hn
        cases hn
      · intro hn
        rw [hs] at hn
        cases hn
      · exact ⟨s, hstart, hto, hclean, heq, hhas i r' (heq ▸ hfile)⟩
  | false =>
    rw [ht] at hend
    rcases hend with hend | hs | hnil
    · cases hend
    · refine Or.inl ⟨r, ?_, ⟨fun _ => rfl, ?_, ?_⟩⟩
      · rw [hrest.untouched hs, h.before ht]
        exact hfirst
      · intro hn
        rw [hs] at hn
        cases hn
      · intro hn
        rw [ht] at hn
        cases hn
    · rw [hnil] at hr
      cases hr

/-- A file with a standby timer at 9000. -/
def standbyText : Str := chars "ALARM_TIME_1=9000\nEVENT_TYPE_1=4\nIDS=1\n"

/-- Loaded at 500 and put off to 9600, the standby timer is there at the end, at
9600. -/
theorem no_timer_lost_standby :
    ∃ w w', runList (step utcJanuary) (World.start (some standbyText) false)
        [.timeSet (noEpg 500), .modifyEvent (noEpg 600) 1 0 9600 0 1 0 []] = some w ∧
      step utcJanuary w (.shutdown false) = some w' ∧ ∃ r', w'.file.Has 0 r' ∧
        r'.alarmTime = 9600 := by
  have hend : (runList (step utcJanuary) (World.start (some standbyText) false)
      [.timeSet (noEpg 500), .modifyEvent (noEpg 600) 1 0 9600 0 1 0 []]).map (fun w =>
        (w.log.all (fun n => n.kind ≠ .deleted), w.loads, w.isTimeSet, w.saveEvents,
          w.events.entries.all (fun p => (readBack p.2).alarmTime = 9600),
          (step utcJanuary w (.shutdown false)).isSome)) =
      some (true, [500], true, true, true, true) := by
    decide
  obtain ⟨w, hw, heq⟩ := Option.map_eq_some_iff.mp hend
  simp only [Prod.mk.injEq] at heq
  obtain ⟨hlog, hloads, hset, hdirty, hevents, hstop⟩ := heq
  obtain ⟨w', hw'⟩ := Option.isSome_iff_exists.mp hstop
  refine ⟨w, w', hw, hw', ?_⟩
  have hrun : Runs (step utcJanuary) BeforeShutdown (World.start (some standbyText) false) w := by
    apply Runs.ofList _ hw
    intro s a ha
    simp only [List.mem_cons, List.not_mem_nil, or_false] at ha
    rcases ha with rfl | rfl
    · exact ⟨trivial, fun wake he => by cases he⟩
    · exact ⟨⟨noEpg_plain 600, List.not_mem_nil⟩, fun wake he => by cases he⟩
  have hfirst : (timersIn (some standbyText)).map (fun r => r.alarmTime) = [9000] := by decide
  obtain ⟨r, hr, halarm⟩ : ∃ r, (timersIn (some standbyText))[0]? = some r ∧ r.alarmTime = 9000 := by
    have := congrArg (·[0]?) hfirst
    simpa using this
  cases no_timer_lost hrun (Or.inl hset) hw' 0 r hr with
  | inl hhas =>
    obtain ⟨r', hr', hlast⟩ := hhas
    obtain ⟨id, e, he, -, rfl⟩ := hlast.dirty hdirty
    have hp := List.all_eq_true.mp hevents (id, e) ((w.events.find_eq_some _ _).mp he)
    exact ⟨_, hr', of_decide_eq_true hp⟩
  | inr hended =>
    cases hended with
    | inl hdel =>
      have := List.all_eq_true.mp hlog _ hdel
      simp at this
    | inr hout =>
      obtain ⟨now, hnow, _, hpast, _⟩ := hout
      rw [hloads, List.mem_singleton] at hnow
      omega

/-- A setting made before the time is known, and the shutdown saves an empty
map over the timer. -/
theorem early_shutdown_loses : ¬ ∀ (lc : LibC) (text : Option Str) (b wake : Bool) (w w' : World),
    Runs (step lc) (fun _ a => ∀ wake, a ≠ .shutdown wake) (World.start text b) w →
    step lc w (.shutdown wake) = some w' →
    ∀ (i : Nat) (r : CTimerEvent), (timersIn text)[i]? = some r →
      (∃ r', w'.file.Has i r') ∨ ⟨i, .removed⟩ ∈ w.log ∨ Ended w i r := by
  intro h
  have hend : (runList (step utcJanuary) (World.start (some standbyText) false)
      [.setRecordingSafety 60 120]).map (fun w => (w.log, w.loads,
        (step utcJanuary w (.shutdown false)).map fun w' => (timersIn w'.file.text).length)) =
      some ([], [], some 0) := by
    decide
  obtain ⟨w, hw, heq⟩ := Option.map_eq_some_iff.mp hend
  simp only [Prod.mk.injEq] at heq
  obtain ⟨hlog, hloads, hstop⟩ := heq
  obtain ⟨w', hw', hnone⟩ := Option.map_eq_some_iff.mp hstop
  have hrun : Runs (step utcJanuary) (fun _ a => ∀ wake, a ≠ .shutdown wake)
      (World.start (some standbyText) false) w := by
    apply Runs.ofList _ hw
    intro s a ha wake he
    rw [List.mem_singleton] at ha
    rw [ha] at he
    cases he
  have hfirst : (timersIn (some standbyText)).length = 1 := by decide
  have hr := List.getElem?_eq_getElem (l := timersIn (some standbyText)) (i := 0) (by omega)
  cases h utcJanuary (some standbyText) false false w w' hrun hw' 0 _ hr with
  | inl hhas =>
    obtain ⟨r', i, _, hr'⟩ := hhas
    rw [List.eq_nil_of_length_eq_zero hnone] at hr'
    cases hr'
  | inr hended =>
    rw [Ended, Outdated, hlog, hloads] at hended
    simp at hended

end Tuxbox.Timerd
