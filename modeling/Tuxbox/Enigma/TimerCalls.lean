import Tuxbox.Enigma.TimerAbort
import Tuxbox.Lib.Run

/-!
# The calls of the timer manager
-/

namespace Tuxbox.Enigma

open PlaylistEntry

namespace TimerManager

section
variable {s t : TimerManager} {h h' : Nat} {f : PlaylistEntry → PlaylistEntry} {c : Clock}
  {v : TimerEnv} {entry : PlaylistEntry}

theorem handles_pushBack : handles (s.pushBack entry).list = handles s.list ++ [s.fresh] := by
  simp [handles, pushBack]

theorem pushBack_inv (hs : s.Inv) : (s.pushBack entry).Inv := by
  refine ⟨?_, ?_, ?_⟩
  · rw [handles_pushBack, List.nodup_append]
    refine ⟨hs.nodup, by simp, ?_⟩
    intro h hmem h' hfresh
    rw [List.mem_singleton.mp hfresh]
    exact Nat.ne_of_lt (hs.list h hmem)
  · intro h hmem
    rw [handles_pushBack, List.mem_append, List.mem_singleton] at hmem
    rcases hmem with hmem | rfl
    · exact Nat.lt_succ_of_lt (hs.list h hmem)
    · exact Nat.lt_succ_self _
  · exact fun h hn => Nat.lt_succ_of_lt (hs.next h hn)

theorem liveOrEnd_pushBack (hs : s.Inv) : (s.pushBack entry).LiveOrEnd ↔ s.LiveOrEnd := by
  apply forall₂_congr
  intro h hn
  have hlt := hs.next h hn
  rw [handles_pushBack, List.mem_append, List.mem_singleton, or_iff_left (Nat.ne_of_lt hlt)]

theorem next_pushBack (hs : s.LiveOrEnd) : (s.pushBack entry).next = s.next := by
  have hnext : (s.pushBack entry).nextStartingEvent = s.nextStartingEvent := rfl
  unfold next
  rw [hnext]
  cases hn : s.nextStartingEvent with
  | none => rfl
  | some h =>
    obtain ⟨e, he⟩ := Option.isSome_iff_exists.mp (find_isSome.mpr (hs h hn))
    have he' := he
    obtain ⟨n, hfind, rfl⟩ := Option.map_eq_some_iff.mp he
    rw [Option.bind_some, Option.bind_some, he']
    simp [find, pushBack, List.find?_append, hfind]

theorem add_isSome {z : TimeZone} (hs : s.Inv) :
    (s.addEventToTimerList z c entry).isSome = true ↔
      (∃ n ∈ s.list, overlapping z c.now n.entry entry = true) ∨
        s.LiveOrEnd ∧ (s.Idle → (s.pushBack entry).KeptNext c) := by
  unfold addEventToTimerList
  split
  · rename_i hany
    exact iff_of_true rfl (.inl (List.any_eq_true.mp hany))
  · rename_i hany
    rw [or_iff_right (mt List.any_eq_true.mpr hany)]
    have hlive := (idle_isSome (s := s.pushBack entry)).trans (liveOrEnd_pushBack hs)
    dsimp only
    cases hb : (s.pushBack entry).idle with
    | none =>
      rw [hb] at hlive
      exact iff_of_false Bool.false_ne_true fun h => Bool.false_ne_true (hlive.mpr h.1)
    | some b =>
      rw [hb] at hlive
      have hs' := hlive.mp rfl
      have hidle := idle_iff hb
      have hsame : (s.pushBack entry).Idle ↔ s.Idle := by
        unfold Idle
        rw [next_pushBack hs']
      rw [hsame] at hidle
      rw [Option.bind_some, and_iff_right hs', ← hidle]
      cases b with
      | true =>
        simp only [if_true, Option.isSome_map, setNextEvent_isSome, forall_const]
        rfl
      | false => simp

theorem add_inv {z : TimeZone} {r : TimerManager × Int} (hs : s.Inv)
    (hr : s.addEventToTimerList z c entry = some r) : r.1.Inv := by
  unfold addEventToTimerList at hr
  split at hr
  · cases hr
    exact hs
  obtain ⟨b, -, hr⟩ := Option.bind_eq_some_iff.mp hr
  have hpush : (s.pushBack entry).Inv := pushBack_inv hs
  split at hr
  · obtain ⟨t, ht, rfl⟩ := Option.map_eq_some_iff.mp hr
    exact setNextEvent_inv (s := { s.pushBack entry with nextAction := .setNextEvent })
      ⟨hpush.nodup, hpush.list, hpush.next⟩ ht
  · cases hr
    exact hpush

theorem handles_erase : handles (s.erase h).list = (handles s.list).filter (· ≠ h) := by
  simp [handles, erase, List.filter_map, Function.comp_def]

theorem erase_inv (hs : s.Inv) : (s.erase h).Inv := by
  refine ⟨?_, ?_, hs.next⟩
  · rw [handles_erase]
    exact hs.nodup.filter _
  · intro h' hmem
    rw [handles_erase] at hmem
    exact hs.list h' (List.mem_of_mem_filter hmem)

theorem liveOrEnd_erase :
    (s.erase h).LiveOrEnd ↔ s.LiveOrEnd ∧ s.nextStartingEvent ≠ some h := by
  unfold LiveOrEnd
  rw [handles_erase]
  have hnext : (s.erase h).nextStartingEvent = s.nextStartingEvent := rfl
  rw [hnext]
  cases s.nextStartingEvent with
  | none => simp
  | some h' => simp

theorem next_erase (hne : s.nextStartingEvent ≠ some h) : (s.erase h).next = s.next := by
  have hnext : (s.erase h).nextStartingEvent = s.nextStartingEvent := rfl
  unfold next
  rw [hnext]
  cases hn : s.nextStartingEvent with
  | none => rfl
  | some h' =>
    have hne' : h' ≠ h := fun heq => hne (heq ▸ hn)
    simp only [Option.bind_some, find, erase, List.find?_filter]
    congr 2
    funext n
    by_cases hh : n.handle = h'
    · simp [hh, hne']
    · simp [hh]

theorem modify_isSome {entry' : PlaylistEntry} {force : Bool} :
    (s.modifyEventInTimerList entry entry' force).isSome = true ↔ s.LiveOrEnd := by
  unfold modifyEventInTimerList
  have hlive : (s.runs entry).isSome = true ↔ s.LiveOrEnd := runs_isSome
  cases hb : s.runs entry with
  | none =>
    rw [hb] at hlive
    exact hlive
  | some b =>
    rw [hb] at hlive
    have hs := hlive.mp rfl
    apply iff_of_true _ hs
    rw [Option.bind_some]
    split
    · rename_i hruns
      split
      · obtain ⟨e, he, -⟩ := (runs_iff hb).mp hruns
        exact (updateRunningEvent_uses _ _).isSome.mpr (live_of_next he)
      · rfl
    · split
      · rfl
      · rename_i n _
        apply replan_isSome.mpr
        unfold LiveOrEnd
        rw [handles_change]
        exact hs

theorem modify_inv {entry' : PlaylistEntry} {force : Bool} (hs : s.Inv)
    (ht : s.modifyEventInTimerList entry entry' force = some t) : t.Inv := by
  unfold modifyEventInTimerList at ht
  obtain ⟨b, -, ht⟩ := Option.bind_eq_some_iff.mp ht
  split at ht
  · split at ht
    · exact ((updateRunningEvent_uses _ _).frame t ht).inv hs
    · exact Option.some_inj.mp ht ▸ hs
  · split at ht
    · exact Option.some_inj.mp ht ▸ hs
    · rename_i n _
      have hframe : Frame s { s with list := s.list.map (change n.handle fun _ => entry') } :=
        ⟨handles_change _, rfl, rfl⟩
      exact (hframe.trans (replan_frame ht)).inv hs

theorem load_inv (entries : List PlaylistEntry) (hs : s.Inv) :
    (s.load entries).Inv ∧ s.fresh ≤ (s.load entries).fresh ∧
      (s.load entries).nextStartingEvent = s.nextStartingEvent := by
  have hcleared : ({ s with list := [] } : TimerManager).Inv :=
    ⟨List.nodup_nil, fun h hmem => (nomatch hmem), hs.next⟩
  have hfold : ∀ (es : List PlaylistEntry) (u : TimerManager), u.Inv →
      (es.foldl pushBack u).Inv ∧ u.fresh ≤ (es.foldl pushBack u).fresh ∧
        (es.foldl pushBack u).nextStartingEvent = u.nextStartingEvent := by
    intro es
    induction es with
    | nil => exact fun u hu => ⟨hu, Nat.le_refl _, rfl⟩
    | cons e es ih =>
      intro u hu
      obtain ⟨hinv, hfresh, hnext⟩ := ih (u.pushBack e) (pushBack_inv hu)
      exact ⟨hinv, Nat.le_of_succ_le hfresh, hnext⟩
  exact hfold entries _ hcleared

theorem load_isSome {entries : List PlaylistEntry} :
    (s.loadTimerList c entries).isSome = true ↔ s.LiveOrEnd := by
  unfold loadTimerList
  have hlive := idle_isSome (s := s)
  cases hb : s.idle with
  | none =>
    rw [hb] at hlive
    exact hlive
  | some b =>
    rw [hb] at hlive
    have hs := hlive.mp rfl
    apply iff_of_true _ hs
    rw [Option.bind_some]
    split
    · rfl
    · rename_i hbusy
      have hruns : ¬ s.Idle := mt (idle_iff hb).mpr hbusy
      simp only [Idle, not_forall] at hruns
      obtain ⟨current, hcurrent, -⟩ := hruns
      rw [hcurrent, Option.bind_some]
      dsimp only
      split
      · rfl
      · apply (abortEvent_uses c errorUserAborted).isSome.mpr
        refine ⟨_, rfl, ?_⟩
        have hhandles : handles ((s.load entries).pushBack current).list =
            handles (s.load entries).list ++ [(s.load entries).fresh] := handles_pushBack
        exact hhandles ▸ List.mem_append_right _ (List.mem_singleton_self _)

theorem loadTimerList_inv {entries : List PlaylistEntry} (hs : s.Inv)
    (ht : s.loadTimerList c entries = some t) : t.Inv := by
  obtain ⟨hload, -, -⟩ := load_inv entries hs
  unfold loadTimerList at ht
  obtain ⟨b, -, ht⟩ := Option.bind_eq_some_iff.mp ht
  split at ht
  · cases ht
    exact ⟨hload.nodup, hload.list, hload.next⟩
  obtain ⟨current, -, ht⟩ := Option.bind_eq_some_iff.mp ht
  dsimp only at ht
  split at ht
  · rename_i n hn
    cases ht
    have hframe : Frame (s.load entries)
        { s.load entries with list :=
          (s.load entries).list.map (change n.handle fun _ => current) } :=
      ⟨handles_change _, rfl, rfl⟩
    obtain ⟨hnodup, hlist, -⟩ := hframe.inv hload
    refine ⟨hnodup, hlist, ?_⟩
    intro h hh
    obtain rfl := Option.some_inj.mp hh
    exact hload.list _ (List.mem_map_of_mem (List.mem_of_find?_eq_some hn))
  · have hpush : ((s.load entries).pushBack current).Inv := pushBack_inv hload
    apply ((abortEvent_uses c errorUserAborted).frame t ht).inv
    refine ⟨hpush.nodup, hpush.list, ?_⟩
    intro h hh
    obtain rfl := Option.some_inj.mp hh
    exact Nat.lt_succ_self _

/-- `deleteEventFromTimerList`, from its loop on. -/
def deleteFirst (entry : PlaylistEntry) (s : TimerManager) : Option TimerManager :=
  match s.list.find? fun n => n.entry.same entry with
  | none => some s
  | some n => (s.erase n.handle).replan

theorem deleteFirst_isSome (hs : s.LiveOrEnd) :
    (s.deleteFirst entry).isSome = true ↔
      ∀ h, (∃ n, s.First entry n ∧ n.handle = h) → s.nextStartingEvent ≠ some h := by
  unfold deleteFirst First
  cases s.list.find? fun n => n.entry.same entry with
  | none => simp
  | some n =>
    rw [replan_isSome, liveOrEnd_erase, and_iff_right hs]
    constructor
    · rintro hne h ⟨m, hm, rfl⟩
      exact Option.some_inj.mp hm ▸ hne
    · exact fun hne => hne _ ⟨n, rfl, rfl⟩

theorem deleteFirst_inv (hs : s.Inv) (ht : s.deleteFirst entry = some t) : t.Inv := by
  unfold deleteFirst at ht
  split at ht
  · exact Option.some_inj.mp ht ▸ hs
  · exact (replan_frame ht).inv (erase_inv hs)

theorem delete_eq {force : Bool} : s.deleteEventFromTimerList c entry force =
    (s.runs entry).bind fun runs =>
      if runs then
        if force then (s.abortEvent c errorUserAborted).bind (deleteFirst entry) else some s
      else s.deleteFirst entry := rfl

theorem delete_isSome {force : Bool} (hs : s.Inv) :
    (s.deleteEventFromTimerList c entry force).isSome = true ↔
      s.LiveOrEnd ∧ ((s.Runs entry → force = true) →
        ∀ n, s.First entry n → s.nextStartingEvent ≠ some n.handle) := by
  rw [delete_eq]
  have hlive : (s.runs entry).isSome = true ↔ s.LiveOrEnd := runs_isSome
  have hall : (∀ n, s.First entry n → s.nextStartingEvent ≠ some n.handle) ↔
      ∀ h, (∃ n, s.First entry n ∧ n.handle = h) → s.nextStartingEvent ≠ some h :=
    ⟨fun hall _ ⟨n, hn, hh⟩ => hh ▸ hall n hn, fun hall n hn => hall _ ⟨n, hn, rfl⟩⟩
  rw [hall]
  cases hb : s.runs entry with
  | none =>
    rw [hb] at hlive
    exact iff_of_false Bool.false_ne_true fun h => Bool.false_ne_true (hlive.mpr h.1)
  | some b =>
    rw [hb] at hlive
    have hs' := hlive.mp rfl
    have hruns := runs_iff hb
    rw [Option.bind_some, and_iff_right hs']
    cases b with
    | false =>
      have hidle : ¬ s.Runs entry := mt hruns.mpr Bool.false_ne_true
      rw [if_neg Bool.false_ne_true, deleteFirst_isSome hs']
      exact (imp_iff_right fun h => absurd h hidle).symm
    | true =>
      have hruns := hruns.mp rfl
      rw [if_pos rfl]
      cases force with
      | false => exact iff_of_true rfl fun h => nomatch h hruns
      | true =>
        obtain ⟨e, he, -⟩ := id hruns
        obtain ⟨t, ht, hframe⟩ := (abortEvent_uses c errorUserAborted).exists (live_of_next he)
        have ht' : t.LiveOrEnd := (hframe.live.mpr (live_of_next he)).liveOrEnd
        rw [if_pos rfl, ht, Option.bind_some, deleteFirst_isSome ht', hframe.next]
        simp only [abortEvent_first hs hruns ht, forall_const]

theorem delete_inv {force : Bool} (hs : s.Inv)
    (ht : s.deleteEventFromTimerList c entry force = some t) : t.Inv := by
  rw [delete_eq] at ht
  obtain ⟨b, -, ht⟩ := Option.bind_eq_some_iff.mp ht
  split at ht
  · split at ht
    · obtain ⟨u, hu, ht⟩ := Option.bind_eq_some_iff.mp ht
      exact deleteFirst_inv (((abortEvent_uses _ _).frame u hu).inv hs) ht
    · exact Option.some_inj.mp ht ▸ hs
  · exact deleteFirst_inv hs ht

/-- `removeEventFromTimerList`, after the element is erased. -/
def removed (v : TimerEnv) (address : Option Nat) (s : TimerManager) : Option TimerManager :=
  s.next.bind fun e =>
    if s.nextStartingEvent = address then
      if e.has stateRunning then
        ({ s with nextAction := .stopEvent }.changeNext
          (·.set (stateError ||| errorUserAborted))).stopEvent
      else { s with nextAction := .setNextEvent }.setNextEvent v.clock
    else some s

theorem removed_isSome {address : Option Nat} : (s.removed v address).isSome = true ↔
    s.Live ∧ (s.nextStartingEvent = address → s.Idle → s.KeptNext v.clock) := by
  unfold removed
  have hlive := next_isSome (s := s)
  cases hn : s.next with
  | none =>
    rw [hn] at hlive
    exact iff_of_false Bool.false_ne_true fun h => Bool.false_ne_true (hlive.mpr h.1)
  | some e =>
    rw [hn] at hlive
    have hs := hlive.mp rfl
    rw [Option.bind_some, and_iff_right hs]
    split
    · rename_i haddress
      have hidle : s.Idle ↔ e.has stateRunning = false := by
        unfold Idle
        rw [hn]
        exact ⟨fun h => h e rfl, fun h e' he => Option.some_inj.mp he ▸ h⟩
      rw [imp_iff_right haddress, hidle]
      split
      · rename_i hrun
        apply iff_of_true
        · have hframe := (changeNext_frame { s with nextAction := .stopEvent }
            (·.set (stateError ||| errorUserAborted))).of_action
          exact (stopEvent_uses.of_frame hframe).isSome.mpr hs
        · intro hidle
          cases hrun.symm.trans hidle
      · rename_i hrun
        rw [imp_iff_right (Bool.eq_false_iff.mpr hrun), setNextEvent_isSome]
        rfl
    · rename_i haddress
      exact iff_of_true rfl fun h => absurd h haddress

theorem removed_inv {address : Option Nat} (hs : s.Inv) (ht : s.removed v address = some t) :
    t.Inv := by
  unfold removed at ht
  obtain ⟨e, -, ht⟩ := Option.bind_eq_some_iff.mp ht
  split at ht
  · split at ht
    · have hframe := (changeNext_frame { s with nextAction := .stopEvent }
        (·.set (stateError ||| errorUserAborted))).of_action
      exact ((stopEvent_uses.of_frame hframe).frame t ht).inv hs
    · exact setNextEvent_inv (s := { s with nextAction := .setNextEvent })
        ⟨hs.nodup, hs.list, hs.next⟩ ht
  · exact Option.some_inj.mp ht ▸ hs

theorem remove_isSome {address : Option Nat} {confirmed : Bool} :
    (s.removeEventFromTimerList v address entry confirmed).isSome = true ↔
      ∀ n, s.First ((address.bind s.find).getD entry) n →
        s.Live ∧ (confirmed = true → s.nextStartingEvent ≠ some n.handle ∧
          (s.nextStartingEvent = address → s.Idle → (s.erase n.handle).KeptNext v.clock)) := by
  unfold removeEventFromTimerList First
  dsimp only
  cases s.list.find? fun n => n.entry.same ((address.bind s.find).getD entry) with
  | none => simp
  | some n =>
    simp only [Option.some.injEq, forall_eq']
    have hlive := next_isSome (s := s)
    cases hn : s.next with
    | none =>
      rw [hn] at hlive
      exact iff_of_false Bool.false_ne_true fun h => Bool.false_ne_true (hlive.mpr h.1)
    | some e =>
      rw [hn] at hlive
      have hs := hlive.mp rfl
      rw [Option.bind_some, and_iff_right hs]
      cases confirmed with
      | false => simp
      | true =>
        rw [if_pos rfl, imp_iff_right rfl]
        have herase : (s.erase n.handle).Live ↔ s.nextStartingEvent ≠ some n.handle := by
          have hor := liveOrEnd_erase (s := s) (h := n.handle)
          rw [and_iff_right hs.liveOrEnd] at hor
          rw [← hor]
          obtain ⟨h, hh, -⟩ := hs
          exact ⟨Live.liveOrEnd, fun hall => ⟨h, hh, hall h hh⟩⟩
        have hremoved :
          ((s.erase n.handle).removed v address).isSome = true ↔ (s.erase n.handle).Live ∧
            ((s.erase n.handle).nextStartingEvent = address → (s.erase n.handle).Idle →
              (s.erase n.handle).KeptNext v.clock) := removed_isSome
        rw [herase] at hremoved
        refine hremoved.trans (and_congr_right fun hne => ?_)
        have hidle : (s.erase n.handle).Idle ↔ s.Idle := by
          unfold Idle
          rw [next_erase hne]
        rw [hidle]
        rfl

theorem remove_inv {address : Option Nat} {confirmed : Bool} (hs : s.Inv)
    (ht : s.removeEventFromTimerList v address entry confirmed = some t) : t.Inv := by
  unfold removeEventFromTimerList at ht
  dsimp only at ht
  split at ht
  · exact Option.some_inj.mp ht ▸ hs
  · obtain ⟨e, -, ht⟩ := Option.bind_eq_some_iff.mp ht
    split at ht
    · exact removed_inv (erase_inv hs) ht
    · exact Option.some_inj.mp ht ▸ hs

theorem action_uses (hne : s.nextAction ≠ .setNextEvent) : Uses s (s.actionHandler v) := by
  unfold actionHandler
  cases hact : s.nextAction with
  | setNextEvent => exact absurd hact hne
  | startCountdown => exact startCountdown_uses
  | startEvent => exact startEvent_uses
  | stopEvent => exact stopEvent_uses
  | startRecording => exact startRecording_uses
  | stopRecording => exact stopRecording_uses
  | oldService | updateDuration => exact uses_map fun _ => ⟨rfl, rfl, rfl⟩
  | zap | prepareEvent =>
    apply uses_map
    intro e
    split_ifs <;> exact ⟨rfl, rfl, rfl⟩

theorem actionHandler_setNext (hact : s.nextAction = .setNextEvent) :
    s.actionHandler v = s.setNextEvent v.clock := by
  rw [actionHandler, hact]

theorem action_isSome : (s.actionHandler v).isSome = true ↔
    match s.nextAction with
    | .setNextEvent => s.KeptNext v.clock
    | _ => s.Live := by
  split
  · rename_i hact
    rw [actionHandler_setNext hact]
    exact setNextEvent_isSome
  · rename_i hne
    exact (action_uses hne).isSome

theorem action_inv (hs : s.Inv) (ht : s.actionHandler v = some t) : t.Inv := by
  by_cases hact : s.nextAction = .setNextEvent
  · exact setNextEvent_inv hs (actionHandler_setNext hact ▸ ht)
  · exact ((action_uses hact).frame t ht).inv hs

theorem switched_uses {same : Bool} : Uses s (s.switchedService c (.service same)) := by
  apply uses_bind
  intro e he
  split
  · exact ⟨_, rfl, rfl, rfl, rfl⟩
  · exact (abortEvent_uses c errorZapFailed).exists (live_of_next he)

theorem cleanup_inv (hs : s.Inv) : s.cleanupEvents.Inv := by
  have hsub : (handles s.cleanupEvents.list).Sublist (handles s.list) :=
    List.filter_sublist.map _
  exact ⟨hsub.nodup hs.nodup, fun h hmem => hs.list h (hsub.subset hmem), hs.next⟩

theorem clear_inv : s.clearEvents.Inv :=
  ⟨List.nodup_nil, fun _ hmem => (nomatch hmem), fun _ hn => nomatch hn⟩

end

variable {s t : TimerManager} {a : TimerCall}

/-- A call dereferences elements of the list only, under its condition. -/
theorem step_iff (z : TimeZone) (hs : s.Inv) : (∃ t, s.step z a = some t) ↔ s.Ok z a := by
  rw [← Option.isSome_iff_exists]
  cases a with
  | add c entry =>
    rw [step, Option.isSome_map]
    exact add_isSome hs
  | delete c entry force => exact delete_isSome hs
  | modify oldEntry newEntry force => exact modify_isSome
  | remove v address entry confirmed => exact remove_isSome
  | cleanup => exact iff_of_true rfl trivial
  | clear => exact iff_of_true rfl trivial
  | load c entries => exact load_isSome
  | abort c err => exact (abortEvent_uses c err).isSome
  | update duration afterEvent => exact (updateRunningEvent_uses duration afterEvent).isSome
  | timeChanged => exact replan_isSome
  | switched c r =>
    cases r with
    | back => exact iff_of_true rfl trivial
    | noStream => exact (abortEvent_uses c errorZapFailed).isSome
    | service same => exact switched_uses.isSome
  | action v => exact action_isSome

theorem step_inv (z : TimeZone) (hs : s.Inv) (ht : s.step z a = some t) : t.Inv := by
  cases a with
  | add c entry =>
    obtain ⟨r, hr, rfl⟩ := Option.map_eq_some_iff.mp ht
    exact add_inv hs hr
  | delete c entry force => exact delete_inv hs ht
  | modify oldEntry newEntry force => exact modify_inv hs ht
  | remove v address entry confirmed => exact remove_inv hs ht
  | cleanup => exact Option.some_inj.mp ht ▸ cleanup_inv hs
  | clear => exact Option.some_inj.mp ht ▸ clear_inv
  | load c entries => exact loadTimerList_inv hs ht
  | abort c err => exact ((abortEvent_uses c err).frame t ht).inv hs
  | update duration afterEvent =>
    exact ((updateRunningEvent_uses duration afterEvent).frame t ht).inv hs
  | timeChanged => exact (replan_frame ht).inv hs
  | switched c r =>
    cases r with
    | back => exact Option.some_inj.mp ht ▸ ⟨hs.nodup, hs.list, hs.next⟩
    | noStream => exact ((abortEvent_uses c errorZapFailed).frame t ht).inv hs
    | service same => exact (switched_uses.frame t ht).inv hs
  | action v => exact action_inv hs ht

theorem empty_inv : empty.Inv :=
  ⟨List.nodup_nil, fun _ hmem => (nomatch hmem), fun _ hn => nomatch hn⟩

/-- Elements of the list only are dereferenced, in calls that meet their conditions. -/
theorem handles_iff_permitted (z : TimeZone) (calls : List TimerCall) :
    Keeps (step z) (fun _ => True) empty calls ↔ Permits (step z) (Ok z) empty calls := by
  apply keeps_iff_permits _ _ empty_inv trivial
  · exact fun s a t hs ht => step_inv z hs ht
  · intro s a hs _
    rw [← step_iff z hs]
    exact exists_congr fun t => and_iff_left trivial

/-- The list is read from its file between two looks for the next event. -/
theorem nextEvent_dangling :
    ¬ Keeps (step ⟨0, id⟩) (fun _ => True) empty
      [.add ⟨100, fun t _ _ _ => t, id⟩ ⟨1, -1, 6000, 600, stateWaiting⟩,
        .load ⟨200, fun t _ _ _ => t, id⟩ [⟨1, -1, 6000, 600, stateWaiting⟩],
        .action ⟨⟨200, fun t _ _ _ => t, id⟩, false, false, false, true⟩] := by
  rintro ⟨-, s, hs, -, t, ht, -, u, hu, -⟩
  cases hs
  cases ht
  cases hu

end TimerManager

end Tuxbox.Enigma
