import Tuxbox.Timerd.Change
import Mathlib.Logic.Relation

/-! The steps of the daemon as sequences of small ones: one event changes, is
deleted or is new, a flag is set, the events are saved. Only the load at the
time the clock is known and the shutdown are more than that. -/
namespace Tuxbox.Timerd
open Relation Config

namespace World

section
variable (w : World) (id tag : Nat) (kinds : List Kind) (e : CTimerEvent) (touched : Bool)

@[simp] theorem replace_events : (w.replace id tag kinds e touched).events = w.events.set id e := by
  cases touched <;> rfl

@[simp] theorem replace_log :
    (w.replace id tag kinds e touched).log = w.log ++ kinds.map fun k => ⟨tag, k⟩ := by
  cases touched <;> rfl

@[simp] theorem replace_file : (w.replace id tag kinds e touched).file = w.file := by
  cases touched <;> rfl

@[simp] theorem delete_file : (w.delete id e).file = w.file := rfl

@[simp] theorem replace_eventID : (w.replace id tag kinds e touched).eventID = w.eventID := by
  cases touched <;> rfl

@[simp] theorem replace_isTimeSet : (w.replace id tag kinds e touched).isTimeSet = w.isTimeSet := by
  cases touched <;> rfl

@[simp] theorem replace_nextTag : (w.replace id tag kinds e touched).nextTag = w.nextTag := by
  cases touched <;> rfl

@[simp] theorem replace_loads : (w.replace id tag kinds e touched).loads = w.loads := by
  cases touched <;> rfl

@[simp] theorem replace_saveEvents :
    (w.replace id tag kinds e touched).saveEvents = (w.saveEvents || touched) := by
  cases touched <;> simp [replace, note, dirty]

theorem replace_replace (kinds' : List Kind) (e' : CTimerEvent) (touched' : Bool) :
    (w.replace id tag kinds e touched).replace id tag kinds' e' touched' =
      w.replace id tag (kinds ++ kinds') e' (touched || touched') := by
  cases touched <;> cases touched' <;> simp [replace, note, dirty, OrdMap.set_set]

theorem replace_self {w : World} {id : Nat} {e : CTimerEvent} (tag : Nat)
    (h : w.events.find id = some e) :
    w.replace id tag [] e false = w := by
  simp [replace, note, OrdMap.set_eq_self h]

end

end World

/-- What has happened to a timer, in order. -/
def kindsOf (log : List Notice) (g : Nat) : List Kind :=
  (log.filter fun n => n.tag = g).map Notice.kind

theorem kindsOf_append (log ns : List Notice) (g : Nat) :
    kindsOf (log ++ ns) g = kindsOf log g ++ kindsOf ns g := by
  simp [kindsOf]

theorem kindsOf_own (g : Nat) (kinds : List Kind) :
    kindsOf (kinds.map fun k => ⟨g, k⟩) g = kinds := by
  simp [kindsOf, List.filter_map, Function.comp_def]

theorem kindsOf_other {g g' : Nat} (h : g ≠ g') (kinds : List Kind) :
    kindsOf (kinds.map fun k => ⟨g, k⟩) g' = [] := by
  simp [kindsOf, List.filter_map, Function.comp_def, h]

theorem mem_kindsOf {log : List Notice} {g : Nat} {k : Kind} : k ∈ kindsOf log g ↔ ⟨g, k⟩ ∈ log := by
  simp only [kindsOf, List.mem_map, List.mem_filter, decide_eq_true_eq]
  constructor
  · rintro ⟨n, ⟨hn, rfl⟩, rfl⟩
    exact hn
  · exact fun h => ⟨⟨g, k⟩, ⟨h, rfl⟩, rfl⟩

/-- Nothing has happened to a timer that no notice names. -/
theorem kindsOf_eq_nil {log : List Notice} {g : Nat} (h : ∀ n ∈ log, n.tag ≠ g) :
    kindsOf log g = [] := by
  rw [List.eq_nil_iff_forall_not_mem]
  intro k hk
  exact h _ (mem_kindsOf.mp hk) rfl

/-- One small step. An event fires only in a pass, which also saves. -/
inductive Micro (lc : LibC) (p : Permit) (clean : Prop) (w : World) : World → Prop
  | move (id : Nat) (e e' : CTimerEvent) (kinds : List Kind) (touched : Bool) :
      w.events.find id = some e → Change lc p clean e kinds e' →
      (Kind.fire ∈ kinds → w.isTimeSet = true ∧ touched = true) →
      Micro lc p clean w (w.replace id e.tag kinds e' touched)
  | delete (id : Nat) (e : CTimerEvent) : w.isTimeSet = true →
      w.events.find id = some e → e.eventState = .terminated → Micro lc p clean w (w.delete id e)
  | add (evt : CTimerEvent) : evt.tag = w.nextTag →
      evt.eventState = .scheduled ∨ evt.eventState = .isRunning → (clean → evt.data.Plain) →
      Micro lc p clean w (w.addNew evt)
  | flags (safety : Safety) (timerWakeup saveEvents : Bool) :
      (w.saveEvents = true → saveEvents = true) →
      Micro lc p clean w { w with
        toSafety := safety, timerWakeup := timerWakeup, saveEvents := saveEvents }
  | save (w' : World) : w.isTimeSet = true → w.eventID < 2 ^ 31 →
      w.saveEventsToConfig = some w' → Micro lc p clean w w'

/-- Ids and tags are those of one object each. Until the file is loaded its
timers are not in the map. -/
structure WF (w : World) : Prop where
  ids : ∀ id e, w.events.find id = some e → e.eventID = id ∧ 0 < id ∧ id ≤ w.eventID
  inj : ∀ id e id' e', w.events.find id = some e → w.events.find id' = some e' → e.tag = e'.tag →
    id = id'
  tags : ∀ id e, w.events.find id = some e → e.tag < w.nextTag
  logged : ∀ n ∈ w.log, n.tag < w.nextTag
  fileTags : w.file.tags.Nodup ∧ ∀ g ∈ w.file.tags, g < w.nextTag
  waiting : w.isTimeSet = false → ∀ g ∈ w.file.tags, ∀ id e, w.events.find id = some e → e.tag ≠ g

def AllPlain (w : World) : Prop := ∀ id e, w.events.find id = some e → e.data.Plain

/-- What a save leaves: the file has changed, and the flag is down. -/
theorem save_eq {w w' : World} (h : w.saveEventsToConfig = some w') :
    ∃ text, timerText (w.events.entries.map Prod.snd) w.toSafety = some text ∧
      w' = { w with
        file := ⟨some text, w.events.entries.map fun p => p.2.tag⟩, saveEvents := false } := by
  unfold World.saveEventsToConfig at h
  cases ht : timerText (w.events.entries.map Prod.snd) w.toSafety with
  | none => simp [ht] at h
  | some text =>
    simp only [ht, Option.some.injEq] at h
    exact ⟨text, rfl, h.symm⟩

theorem WF.tags_nodup {w : World} (h : WF w) : (w.events.entries.map fun p => p.2.tag).Nodup := by
  rw [List.Nodup, List.pairwise_map]
  apply w.events.sorted.imp_of_mem
  intro a b ha hb hlt htag
  have := h.inj a.1 a.2 b.1 b.2 ((w.events.find_eq_some _ _).mpr ha)
    ((w.events.find_eq_some _ _).mpr hb) htag
  omega

theorem WF.saved {w w' : World} (h : WF w) (ht : w.isTimeSet = true)
    (hs : w.saveEventsToConfig = some w') : WF w' := by
  obtain ⟨text, _, rfl⟩ := save_eq hs
  refine ⟨h.ids, h.inj, h.tags, h.logged, ⟨h.tags_nodup, ?_⟩, ?_⟩
  · intro g hg
    obtain ⟨p, hp, rfl⟩ := List.mem_map.mp hg
    exact h.tags p.1 p.2 ((w.events.find_eq_some _ _).mpr hp)
  · intro hn
    simp only at hn
    rw [ht] at hn
    cases hn

section
variable {lc : LibC} {p : Permit} {clean : Prop} {w w' : World}

/-- An event of the map after a change stands for one of the map before. -/
theorem find_replace {id i tag : Nat} {e' x : CTimerEvent} {kinds : List Kind} {touched : Bool}
    (hx : (w.replace id tag kinds e' touched).events.find i = some x) :
    (i = id ∧ x = e') ∨ (i ≠ id ∧ w.events.find i = some x) := by
  rw [World.replace_events, OrdMap.find_set] at hx
  split at hx
  · rename_i hi
    cases hx
    exact Or.inl ⟨hi, rfl⟩
  · rename_i hi
    exact Or.inr ⟨hi, hx⟩

theorem WF.replaced (hw : WF w) {id : Nat} {e e' : CTimerEvent} {kinds : List Kind} {touched : Bool}
    (hf : w.events.find id = some e) (hsame : SameTimer clean e e') :
    WF (w.replace id e.tag kinds e' touched) := by
  have old {i : Nat} {x : CTimerEvent}
      (hx : (w.replace id e.tag kinds e' touched).events.find i = some x) :
      ∃ y, w.events.find i = some y ∧ x.tag = y.tag ∧ x.eventID = y.eventID := by
    cases find_replace hx with
    | inl h =>
      obtain ⟨rfl, rfl⟩ := h
      exact ⟨e, hf, hsame.tag, hsame.eventID⟩
    | inr h => exact ⟨x, h.2, rfl, rfl⟩
  constructor
  · intro i x hx
    obtain ⟨y, hy, _, hid⟩ := old hx
    rw [World.replace_eventID, hid]
    exact hw.ids i y hy
  · intro i x j x' hx hx' htag
    obtain ⟨y, hy, ht, _⟩ := old hx
    obtain ⟨y', hy', ht', _⟩ := old hx'
    exact hw.inj i y j y' hy hy' (ht.symm.trans (htag.trans ht'))
  · intro i x hx
    obtain ⟨y, hy, ht, _⟩ := old hx
    rw [World.replace_nextTag, ht]
    exact hw.tags i y hy
  · intro n hn
    rw [World.replace_log, List.mem_append] at hn
    rw [World.replace_nextTag]
    cases hn with
    | inl hn => exact hw.logged n hn
    | inr hn =>
      obtain ⟨k, _, rfl⟩ := List.mem_map.mp hn
      exact hw.tags id e hf
  · rw [World.replace_file, World.replace_nextTag]
    exact hw.fileTags
  · intro hn g hg i x hx
    rw [World.replace_isTimeSet] at hn
    rw [World.replace_file] at hg
    obtain ⟨y, hy, ht, _⟩ := old hx
    rw [ht]
    exact hw.waiting hn g hg i y hy

theorem find_delete {id i : Nat} {e x : CTimerEvent} (hx : (w.delete id e).events.find i = some x) :
    i ≠ id ∧ w.events.find i = some x := by
  change (w.events.erase id).find i = some x at hx
  rw [OrdMap.find_erase] at hx
  split at hx
  · cases hx
  · rename_i hi
    exact ⟨hi, hx⟩

theorem WF.deleted (hw : WF w) {id : Nat} {e : CTimerEvent} (hf : w.events.find id = some e) :
    WF (w.delete id e) := by
  have old {i : Nat} {x : CTimerEvent} (hx : (w.delete id e).events.find i = some x) :=
    (find_delete hx).2
  refine ⟨fun i x hx => hw.ids i x (old hx), fun i x j y hx hy => hw.inj i x j y (old hx) (old hy),
    fun i x hx => hw.tags i x (old hx), ?_, hw.fileTags,
    fun hn g hg i x hx => hw.waiting hn g hg i x (old hx)⟩
  intro n hn
  cases List.mem_append.mp hn with
  | inl hn => exact hw.logged n hn
  | inr hn =>
    rw [List.map_singleton, List.mem_singleton] at hn
    rw [hn]
    exact hw.tags id e hf

/-- The object that `addEvent` puts into the map. -/
def entered (id : Nat) (evt : CTimerEvent) : CTimerEvent :=
  { evt with eventID := id, eventRepeat := CTimerManager.plainRepeat evt.eventRepeat }

theorem find_addNew {i : Nat} {evt x : CTimerEvent} (hx : (w.addNew evt).events.find i = some x) :
    (i = w.eventID + 1 ∧ x = entered i evt) ∨ (i ≠ w.eventID + 1 ∧ w.events.find i = some x) := by
  simp only [World.addNew, CTimerManager.addEvent, OrdMap.find_set] at hx
  split at hx
  · rename_i hi
    cases hx
    exact Or.inl ⟨hi, by rw [hi]; rfl⟩
  · rename_i hi
    exact Or.inr ⟨hi, hx⟩

theorem WF.added (hw : WF w) {evt : CTimerEvent} (htag : evt.tag = w.nextTag) :
    WF (w.addNew evt) := by
  have hnext : (w.addNew evt).nextTag = w.nextTag + 1 := rfl
  constructor
  · intro i x hx
    change x.eventID = i ∧ 0 < i ∧ i ≤ w.eventID + 1
    cases find_addNew hx with
    | inl h => obtain ⟨rfl, rfl⟩ := h; exact ⟨rfl, by omega, Nat.le_refl _⟩
    | inr h =>
      obtain ⟨h1, h2, h3⟩ := hw.ids i x h.2
      exact ⟨h1, h2, by omega⟩
  · intro i x j y hx hy ht
    cases find_addNew hx with
    | inl h =>
      cases find_addNew hy with
      | inl h' => rw [h.1, h'.1]
      | inr h' =>
        have hlt := hw.tags j y h'.2
        rw [← ht, h.2] at hlt
        exact absurd (htag ▸ hlt) (lt_irrefl _)
    | inr h =>
      cases find_addNew hy with
      | inl h' =>
        have hlt := hw.tags i x h.2
        rw [ht, h'.2] at hlt
        exact absurd (htag ▸ hlt) (lt_irrefl _)
      | inr h' => exact hw.inj i x j y h.2 h'.2 ht
  · intro i x hx
    rw [hnext]
    cases find_addNew hx with
    | inl h =>
      rw [h.2]
      exact lt_of_eq_of_lt htag (Nat.lt_succ_self _)
    | inr h => exact Nat.lt_succ_of_lt (hw.tags i x h.2)
  · intro n hn
    rw [hnext]
    cases List.mem_append.mp hn with
    | inl hn => exact Nat.lt_succ_of_lt (hw.logged n hn)
    | inr hn =>
      rw [List.mem_singleton] at hn
      rw [hn]
      exact lt_of_eq_of_lt htag (Nat.lt_succ_self _)
  · exact ⟨hw.fileTags.1, fun g hg => Nat.lt_succ_of_lt (hw.fileTags.2 g hg)⟩
  · intro hn g hg i x hx
    cases find_addNew hx with
    | inl h =>
      rw [h.2]
      intro he
      have hlt := hw.fileTags.2 g hg
      have hg : g = w.nextTag := he.symm.trans htag
      omega
    | inr h => exact hw.waiting hn g hg i x h.2

theorem Micro.wf (h : Micro lc p clean w w') (hw : WF w) : WF w' := by
  cases h with
  | move id e e' kinds touched hf hc _ => exact hw.replaced hf hc.same
  | delete id e _ hf _ => exact hw.deleted hf
  | add evt htag _ _ => exact hw.added htag
  | flags => exact ⟨hw.ids, hw.inj, hw.tags, hw.logged, hw.fileTags, hw.waiting⟩
  | save _ ht _ hs => exact hw.saved ht hs

theorem Micro.allPlain (h : Micro lc p clean w w') (hclean : clean) (hp : AllPlain w) :
    AllPlain w' := by
  intro i x hx
  cases h with
  | move id e e' kinds touched hf hc _ =>
    cases find_replace hx with
    | inl h => exact h.2 ▸ hc.same.plain hclean (hp id e hf)
    | inr h => exact hp i x h.2
  | delete id e _ hf _ => exact hp i x (find_delete hx).2
  | add evt _ _ hplain =>
    cases find_addNew hx with
    | inl h => rw [h.2]; exact hplain hclean
    | inr h => exact hp i x h.2
  | flags => exact hp i x hx
  | save _ _ _ hs =>
    obtain ⟨_, _, rfl⟩ := save_eq hs
    exact hp i x hx

theorem Micro.isTimeSet (h : Micro lc p clean w w') : w'.isTimeSet = w.isTimeSet := by
  cases h with
  | move => exact World.replace_isTimeSet ..
  | save _ _ _ hs => obtain ⟨_, _, rfl⟩ := save_eq hs; rfl
  | _ => rfl

/-- What has happened stays on record. -/
theorem Micro.history (h : Micro lc p clean w w') : w.log ⊆ w'.log ∧ w'.loads = w.loads := by
  cases h with
  | move =>
    rw [World.replace_log]
    exact ⟨List.subset_append_left _ _, World.replace_loads ..⟩
  | delete | add => exact ⟨List.subset_append_left _ _, rfl⟩
  | flags => exact ⟨List.Subset.refl _, rfl⟩
  | save _ _ _ hs =>
    obtain ⟨_, _, rfl⟩ := save_eq hs
    exact ⟨List.Subset.refl _, rfl⟩

/-! ## Sequences -/

/-- Some small steps one after the other. -/
abbrev Small (lc : LibC) (p : Permit) (clean : Prop) : World → World → Prop :=
  ReflTransGen (Micro lc p clean)

theorem Small.wf (h : Small lc p clean w w') (hw : WF w) : WF w' := by
  induction h with
  | refl => exact hw
  | tail _ hm ih => exact hm.wf ih

theorem Small.keeps {I : World → Prop} (h : Small lc p clean w w')
    (small : ∀ w w', WF w → I w → Micro lc p clean w w' → I w') (hw : WF w) (hI : I w) : I w' := by
  induction h with
  | refl => exact hI
  | tail hs hm ih => exact small _ _ (Small.wf hs hw) ih hm

theorem Small.isTimeSet (h : Small lc p clean w w') : w'.isTimeSet = w.isTimeSet := by
  induction h with
  | refl => rfl
  | tail _ hm ih => exact hm.isTimeSet.trans ih

theorem AtMost.tag {e e' : CTimerEvent} {kinds : List Kind} (h : AtMost lc p clean e kinds e') :
    e'.tag = e.tag := by
  cases h with
  | inl h => rw [h.2]
  | inr h => exact h.same.tag

theorem small_replace {id : Nat} {e e' : CTimerEvent} {kinds : List Kind} {touched : Bool}
    (hf : w.events.find id = some e) (h : AtMost lc p clean e kinds e')
    (ht : Kind.fire ∈ kinds → w.isTimeSet = true ∧ touched = true) :
    Small lc p clean w (w.replace id e.tag kinds e' touched) := by
  cases h with
  | inr h => exact .single (.move id e e' kinds touched hf h ht)
  | inl h =>
    obtain ⟨rfl, rfl⟩ := h
    cases touched with
    | false => rw [World.replace_self _ hf]
    | true =>
      have heq : w.replace id e'.tag [] e' true =
          { w with toSafety := w.toSafety, timerWakeup := w.timerWakeup, saveEvents := true } := by
        simp [World.replace, World.note, World.dirty, OrdMap.set_eq_self hf]
      rw [heq]
      exact .single (.flags _ _ _ fun _ => rfl)

/-- A change of an event that has changed before in the same step. -/
theorem small_replace_again {id g : Nat} {e e' : CTimerEvent} {kinds kinds' : List Kind}
    {touched touched' : Bool} (h : Small lc p clean w (w.replace id g kinds e touched))
      (hg : e.tag = g)
    (h' : AtMost lc p clean e kinds' e')
    (ht : Kind.fire ∈ kinds' → w.isTimeSet = true ∧ touched' = true) :
    Small lc p clean w (w.replace id g (kinds ++ kinds') e' (touched || touched')) := by
  rw [← World.replace_replace]
  apply h.trans
  rw [← hg]
  apply small_replace _ h'
  · rw [World.replace_isTimeSet]
    exact ht
  · simp

theorem small_visitEvent {env : Env} (hs : clean → env.sectionsd.Plain) (ht : w.isTimeSet = true)
    {id : Nat} {e : CTimerEvent} (hf : w.events.find id = some e) {v : World.Visit}
    (hv : World.visitEvent lc env e = some v) :
    Small lc p clean w (w.replace id e.tag v.kinds v.event v.touched) := by
  unfold World.visitEvent at hv
  simp only at hv
  generalize ha : World.announceStep env e = a at hv
  generalize hfi : World.fireStep env a.1 = f at hv
  generalize hst : World.stopStep env f.1 = s at hv
  have hannounce : AtMost lc p clean e a.2 a.1 := ha ▸ announceStep_change hs e
  have hfire : AtMost lc p clean a.1 f.2 f.1 := hfi ▸ fireStep_change hs a.1
  have hstop : AtMost lc p clean f.1 s.2 s.1 := hst ▸ stopStep_change f.1
  have nofire1 : Kind.fire ∉ a.2 := by
    rw [← ha]
    unfold World.announceStep
    split <;> simp
  have nofire3 : Kind.fire ∉ s.2 := by
    rw [← hst]
    unfold World.stopStep
    split
    · exact fun hm => by cases mem_stopNotices hm
    · simp
  have t2 (hm : Kind.fire ∈ f.2) : w.isTimeSet = true ∧ (!f.2.isEmpty) = true := by
    refine ⟨ht, ?_⟩
    cases hk : f.2 with
    | nil => rw [hk] at hm; cases hm
    | cons => rfl
  cases hfin : World.finishStep lc env s.1 with
  | none => simp [hfin] at hv
  | some e' =>
    simp only [hfin, Option.some.injEq] at hv
    subst hv
    have hfinish : AtMost lc p clean s.1 [] e' := finishStep_change hs hfin
    have h1 : Small lc p clean w (w.replace id e.tag a.2 a.1 (!a.2.isEmpty)) :=
      small_replace hf hannounce fun hm => absurd hm nofire1
    have h2 := small_replace_again h1 hannounce.tag hfire t2
    have h3 : Small lc p clean w (w.replace id e.tag (a.2 ++ f.2 ++ s.2) s.1
        (!a.2.isEmpty || !f.2.isEmpty || World.stopWanted env f.1)) :=
      small_replace_again h2 (hfire.tag.trans hannounce.tag) hstop fun hm => absurd hm nofire3
    have h4 : Small lc p clean w (w.replace id e.tag (a.2 ++ f.2 ++ s.2 ++ []) e'
        (!a.2.isEmpty || !f.2.isEmpty || World.stopWanted env f.1 ||
          decide (s.1.eventState = .hasFinished))) :=
      small_replace_again h3 (hstop.tag.trans (hfire.tag.trans hannounce.tag)) hfinish fun hm => by
        cases hm
    rwa [List.append_nil] at h4

theorem small_shutdownOnWakeup (now : Int) (id : Nat) :
    Small lc p clean w (w.shutdownOnWakeup now id) := by
  unfold World.shutdownOnWakeup
  split
  · refine .single (.add _ rfl (Or.inl rfl) fun _ => ?_)
    intro s hs
    cases hs
  · exact .refl

/-- A new event has an id of its own. -/
theorem find_shutdownOnWakeup (hw : WF w) {now : Int} {id j : Nat} {e : CTimerEvent}
    (hf : w.events.find id = some e) : (w.shutdownOnWakeup now j).events.find id = some e := by
  have hid : id ≠ w.eventID + 1 := by
    have := (hw.ids id e hf).2.2
    omega
  unfold World.shutdownOnWakeup
  split
  · simp [World.addNew, CTimerManager.addEvent, hid, hf]
  · exact hf

theorem small_visit {env : Env} (hs : clean → env.sectionsd.Plain) (hw : WF w)
    (ht : w.isTimeSet = true)
    {id : Nat} (h : World.visit lc env w id = some w') : Small lc p clean w w' := by
  unfold World.visit at h
  cases hf : w.events.find id with
  | none =>
    simp only [hf, Option.some.injEq] at h
    rw [h]
  | some e =>
    simp only [hf] at h
    cases hv : World.visitEvent lc env e with
    | none => simp [hv] at h
    | some v =>
      simp only [hv] at h
      -- before the event changes: perhaps a new shutdown, perhaps the wakeup flag
      generalize hw1 : (if v.stopped = true then w.shutdownOnWakeup env.now id else w) = w1 at h
      have h1 : Small lc p clean w w1 ∧ w1.events.find id = some e := by
        rw [← hw1]
        split
        · exact ⟨small_shutdownOnWakeup _ _, find_shutdownOnWakeup hw hf⟩
        · exact ⟨.refl, hf⟩
      generalize hw2 : (if v.zapped = true then { w1 with timerWakeup := false } else w1) = w2 at h
      have h2 : Small lc p clean w1 w2 ∧ w2.events.find id = some e := by
        rw [← hw2]
        split
        · exact ⟨.single (.flags w1.toSafety false w1.saveEvents fun hh => hh), h1.2⟩
        · exact ⟨.refl, h1.2⟩
      have h3 : Small lc p clean w w2 := h1.1.trans h2.1
      have ht2 : w2.isTimeSet = true := h3.isTimeSet.trans ht
      have h4 : Small lc p clean w2 (w2.replace id e.tag v.kinds v.event v.touched) :=
        small_visitEvent hs ht2 h2.2 hv
      split at h
      · rename_i hterm
        cases h
        refine (h3.trans h4).tail (.delete id v.event ?_ ?_ hterm)
        · rw [World.replace_isTimeSet]
          exact ht2
        · simp
      · cases h
        exact h3.trans h4

theorem small_visitAll {env : Env} (hs : clean → env.sectionsd.Plain) {ids : List Nat} {w w' : World}
    (hw : WF w) (ht : w.isTimeSet = true) (h : World.visitAll lc env ids w = some w') :
    Small lc p clean w w' := by
  induction ids generalizing w with
  | nil => cases h; exact .refl
  | cons id ids ih =>
    simp only [World.visitAll] at h
    cases hv : World.visit lc env w id with
    | none => simp [hv] at h
    | some w1 =>
      rw [hv] at h
      have h1 : Small lc p clean w w1 := small_visit hs hw ht hv
      exact h1.trans (ih (h1.wf hw) (h1.isTimeSet.trans ht) h)

@[simp] theorem World.shutdownOnWakeup_file (now : Int) (id : Nat) :
    (w.shutdownOnWakeup now id).file = w.file := by
  unfold World.shutdownOnWakeup
  split <;> rfl

theorem visit_file {env : Env} {id : Nat} (h : World.visit lc env w id = some w') :
    w'.file = w.file := by
  unfold World.visit at h
  split at h
  · cases h
    rfl
  split at h
  · cases h
  · dsimp only at h
    split at h <;> cases h <;> simp only [World.delete_file, World.replace_file] <;>
      split_ifs <;> simp

theorem visitAll_file {env : Env} {ids : List Nat} {w : World}
    (h : World.visitAll lc env ids w = some w') : w'.file = w.file := by
  induction ids generalizing w with
  | nil => cases h; rfl
  | cons id ids ih =>
    simp only [World.visitAll] at h
    cases hv : World.visit lc env w id with
    | none => simp [hv] at h
    | some w1 =>
      rw [hv] at h
      exact (ih h).trans (visit_file hv)

theorem flush_eventID (h : w.flush = some w') : w'.eventID = w.eventID := by
  unfold World.flush at h
  split at h
  · obtain ⟨_, _, rfl⟩ := save_eq h
    rfl
  · cases h
    rfl

theorem small_walk {env : Env} (hs : clean → env.sectionsd.Plain) {ids : List Nat} {w : World}
    {r : World × Bool} (hw : WF w) (ht : w.isTimeSet = true)
    (h : World.walk lc env ids w = some r) : Small lc p clean w r.1 ∧ r.1.file = w.file := by
  induction ids generalizing w with
  | nil => cases h; exact ⟨.refl, rfl⟩
  | cons id ids ih =>
    simp only [World.walk] at h
    cases hv : World.visit lc env w id with
    | none => simp [hv] at h
    | some w1 =>
      simp only [hv] at h
      have h1 : Small lc p clean w w1 := small_visit hs hw ht hv
      have ht1 : w1.isTimeSet = true := h1.isTimeSet.trans ht
      have hf1 : w1.file = w.file := visit_file hv
      split at h
      · obtain ⟨h2, hf2⟩ := ih (h1.wf hw) ht1 h
        exact ⟨h1.trans h2, hf2.trans hf1⟩
      · obtain ⟨w2, hall, rfl⟩ := Option.map_eq_some_iff.mp h
        exact ⟨h1.trans (small_visitAll hs (h1.wf hw) ht1 hall), (visitAll_file hall).trans hf1⟩

/-- The loop of a pass, with the save behind it. -/
theorem pass_flush {env : Env} (hs : clean → env.sectionsd.Plain) (hw : WF w)
    (ht : w.isTimeSet = true) (h : w.pass lc env = some w') :
    ∃ w1, Small lc p clean w w1 ∧ w1.file = w.file ∧ w1.flush = some w' := by
  unfold World.pass at h
  cases h1 : World.walk lc env w.events.keys w with
  | none => simp [h1] at h
  | some r =>
    obtain ⟨w1, erased⟩ := r
    obtain ⟨s1, hf1⟩ := small_walk hs hw ht h1
    cases erased with
    | true => exact ⟨w1, s1, hf1, by simpa only [h1] using h⟩
    | false =>
      simp only [h1] at h
      cases h2 : World.walk lc env (w1.events.keys.filter (w.eventID < ·)) w1 with
      | none => simp [h2] at h
      | some r =>
        obtain ⟨s2, hf2⟩ := small_walk hs (s1.wf hw) (s1.isTimeSet.trans ht) h2
        exact ⟨r.1, s1.trans s2, hf2.trans hf1, by simpa only [h2] using h⟩

theorem small_pass {env : Env} (hs : clean → env.sectionsd.Plain) (hw : WF w)
    (ht : w.isTimeSet = true)
    (h : w.pass lc env = some w') (hid : w'.eventID < 2 ^ 31) : Small lc p clean w w' := by
  obtain ⟨w1, s1, -, h⟩ := pass_flush (p := p) hs hw ht h
  have ht1 : w1.isTimeSet = true := s1.isTimeSet.trans ht
  have hid1 : w1.eventID < 2 ^ 31 := flush_eventID h ▸ hid
  apply s1.trans
  unfold World.flush at h
  split at h
  · exact .single (.save w' ht1 hid1 h)
  · cases h
    exact .refl

/-! ## Commands -/

/-- The texts of the message have no line break. -/
def AddMsg.Plain (msg : AddMsg) : Prop :=
  match msg.timer with
  | .record _ _ dir => newline ∉ dir
  | .remind text | .execPlugin text => newline ∉ text
  | _ => True

/-- No text that comes with the call has a line break. -/
def Act.Plain : Act → Prop
  | .pass env | .rescheduleEvent env _ | .listEvents env => env.sectionsd.Plain
  | .addTimer env msg => env.sectionsd.Plain ∧ msg.Plain
  | .modifyEvent env _ _ _ _ _ _ dir => env.sectionsd.Plain ∧ newline ∉ dir
  | _ => True

/-- The events of a command meet its condition. A reschedule of an event that
does not repeat any more does nothing. -/
def Permit.Allows (p : Permit) (w : World) : Act → Prop
  | .stopEvent _ id => ∀ e, w.events.find id = some e → p.stop e
  | .rescheduleEvent _ id => ∀ e, w.events.find id = some e → e.eventRepeat ≠ repeatOnce →
      e.repeatCount ≠ 1 → p.reschedule e
  | .modifyEvent _ id _ _ stopTime _ _ _ => ∀ e, w.events.find id = some e → p.modify stopTime e
  | _ => True

theorem create_spec {msg : AddMsg} {m : CTimerManager} {sdc : Sectionsd} {tag : Nat} {e : CTimerEvent}
    (h : msg.create m sdc tag = some e) :
    e.tag = tag ∧ (e.eventState = .scheduled ∨ e.eventState = .isRunning) ∧
      (sdc.Plain ∧ msg.Plain → e.data.Plain) := by
  have title (hs : sdc.Plain) (id : UInt64) : newline ∉ (sdc.getEPGidShort id).getD [] := by
    cases hg : sdc.getEPGidShort id with
    | none => simp
    | some t => exact hs id t hg
  have short {s : Str} {n : Nat} (hs : newline ∉ s) : newline ∉ (cString s).take n :=
    fun hm => cString_plain hs (List.take_subset n _ hm)
  have none {d : EventData} (hd : d.texts = []) : d.Plain := by simp [EventData.Plain, hd]
  unfold AddMsg.create at h
  unfold AddMsg.Plain
  cases ht : msg.timer with
  | standby on | shutdown | sleeptimer =>
     simp only [ht] at h; cases h; exact ⟨rfl, Or.inl rfl, fun _ => none rfl⟩
  | nextProgram => simp only [ht] at h; cases h
  | record info safety dir =>
    have hplain (hp : sdc.Plain ∧ newline ∉ dir) :
        (EventData.record info (cString dir) ((sdc.getEPGidShort info.epgID).getD [])).Plain :=
      (EventData.plain_pair rfl).mpr ⟨cString_plain hp.2, title hp.1 _⟩
    simp only [ht] at h
    split at h <;> cases h <;> exact ⟨rfl, Or.inl rfl, hplain⟩
  | immediateRecord info =>
    simp only [ht] at h
    cases h
    refine ⟨rfl, Or.inr rfl, fun hp => ?_⟩
    exact (EventData.plain_pair rfl).mpr ⟨List.not_mem_nil, title hp.1 _⟩
  | zapto info safety =>
    have hplain (hp : sdc.Plain ∧ True) : (EventData.zapto { info with apids := 0 } []
        ((sdc.getEPGidShort info.epgID).getD [])).Plain :=
      (EventData.plain_pair rfl).mpr ⟨List.not_mem_nil, title hp.1 _⟩
    simp only [ht] at h
    split at h
    · split at h <;> cases h <;> exact ⟨rfl, Or.inl rfl, hplain⟩
    · cases h
  | remind message | execPlugin name =>
    simp only [ht] at h
    cases h
    refine ⟨rfl, Or.inl rfl, fun hp => ?_⟩
    exact (EventData.plain_single rfl).mpr (short hp.2)

/-- A stop or a removal: perhaps a new shutdown, then the event itself. -/
theorem small_afterStop (hw : WF w) {now : Int} {id : Nat} {e e' : CTimerEvent} {kinds : List Kind}
    (hf : w.events.find id = some e) (hc : Change lc p clean e kinds e') (hk : Kind.fire ∉ kinds) :
    Small lc p clean w ((w.afterStop now id e).replace id e.tag kinds e' false) := by
  have h1 : Small lc p clean w (w.afterStop now id e) ∧
      (w.afterStop now id e).events.find id = some e := by
    unfold World.afterStop
    split
    · exact ⟨small_shutdownOnWakeup _ _, find_shutdownOnWakeup hw hf⟩
    · exact ⟨.refl, hf⟩
  exact h1.1.trans (small_replace h1.2 (Or.inr hc) fun hm => absurd hm hk)

theorem small_removeEvent (hw : WF w) (now : Int) (id : Nat) :
    Small lc p clean w (w.removeEvent now id) := by
  unfold World.removeEvent
  cases hf : w.events.find id with
  | none => exact .refl
  | some e =>
    apply small_afterStop hw hf
    · exact .remove ⟨⟨rfl, rfl, rfl, fun _ h => h⟩, rfl, rfl, rfl⟩ rfl
    · intro hm
      cases List.mem_append.mp hm with
      | inl hm => cases mem_stopKinds hm
      | inr hm => simp at hm

theorem small_stopEvent (hw : WF w) {now : Int} {id : Nat}
    (hp : ∀ e, w.events.find id = some e → p.stop e) : Small lc p clean w (w.stopEvent now id) := by
  unfold World.stopEvent
  cases hf : w.events.find id with
  | none => exact .refl
  | some e =>
    apply small_afterStop hw hf
    · exact .stop ⟨⟨rfl, rfl, rfl, fun _ h => h⟩, rfl, rfl, rfl⟩ (hp e hf) rfl
    · exact fun hm => by cases mem_stopKinds hm

theorem small_rescheduleEvent {env : Env} (hs : clean → env.sectionsd.Plain) {id : Nat}
    (hp : ∀ e, w.events.find id = some e → e.eventRepeat ≠ repeatOnce → e.repeatCount ≠ 1 →
      p.reschedule e)
    (h : w.rescheduleEvent lc env id = some w') : Small lc p clean w w' := by
  unfold World.rescheduleEvent at h
  cases hf : w.events.find id with
  | none => simp only [hf, Option.some.injEq] at h; rw [h]
  | some e =>
    simp only [hf] at h
    split at h
    · rename_i hr
      cases hre : e.reschedule lc env true with
      | none => simp [hre] at h
      | some e' =>
        simp only [hre, Option.some.injEq] at h
        subst h
        have hc : Change lc p clean e [] e' :=
          .reschedule (reschedule_rescheduled hs hr.1 hre) hr.1 hr.2 (Or.inr (hp e hf hr.1 hr.2))
        exact small_replace hf (Or.inr hc) fun hm => by cases hm
    · cases h
      exact .refl

theorem small_modifyApids (id : Nat) (apids : UInt8) :
    Small lc p clean w (w.modifyApids id apids) := by
  unfold World.modifyApids
  cases hf : w.events.find id with
  | none => exact .refl
  | some e =>
    simp only
    split
    · rename_i info dir title hd
      refine small_replace hf (Or.inr (.look ⟨⟨rfl, rfl, ?_, fun _ h => ?_⟩, rfl, rfl, rfl⟩ rfl))
        fun hm => by cases hm
      · rw [hd]; rfl
      · rw [hd] at h; exact h
    · rename_i info dir title hd
      refine small_replace hf (Or.inr (.look ⟨⟨rfl, rfl, ?_, fun _ h => ?_⟩, rfl, rfl, rfl⟩ rfl))
        fun hm => by cases hm
      · rw [hd]; rfl
      · rw [hd] at h; exact h
    · exact .refl

theorem small_listEvents {sdc : Sectionsd} (hs : clean → sdc.Plain) :
    Small lc p clean w (w.listEvents sdc) := by
  unfold World.listEvents
  generalize w.events.keys = ids
  induction ids generalizing w with
  | nil => exact .refl
  | cons id ids ih =>
    rw [List.foldl_cons]
    have h1 : Small lc p clean w (World.refreshEvent sdc w id) := by
      unfold World.refreshEvent
      cases hf : w.events.find id with
      | none => exact .refl
      | some e =>
        have hr := refresh_same hs e
        exact small_replace hf (Or.inr (.look hr.fixed hr.eventState)) fun hm => by cases hm
    exact h1.trans ih

/-- Every step but a load and a shutdown is a sequence of small steps. -/
theorem act_small {a : Act} (hw : WF w) (hp : p.Allows w a) (ht : ∀ env, a ≠ .timeSet env)
    (hsh : ∀ b, a ≠ .shutdown b) (h : act lc w a = some w') (hid : w'.eventID < 2 ^ 31) :
    Small lc p a.Plain w w' := by
  cases a with
  | timeSet env => exact absurd rfl (ht env)
  | shutdown b => exact absurd rfl (hsh b)
  | pass env =>
    simp only [act] at h
    split at h
    · rename_i hset
      exact small_pass (fun hc => hc) hw hset h hid
    · cases h
  | addTimer env msg =>
    simp only [act] at h
    cases hc : msg.create w.toCTimerManager env.sectionsd w.nextTag with
    | none => simp only [hc, Option.some.injEq] at h; rw [h]
    | some e =>
      simp only [hc, Option.some.injEq] at h
      obtain ⟨htag, hstate, hplain⟩ := create_spec hc
      rw [← h]
      exact .single (.add e htag hstate hplain)
  | removeEvent env id => cases h; exact small_removeEvent hw _ _
  | stopEvent env id => cases h; exact small_stopEvent hw hp
  | rescheduleEvent env id => exact small_rescheduleEvent (fun hc => hc) hp h
  | modifyEvent env id announceTime alarmTime stopTime repeatCount eventRepeat dir =>
    cases h
    unfold World.modifyEvent
    cases hf : w.events.find id with
    | none => exact .refl
    | some e =>
      have hc : Change lc p (Act.modifyEvent env id announceTime alarmTime stopTime repeatCount
          eventRepeat dir).Plain e [] (World.modified env announceTime alarmTime stopTime repeatCount
          eventRepeat dir e) :=
        modified_change (fun hc => hc.1) (fun hc => hc.2) (hp e hf)
      exact small_replace hf (Or.inr hc) fun hm => by cases hm
  | modifyApids id apids => cases h; exact small_modifyApids _ _
  | listEvents env => cases h; exact small_listEvents fun hc => hc
  | setRecordingSafety pre post =>
    cases h
    exact .single (.flags ⟨pre, post, w.zaptoExtraTimeStart⟩ w.timerWakeup true fun _ => rfl)
  | setZaptoSafety pre =>
    cases h
    exact .single (.flags ⟨w.extraTimeStart, w.extraTimeEnd, pre⟩ w.timerWakeup true fun _ => rfl)

end

end Tuxbox.Timerd
