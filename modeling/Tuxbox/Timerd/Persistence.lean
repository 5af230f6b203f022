import Mathlib.Data.List.Forall2
import Tuxbox.Timerd.Restart

/-! The timers after a save and a load in a fresh manager: which of them are the
same, and when all of them are. -/
namespace Tuxbox.Timerd
open Config

/-- A message and a plugin name are character arrays of 31 bytes. -/
def EventData.Fits : EventData → Prop
  | .remind s => 0 ∉ s ∧ s.length < reminderMessageMaxlen
  | .execPlugin s => 0 ∉ s ∧ s.length < execPluginNameMaxlen
  | _ => True

/-- A map of timers as a manager has it, with no line break in a text. -/
structure Storable (m : OrdMap Nat CTimerEvent) : Prop where
  ids : ∀ id e, m.find id = some e → e.eventID = id ∧ 0 < id ∧ id < 2 ^ 31
  plain : ∀ id e, m.find id = some e → e.data.Plain
  fits : ∀ id e, m.find id = some e → e.data.Fits

/-- Timers under the ids from `base + 1` on, otherwise as they are. -/
def renumbered : Nat → List CTimerEvent → List (Nat × CTimerEvent)
  | _, [] => []
  | base, e :: es => (base + 1, { e with eventID := base + 1 }) :: renumbered (base + 1) es

/-- A fresh manager with the file that is there. -/
def World.fresh (w : World) (timerWakeup : Bool) : World :=
  { w with toCTimerManager := .create w.file.text timerWakeup }

/-- Both calls return, and the fresh manager has all timers in their order. -/
def RoundTrips (w : World) (timerWakeup : Bool) (now : Int) : Prop :=
  ∃ w1 w2, w.saveEventsToConfig = some w1 ∧
    (w1.fresh timerWakeup).loadEventsFromConfig now = some w2 ∧
    w2.events.entries = renumbered 0 (w.events.entries.map Prod.snd)

/-- The start times of an event's programme. -/
def EventData.starts : EventData → List Int
  | .nextProgram info | .zapto info _ _ | .record info _ _ => [info.epgStarttime]
  | _ => []

/-- The event comes back as it was: no text is cut, no time is reduced, and the
repetition is not one that `addEvent` replaces. -/
structure Unchanged (e : CTimerEvent) : Prop where
  texts : ∀ s ∈ e.data.texts, hash ∉ s
  starts : ∀ t ∈ e.data.starts, -2 ^ 63 ≤ t ∧ t < 2 ^ 63
  alarmTime : -2 ^ 31 ≤ e.alarmTime ∧ e.alarmTime < 2 ^ 31
  stopTime : -2 ^ 31 ≤ e.stopTime ∧ e.stopTime < 2 ^ 31
  announceTime : -2 ^ 31 ≤ e.announceTime ∧ e.announceTime < 2 ^ 31
  eventRepeat : e.eventRepeat ≠ repeatWeekdays

/-! ## One event -/

theorem readBackTime_eq {t : Int} : readBackTime t = t ↔ -2 ^ 31 ≤ t ∧ t < 2 ^ 31 := by
  constructor
  · intro h
    rw [← h]
    exact ⟨Int32.le_toInt _, Int32.toInt_lt _⟩
  · exact fun h => Int32.toInt_ofInt_of_le h.1 h.2

theorem readBackInfo_eq {info : EventInfo} :
    readBackInfo info = info ↔ -2 ^ 63 ≤ info.epgStarttime ∧ info.epgStarttime < 2 ^ 63 := by
  constructor
  · intro h
    have hstart := congrArg EventInfo.epgStarttime h
    simp only [readBackInfo] at hstart
    rw [← hstart]
    exact ⟨Int64.le_toInt _, Int64.toInt_lt _⟩
  · intro h
    rw [readBackInfo, Int64.toInt_ofInt_of_le h.1 h.2]

theorem hash_notMem_cut (s : Str) : hash ∉ cut s := by
  intro h
  simpa using List.mem_takeWhile_imp h

theorem cString_cut_eq {s : Str} (h : 0 ∉ s) : cString (cut s) = s ↔ hash ∉ s := by
  constructor
  · intro he hm
    rw [← he] at hm
    exact hash_notMem_cut s (List.takeWhile_subset _ hm)
  · intro hh
    rw [cut_eq_self.mpr hh]
    apply List.takeWhile_eq_self_iff.mpr
    intro c hc
    exact decide_eq_true fun h0 => h (h0 ▸ hc)

theorem readBackData_eq {data : EventData} (h : data.Fits) :
    readBackData data = data ↔
      (∀ s ∈ data.texts, hash ∉ s) ∧ ∀ t ∈ data.starts, -2 ^ 63 ≤ t ∧ t < 2 ^ 63 := by
  cases data with
  | remind s | execPlugin s =>
     simp [readBackData, EventData.texts, EventData.starts, cString_cut_eq h.1]
  | nextProgram info => simp [readBackData, EventData.texts, EventData.starts, readBackInfo_eq]
  | zapto info dir title | record info dir title =>
    simp only [readBackData, EventData.zapto.injEq, EventData.record.injEq, readBackInfo_eq,
      cut_eq_self,
      EventData.texts, EventData.starts, List.mem_cons, List.not_mem_nil, or_false,
        forall_eq_or_imp, forall_eq]
    exact and_comm
  | _ => simp [readBackData, EventData.texts, EventData.starts]

/-- An entry of the file with the tag of the timer it is. -/
def restored (e : CTimerEvent) : CTimerEvent := { readBack e with tag := e.tag }

theorem tagged_saved (es : List CTimerEvent) (next : Nat) :
    World.tagged (es.map CTimerEvent.tag) next (es.map readBack) = es.map restored := by
  apply List.ext_getElem?
  intro i
  simp only [World.tagged, List.getElem?_mapIdx, List.getElem?_map]
  cases es[i]? <;> rfl

theorem plainRepeat_eq {r : Int32} : CTimerManager.plainRepeat r = r ↔ r ≠ repeatWeekdays := by
  constructor
  · intro h
    rw [← h]
    exact plainRepeat_ne r
  · intro h
    rw [CTimerManager.plainRepeat, if_neg h]

theorem entered_restored_eq {e : CTimerEvent} (hf : e.data.Fits) (id : Nat) :
    entered id (restored e) = { e with eventID := id } ↔ Unchanged e := by
  have hdata := readBackData_eq hf
  constructor
  · intro h
    have hd : readBackData e.data = e.data := congrArg CTimerEvent.data h
    exact ⟨(hdata.mp hd).1, (hdata.mp hd).2, readBackTime_eq.mp (congrArg CTimerEvent.alarmTime h),
      readBackTime_eq.mp (congrArg CTimerEvent.stopTime h),
      readBackTime_eq.mp (congrArg CTimerEvent.announceTime h),
      plainRepeat_eq.mp (congrArg CTimerEvent.eventRepeat h)⟩
  · intro h
    simp only [entered, restored, readBack, hdata.mpr ⟨h.texts, h.starts⟩,
      readBackTime_eq.mpr h.alarmTime,
      readBackTime_eq.mpr h.stopTime, readBackTime_eq.mpr h.announceTime,
        plainRepeat_eq.mpr h.eventRepeat]

/-- The load drops no timer that comes back as it was. -/
theorem Unchanged.kept {e : CTimerEvent} (h : Unchanged e) {now : Int} (hnow : now ≤ e.alarmTime) :
    World.kept now (restored e) = some (restored e) := by
  have halarm : (restored e).alarmTime = e.alarmTime := readBackTime_eq.mpr h.alarmTime
  rw [World.kept, if_pos]
  rw [halarm]
  exact Or.inl hnow

/-- A timer that is there after the load, but for its state as it was saved. -/
theorem entered_kept_eq {e k : CTimerEvent} (hf : e.data.Fits) {now : Int} (hnow : now ≤ e.alarmTime)
    (hk : World.kept now (restored e) = some k) (id : Nat) :
    entered id k = { e with eventID := id } ↔ Unchanged e := by
  constructor
  · intro h
    have hstate : (entered id k).eventState = e.eventState := by rw [h]
    change k.eventState = e.eventState at hstate
    have hkr : k = restored e := by
      rw [(kept_spec hk).1, hstate]
      rfl
    rw [hkr] at h
    exact (entered_restored_eq hf id).mp h
  · intro h
    have hkr : restored e = k := Option.some.inj ((h.kept hnow).symm.trans hk)
    rw [← hkr]
    exact (entered_restored_eq hf id).mpr h

/-! ## All events -/

theorem numbered_length (base : Nat) (ks : List CTimerEvent) :
    (numbered base ks).length = ks.length := by
  induction ks generalizing base with
  | nil => rfl
  | cons k ks ih => rw [numbered, List.length_cons, ih, List.length_cons]

theorem renumbered_length (base : Nat) (es : List CTimerEvent) :
    (renumbered base es).length = es.length := by
  induction es generalizing base with
  | nil => rfl
  | cons e es ih => rw [renumbered, List.length_cons, ih, List.length_cons]

/-- What a load makes of saved timers are these timers exactly if each is
unchanged. One that is dropped is missed at the end. -/
theorem numbered_restored_eq {now : Int} (base : Nat) {es : List CTimerEvent}
    (hf : ∀ e ∈ es, e.data.Fits) (hnow : ∀ e ∈ es, now ≤ e.alarmTime) :
    numbered base ((es.map restored).filterMap (World.kept now)) = renumbered base es ↔
      ∀ e ∈ es, Unchanged e := by
  induction es generalizing base with
  | nil => simp [numbered, renumbered]
  | cons e es ih =>
    have hnow1 := hnow e List.mem_cons_self
    have ih := ih (base + 1) (fun e' he => hf e' (List.mem_cons_of_mem e he))
      fun e' he => hnow e' (List.mem_cons_of_mem e he)
    rw [List.map_cons, List.filterMap_cons, List.forall_mem_cons]
    cases hk : World.kept now (restored e) with
    | some k =>
      simp only [numbered, renumbered, List.cons.injEq, Prod.mk.injEq, true_and]
      rw [ih, entered_kept_eq (hf e List.mem_cons_self) hnow1 hk]
    | none =>
      constructor
      · intro h
        have hlen := congrArg List.length h
        have hle := List.length_filterMap_le (World.kept now) (es.map restored)
        simp only [numbered_length, renumbered_length, List.length_map, List.length_cons] at hlen hle
        omega
      · intro h
        rw [h.1.kept hnow1] at hk
        cases hk

/-- The same timer under an id that is not larger. -/
structure Renumbered (q : Nat × CTimerEvent) (e : CTimerEvent) : Prop where
  pos : 0 < q.1
  le : q.1 ≤ e.eventID
  eq : q.2 = { e with eventID := q.1 }

theorem renumbered_rel (base : Nat) {es : List CTimerEvent}
    (hsorted : (es.map CTimerEvent.eventID).Pairwise (· < ·)) (hbase : ∀ e ∈ es, base < e.eventID) :
    List.Forall₂ Renumbered (renumbered base es) es := by
  induction es generalizing base with
  | nil => exact .nil
  | cons e es ih =>
    rw [List.map_cons, List.pairwise_cons] at hsorted
    have he := hbase e List.mem_cons_self
    have hrest : ∀ e' ∈ es, base + 1 < e'.eventID := by
      intro e' he'
      have := hsorted.1 e'.eventID (List.mem_map_of_mem he')
      omega
    exact .cons ⟨Nat.succ_pos base, he, rfl⟩ (ih (base + 1) hsorted.2 hrest)

theorem forall₂_mem {α β : Type} {R : α → β → Prop} {as : List α} {bs : List β}
    (h : List.Forall₂ R as bs)
    {a : α} (ha : a ∈ as) : ∃ b ∈ bs, R a b := by
  induction h with
  | nil => cases ha
  | @cons _ b _ bs hr _ ih =>
    cases List.mem_cons.mp ha with
    | inl he => exact ⟨b, List.mem_cons_self, he ▸ hr⟩
    | inr hm =>
      obtain ⟨b', hb', hr'⟩ := ih hm
      exact ⟨b', List.mem_cons_of_mem b hb', hr'⟩

theorem idOf_text {e : CTimerEvent} (h : e.eventID < 2 ^ 31) :
    decInt (idOf e).toInt = decNat e.eventID := by
  rw [idOf, Int32.toInt_ofNat_of_lt h, decInt, if_neg (by omega), Int.natAbs_natCast]

/-- The text of the new ids is not longer. -/
theorem renumbered_ids_length {es : List CTimerEvent} {qs : List (Nat × CTimerEvent)}
    (hid : ∀ e ∈ es, e.eventID < 2 ^ 31)
    (h : List.Forall₂ Renumbered qs es) :
    (joinVec comma (int32Texts ((qs.map Prod.snd).map idOf))).length ≤
      (joinVec comma (int32Texts (es.map idOf))).length := by
  apply joinVec_length_mono
  induction h with
  | nil => exact .nil
  | @cons q e qs es hq _ ih =>
    refine .cons ?_ (ih fun e' he' => hid e' (List.mem_cons_of_mem e he'))
    have he := hid e List.mem_cons_self
    have hle := hq.le
    have hqe : q.2.eventID = q.1 := by rw [hq.eq]
    change (decInt (idOf q.2).toInt).length ≤ (decInt (idOf e).toInt).length
    rw [idOf_text he, idOf_text (by omega), hqe]
    exact decNat_length_le hle

/-! ## Save and load -/

theorem mem_timers {m : OrdMap Nat CTimerEvent} {e : CTimerEvent} :
    e ∈ m.entries.map Prod.snd ↔ ∃ id, m.find id = some e := by
  constructor
  · intro h
    obtain ⟨q, hq, rfl⟩ := List.mem_map.mp h
    exact ⟨q.1, (m.find_eq_some _ _).mpr hq⟩
  · rintro ⟨id, h⟩
    exact List.mem_map.mpr ⟨(id, e), (m.find_eq_some id e).mp h, rfl⟩

theorem Storable.ids_sorted {m : OrdMap Nat CTimerEvent} (h : Storable m) :
    ((m.entries.map Prod.snd).map CTimerEvent.eventID).Pairwise (· < ·) := by
  rw [List.map_map, List.pairwise_map]
  apply m.sorted.imp_of_mem
  intro a b ha hb hlt
  have h1 := h.ids a.1 a.2 ((m.find_eq_some _ _).mpr ha)
  have h2 := h.ids b.1 b.2 ((m.find_eq_some _ _).mpr hb)
  simp only [Function.comp_apply]
  omega

theorem Storable.ids_nodup {m : OrdMap Nat CTimerEvent} (h : Storable m) :
    ((m.entries.map Prod.snd).map idOf).Nodup :=
  Timerd.ids_nodup fun id e hf => ⟨(h.ids id e hf).1, (h.ids id e hf).2.2⟩

theorem Storable.plain_timers {m : OrdMap Nat CTimerEvent} (h : Storable m) :
    ∀ e ∈ m.entries.map Prod.snd, e.data.Plain := by
  intro e he
  obtain ⟨id, hf⟩ := mem_timers.mp he
  exact h.plain id e hf

/-- The text that lists the ids of a map. -/
def idsText (m : OrdMap Nat CTimerEvent) : Str :=
  joinVec comma (int32Texts ((m.entries.map Prod.snd).map idOf))

/-- A save returns if the list of the ids is not too long. -/
theorem Storable.saves {w : World} (h : Storable w.events)
    (hlen : (idsText w.events).length < 65536) :
    ∃ w', w.saveEventsToConfig = some w' := by
  obtain ⟨text, ht⟩ := (timerText_holds w.toSafety h.plain_timers h.ids_nodup).2 hlen
  exact ⟨_, by rw [World.saveEventsToConfig, ht]⟩

theorem load_fresh {w : World} (hempty : w.events = .empty) (hid : w.eventID = 0)
    {es : List CTimerEvent}
    (hes : readTimers w.file.text = some es) (now : Int) :
    ∃ w' : World, w.loadEventsFromConfig now = w'.saveEventsToConfig ∧
      w'.events.entries =
        numbered 0 ((World.tagged w.file.tags w.nextTag es).filterMap (World.kept now)) := by
  have hkeys : ∀ i ∈ w.events.keys, i ≤ w.eventID := by
    intro i hi
    rw [hempty] at hi
    cases hi
  have hent := foldl_loadEvent now (World.tagged w.file.tags w.nextTag es) w hkeys
  rw [World.loadEventsFromConfig, hes]
  refine ⟨_, rfl, ?_⟩
  have hentries := hent.entries
  rw [hempty, hid] at hentries
  exact hentries

/-- The texts fit their arrays again. -/
theorem readBackData_inside {data : EventData} (h : data.Fits) :
    (readBackData data).overruns = false := by
  cases data with
  | remind s | execPlugin s =>
    have hcut : (cut s).length ≤ s.length := (List.takeWhile_prefix _).length_le
    have hstring : (cString (cut s)).length ≤ (cut s).length := (List.takeWhile_prefix _).length_le
    exact decide_eq_false (Nat.not_le.mpr ((hstring.trans hcut).trans_lt h.2))
  | _ => rfl

/-- What a fresh manager does with a saved file. -/
theorem load_saved {w w1 : World} (hw : Storable w.events) (h : w.saveEventsToConfig = some w1)
    (b : Bool)
    (now : Int) :
    (65536 ≤ (idsText w.events).length ∧ (w1.fresh b).loadEventsFromConfig now = none) ∨
    ((idsText w.events).length < 65536 ∧ ∃ w' : World,
      (w1.fresh b).loadEventsFromConfig now = w'.saveEventsToConfig ∧
      w'.events.entries =
        numbered 0 (((w.events.entries.map Prod.snd).map restored).filterMap (World.kept now))) := by
  obtain ⟨text, ht, heq⟩ := save_eq h
  obtain ⟨htimers, _, hids⟩ := reload_spec hw.plain_timers hw.ids_nodup ht
  have htext : (w1.fresh b).file.text = some text := by rw [heq]; rfl
  have htags : (w1.fresh b).file.tags = (w.events.entries.map Prod.snd).map CTimerEvent.tag := by
    rw [heq, List.map_map]
    rfl
  have hread := readTimers_eq (w1.fresh b).file.text
  have hinside : (((w.events.entries.map Prod.snd).map readBack).any (·.data.overruns)) = false := by
    rw [List.any_map, List.any_eq_false]
    intro e he
    obtain ⟨id, hf⟩ := mem_timers.mp he
    exact Bool.eq_false_iff.mp (readBackData_inside (hw.fits id e hf))
  simp only [htext, hids, htimers, hinside, and_true] at hread
  rw [← idsText, ← htext] at hread
  by_cases hlen : (idsText w.events).length < 65536
  · rw [if_pos hlen] at hread
    obtain ⟨w', hload, hentries⟩ := load_fresh rfl rfl hread now
    rw [htags, tagged_saved] at hentries
    exact Or.inr ⟨hlen, w', hload, hentries⟩
  · rw [if_neg hlen] at hread
    exact Or.inl ⟨Nat.le_of_not_lt hlen, by rw [World.loadEventsFromConfig, hread]⟩

section
variable {w : World} {now : Int} {b : Bool}

theorem numbered_saved_eq (hw : Storable w.events)
    (hnow : ∀ id e, w.events.find id = some e → now ≤ e.alarmTime) :
    numbered 0 (((w.events.entries.map Prod.snd).map restored).filterMap (World.kept now)) =
        renumbered 0 (w.events.entries.map Prod.snd) ↔
      ∀ id e, w.events.find id = some e → Unchanged e := by
  have hfits : ∀ e ∈ w.events.entries.map Prod.snd, e.data.Fits := by
    intro e he
    obtain ⟨id, hf⟩ := mem_timers.mp he
    exact hw.fits id e hf
  have hlater : ∀ e ∈ w.events.entries.map Prod.snd, now ≤ e.alarmTime := by
    intro e he
    obtain ⟨id, hf⟩ := mem_timers.mp he
    exact hnow id e hf
  rw [numbered_restored_eq 0 hfits hlater]
  constructor
  · exact fun h id e hf => h e (mem_timers.mpr ⟨id, hf⟩)
  · intro h e he
    obtain ⟨id, hf⟩ := mem_timers.mp he
    exact h id e hf

theorem RoundTrips.unchanged (hw : Storable w.events)
    (hnow : ∀ id e, w.events.find id = some e → now ≤ e.alarmTime) (h : RoundTrips w b now) :
    (∀ id e, w.events.find id = some e → Unchanged e) ∧ (idsText w.events).length < 65536 := by
  obtain ⟨w1, w2, hsave, hload, hentries⟩ := h
  cases load_saved hw hsave b now with
  | inl hlong =>
    rw [hlong.2] at hload
    cases hload
  | inr hshort =>
    obtain ⟨hlen, w', heq, hnumbered⟩ := hshort
    obtain ⟨_, _, rfl⟩ := save_eq (heq ▸ hload)
    exact ⟨(numbered_saved_eq hw hnow).mp (hnumbered.symm.trans hentries), hlen⟩

/-- A map under new ids can be stored again, and its ids take no more room. -/
theorem Storable.renumbered {m m' : OrdMap Nat CTimerEvent} (hm : Storable m)
    (h : m'.entries = Timerd.renumbered 0 (m.entries.map Prod.snd)) :
    Storable m' ∧ (idsText m').length ≤ (idsText m).length := by
  have hlt : ∀ e ∈ m.entries.map Prod.snd, 0 < e.eventID ∧ e.eventID < 2 ^ 31 := by
    intro e he
    obtain ⟨id, hf⟩ := mem_timers.mp he
    have := hm.ids id e hf
    omega
  have hrel := renumbered_rel 0 hm.ids_sorted fun e he => (hlt e he).1
  have hold (id : Nat) (x : CTimerEvent) (hf : m'.find id = some x) :
      0 < id ∧ ∃ id' e, m.find id' = some e ∧ id ≤ e.eventID ∧ x = { e with eventID := id } := by
    rw [m'.find_eq_some, h] at hf
    obtain ⟨e, he, hr⟩ := forall₂_mem hrel hf
    obtain ⟨id', hf'⟩ := mem_timers.mp he
    exact ⟨hr.pos, id', e, hf', hr.le, hr.eq⟩
  refine ⟨⟨?_, ?_, ?_⟩, ?_⟩
  · intro id x hf
    obtain ⟨hpos, id', e, hf', hle, rfl⟩ := hold id x hf
    have := hm.ids id' e hf'
    exact ⟨rfl, hpos, by omega⟩
  · intro id x hf
    obtain ⟨_, id', e, hf', _, rfl⟩ := hold id x hf
    exact hm.plain id' e hf'
  · intro id x hf
    obtain ⟨_, id', e, hf', _, rfl⟩ := hold id x hf
    exact hm.fits id' e hf'
  · rw [idsText, idsText, h]
    exact renumbered_ids_length (fun e he => (hlt e he).2) hrel

/-- **Save and load.** A fresh manager has all timers again, numbered from one
in their old order and else as they were, exactly if every timer is `Unchanged`
and the list of the ids is short enough for its 16-bit index. -/
theorem timer_round_trip (hw : Storable w.events)
    (hnow : ∀ id e, w.events.find id = some e → now ≤ e.alarmTime) :
    RoundTrips w b now ↔
      (∀ id e, w.events.find id = some e → Unchanged e) ∧ (idsText w.events).length < 65536 := by
  refine ⟨fun h => h.unchanged hw hnow, fun h => ?_⟩
  obtain ⟨hsame, hlen⟩ := h
  obtain ⟨w1, hsave⟩ := hw.saves hlen
  cases load_saved hw hsave b now with
  | inl hlong => omega
  | inr hshort =>
    obtain ⟨_, w', hload, hnumbered⟩ := hshort
    have hentries := hnumbered.trans ((numbered_saved_eq hw hnow).mpr hsame)
    -- the load ends with a save of the new map
    obtain ⟨hw', hle⟩ := hw.renumbered hentries
    obtain ⟨w2, hsave'⟩ := hw'.saves (Nat.lt_of_le_of_lt hle hlen)
    refine ⟨w1, w2, hsave, hload.trans hsave', ?_⟩
    obtain ⟨_, _, rfl⟩ := save_eq hsave'
    exact hentries

end

/-- A daily recording that was made for the programme it names. -/
def titledRecord (title : String) : CTimerEvent where
  tag := 0
  eventID := 3
  data := .record ⟨77, 960, 5, 1⟩ (chars "/hdd") (chars title)
  eventState := .scheduled
  previousState := .scheduled
  eventRepeat := repeatDaily
  repeatCount := 0
  alarmTime := 1000
  stopTime := 5000
  announceTime := 900

def titledWorld (title : String) : World :=
  { World.start none false with events := OrdMap.empty.set 3 (titledRecord title), eventID := 3 }

theorem titledWorld_find {title : String} {id : Nat} {e : CTimerEvent}
    (h : (titledWorld title).events.find id = some e) : id = 3 ∧ e = titledRecord title := by
  simp only [titledWorld, OrdMap.find_set, OrdMap.find_empty] at h
  split at h
  · rename_i hid
    cases h
    exact ⟨hid, rfl⟩
  · cases h

theorem titledWorld_storable (title : String) (h : newline ∉ chars title) :
    Storable (titledWorld title).events ∧
      ∀ id e, (titledWorld title).events.find id = some e → 900 ≤ e.alarmTime := by
  have hdir : newline ∉ chars "/hdd" := by decide
  refine ⟨⟨?_, ?_, ?_⟩, ?_⟩
  · intro id e hf
    obtain ⟨rfl, rfl⟩ := titledWorld_find hf
    exact ⟨rfl, by decide, by decide⟩
  · intro id e hf
    obtain ⟨rfl, rfl⟩ := titledWorld_find hf
    simp [titledRecord, EventData.Plain, EventData.texts, hdir, h]
  · intro id e hf
    obtain ⟨rfl, rfl⟩ := titledWorld_find hf
    trivial
  · intro id e hf
    obtain ⟨rfl, rfl⟩ := titledWorld_find hf
    change (900 : Int) ≤ 1000
    decide

theorem timer_round_trip_news : RoundTrips (titledWorld "News") false 900 := by
  obtain ⟨hstorable, hnow⟩ := titledWorld_storable "News" (by decide)
  apply (timer_round_trip hstorable hnow).mpr
  refine ⟨?_, by decide⟩
  intro id e hf
  obtain ⟨rfl, rfl⟩ := titledWorld_find hf
  exact ⟨by decide, by decide, by decide, by decide, by decide, by decide⟩

/-- A title with a `#` in it is cut there. -/
theorem hash_title_is_cut :
    Storable (titledWorld "News #1").events ∧
      (∀ id e, (titledWorld "News #1").events.find id = some e → 900 ≤ e.alarmTime) ∧
      ¬ RoundTrips (titledWorld "News #1") false 900 := by
  obtain ⟨hstorable, hnow⟩ := titledWorld_storable "News #1" (by decide)
  refine ⟨hstorable, hnow, fun h => ?_⟩
  have hsame := (h.unchanged hstorable hnow).1 3 (titledRecord "News #1") rfl
  exact hsame.texts (chars "News #1") (by decide) (by decide)

end Tuxbox.Timerd
