import Tuxbox.Timerd.Step

/-! The steps that go through the file: the load at the time the clock is known,
and the shutdown with the start that follows it. -/
namespace Tuxbox.Timerd
open Config

/-- The file has the entry `r` for the timer `g`. -/
def TimerFile.Has (f : TimerFile) (g : Nat) (r : CTimerEvent) : Prop :=
  ∃ i : Nat, f.tags[i]? = some g ∧ (timersIn f.text)[i]? = some r

/-! ## Saving -/

theorem idOf_inj {e e' : CTimerEvent} (h : e.eventID < 2 ^ 31) (h' : e'.eventID < 2 ^ 31)
    (heq : idOf e = idOf e') : e.eventID = e'.eventID := by
  have := congrArg Int32.toInt heq
  rw [idOf, idOf, Int32.toInt_ofNat_of_lt h, Int32.toInt_ofNat_of_lt h'] at this
  omega

theorem ids_nodup {m : OrdMap Nat CTimerEvent}
    (h : ∀ id e, m.find id = some e → e.eventID = id ∧ id < 2 ^ 31) :
    ((m.entries.map Prod.snd).map idOf).Nodup := by
  rw [List.map_map, List.Nodup, List.pairwise_map]
  apply m.sorted.imp_of_mem
  intro a b ha hb hlt heq
  have h1 := h a.1 a.2 ((m.find_eq_some _ _).mpr ha)
  have h2 := h b.1 b.2 ((m.find_eq_some _ _).mpr hb)
  have := idOf_inj (by omega) (by omega) heq
  omega

theorem WF.ids_nodup {w : World} (hw : WF w) (hid : w.eventID < 2 ^ 31) :
    ((w.events.entries.map Prod.snd).map idOf).Nodup := by
  apply Timerd.ids_nodup
  intro id e hf
  have := hw.ids id e hf
  exact ⟨this.1, by omega⟩

/-- After a save the file has the timers of the map. -/
theorem save_has {w w' : World} (hw : WF w) (hp : AllPlain w) (hid : w.eventID < 2 ^ 31)
    (h : w.saveEventsToConfig = some w') (g : Nat) (r : CTimerEvent) :
    w'.file.Has g r ↔ ∃ id e, w.events.find id = some e ∧ e.tag = g ∧ r = readBack e := by
  obtain ⟨text, ht, rfl⟩ := save_eq h
  have hplain : ∀ e ∈ w.events.entries.map Prod.snd, e.data.Plain := by
    intro e he
    obtain ⟨q, hq, rfl⟩ := List.mem_map.mp he
    exact hp q.1 q.2 ((w.events.find_eq_some _ _).mpr hq)
  obtain ⟨htimers, _, _⟩ := reload_spec hplain (hw.ids_nodup hid) ht
  simp only [TimerFile.Has, htimers, List.getElem?_map, Option.map_map]
  constructor
  · rintro ⟨i, hg, hr⟩
    obtain ⟨q, hq, rfl⟩ := Option.map_eq_some_iff.mp hg
    rw [hq] at hr
    cases hr
    exact ⟨q.1, q.2, (w.events.find_eq_some _ _).mpr (List.mem_of_getElem? hq), rfl, rfl⟩
  · rintro ⟨id, e, hf, rfl, rfl⟩
    obtain ⟨i, hi⟩ := List.mem_iff_getElem?.mp ((w.events.find_eq_some id e).mp hf)
    exact ⟨i, by rw [hi]; rfl, by rw [hi]; rfl⟩

/-! ## Loading -/

theorem loaded_newline {text : Option Str} {k v : Str}
    (h : (loadedConfig text).configData.find k = some v) : newline ∉ v := by
  cases text with
  | none => cases h
  | some s =>
    rw [loadedConfig, loadConfig_data, OrdMap.find_eq_some] at h
    exact (fileData_entry (by decide) h).2.1.2

/-- No line of a file has a line break in it. -/
theorem timersIn_plain {text : Option Str} {r : CTimerEvent} (h : r ∈ timersIn text) :
    r.data.Plain := by
  obtain ⟨id, _, hr⟩ := List.mem_filterMap.mp h
  obtain ⟨data, hd, rfl⟩ := Option.map_eq_some_iff.mp hr
  change data.Plain
  have htext (n : String) : newline ∉ ((loadedConfig text).getString (keyOf n id) []).1 := by
    rw [CConfigFile.getString, getValue_answer]
    cases hf : (loadedConfig text).configData.find (keyOf n id) with
    | none => simp [absent]
    | some v =>
      have := loaded_newline hf
      simpa [absent] using this
  have two {s t : Str} (hs : newline ∉ s) (ht : newline ∉ t) : ∀ u ∈ [s, t], newline ∉ u := by
    simp [hs, ht]
  have one {s : Str} (hs : newline ∉ s) : ∀ u ∈ [s], newline ∉ u := by simp [hs]
  have zero : ∀ u ∈ ([] : List Str), newline ∉ u := by simp
  unfold readData at hd
  simp only at hd
  split at hd
  · cases hd; exact zero
  split at hd
  · cases hd; exact zero
  split at hd
  · cases hd; exact two (htext _) (htext _)
  split at hd
  · cases hd; exact zero
  split at hd
  · cases hd; exact two (htext _) (htext _)
  split at hd
  · cases hd; exact one (cString_plain (htext _))
  split at hd
  · cases hd; exact zero
  split at hd
  · cases hd; exact one (cString_plain (htext _))
  · cases hd

/-- Events in the map with the ids from `base + 1` on. -/
def numbered : Nat → List CTimerEvent → List (Nat × CTimerEvent)
  | _, [] => []
  | base, k :: ks => (base + 1, entered (base + 1) k) :: numbered (base + 1) ks

theorem mem_numbered {base i : Nat} {ks : List CTimerEvent} {x : CTimerEvent}
    (h : (i, x) ∈ numbered base ks) :
    base < i ∧ i ≤ base + ks.length ∧ ∃ k ∈ ks, x = entered i k := by
  induction ks generalizing base with
  | nil => cases h
  | cons k ks ih =>
    cases List.mem_cons.mp h with
    | inl he =>
      cases he
      exact ⟨by omega, by rw [List.length_cons]; omega, k, List.mem_cons_self, rfl⟩
    | inr hm =>
      obtain ⟨h1, h2, k', hk', hx⟩ := ih hm
      exact ⟨by omega, by rw [List.length_cons]; omega, k', List.mem_cons_of_mem k hk', hx⟩

theorem numbered_mem {base : Nat} {ks : List CTimerEvent} {k : CTimerEvent} (h : k ∈ ks) :
    ∃ i, (i, entered i k) ∈ numbered base ks := by
  induction ks generalizing base with
  | nil => cases h
  | cons b ks ih =>
    cases List.mem_cons.mp h with
    | inl he => exact ⟨base + 1, by rw [he]; exact List.mem_cons_self⟩
    | inr hm =>
      obtain ⟨i, hi⟩ := ih hm
      exact ⟨i, List.mem_cons_of_mem _ hi⟩

theorem numbered_tags (base : Nat) (ks : List CTimerEvent) :
    (numbered base ks).map (fun q => q.2.tag) = ks.map CTimerEvent.tag := by
  induction ks generalizing base with
  | nil => rfl
  | cons k ks ih => rw [numbered, List.map_cons, ih, List.map_cons]; rfl

/-- What the loop over the entries of the file does. -/
structure Entered (w w' : World) (ks : List CTimerEvent) : Prop where
  entries : w'.events.entries = w.events.entries ++ numbered w.eventID ks
  eventID : w'.eventID = w.eventID + ks.length
  rest : w' = { w with
    events := w'.events, eventID := w'.eventID
    log := w.log ++ ks.map fun k => ⟨k.tag, .loaded k⟩ }

theorem loadEvent_none {now : Int} {e : CTimerEvent} (w : World) (h : World.kept now e = none) :
    World.loadEvent now w e = w := by
  simp [World.loadEvent, h]

theorem loadEvent_some {now : Int} {e k : CTimerEvent} (w : World) (h : World.kept now e = some k) :
    World.loadEvent now w e = { w with
      events := w.events.set (w.eventID + 1) (entered (w.eventID + 1) k), eventID := w.eventID + 1
      log := w.log ++ [⟨k.tag, .loaded k⟩] } := by
  simp [World.loadEvent, h, CTimerManager.addEvent, entered]

theorem foldl_loadEvent (now : Int) (ts : List CTimerEvent) (w : World)
    (hids : ∀ i ∈ w.events.keys, i ≤ w.eventID) :
    Entered w (ts.foldl (World.loadEvent now) w) (ts.filterMap (World.kept now)) := by
  induction ts generalizing w with
  | nil => exact ⟨by simp [numbered], by simp, by simp⟩
  | cons t ts ih =>
    rw [List.foldl_cons, List.filterMap_cons]
    cases hk : World.kept now t with
    | none =>
      rw [loadEvent_none w hk]
      exact ih w hids
    | some k =>
      rw [loadEvent_some w hk]
      have hlast :=
        w.events.set_last (entered (w.eventID + 1) k) fun i hi => Nat.lt_succ_of_le (hids i hi)
      generalize hw1 : ({ w with
        events := w.events.set (w.eventID + 1) (entered (w.eventID + 1) k), eventID := w.eventID + 1
        log := w.log ++ [⟨k.tag, .loaded k⟩] } : World) = w1
      have hentries :
        w1.events.entries = w.events.entries ++ [(w.eventID + 1, entered (w.eventID + 1) k)] := by
        rw [← hw1]
        exact hlast
      have heid : w1.eventID = w.eventID + 1 := by rw [← hw1]
      have hids1 : ∀ i ∈ w1.events.keys, i ≤ w1.eventID := by
        intro i hi
        rw [OrdMap.keys, hentries, List.map_append, List.mem_append] at hi
        rw [heid]
        cases hi with
        | inl hi => exact Nat.le_succ_of_le (hids i hi)
        | inr hi => simp at hi; omega
      obtain ⟨h1, h2, h3⟩ := ih w1 hids1
      refine ⟨?_, ?_, ?_⟩
      · rw [h1, hentries, heid]
        simp [numbered]
      · rw [h2, heid, List.length_cons]
        omega
      · rw [h3, ← hw1]
        simp

/-- The timers of the file that a load takes over. -/
def arrivals (w : World) (now : Int) : List CTimerEvent :=
  (World.tagged w.file.tags w.nextTag (timersIn w.file.text)).filterMap (World.kept now)

/-- What a load keeps of an entry. -/
theorem kept_spec {now : Int} {e k : CTimerEvent} (h : World.kept now e = some k) :
    k = { e with eventState := k.eventState } ∧
      (k.eventState = e.eventState ∨
        (k.eventState = .hasFinished ∧ e.alarmTime < now ∧ e.stopTime ≤ now ∧
          e.eventRepeat ≠ repeatOnce)) := by
  unfold World.kept at h
  split at h
  · cases h
    exact ⟨rfl, Or.inl rfl⟩
  · rename_i hold
    split at h
    · rename_i hr
      cases h
      exact ⟨rfl, Or.inr ⟨rfl, by omega, by omega, hr⟩⟩
    · cases h

/-- An arrival is a timer the file has, or one nobody knows. -/
theorem mem_arrivals {w : World} {now : Int} {k : CTimerEvent} (h : k ∈ arrivals w now) :
    ∃ r ∈ timersIn w.file.text, World.kept now { r with tag := k.tag } = some k ∧
      (w.file.Has k.tag r ∨
        (w.nextTag ≤ k.tag ∧ k.tag < w.nextTag + (timersIn w.file.text).length)) := by
  obtain ⟨t, ht, hk⟩ := List.mem_filterMap.mp h
  obtain ⟨i, hi⟩ := List.mem_iff_getElem?.mp ht
  rw [World.tagged, List.getElem?_mapIdx] at hi
  obtain ⟨r, hr, rfl⟩ := Option.map_eq_some_iff.mp hi
  have htag : k.tag = w.file.tags[i]?.getD (w.nextTag + i) := by rw [(kept_spec hk).1]
  refine ⟨r, List.mem_of_getElem? hr, by rw [htag]; exact hk, ?_⟩
  cases hg : w.file.tags[i]? with
  | some g =>
    left
    refine ⟨i, ?_, hr⟩
    rw [hg, htag, hg]
    rfl
  | none =>
    right
    have hlt : i < (timersIn w.file.text).length := (List.getElem?_eq_some_iff.mp hr).1
    rw [htag, hg, Option.getD_none]
    omega

theorem arrivals_mem {w : World} {now : Int} {g : Nat} {r k : CTimerEvent} (hr : w.file.Has g r)
    (hk : World.kept now { r with tag := g } = some k) : k ∈ arrivals w now := by
  obtain ⟨i, hg, hr⟩ := hr
  apply List.mem_filterMap.mpr
  refine ⟨{ r with tag := g }, ?_, hk⟩
  apply List.mem_of_getElem? (i := i)
  rw [World.tagged, List.getElem?_mapIdx, hr, hg]
  rfl

theorem tagged_nodup {tags : List Nat} {next : Nat} (hn : tags.Nodup) (hlt : ∀ g ∈ tags, g < next)
    (es : List CTimerEvent) : ((World.tagged tags next es).map CTimerEvent.tag).Nodup := by
  rw [List.nodup_iff_getElem?_ne_getElem?]
  intro i j hij hj
  have hes : j < es.length := by simpa [World.tagged] using hj
  have at' (l : Nat) (hl : l < es.length) : ((World.tagged tags next es).map CTimerEvent.tag)[l]? =
      some (tags[l]?.getD (next + l)) := by
    rw [List.getElem?_map, World.tagged, List.getElem?_mapIdx, List.getElem?_eq_getElem hl]
    rfl
  rw [at' i (by omega), at' j hes, Ne, Option.some.injEq]
  cases hi : tags[i]? with
  | none =>
    cases hj : tags[j]? with
    | none => simp only [Option.getD_none]; omega
    | some b =>
      have := hlt b (List.mem_of_getElem? hj)
      simp only [Option.getD_none, Option.getD_some]
      omega
  | some a =>
    cases hj' : tags[j]? with
    | none =>
      have := hlt a (List.mem_of_getElem? hi)
      simp only [Option.getD_none, Option.getD_some]
      omega
    | some b =>
      have hjt : j < tags.length := (List.getElem?_eq_some_iff.mp hj').1
      have := (List.nodup_iff_getElem?_ne_getElem?.mp hn) i j hij hjt
      rw [hi, hj', Ne, Option.some.injEq] at this
      exact this

theorem kept_tags (now : Int) (ts : List CTimerEvent) :
    ((ts.filterMap (World.kept now)).map CTimerEvent.tag).Sublist (ts.map CTimerEvent.tag) := by
  induction ts with
  | nil => exact List.Sublist.slnil
  | cons t ts ih =>
    rw [List.filterMap_cons, List.map_cons]
    cases hk : World.kept now t with
    | none => exact ih.cons _
    | some k =>
      have htag : k.tag = t.tag := by rw [(kept_spec hk).1]
      rw [List.map_cons, htag]
      exact ih.cons_cons _

theorem arrivals_nodup {w : World} (hw : WF w) (now : Int) :
    ((arrivals w now).map CTimerEvent.tag).Nodup :=
  (tagged_nodup hw.fileTags.1 hw.fileTags.2 (timersIn w.file.text)).sublist (kept_tags now _)

/-- A timer arrives at most once. -/
theorem kindsOf_arrivals {w : World} (hw : WF w) {now : Int} {k : CTimerEvent}
    (hk : k ∈ arrivals w now) :
    kindsOf ((arrivals w now).map fun k => ⟨k.tag, .loaded k⟩) k.tag = [.loaded k] := by
  have hn := arrivals_nodup hw now
  generalize arrivals w now = ks at hk hn
  induction ks with
  | nil => cases hk
  | cons b ks ih =>
    rw [List.map_cons, List.nodup_cons] at hn
    rw [List.map_cons, ← List.singleton_append, kindsOf_append]
    cases List.mem_cons.mp hk with
    | inl he =>
      subst he
      have hrest : kindsOf (ks.map fun k => ⟨k.tag, .loaded k⟩) k.tag = [] := by
        apply kindsOf_eq_nil
        intro n hmem htag
        obtain ⟨c, hc, rfl⟩ := List.mem_map.mp hmem
        exact hn.1 (htag ▸ List.mem_map_of_mem hc)
      rw [hrest]
      exact congrArg (· ++ []) (kindsOf_own k.tag [.loaded k])
    | inr hm =>
      have hne : b.tag ≠ k.tag := fun he => hn.1 (he ▸ List.mem_map_of_mem hm)
      rw [ih hm hn.2]
      exact congrArg (· ++ [Kind.loaded k]) (kindsOf_other hne [.loaded b])

/-- The state after a load. -/
structure Loaded (now : Int) (w w' : World) : Prop where
  find : ∀ i x, w'.events.find i = some x ↔
    w.events.find i = some x ∨ (i, x) ∈ numbered w.eventID (arrivals w now)
  log : w'.log = w.log ++ (arrivals w now).map fun k => ⟨k.tag, .loaded k⟩
  loads : w'.loads = w.loads ++ [now]
  nextTag : w'.nextTag = w.nextTag + (timersIn w.file.text).length
  isTimeSet : w'.isTimeSet = true
  saveEvents : w'.saveEvents = false
  wf : WF w'
  plain : AllPlain w → AllPlain w'
  has : AllPlain w → w'.eventID < 2 ^ 31 → ∀ g r, w'.file.Has g r ↔
    ∃ id e, w'.events.find id = some e ∧ e.tag = g ∧ r = readBack e

theorem Entered.find {w w' : World} {ks : List CTimerEvent} (h : Entered w w' ks) (i : Nat)
    (x : CTimerEvent) :
    w'.events.find i = some x ↔ w.events.find i = some x ∨ (i, x) ∈ numbered w.eventID ks := by
  rw [OrdMap.find_eq_some, OrdMap.find_eq_some, h.entries, List.mem_append]

/-- An arrival is in no map yet, and its tag is known from now on. -/
theorem arrival_tag {w : World} (hw : WF w) (hset : w.isTimeSet = false) {now : Int} {k : CTimerEvent}
    (hk : k ∈ arrivals w now) :
    k.tag < w.nextTag + (timersIn w.file.text).length ∧
      ∀ i x, w.events.find i = some x → x.tag ≠ k.tag := by
  obtain ⟨r, _, _, hor⟩ := mem_arrivals hk
  cases hor with
  | inl hhas =>
    obtain ⟨j, hg, _⟩ := hhas
    have hmem := List.mem_of_getElem? hg
    exact ⟨Nat.lt_add_right _ (hw.fileTags.2 _ hmem), fun i x hx => hw.waiting hset _ hmem i x hx⟩
  | inr hfresh =>
    refine ⟨hfresh.2, fun i x hx he => ?_⟩
    have := hw.tags i x hx
    omega

theorem Entered.wf {w w1 : World} {now : Int} (hw : WF w) (hset : w.isTimeSet = false)
    (h : Entered { w with isTimeSet := true } w1 (arrivals w now)) (loads : List Int) :
    WF { w1 with loads := loads, nextTag := w.nextTag + (timersIn w.file.text).length } := by
  have hrest := h.rest
  have hnum {i : Nat} {x : CTimerEvent} (hx : (i, x) ∈ numbered w.eventID (arrivals w now)) :
      w.eventID < i ∧ i ≤ w.eventID + (arrivals w now).length ∧
        ∃ k ∈ arrivals w now, x = entered i k :=
    mem_numbered hx
  constructor
  · intro i x hx
    change x.eventID = i ∧ 0 < i ∧ i ≤ w1.eventID
    rw [h.eventID]
    cases (h.find i x).mp hx with
    | inl hold =>
      obtain ⟨h1, h2, h3⟩ := hw.ids i x hold
      exact ⟨h1, h2, Nat.le_add_right_of_le h3⟩
    | inr hnew =>
      obtain ⟨h1, h2, k, _, rfl⟩ := hnum hnew
      exact ⟨rfl, by omega, h2⟩
  · -- the tags of the whole map are distinct
    have hnodup : (w1.events.entries.map fun q => q.2.tag).Nodup := by
      rw [h.entries, List.map_append, numbered_tags]
      refine List.Nodup.append hw.tags_nodup (arrivals_nodup hw now) ?_
      intro g hg hg'
      obtain ⟨q, hq, rfl⟩ := List.mem_map.mp hg
      obtain ⟨k, hk, hkt⟩ := List.mem_map.mp hg'
      exact (arrival_tag hw hset hk).2 q.1 q.2 ((w.events.find_eq_some _ _).mpr hq) hkt.symm
    intro i x j y hx hy ht
    have := List.inj_on_of_nodup_map hnodup ((w1.events.find_eq_some _ _).mp hx)
      ((w1.events.find_eq_some _ _).mp hy) ht
    exact congrArg Prod.fst this
  · intro i x hx
    change x.tag < w.nextTag + _
    cases (h.find i x).mp hx with
    | inl hold => exact Nat.lt_add_right _ (hw.tags i x hold)
    | inr hnew =>
      obtain ⟨_, _, k, hk, rfl⟩ := hnum hnew
      exact (arrival_tag hw hset hk).1
  · intro n hn
    change n.tag < w.nextTag + _
    change n ∈ w1.log at hn
    rw [hrest] at hn
    cases List.mem_append.mp hn with
    | inl hn => exact Nat.lt_add_right _ (hw.logged n hn)
    | inr hn =>
      obtain ⟨k, hk, rfl⟩ := List.mem_map.mp hn
      exact (arrival_tag hw hset hk).1
  · change w1.file.tags.Nodup ∧ ∀ g ∈ w1.file.tags, g < w.nextTag + _
    rw [hrest]
    exact ⟨hw.fileTags.1, fun g hg => Nat.lt_add_right _ (hw.fileTags.2 g hg)⟩
  · intro hn
    change w1.isTimeSet = false at hn
    rw [hrest] at hn
    cases hn

theorem timeSet_loaded {w w' : World} {now : Int} (hw : WF w) (hset : w.isTimeSet = false)
    (h : { w with isTimeSet := true }.loadEventsFromConfig now = some w') : Loaded now w w' := by
  unfold World.loadEventsFromConfig at h
  have hread := readTimers_eq w.file.text
  cases hes : readTimers w.file.text with
  | none => simp [hes] at h
  | some es =>
    have hes' : es = timersIn w.file.text := by
      rw [hes] at hread
      split at hread
      · exact Option.some.inj hread
      · cases hread
    subst hes'
    simp only [hes] at h
    have hkeys : ∀ i ∈ w.events.keys, i ≤ w.eventID := by
      intro i hi
      obtain ⟨q, hq, rfl⟩ := List.mem_map.mp hi
      exact (hw.ids q.1 q.2 ((w.events.find_eq_some _ _).mpr hq)).2.2
    have hent : Entered { w with isTimeSet := true } _ (arrivals w now) :=
      foldl_loadEvent now (World.tagged w.file.tags w.nextTag (timersIn w.file.text))
        { w with isTimeSet := true } hkeys
    generalize (World.tagged w.file.tags w.nextTag (timersIn w.file.text)).foldl (World.loadEvent now)
      { w with isTimeSet := true } = w1 at h hent
    have hwf := hent.wf hw hset (w.loads ++ [now])
    have hset1 : w1.isTimeSet = true := by rw [hent.rest]
    have hplain : AllPlain w → ∀ i x, w1.events.find i = some x → x.data.Plain := by
      intro hp i x hx
      cases (hent.find i x).mp hx with
      | inl hold => exact hp i x hold
      | inr hnew =>
        obtain ⟨_, _, k, hk, rfl⟩ := mem_numbered hnew
        obtain ⟨r, hr, hkept, _⟩ := mem_arrivals hk
        have hdata : k.data = r.data := by rw [(kept_spec hkept).1]
        change k.data.Plain
        rw [hdata]
        exact timersIn_plain hr
    obtain ⟨text, htext, heq⟩ := save_eq h
    subst heq
    refine ⟨hent.find, ?_, rfl, rfl, hset1, rfl, hwf.saved hset1 h, fun hp => hplain hp, ?_⟩
    · change w1.log = _
      rw [hent.rest]
    · intro hp hid g r
      exact save_has hwf (hplain hp) hid h g r

/-- An event of a timer that was known before the load is the old one or comes
from the file. -/
theorem Loaded.known {w w' : World} {now : Int} (h : Loaded now w w') {i : Nat} {x : CTimerEvent}
    (hx : w'.events.find i = some x) (hg : x.tag < w.nextTag) :
    w.events.find i = some x ∨
      ∃ r k, w.file.Has x.tag r ∧ World.kept now { r with tag := x.tag } = some k ∧
        x = entered i k := by
  cases (h.find i x).mp hx with
  | inl hold => exact Or.inl hold
  | inr hnew =>
    obtain ⟨_, _, k, hk, rfl⟩ := mem_numbered hnew
    obtain ⟨r, _, hkept, hor⟩ := mem_arrivals hk
    cases hor with
    | inl hhas => exact Or.inr ⟨r, k, hhas, hkept, rfl⟩
    | inr hfresh =>
      change k.tag < w.nextTag at hg
      omega

theorem Loaded.kindsOf_other {w w' : World} {now : Int} (h : Loaded now w w') {g : Nat}
    (hg : ∀ k ∈ arrivals w now, k.tag ≠ g) : kindsOf w'.log g = kindsOf w.log g := by
  have hnil : kindsOf ((arrivals w now).map fun k => ⟨k.tag, .loaded k⟩) g = [] := by
    apply kindsOf_eq_nil
    intro n hn
    obtain ⟨k, hk, rfl⟩ := List.mem_map.mp hn
    exact hg k hk
  rw [h.log, kindsOf_append, hnil, List.append_nil]

/-! ## Shutdown and start -/

/-- The state of the daemon that is started after a shutdown. -/
structure Restarted (w w' : World) : Prop where
  events : w'.events = .empty
  eventID : w'.eventID = 0
  log : w'.log = w.log
  loads : w'.loads = w.loads
  nextTag : w'.nextTag = w.nextTag
  isTimeSet : w'.isTimeSet = false
  saveEvents : w'.saveEvents = false
  untouched : w.saveEvents = false → w'.file = w.file
  tags : w.saveEvents = true → w'.file.tags = w.events.entries.map fun q => q.2.tag
  has : w.saveEvents = true → AllPlain w → w.eventID < 2 ^ 31 → ∀ g r, w'.file.Has g r ↔
    ∃ id e, w.events.find id = some e ∧ e.tag = g ∧ r = readBack e

theorem shutdown_restarted {w w' : World} (hw : WF w) {b : Bool} (h : w.shutdown b = some w') :
    Restarted w w' := by
  unfold World.shutdown at h
  cases hf : w.flush with
  | none => simp [hf] at h
  | some w1 =>
    simp only [hf, Option.some.injEq] at h
    subst h
    unfold World.flush at hf
    split at hf
    · rename_i hs
      have hf' := hf
      obtain ⟨text, _, rfl⟩ := save_eq hf
      refine ⟨rfl, rfl, rfl, rfl, rfl, rfl, rfl, fun hn => ?_, fun _ => rfl, fun _ hp hid g r => ?_⟩
      · rw [hs] at hn
        cases hn
      · exact save_has hw hp hid hf' g r
    · rename_i hs
      cases hf
      exact ⟨rfl, rfl, rfl, rfl, rfl, rfl, rfl, fun _ => rfl, fun hn => absurd hn hs,
        fun hn => absurd hn hs⟩

theorem Restarted.wf {w w' : World} (hw : WF w) (h : Restarted w w') : WF w' := by
  have hnone {i : Nat} {x : CTimerEvent} (hx : w'.events.find i = some x) : False := by
    rw [h.events] at hx
    cases hx
  refine ⟨fun i x hx => (hnone hx).elim, fun i x j y hx => (hnone hx).elim,
    fun i x hx => (hnone hx).elim,
    by rw [h.log, h.nextTag]; exact hw.logged, ?_, fun _ g _ i x hx => (hnone hx).elim⟩
  rw [h.nextTag]
  cases hs : w.saveEvents with
  | false => rw [h.untouched hs]; exact hw.fileTags
  | true =>
    rw [h.tags hs]
    refine ⟨hw.tags_nodup, fun g hg => ?_⟩
    obtain ⟨q, hq, rfl⟩ := List.mem_map.mp hg
    exact hw.tags q.1 q.2 ((w.events.find_eq_some _ _).mpr hq)

theorem Restarted.allPlain {w w' : World} (h : Restarted w w') : AllPlain w' := by
  intro i x hx
  rw [h.events] at hx
  cases hx

theorem start_wf (text : Option Str) (b : Bool) : WF (World.start text b) := by
  have hnone {i : Nat} {x : CTimerEvent} (hx : (World.start text b).events.find i = some x) :
    False := by
    cases hx
  refine ⟨fun i x hx => (hnone hx).elim, fun i x j y hx => (hnone hx).elim,
    fun i x hx => (hnone hx).elim,
    ?_, ⟨List.nodup_range, ?_⟩, fun _ g _ i x hx => (hnone hx).elim⟩
  · intro n hn
    cases hn
  · exact fun g hg => List.mem_range.mp hg

/-! ## All steps -/

/-- What every reachable state has. -/
structure Sound (w : World) : Prop where
  wf : WF w
  counter : w.eventID < 2 ^ 31

theorem start_sound (text : Option Str) (b : Bool) : Sound (World.start text b) :=
  ⟨start_wf text b, by change 0 < 2 ^ 31; decide⟩

section
variable {lc : LibC} {p : Permit} {w w' : World} {a : Act}

theorem step_cases (hw : WF w) (hp : p.Allows w a) (h : step lc w a = some w') :
    Small lc p a.Plain w w' ∨
    (∃ env, a = .timeSet env ∧ w.isTimeSet = false ∧ Loaded env.now w w') ∨
    (∃ b, a = .shutdown b ∧ Restarted w w') := by
  obtain ⟨hact, hid⟩ := Option.filter_eq_some_iff.mp h
  have hid := of_decide_eq_true hid
  cases a with
  | timeSet env =>
    simp only [act] at hact
    split at hact
    · cases hact
    · rename_i hset
      have hset : w.isTimeSet = false := by simpa using hset
      exact Or.inr (Or.inl ⟨env, rfl, hset, timeSet_loaded hw hset hact⟩)
  | shutdown b => exact Or.inr (Or.inr ⟨b, rfl, shutdown_restarted hw hact⟩)
  | _ =>
    refine Or.inl (act_small hw hp ?_ ?_ hact hid)
    · intro env he
      cases he
    · intro b he
      cases he

theorem any_allows (w : World) (a : Act) : Permit.any.Allows w a := by
  unfold Permit.Allows
  split <;> simp [Permit.any]

theorem step_sound (hw : Sound w) (h : step lc w a = some w') : Sound w' := by
  have hid := of_decide_eq_true (Option.filter_eq_some_iff.mp h).2
  refine ⟨?_, hid⟩
  cases step_cases hw.wf (any_allows w a) h with
  | inl hs => exact hs.wf hw.wf
  | inr hs =>
    cases hs with
    | inl hl => obtain ⟨_, _, _, hl⟩ := hl; exact hl.wf
    | inr hr => obtain ⟨_, _, hr⟩ := hr; exact hr.wf hw.wf

/-- What is kept by small steps, by the load and by the shutdown is kept by
every step. -/
theorem step_keeps {I : World → Prop} (hw : Sound w) (hp : p.Allows w a)
    (small : ∀ w w', WF w → I w → Micro lc p a.Plain w w' → I w')
    (load : ∀ env, a = .timeSet env → w.isTimeSet = false → Loaded env.now w w' → I w')
    (restart : ∀ b, a = .shutdown b → Restarted w w' → I w') (hI : I w) (h : step lc w a = some w') :
    I w' := by
  cases step_cases hw.wf hp h with
  | inl hs => exact hs.keeps small hw.wf hI
  | inr hs =>
    cases hs with
    | inl hl => obtain ⟨env, he, hset, hl⟩ := hl; exact load env he hset hl
    | inr hr => obtain ⟨b, he, hr⟩ := hr; exact restart b he hr

end

end Tuxbox.Timerd
