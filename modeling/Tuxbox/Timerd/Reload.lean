import Tuxbox.Timerd.EventConfig

/-! What comes back of the timers after they were saved. Numbers of their own
width do; a text is cut at the first `#`, and times are reduced to 32 bits. -/
namespace Tuxbox.Timerd
open Config

/-! ## Keys -/

theorem decInt_inj {a b : Int} (h : decInt a = decInt b) : a = b := by
  rw [← readInt_decInt a, h, readInt_decInt b]

def underscore : Byte := 95

/-- The names of the fields. -/
def fieldNames : List String :=
  ["EVENT_TYPE_", "EVENT_STATE_", "PREVIOUS_STATE_", "EVENT_REPEAT_", "ANNOUNCE_TIME_", "ALARM_TIME_",
    "STOP_TIME_", "REPEAT_COUNT_", "EVENT_INFO_EPG_ID_", "EVENT_INFO_EPG_STARTTIME_",
    "EVENT_INFO_CHANNEL_ID_", "EVENT_INFO_APIDS_", "REC_DIR_", "EPG_TITLE_", "STANDBY_ON_",
      "MESSAGE_",
    "NAME_"]

theorem fields_names (e : CTimerEvent) : ((fields e).map Prod.fst).Sublist fieldNames := by
  rw [← List.isSublist_iff_sublist]
  unfold fields
  cases e.data <;> rfl

theorem fields_name {e : CTimerEvent} {f : String × Answer} (h : f ∈ fields e) : f.1 ∈ fieldNames :=
  (fields_names e).subset (List.mem_map_of_mem h)

theorem fields_names_nodup (e : CTimerEvent) : (((fields e).map Prod.fst).map chars).Nodup := by
  have hall : (fieldNames.map chars).Nodup := by decide
  exact hall.sublist ((fields_names e).map chars)

theorem underscore_notMem_decInt (z : Int) : underscore ∉ decInt z := by
  intro h
  cases mem_decInt h with
  | inl hd => exact absurd hd (by decide)
  | inr hm => exact absurd hm (by decide)

theorem name_ends {n : String} (h : n ∈ fieldNames) : ∃ s, chars n = s ++ [underscore] := by
  have hl : ∀ n ∈ fieldNames, (chars n).getLast? = some underscore := by decide
  exact List.getLast?_eq_some_iff.mp (hl n h)

/-- The id in a key is what stands after the last underscore. -/
theorem keyOf_id {n : String} (h : n ∈ fieldNames) (id : Int32) :
    ((keyOf n id).reverse.takeWhile (· ≠ underscore)).reverse = decInt id.toInt := by
  obtain ⟨s, hs⟩ := name_ends h
  have hdigits : ∀ c ∈ (decInt id.toInt).reverse, decide (c ≠ underscore) = true := by
    intro c hc
    rw [List.mem_reverse] at hc
    exact decide_eq_true fun he => underscore_notMem_decInt id.toInt (he ▸ hc)
  rw [keyOf, hs, List.reverse_append, List.takeWhile_append_of_pos hdigits]
  simp

theorem keyOf_inj {n n' : String} (h : n ∈ fieldNames) (h' : n' ∈ fieldNames) {id id' : Int32}
    (he : keyOf n id = keyOf n' id') : id = id' := by
  have := keyOf_id h id
  rw [he, keyOf_id h' id'] at this
  exact (Int32.toInt_inj.mp (decInt_inj this)).symm

theorem decInt_last (z : Int) : ∃ s c, decInt z = s ++ [c] ∧ isDigit c = true := by
  unfold decInt
  split
  · exact ⟨minus :: (if z.natAbs < 10 then [] else decNat (z.natAbs / 10)), _,
      congrArg (minus :: ·) (decNat_eq z.natAbs), isDigit_digit z.natAbs⟩
  · exact ⟨_, _, decNat_eq z.natAbs, isDigit_digit z.natAbs⟩

/-- A key that does not end with a digit is no key of an event. -/
theorem keyOf_ne {n : String} {id : Int32} {k : Str} (hk : k.getLast?.any isDigit = false) :
    keyOf n id ≠ k := by
  rintro rfl
  obtain ⟨s, c, hs, hc⟩ := decInt_last id.toInt
  simp [keyOf, hs, hc] at hk

/-! ## Writing -/

@[simp] theorem assign_key (k : Str) (v : Answer) : (assign k v).key = k := by
  cases v <;> rfl

theorem assigns_keys (e : CTimerEvent) :
    (assigns e).map Assign.key = (fields e).map fun f => keyOf f.1 (idOf e) := by
  simp [assigns, Function.comp_def]

theorem assigns_nodup (e : CTimerEvent) : ((assigns e).map Assign.key).Nodup := by
  have h := fields_names_nodup e
  rw [List.map_map] at h
  have heq : ((fields e).map fun f => keyOf f.1 (idOf e)) =
      ((fields e).map (chars ∘ Prod.fst)).map (· ++ decInt (idOf e).toInt) := by
    rw [List.map_map]
    rfl
  rw [assigns_keys, heq]
  exact h.map (List.append_left_injective _)

/-- The texts of an event that are written as they are. -/
def EventData.texts : EventData → List Str
  | .zapto _ dir title | .record _ dir title => [dir, title]
  | .remind message => [message]
  | .execPlugin name => [name]
  | _ => []

/-- No text of the event has a line break in it. -/
def EventData.Plain (data : EventData) : Prop := ∀ s ∈ data.texts, newline ∉ s

theorem EventData.plain_single {data : EventData} {s : Str} (h : data.texts = [s]) :
    data.Plain ↔ newline ∉ s := by
  simp [EventData.Plain, h]

theorem EventData.plain_pair {data : EventData} {dir title : Str} (h : data.texts = [dir, title]) :
    data.Plain ↔ newline ∉ dir ∧ newline ∉ title := by
  simp [EventData.Plain, h]

def isNumber : Answer → Bool
  | .bool _ | .int32 _ | .int64 _ => true
  | _ => false

theorem field_value {e : CTimerEvent} {f : String × Answer} (h : f ∈ fields e) :
    isNumber f.2 = true ∨ ∃ s ∈ e.data.texts, f.2 = .string s := by
  have hall : ∀ f ∈ fields e, isNumber f.2 = true ∨ ∃ s ∈ e.data.texts, f.2 = .string s := by
    unfold fields
    cases e.data <;> simp [baseFields, dataFields, infoFields, isNumber, EventData.texts]
  exact hall f h

theorem number_text {v : Answer} (h : isNumber v = true) (k : Str) :
    newline ∉ (assign k v).text comma ∧ hash ∉ (assign k v).text comma := by
  cases v with
  | bool b =>
    have hb : ∀ b, newline ∉ boolText b ∧ hash ∉ boolText b := by decide
    exact hb b
  | int32 v => exact ⟨newline_notMem_decInt _, hash_notMem_decInt _⟩
  | int64 v => exact ⟨newline_notMem_decInt _, hash_notMem_decInt _⟩
  | _ => cases h

theorem assigns_writable {e : CTimerEvent} (he : e.data.Plain) {a : Assign} (ha : a ∈ assigns e) :
    (equals ∉ a.key ∧ hash ∉ a.key ∧ newline ∉ a.key) ∧ newline ∉ a.text comma := by
  obtain ⟨f, hf, rfl⟩ := List.mem_map.mp ha
  rw [assign_key]
  have hname : ∀ n ∈ fieldNames, equals ∉ chars n ∧ hash ∉ chars n ∧ newline ∉ chars n := by decide
  have hequals : equals ∉ decInt (idOf e).toInt := by
    intro hm
    cases mem_decInt hm with
    | inl hd => exact absurd hd (by decide)
    | inr hm => exact absurd hm (by decide)
  constructor
  · obtain ⟨h1, h2, h3⟩ := hname f.1 (fields_name hf)
    simp [keyOf, h1, h2, h3, hequals, hash_notMem_decInt, newline_notMem_decInt]
  · cases field_value hf with
    | inl hn => exact (number_text hn _).1
    | inr hs =>
      obtain ⟨s, hs, hv⟩ := hs
      rw [hv]
      exact he s hs

/-- A configuration that holds a list of ids, on the way to the file. -/
structure Filling (c : CConfigFile) (ids : List Int32) : Prop where
  delimiter : c.delimiter = comma
  ids : c.text (chars "IDS") = joinVec comma (int32Texts ids)
  writable : Writable c.configData

/-- The list of ids is read back while its text is short enough. -/
theorem Filling.getInt32Vector {c : CConfigFile} {ids : List Int32} (h : Filling c ids) :
    (65536 ≤ (joinVec comma (int32Texts ids)).length ∧ c.getInt32Vector (chars "IDS") = none) ∨
    ((joinVec comma (int32Texts ids)).length < 65536 ∧
      ∃ c', c.getInt32Vector (chars "IDS") = some (ids, c') ∧ Filling c' ids ∧
        ∀ k, k ≠ chars "IDS" → c'.configData.find k = c.configData.find k) := by
  have hdelim : isDigit comma = false ∧ comma ≠ minus := by decide
  unfold CConfigFile.getInt32Vector
  by_cases hlen : (joinVec comma (int32Texts ids)).length < 65536
  · right
    obtain ⟨flag, hget, _⟩ := getVector_short c (chars "IDS") (h.ids ▸ hlen)
    have helems : elements c.delimiter (c.text (chars "IDS")) = int32Texts ids := by
      rw [h.ids, h.delimiter]
      exact (elements_joinVec comma _).mpr (int32Texts_storable hdelim ids)
    rw [hget, helems]
    simp only [Option.map_some, atoi_int32Texts]
    refine ⟨hlen, _, rfl, ⟨h.delimiter, ?_, ?_⟩, fun k hk => by simp [hk]⟩
    · rw [← h.ids]
      simp [CConfigFile.text]
    · intro k v hf
      simp only [OrdMap.find_insertNew] at hf
      split at hf
      · rename_i hk
        subst hk
        refine ⟨by decide, ?_⟩
        cases hold : c.configData.find (chars "IDS") with
        | none => rw [hold] at hf; cases hf; simp
        | some t => rw [hold] at hf; cases hf; exact (h.writable _ _ hold).2
      · exact h.writable k v hf
  · left
    rw [getVector_long c (chars "IDS") (by rw [h.ids]; omega)]
    exact ⟨by omega, rfl⟩

theorem ids_text_plain (ids : List Int32) :
    newline ∉ joinVec comma (int32Texts ids) ∧ hash ∉ joinVec comma (int32Texts ids) := by
  have digits (c : Byte) (hc : c ≠ comma) (hd : ∀ z : Int, c ∉ decInt z) :
      c ∉ joinVec comma (int32Texts ids) := by
    intro h
    cases mem_joinVec h with
    | inl he => exact hc he
    | inr hm =>
      obtain ⟨t, ht, hm⟩ := hm
      obtain ⟨v, _, rfl⟩ := List.mem_map.mp ht
      exact hd _ hm
  exact ⟨digits newline (by decide) newline_notMem_decInt, digits hash (by decide) hash_notMem_decInt⟩

theorem Filling.setInt32Vector {c : CConfigFile} {ids : List Int32} (h : Filling c ids)
    (ids' : List Int32) :
    Filling (c.setInt32Vector (chars "IDS") ids') ids' ∧
      ∀ k, k ≠ chars "IDS" →
        (c.setInt32Vector (chars "IDS") ids').configData.find k = c.configData.find k := by
  have hset : SameOutside (chars "IDS") c (c.setInt32Vector (chars "IDS") ids') :=
    (exec_spec c (.setInt32Vector (chars "IDS") ids')).1
  refine ⟨⟨hset.delimiter.trans h.delimiter, ?_, ?_⟩, hset.data⟩
  · rw [← h.delimiter]
    exact setText_find c (chars "IDS") _
  · have hkey : equals ∉ chars "IDS" ∧ hash ∉ chars "IDS" ∧ newline ∉ chars "IDS" := by decide
    apply exec_writable (a := .setInt32Vector (chars "IDS") ids') h.writable hkey
    rw [h.delimiter]
    exact (ids_text_plain ids').1

theorem ids_notMem_assigns (e : CTimerEvent) : chars "IDS" ∉ (assigns e).map Assign.key := by
  rw [assigns_keys]
  intro h
  obtain ⟨f, _, hf⟩ := List.mem_map.mp h
  exact keyOf_ne (by decide) hf

theorem Filling.execAll {c : CConfigFile} {ids : List Int32} (h : Filling c ids) {as : List Assign}
    (hids : chars "IDS" ∉ as.map Assign.key)
    (has : ∀ a ∈ as, (equals ∉ a.key ∧ hash ∉ a.key ∧ newline ∉ a.key) ∧ newline ∉ a.text comma) :
    Filling (execAll c as) ids := by
  refine ⟨(execAll_delimiter c _).trans h.delimiter, ?_, ?_⟩
  · rw [← h.ids, CConfigFile.text, CConfigFile.text, execAll_other hids]
  · apply execAll_writable h.writable
    · exact fun a ha => (has a ha).1
    · rw [h.delimiter]
      exact fun a ha => (has a ha).2

/-- What the saving of events leaves behind. -/
structure Written (c c' : CConfigFile) (ids : List Int32) (es : List CTimerEvent) : Prop where
  filling : Filling c' (ids ++ es.map idOf)
  fields : ∀ e ∈ es, ∀ f ∈ fields e,
    c'.configData.find (keyOf f.1 (idOf e)) = some ((assign (keyOf f.1 (idOf e)) f.2).text comma)
  other : ∀ k, k ≠ chars "IDS" → (∀ e ∈ es, k ∉ (assigns e).map Assign.key) →
    c'.configData.find k = c.configData.find k

/-- No field of the event has been written. -/
def Unwritten (c : CConfigFile) (e : CTimerEvent) : Prop :=
  ∀ f ∈ fields e, c.configData.find (keyOf f.1 (idOf e)) = none

theorem saveToConfig_written {c : CConfigFile} {ids : List Int32} {e : CTimerEvent}
    (hc : Filling c ids) (he : e.data.Plain) (hnew : Unwritten c e) :
    (65536 ≤ (joinVec comma (int32Texts ids)).length ∧ saveToConfig e c = none) ∨
    ((joinVec comma (int32Texts ids)).length < 65536 ∧
      ∃ c', saveToConfig e c = some c' ∧ Written c c' ids [e]) := by
  cases hc.getInt32Vector with
  | inl hlong => exact Or.inl ⟨hlong.1, by simp [saveToConfig, hlong.2]⟩
  | inr hshort =>
    obtain ⟨hlen, c1, hget, hc1, hother1⟩ := hshort
    obtain ⟨hc2, hother2⟩ := hc1.setInt32Vector (ids ++ [idOf e])
    have hsave : saveToConfig e c =
        some (execAll (c1.setInt32Vector (chars "IDS") (ids ++ [idOf e])) (assigns e)) := by
      simp only [saveToConfig, hget]
    generalize c1.setInt32Vector (chars "IDS") (ids ++ [idOf e]) = c2 at hc2 hother2 hsave
    refine Or.inr ⟨hlen, execAll c2 (assigns e), hsave, ?_⟩
    have hother (k : Str) (hk : k ≠ chars "IDS") : c2.configData.find k = c.configData.find k :=
      (hother2 k hk).trans (hother1 k hk)
    have hfill : Filling (execAll c2 (assigns e)) (ids ++ [idOf e]) := by
      apply hc2.execAll (ids_notMem_assigns e)
      intro a ha
      exact assigns_writable he ha
    refine ⟨hfill, ?_, ?_⟩
    · intro e' he' f hf
      rw [List.mem_singleton] at he'
      subst he'
      have hmem : assign (keyOf f.1 (idOf e')) f.2 ∈ assigns e' := by
        rw [assigns]
        exact List.mem_map.mpr ⟨f, hf, rfl⟩
      have hnone : c2.configData.find (assign (keyOf f.1 (idOf e')) f.2).key = none := by
        rw [assign_key, hother _ (keyOf_ne (by decide))]
        exact hnew f hf
      have := execAll_find (assigns_nodup e') hmem c2 hnone
      rwa [assign_key, hc2.delimiter] at this
    · intro k hk hnot
      rw [execAll_other (hnot e List.mem_cons_self)]
      exact hother k hk

theorem assigns_disjoint {e e' : CTimerEvent} (hne : idOf e ≠ idOf e') {f : String × Answer}
    (hf : f ∈ fields e) : keyOf f.1 (idOf e) ∉ (assigns e').map Assign.key := by
  rw [assigns_keys]
  intro h
  obtain ⟨f', hf', he⟩ := List.mem_map.mp h
  exact hne (keyOf_inj (fields_name hf') (fields_name hf) he).symm

theorem Written.trans {c c1 c2 : CConfigFile} {ids : List Int32} {e : CTimerEvent}
    {es : List CTimerEvent}
    (hn : idOf e ∉ es.map idOf) (h1 : Written c c1 ids [e])
      (h2 : Written c1 c2 (ids ++ [idOf e]) es) :
    Written c c2 ids (e :: es) := by
  refine ⟨by simpa using h2.filling, ?_, ?_⟩
  · intro e' he' f hf
    cases List.mem_cons.mp he' with
    | inl heq =>
      subst heq
      have hother : ∀ b ∈ es, keyOf f.1 (idOf e') ∉ (assigns b).map Assign.key := by
        intro b hb
        have hne : idOf e' ≠ idOf b := fun he => hn (he ▸ List.mem_map_of_mem hb)
        exact assigns_disjoint hne hf
      rw [h2.other _ (keyOf_ne (by decide)) hother]
      exact h1.fields e' List.mem_cons_self f hf
    | inr hes => exact h2.fields e' hes f hf
  · intro k hk hnot
    rw [h2.other k hk fun b hb => hnot b (List.mem_cons_of_mem e hb)]
    apply h1.other k hk
    intro b hb
    rw [List.mem_singleton] at hb
    exact hb ▸ hnot e List.mem_cons_self

theorem saveTimers_written {es : List CTimerEvent} {c : CConfigFile} {ids : List Int32}
    (hc : Filling c ids) (hplain : ∀ e ∈ es, e.data.Plain) (hn : (es.map idOf).Nodup)
    (hnew : ∀ e ∈ es, Unwritten c e) :
    (∀ c', saveTimers es c = some c' → Written c c' ids es) ∧
    ((joinVec comma (int32Texts (ids ++ es.map idOf))).length < 65536 →
      ∃ c', saveTimers es c = some c') := by
  induction es generalizing c ids with
  | nil =>
    constructor
    · intro c' h
      cases h
      refine ⟨by simpa using hc, ?_, fun _ _ _ => rfl⟩
      intro e he
      cases he
    · exact fun _ => ⟨c, rfl⟩
  | cons e es ih =>
    obtain ⟨he, hn⟩ := List.nodup_cons.mp hn
    cases saveToConfig_written hc (hplain e List.mem_cons_self) (hnew e List.mem_cons_self) with
    | inl hlong =>
      refine ⟨fun c' h => by simp [saveTimers, hlong.2] at h, fun hlen => ?_⟩
      have := joinVec_length_le comma (int32Texts ids) (int32Texts ((e :: es).map idOf))
      rw [int32Texts_append] at hlen
      omega
    | inr hshort =>
      obtain ⟨_, c1, hsave, hw⟩ := hshort
      have hnew1 : ∀ b ∈ es, Unwritten c1 b := by
        intro b hb f hf
        have hne : idOf b ≠ idOf e := fun h => he (h ▸ List.mem_map_of_mem hb)
        rw [hw.other _ (keyOf_ne (by decide)) fun a ha => by
          rw [List.mem_singleton] at ha
          exact ha ▸ assigns_disjoint hne hf]
        exact hnew b (List.mem_cons_of_mem e hb) f hf
      obtain ⟨hrun, hex⟩ := ih hw.filling (fun b hb => hplain b (List.mem_cons_of_mem e hb)) hn hnew1
      simp only [saveTimers, hsave]
      exact ⟨fun c' h => hw.trans he (hrun c' h), fun hlen => hex (by simpa using hlen)⟩

/-! ## Reading -/

def readBackTime (t : Int) : Int := (Int32.ofInt t).toInt

def readBackInfo (info : EventInfo) : EventInfo :=
  { info with epgStarttime := (Int64.ofInt info.epgStarttime).toInt }

def readBackData : EventData → EventData
  | .shutdown => .shutdown
  | .nextProgram info => .nextProgram (readBackInfo info)
  | .zapto info dir title => .zapto (readBackInfo info) (cut dir) (cut title)
  | .standby standbyOn => .standby standbyOn
  | .record info dir title => .record (readBackInfo info) (cut dir) (cut title)
  | .remind message => .remind (cString (cut message))
  | .sleeptimer => .sleeptimer
  | .execPlugin name => .execPlugin (cString (cut name))

/-- A saved event as the loader makes it; its id comes with `addEvent`. -/
def readBack (e : CTimerEvent) : CTimerEvent :=
  { e with
    tag := 0
    eventID := 0
    data := readBackData e.data
    alarmTime := readBackTime e.alarmTime
    stopTime := readBackTime e.stopTime
    announceTime := readBackTime e.announceTime }

section
variable {c : CConfigFile} {k : Str}

theorem getInt32_found {v : Int32} (h : c.configData.find k = some (decInt v.toInt)) (d : Int32) :
    (c.getInt32 k d).1 = v := by
  rw [CConfigFile.getInt32, getValue_answer, h, absentOrEmpty_decInt]
  simpa using readInt32_decInt v

theorem getInt64_found {v : Int64} (h : c.configData.find k = some (decInt v.toInt)) (d : Int64) :
    (c.getInt64 k d).1 = v := by
  rw [CConfigFile.getInt64, getValue_answer, h, absentOrEmpty_decInt]
  simpa using readInt64_decInt v

theorem getBool_found {v : Bool} (h : c.configData.find k = some (boolText v)) (d : Bool) :
    (c.getBool k d).1 = v := by
  rw [CConfigFile.getBool, getValue_answer, h]
  simpa [absent] using readBool_boolText v

theorem getString_found {v : Str} (h : c.configData.find k = some v) (d : Str) :
    (c.getString k d).1 = v := by
  rw [CConfigFile.getString, getValue_answer, h]
  simp [absent]

end

/-- A configuration in which the fields of an event can be read, numbers as
they were and texts cut. -/
def Readable (c : CConfigFile) (e : CTimerEvent) : Prop :=
  ∀ f ∈ fields e, c.configData.find (keyOf f.1 (idOf e)) =
    some (cut ((assign (keyOf f.1 (idOf e)) f.2).text comma))

theorem Readable.number {c : CConfigFile} {e : CTimerEvent} (h : Readable c e) {n : String}
    {v : Answer}
    (hf : (n, v) ∈ fields e) (hv : isNumber v = true) :
    c.configData.find (keyOf n (idOf e)) = some ((assign (keyOf n (idOf e)) v).text comma) := by
  rw [h (n, v) hf, cut_eq_self.mpr (number_text hv _).2]

theorem apids_text (apids : UInt8) :
    (Int64.ofNat apids.toNat).toInt = (Int32.ofNat apids.toNat).toInt ∧
      (Int32.ofNat apids.toNat).toUInt32.toUInt8 = apids := by
  have hlt := apids.toNat_lt
  constructor
  · rw [Int64.toInt_ofNat_of_lt (by omega), Int32.toInt_ofNat_of_lt (by omega)]
  · apply UInt8.toNat.inj
    have hn : (Int32.ofNat apids.toNat).toUInt32.toNat = apids.toNat := by
      change (UInt32.ofNat apids.toNat).toNat = apids.toNat
      exact UInt32.toNat_ofNat_of_lt' (by simp only [UInt32.size]; omega)
    rw [UInt32.toNat_toUInt8, hn]
    omega

theorem readBase_back {c : CConfigFile} {e : CTimerEvent} (h : Readable c e) (data : EventData) :
    (c.getInt32 (keyOf "EVENT_TYPE_" (idOf e)) 0).1 = e.data.eventType ∧
      readBase c (idOf e) data = { readBack e with data := data } := by
  have number {n : String} {v : Int32} (hf : (n, Answer.int32 v) ∈ baseFields e) :
      (c.getInt32 (keyOf n (idOf e)) 0).1 = v :=
    getInt32_found (h.number (List.mem_append_left _ hf) rfl) 0
  refine ⟨number (by simp [baseFields]), ?_⟩
  have hstate := number (n := "EVENT_STATE_") (v := e.eventState.code) (by simp [baseFields])
  have hprevious := number (n := "PREVIOUS_STATE_") (v := e.previousState.code) (by simp [baseFields])
  have hrepeat := number (n := "EVENT_REPEAT_") (v := e.eventRepeat) (by simp [baseFields])
  have hcount := number (n := "REPEAT_COUNT_") (v := e.repeatCount.toInt32) (by simp [baseFields])
  have halarm := number (n := "ALARM_TIME_") (v := .ofInt e.alarmTime) (by simp [baseFields])
  have hstop := number (n := "STOP_TIME_") (v := .ofInt e.stopTime) (by simp [baseFields])
  have hannounce := number (n := "ANNOUNCE_TIME_") (v := .ofInt e.announceTime) (by simp [baseFields])
  simp only [readBase, readBack, readBackTime, hstate, hprevious, hrepeat, hcount, halarm, hstop,
    hannounce,
    EventState.ofCode_code]
  rfl

/-- The numbers of an `EventInfo`, whichever way the pids were written. -/
theorem readInfo_back {c : CConfigFile} {e : CTimerEvent} (h : Readable c e) {info : EventInfo}
    {apids : Answer}
      (hpids : apids = .int32 (.ofNat info.apids.toNat) ∨ apids = .int64 (.ofNat info.apids.toNat))
    (hf : ∀ f ∈ infoFields info apids, f ∈ fields e) : readInfo c (idOf e) = readBackInfo info := by
  have long {n : String} {v : Int64} (hv : (n, Answer.int64 v) ∈ infoFields info apids) :
      (c.getInt64 (keyOf n (idOf e)) 0).1 = v :=
    getInt64_found (h.number (hf _ hv) rfl) 0
  have hid := long (n := "EVENT_INFO_EPG_ID_") (v := info.epgID.toInt64) (by simp [infoFields])
  have htime := long (n := "EVENT_INFO_EPG_STARTTIME_") (v := .ofInt info.epgStarttime)
    (by simp [infoFields])
  have hchannel :=
    long (n := "EVENT_INFO_CHANNEL_ID_") (v := info.channelId.toInt64) (by simp [infoFields])
  have hmem : ("EVENT_INFO_APIDS_", apids) ∈ fields e := hf _ (by simp [infoFields])
  have hapids : (c.getInt32 (keyOf "EVENT_INFO_APIDS_" (idOf e)) 0).1 = .ofNat info.apids.toNat := by
    apply getInt32_found
    cases hpids with
    | inl h32 => subst h32; exact h.number hmem rfl
    | inr h64 =>
      subst h64
      rw [h.number hmem rfl, ← (apids_text info.apids).1]
      rfl
  simp only [readInfo, readBackInfo, hid, htime, hchannel, hapids, (apids_text info.apids).2]
  rfl

theorem Readable.text {c : CConfigFile} {e : CTimerEvent} (h : Readable c e) {n : String} {s : Str}
    (hf : (n, Answer.string s) ∈ fields e) : (c.getString (keyOf n (idOf e)) []).1 = cut s :=
  getString_found (h (n, .string s) hf) []

theorem readData_back {c : CConfigFile} {e : CTimerEvent} (h : Readable c e) :
    readData c (idOf e) e.data.eventType = some (readBackData e.data) := by
  have hfields (f : String × Answer) (hf : f ∈ dataFields e.data) : f ∈ fields e :=
    List.mem_append_right _ hf
  cases hd : e.data with
  | shutdown => rfl
  | sleeptimer => rfl
  | nextProgram info =>
    rw [hd] at hfields
    have hinfo := readInfo_back h (Or.inl rfl) hfields
    simp [readData, EventData.eventType, readBackData, hinfo]
  | zapto info dir title | record info dir title =>
    rw [hd] at hfields
    have hinfo := readInfo_back h (Or.inr rfl) fun f hf => hfields f (List.mem_append_left _ hf)
    have hdir := h.text (hfields ("REC_DIR_", .string dir) (by simp [dataFields]))
    have htitle := h.text (hfields ("EPG_TITLE_", .string title) (by simp [dataFields]))
    simp [readData, EventData.eventType, readBackData, hinfo, hdir, htitle]
  | standby standbyOn =>
    rw [hd] at hfields
    have hon :=
      getBool_found (h.number (hfields ("STANDBY_ON_", .bool standbyOn) (by simp [dataFields]))
      rfl) false
    simp [readData, EventData.eventType, readBackData, hon]
  | remind message =>
    rw [hd] at hfields
    have hmessage := h.text (hfields ("MESSAGE_", .string message) (by simp [dataFields]))
    simp [readData, EventData.eventType, readBackData, hmessage]
  | execPlugin name =>
    rw [hd] at hfields
    have hname := h.text (hfields ("NAME_", .string name) (by simp [dataFields]))
    simp [readData, EventData.eventType, readBackData, hname]

theorem readEvent_back {c : CConfigFile} {e : CTimerEvent} (h : Readable c e) :
    readEvent c (idOf e) = some (readBack e) := by
  rw [readEvent, (readBase_back h e.data).1, readData_back h, Option.map_some,
    (readBase_back h (readBackData e.data)).2]
  rfl

/-! ## The whole file -/

theorem safetyAssigns_plain (safety : Safety) :
    chars "IDS" ∉ (safetyAssigns safety).map Assign.key ∧
      ((safetyAssigns safety).map Assign.key).Nodup ∧
    ∀ a ∈ safetyAssigns safety,
      (equals ∉ a.key ∧ hash ∉ a.key ∧ newline ∉ a.key) ∧ newline ∉ a.text comma ∧
        a.key.getLast?.any isDigit = false := by
  refine ⟨?_, ?_, ?_⟩
  · simp only [safetyAssigns, List.map_cons, List.map_nil, Assign.key]
    decide
  · simp only [safetyAssigns, List.map_cons, List.map_nil, Assign.key]
    decide
  · intro a ha
    have key : ∀ k ∈
      [chars "EXTRA_TIME_START", chars "EXTRA_TIME_END", chars "ZAPTO_EXTRA_TIME_START"],
        (equals ∉ k ∧ hash ∉ k ∧ newline ∉ k) ∧ k.getLast?.any isDigit = false := by decide
    have hmem :
      a.key ∈ [chars "EXTRA_TIME_START", chars "EXTRA_TIME_END", chars "ZAPTO_EXTRA_TIME_START"] :=
      List.mem_map_of_mem (f := Assign.key) ha
    refine ⟨(key _ hmem).1, ?_, (key _ hmem).2⟩
    simp only [safetyAssigns, List.mem_cons, List.not_mem_nil, or_false] at ha
    rcases ha with rfl | rfl | rfl <;> exact newline_notMem_decInt _

/-- A configuration holds the ids and the fields of the events. -/
structure Holds (c : CConfigFile) (es : List CTimerEvent) (safety : Safety) : Prop where
  filling : Filling c (es.map idOf)
  fields : ∀ e ∈ es, ∀ f ∈ fields e,
    c.configData.find (keyOf f.1 (idOf e)) = some ((assign (keyOf f.1 (idOf e)) f.2).text comma)
  safety : ∀ a ∈ safetyAssigns safety, c.configData.find a.key = some (a.text comma)

theorem timerText_holds {es : List CTimerEvent} (safety : Safety) (hplain : ∀ e ∈ es, e.data.Plain)
    (hn : (es.map idOf).Nodup) :
    (∀ text, timerText es safety = some text →
      ∃ c, text = configText equals c.configData ∧ Holds c es safety) ∧
    ((joinVec comma (int32Texts (es.map idOf))).length < 65536 →
      ∃ text, timerText es safety = some text) := by
  have hstart : Filling (create comma true).clear [] := ⟨rfl, rfl, fun k v h => by cases h⟩
  obtain ⟨hrun, hex⟩ := saveTimers_written hstart hplain hn fun e _ f _ => rfl
  obtain ⟨hids, hnodup, hkeys⟩ := safetyAssigns_plain safety
  constructor
  · intro text h
    cases hs : saveTimers es (create comma true).clear with
    | none => simp [timerText, hs] at h
    | some c =>
      simp only [timerText, hs, CConfigFile.saveConfig, if_true, Option.some.injEq] at h
      have hw := hrun c hs
      refine ⟨execAll c (safetyAssigns safety), h.symm, ?_, ?_, ?_⟩
      · have := hw.filling.execAll hids fun a ha => ⟨(hkeys a ha).1, (hkeys a ha).2.1⟩
        simpa using this
      · intro e he f hf
        have hnot : keyOf f.1 (idOf e) ∉ (safetyAssigns safety).map Assign.key := by
          intro hm
          obtain ⟨a, ha, hk⟩ := List.mem_map.mp hm
          exact keyOf_ne (hkeys a ha).2.2 hk.symm
        rw [execAll_other hnot]
        exact hw.fields e he f hf
      · intro a ha
        have hnone : c.configData.find a.key = none := by
          rw [hw.other a.key (fun he => hids (he ▸ List.mem_map_of_mem ha))]
          · rfl
          · intro e _ hm
            rw [assigns_keys] at hm
            obtain ⟨f, _, hk⟩ := List.mem_map.mp hm
            exact keyOf_ne (hkeys a ha).2.2 hk
        have := execAll_find hnodup ha c hnone
        rwa [hw.filling.delimiter] at this
  · intro hlen
    obtain ⟨c, hc⟩ := hex (by simpa using hlen)
    exact ⟨configText equals (execAll c (safetyAssigns safety)).configData, by
      simp [timerText, hc, CConfigFile.saveConfig]⟩

/-- **What the loader finds in a saved file.** The timers in the order they were
saved, each as `readBack` has it, their ids and the safety times. -/
theorem reload_spec {es : List CTimerEvent} {safety : Safety} {text : Str}
    (hplain : ∀ e ∈ es, e.data.Plain) (hn : (es.map idOf).Nodup)
    (h : timerText es safety = some text) :
    timersIn (some text) = es.map readBack ∧ readSafety (some text) = safety ∧
      (loadedConfig (some text)).text (chars "IDS") = joinVec comma (int32Texts (es.map idOf)) := by
  obtain ⟨c, rfl, hc⟩ := (timerText_holds safety hplain hn).1 text h
  have hfind (k : Str) : (loadedConfig (some (configText equals c.configData))).configData.find k =
      (c.configData.find k).map cut := by
    rw [loadedConfig, loadConfig_data]
    exact find_reloaded hc.filling.writable k
  generalize hl : loadedConfig (some (configText equals c.configData)) = l at hfind
  have hids : l.text (chars "IDS") = joinVec comma (int32Texts (es.map idOf)) := by
    have hcids := hc.filling.ids
    rw [CConfigFile.text] at hcids ⊢
    rw [hfind]
    cases hf : c.configData.find (chars "IDS") with
    | none => simpa [hf] using hcids
    | some t =>
      simp only [hf, Option.getD_some] at hcids
      simp [hcids, cut_eq_self.mpr (ids_text_plain (es.map idOf)).2]
  have hread : ∀ e ∈ es, readEvent l (idOf e) = some (readBack e) := by
    intro e he
    apply readEvent_back
    intro f hf
    rw [hfind, hc.fields e he f hf]
    rfl
  refine ⟨?_, ?_, hids⟩
  · have helems : elements comma (l.text (chars "IDS")) = int32Texts (es.map idOf) := by
      rw [hids]
      exact (elements_joinVec comma _).mpr (int32Texts_storable (by decide) _)
    simp only [timersIn, hl, helems]
    rw [atoi_int32Texts, List.filterMap_map, ← List.filterMap_eq_map]
    exact List.filterMap_congr hread
  · have number (k : Str) (v : Int32) (ha : Assign.setInt32 k v ∈ safetyAssigns safety) :
        (l.getInt32 k 0).1 = v := by
      apply getInt32_found
      have hs := hc.safety _ ha
      simp only [Assign.key, Assign.text] at hs
      rw [hfind, hs, Option.map_some, cut_eq_self.mpr (hash_notMem_decInt _)]
    simp only [readSafety, hl]
    rw [number _ safety.extraTimeStart (by simp [safetyAssigns]),
      number _ safety.extraTimeEnd (by simp [safetyAssigns]),
      number _ safety.zaptoExtraTimeStart (by simp [safetyAssigns])]

end Tuxbox.Timerd
