import Tuxbox.Config.Vector
import Tuxbox.Config.RoundTrip
import Tuxbox.Lib.Run

/-! Typed access to a configuration: what the getters and setters do to the
data and to the two flags, over every sequence of calls. -/
namespace Tuxbox.Config

/-- Nothing but the entry under `key` and the flags has changed. -/
structure SameOutside (key : Str) (c c' : CConfigFile) : Prop where
  delimiter : c'.delimiter = c.delimiter
  saveDefaults : c'.saveDefaults = c.saveDefaults
  data : ∀ k, k ≠ key → c'.configData.find k = c.configData.find k

section
variable {α : Type} (missing : Option Str → Bool) (print : α → Str) (read : Str → α)

/-- A getter answers from the text under its key and `saveDefaults` alone. -/
theorem getValue_answer (c : CConfigFile) (key : Str) (defaultVal : α) :
    (c.getValue missing print read key defaultVal).1 =
      if missing (c.configData.find key) then
        if c.saveDefaults then read (print defaultVal) else defaultVal
      else read ((c.configData.find key).getD []) := by
  unfold CConfigFile.getValue
  simp only
  split
  · split <;> simp [CConfigFile.text, CConfigFile.store]
  · rfl

/-- Either the key was there and nothing has changed, or the flag is up. -/
theorem getValue_flags (c : CConfigFile) (key : Str) (defaultVal : α) :
    let c' := (c.getValue missing print read key defaultVal).2
    c'.modifiedFlag = c.modifiedFlag ∧ (c'.unknownKeyQueryedFlag = false → c' = c) := by
  unfold CConfigFile.getValue
  simp only
  split
  · split <;> simp [CConfigFile.store]
  · simp

/-- What a setter built from these parts leaves behind. -/
structure Assigned (c c' : CConfigFile) (key : Str) (val : α) : Prop where
  outside : SameOutside key c c'
  queried : c'.unknownKeyQueryedFlag = c.unknownKeyQueryedFlag
  value : ∃ t, c'.configData.find key = some t ∧ missing (some t) = false ∧ read t = val
  unmodified : c'.modifiedFlag = false → c.modifiedFlag = false ∧ c'.configData = c.configData

theorem setValue_assigned [DecidableEq α] (hnone : missing none = true)
    (hprint : ∀ v, missing (some (print v)) = false) (hread : ∀ v, read (print v) = v)
    (c : CConfigFile) (key : Str) (defaultVal val : α) :
    Assigned missing read c (c.setValue (fun c => c.getValue missing print read key defaultVal)
      (fun c v => c.store key (print v)) val) key val := by
  cases hm : missing (c.configData.find key) with
  | true =>
    -- the getter has raised the flag, so the value is stored
    have stored : ∃ d : OrdMap Str Str,
      c.setValue (fun c => c.getValue missing print read key defaultVal)
        (fun c v => c.store key (print v)) val =
          { c with configData := d.set key (print val), modifiedFlag := true } ∧
        ∀ k, k ≠ key → d.find k = c.configData.find k := by
      cases hs : c.saveDefaults with
      | true =>
        exact ⟨c.configData.set key (print defaultVal),
          by simp [CConfigFile.setValue, CConfigFile.getValue, hm, hs, CConfigFile.store],
          fun k hk => OrdMap.find_set_ne _ _ hk⟩
      | false =>
        exact ⟨c.configData,
          by simp [CConfigFile.setValue, CConfigFile.getValue, hm, hs, CConfigFile.store],
            fun _ _ => rfl⟩
    obtain ⟨d, heq, hd⟩ := stored
    rw [heq]
    exact ⟨⟨rfl, rfl, fun k hk => (OrdMap.find_set_ne _ _ hk).trans (hd k hk)⟩, rfl,
      ⟨print val, by simp, hprint val, hread val⟩, by simp⟩
  | false =>
    cases hf : c.configData.find key with
    | none => rw [hf, hnone] at hm; cases hm
    | some t =>
      rw [hf] at hm
      by_cases hv : read t = val
      · have heq : c.setValue (fun c => c.getValue missing print read key defaultVal)
            (fun c v => c.store key (print v)) val = c := by
          simp [CConfigFile.setValue, CConfigFile.getValue, CConfigFile.text, hf, hm, hv]
        rw [heq]
        exact ⟨⟨rfl, rfl, fun _ _ => rfl⟩, rfl, ⟨t, hf, hm, hv⟩, fun h => ⟨h, rfl⟩⟩
      · have heq : c.setValue (fun c => c.getValue missing print read key defaultVal)
            (fun c v => c.store key (print v)) val =
            { c with configData := c.configData.set key (print val), modifiedFlag := true } := by
          simp [CConfigFile.setValue, CConfigFile.getValue, CConfigFile.text, hf, hm, hv,
            CConfigFile.store]
        rw [heq]
        exact ⟨⟨rfl, rfl, fun k hk => OrdMap.find_set_ne _ _ hk⟩, rfl,
          ⟨print val, by simp, hprint val, hread val⟩, by simp⟩

end

theorem readBool_boolText (v : Bool) : readBool (boolText v) = v := by
  cases v <;> decide

theorem decInt_ne_word (z : Int) {w : Str}
    (hw : w.head?.any (fun c => !isDigit c && c != minus) = true) :
    decInt z ≠ w := by
  intro h
  cases hd : decInt z with
  | nil => exact decInt_ne_nil z hd
  | cons c cs =>
    rw [← h, hd] at hw
    rcases mem_decInt (hd ▸ List.mem_cons_self : c ∈ decInt z) with hc | hc
    · simp [hc] at hw
    · simp [hc] at hw

theorem readInt32_decInt (v : Int32) : readInt32 (decInt v.toInt) = v := by
  rw [readInt32, if_neg (decInt_ne_word _ (by decide)), if_neg (decInt_ne_word _ (by decide)),
    atoi_decInt]

theorem readInt64_decInt (v : Int64) : readInt64 (decInt v.toInt) = v := by
  rw [readInt64, if_neg (decInt_ne_word _ (by decide)), if_neg (decInt_ne_word _ (by decide)),
    atoll_decInt]

theorem absentOrEmpty_decInt (z : Int) : absentOrEmpty (some (decInt z)) = false := by
  simpa [absentOrEmpty] using decInt_ne_nil z

theorem setBool_assigned (c : CConfigFile) (key : Str) (val : Bool) :
    Assigned absent readBool c (c.setBool key val) key val :=
  setValue_assigned absent boolText readBool rfl (fun _ => rfl) readBool_boolText c key false val

theorem setInt32_assigned (c : CConfigFile) (key : Str) (val : Int32) :
    Assigned absentOrEmpty readInt32 c (c.setInt32 key val) key val := by
  unfold CConfigFile.setInt32 CConfigFile.getInt32 CConfigFile.storeInt32
  exact setValue_assigned absentOrEmpty (fun v : Int32 => decInt v.toInt) readInt32 rfl
    (fun v => absentOrEmpty_decInt v.toInt) readInt32_decInt c key 0 val

theorem setInt64_assigned (c : CConfigFile) (key : Str) (val : Int64) :
    Assigned absentOrEmpty readInt64 c (c.setInt64 key val) key val := by
  unfold CConfigFile.setInt64 CConfigFile.getInt64 CConfigFile.storeInt64
  exact setValue_assigned absentOrEmpty (fun v : Int64 => decInt v.toInt) readInt64 rfl
    (fun v => absentOrEmpty_decInt v.toInt) readInt64_decInt c key 0 val

/-- The string and vector setters. -/
theorem setText_assigned (c : CConfigFile) (key text : Str) :
    Assigned absent id c (c.setValue (·.getString key []) (·.storeString key) text) key text :=
  setValue_assigned absent id id rfl (fun _ => rfl) (fun _ => rfl) c key [] text

/-! ## Calls -/

inductive Query
  | getBool (key : Str) (defaultVal : Bool)
  | getInt32 (key : Str) (defaultVal : Int32)
  | getInt64 (key : Str) (defaultVal : Int64)
  | getString (key defaultVal : Str)
  | getInt32Vector (key : Str)
  | getStringVector (key : Str)

inductive Answer
  | bool (val : Bool)
  | int32 (val : Int32)
  | int64 (val : Int64)
  | string (val : Str)
  | int32Vector (vec : List Int32)
  | stringVector (vec : List Str)
  deriving DecidableEq

def Query.key : Query → Str
  | getBool k _ | getInt32 k _ | getInt64 k _ | getString k _ | getInt32Vector k
  | getStringVector k => k

/-- `none` if the getter does not return. -/
def Query.ask (c : CConfigFile) : Query → Option (Answer × CConfigFile)
  | getBool k d => some (.bool (c.getBool k d).1, (c.getBool k d).2)
  | getInt32 k d => some (.int32 (c.getInt32 k d).1, (c.getInt32 k d).2)
  | getInt64 k d => some (.int64 (c.getInt64 k d).1, (c.getInt64 k d).2)
  | getString k d => some (.string (c.getString k d).1, (c.getString k d).2)
  | getInt32Vector k => (c.getInt32Vector k).map fun r => (.int32Vector r.1, r.2)
  | getStringVector k => (c.getStringVector k).map fun r => (.stringVector r.1, r.2)

inductive Assign
  | setBool (key : Str) (val : Bool)
  | setInt32 (key : Str) (val : Int32)
  | setInt64 (key : Str) (val : Int64)
  | setString (key val : Str)
  | setInt32Vector (key : Str) (vec : List Int32)
  | setStringVector (key : Str) (vec : List Str)

def Assign.key : Assign → Str
  | setBool k _ | setInt32 k _ | setInt64 k _ | setString k _ | setInt32Vector k _
  | setStringVector k _ => k

def Assign.exec (c : CConfigFile) : Assign → CConfigFile
  | setBool k v => c.setBool k v
  | setInt32 k v => c.setInt32 k v
  | setInt64 k v => c.setInt64 k v
  | setString k v => c.setString k v
  | setInt32Vector k v => c.setInt32Vector k v
  | setStringVector k v => c.setStringVector k v

def Assign.value : Assign → Answer
  | setBool _ v => .bool v
  | setInt32 _ v => .int32 v
  | setInt64 _ v => .int64 v
  | setString _ v => .string v
  | setInt32Vector _ v => .int32Vector v
  | setStringVector _ v => .stringVector v

/-- The getter of the same type and key, with any default. -/
def Assign.Matches : Assign → Query → Prop
  | setBool k _, .getBool k' _ => k' = k
  | setInt32 k _, .getInt32 k' _ => k' = k
  | setInt64 k _, .getInt64 k' _ => k' = k
  | setString k _, .getString k' _ => k' = k
  | setInt32Vector k _, .getInt32Vector k' => k' = k
  | setStringVector k _, .getStringVector k' => k' = k
  | _, _ => False

inductive Call
  | query (q : Query)
  | assign (a : Assign)

def Call.step (c : CConfigFile) : Call → Option CConfigFile
  | query q => (q.ask c).map Prod.snd
  | assign a => some (a.exec c)

/-! ## Flags -/

theorem getVector_flags {c c' : CConfigFile} {key : Str} {vec : List Str}
    (h : c.getVector key = some (vec, c')) :
    c'.modifiedFlag = c.modifiedFlag ∧
      (c'.unknownKeyQueryedFlag = false →
        c.unknownKeyQueryedFlag = false ∧ c'.configData = c.configData) := by
  by_cases hlen : (c.text key).length < 65536
  · obtain ⟨flag, hget, hflag⟩ := getVector_short c key hlen
    rw [hget] at h
    cases h
    refine ⟨rfl, fun hf => ?_⟩
    obtain ⟨hq, hc⟩ := hflag hf
    exact ⟨hq, by simp [OrdMap.insertNew, hc]⟩
  · rw [getVector_long c key (by omega)] at h
    cases h

/-- A getter leaves `modifiedFlag` alone, and changes the data only with
`unknownKeyQueryedFlag` up. -/
theorem ask_flags {c c' : CConfigFile} {q : Query} {a : Answer} (h : q.ask c = some (a, c')) :
    c'.modifiedFlag = c.modifiedFlag ∧
      (c'.unknownKeyQueryedFlag = false →
        c.unknownKeyQueryedFlag = false ∧ c'.configData = c.configData) := by
  have scalar {α : Type} (missing : Option Str → Bool) (print : α → Str) (read : Str → α) (k : Str)
      (d : α) (he : (c.getValue missing print read k d).2 = c') :
      c'.modifiedFlag = c.modifiedFlag ∧
        (c'.unknownKeyQueryedFlag = false →
          c.unknownKeyQueryedFlag = false ∧ c'.configData = c.configData) := by
    obtain ⟨hm, hu⟩ := getValue_flags missing print read c k d
    simp only [he] at hm hu
    refine ⟨hm, fun hf => ?_⟩
    have hcc := hu hf
    exact ⟨hcc ▸ hf, by rw [hcc]⟩
  cases q with
  | getBool k d | getInt32 k d | getInt64 k d | getString k d => cases h; exact scalar _ _ _ k d rfl
  | getInt32Vector k =>
    simp only [Query.ask, CConfigFile.getInt32Vector, Option.map_map, Option.map_eq_some_iff] at h
    obtain ⟨⟨vec, c''⟩, hv, he⟩ := h
    cases he
    exact getVector_flags hv
  | getStringVector k =>
    simp only [Query.ask, CConfigFile.getStringVector, Option.map_eq_some_iff] at h
    obtain ⟨⟨vec, c''⟩, hv, he⟩ := h
    cases he
    exact getVector_flags hv

/-- What every setter does, whatever it stores. -/
theorem exec_spec (c : CConfigFile) (a : Assign) :
    SameOutside a.key c (a.exec c) ∧
    (a.exec c).unknownKeyQueryedFlag = c.unknownKeyQueryedFlag ∧
    ((a.exec c).modifiedFlag = false →
      c.modifiedFlag = false ∧ (a.exec c).configData = c.configData) := by
  cases a with
  | setBool k v => exact have h := setBool_assigned c k v; ⟨h.outside, h.queried, h.unmodified⟩
  | setInt32 k v => exact have h := setInt32_assigned c k v; ⟨h.outside, h.queried, h.unmodified⟩
  | setInt64 k v => exact have h := setInt64_assigned c k v; ⟨h.outside, h.queried, h.unmodified⟩
  | setString k v => exact have h := setText_assigned c k v; ⟨h.outside, h.queried, h.unmodified⟩
  | setInt32Vector k v | setStringVector k v =>
     exact have h := setText_assigned c k _; ⟨h.outside, h.queried, h.unmodified⟩

/-- The object right after a successful load or save of `data`. -/
inductive Synced : CConfigFile → OrdMap Str Str → Prop
  | loaded (c : CConfigFile) (s : Str) (delim : Byte) :
      Synced (c.loadConfig (some s) delim).2 (fileData delim s)
  | saved (c : CConfigFile) (delim : Byte) : Synced (c.saveConfig true delim).2 c.configData

theorem Synced.data {c : CConfigFile} {d : OrdMap Str Str} (h : Synced c d) : c.configData = d := by
  cases h with
  | loaded c s delim => exact loadConfig_data c s delim
  | saved c delim => rfl

def CConfigFile.cleared (c : CConfigFile) : CConfigFile :=
  { c with modifiedFlag := false, unknownKeyQueryedFlag := false }

/-- Both flags down: the data is the synced data. -/
def CleanMeansSynced (data : OrdMap Str Str) (c : CConfigFile) : Prop :=
  c.modifiedFlag = false → c.unknownKeyQueryedFlag = false → c.configData = data

theorem step_clean {data : OrdMap Str Str} (c : CConfigFile) (call : Call) (c' : CConfigFile)
    (h : CleanMeansSynced data c) (hs : call.step c = some c') : CleanMeansSynced data c' := by
  intro hm hu
  cases call with
  | query q =>
    obtain ⟨⟨a, c''⟩, hask, rfl⟩ := Option.map_eq_some_iff.mp hs
    obtain ⟨hm', hu'⟩ := ask_flags hask
    obtain ⟨hq, hd⟩ := hu' hu
    exact hd.trans (h (hm' ▸ hm) hq)
  | assign a =>
    cases hs
    obtain ⟨_, hq, hd⟩ := exec_spec c a
    obtain ⟨hcm, hcd⟩ := hd hm
    exact hcd.trans (h hcm (hq ▸ hu))

theorem clean_means_synced {c c' : CConfigFile} {data : OrdMap Str Str} (hsync : Synced c data)
    (hrun : Runs (fun c call => Call.step c call) (fun _ _ => True) c.cleared c') :
    CleanMeansSynced data c' :=
  hrun.invariant (fun c a c' h _ hs => step_clean c a c' h hs) (fun _ _ => hsync.data)

/-! ## Values -/

/-- An answer depends on the text under the key, `saveDefaults` and the
delimiter only. -/
theorem ask_answer_congr {c c' : CConfigFile} (q : Query)
    (hf : c'.configData.find q.key = c.configData.find q.key)
    (hs : c'.saveDefaults = c.saveDefaults) (hd : c'.delimiter = c.delimiter) :
    (q.ask c').map Prod.fst = (q.ask c).map Prod.fst := by
  have vector (k : Str) (hf : c'.configData.find k = c.configData.find k) :
      (c'.getVector k).map Prod.fst = (c.getVector k).map Prod.fst := by
    have ht : c'.text k = c.text k := by simp [CConfigFile.text, hf]
    by_cases hlen : (c.text k).length < 65536
    · obtain ⟨_, h', _⟩ := getVector_short c' k (ht ▸ hlen)
      obtain ⟨_, h, _⟩ := getVector_short c k hlen
      simp [h, h', ht, hd]
    · rw [getVector_long c k (by omega), getVector_long c' k (by rw [ht]; omega)]
  have scalar {α : Type} (missing : Option Str → Bool) (print : α → Str) (read : Str → α) (k : Str)
      (d : α) (hf : c'.configData.find k = c.configData.find k) :
      (c'.getValue missing print read k d).1 = (c.getValue missing print read k d).1 := by
    rw [getValue_answer, getValue_answer, hf, hs]
  cases q with
  | getBool k d => simp [Query.ask, CConfigFile.getBool, scalar _ _ _ k d hf]
  | getInt32 k d => simp [Query.ask, CConfigFile.getInt32, scalar _ _ _ k d hf]
  | getInt64 k d => simp [Query.ask, CConfigFile.getInt64, scalar _ _ _ k d hf]
  | getString k d => simp [Query.ask, CConfigFile.getString, scalar _ _ _ k d hf]
  | getInt32Vector k =>
    have := congrArg (Option.map fun v => Answer.int32Vector (v.map atoi)) (vector k hf)
    simpa [Query.ask, CConfigFile.getInt32Vector, Function.comp_def] using this
  | getStringVector k =>
    have := congrArg (Option.map Answer.stringVector) (vector k hf)
    simpa [Query.ask, CConfigFile.getStringVector, Function.comp_def] using this

theorem exec_frame (c : CConfigFile) (a : Assign) (q : Query) (h : q.key ≠ a.key) :
    (q.ask (a.exec c)).map Prod.fst = (q.ask c).map Prod.fst := by
  obtain ⟨⟨hd, hs, hf⟩, _⟩ := exec_spec c a
  exact ask_answer_congr q (hf _ h) hs hd

theorem Assigned.reads {α : Type} {missing : Option Str → Bool} {read : Str → α} {c c' : CConfigFile}
    {key : Str} {val : α} (h : Assigned missing read c c' key val) (print : α → Str) (d : α) :
    (c'.getValue missing print read key d).1 = val := by
  obtain ⟨t, hf, hm, hr⟩ := h.value
  simp [getValue_answer, hf, hm, hr]

theorem setText_find (c : CConfigFile) (key text : Str) :
    (c.setValue (·.getString key []) (·.storeString key) text).text key = text := by
  obtain ⟨t, hf, _, ht⟩ := (setText_assigned c key text).value
  simpa [CConfigFile.text, hf] using ht

/-- A string vector reads back if and only if it can be told from its text. -/
theorem setStringVector_reads (c : CConfigFile) (key : Str) (vec : List Str) :
    ((c.setStringVector key vec).getStringVector key).map Prod.fst = some vec ↔
      (joinVec c.delimiter vec).length < 65536 ∧ (∀ p ∈ vec, c.delimiter ∉ p) ∧
        vec.getLast? ≠ some [] := by
  have ht := setText_find c key (joinVec c.delimiter vec)
  have hd := (setText_assigned c key (joinVec c.delimiter vec)).outside.delimiter
  rw [← elements_joinVec]
  unfold CConfigFile.setStringVector CConfigFile.getStringVector
  by_cases hlen : (joinVec c.delimiter vec).length < 65536
  · obtain ⟨_, h, _⟩ := getVector_short
      (c.setValue (·.getString key []) (·.storeString key) (joinVec c.delimiter vec)) key
      (by rw [ht]; exact hlen)
    simp [h, ht, hd, hlen]
  · rw [getVector_long _ key (by rw [ht]; omega)]
    simp [hlen]

theorem atoi_int32Texts (vec : List Int32) : (int32Texts vec).map atoi = vec := by
  simp [int32Texts, Function.comp_def, atoi_decInt]

/-- Numbers have no delimiter in them and none is empty. -/
theorem int32Texts_storable {delim : Byte} (hdelim : isDigit delim = false ∧ delim ≠ minus)
    (vec : List Int32) :
    (∀ p ∈ int32Texts vec, delim ∉ p) ∧ (int32Texts vec).getLast? ≠ some [] := by
  constructor
  · intro p hp hm
    obtain ⟨v, _, rfl⟩ := List.mem_map.mp hp
    rcases mem_decInt hm with h | h
    · rw [hdelim.1] at h; cases h
    · exact hdelim.2 h
  · rw [int32Texts, List.getLast?_map]
    intro h
    obtain ⟨v, _, hv⟩ := Option.map_eq_some_iff.mp h
    exact decInt_ne_nil _ hv

theorem setInt32Vector_reads (c : CConfigFile) (key : Str) (vec : List Int32)
    (hdelim : isDigit c.delimiter = false ∧ c.delimiter ≠ minus)
    (hlen : (joinVec c.delimiter (int32Texts vec)).length < 65536) :
    ((c.setInt32Vector key vec).getInt32Vector key).map Prod.fst = some vec := by
  have h := (setStringVector_reads c key (int32Texts vec)).mpr ⟨hlen, int32Texts_storable hdelim vec⟩
  have h' := congrArg (Option.map (List.map atoi)) h
  rw [Option.map_some, atoi_int32Texts, Option.map_map] at h'
  rw [CConfigFile.getInt32Vector, Option.map_map]
  exact h'

/-- A long text, once it is set, is never read to its end. -/
theorem setText_getVector_long (c : CConfigFile) (key text : Str) (hlen : 65536 ≤ text.length) :
    (c.setValue (·.getString key []) (·.storeString key) text).getVector key = none := by
  apply getVector_long
  rw [setText_find]
  exact hlen

theorem setInt32Vector_reads_iff (c : CConfigFile) (key : Str) (vec : List Int32)
    (hdelim : isDigit c.delimiter = false ∧ c.delimiter ≠ minus) :
    ((c.setInt32Vector key vec).getInt32Vector key).map Prod.fst = some vec ↔
      (joinVec c.delimiter (int32Texts vec)).length < 65536 := by
  constructor
  · intro h
    by_contra hlen
    have hnone := setText_getVector_long c key (joinVec c.delimiter (int32Texts vec)) (by omega)
    simp [CConfigFile.getInt32Vector, CConfigFile.setInt32Vector, hnone] at h
  · exact setInt32Vector_reads c key vec hdelim

/-- What the vector texts can hold: no delimiter inside an element, no empty
last element, and fewer than 65536 bytes. -/
def Assign.Storable (delim : Byte) : Assign → Prop
  | setInt32Vector _ vec => isDigit delim = false ∧ delim ≠ minus ∧
      (joinVec delim (int32Texts vec)).length < 65536
  | setStringVector _ vec => (joinVec delim vec).length < 65536 ∧ (∀ p ∈ vec, delim ∉ p) ∧
      vec.getLast? ≠ some []
  | _ => True

theorem exec_reads (c : CConfigFile) (a : Assign) (q : Query) (hq : a.Matches q)
    (hs : a.Storable c.delimiter) : (q.ask (a.exec c)).map Prod.fst = some a.value := by
  cases a <;> cases q <;> simp only [Assign.Matches] at hq <;> subst hq
  case setBool.getBool v k d =>
    exact congrArg (fun b => some (Answer.bool b)) ((setBool_assigned c k v).reads boolText d)
  case setInt32.getInt32 v k d =>
    exact congrArg (fun b => some (Answer.int32 b))
      ((setInt32_assigned c k v).reads (fun v => decInt v.toInt) d)
  case setInt64.getInt64 v k d =>
    exact congrArg (fun b => some (Answer.int64 b))
      ((setInt64_assigned c k v).reads (fun v => decInt v.toInt) d)
  case setString.getString v k d =>
    exact congrArg (fun b => some (Answer.string b)) ((setText_assigned c k v).reads id d)
  case setInt32Vector.getInt32Vector vec k =>
    obtain ⟨h1, h2, h3⟩ := hs
    have := congrArg (Option.map Answer.int32Vector) (setInt32Vector_reads c k vec ⟨h1, h2⟩ h3)
    simpa [Query.ask, Assign.exec, Assign.value, Function.comp_def] using this
  case setStringVector.getStringVector vec k =>
    have := congrArg (Option.map Answer.stringVector) ((setStringVector_reads c k vec).mpr hs)
    simpa [Query.ask, Assign.exec, Assign.value, Function.comp_def] using this

/-- **The flags and the values can be trusted.** With both flags down the data
is what was last loaded or saved. A setter of a storable value is read back by
the matching getter, and answers under other keys stay as they were, whatever
was stored before. Strings with the delimiter in them do not come back. -/
theorem flags_and_values_sound :
    (∀ {c c' : CConfigFile} {data : OrdMap Str Str}, Synced c data →
      Runs (fun c call => Call.step c call) (fun _ _ => True) c.cleared c' →
      c'.modifiedFlag = false → c'.unknownKeyQueryedFlag = false → c'.configData = data) ∧
    (∀ (c : CConfigFile) (a : Assign) (q : Query), a.Matches q → a.Storable c.delimiter →
      (q.ask (a.exec c)).map Prod.fst = some a.value) ∧
    (∀ (c : CConfigFile) (key : Str) (vec : List Str), (joinVec c.delimiter vec).length < 65536 →
      vec.getLast? ≠ some [] →
        (((c.setStringVector key vec).getStringVector key).map Prod.fst = some vec ↔
          ∀ p ∈ vec, c.delimiter ∉ p)) ∧
    (∀ (c : CConfigFile) (a : Assign) (q : Query), q.key ≠ a.key →
      (q.ask (a.exec c)).map Prod.fst = (q.ask c).map Prod.fst) := by
  refine ⟨fun hsync hrun => clean_means_synced hsync hrun, exec_reads, ?_, exec_frame⟩
  intro c key vec hlen hlast
  rw [setStringVector_reads, and_iff_right hlen, and_iff_left hlast]

/-- Over the text `12abc` a number is set and read, and another key keeps its
default. -/
theorem flags_and_values_sound_number :
    ((Query.getInt32 (chars "K") 7).ask
        ((Assign.setInt32 (chars "K") 13).exec
          ((create 44 true).store (chars "K") (chars "12abc")))).map
      Prod.fst = some (.int32 13) ∧
    ((Query.getInt32 (chars "L") 7).ask
        ((Assign.setInt32 (chars "K") 13).exec
          ((create 44 true).store (chars "K") (chars "12abc")))).map
      Prod.fst = some (.int32 7) := by
  have hset := flags_and_values_sound.2.1 ((create 44 true).store (chars "K") (chars "12abc"))
    (.setInt32 (chars "K") 13) (.getInt32 (chars "K") 7) rfl trivial
  have hother := flags_and_values_sound.2.2.2 ((create 44 true).store (chars "K") (chars "12abc"))
    (.setInt32 (chars "K") 13) (.getInt32 (chars "L") 7) (by decide)
  rw [hset, hother]
  decide

/-- An element with the delimiter in it comes back as two. -/
theorem string_vector_split :
    ((Query.getStringVector (chars "K")).ask
        ((Assign.setStringVector (chars "K") [chars "a,b"]).exec (create 44 true))).map Prod.fst =
      some (.stringVector [chars "a", chars "b"]) ∧
    (Assign.setStringVector (chars "K") [chars "a,b"]).value ≠ .stringVector
      [chars "a", chars "b"] := by
  decide

/-! ## Round trips of the vectors -/

/-- **When a vector reads back.** Numbers come back, whatever the delimiter that
is no part of a number, if and only if their text has fewer than 65536 bytes.
Strings without the delimiter come back if and only if that holds of their text
and the last one is not empty. In a longer text the `uint16_t` of the loop wraps
around before it reaches the end. -/
theorem vectors_read_back_iff (c : CConfigFile) (key : Str) :
    (∀ vec : List Int32, isDigit c.delimiter = false → c.delimiter ≠ minus →
      (((c.setInt32Vector key vec).getInt32Vector key).map Prod.fst = some vec ↔
        (joinVec c.delimiter (int32Texts vec)).length < 65536)) ∧
    (∀ vec : List Str, (∀ p ∈ vec, c.delimiter ∉ p) →
      (((c.setStringVector key vec).getStringVector key).map Prod.fst = some vec ↔
        (joinVec c.delimiter vec).length < 65536 ∧ vec.getLast? ≠ some [])) := by
  constructor
  · intro vec hdigit hminus
    exact setInt32Vector_reads_iff c key vec ⟨hdigit, hminus⟩
  · intro vec hfree
    rw [setStringVector_reads]
    constructor
    · rintro ⟨hlen, _, hlast⟩
      exact ⟨hlen, hlast⟩
    · rintro ⟨hlen, hlast⟩
      exact ⟨hlen, hfree, hlast⟩

/-- Two numbers and two strings, separated by commas. -/
theorem vectors_read_back_iff_pair :
    ((((create 44 false).setInt32Vector (chars "K") [-5, 7]).getInt32Vector
      (chars "K")).map Prod.fst =
      some [-5, 7]) ∧
    (((create 44 false).setStringVector (chars "K") [[], chars "b"]).getStringVector (chars "K")).map
      Prod.fst = some [[], chars "b"] :=
  ⟨((vectors_read_back_iff (create 44 false) (chars "K")).1 [-5, 7] (by decide) (by decide)).mpr
      (by decide),
    ((vectors_read_back_iff (create 44 false) (chars "K")).2 [[], chars "b"] (by decide)).mpr
      (by decide)⟩

theorem joinVec_replicate_length (delim : Byte) (p : Str) (n : Nat) :
    (joinVec delim (List.replicate (n + 1) p)).length = (n + 1) * p.length + n := by
  induction n with
  | zero => simp [joinVec]
  | succ n ih =>
    have hcons : joinVec delim (List.replicate (n + 2) p) =
        p ++ delim :: joinVec delim (List.replicate (n + 1) p) := by
      simp [joinVec, List.replicate_succ, List.intercalate_cons_cons]
    have hmul : (n + 1 + 1) * p.length = (n + 1) * p.length + p.length := Nat.succ_mul _ _
    rw [hcons, List.length_append, List.length_cons, ih]
    omega

/-- With 32769 zeros the getter does not end, in any number of rounds, and a
last empty string is lost. -/
theorem vectors_not_read_back :
    (∀ fuel, vecLoop 44
      (((create 44 false).setInt32Vector (chars "K") (List.replicate 32769 0)).text (chars "K"))
      fuel ⟨0, 0, 0, []⟩ = none) ∧
    (((create 44 false).setStringVector (chars "K") [chars "a", []]).getStringVector (chars "K")).map
      Prod.fst = some [chars "a"] := by
  constructor
  · intro fuel
    apply vecLoop_long _ fuel _ (by simp)
    have htexts : int32Texts (List.replicate 32769 0) = List.replicate 32769 (chars "0") := by
      rw [int32Texts, List.map_replicate]
      rfl
    rw [CConfigFile.setInt32Vector, setText_find, htexts, joinVec_replicate_length]
    decide
  · decide

end Tuxbox.Config
