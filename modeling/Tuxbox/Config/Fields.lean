import Tuxbox.Config.Access

/-! Many values in one file: a configuration filled by assignments under
different keys, saved, and loaded again. Every value is then found under its
key as the text its setter prints, cut at the first `#`. -/
namespace Tuxbox.Config

/-- What a setter stores under a key that was not there. -/
def Assign.text (delim : Byte) : Assign → Str
  | setBool _ v => boolText v
  | setInt32 _ v => decInt v.toInt
  | setInt64 _ v => decInt v.toInt
  | setString _ v => v
  | setInt32Vector _ v => joinVec delim (int32Texts v)
  | setStringVector _ v => joinVec delim v

theorem setValue_text {α : Type} [DecidableEq α] (missing : Option Str → Bool) (print : α → Str)
    (read : Str → α) (hnone : missing none = true) (c : CConfigFile) (key : Str)
      (defaultVal val : α) :
    ∃ t, (c.setValue (fun c => c.getValue missing print read key defaultVal)
        (fun c v => c.store key (print v)) val).configData.find key = some t ∧
      (t = print val ∨ c.configData.find key = some t) := by
  cases hm : missing (c.configData.find key) with
  | true =>
    refine ⟨print val, ?_, Or.inl rfl⟩
    cases hs : c.saveDefaults <;>
      simp [CConfigFile.setValue, CConfigFile.getValue, hm, hs, CConfigFile.store]
  | false =>
    cases hf : c.configData.find key with
    | none => rw [hf, hnone] at hm; cases hm
    | some t =>
      rw [hf] at hm
      by_cases hv : read t = val
      · refine ⟨t, ?_, Or.inr rfl⟩
        simp [CConfigFile.setValue, CConfigFile.getValue, CConfigFile.text, hf, hm, hv]
      · refine ⟨print val, ?_, Or.inl rfl⟩
        simp [CConfigFile.setValue, CConfigFile.getValue, CConfigFile.text, hf, hm, hv,
          CConfigFile.store]

/-- A setter leaves its own text or the one that was there. -/
theorem exec_text (c : CConfigFile) (a : Assign) :
    ∃ t, (a.exec c).configData.find a.key = some t ∧
      (t = a.text c.delimiter ∨ c.configData.find a.key = some t) := by
  cases a with
  | setBool k v => exact setValue_text absent boolText readBool rfl c k false v
  | setInt32 k v =>
    exact setValue_text absentOrEmpty (fun v : Int32 => decInt v.toInt) readInt32 rfl c k 0 v
  | setInt64 k v =>
    exact setValue_text absentOrEmpty (fun v : Int64 => decInt v.toInt) readInt64 rfl c k 0 v
  | setString k v => exact setValue_text absent id id rfl c k [] v
  | setInt32Vector k v =>
    exact setValue_text absent id id rfl c k [] (joinVec c.delimiter (int32Texts v))
  | setStringVector k v => exact setValue_text absent id id rfl c k [] (joinVec c.delimiter v)

/-- Keys and texts that a line of the file can carry. -/
def Writable (data : OrdMap Str Str) : Prop :=
  ∀ k v, data.find k = some v → (equals ∉ k ∧ hash ∉ k ∧ newline ∉ k) ∧ newline ∉ v

theorem exec_writable {c : CConfigFile} {a : Assign} (h : Writable c.configData)
    (hk : equals ∉ a.key ∧ hash ∉ a.key ∧ newline ∉ a.key) (ht : newline ∉ a.text c.delimiter) :
    Writable (a.exec c).configData := by
  intro k v hf
  by_cases hkey : k = a.key
  · subst hkey
    refine ⟨hk, ?_⟩
    obtain ⟨t, hft, hor⟩ := exec_text c a
    rw [hft] at hf
    cases hf
    cases hor with
    | inl he => exact he ▸ ht
    | inr hold => exact (h _ _ hold).2
  · rw [(exec_spec c a).1.data k hkey] at hf
    exact h k v hf

/-! ## Several setters -/

def execAll (c : CConfigFile) (as : List Assign) : CConfigFile :=
  as.foldl (fun c a => a.exec c) c

theorem execAll_delimiter (c : CConfigFile) (as : List Assign) :
    (execAll c as).delimiter = c.delimiter := by
  induction as generalizing c with
  | nil => rfl
  | cons a as ih => exact (ih (a.exec c)).trans (exec_spec c a).1.delimiter

theorem execAll_other {as : List Assign} {k : Str} (h : k ∉ as.map Assign.key) (c : CConfigFile) :
    (execAll c as).configData.find k = c.configData.find k := by
  induction as generalizing c with
  | nil => rfl
  | cons a as ih =>
    simp only [List.map_cons, List.mem_cons, not_or] at h
    exact (ih h.2 (a.exec c)).trans ((exec_spec c a).1.data k h.1)

theorem execAll_find {as : List Assign} (hn : (as.map Assign.key).Nodup) {a : Assign} (ha : a ∈ as)
    (c : CConfigFile) (hc : c.configData.find a.key = none) :
    (execAll c as).configData.find a.key = some (a.text c.delimiter) := by
  induction as generalizing c with
  | nil => cases ha
  | cons b as ih =>
    obtain ⟨hb, hn⟩ := List.nodup_cons.mp hn
    cases List.mem_cons.mp ha with
    | inl he =>
      subst he
      obtain ⟨t, ht, hor⟩ := exec_text c a
      cases hor with
      | inl htext => exact (execAll_other hb (a.exec c)).trans (htext ▸ ht)
      | inr hold => rw [hc] at hold; cases hold
    | inr hmem =>
      have hne : a.key ≠ b.key := fun he => hb (he ▸ List.mem_map_of_mem hmem)
      have hab : (b.exec c).configData.find a.key = none := ((exec_spec c b).1.data _ hne).trans hc
      have := ih hn hmem (b.exec c) hab
      rwa [(exec_spec c b).1.delimiter] at this

theorem execAll_writable {as : List Assign} {c : CConfigFile} (h : Writable c.configData)
    (hk : ∀ a ∈ as, equals ∉ a.key ∧ hash ∉ a.key ∧ newline ∉ a.key)
    (ht : ∀ a ∈ as, newline ∉ a.text c.delimiter) : Writable (execAll c as).configData := by
  induction as generalizing c with
  | nil => exact h
  | cons a as ih =>
    apply ih (exec_writable h (hk a List.mem_cons_self) (ht a List.mem_cons_self))
    · exact fun b hb => hk b (List.mem_cons_of_mem a hb)
    · rw [(exec_spec c a).1.delimiter]
      exact fun b hb => ht b (List.mem_cons_of_mem a hb)

/-! ## After a reload -/

theorem hash_notMem_decInt (z : Int) : hash ∉ decInt z := by
  intro h
  cases mem_decInt h with
  | inl hd => exact absurd hd (by decide)
  | inr hm => exact absurd hm (by decide)

theorem newline_notMem_decInt (z : Int) : newline ∉ decInt z := by
  intro h
  cases mem_decInt h with
  | inl hd => exact absurd hd (by decide)
  | inr hm => exact absurd hm (by decide)

theorem mem_joinVec {delim c : Byte} {vec : List Str} (h : c ∈ joinVec delim vec) :
    c = delim ∨ ∃ t ∈ vec, c ∈ t := by
  induction vec with
  | nil => cases h
  | cons t ts ih =>
    cases ts with
    | nil => exact Or.inr ⟨t, List.mem_cons_self, by simpa [joinVec] using h⟩
    | cons u us =>
      rw [joinVec, List.intercalate_cons_cons, List.append_assoc] at h
      cases List.mem_append.mp h with
      | inl ht => exact Or.inr ⟨t, List.mem_cons_self, ht⟩
      | inr hr =>
        cases List.mem_cons.mp hr with
        | inl hd => exact Or.inl hd
        | inr hr =>
          cases ih hr with
          | inl hd => exact Or.inl hd
          | inr hm =>
            obtain ⟨v, hv, hc⟩ := hm
            exact Or.inr ⟨v, List.mem_cons_of_mem t hv, hc⟩

theorem joinVec_length_le (delim : Byte) (vec vec' : List Str) :
    (joinVec delim vec).length ≤ (joinVec delim (vec ++ vec')).length := by
  induction vec with
  | nil => simp [joinVec]
  | cons t ts ih =>
    cases ts with
    | nil =>
      cases vec' with
      | nil => simp
      | cons u us => simp [joinVec, List.intercalate_cons_cons]
    | cons u us =>
      simp only [joinVec, List.cons_append, List.intercalate_cons_cons, List.length_append] at ih ⊢
      omega

/-- Shorter elements make a shorter list. -/
theorem joinVec_length_mono (delim : Byte) {vec vec' : List Str}
    (h : List.Forall₂ (fun t t' => t.length ≤ t'.length) vec vec') :
    (joinVec delim vec).length ≤ (joinVec delim vec').length := by
  induction h with
  | nil => exact Nat.le_refl _
  | cons ht hrest ih =>
    cases hrest with
    | nil => simpa [joinVec] using ht
    | cons hu hus =>
      simp only [joinVec, List.intercalate_cons_cons, List.length_append] at ih ⊢
      omega

theorem int32Texts_append (vec vec' : List Int32) :
    int32Texts (vec ++ vec') = int32Texts vec ++ int32Texts vec' := List.map_append

/-- Every entry of a saved file is found again, cut at the first `#`. -/
theorem find_reloaded {data : OrdMap Str Str} (h : Writable data) (k : Str) :
    (fileData equals (configText equals data)).find k = (data.find k).map cut := by
  have entry (e : Str × Str) (he : e ∈ data.entries) := h e.1 e.2 ((data.find_eq_some _ _).mpr he)
  have hdata : fileData equals (configText equals data) =
      .ofList (data.entries.map fun e => (e.1, cut e.2)) := by
    rw [fileData_configText (by decide) (by decide) data (fun e he => (entry e he).1.1)
      fun e he => ⟨(entry e he).1.2.2, (entry e he).2⟩]
    congr 1
    apply List.map_congr_left
    intro e he
    rw [if_neg (entry e he).1.2.1]
  have hkeys : ((data.entries.map fun e => (e.1, cut e.2)).map Prod.fst).Nodup := by
    simpa [Function.comp_def, OrdMap.keys] using data.keys_nodup
  rw [hdata]
  apply Option.ext
  intro v
  constructor
  · intro hf
    obtain ⟨e, he, heq⟩ := List.mem_map.mp (OrdMap.mem_of_find_ofList hf)
    cases heq
    rw [(data.find_eq_some e.1 e.2).mpr he]
    rfl
  · intro hf
    obtain ⟨t, ht, rfl⟩ := Option.map_eq_some_iff.mp hf
    apply OrdMap.find_ofList_of_mem hkeys
    exact List.mem_map.mpr ⟨(k, t), (data.find_eq_some k t).mp ht, rfl⟩

end Tuxbox.Config
