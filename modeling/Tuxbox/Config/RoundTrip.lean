import Tuxbox.Config.File

/-! What saving and loading a configuration does to its entries. The writer
escapes nothing, so the answer depends on the characters of the entry alone:
`parseLine_entry` says what the reader makes of a written line. -/
namespace Tuxbox.Config

/-- A value as the reader sees it: cut at the first `#`. -/
def cut (v : Str) : Str := v.takeWhile (fun c => !(c == hash))

theorem cut_eq_self {v : Str} : cut v = v ↔ hash ∉ v := by
  simp only [cut, List.takeWhile_eq_self_iff, Bool.not_eq_true', beq_eq_false_iff_ne]
  exact ⟨fun h hm => h hash hm rfl, fun h c hc he => h (he ▸ hc)⟩

theorem findIdx?_first {c : Byte} {k : Str} (h : c ∉ k) (v : Str) :
    (k ++ c :: v).findIdx? (· == c) = some k.length := by
  induction k with
  | nil => simp [List.findIdx?_cons]
  | cons a k ih =>
    simp only [List.mem_cons, not_or] at h
    have ha : (a == c) = false := by simpa using Ne.symm h.1
    simp [List.findIdx?_cons, ha, ih h.2]

theorem findIdx?_none {c : Byte} {s : Str} (h : c ∉ s) : s.findIdx? (· == c) = none := by
  rw [List.findIdx?_eq_none_iff]
  intro x hx
  have : x ≠ c := fun he => h (he ▸ hx)
  simpa using this

/-- The reader cuts the value at a `#` of the value; a `#` already in the key
makes the length wrap, and the value is read whole. -/
theorem parseLine_entry {delim : Byte} (hd : delim ≠ hash) {k : Str} (hk : delim ∉ k) (v : Str) :
    parseLine delim (k ++ delim :: v) = some (k, if hash ∈ k then v else cut v) := by
  have hdrop : (k ++ delim :: v).drop (k.length + 1) = v := by simp
  simp only [parseLine, findIdx?_first hk, Option.some.injEq, Prod.mk.injEq, List.take_left',
    true_and]
  by_cases hkh : hash ∈ k
  · obtain ⟨a, b, hab, ha⟩ := List.eq_append_cons_of_mem hkh
    have hline : k ++ delim :: v = a ++ hash :: (b ++ delim :: v) := by simp [hab]
    have hidx : (k ++ delim :: v).findIdx? (· == hash) = some a.length := by
      rw [hline, findIdx?_first ha]
    have hwrap : ¬ k.length + 1 ≤ a.length := by rw [hab, List.length_append, List.length_cons]; omega
    simp only [hidx, Option.getD_some, sizeSub, hwrap, if_false, substr, hdrop, hkh, if_true]
  · rw [if_neg hkh]
    by_cases hv : hash ∈ v
    · obtain ⟨t, b, htb, ht⟩ := List.eq_append_cons_of_mem hv
      have hline : k ++ delim :: v = (k ++ delim :: t) ++ hash :: b := by simp [htb]
      have hpre : hash ∉ k ++ delim :: t := by simp [hkh, ht, Ne.symm hd]
      have hidx : (k ++ delim :: v).findIdx? (· == hash) = some (k.length + 1 + t.length) := by
        rw [hline, findIdx?_first hpre]
        simp; omega
      have hcut : cut v = t := by
        have : t.takeWhile (fun c => !(c == hash)) = t := cut_eq_self.mpr ht
        simp [htb, cut, List.takeWhile_append, this]
      have hle : k.length + 1 ≤ k.length + 1 + t.length := by omega
      simp only [hidx, Option.getD_some, sizeSub, hle, if_true, substr, hdrop, hcut,
        Nat.add_sub_cancel_left]
      simp [htb]
    · have hline : hash ∉ k ++ delim :: v := by simp [hkh, hv, Ne.symm hd]
      have hlen : (k ++ delim :: v).length = k.length + 1 + v.length := by simp; omega
      have hle : k.length + 1 ≤ k.length + 1 + v.length := by omega
      simp only [findIdx?_none hline, Option.getD_none, hlen, sizeSub, hle, if_true, substr, hdrop,
        Nat.add_sub_cancel_left, List.take_length, cut_eq_self.mpr hv]

/-- Every line that contributes has the shape of a written entry. -/
theorem parseLine_some {delim : Byte} (hd : delim ≠ hash) {s k v : Str}
    (h : parseLine delim s = some (k, v)) :
    ∃ rest, s = k ++ delim :: rest ∧ delim ∉ k ∧ v = if hash ∈ k then rest else cut rest := by
  by_cases hs : delim ∈ s
  · obtain ⟨a, rest, rfl, ha⟩ := List.eq_append_cons_of_mem hs
    rw [parseLine_entry hd ha] at h
    cases h
    exact ⟨rest, rfl, ha, rfl⟩
  · simp [parseLine, findIdx?_none hs] at h

/-! ## Whole files -/

theorem foldl_loadLine (delim : Byte) (ls : List Str) (m : OrdMap Str Str) :
    ls.foldl (loadLine delim) m =
      (ls.filterMap (parseLine delim)).foldl (fun m e => m.set e.1 e.2) m := by
  induction ls generalizing m with
  | nil => rfl
  | cons s ls ih =>
    rw [List.foldl_cons, ih]
    cases h : parseLine delim s with
    | none => simp [loadLine, h]
    | some e => simp [loadLine, h]

/-- What a file contains, as a map. -/
def fileData (delim : Byte) (s : Str) : OrdMap Str Str :=
  .ofList ((lines s).filterMap (parseLine delim))

theorem loadConfig_data (c : CConfigFile) (s : Str) (delim : Byte) :
    (c.loadConfig (some s) delim).2.configData = fileData delim s :=
  foldl_loadLine delim (lines s) .empty

/-- Neither the key nor the value has a line break in it. -/
def OneLine (e : Str × Str) : Prop := newline ∉ e.1 ∧ newline ∉ e.2

theorem lines_entries {delim : Byte} (hd : delim ≠ newline) (es : List (Str × Str))
    (h : ∀ e ∈ es, OneLine e) :
    lines (es.flatMap (entryText delim)) = es.map fun e => e.1 ++ delim :: e.2 := by
  induction es with
  | nil => rfl
  | cons e es ih =>
    have he := h e List.mem_cons_self
    have hl : newline ∉ e.1 ++ delim :: e.2 := by simp [he.1, he.2, Ne.symm hd]
    rw [List.flatMap_cons, entryText, List.append_assoc, List.singleton_append, lines_append _ _ hl,
      ih fun x hx => h x (List.mem_cons_of_mem e hx), List.map_cons]

section
variable {delim : Byte} (hd : delim ≠ hash) (hn : delim ≠ newline)
include hd hn

/-- Loading what was saved, entry by entry. -/
theorem fileData_configText (m : OrdMap Str Str) (hk : ∀ e ∈ m.entries, delim ∉ e.1)
    (ho : ∀ e ∈ m.entries, OneLine e) :
    fileData delim (configText delim m) =
      .ofList (m.entries.map fun e => (e.1, if hash ∈ e.1 then e.2 else cut e.2)) := by
  unfold fileData configText
  rw [lines_entries hn _ ho, List.filterMap_map]
  congr 1
  rw [← List.filterMap_eq_map]
  apply List.filterMap_congr
  intro e he
  exact parseLine_entry hd (hk e he) e.2

/-- Entries the reader takes as they are come back. -/
theorem fileData_configText_self (m : OrdMap Str Str) (hk : ∀ e ∈ m.entries, delim ∉ e.1)
    (ho : ∀ e ∈ m.entries, OneLine e) (hh : ∀ e ∈ m.entries, hash ∉ e.1 → hash ∉ e.2) :
    fileData delim (configText delim m) = m := by
  have same : (m.entries.map fun e => (e.1, if hash ∈ e.1 then e.2 else cut e.2)) = m.entries := by
    conv_rhs => rw [← List.map_id m.entries]
    apply List.map_congr_left
    intro e he
    by_cases hm : hash ∈ e.1
    · simp [hm]
    · simp [hm, cut_eq_self.mpr (hh e he hm)]
  rw [fileData_configText hd hn m hk ho, same, OrdMap.ofList_entries]

end

/-- What a loaded entry looks like. -/
theorem fileData_entry {delim : Byte} (hd : delim ≠ hash) {s : Str} {e : Str × Str}
    (h : e ∈ (fileData delim s).entries) :
    delim ∉ e.1 ∧ OneLine e ∧ (hash ∉ e.1 → hash ∉ e.2) := by
  have hm := OrdMap.mem_of_find_ofList (((fileData delim s).find_eq_some e.1 e.2).mpr h)
  obtain ⟨l, hl, hp⟩ := List.mem_filterMap.mp hm
  obtain ⟨rest, rfl, hk, hv⟩ := parseLine_some hd hp
  have hnl := newline_notMem_lines hl
  simp only [List.mem_append, List.mem_cons, not_or] at hnl
  refine ⟨hk, ⟨hnl.1, ?_⟩, ?_⟩
  · rw [hv]
    split
    · exact hnl.2.2
    · exact fun hm => hnl.2.2 (List.takeWhile_subset _ hm)
  · intro hn
    rw [hv, if_neg hn]
    intro hm
    simpa using List.mem_takeWhile_imp hm

/-- The keys a written line can carry. -/
def PlainKeys (c : CConfigFile) : Prop :=
  ∀ k v, c.configData.find k = some v → equals ∉ k ∧ hash ∉ k ∧ newline ∉ k

/-- Saving and loading again. -/
def CConfigFile.reloaded (c fresh : CConfigFile) : CConfigFile :=
  (fresh.loadConfig (c.saveConfig true equals).1 equals).2

theorem reloaded_data (c fresh : CConfigFile) :
    (c.reloaded fresh).configData = fileData equals (configText equals c.configData) :=
  loadConfig_data fresh (configText equals c.configData) equals

theorem reloaded_restores_iff (c fresh : CConfigFile) (hkeys : PlainKeys c) :
    (c.reloaded fresh).configData = c.configData ↔
      ∀ k v, c.configData.find k = some v → hash ∉ v ∧ newline ∉ v := by
  have hd : equals ≠ hash := by decide
  have hn : equals ≠ newline := by decide
  have keys (e : Str × Str) (he : e ∈ c.configData.entries) :=
    hkeys e.1 e.2 ((c.configData.find_eq_some e.1 e.2).mpr he)
  rw [reloaded_data]
  constructor
  · intro h k v hf
    have he := (c.configData.find_eq_some k v).mp hf
    -- no loaded value has a line break, so no stored one has
    have ho (e : Str × Str) (he : e ∈ c.configData.entries) : OneLine e :=
      (fileData_entry hd (h ▸ he)).2.1
    refine ⟨?_, (ho (k, v) he).2⟩
    rw [fileData_configText hd hn _ (fun e he => (keys e he).1) ho] at h
    rw [← h] at hf
    have hm := OrdMap.mem_of_find_ofList hf
    obtain ⟨e, he', heq⟩ := List.mem_map.mp hm
    simp only [Prod.mk.injEq] at heq
    rw [← heq.2, if_neg (keys e he').2.1]
    intro hc
    simpa using List.mem_takeWhile_imp hc
  · intro h
    have vals (e : Str × Str) (he : e ∈ c.configData.entries) :=
      h e.1 e.2 ((c.configData.find_eq_some e.1 e.2).mpr he)
    exact fileData_configText_self hd hn _ (fun e he => (keys e he).1)
      (fun e he => ⟨(keys e he).2.2, (vals e he).2⟩) (fun e he _ => (vals e he).1)

/-- What was loaded once is a fixed point of saving and loading. -/
theorem reloaded_loaded (c fresh : CConfigFile) (s : Str) :
    (((c.loadConfig (some s) equals).2).reloaded fresh).configData =
      (c.loadConfig (some s) equals).2.configData := by
  have hd : equals ≠ hash := by decide
  have hn : equals ≠ newline := by decide
  rw [reloaded_data, loadConfig_data]
  exact fileData_configText_self hd hn _ (fun e he => (fileData_entry hd he).1)
    (fun e he => (fileData_entry hd he).2.1) (fun e he => (fileData_entry hd he).2.2)

/-- **The file format loses exactly values with `#` or a line break.** With
plain keys, saving and loading restores the data if and only if no value has
either character; and a second round after any load changes nothing. -/
theorem config_file_round_trip (c fresh : CConfigFile) (hkeys : PlainKeys c) :
    ((c.reloaded fresh).configData = c.configData ↔
      ∀ k v, c.configData.find k = some v → hash ∉ v ∧ newline ∉ v) ∧
    ∀ (c' fresh' : CConfigFile) (s : Str),
      (((c'.loadConfig (some s) equals).2).reloaded fresh').configData =
        (c'.loadConfig (some s) equals).2.configData :=
  ⟨reloaded_restores_iff c fresh hkeys, reloaded_loaded⟩

/-- A title with `#` in it does not come back. -/
theorem config_file_round_trip_title :
    PlainKeys ((create 44 true).storeString (chars "T") (chars "No #1")) ∧
    (((create 44 true).storeString (chars "T") (chars "No #1")).reloaded
      (create 44 true)).configData ≠
      ((create 44 true).storeString (chars "T") (chars "No #1")).configData := by
  have hkeys : PlainKeys ((create 44 true).storeString (chars "T") (chars "No #1")) := by
    intro k v h
    have hk : k = chars "T" := by
      by_contra hne
      simp [CConfigFile.storeString, CConfigFile.store, create, hne] at h
    subst hk
    decide
  refine ⟨hkeys, fun h => ?_⟩
  have := ((config_file_round_trip _ (create 44 true) hkeys).1.mp h (chars "T") (chars "No #1")
    (by decide)).1
  exact this (by decide)

end Tuxbox.Config
