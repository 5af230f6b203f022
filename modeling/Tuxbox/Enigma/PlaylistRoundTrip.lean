import Tuxbox.Enigma.PlaylistEntries

/-!
# A playlist read back
-/

namespace Tuxbox.Enigma

namespace Playlist

/-- What the loop sees of the entries from place `i` on. -/
def entriesPieces (current : Option Nat) : Nat → List Entry → List Str
  | _, [] => []
  | i, e :: es => entryPieces (current = some i) e ++ entriesPieces current (i + 1) es

/-- The current entry is at place `i` or behind it. -/
def Marked (current : Option Nat) (i : Nat) : Prop := ∃ c, current = some c ∧ i ≤ c

/-- The playlist is restored: the entries in order, and the current one. -/
def Restored (env : Env) (p : Playlist) : Prop :=
  ∃ st, load env (save p) = some st ∧ st.list.map Entry.saved = p.list.map Entry.saved ∧
    st.current = p.current

/-- The name is on one line, and the current entry is one of the list; no line breaks, and
the parser inverts the strings of the services. -/
structure Regular (env : Env) (p : Playlist) : Prop where
  name : Tuxbox.Clean p.name
  current : ∀ i, p.current = some i → i < p.list.length
  clean : ∀ e ∈ p.list, e.Clean
  parses : ∀ e ∈ p.list, Parses env e

/-- The words of the directives that need an entry. -/
def entryWords : List String :=
  ["#SERVICE", "#DESCRIPTION", "#LAST_ACTIVATION ", "#CURRENT_POSITION ", "#TYPE ", "#EVENT_ID ",
    "#TIME_BEGIN ", "#DURATION "]

/-- What is read in front of the entries leaves no trace in them: it is no directive for an
entry, and no file is found under it. -/
def Passed (env : Env) (line : Str) : Prop :=
  if line.head? = some hash then
    line ≠ chars "#CURRENT" ∧ ∀ key ∈ entryWords, (chars key).isPrefixOf line = false
  else env.lookupService (env.filename line) = none

section
variable {env : Env} {p : Playlist} {st st' : Loading} {es w : List Entry} {l : List Entry}
  {current cur : Option Nat} {i m : Nat} {e : Entry} {line : Str} {ps : List Str}

theorem contents_saveFrom (hes : ∀ e ∈ es, e.Clean) :
    contents 254 (saveFrom current i es) = entriesPieces current i es := by
  induction es generalizing i with
  | nil => rfl
  | cons e es ih =>
    rw [saveFrom, contents_saveEntry (hes e List.mem_cons_self),
      ih fun e' h => hes e' (List.mem_cons_of_mem e h), entriesPieces, entryPieces]
    simp only [List.append_assoc]

/-- The name in its first piece, and in later ones. -/
theorem load_save (h : Regular env p) : load env (save p) =
    (fgets 254 (p.name.drop 248) ++ entriesPieces p.current 0 p.list).foldlM (readLine env)
      ⟨p.name.take 248, [], none, false, false⟩ := by
  have hline : Tuxbox.Clean (chars "#NAME " ++ p.name) := clean_append.mpr ⟨by decide, h.name⟩
  have hname : fgets 254 (chars "#NAME " ++ p.name) =
      (chars "#NAME " ++ p.name.take 248) :: fgets 254 (p.name.drop 248) :=
    fgets_append (by decide) (by decide) hline.newline_notMem
  rw [load, save, contents_eol hline, hname, contents_saveFrom h.clean]
  rfl

/-! ## A long name -/

/-- Nothing but a name is read. -/
def Loading.Named (st : Loading) : Prop := ∃ name, st = ⟨name, [], none, false, false⟩

/-- With no entry there, a line is passed, adds one, or is an error. -/
theorem readLine_named (hst : st.Named) :
    (Passed env line → ∃ st', readLine env st line = some st' ∧ st'.Named) ∧
      (¬ Passed env line → ∀ st', readLine env st line = some st' → Above [] 1 none st') := by
  obtain ⟨name, rfl⟩ := hst
  have hback (f : Entry → Entry) (b : Bool) :
      (⟨name, [], none, false, b⟩ : Loading).setBack f = none := rfl
  have hone (st' : Loading) (x : Entry) (hlist : st'.list = [x]) (hcur : st'.current = none) :
      Above [] 1 none st' := ⟨⟨[x], hlist, Nat.le_refl 1⟩, .inl hcur⟩
  unfold readLine Passed
  split
  · unfold directive
    simp only [hback, entryWords, List.forall_mem_cons, List.not_mem_nil, false_implies,
      implies_true, and_true]
    by_cases hservice : (chars "#SERVICE").isPrefixOf line = true
    · rw [if_pos hservice]
      refine ⟨fun h => ?_, fun _ st' h => ?_⟩
      · rw [hservice] at h
        simp at h
      · obtain ⟨x, -, rfl⟩ := Option.map_eq_some_iff.mp h
        exact hone _ _ rfl rfl
    rw [if_neg hservice]
    split_ifs with h1 h2 h3 h4 h5 h6 h7 h8 h9
    iterate 8
      exact ⟨fun h => by simp_all, fun _ _ h => by cases h⟩
    · exact ⟨fun _ => ⟨_, rfl, _, rfl⟩, fun h => by simp_all⟩
    · exact ⟨fun _ => ⟨_, rfl, _, rfl⟩, fun h => by simp_all⟩
  · rw [if_neg Bool.false_ne_true, if_neg Bool.false_ne_true]
    unfold addFile
    cases hfound : env.lookupService (env.filename line) with
    | none => exact ⟨fun _ => ⟨_, rfl, _, rfl⟩, fun h => absurd rfl h⟩
    | some ref =>
      refine ⟨fun h => (by cases h), fun _ st' h => ?_⟩
      obtain rfl := Option.some_inj.mp h
      exact hone _ _ rfl rfl

theorem passed_run (hst : st.Named) (hps : ∀ q ∈ ps, Passed env q) :
    ∃ st', ps.foldlM (readLine env) st = some st' ∧ st'.Named := by
  induction ps generalizing st with
  | nil => exact ⟨st, rfl, hst⟩
  | cons q ps ih =>
    obtain ⟨st₁, hq, hst₁⟩ := (readLine_named hst).1 (hps q List.mem_cons_self)
    rw [List.foldlM_cons, hq]
    exact ih hst₁ fun r hr => hps r (List.mem_cons_of_mem q hr)

/-- What is not passed leaves an entry. -/
theorem named_run (hst : st.Named) (hrun : ps.foldlM (readLine env) st = some st') :
    (∀ q ∈ ps, Passed env q) ∧ st'.Named ∨ Above [] 1 none st' := by
  induction ps generalizing st with
  | nil =>
    obtain rfl := Option.some_inj.mp hrun
    exact .inl ⟨fun _ hq => (nomatch hq), hst⟩
  | cons q ps ih =>
    rw [List.foldlM_cons] at hrun
    obtain ⟨st₁, hq, hrest⟩ := Option.bind_eq_some_iff.mp hrun
    by_cases hpassed : Passed env q
    · obtain ⟨st₂, hq', hst₂⟩ := (readLine_named hst).1 hpassed
      obtain rfl := Option.some_inj.mp (hq.symm.trans hq')
      rcases ih hst₂ hrest with ⟨hps, hst'⟩ | habove
      · exact .inl ⟨List.forall_mem_cons.mpr ⟨hpassed, hps⟩, hst'⟩
      · exact .inr habove
    · exact .inr (((readLine_named hst).2 hpassed st₁ hq).run Nat.one_pos hrest)

/-! ## Entries that fit -/

/-- Of the entries before place `i`, only the current one is marked. -/
def Marks (current : Option Nat) (i : Nat) (cur : Option Nat) : Prop :=
  match current with
  | none => cur = none
  | some c => c < i → cur = some c

theorem Marks.step (h : Marks current i cur) {path : Str}
    (hpath : path = chars "#CURRENT" → Marked current i) : Marks current (i + 1)
      (if decide (current = some i) = true ∨ path = chars "#CURRENT" then some i else cur) := by
  simp only [decide_eq_true_eq]
  cases current with
  | none =>
    have hneither : ¬ (none = some i ∨ path = chars "#CURRENT") := by
      rintro (h | h)
      · cases h
      · obtain ⟨c, hc, -⟩ := hpath h
        cases hc
    rw [if_neg hneither]
    exact h
  | some c =>
    intro hlt
    split
    · rename_i hmark
      have hle : i ≤ c := by
        rcases hmark with h | h
        · exact Nat.le_of_eq (Option.some_inj.mp h).symm
        · obtain ⟨c', hc, hle⟩ := hpath h
          exact Option.some_inj.mp hc ▸ hle
      exact congrArg some (Nat.le_antisymm hle (Nat.le_of_lt_succ hlt))
    · rename_i hmark
      have hne : c ≠ i := fun hc => hmark (.inl (congrArg some hc))
      exact h (Nat.lt_of_le_of_ne (Nat.le_of_lt_succ hlt) hne)

/-- The run over the entries. -/
theorem entries_restored (st : Loading) (hclean : ∀ e ∈ es, e.Clean) (hparse : ∀ e ∈ es, Parses env e)
    (hfits : ∀ j e, es[j]? = some e → Fits env (Marked current (i + j)) e)
    (hlen : st.list.length = i) (hmarks : Marks current i st.current) :
    ∃ st' w, (entriesPieces current i es).foldlM (readLine env) st = some st' ∧
      st'.list = st.list ++ w ∧ w.map Entry.saved = es.map Entry.saved ∧
      Marks current (i + es.length) st'.current := by
  induction es generalizing i st with
  | nil => exact ⟨st, [], rfl, (List.append_nil _).symm, rfl, hmarks⟩
  | cons e es ih =>
    have hmem := List.mem_cons_self (a := e) (l := es)
    have hfit : Fits env (Marked current i) e := hfits 0 e rfl
    obtain ⟨st₁, x, hrun, hlist, hx, hcurrent⟩ :=
      entry_restored (hclean e hmem) (hparse e hmem) hfit st
    have hlen₁ : st₁.list.length = i + 1 := by
      rw [hlist, List.length_append, hlen, List.length_singleton]
    have hmarks₁ : Marks current (i + 1) st₁.current := by
      rw [hcurrent, hlen]
      exact hmarks.step hfit.current
    have hrest (j : Nat) (e' : Entry) (hj : es[j]? = some e') :
        Fits env (Marked current (i + 1 + j)) e' := by
      have hshift : i + 1 + j = i + (j + 1) := by omega
      rw [hshift]
      exact hfits (j + 1) e' hj
    obtain ⟨st₂, w, hrun₂, hlist₂, hw, hmarks₂⟩ :=
      ih st₁ (fun e' h => hclean e' (List.mem_cons_of_mem e h))
        (fun e' h => hparse e' (List.mem_cons_of_mem e h)) hrest hlen₁ hmarks₁
    refine ⟨st₂, x :: w, ?_, ?_, ?_, ?_⟩
    · rw [entriesPieces, foldlM_append_some hrun, hrun₂]
    · rw [hlist₂, hlist, List.append_assoc, List.singleton_append]
    · rw [List.map_cons, List.map_cons, hx, hw]
    · rwa [List.length_cons, ← Nat.succ_add_eq_add_succ]

/-! ## Entries that are restored -/

/-- An entry is added for a service. -/
theorem entry_above {b : Bool} (hclean : e.Clean) (h : Above l m cur st)
    (hrun : (entryPieces b e).foldlM (readLine env) st = some st') : Above l (m + 1) cur st' := by
  rw [entryPieces, fgets_service hclean, List.cons_append, List.foldlM_cons,
    readLine_service] at hrun
  obtain ⟨st₁, hservice, hrest⟩ := Option.bind_eq_some_iff.mp hrun
  obtain ⟨x, -, rfl⟩ := Option.map_eq_some_iff.mp hservice
  refine Above.run ?_ (Nat.succ_pos m) hrest
  exact h.pushes rfl rfl

theorem entries_above (hclean : ∀ e ∈ es, e.Clean) (h : Above l m cur st)
    (hrun : (entriesPieces current i es).foldlM (readLine env) st = some st') :
    Above l (m + es.length) cur st' := by
  induction es generalizing i m st with
  | nil =>
    obtain rfl := Option.some_inj.mp hrun
    exact h
  | cons e es ih =>
    rw [entriesPieces, List.foldlM_append] at hrun
    obtain ⟨st₁, hentry, hrest⟩ := Option.bind_eq_some_iff.mp hrun
    rw [List.length_cons, ← Nat.succ_add_eq_add_succ]
    exact ih (fun e' h => hclean e' (List.mem_cons_of_mem e h))
      (entry_above (hclean e List.mem_cons_self) h hentry) hrest

theorem entries_fit (hclean : ∀ e ∈ es, e.Clean) (hparse : ∀ e ∈ es, Parses env e)
    (hlen : st.list.length = i)
    (hrun : (entriesPieces current i es).foldlM (readLine env) st = some st')
    (hlist : st'.list = st.list ++ w) (hw : w.map Entry.saved = es.map Entry.saved)
    (hcurrent : st'.current = current) (j : Nat) (e : Entry) (hj : es[j]? = some e) :
    Fits env (Marked current (i + j)) e := by
  induction es generalizing i j st w with
  | nil => cases hj
  | cons e' es ih =>
    have hmem := List.mem_cons_self (a := e') (l := es)
    have hclean' : ∀ e ∈ es, e.Clean := fun e h => hclean e (List.mem_cons_of_mem e' h)
    rw [entriesPieces, List.foldlM_append] at hrun
    obtain ⟨st₁, hentry, hrest⟩ := Option.bind_eq_some_iff.mp hrun
    obtain ⟨x, w', rfl⟩ : ∃ x w', w = x :: w' := by
      cases w with
      | nil => cases hw
      | cons x w' => exact ⟨x, w', rfl⟩
    rw [List.map_cons, List.map_cons, List.cons.injEq] at hw
    have hwlen : w'.length = es.length := by simpa using congrArg List.length hw.2
    -- as many entries as were saved, so each of them adds one
    have hsingle : st₁.list = st.list ++ [x] := by
      obtain ⟨u, hu, hulen⟩ := (entry_above (hclean e' hmem) (Above.refl st) hentry).list
      obtain ⟨v, hv, hvlen⟩ := (entries_above hclean' (Above.refl st₁) hrest).list
      rw [hlist, hu, List.append_assoc] at hv
      have huv := List.append_cancel_left hv
      have hlens := congrArg List.length huv
      rw [List.length_cons, List.length_append] at hlens
      obtain ⟨y, rfl⟩ := List.length_eq_one_iff.mp (show u.length = 1 by omega)
      rw [hu, (List.cons.inj huv).1]
    have hfit := entry_fits (hclean e' hmem) (hparse e' hmem) hentry hsingle hw.1
    cases j with
    | zero =>
      obtain rfl := Option.some_inj.mp hj
      refine ⟨hfit.service, hfit.file, hfit.descr, hfit.path, fun hpath => ?_⟩
      have hmark := hfit.current hpath
      rcases (entries_above hclean' (Above.refl st₁) hrest).current with hsame | ⟨k, hk, hle⟩
      · exact ⟨i, by rw [← hcurrent, hsame, hmark, hlen], Nat.le_refl i⟩
      · refine ⟨k, hcurrent.symm.trans hk, ?_⟩
        rw [hsingle, List.length_append, hlen] at hle
        exact Nat.le_of_succ_le hle
    | succ j =>
      have hlen₁ : st₁.list.length = i + 1 := by
        rw [hsingle, List.length_append, hlen, List.length_singleton]
      have hlist₁ : st'.list = st₁.list ++ w' := by
        rw [hlist, hsingle, List.append_assoc, List.singleton_append]
      have hshift : i + (j + 1) = i + 1 + j := by omega
      rw [hshift]
      exact ih hclean' (fun e h => hparse e (List.mem_cons_of_mem e' h)) hlen₁ hrest hlist₁ hw.2 j hj

theorem fits_of_restored (h : Regular env p) (hrestored : Restored env p) :
    (∀ q ∈ fgets 254 (p.name.drop 248), Passed env q) ∧
      ∀ i e, p.list[i]? = some e → Fits env (Marked p.current i) e := by
  rw [Restored, load_save h, List.foldlM_append] at hrestored
  obtain ⟨st, hrun, hlist, hcurrent⟩ := hrestored
  obtain ⟨st₁, hname, hrun⟩ := Option.bind_eq_some_iff.mp hrun
  rcases named_run ⟨_, rfl⟩ hname with ⟨hpassed, name, rfl⟩ | habove
  · refine ⟨hpassed, fun i e he => ?_⟩
    have hfit : Fits env (Marked p.current (0 + i)) e :=
      entries_fit h.clean h.parses rfl hrun (List.nil_append _).symm hlist hcurrent i e he
    rwa [Nat.zero_add] at hfit
  · -- an entry too many
    obtain ⟨w, hw, hlen⟩ := (entries_above h.clean habove hrun).list
    have hsame := congrArg List.length hlist
    rw [hw, List.nil_append, List.length_map, List.length_map] at hsame
    omega

theorem restored_of_fits (h : Regular env p)
    (hname : ∀ q ∈ fgets 254 (p.name.drop 248), Passed env q)
    (hfits : ∀ i e, p.list[i]? = some e → Fits env (Marked p.current i) e) : Restored env p := by
  have hfits' (j : Nat) (e : Entry) (hj : p.list[j]? = some e) :
      Fits env (Marked p.current (0 + j)) e := by
    rw [Nat.zero_add]
    exact hfits j e hj
  have hmarks : Marks p.current 0 none := by
    unfold Marks
    split
    · rfl
    · exact fun h0 => absurd h0 (Nat.not_lt_zero _)
  obtain ⟨st₁, hrun₁, name, rfl⟩ := passed_run ⟨_, rfl⟩ hname
  obtain ⟨st, w, hrun, hlist, hw, hmarks'⟩ := entries_restored
    ⟨name, [], none, false, false⟩ h.clean h.parses hfits' rfl hmarks
  refine ⟨st, ?_, ?_, ?_⟩
  · rw [load_save h, foldlM_append_some hrun₁, hrun]
  · rw [hlist, List.nil_append, hw]
  · rw [Nat.zero_add] at hmarks'
    unfold Marks at hmarks'
    split at hmarks'
    · rename_i hnone
      rw [hmarks', hnone]
    · rename_i c hc
      rw [hmarks' (h.current c hc), hc]

end

/-! ## A timer list -/

def plainService : ServiceReference := ⟨1, 0, fun _ => 0, chars "/a"⟩

def plainEnv : Env := ⟨fun _ => [plainService], fun _ => 0, fun _ => none, []⟩

/-- A timer with a description. -/
def described (d : Str) : Entry := ⟨[plainService], plainService, d, 7, 1000, 60, 2, rfl⟩

theorem described_parses (d : Str) : Parses plainEnv (described d) := by
  have hshort : ¬ 244 < (described d).string.length := by
    have hstring : (described d).string = plainService.toString := rfl
    rw [hstring]
    decide
  exact ⟨rfl, fun hlong => absurd hlong hshort⟩

theorem described_clean {d : Str} (hd : Tuxbox.Clean d) : (described d).Clean := by
  have hpath : Tuxbox.Clean plainService.path := by decide
  refine ⟨fun r hr => ?_, hpath, hd⟩
  obtain rfl := List.mem_singleton.mp hr
  exact hpath

theorem described_fits {d : Str} {marked : Prop} (hd : ∀ k, d[240 + 254 * k]? ≠ some hash) :
    Fits plainEnv marked (described d) := by
  have hpath : plainService.path.head? ≠ some hash ∧ plainService.path ≠ chars "#CURRENT" := by
    decide
  have hlength : plainService.toString.length ≤ 244 := by decide
  exact {
    service := hlength
    file := fun _ => by simp [Env.fileLength, plainEnv, described, plainService]
    descr := hd
    path := tells_of_head hpath.1 _
    current := fun hcurrent => absurd hcurrent hpath.2 }

/-- Timers with descriptions, the last of them the current one. -/
def timers (ds : List Str) (d : Str) : Playlist :=
  ⟨chars "timer", (ds ++ [d]).map described, some ds.length⟩

theorem regular_timers {ds : List Str} {d : Str} (hds : ∀ d' ∈ ds ++ [d], Tuxbox.Clean d') :
    Regular plainEnv (timers ds d) := by
  have hmem (e : Entry) (he : e ∈ (timers ds d).list) : ∃ d' ∈ ds ++ [d], described d' = e :=
    List.mem_map.mp he
  have hname : Tuxbox.Clean (chars "timer") := by decide
  constructor
  · exact hname
  · rintro i hi
    obtain rfl := Option.some_inj.mp hi
    simp [timers]
  · intro e he
    obtain ⟨d', hd', rfl⟩ := hmem e he
    exact described_clean (hds d' hd')
  · intro e he
    obtain ⟨d', hd', rfl⟩ := hmem e he
    exact described_parses d'

/-- Text without a line break and without the sign of a directive. -/
theorem clean_replicate (n : Nat) : Tuxbox.Clean (List.replicate n 97) := by
  intro c hc
  obtain rfl := List.eq_of_mem_replicate hc
  decide

end Playlist

end Tuxbox.Enigma
