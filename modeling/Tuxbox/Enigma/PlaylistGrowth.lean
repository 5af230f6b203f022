import Tuxbox.Enigma.PlaylistPieces

/-!
# What any line of a playlist does
-/

namespace Tuxbox.Enigma

namespace Playlist

/-- What a line can make of the description `d`. -/
inductive DescrStep (indescr : Bool) (line : Str) (d : Str) : Str → Prop
  | keeps : DescrStep indescr line d d
  | directive (s : Str) : line = chars "#DESCRIPTION" ++ s →
      DescrStep indescr line d (s.drop (if s[0]? = some colon then 2 else 1))
  | more : line.head? ≠ some hash → indescr = true → DescrStep indescr line d (d ++ line)

/-- What a line can make of the list and the current entry. -/
inductive Step (line : Str) (st : Loading) : List Entry → Option Nat → Prop
  | keeps : Step line st st.list st.current
  | pushes (x : Entry) : Step line st (st.list ++ [x]) st.current
  | current : st.list ≠ [] → Step line st st.list (some (st.list.length - 1))
  | writes (l : List Entry) (x y : Entry) : st.list = l ++ [x] → y.services = x.services →
      y.service = x.service → DescrStep st.indescr line x.descr y.descr →
      Step line st (l ++ [y]) st.current

/-- At least `m` entries behind `l`; the current entry is the one it was, or one of them. -/
structure Above (l : List Entry) (m : Nat) (cur : Option Nat) (st : Loading) : Prop where
  list : ∃ w, st.list = l ++ w ∧ m ≤ w.length
  current : st.current = cur ∨ ∃ k, st.current = some k ∧ l.length ≤ k

/-- What a path says that is read as a directive, it says of the entry. -/
structure Tells (line : Str) (e : Entry) : Prop where
  service : ∀ s, line ≠ chars "#SERVICE" ++ s
  descr : ∀ s, line = chars "#DESCRIPTION" ++ s →
    s.drop (if s[0]? = some colon then 2 else 1) = e.descr
  union : ∀ key ∈ ["#LAST_ACTIVATION ", "#CURRENT_POSITION ", "#EVENT_ID "], ∀ s,
    line = chars key ++ s → atoi s = e.union
  type : ∀ s, line = chars "#TYPE " ++ s → atoi s = e.type
  timeBegin : ∀ s, line = chars "#TIME_BEGIN " ++ s → atoi s = e.timeBegin
  duration : ∀ s, line = chars "#DURATION " ++ s → atoi s = e.duration

section
variable {env : Env} {st st' : Loading} {e x y : Entry} {l : List Entry} {line : Str}
  {f : Entry → Entry} {m : Nat} {cur : Option Nat} {current : Bool}

theorem setBack_some (h : st.setBack f = some st') :
    ∃ l x, st.list = l ++ [x] ∧ st' = { st with list := l ++ [f x] } := by
  obtain ⟨x, hx, rfl⟩ := Option.map_eq_some_iff.mp h
  obtain ⟨l, hl⟩ := List.getLast?_eq_some_iff.mp hx
  refine ⟨l, x, hl, ?_⟩
  rw [hl, List.dropLast_concat]

theorem description_drop (s : Str) :
    (chars "#DESCRIPTION" ++ s).drop
      (if (chars "#DESCRIPTION" ++ s)[12]? = some colon then 14 else 13) =
      s.drop (if s[0]? = some colon then 2 else 1) := by
  have hcolon : (chars "#DESCRIPTION" ++ s)[12]? = s[0]? := rfl
  rw [hcolon]
  split <;> rfl

/-- A line that writes to the last entry, but not its description. -/
theorem step_setBack (h : st.setBack f = some st') (hservices : ∀ x, (f x).services = x.services)
    (hservice : ∀ x, (f x).service = x.service) (hdescr : ∀ x, (f x).descr = x.descr) :
    Step line st st'.list st'.current := by
  obtain ⟨l, x, hl, rfl⟩ := setBack_some h
  exact .writes l x (f x) hl (hservices x) (hservice x) (by rw [hdescr]; exact .keeps)

theorem directive_step (h : directive env st line = some st') :
    Step line st st'.list st'.current := by
  unfold directive at h
  split at h
  · obtain ⟨x, -, rfl⟩ := Option.map_eq_some_iff.mp h
    exact .pushes _
  split at h
  · rename_i hline
    obtain ⟨s, rfl⟩ := List.isPrefixOf_iff_prefix.mp hline
    obtain ⟨l, x, hl, rfl⟩ := setBack_some h
    exact .writes l x _ hl rfl rfl (by rw [description_drop]; exact .directive s rfl)
  split at h
  · split at h
    · cases h
    · rename_i hne
      obtain rfl := Option.some_inj.mp h
      exact .current hne
  iterate 6
    split at h
    · exact step_setBack h (fun _ => rfl) (fun _ => rfl) fun _ => rfl
  split at h
  all_goals
    obtain rfl := Option.some_inj.mp h
    exact .keeps

theorem Step.of_indescr {l' : List Entry} {cur' : Option Nat}
    (h : Step line { st with indescr := false } l' cur') : Step line st l' cur' := by
  cases h with
  | keeps => exact .keeps
  | pushes x => exact .pushes x
  | current hne => exact .current hne
  | writes l x y hl hservices hservice hdescr =>
    have hlist : st.list = l ++ [x] := hl
    apply Step.writes l x y hlist hservices hservice
    generalize y.descr = d at hdescr ⊢
    cases hdescr with
    | keeps => exact .keeps
    | directive s hs => exact .directive s hs
    | more _ hfalse => cases hfalse

/-- The list and the current entry after a line. -/
theorem readLine_step (h : readLine env st line = some st') : Step line st st'.list st'.current := by
  unfold readLine at h
  split at h
  · exact (directive_step h).of_indescr
  split at h
  · rename_i hhash hindescr
    obtain ⟨l, x, hl, rfl⟩ := setBack_some h
    exact .writes l x _ hl rfl rfl (.more hhash hindescr)
  split at h
  · obtain rfl := Option.some_inj.mp h
    exact .keeps
  · obtain rfl := Option.some_inj.mp h
    unfold addFile
    split
    · exact .keeps
    · exact .pushes _

/-! ## Nothing is taken away -/

theorem Above.refl (st : Loading) : Above st.list 0 st.current st :=
  ⟨⟨[], (List.append_nil _).symm, Nat.zero_le _⟩, .inl rfl⟩

theorem Above.pushes (h : Above l m cur st) (hlist : st'.list = st.list ++ [x])
    (hcurrent : st'.current = st.current) : Above l (m + 1) cur st' := by
  obtain ⟨w, hw, hm⟩ := h.list
  constructor
  · refine ⟨w ++ [x], ?_, ?_⟩
    · rw [hlist, hw, List.append_assoc]
    · rw [List.length_append, List.length_singleton]
      exact Nat.succ_le_succ hm
  · rw [hcurrent]
    exact h.current

theorem Above.readLine (h : Above l m cur st) (hm : 0 < m)
    (hrun : Playlist.readLine env st line = some st') : Above l m cur st' := by
  have hstep := readLine_step hrun
  obtain ⟨w, hw, hlen⟩ := h.list
  have hback (l' : List Entry) (x : Entry) (hl : l ++ w = l' ++ [x]) :
      ∃ v, l' = l ++ v ∧ v.length + 1 = w.length := by
    obtain ⟨v, z, rfl⟩ : ∃ v z, w = v ++ [z] := by
      rcases List.eq_nil_or_concat w with rfl | ⟨v, z, rfl⟩
      · exact absurd hlen (Nat.not_le_of_lt hm)
      · exact ⟨v, z, List.concat_eq_append⟩
    rw [← List.append_assoc] at hl
    refine ⟨v, (List.append_inj_left' hl rfl).symm, ?_⟩
    rw [List.length_append, List.length_singleton]
  generalize hlist : st'.list = l', hcurrent : st'.current = cur' at hstep
  cases hstep with
  | keeps => exact ⟨⟨w, hlist.trans hw, hlen⟩, hcurrent ▸ h.current⟩
  | pushes x =>
    obtain ⟨⟨v, hv, hv'⟩, hcur⟩ := h.pushes hlist hcurrent
    exact ⟨⟨v, hv, Nat.le_of_succ_le hv'⟩, hcur⟩
  | current hne =>
    refine ⟨⟨w, hlist.trans hw, hlen⟩, .inr ⟨_, hcurrent, ?_⟩⟩
    rw [hw, List.length_append]
    omega
  | writes l' x y hl =>
    obtain ⟨v, rfl, hv⟩ := hback l' x (hw ▸ hl)
    refine ⟨⟨v ++ [y], by rw [hlist, List.append_assoc], ?_⟩, hcurrent ▸ h.current⟩
    rw [List.length_append, List.length_singleton, hv]
    exact hlen

theorem Above.run {ps : List Str} (h : Above l m cur st) (hm : 0 < m)
    (hrun : ps.foldlM (Playlist.readLine env) st = some st') : Above l m cur st' := by
  induction ps generalizing st with
  | nil =>
    obtain rfl := Option.some_inj.mp hrun
    exact h
  | cons p ps ih =>
    rw [List.foldlM_cons] at hrun
    obtain ⟨st₁, hp, hps⟩ := Option.bind_eq_some_iff.mp hrun
    exact ih (h.readLine hm hp) hps

/-- If one entry is added in the end, one was there before. -/
theorem single_of_run {ps : List Str} {w : List Entry}
    (hrun : ps.foldlM (readLine env) st = some st') (hst : st.list = l ++ w) (hw : w ≠ [])
    (hst' : st'.list = l ++ [x]) : ∃ y, w = [y] := by
  have habove : Above l w.length st.current st := ⟨⟨w, hst, Nat.le_refl _⟩, .inl rfl⟩
  obtain ⟨w', hw', hlen⟩ := (habove.run (List.length_pos_of_ne_nil hw) hrun).list
  obtain rfl := List.append_cancel_left (hst'.symm.trans hw')
  apply List.length_eq_one_iff.mp
  exact Nat.le_antisymm hlen (List.length_pos_of_ne_nil hw)

theorem run_append {ps qs : List Str} (hrun : (ps ++ qs).foldlM (readLine env) st = some st')
    (hst : st.list = l ++ [x]) (hst' : st'.list = l ++ [y]) :
    ∃ st₁ z, ps.foldlM (readLine env) st = some st₁ ∧ st₁.list = l ++ [z] ∧
      qs.foldlM (readLine env) st₁ = some st' := by
  rw [List.foldlM_append] at hrun
  obtain ⟨st₁, hps, hqs⟩ := Option.bind_eq_some_iff.mp hrun
  have habove : Above l 1 st.current st := ⟨⟨[x], hst, Nat.le_refl 1⟩, .inl rfl⟩
  obtain ⟨w, hw, hlen⟩ := (habove.run Nat.one_pos hps).list
  obtain ⟨z, rfl⟩ := single_of_run hqs hw (List.length_pos_iff.mp hlen) hst'
  exact ⟨st₁, z, hps, hw, hqs⟩

theorem run_cons {p : Str} {ps : List Str}
    (hrun : (p :: ps).foldlM (readLine env) st = some st')
    (hst : st.list = l ++ [x]) (hst' : st'.list = l ++ [y]) :
    ∃ st₁ z, readLine env st p = some st₁ ∧ st₁.list = l ++ [z] ∧
      ps.foldlM (readLine env) st₁ = some st' := by
  have hsplit : p :: ps = [p] ++ ps := rfl
  rw [hsplit] at hrun
  obtain ⟨st₁, z, hp, hz, hps⟩ := run_append hrun hst hst'
  rw [List.foldlM_cons] at hp
  obtain ⟨st₂, hline, hnil⟩ := Option.bind_eq_some_iff.mp hp
  obtain rfl := Option.some_inj.mp hnil
  exact ⟨st₂, z, hline, hz, hps⟩

/-! ## The last entry -/

theorem readLine_last (h : readLine env st line = some st') (hst : st.list = l ++ [x])
    (hst' : st'.list = l ++ [y]) : y.services = x.services ∧ y.service = x.service ∧
      DescrStep st.indescr line x.descr y.descr := by
  have hstep := readLine_step h
  generalize hlist : st'.list = l', st'.current = cur' at hstep
  have hsame (heq : st.list = l') : y = x := by
    have := hst.symm.trans (heq.trans (hlist.symm.trans hst'))
    exact (List.singleton_inj.mp (List.append_cancel_left this)).symm
  cases hstep with
  | keeps =>
    obtain rfl := hsame rfl
    exact ⟨rfl, rfl, .keeps⟩
  | pushes z =>
    have hlen := congrArg List.length (hlist.symm.trans hst')
    rw [hst] at hlen
    simp at hlen
  | current =>
    obtain rfl := hsame rfl
    exact ⟨rfl, rfl, .keeps⟩
  | writes l' x' y' hl hservices hservice hdescr =>
    obtain ⟨rfl, hx⟩ := List.append_inj' (hl.symm.trans hst) rfl
    obtain rfl := List.singleton_inj.mp hx
    obtain rfl := List.singleton_inj.mp (List.append_cancel_left (hlist.symm.trans hst'))
    exact ⟨hservices, hservice, hdescr⟩

theorem run_last {ps : List Str} (hrun : ps.foldlM (readLine env) st = some st')
    (hst : st.list = l ++ [x]) (hst' : st'.list = l ++ [y]) :
    y.services = x.services ∧ y.service = x.service := by
  induction ps generalizing st x with
  | nil =>
    obtain rfl := Option.some_inj.mp hrun
    obtain rfl := List.singleton_inj.mp (List.append_cancel_left (hst.symm.trans hst'))
    exact ⟨rfl, rfl⟩
  | cons p ps ih =>
    obtain ⟨st₁, z, hp, hz, hps⟩ := run_cons hrun hst hst'
    obtain ⟨hservices, hservice, -⟩ := readLine_last hp hst hz
    obtain ⟨hservices', hservice'⟩ := ih hps hz
    exact ⟨hservices'.trans hservices, hservice'.trans hservice⟩

theorem DescrStep.length {b : Bool} {d d' : Str} (h : DescrStep b line d d') (hne : line ≠ []) :
    d'.length ≤ d.length + line.length ∧
      (line.head? = some hash → d'.length < d.length + line.length) := by
  have hpos := List.length_pos_of_ne_nil hne
  cases h with
  | keeps => omega
  | directive s hs =>
    have hline : line.length = 12 + s.length := by
      rw [hs, List.length_append]
      rfl
    rw [List.length_drop]
    omega
  | more hhash =>
    rw [List.length_append]
    exact ⟨Nat.le_refl _, fun h => absurd h hhash⟩

/-- A piece that is taken for a directive is missing. -/
theorem descr_short {ps : List Str} (hps : ∀ p ∈ ps, p ≠ [])
    (hrun : ps.foldlM (readLine env) st = some st') (hst : st.list = l ++ [x])
    (hst' : st'.list = l ++ [y]) :
    y.descr.length ≤ x.descr.length + ps.flatten.length ∧
      ((∃ p ∈ ps, p.head? = some hash) → y.descr.length < x.descr.length + ps.flatten.length) := by
  induction ps generalizing st x with
  | nil =>
    obtain rfl := Option.some_inj.mp hrun
    obtain rfl := List.singleton_inj.mp (List.append_cancel_left (hst.symm.trans hst'))
    exact ⟨Nat.le_refl _, fun ⟨_, hp, _⟩ => nomatch hp⟩
  | cons p ps ih =>
    obtain ⟨st₁, z, hp, hz, hrest⟩ := run_cons hrun hst hst'
    obtain ⟨-, -, hdescr⟩ := readLine_last hp hst hz
    obtain ⟨hle, hlt⟩ := hdescr.length (hps p List.mem_cons_self)
    obtain ⟨hle', hlt'⟩ := ih (fun q hq => hps q (List.mem_cons_of_mem p hq)) hrest hz
    rw [List.flatten_cons, List.length_append, List.exists_mem_cons_iff]
    constructor
    · omega
    · rintro (hhash | hhash)
      · have := hlt hhash
        omega
      · have := hlt' hhash
        omega

/-- A directive that is no description. -/
def Other (line : Str) : Prop :=
  line.head? = some hash ∧ (chars "#DESCRIPTION").isPrefixOf line = false

theorem setBack_indescr (h : st.setBack f = some st') : st'.indescr = st.indescr := by
  obtain ⟨l, x, -, rfl⟩ := setBack_some h
  rfl

theorem Other.indescr (hline : Other line) (h : readLine env st line = some st') :
    st'.indescr = false := by
  rw [readLine_hash hline.1] at h
  unfold directive at h
  split at h
  · obtain ⟨x, -, rfl⟩ := Option.map_eq_some_iff.mp h
    rfl
  rw [hline.2, if_neg (by decide)] at h
  split at h
  · split at h
    · cases h
    · obtain rfl := Option.some_inj.mp h
      rfl
  iterate 6
    split at h
    · exact setBack_indescr h
  split at h
  all_goals
    obtain rfl := Option.some_inj.mp h
    rfl

theorem Other.descr {b : Bool} {d d' : Str} (hline : Other line) (h : DescrStep b line d d') :
    d' = d := by
  cases h with
  | keeps => rfl
  | directive s hs =>
    have hprefix : (chars "#DESCRIPTION").isPrefixOf line = true :=
      List.isPrefixOf_iff_prefix.mpr ⟨s, hs.symm⟩
    exact absurd (hline.2.symm.trans hprefix) (by decide)
  | more hhash => exact absurd hline.1 hhash

theorem others_run {ps : List Str} (hps : ∀ p ∈ ps, Other p) (hne : ps ≠ [])
    (hrun : ps.foldlM (readLine env) st = some st') (hst : st.list = l ++ [x])
    (hst' : st'.list = l ++ [y]) : y.descr = x.descr ∧ st'.indescr = false := by
  induction ps generalizing st x with
  | nil => exact absurd rfl hne
  | cons p ps ih =>
    obtain ⟨st₁, z, hp, hz, hrest⟩ := run_cons hrun hst hst'
    obtain ⟨-, -, hdescr⟩ := readLine_last hp hst hz
    have hother := hps p List.mem_cons_self
    by_cases hnil : ps = []
    · subst hnil
      obtain rfl := Option.some_inj.mp hrest
      obtain rfl := List.singleton_inj.mp (List.append_cancel_left (hz.symm.trans hst'))
      exact ⟨hother.descr hdescr, hother.indescr hp⟩
    · obtain ⟨hd, hindescr⟩ := ih (fun q hq => hps q (List.mem_cons_of_mem p hq)) hnil hrest hz
      exact ⟨hd.trans (hother.descr hdescr), hindescr⟩

/-! ## The path -/

theorem setBack_same (hst : st.list = l ++ [x]) (hf : f x = x) : st.setBack f = some st := by
  rw [setBack_concat hst, hf, ← hst]

/-- The line of a path that says nothing else than its entry. -/
theorem path_run (env : Env) (st : Loading) (htells : Tells line x) (hst : st.list = l ++ [x])
    (hignore : st.ignoreNext = true) (hindescr : st.indescr = false) :
    ∃ st', readLine env st line = some st' ∧ st'.list = l ++ [x] ∧
      st'.current = if line = chars "#CURRENT" then some l.length else st.current := by
  by_cases hhash : line.head? = some hash
  swap
  · have hcurrent : line ≠ chars "#CURRENT" := by
      rintro rfl
      exact hhash rfl
    rw [readLine_path hhash hindescr hignore, if_neg hcurrent]
    exact ⟨_, rfl, hst, rfl⟩
  rw [readLine_hash hhash]
  by_cases hline : line = chars "#CURRENT"
  · subst hline
    rw [if_pos rfl, ← readLine_hash rfl, readLine_current hst]
    exact ⟨_, rfl, hst, rfl⟩
  rw [if_neg hline]
  have hsame {f : Entry → Entry} {b : Bool} (hf : f x = x) :
      ∃ st', { st with indescr := b }.setBack f = some st' ∧ st'.list = l ++ [x] ∧
        st'.current = st.current := by
    have hback : { st with indescr := b }.setBack f = some { st with indescr := b } :=
      setBack_same hst hf
    exact ⟨_, hback, hst, rfl⟩
  have hunion {key : String} {n : Nat}
      (hkey : key ∈ ["#LAST_ACTIVATION ", "#CURRENT_POSITION ", "#EVENT_ID "])
      (hn : (chars key).length = n) (h : (chars key).isPrefixOf line = true) :
      ∃ st', { st with indescr := false }.setBack (fun e => e.setUnion (atoi (line.drop n))) =
        some st' ∧ st'.list = l ++ [x] ∧ st'.current = st.current := by
    obtain ⟨s, rfl⟩ := List.isPrefixOf_iff_prefix.mp h
    apply hsame
    rw [List.drop_left' hn, htells.union key hkey s rfl]
    rfl
  unfold directive
  split
  · rename_i h
    obtain ⟨s, hs⟩ := List.isPrefixOf_iff_prefix.mp h
    exact absurd hs.symm (htells.service s)
  split
  · rename_i h
    obtain ⟨s, rfl⟩ := List.isPrefixOf_iff_prefix.mp h
    rw [description_drop, htells.descr s rfl]
    exact hsame rfl
  split
  · rename_i h
    exact hunion (by decide) rfl h
  split
  · rename_i h
    exact hunion (by decide) rfl h
  split
  · rename_i h
    obtain ⟨s, rfl⟩ := List.isPrefixOf_iff_prefix.mp h
    exact hsame (congrArg (fun v => x.setType v) (htells.type s rfl))
  split
  · rename_i h
    exact hunion (by decide) rfl h
  split
  · rename_i h
    obtain ⟨s, rfl⟩ := List.isPrefixOf_iff_prefix.mp h
    exact hsame (congrArg (fun v => x.setTimeBegin v) (htells.timeBegin s rfl))
  split
  · rename_i h
    obtain ⟨s, rfl⟩ := List.isPrefixOf_iff_prefix.mp h
    exact hsame (congrArg (fun v => x.setDuration v) (htells.duration s rfl))
  split
  · exact ⟨_, rfl, hst, rfl⟩
  · exact ⟨_, rfl, hst, rfl⟩

theorem setBack_last (h : st.setBack f = some st') (hst : st.list = l ++ [x])
    (hst' : st'.list = l ++ [y]) : y = f x := by
  rw [setBack_concat hst] at h
  obtain rfl := Option.some_inj.mp h
  exact (List.singleton_inj.mp (List.append_cancel_left hst')).symm

theorem key_tells {key : String} {f : Int32 → Entry → Entry} {s : Str}
    (hkey : ∀ s, readLine env st (chars key ++ s) = { st with indescr := false }.setBack
      (f (atoi s))) (h : readLine env st (chars key ++ s) = some st') (hst : st.list = l ++ [x])
    (hst' : st'.list = l ++ [y]) : y = f (atoi s) x := by
  rw [hkey] at h
  exact setBack_last h hst hst'

/-- If no entry is added at a path, it says what the entry says in the end. -/
theorem path_tells (h : readLine env st line = some st') (hst : st.list = l ++ [x])
    (hst' : st'.list = l ++ [y]) :
    Tells line y ∧ (line = chars "#CURRENT" → st'.current = some l.length) := by
  constructor
  swap
  · rintro rfl
    rw [readLine_current hst] at h
    obtain rfl := Option.some_inj.mp h
    rfl
  constructor
  · rintro s rfl
    have hpush : ∃ z, st'.list = st.list ++ [z] := by
      have hservice : directive env { st with indescr := false } (chars "#SERVICE" ++ s) =
          some st' := h
      unfold directive at hservice
      rw [if_pos (List.isPrefixOf_iff_prefix.mpr ⟨s, rfl⟩)] at hservice
      obtain ⟨z, -, rfl⟩ := Option.map_eq_some_iff.mp hservice
      exact ⟨_, rfl⟩
    obtain ⟨z, hz⟩ := hpush
    rw [hst', hst] at hz
    have hlen := congrArg List.length hz
    simp at hlen
  · rintro s rfl
    have hdescr : readLine env st (chars "#DESCRIPTION" ++ s) =
        { st with indescr := true }.setBack fun e => { e with
          descr := (chars "#DESCRIPTION" ++ s).drop
            (if (chars "#DESCRIPTION" ++ s)[12]? = some colon then 14 else 13) } := rfl
    rw [hdescr, description_drop] at h
    exact (congrArg Entry.descr (setBack_last h hst hst')).symm
  · intro key hkey s hline
    subst hline
    have hunion : y = Entry.setUnion (atoi s) x := by
      simp only [List.mem_cons, List.not_mem_nil, or_false] at hkey
      rcases hkey with rfl | rfl | rfl
      · exact key_tells (fun _ => rfl) h hst hst'
      · exact key_tells (fun _ => rfl) h hst hst'
      · exact key_tells (fun _ => rfl) h hst hst'
    rw [hunion]
    rfl
  · rintro s rfl
    have htype : y = Entry.setType (atoi s) x := key_tells (fun _ => rfl) h hst hst'
    rw [htype]
    rfl
  · rintro s rfl
    have hbegin : y = Entry.setTimeBegin (atoi s) x := key_tells (fun _ => rfl) h hst hst'
    rw [hbegin]
    rfl
  · rintro s rfl
    have hduration : y = Entry.setDuration (atoi s) x := key_tells (fun _ => rfl) h hst hst'
    rw [hduration]
    rfl

end

end Playlist

end Tuxbox.Enigma
