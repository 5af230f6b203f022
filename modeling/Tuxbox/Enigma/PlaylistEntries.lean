import Tuxbox.Enigma.PlaylistGrowth

/-!
# Entries of a playlist read back
-/

namespace Tuxbox.Enigma

namespace Playlist

/-- What a file is to restore of an entry. -/
def Entry.saved (e : Entry) : Str × Str × Int32 × Int32 × Int32 × Int32 :=
  (e.string, e.descr, e.union, e.timeBegin, e.duration, e.type)

/-- The path that is written. -/
def Entry.refs (e : Entry) : List ServiceReference :=
  if 1 < e.services.length then e.services else [e.service]

/-- The service is on a line of 254 bytes, the length of its file is the one that is found,
no later piece of the description begins with `#`, and neither does the path, unless it says
what the entry says; `marked` is whether the current entry is this or a later one. -/
structure Fits (env : Env) (marked : Prop) (e : Entry) : Prop where
  service : e.string.length ≤ 244
  file : e.services.length ≤ 1 → e.service.data 5 = env.fileLength e.string
  descr : ∀ k, e.descr[240 + 254 * k]? ≠ some hash
  path : Tells e.service.path e
  current : e.service.path = chars "#CURRENT" → marked

/-- The parser inverts the string of a service; of a string that is cut it makes another
service. -/
structure Parses (env : Env) (e : Entry) : Prop where
  whole : env.parse e.string = e.refs
  cut : 244 < e.string.length → ∀ x, entryOf (env.parse (e.string.take 244)) = some x →
    ∀ filelength, (x.setFileLength filelength).string ≠ e.string

def entryPieces (current : Bool) (e : Entry) : List Str :=
  fgets 254 (chars "#SERVICE: " ++ e.string) ++ (descrPieces e ++ (middleLines current e ++
    fgets 254 e.service.path))

section
variable {env : Env} {st st' : Loading} {e x y : Entry} {es : List Entry} {l : List Entry}
  {line d : Str} {current : Bool} {marked : Prop}

theorem entryOf_getLast {path : List ServiceReference} {r : ServiceReference}
    (hr : path.getLast? = some r) :
    ∃ h, entryOf path = some ⟨path, r, [], -1, -1, -1, playlistEntry, h⟩ := by
  refine ⟨by rw [hr]; rfl, ?_⟩
  unfold entryOf
  split
  · rename_i h
    cases h.symm.trans hr
  · rename_i r' h
    obtain rfl := Option.some_inj.mp (h.symm.trans hr)
    rfl

theorem refs_getLast (e : Entry) : ∃ r, e.refs.getLast? = some r := by
  unfold Entry.refs
  split
  · obtain ⟨r, hr, -⟩ := Option.map_eq_some_iff.mp e.back
    exact ⟨r, hr⟩
  · exact ⟨e.service, rfl⟩

theorem string_setFileLength (hx : x.services = e.refs)
    (hservice : e.services.length ≤ 1 → x.service = e.service) (filelength : UInt32) :
    (x.setFileLength filelength).string =
      if 1 < e.services.length then e.string
      else (e.service.setFileLength filelength).toString := by
  have hservices : (x.setFileLength filelength).services = e.refs := hx
  have hback : (x.setFileLength filelength).service = x.service.setFileLength filelength := rfl
  unfold Entry.string
  rw [hservices, hback, Entry.refs]
  split
  · rfl
  · rename_i hlen
    rw [hservice (Nat.le_of_not_lt hlen)]
    exact if_neg (Nat.lt_irrefl 1)

/-- The length is one of the numbers. -/
theorem toString_eq (r : ServiceReference) : ∃ before after : Str, ∀ filelength,
    (r.setFileLength filelength).toString =
      before ++ (numeral 16 filelength.toNat ++ after) ∧
    r.toString = before ++ (numeral 16 (r.data 5).toNat ++ after) := by
  have hsplit : List.finRange 8 = [0, 1, 2, 3, 4] ++ ([5] ++ [6, 7]) := by decide
  have hsame (filelength : UInt32) (is : List (Fin 8)) (his : 5 ∉ is) :
      (is.flatMap fun i => colon :: numeral 16 ((r.setFileLength filelength).data i).toNat) =
        is.flatMap fun i => colon :: numeral 16 (r.data i).toNat := by
    apply List.flatMap_congr
    intro i hi
    have hne : i ≠ 5 := fun h5 => his (h5 ▸ hi)
    have hdata : (r.setFileLength filelength).data i = r.data i := Function.update_of_ne hne ..
    rw [hdata]
  refine ⟨decInt r.type.toInt ++ colon :: decInt r.flags.toInt ++
    ([0, 1, 2, 3, 4].flatMap fun i => colon :: numeral 16 (r.data i).toNat) ++ [colon],
    ([6, 7].flatMap fun i => colon :: numeral 16 (r.data i).toNat) ++ colon :: r.path, ?_⟩
  intro filelength
  have hfive : (r.setFileLength filelength).data 5 = filelength := by
    have hupdate : (r.setFileLength filelength).data = Function.update r.data 5 filelength := rfl
    rw [hupdate, Function.update_self]
  have hfields : (r.setFileLength filelength).type = r.type ∧
      (r.setFileLength filelength).flags = r.flags ∧
      (r.setFileLength filelength).path = r.path := ⟨rfl, rfl, rfl⟩
  unfold ServiceReference.toString
  rw [hsplit, List.flatMap_append, List.flatMap_append, List.flatMap_append, List.flatMap_append,
    hsame filelength [0, 1, 2, 3, 4] (by decide), hsame filelength [6, 7] (by decide),
    List.flatMap_singleton, List.flatMap_singleton, hfive, hfields.1, hfields.2.1, hfields.2.2]
  constructor <;> simp only [List.append_assoc, List.cons_append, List.nil_append]

/-- A different length is written differently. -/
theorem toString_setFileLength {r : ServiceReference} {filelength : UInt32} :
    (r.setFileLength filelength).toString = r.toString ↔ r.data 5 = filelength := by
  obtain ⟨before, after, h⟩ := toString_eq r
  rw [(h filelength).1, (h filelength).2]
  constructor
  · intro heq
    have hnumeral := List.append_cancel_right (List.append_cancel_left heq)
    have hvalue := congrArg (value 16) hnumeral
    rw [value_numeral (by decide) (by decide), value_numeral (by decide) (by decide)] at hvalue
    exact (UInt32.toNat_inj.mp hvalue).symm
  · rintro rfl
    rfl

theorem toString_length (r : ServiceReference) : r.path.length ≤ r.toString.length := by
  rw [ServiceReference.toString, List.length_append, List.length_cons]
  omega

/-- The path is a part of the string. -/
theorem path_length (e : Entry) : e.service.path.length ≤ e.string.length := by
  unfold Entry.string
  split
  · obtain ⟨r, hr, hpath⟩ := Option.map_eq_some_iff.mp e.back
    obtain ⟨rs, hrs⟩ := List.getLast?_eq_some_iff.mp hr
    have := toString_length r
    rw [← hpath, hrs, pathString, List.flatMap_append, List.length_append]
    simp only [List.flatMap_cons, List.flatMap_nil, List.length_append, List.length_singleton,
      List.append_nil]
    omega
  · exact toString_length e.service

/-- The first piece of a description, and the others. -/
theorem fgets_description (hd : Tuxbox.Clean d) : fgets 254 (chars "#DESCRIPTION: " ++ d) =
    (chars "#DESCRIPTION: " ++ d.take 240) :: fgets 254 (d.drop 240) := by
  have hclean : Tuxbox.Clean (chars "#DESCRIPTION: " ++ d) := clean_append.mpr ⟨by decide, hd⟩
  exact fgets_append (by decide) (by decide) hclean.newline_notMem

/-- The first piece of the service of an entry, and the others. -/
theorem fgets_service (hclean : e.Clean) : fgets 254 (chars "#SERVICE: " ++ e.string) =
    (chars "#SERVICE: " ++ e.string.take 244) :: fgets 254 (e.string.drop 244) := by
  have hline : Tuxbox.Clean (chars "#SERVICE: " ++ e.string) :=
    clean_append.mpr ⟨by decide, clean_string hclean⟩
  exact fgets_append (by decide) (by decide) hline.newline_notMem

theorem head_description (hd : Tuxbox.Clean d) :
    (∃ p ∈ fgets 254 (d.drop 240), p.head? = some hash) ↔ ∃ k, d[240 + 254 * k]? = some hash := by
  rw [head_fgets (by decide) fun h => hd.newline_notMem (List.mem_of_mem_drop h)]
  simp only [List.getElem?_drop]

/-- The pieces of a description that fits. -/
theorem descrPieces_run (he : e.Clean) (hdescr : ∀ k, e.descr[240 + 254 * k]? ≠ some hash)
    (hx : x.descr = []) {name : Str} {cur : Option Nat} :
    (descrPieces e).foldlM (readLine env) ⟨name, l ++ [x], cur, true, false⟩ =
      some ⟨name, l ++ [{ x with descr := e.descr }], cur, true, false⟩ := by
  unfold descrPieces
  split
  · have hlater : ∀ p ∈ fgets 254 (e.descr.drop 240), p.head? ≠ some hash := by
      intro p hp hhead
      obtain ⟨k, hk⟩ := (head_description he.descr).mp ⟨p, hp, hhead⟩
      exact hdescr k hk
    rw [fgets_description he.descr, List.cons_append, List.foldlM_cons, readLine_description rfl]
    refine (foldlM_append_some (descr_run hlater)).trans ?_
    rw [flatten_fgets, List.foldlM_cons, readLine_end]
    dsimp only
    rw [List.take_append_drop]
    rfl
  · rename_i hnil
    rw [not_not.mp hnil, ← hx]
    rfl

/-- An entry that is read from the service of `e`. -/
structure Begun (e x : Entry) (filelength : UInt32) : Prop where
  descr : x.descr = []
  union : x.union = -1
  timeBegin : x.timeBegin = -1
  duration : x.duration = -1
  type : x.type = playlistEntry
  string : x.string = e.string ↔ (e.services.length ≤ 1 → e.service.data 5 = filelength)

theorem entryOf_refs (e : Entry) (filelength : UInt32) :
    ∃ x, entryOf e.refs = some x ∧ Begun e (x.setFileLength filelength) filelength := by
  obtain ⟨r, hr⟩ := refs_getLast e
  obtain ⟨h, hx⟩ := entryOf_getLast hr
  refine ⟨_, hx, rfl, rfl, rfl, rfl, rfl, ?_⟩
  rw [string_setFileLength rfl]
  · split
    · rename_i hlen
      exact iff_of_true rfl fun hle => absurd hlen (Nat.not_lt_of_le hle)
    · rename_i hlen
      have hstring : e.string = e.service.toString := if_neg hlen
      rw [hstring, toString_setFileLength]
      exact ⟨fun h5 _ => h5, fun h5 => h5 (Nat.le_of_not_lt hlen)⟩
  · intro hle
    rw [Entry.refs, if_neg (Nat.not_lt_of_le hle)] at hr
    exact (Option.some_inj.mp hr).symm

/-- The service of an entry, on one line. -/
theorem service_run (hparse : Parses env e) (hclean : e.Clean) (hlen : e.string.length ≤ 244)
    (st : Loading) : ∃ x, Begun e x (env.fileLength e.string) ∧
      (fgets 254 (chars "#SERVICE: " ++ e.string)).foldlM (readLine env) st =
        some ⟨st.name, st.list ++ [x], st.current, true, false⟩ := by
  obtain ⟨x, hx, hbegun⟩ := entryOf_refs e (env.fileLength e.string)
  refine ⟨_, hbegun, ?_⟩
  rw [fgets_service hclean, List.take_of_length_le hlen, List.drop_eq_nil_of_le hlen,
    List.foldlM_cons, readLine_service, hparse.whole, hx]
  rfl

/-- A path that does not begin with `#` says nothing. -/
theorem tells_of_head (hhead : line.head? ≠ some hash) (e : Entry) : Tells line e := by
  have hne {key : String} {s : Str} (hkey : (chars key).head? = some hash)
      (h : line = chars key ++ s) : False := by
    apply hhead
    rw [h, List.head?_append, hkey]
    rfl
  constructor
  · exact fun s h => hne (by decide) h
  · exact fun s h => (hne (by decide) h).elim
  · intro key hkey s h
    exact (hne ((by decide : ∀ key ∈ ["#LAST_ACTIVATION ", "#CURRENT_POSITION ", "#EVENT_ID "],
      (chars key).head? = some hash) key hkey) h).elim
  · exact fun s h => (hne (by decide) h).elim
  · exact fun s h => (hne (by decide) h).elim
  · exact fun s h => (hne (by decide) h).elim

/-- A directive says the same of two entries with the same fields. -/
theorem Tells.congr (h : Tells line x) (hsaved : y.saved = x.saved) : Tells line y := by
  simp only [Entry.saved, Prod.mk.injEq] at hsaved
  obtain ⟨-, hdescr, hunion, hbegin, hduration, htype⟩ := hsaved
  exact ⟨h.service, fun s hs => (h.descr s hs).trans hdescr.symm,
    fun key hkey s hs => (h.union key hkey s hs).trans hunion.symm,
    fun s hs => (h.type s hs).trans htype.symm,
    fun s hs => (h.timeBegin s hs).trans hbegin.symm,
    fun s hs => (h.duration s hs).trans hduration.symm⟩

/-- An entry that fits is restored. -/
theorem entry_restored (hclean : e.Clean) (hparse : Parses env e) (hfits : Fits env marked e)
    (st : Loading) :
    ∃ st' x, (entryPieces current e).foldlM (readLine env) st = some st' ∧
      st'.list = st.list ++ [x] ∧ x.saved = e.saved ∧
      st'.current = if current = true ∨ e.service.path = chars "#CURRENT" then
        some st.list.length else st.current := by
  obtain ⟨x, hx, hservice⟩ := service_run hparse hclean hfits.service st
  let y := e.setNumbers { x with descr := e.descr }
  have hy : y.saved = e.saved := by
    have hstring : y.string = e.string := hx.string.mpr hfits.file
    rw [Entry.saved, hstring]
    rfl
  have hhead : (fgets 254 (chars "#SERVICE: " ++ e.string) ++ (descrPieces e ++
      middleLines current e)).foldlM (readLine env) st =
      some ⟨st.name, st.list ++ [y], if current then some st.list.length else st.current, true,
        false⟩ := by
    rw [foldlM_append_some hservice, foldlM_append_some (descrPieces_run hclean hfits.descr hx.descr)]
    exact middle_run hx.union hx.type hx.timeBegin hx.duration
  have hsplit : entryPieces current e = (fgets 254 (chars "#SERVICE: " ++ e.string) ++
      (descrPieces e ++ middleLines current e)) ++ fgets 254 e.service.path := by
    simp only [entryPieces, List.append_assoc]
  rw [hsplit, foldlM_append_some hhead]
  by_cases hnil : e.service.path = []
  · rw [hnil]
    refine ⟨_, y, rfl, rfl, hy, ?_⟩
    have hne : ([] : Str) ≠ chars "#CURRENT" := by decide
    simp only [hne, or_false]
  · have hlen : e.service.path.length ≤ 254 := by
      have := path_length e
      have := hfits.service
      omega
    obtain ⟨st', hpath, hlist, hcurrent⟩ := path_run env
      ⟨st.name, st.list ++ [y], if current then some st.list.length else st.current, true, false⟩
      (hfits.path.congr hy) rfl rfl rfl
    rw [fgets_short (by decide) hnil hclean.path.newline_notMem hlen, List.foldlM_cons, hpath]
    refine ⟨st', y, rfl, hlist, hy, ?_⟩
    rw [hcurrent]
    by_cases hc : e.service.path = chars "#CURRENT"
    · rw [if_pos hc, if_pos (.inr hc)]
    · rw [if_neg hc]
      simp only [hc, or_false]

/-! ## What is restored, fits -/

/-- A directive, but neither `#SERVICE` nor `#DESCRIPTION`. -/
theorem middle_other (hline : line ∈ middleLines current e) : Other line := by
  have hunion : ∀ line ∈ (unionLine e).toList, Other line := by
    unfold unionLine
    intro line hline
    split at hline
    · exact List.mem_singleton.mp hline ▸ ⟨rfl, rfl⟩
    split at hline
    · exact List.mem_singleton.mp hline ▸ ⟨rfl, rfl⟩
    split at hline
    · exact List.mem_singleton.mp hline ▸ ⟨rfl, rfl⟩
    · cases hline
  unfold middleLines numberLines at hline
  simp only [List.mem_append] at hline
  rcases hline with (((hline | hline) | hline) | hline) | hline
  · exact hunion line hline
  all_goals
    split at hline
    · exact List.mem_singleton.mp hline ▸ ⟨rfl, rfl⟩
    · cases hline

theorem string_congr (hservices : y.services = x.services) (hservice : y.service = x.service) :
    y.string = x.string := by
  unfold Entry.string
  rw [hservices, hservice]

/-- The string of the service is that of its first 244 bytes, as the parser has it. -/
theorem service_fits (hparse : Parses env e) (hclean : e.Clean) {ps : List Str}
    (hrun : (fgets 254 (chars "#SERVICE: " ++ e.string) ++ ps).foldlM (readLine env) st = some st')
    (hst' : st'.list = st.list ++ [y]) (hstring : y.string = e.string) :
    e.string.length ≤ 244 := by
  by_contra hlong
  rw [fgets_service hclean, List.cons_append, List.foldlM_cons, readLine_service] at hrun
  obtain ⟨st₁, hservice, hrest⟩ := Option.bind_eq_some_iff.mp hrun
  obtain ⟨x, hx, rfl⟩ := Option.map_eq_some_iff.mp hservice
  obtain ⟨hservices, hservice⟩ := run_last hrest rfl hst'
  apply hparse.cut (Nat.lt_of_not_le hlong) x hx (env.fileLength (e.string.take 244))
  exact (string_congr hservices hservice).symm.trans hstring

/-- A path is too short to restore a long description. -/
theorem path_descr (hlong : 240 < e.descr.length) (hpath : e.service.path.length ≤ 244)
    (hx : x.descr.length < e.descr.length) {d : Str}
    (h : DescrStep false e.service.path x.descr d) : d ≠ e.descr := by
  intro hd
  have hlen := congrArg List.length hd
  cases h with
  | keeps => exact Nat.ne_of_lt hx hlen
  | directive s hs =>
    have htwelve : (chars "#DESCRIPTION").length = 12 := by decide
    rw [hs, List.length_append, htwelve] at hpath
    rw [List.length_drop] at hlen
    omega
  | more _ hfalse => cases hfalse

/-- A description is restored if no later piece begins with `#`. -/
theorem descr_fits (hclean : e.Clean) (hpath : e.service.path.length ≤ 244)
    (hst : st.list = l ++ [x])
    (hrun : (descrPieces e ++ (middleLines current e ++ fgets 254 e.service.path)).foldlM
      (readLine env) st = some st') (hst' : st'.list = l ++ [y]) (hdescr : y.descr = e.descr)
    (k : Nat) : e.descr[240 + 254 * k]? ≠ some hash := by
  intro hhash
  have hlong : 240 < e.descr.length := by
    have := (List.getElem?_eq_some_iff.mp hhash).1
    omega
  have hne : e.descr ≠ [] := by
    intro hnil
    rw [hnil] at hlong
    exact absurd hlong (by decide)
  have hsplit : descrPieces e ++ (middleLines current e ++ fgets 254 e.service.path) =
      (chars "#DESCRIPTION: " ++ e.descr.take 240) :: (fgets 254 (e.descr.drop 240) ++
        ((chars "#END_DESCRIPTION" :: middleLines current e) ++ fgets 254 e.service.path)) := by
    rw [descrPieces, if_pos hne, fgets_description hclean.descr]
    simp only [List.cons_append, List.append_assoc, List.nil_append]
  rw [hsplit, List.foldlM_cons, readLine_description hst] at hrun
  -- the pieces, the directives behind them, and the path
  obtain ⟨st₁, z, hpieces, hz, hrun⟩ := run_append hrun rfl hst'
  obtain ⟨st₂, w, hothers, hw, hrun⟩ := run_append hrun hz hst'
  have hshort : z.descr.length < e.descr.length := by
    have hlt := (descr_short (fun p hp => ne_nil_of_mem_fgets hp) hpieces rfl hz).2
      ((head_description hclean.descr).mpr ⟨k, hhash⟩)
    rw [flatten_fgets, ← List.length_append, List.take_append_drop] at hlt
    exact hlt
  have hother : ∀ line ∈ chars "#END_DESCRIPTION" :: middleLines current e, Other line := by
    intro line hline
    rcases List.mem_cons.mp hline with rfl | hline
    · exact ⟨rfl, rfl⟩
    · exact middle_other hline
  obtain ⟨hkept, hindescr⟩ := others_run hother (List.cons_ne_nil _ _) hothers hz hw
  rw [← hkept] at hshort
  by_cases hnil : e.service.path = []
  · rw [hnil] at hrun
    obtain rfl := Option.some_inj.mp hrun
    obtain rfl := List.singleton_inj.mp (List.append_cancel_left (hw.symm.trans hst'))
    exact Nat.ne_of_lt hshort (congrArg List.length hdescr)
  · rw [fgets_short (by decide) hnil hclean.path.newline_notMem (by omega)] at hrun
    obtain ⟨st₃, v, hline, hv, hrun⟩ := run_cons hrun hw hst'
    obtain rfl := Option.some_inj.mp hrun
    obtain rfl := List.singleton_inj.mp (List.append_cancel_left (hv.symm.trans hst'))
    have hstep := (readLine_last hline hw hv).2.2
    rw [hindescr] at hstep
    exact path_descr hlong hpath hshort hstep hdescr

/-- A path says nothing else than its entry. -/
theorem path_fits (hclean : e.Clean) (hpath : e.service.path.length ≤ 244)
    (hst : st.list = l ++ [x]) (hrun : (fgets 254 e.service.path).foldlM (readLine env) st = some st')
    (hst' : st'.list = l ++ [y]) :
    Tells e.service.path y ∧ (e.service.path = chars "#CURRENT" → st'.current = some l.length) := by
  by_cases hnil : e.service.path = []
  · rw [hnil]
    exact ⟨tells_of_head (by decide) y, fun h => absurd h (by decide)⟩
  · rw [fgets_short (by decide) hnil hclean.path.newline_notMem (by omega)] at hrun
    obtain ⟨st₁, z, hline, hz, hrun⟩ := run_cons hrun hst hst'
    obtain rfl := Option.some_inj.mp hrun
    exact path_tells hline hst hst'

/-- An entry that is restored fits. -/
theorem entry_fits (hclean : e.Clean) (hparse : Parses env e)
    (hrun : (entryPieces current e).foldlM (readLine env) st = some st')
    (hst' : st'.list = st.list ++ [y]) (hy : y.saved = e.saved) :
    Fits env (st'.current = some st.list.length) e := by
  have hsaved := hy
  simp only [Entry.saved, Prod.mk.injEq] at hsaved
  have hlen := service_fits hparse hclean hrun hst' hsaved.1
  have hpath := Nat.le_trans (path_length e) hlen
  obtain ⟨x, hx, hservice⟩ := service_run hparse hclean hlen st
  rw [entryPieces, foldlM_append_some hservice] at hrun
  obtain ⟨hservices, hback⟩ := run_last hrun rfl hst'
  have hdescr := descr_fits hclean hpath rfl hrun hst' hsaved.2.1
  rw [← List.append_assoc] at hrun
  obtain ⟨st₁, z, -, hz, hrun⟩ := run_append hrun rfl hst'
  obtain ⟨htells, hcurrent⟩ := path_fits hclean hpath hz hrun hst'
  exact {
    service := hlen
    file := hx.string.mp ((string_congr hservices hback).symm.trans hsaved.1)
    descr := hdescr
    path := htells.congr hy.symm
    current := hcurrent }

end

end Playlist

end Tuxbox.Enigma
