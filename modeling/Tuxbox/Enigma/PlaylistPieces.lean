import Tuxbox.Enigma.PlaylistFile

/-!
# The pieces of a playlist file
-/

namespace Tuxbox.Enigma

namespace Playlist

section
variable {env : Env} {st st' : Loading} {e x : Entry} {es : List Entry} {l : List Entry}
  {line rest d : Str} {v : Int32} {current : Bool}

/-! ## What is written -/

/-- The lines with the numbers of an entry. -/
def numberLines (e : Entry) : List Str :=
  (unionLine e).toList ++
  (if e.type ≠ playlistEntry then [keyed "#TYPE " e.type] else []) ++
  (if e.timeBegin ≠ -1 then [keyed "#TIME_BEGIN " e.timeBegin] else []) ++
  (if e.duration ≠ -1 then [keyed "#DURATION " e.duration] else [])

/-- The lines between the description and the path. -/
def middleLines (current : Bool) (e : Entry) : List Str :=
  numberLines e ++ if current then [chars "#CURRENT"] else []

def descrPieces (e : Entry) : List Str :=
  if e.descr ≠ [] then fgets 254 (chars "#DESCRIPTION: " ++ e.descr) ++ [chars "#END_DESCRIPTION"]
  else []

/-- No line breaks in the paths and the description. -/
structure Entry.Clean (e : Entry) : Prop where
  services : ∀ r ∈ e.services, Tuxbox.Clean r.path
  path : Tuxbox.Clean e.service.path
  descr : Tuxbox.Clean e.descr

theorem clean_decInt (n : Int) : Tuxbox.Clean (decInt n) := by
  intro c hc
  rcases mem_decInt hc with h | rfl
  · unfold isDigit at h
    refine ⟨?_, ?_, ?_⟩ <;> rintro rfl <;> exact absurd h (by decide)
  · decide

theorem clean_numeral (n : Nat) : Tuxbox.Clean (numeral 16 n) := by
  intro c hc
  have h := numeral_digits (b := 16) (by decide) (by decide) n c hc
  refine ⟨?_, ?_, ?_⟩ <;> rintro rfl <;> exact absurd h (by decide)

theorem clean_toString {r : ServiceReference} (h : Tuxbox.Clean r.path) :
    Tuxbox.Clean r.toString := by
  have hcolon : colon ≠ newline ∧ colon ≠ carriageReturn ∧ colon ≠ 0 := by decide
  unfold ServiceReference.toString
  rw [clean_append, clean_append, clean_append, clean_cons, clean_cons]
  refine ⟨⟨⟨clean_decInt _, hcolon, clean_decInt _⟩, ?_⟩, hcolon, h⟩
  intro c hc
  obtain ⟨i, -, hc⟩ := List.mem_flatMap.mp hc
  exact clean_cons.mpr ⟨hcolon, clean_numeral _⟩ c hc

theorem clean_string (h : e.Clean) : Tuxbox.Clean e.string := by
  unfold Entry.string
  split
  · intro c hc
    obtain ⟨r, hr, hc⟩ := List.mem_flatMap.mp hc
    exact clean_append.mpr ⟨clean_toString (h.services r hr), by decide⟩ c hc
  · exact clean_toString h.path

theorem clean_keyed {key : String} (hkey : Tuxbox.Clean (chars key)) (v : Int32) :
    Tuxbox.Clean (keyed key v) := clean_append.mpr ⟨hkey, clean_decInt _⟩

theorem decInt_length (v : Int32) : (decInt v.toInt).length ≤ 11 := by
  have hlow := v.le_toInt
  have hhigh := v.toInt_lt
  have hdec : (decNat v.toInt.natAbs).length ≤ 10 :=
    Nat.le_trans (decNat_length_le (b := 2147483648) (by omega)) (by decide)
  unfold decInt
  split
  · rw [List.length_cons]
    omega
  · omega

/-- Numbers are written on short lines. -/
theorem numberLine_spec (hline : line ∈ numberLines e) :
    Tuxbox.Clean line ∧ line ≠ [] ∧ line.length ≤ 254 := by
  have hkey {key : String} {v : Int32} (hkey : Tuxbox.Clean (chars key))
      (hlen : 0 < (chars key).length ∧ (chars key).length ≤ 20) :
      Tuxbox.Clean (keyed key v) ∧ keyed key v ≠ [] ∧ (keyed key v).length ≤ 254 := by
    refine ⟨clean_keyed hkey v, ?_, ?_⟩
    · intro hnil
      have := congrArg List.length hnil
      rw [keyed, List.length_append, List.length_nil] at this
      omega
    · have := decInt_length v
      rw [keyed, List.length_append]
      omega
  unfold numberLines unionLine at hline
  simp only [List.mem_append] at hline
  rcases hline with ((hline | hline) | hline) | hline
  · split at hline
    · exact List.mem_singleton.mp hline ▸ hkey (by decide) (by decide)
    split at hline
    · exact List.mem_singleton.mp hline ▸ hkey (by decide) (by decide)
    split at hline
    · exact List.mem_singleton.mp hline ▸ hkey (by decide) (by decide)
    · cases hline
  all_goals
    split at hline
    · exact List.mem_singleton.mp hline ▸ hkey (by decide) (by decide)
    · cases hline

/-- Lines are read one after the other. -/
theorem contents_lines {ls : List Str}
    (hls : ∀ line ∈ ls, Tuxbox.Clean line ∧ line ≠ [] ∧ line.length ≤ 254) :
    contents 254 ((ls.flatMap fun line => line ++ eol) ++ rest) = ls ++ contents 254 rest := by
  induction ls with
  | nil => rfl
  | cons line ls ih =>
    obtain ⟨hclean, hne, hlen⟩ := hls line List.mem_cons_self
    have hsplit : ((line :: ls).flatMap fun line => line ++ eol) ++ rest =
        line ++ carriageReturn :: newline :: ((ls.flatMap fun line => line ++ eol) ++ rest) := by
      simp [eol]
    rw [hsplit, contents_line hclean, fgets_short (by decide) hne hclean.newline_notMem hlen,
      ih fun line h => hls line (List.mem_cons_of_mem _ h)]
    rfl

theorem saveEntry_eq (current : Bool) (e : Entry) : saveEntry current e =
    (chars "#SERVICE: " ++ e.string) ++ eol ++
    ((if e.descr ≠ [] then
      chars "#DESCRIPTION: " ++ e.descr ++ eol ++ chars "#END_DESCRIPTION" ++ eol else []) ++
    ((numberLines e).flatMap (fun line => line ++ eol) ++
    ((if current then chars "#CURRENT" ++ [newline] else []) ++
    (if e.service.path ≠ [] then e.service.path ++ eol else [])))) := by
  unfold saveEntry numberLines
  have helim (o : Option Str) : o.elim [] (fun line => line ++ eol) =
      o.toList.flatMap fun line => line ++ eol := by
    cases o <;> simp
  have hite {c : Prop} [Decidable c] (line : Str) : (if c then line ++ eol else []) =
      (if c then [line] else []).flatMap fun line => line ++ eol := by
    split <;> simp
  rw [helim, hite (keyed "#TYPE " e.type), hite (keyed "#TIME_BEGIN " e.timeBegin),
    hite (keyed "#DURATION " e.duration)]
  simp only [List.flatMap_append, List.append_assoc]

theorem contents_eol (hl : Tuxbox.Clean line) :
    contents 254 (line ++ eol ++ rest) = fgets 254 line ++ contents 254 rest := by
  have hsplit : line ++ eol ++ rest = line ++ carriageReturn :: newline :: rest := by simp [eol]
  rw [hsplit, contents_line hl]

/-- What the loop of `load` sees of an entry. -/
theorem contents_saveEntry (he : e.Clean) :
    contents 254 (saveEntry current e ++ rest) =
      fgets 254 (chars "#SERVICE: " ++ e.string) ++ (descrPieces e ++ (middleLines current e ++
        (fgets 254 e.service.path ++ contents 254 rest))) := by
  have hservice : Tuxbox.Clean (chars "#SERVICE: " ++ e.string) :=
    clean_append.mpr ⟨by decide, clean_string he⟩
  have hdescr (rest : Str) : contents 254 ((if e.descr ≠ [] then chars "#DESCRIPTION: " ++ e.descr ++
      eol ++ chars "#END_DESCRIPTION" ++ eol else []) ++ rest) =
      descrPieces e ++ contents 254 rest := by
    unfold descrPieces
    split
    · have hend : contents 254 (chars "#END_DESCRIPTION" ++ eol ++ rest) =
          [chars "#END_DESCRIPTION"] ++ contents 254 rest := by
        rw [contents_eol (by decide)]
        rfl
      have hline := @contents_eol (chars "#DESCRIPTION: " ++ e.descr)
        (chars "#END_DESCRIPTION" ++ eol ++ rest)
        (clean_append.mpr ⟨(by decide : Tuxbox.Clean (chars "#DESCRIPTION: ")), he.descr⟩)
      simp only [List.append_assoc] at hline hend ⊢
      rw [hline, hend]
    · rfl
  have hcurrent (rest : Str) :
    contents 254 ((if current then chars "#CURRENT" ++ [newline] else []) ++
      rest) = (if current then [chars "#CURRENT"] else []) ++ contents 254 rest := by
    split
    · rw [List.append_assoc]
      exact contents_newline (by decide) (by decide) (by decide)
    · rfl
  have hpath (rest : Str) :
    contents 254 ((if e.service.path ≠ [] then e.service.path ++ eol else []) ++
      rest) = fgets 254 e.service.path ++ contents 254 rest := by
    split
    · exact contents_eol he.path
    · rename_i hnil
      rw [not_not.mp hnil]
      rfl
  rw [saveEntry_eq, List.append_assoc, contents_eol hservice, List.append_assoc, hdescr,
    List.append_assoc, contents_lines fun line h => numberLine_spec h, List.append_assoc, hcurrent,
    hpath, middleLines]
  simp only [List.append_assoc]

/-! ## What is read -/

theorem setBack_concat {f : Entry → Entry} (hst : st.list = l ++ [x]) :
    st.setBack f = some { st with list := l ++ [f x] } := by
  rw [Loading.setBack, hst, List.getLast?_concat, List.dropLast_concat]
  rfl

theorem readLine_hash (hline : line.head? = some hash) :
    readLine env st line = directive env { st with indescr := false } line := if_pos hline

/-- What `load` does at a line with a service. -/
theorem readLine_service (s : Str) :
    readLine env st (chars "#SERVICE: " ++ s) = (entryOf (env.parse s)).map fun e =>
      { st with
        list := st.list ++ [e.setFileLength (env.fileLength s)]
        ignoreNext := true
        indescr := false } := rfl

theorem readLine_description (hst : st.list = l ++ [x]) (s : Str) :
    readLine env st (chars "#DESCRIPTION: " ++ s) =
      some { st with list := l ++ [{ x with descr := s }], indescr := true } := by
  have hline : readLine env st (chars "#DESCRIPTION: " ++ s) =
      { st with indescr := true }.setBack fun e => { e with descr := s } := rfl
  exact hline.trans (setBack_concat hst)

theorem readLine_end : readLine env st (chars "#END_DESCRIPTION") =
    some { st with indescr := false } := rfl

theorem readLine_more (hst : st.list = l ++ [x]) (hdescr : st.indescr = true)
    (hline : line.head? ≠ some hash) :
    readLine env st line = some { st with list := l ++ [{ x with descr := x.descr ++ line }] } := by
  rw [readLine, if_neg hline, if_pos hdescr, setBack_concat hst]

theorem readLine_current (hst : st.list = l ++ [x]) : readLine env st (chars "#CURRENT") =
    some { st with current := some l.length, indescr := false } := by
  have hline : readLine env st (chars "#CURRENT") =
      if st.list = [] then none
      else some { st with indescr := false, current := some (st.list.length - 1) } := rfl
  rw [hline, hst, if_neg (by simp)]
  simp

theorem readLine_number {key : String} {f : Int32 → Entry → Entry}
    (hkey : ∀ s, readLine env st (chars key ++ s) = { st with indescr := false }.setBack
      (f (atoi s))) (hst : st.list = l ++ [x]) :
    readLine env st (keyed key v) = some { st with list := l ++ [f v x], indescr := false } := by
  rw [keyed, hkey, atoi_decInt]
  exact setBack_concat hst

def Entry.setUnion (v : Int32) (e : Entry) : Entry := { e with union := v }

def Entry.setType (v : Int32) (e : Entry) : Entry := { e with type := v }

def Entry.setTimeBegin (v : Int32) (e : Entry) : Entry := { e with timeBegin := v }

def Entry.setDuration (v : Int32) (e : Entry) : Entry := { e with duration := v }

/-- Whatever the union is, it is read back. -/
theorem readLine_union (hst : st.list = l ++ [x]) (hline : line ∈ (unionLine e).toList) :
    readLine env st line =
      some { st with list := l ++ [x.setUnion e.union], indescr := false } := by
  unfold unionLine at hline
  split at hline
  · obtain rfl := List.mem_singleton.mp hline
    exact readLine_number (f := Entry.setUnion) (fun _ => rfl) hst
  split at hline
  · obtain rfl := List.mem_singleton.mp hline
    exact readLine_number (f := Entry.setUnion) (fun _ => rfl) hst
  split at hline
  · obtain rfl := List.mem_singleton.mp hline
    exact readLine_number (f := Entry.setUnion) (fun _ => rfl) hst
  · cases hline

theorem unionLine_none (h : unionLine e = none) : e.union = -1 := by
  unfold unionLine at h
  by_contra hne
  rw [if_pos hne] at h
  split_ifs at h

theorem readLine_path (hline : line.head? ≠ some hash) (hdescr : st.indescr = false)
    (hignore : st.ignoreNext = true) :
    readLine env st line = some { st with ignoreNext := false } := by
  rw [readLine, if_neg hline, hdescr, if_neg (by decide), if_pos hignore]

/-- A number that is written unless it is the default, is read back. -/
theorem number_run {key : String} {f : Int32 → Entry → Entry} {name : Str} {cur : Option Nat}
    {w : Int32}
    (hkey : ∀ (st : Loading) s, readLine env st (chars key ++ s) =
      { st with indescr := false }.setBack (f (atoi s))) (hw : f w x = x) :
    (if v ≠ w then [keyed key v] else []).foldlM (readLine env)
      ⟨name, l ++ [x], cur, true, false⟩ = some ⟨name, l ++ [f v x], cur, true, false⟩ := by
  split
  · rw [List.foldlM_cons, readLine_number (hkey _) rfl]
    rfl
  · rename_i hv
    rw [not_not.mp hv, hw]
    rfl

theorem union_run {name : Str} {cur : Option Nat} (hunion : x.union = -1) :
    (unionLine e).toList.foldlM (readLine env) ⟨name, l ++ [x], cur, true, false⟩ =
      some ⟨name, l ++ [x.setUnion e.union], cur, true, false⟩ := by
  cases hu : unionLine e with
  | none =>
    rw [unionLine_none hu, ← hunion]
    rfl
  | some line =>
    have hline : line ∈ (unionLine e).toList := by rw [hu]; exact List.mem_singleton_self line
    rw [Option.toList_some, List.foldlM_cons, readLine_union rfl hline]
    rfl

theorem foldlM_append_some {α β : Type} {f : β → α → Option β} {as bs : List α} {b b' : β}
    (h : as.foldlM f b = some b') : (as ++ bs).foldlM f b = bs.foldlM f b' := by
  rw [List.foldlM_append, h]
  rfl

theorem current_run {name : Str} {cur : Option Nat} :
    (if current then [chars "#CURRENT"] else []).foldlM (readLine env)
      ⟨name, l ++ [x], cur, true, false⟩ =
      some ⟨name, l ++ [x], if current then some l.length else cur, true, false⟩ := by
  cases current with
  | false => rfl
  | true =>
    rw [if_pos rfl, List.foldlM_cons, readLine_current rfl]
    rfl

/-- The pieces of a description, behind the first one. -/
theorem descr_run {ps : List Str} (hps : ∀ p ∈ ps, p.head? ≠ some hash) {name : Str}
    {cur : Option Nat} :
    ps.foldlM (readLine env) ⟨name, l ++ [x], cur, true, true⟩ =
      some ⟨name, l ++ [{ x with descr := x.descr ++ ps.flatten }], cur, true, true⟩ := by
  induction ps generalizing x with
  | nil =>
    rw [List.flatten_nil, List.append_nil]
    rfl
  | cons p ps ih =>
    rw [List.foldlM_cons, readLine_more rfl rfl (hps p List.mem_cons_self)]
    have hrest := ih (x := { x with descr := x.descr ++ p })
      fun q hq => hps q (List.mem_cons_of_mem p hq)
    rw [List.append_assoc] at hrest
    exact hrest

/-- The entry with the numbers of another one. -/
def Entry.setNumbers (e x : Entry) : Entry :=
  (((x.setUnion e.union).setType e.type).setTimeBegin e.timeBegin).setDuration e.duration

/-- What `load` does at the other lines of an entry. -/
theorem middle_run {name : Str} {cur : Option Nat} (hunion : x.union = -1)
    (htype : x.type = playlistEntry) (hbegin : x.timeBegin = -1) (hduration : x.duration = -1) :
    (middleLines current e).foldlM (readLine env) ⟨name, l ++ [x], cur, true, false⟩ =
      some ⟨name, l ++ [e.setNumbers x], if current then some l.length else cur, true, false⟩ := by
  have htype' : (x.setUnion e.union).setType playlistEntry = x.setUnion e.union := by
    rw [← htype]
    rfl
  have hbegin' : ((x.setUnion e.union).setType e.type).setTimeBegin (-1) =
      (x.setUnion e.union).setType e.type := by
    rw [← hbegin]
    rfl
  have hduration' : (((x.setUnion e.union).setType e.type).setTimeBegin e.timeBegin).setDuration
      (-1) = ((x.setUnion e.union).setType e.type).setTimeBegin e.timeBegin := by
    rw [← hduration]
    rfl
  unfold middleLines numberLines
  simp only [List.append_assoc]
  rw [foldlM_append_some (union_run hunion),
    foldlM_append_some (number_run (fun _ _ => rfl) htype'),
    foldlM_append_some (number_run (fun _ _ => rfl) hbegin'),
    foldlM_append_some (number_run (fun _ _ => rfl) hduration'), current_run]
  rfl

end

end Playlist

end Tuxbox.Enigma
