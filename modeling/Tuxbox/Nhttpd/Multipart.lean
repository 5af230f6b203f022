import Tuxbox.Nhttpd.PostLines

/-!
# Multipart bodies

What a browser sends for a form with a file, and what the parser makes of the field
parts. A line that does not fit into the buffer is read in pieces.
-/

namespace Tuxbox.Nhttpd

open Prog

/-! ## Splitting -/

theorem findStr_append {what before : Str} (rest : Str)
    (h : ∀ i < before.length, ¬ what <+: before.drop i ++ what) :
    findStr what (before ++ (what ++ rest)) = some before.length := by
  unfold findStr
  rw [List.find?_range_eq_some]
  refine ⟨?_, ?_, ?_⟩
  · rw [List.drop_left, List.isPrefixOf_iff_prefix]
    exact List.prefix_append _ _
  · simp only [List.mem_range, List.length_append]
    omega
  · intro i hi
    have hdrop : (before ++ (what ++ rest)).drop i = before.drop i ++ what ++ rest := by
      rw [List.drop_append_of_le_length hi.le, List.append_assoc]
    rw [hdrop, Bool.not_eq_true', Bool.eq_false_iff]
    intro hfront
    rw [List.isPrefixOf_iff_prefix] at hfront
    refine h i hi (List.prefix_of_prefix_length_le hfront (List.prefix_append _ rest) ?_)
    rw [List.length_append]
    omega

theorem split_found {delimiter before : Str} (rest : Str)
    (h : ∀ i < before.length, ¬ delimiter <+: before.drop i ++ delimiter) :
    ySplitStringExact (before ++ (delimiter ++ rest)) delimiter = (true, before, rest) := by
  unfold ySplitStringExact
  rw [findStr_append rest h]
  simp [← List.drop_drop]

theorem split_missing {delimiter s : Str} (h : ¬ delimiter <:+: s) :
    ySplitStringExact s delimiter = (false, s, []) := by
  unfold ySplitStringExact
  have hnone : findStr delimiter s = none := by
    unfold findStr
    rw [List.find?_eq_none]
    intro i _ hfront
    rw [List.isPrefixOf_iff_prefix] at hfront
    exact h (hfront.isInfix.trans (List.drop_suffix i s).isInfix)
  rw [hnone]

def quote : Byte := 34

theorem split_quote {name : Str} (hname : quote ∉ name) (rest : Str) :
    ySplitStringExact (name ++ (chars "\"" ++ rest)) (chars "\"") = (true, name, rest) := by
  apply split_found
  intro i hi hfront
  rw [List.drop_eq_getElem_cons hi] at hfront
  have hhead := (List.cons_prefix_cons.mp hfront).1
  have hquote : quote = name[i] := hhead
  exact hname (hquote ▸ List.getElem_mem hi)

/-! ## What is sent -/

/-- A field of a body. -/
structure Field where
  name : Str
  value : Str

structure FilePart where
  name : Str
  filename : Str
  mime : Str
  content : Str

def dispositionStart : Str := chars "Content-Disposition: form-data; name=\""

def Field.disposition (f : Field) : Str := dispositionStart ++ f.name ++ chars "\"" ++ crlf

def Field.text (f : Field) : Str := f.disposition ++ crlf ++ f.value ++ crlf

def FilePart.disposition (f : FilePart) : Str :=
  dispositionStart ++ f.name ++ chars "\"; filename=\"" ++ f.filename ++ chars "\"" ++ crlf

def FilePart.contentType (f : FilePart) : Str := chars "Content-Type: " ++ f.mime ++ crlf

def FilePart.head (f : FilePart) : Str := f.disposition ++ f.contentType ++ crlf

/-- The parts of fields, each behind a line with the boundary. -/
def fieldParts (boundary : Str) (fields : List Field) : Str :=
  fields.flatMap fun f => boundary ++ crlf ++ f.text

def closing (boundary : Str) : Str := boundary ++ chars "--" ++ crlf

/-- What follows the content of the file. -/
def tail (boundary : Str) (after : List Field) : Str :=
  crlf ++ fieldParts boundary after ++ closing boundary

def body (boundary : Str) (before : List Field) (file : FilePart) (after : List Field) : Str :=
  fieldParts boundary before ++ boundary ++ crlf ++ file.head ++ file.content ++
    tail boundary after

theorem body_split (boundary : Str) (before : List Field) (file : FilePart) (after : List Field) :
    body boundary before file after = fieldParts boundary before ++
      (boundary ++ crlf ++ file.head ++ (file.content ++ tail boundary after)) := by
  simp [body]

/-- A field of one line; the boundary is not in it. -/
structure Field.WellFormed (boundary : Str) (f : Field) : Prop where
  name_quote : quote ∉ f.name
  name_line : newline ∉ f.name
  value_line : newline ∉ f.value
  text : ¬ boundary <:+: f.text

structure FilePart.WellFormed (boundary : Str) (f : FilePart) : Prop where
  name_quote : quote ∉ f.name
  name_line : newline ∉ f.name
  filename_quote : quote ∉ f.filename
  filename_line : newline ∉ f.filename
  mime_line : newline ∉ f.mime
  head : ¬ boundary <:+: f.head
  content : ¬ boundary <:+: f.content

/-! ## Reading -/

/-- The step leads there; what the log says does not matter. -/
abbrev Gives {α : Type} (p : Post α) (c : Conn) (a : α) (d : Conn) : Prop :=
  Ends (fun _ => True) p c a d

section
variable {v : Server} {boundary : Str}

/-- What one call reads of a line, its line feed taken off. -/
def firstPiece (l : Str) : Str :=
  if l.length < maxLineBuffer then l ++ [newline] else l.take maxLineBuffer

def otherPieces (l : Str) : Str :=
  if l.length < maxLineBuffer then [] else l.drop maxLineBuffer ++ [newline]

theorem pieces (l : Str) : firstPiece l ++ otherPieces l = l ++ [newline] := by
  unfold firstPiece otherPieces
  split
  · rw [List.append_nil]
  · rw [← List.append_assoc, List.take_append_drop]

theorem firstPiece_short {l : Str} (h : l.length < maxLineBuffer) :
    firstPiece l = l ++ [newline] := if_pos h

theorem lineLoop_full {l : Str} (hl : newline ∉ l) (rest buffer : Str)
    (hpos : 0 < l.length) (h : buffer.length + l.length = maxLineBuffer) :
    lineLoop buffer (l ++ rest) = (buffer ++ l, rest, true) := by
  induction l generalizing buffer with
  | nil => exact absurd hpos (Nat.lt_irrefl 0)
  | cons x l ih =>
    simp only [List.mem_cons, not_or] at hl
    simp only [List.length_cons] at h
    rw [List.cons_append, lineLoop]
    cases l with
    | nil =>
      have hstop : ¬ buffer.length < maxLineBuffer - 1 := by
        rw [List.length_nil] at h
        omega
      rw [if_pos (.inr hstop)]
      rfl
    | cons y l =>
      have hmore : ¬ (x = newline ∨ ¬ buffer.length < maxLineBuffer - 1) := by
        rintro (heq | hfull)
        · exact hl.1 heq.symm
        · simp only [List.length_cons] at h
          omega
      have hlen : (buffer ++ [x]).length + (y :: l).length = maxLineBuffer := by
        rw [List.length_append, List.length_singleton]
        omega
      rw [if_neg hmore, ih hl.2 _ (Nat.succ_pos _) hlen]
      simp

theorem gives_line {c : Conn} {l s : Str} (hl : newline ∉ l)
    (hc : c.rest = l ++ newline :: s) :
    Gives (receiveLine v) c (firstPiece l) { c with rest := otherPieces l ++ s } := by
  have hloop : lineLoop [] c.rest = (firstPiece l, otherPieces l ++ s, true) := by
    unfold firstPiece otherPieces
    split
    case isTrue hshort =>
      rw [hc, lineLoop_line hl s [] (by rw [List.length_nil]; omega)]
      rfl
    case isFalse hlong =>
      have hlen : (l.take maxLineBuffer).length = maxLineBuffer :=
        List.length_take_of_le (Nat.le_of_not_lt hlong)
      have hsplit : c.rest = l.take maxLineBuffer ++ (l.drop maxLineBuffer ++ [newline] ++ s) := by
        rw [hc, List.append_assoc, ← List.append_assoc, ← List.append_assoc,
          List.take_append_drop, List.append_assoc, List.singleton_append]
      rw [hsplit, lineLoop_full (fun hmem => hl (List.mem_of_mem_take hmem)) _ []
        (by rw [hlen]; decide) (by rw [hlen]; rfl)]
      rfl
  refine ⟨?_, fun _ _ => trivial⟩
  rw [receiveLine_run v c hloop]
  simp

/-- The rest of the request is finished, with any fuel from some amount on. -/
def Finishes (v : Server) (boundary : Str) (n : Nat) (c d : Conn) : Prop :=
  ∃ least, ∀ fuel, least ≤ fuel → Gives (boundaryLoop v boundary fuel n) c () d

def Leads (v : Server) (boundary : Str) (n : Nat) (c : Conn) (n' : Nat) (d : Conn) : Prop :=
  ∃ least, ∀ fuel, least ≤ fuel → Gives (handlePostBoundary v boundary fuel n) c n' d

theorem Finishes.step {n n' : Nat} {c d e : Conn} (h : Leads v boundary n c n' d) (hn : 0 < n')
    (hd : Finishes v boundary n' d e) : Finishes v boundary n c e := by
  obtain ⟨least, hpart⟩ := h
  obtain ⟨least', hrest⟩ := hd
  refine ⟨max least least' + 1, fun fuel hfuel => ?_⟩
  obtain ⟨fuel, rfl⟩ := Nat.exists_eq_add_of_le' hfuel
  rw [← Nat.add_assoc, boundaryLoop]
  refine ends_bind.mpr ⟨n', d, hpart _ (by omega), ?_⟩
  rw [if_pos hn]
  exact hrest _ (by omega)

theorem Finishes.last {n : Nat} {c d : Conn} (h : Leads v boundary n c 0 d) :
    Finishes v boundary n c d := by
  obtain ⟨least, hpart⟩ := h
  refine ⟨least + 1, fun fuel hfuel => ?_⟩
  obtain ⟨fuel, rfl⟩ := Nat.exists_eq_add_of_le' hfuel
  rw [← Nat.add_assoc, boundaryLoop]
  exact ends_bind.mpr ⟨0, d, hpart _ (by omega), by simp⟩

theorem gives_decrease {n k : Nat} {c : Conn} (h : k ≤ n) : Gives (decrease n k) c (n - k) c := by
  simp only [decrease, Gives, ends_bind, ends_log, ends_pure]
  exact ⟨(), c, ⟨trivial, rfl⟩, (if_pos h).symm, rfl⟩

/-- The first line of a part and what follows for its length. -/
theorem gives_counted {α : Type} {a : α} {n : Nat} {c d : Conn} {l s : Str}
    {f : Str → Nat → Post α} (hl : newline ∉ l) (hc : c.rest = l ++ newline :: s)
    (hn : (firstPiece l).length ≤ n)
    (h : Gives (f (firstPiece l) (n - (firstPiece l).length))
      { c with rest := otherPieces l ++ s } a d) :
    Gives (do
      let line ← receiveLine v
      let contentLen ← decrease n line.length
      f line contentLen) c a d := by
  refine ends_bind.mpr ⟨_, _, gives_line hl hc, ?_⟩
  exact ends_bind.mpr ⟨_, _, gives_decrease hn, h⟩

/-! ## Lines without the boundary -/

theorem part_other {n : Nat} {c : Conn} {l s : Str} (hl : newline ∉ l)
    (hc : c.rest = l ++ newline :: s) (hn : (firstPiece l).length ≤ n)
    (hb : ¬ boundary <:+: firstPiece l) :
    Leads v boundary n c (n - (firstPiece l).length) { c with rest := otherPieces l ++ s } := by
  refine ⟨0, fun fuel _ => ?_⟩
  rw [handlePostBoundary]
  refine gives_counted hl hc hn ?_
  rw [if_neg hb]
  exact ends_pure.mpr ⟨rfl, rfl⟩

theorem length_pieces (l : Str) :
    (firstPiece l).length + (otherPieces l).length = l.length + 1 := by
  rw [← List.length_append, pieces, List.length_append, List.length_singleton]

/-- Whatever is read of a line without the boundary is skipped. -/
theorem skip_line {n : Nat} {c d : Conn} {l s : Str} (hl : newline ∉ l)
    (hc : c.rest = l ++ newline :: s) (hn : l.length + 1 < n)
    (hb : ¬ boundary <:+: l ++ [newline])
    (h : Finishes v boundary (n - (l.length + 1)) { c with rest := s } d) :
    Finishes v boundary n c d := by
  induction hlen : l.length using Nat.strong_induction_on generalizing n c l with
  | _ k ih =>
    have hsum := length_pieces l
    have hpiece : ¬ boundary <:+: firstPiece l := by
      intro hmem
      exact hb (hmem.trans (pieces l ▸ (List.prefix_append _ _).isInfix))
    refine Finishes.step (part_other hl hc (by omega) hpiece) (by omega) ?_
    by_cases hshort : l.length < maxLineBuffer
    · have hother : otherPieces l = [] := if_pos hshort
      have hfirst : (firstPiece l).length = l.length + 1 := by
        rw [hother, List.length_nil] at hsum
        exact hsum
      rw [hother, List.nil_append, hfirst]
      exact h
    · have hother : otherPieces l = l.drop maxLineBuffer ++ [newline] := if_neg hshort
      have hmax : 0 < maxLineBuffer := by decide
      have hdrop : (l.drop maxLineBuffer).length = l.length - maxLineBuffer := List.length_drop
      have hlenOther : (otherPieces l).length = l.length - maxLineBuffer + 1 := by
        rw [hother, List.length_append, hdrop, List.length_singleton]
      refine ih (l.drop maxLineBuffer).length (by omega) (fun hmem => hl (List.mem_of_mem_drop hmem))
        (by simp [hother]) (by omega) ?_ ?_ rfl
      · intro hmem
        refine hb (hmem.trans ?_)
        rw [← hother, ← pieces l]
        exact (List.suffix_append _ _).isInfix
      · have heq : n - (firstPiece l).length - ((l.drop maxLineBuffer).length + 1) =
            n - (l.length + 1) := by omega
        rw [heq]
        exact h

theorem skip_pieces {n : Nat} {c d : Conn} {l s : Str} (hl : newline ∉ l)
    (hc : c.rest = otherPieces l ++ s) (hn : (otherPieces l).length < n)
    (hb : ¬ boundary <:+: l ++ [newline])
    (h : Finishes v boundary (n - (otherPieces l).length) { c with rest := s } d) :
    Finishes v boundary n c d := by
  by_cases hshort : l.length < maxLineBuffer
  · have hother : otherPieces l = [] := if_pos hshort
    rw [hother, List.nil_append] at hc
    rw [hother, List.length_nil, Nat.sub_zero, ← hc] at h
    exact h
  · have hother : otherPieces l = l.drop maxLineBuffer ++ [newline] := if_neg hshort
    have hlenOther : (otherPieces l).length = (l.drop maxLineBuffer).length + 1 := by
      rw [hother, List.length_append, List.length_singleton]
    refine skip_line (l := l.drop maxLineBuffer) (s := s)
      (fun hmem => hl (List.mem_of_mem_drop hmem)) (by rw [hc, hother]; simp) (by omega) ?_
      (by rw [← hlenOther]; exact h)
    intro hmem
    refine hb (hmem.trans ?_)
    rw [← hother, ← pieces l]
    exact (List.suffix_append _ _).isInfix

/-! ## Fields -/

/-- A text that has not the character is on one side of it. -/
theorem infix_split {w a b : Str} {x : Byte} (h : w <:+: a ++ x :: b) (hx : x ∉ w) :
    w <:+: a ∨ w <:+: b := by
  obtain ⟨p, q, heq⟩ := h
  rcases List.append_eq_append_iff.mp heq with ⟨a', ha, -⟩ | ⟨c, hc, hb⟩
  · left
    rw [ha]
    exact ⟨p, a', by simp⟩
  rcases List.append_eq_append_iff.mp hc with ⟨a', ha, hw⟩ | ⟨c', hp, hc'⟩
  · cases c with
    | nil =>
      left
      rw [ha, hw, List.append_nil]
      exact (List.suffix_append p a').isInfix
    | cons y c =>
      injection hb with hxy
      rw [hxy, hw] at hx
      exact absurd (List.mem_append_right _ List.mem_cons_self) hx
  · rw [hc'] at hb
    cases c' with
    | nil =>
      cases w with
      | nil => exact .inl List.nil_infix
      | cons y w =>
        injection hb with hxy
        exact absurd (hxy ▸ List.mem_cons_self) hx
    | cons y c' =>
      right
      injection hb with _ hb
      rw [hb]
      exact ⟨c', q, by simp⟩

theorem filename_isInfix {name r : Str} (hr : ¬ chars "filename" <:+: r)
    (h : chars "filename" <:+: dispositionStart ++ name ++ chars "\"" ++ r) :
    chars "filename" <:+: name := by
  have hquote : quote ∉ chars "filename" := by decide
  have hline : dispositionStart ++ name ++ chars "\"" ++ r =
      chars "Content-Disposition: form-data; name=" ++ quote :: (name ++ quote :: r) := by
    simp [dispositionStart, quote, chars]
  rw [hline] at h
  rcases infix_split h hquote with h | h
  · exact absurd h (by decide)
  · rcases infix_split h hquote with h | h
    · exact h
    · exact absurd h hr

theorem split_name {name r : Str} :
    ySplitStringExact (dispositionStart ++ name ++ r) (chars "name=\"") = (true,
      chars "Content-Disposition: form-data; ", name ++ r) := by
  have hline : dispositionStart ++ name ++ r =
      chars "Content-Disposition: form-data; " ++ (chars "name=\"" ++ (name ++ r)) := by
    simp [dispositionStart, chars]
  rw [hline]
  exact split_found _ (by decide)

/-- What `ReceiveLine` makes of the line that names a field. -/
theorem disposition_field {name r : Str} (hname : quote ∉ name)
    (hr : ¬ chars "filename" <:+: r) :
    disposition (dispositionStart ++ name ++ chars "\"" ++ r) =
      if chars "filename" <:+: name then none else some (.parameter name) := by
  have hsplit := @split_name name (chars "\"" ++ r)
  rw [← List.append_assoc] at hsplit
  unfold disposition
  rw [hsplit]
  dsimp only
  rw [split_quote hname]
  dsimp only
  by_cases hfile : chars "filename" <:+: name
  · have hline : chars "filename" <:+: dispositionStart ++ name ++ chars "\"" ++ r := by
      refine hfile.trans ⟨dispositionStart, chars "\"" ++ r, by simp⟩
    have hmissing : ¬ chars "filename=\"" <:+: r := fun h =>
      hr (List.IsInfix.trans ⟨[], chars "=\"", rfl⟩ h)
    rw [if_pos hline, if_pos hfile, split_missing hmissing]
  · rw [if_neg fun h => hfile (filename_isInfix hr h), if_neg hfile]

/-- A line that is cut before its second quotation mark names nothing. -/
theorem disposition_cut {name : Str} (hname : quote ∉ name) :
    disposition (dispositionStart ++ name) = none := by
  have hsplit := @split_name name []
  rw [List.append_nil, List.append_nil] at hsplit
  unfold disposition
  rw [hsplit]
  dsimp only
  have hmissing : ¬ chars "\"" <:+: name := fun h =>
    hname (h.subset (List.mem_singleton_self quote))
  rw [split_missing hmissing]

end

end Tuxbox.Nhttpd
