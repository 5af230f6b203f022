import Tuxbox.Nhttpd.Multipart

/-!
# Fields of a multipart body

What is read of a field part, also when its lines do not fit into the buffer.
-/

namespace Tuxbox.Nhttpd

open Prog

section
variable {v : Server} {boundary : Str}

/-- What is stored for a field; nothing if it ends the request. A line that is two
characters too long is followed by what looks like an empty line and an empty value. -/
def Field.reads (f : Field) : Option Str :=
  if chars "filename" <:+: f.name then none
  else if f.disposition.length ≤ maxLineBuffer then
    some (trim (decodeString (firstPiece (f.value ++ [13]))))
  else if f.disposition.length = maxLineBuffer + 2 then some []
  else none

/-- What is left of the content too much behind a field. -/
def Field.excess (f : Field) : Nat :=
  if f.disposition.length ≤ maxLineBuffer then (firstPiece (f.value ++ [13])).length - 2 else 0

/-- A boundary as the header of a request can give it, in a line that fits the buffer. -/
structure IsBoundary (boundary : Str) : Prop where
  noReturn : (13 : Byte) ∉ boundary
  noLine : newline ∉ boundary
  fits : boundary.length + 2 ≤ maxLineBuffer

theorem IsBoundary.line (hb : IsBoundary boundary) :
    newline ∉ boundary ++ [13] ∧ firstPiece (boundary ++ [13]) = boundary ++ crlf ∧
      otherPieces (boundary ++ [13]) = [] := by
  have hshort : (boundary ++ [13]).length < maxLineBuffer := by
    have := hb.fits
    rw [List.length_append, List.length_singleton]
    omega
  refine ⟨?_, ?_, if_pos hshort⟩
  · rw [List.mem_append, List.mem_singleton]
    rintro (h | h)
    · exact hb.noLine h
    · exact absurd h (by decide)
  · rw [firstPiece_short hshort, List.append_assoc]
    rfl

/-- The line of a boundary that does not end the request. -/
theorem boundary_open :
    boundary <:+: boundary ++ crlf ∧ ¬ boundary ++ chars "--" <:+: boundary ++ crlf := by
  refine ⟨(List.prefix_append _ _).isInfix, fun h => ?_⟩
  have heq := h.eq_of_length (by simp [crlf, chars])
  exact absurd (List.append_cancel_left heq) (by decide)

/-- Behind the boundary: the line that says what the part is. -/
theorem gives_start (hb : IsBoundary boundary) {n n' fuel : Nat} {c d : Conn} {l s : Str}
    (hl : newline ∉ l) (hc : c.rest = boundary ++ crlf ++ (l ++ newline :: s))
    (hn : (boundary ++ crlf).length + (firstPiece l).length ≤ n)
    (h : Gives (if chars "Content-Disposition:" <:+: firstPiece l then
        match disposition (firstPiece l) with
        | none => pure 0
        | some (.file name filename) => handleFile v boundary fuel
            (n - (boundary ++ crlf).length - (firstPiece l).length) name filename
        | some (.parameter name) => handleParameter v
            (n - (boundary ++ crlf).length - (firstPiece l).length) name
      else pure 0) { c with rest := otherPieces l ++ s } n' d) :
    Gives (handlePostBoundary v boundary fuel n) c n' d := by
  obtain ⟨hline, hfirst, hother⟩ := hb.line
  obtain ⟨hopen, hlast⟩ := @boundary_open boundary
  rw [handlePostBoundary]
  refine gives_counted (s := l ++ newline :: s) hline (by rw [hc]; simp [crlf, newline])
    (by rw [hfirst]; omega) ?_
  rw [hfirst, if_pos hopen, if_neg hlast, hother]
  refine gives_counted (s := s) hl (by simp) (by omega) ?_
  exact h

/-- The line that names a field, without its line feed. -/
def Field.line (f : Field) : Str := dispositionStart ++ f.name ++ chars "\"" ++ [13]

theorem field_line (f : Field) : f.line ++ [newline] = f.disposition := by
  simp [Field.line, Field.disposition, crlf, newline]

theorem length_field_line (f : Field) : f.line.length + 1 = f.disposition.length := by
  rw [← field_line, List.length_append, List.length_singleton]

theorem text_eq (f : Field) (s : Str) :
    f.text ++ s = f.line ++ newline :: (crlf ++ f.value ++ crlf ++ s) := by
  simp [Field.text, Field.line, Field.disposition, crlf, newline]

theorem newline_field {f : Field} (hf : f.WellFormed boundary) :
    newline ∉ f.line ∧ newline ∉ f.value ++ [13] := by
  have hstart : newline ∉ dispositionStart := by decide
  have hquote : newline ∉ chars "\"" := by decide
  have hreturn : newline ∉ [13] := by decide
  constructor
  · simp only [Field.line, List.mem_append, not_or]
    exact ⟨⟨⟨hstart, hf.name_line⟩, hquote⟩, hreturn⟩
  · simp only [List.mem_append, not_or]
    exact ⟨hf.value_line, hreturn⟩

/-- The line of the value is in the text of the field. -/
theorem value_infix {f : Field} : f.value ++ [13] ++ [newline] <:+: f.text := by
  refine ⟨f.disposition ++ crlf, [], ?_⟩
  simp [Field.text, crlf, newline]

theorem disposition_found {s : Str} :
    chars "Content-Disposition:" <:+: dispositionStart ++ s :=
  ⟨[], chars " form-data; name=\"" ++ s, by simp [dispositionStart, chars]⟩

/-- The lines of a field that are read as they were meant. -/
theorem field_short (hb : IsBoundary boundary) {f : Field} (hf : f.WellFormed boundary)
    (hname : ¬ chars "filename" <:+: f.name) (hlen : f.disposition.length ≤ maxLineBuffer)
    {n : Nat} {c d : Conn} {s : Str} (hc : c.rest = boundary ++ crlf ++ f.text ++ s)
    (hn : (boundary ++ crlf ++ f.text).length < n)
    (h : Finishes v boundary (n - (boundary ++ crlf ++ f.text).length + f.excess)
      ({ c with rest := s }.setParameter f.name
        (trim (decodeString (firstPiece (f.value ++ [13]))))) d) :
    Finishes v boundary n c d := by
  obtain ⟨hl, hvalue⟩ := newline_field hf
  have hshort : f.line.length < maxLineBuffer := by
    have := length_field_line f
    omega
  have hfirst := (firstPiece_short hshort).trans (field_line f)
  have hother : otherPieces f.line = [] := if_pos hshort
  have hsum := length_pieces (f.value ++ [13])
  have hpiece : 2 ≤ (firstPiece (f.value ++ [13])).length := by
    unfold firstPiece
    split
    · simp
    · rw [List.length_take]
      simp only [maxLineBuffer] at *
      omega
  have hexcess : f.excess = (firstPiece (f.value ++ [13])).length - 2 := if_pos hlen
  have htext : (boundary ++ crlf ++ f.text).length =
      (boundary ++ crlf).length + f.disposition.length + 2 + (f.value ++ [13]).length + 1 := by
    simp [Field.text, crlf]
    omega
  have hskip : Finishes v boundary
      (n - (boundary ++ crlf).length - f.disposition.length - 2 - 2)
      ({ c with rest := otherPieces (f.value ++ [13]) ++ s }.setParameter f.name
        (trim (decodeString (firstPiece (f.value ++ [13]))))) d := by
    refine skip_pieces hvalue rfl (by omega) (fun hmem => hf.text (hmem.trans value_infix)) ?_
    have heq : n - (boundary ++ crlf).length - f.disposition.length - 2 - 2 -
        (otherPieces (f.value ++ [13])).length =
          n - (boundary ++ crlf ++ f.text).length + f.excess := by omega
    rw [heq]
    exact h
  refine Finishes.step ⟨0, fun fuel _ => ?_⟩ (by omega) hskip
  refine gives_start hb (s := crlf ++ f.value ++ crlf ++ s) hl ?_ (by rw [hfirst]; omega) ?_
  · rw [hc, List.append_assoc, text_eq]
  · have hfound : chars "Content-Disposition:" <:+: f.disposition := by
      unfold Field.disposition
      rw [List.append_assoc, List.append_assoc]
      exact disposition_found
    have hpart : disposition f.disposition = some (.parameter f.name) := by
      have := disposition_field (r := crlf) hf.name_quote (by decide)
      rw [if_neg hname] at this
      exact this
    rw [hfirst, hother, if_pos hfound, hpart]
    dsimp only
    rw [handleParameter]
    refine gives_counted (l := [13]) (s := f.value ++ crlf ++ s) (by decide) (by simp [crlf, newline])
      (by have : (firstPiece [13]).length = 2 := rfl; omega) ?_
    have hcrlf : firstPiece [13] = crlf := rfl
    have hnone : otherPieces [13] = [] := rfl
    rw [hcrlf, if_pos rfl, hnone]
    have hread := gives_line (v := v) (s := s) hvalue
      (c := { c with rest := [] ++ (f.value ++ crlf ++ s) }) (by simp [crlf, newline])
    refine ends_bind.mpr ⟨_, _, hread, ends_bind.mpr ⟨_, _, gives_decrease ?_, ?_⟩⟩
    · simp only [crlf, List.length_cons, List.length_nil] at *
      omega
    · refine ends_bind.mpr ⟨(), _, ends_modify.mpr rfl, ends_pure.mpr ⟨rfl, rfl⟩⟩

/-- A line two characters too long: the quotation mark is the last character read. -/
theorem firstPiece_twoMore {f : Field} (h : f.disposition.length = maxLineBuffer + 2) :
    firstPiece f.line = dispositionStart ++ f.name ++ chars "\"" ∧ otherPieces f.line = crlf := by
  have hlen := length_field_line f
  have hlong : ¬ f.line.length < maxLineBuffer := by omega
  have hcut : (dispositionStart ++ f.name ++ chars "\"").length = maxLineBuffer := by
    unfold Field.line at hlen
    rw [List.length_append, List.length_singleton] at hlen
    omega
  refine ⟨(if_neg hlong).trans ?_, (if_neg hlong).trans ?_⟩
  · rw [← hcut]
    exact List.take_left
  · rw [← hcut]
    unfold Field.line
    rw [List.drop_left]
    rfl

/-- The part of a field whose name line is just too long. -/
theorem field_shifted (hb : IsBoundary boundary) {f : Field} (hf : f.WellFormed boundary)
    (hname : ¬ chars "filename" <:+: f.name)
    (hlen : f.disposition.length = maxLineBuffer + 2)
    {n : Nat} {c d : Conn} {s : Str} (hc : c.rest = boundary ++ crlf ++ f.text ++ s)
    (hn : (boundary ++ crlf ++ f.text).length < n)
    (h : Finishes v boundary (n - (boundary ++ crlf ++ f.text).length)
      ({ c with rest := s }.setParameter f.name []) d) :
    Finishes v boundary n c d := by
  obtain ⟨hl, hvalue⟩ := newline_field hf
  obtain ⟨hfirst, hother⟩ := firstPiece_twoMore hlen
  have hfirstLen : (firstPiece f.line).length = maxLineBuffer := by
    have hsum := length_pieces f.line
    rw [length_field_line, hother, hlen] at hsum
    simp only [crlf, List.length_cons, List.length_nil] at hsum
    omega
  have htext : (boundary ++ crlf ++ f.text).length =
      (boundary ++ crlf).length + f.disposition.length + 2 + (f.value ++ [13]).length + 1 := by
    simp [Field.text, crlf]
    omega
  have hskip : Finishes v boundary (n - (boundary ++ crlf).length - maxLineBuffer - 2 - 2)
      ({ c with rest := f.value ++ [13] ++ newline :: s }.setParameter f.name []) d := by
    refine skip_line hvalue rfl (by omega) (fun hmem => hf.text (hmem.trans value_infix)) ?_
    have heq : n - (boundary ++ crlf).length - maxLineBuffer - 2 - 2 -
        ((f.value ++ [13]).length + 1) = n - (boundary ++ crlf ++ f.text).length := by omega
    rw [heq]
    exact h
  refine Finishes.step ⟨0, fun fuel _ => ?_⟩ (by omega) hskip
  refine gives_start hb (s := crlf ++ f.value ++ crlf ++ s) hl ?_ (by omega) ?_
  · rw [hc, List.append_assoc, text_eq]
  · have hfound : chars "Content-Disposition:" <:+: firstPiece f.line := by
      rw [hfirst, List.append_assoc]
      exact disposition_found
    have hpart : disposition (firstPiece f.line) = some (.parameter f.name) := by
      have := disposition_field (r := []) hf.name_quote (by decide)
      rw [if_neg hname, List.append_nil] at this
      rw [hfirst, this]
    rw [hother, if_pos hfound, hpart, hfirstLen]
    dsimp only
    rw [handleParameter]
    have hcrlf : firstPiece [13] = crlf := rfl
    have hnone : otherPieces [13] = [] := rfl
    refine gives_counted (l := [13]) (s := crlf ++ f.value ++ crlf ++ s) (by decide)
      (by simp [crlf, newline]) (by have : (firstPiece [13]).length = 2 := rfl; omega) ?_
    rw [hcrlf, if_pos rfl, hnone]
    have hread := gives_line (v := v) (l := [13]) (s := f.value ++ crlf ++ s) (by decide)
      (c := { c with rest := [] ++ (crlf ++ f.value ++ crlf ++ s) }) (by simp [crlf, newline])
    refine ends_bind.mpr ⟨_, _, hread, ends_bind.mpr ⟨_, _, gives_decrease ?_, ?_⟩⟩
    · simp only [crlf, List.length_cons, List.length_nil] at *
      omega
    · refine ends_bind.mpr ⟨(), _, ends_modify.mpr rfl, ends_pure.mpr ⟨rfl, ?_⟩⟩
      have hempty : trim (decodeString (firstPiece [13])) = [] := by decide
      rw [hempty]
      simp [Conn.setParameter, crlf, newline, otherPieces, maxLineBuffer]

/-- A first line that names no field. -/
theorem stops_unnamed (hb : IsBoundary boundary) {n : Nat} {c : Conn} {l s : Str}
    (hl : newline ∉ l) (hc : c.rest = boundary ++ crlf ++ (l ++ newline :: s))
    (hn : (boundary ++ crlf).length + (firstPiece l).length ≤ n)
    (hpart : disposition (firstPiece l) = none) :
    Finishes v boundary n c { c with rest := otherPieces l ++ s } := by
  refine Finishes.last ⟨0, fun fuel _ => gives_start hb hl hc hn ?_⟩
  rw [hpart]
  split <;> exact ends_pure.mpr ⟨rfl, rfl⟩

/-- A first line that is cut between the two characters of its end. -/
theorem stops_cut (hb : IsBoundary boundary) {f : Field} (hf : f.WellFormed boundary)
    (hname : ¬ chars "filename" <:+: f.name) (hlen : f.disposition.length = maxLineBuffer + 1)
    {n : Nat} {c : Conn} {s : Str} (hc : c.rest = boundary ++ crlf ++ (f.line ++ newline :: s))
    (hn : (boundary ++ crlf).length + maxLineBuffer + 1 ≤ n) :
    Finishes v boundary n c { c with rest := s } := by
  have hlen' := length_field_line f
  have hlong : ¬ f.line.length < maxLineBuffer := by omega
  have hfirst : firstPiece f.line = f.line := by
    unfold firstPiece
    rw [if_neg hlong, List.take_of_length_le (by omega)]
  have hother : otherPieces f.line = [newline] := by
    unfold otherPieces
    rw [if_neg hlong, List.drop_eq_nil_of_le (by omega), List.nil_append]
  have hfound : chars "Content-Disposition:" <:+: f.line := by
    unfold Field.line
    rw [List.append_assoc, List.append_assoc]
    exact disposition_found
  have hpart : disposition f.line = some (.parameter f.name) := by
    have := disposition_field (r := [13]) hf.name_quote (by decide)
    rw [if_neg hname] at this
    exact this
  refine Finishes.last ⟨0, fun fuel _ => ?_⟩
  refine gives_start hb (newline_field hf).1 hc (by rw [hfirst]; omega) ?_
  rw [hfirst, if_pos hfound, hpart, hother]
  dsimp only
  rw [handleParameter]
  have hone : firstPiece [] = [newline] := rfl
  refine gives_counted (l := []) (s := s) List.not_mem_nil (by simp)
    (by rw [hone, List.length_singleton]; omega) ?_
  rw [hone, if_neg (by decide)]
  exact ends_pure.mpr ⟨rfl, rfl⟩

/-- A field that ends the request: nothing is stored for it or behind it. -/
theorem field_stops (hb : IsBoundary boundary) {f : Field} (hf : f.WellFormed boundary)
    (hreads : f.reads = none) {n : Nat} {c : Conn} {s : Str}
    (hc : c.rest = boundary ++ crlf ++ f.text ++ s)
    (hn : (boundary ++ crlf ++ f.text).length < n) :
    ∃ d, Finishes v boundary n c d ∧ d.parameterList = c.parameterList ∧ d.file = c.file := by
  have hl := (newline_field hf).1
  have hlen := length_field_line f
  have hsum := length_pieces f.line
  have htext : (boundary ++ crlf ++ f.text).length =
      (boundary ++ crlf).length + f.disposition.length + 2 + (f.value ++ [13]).length + 1 := by
    simp [Field.text, crlf]
    omega
  rw [List.append_assoc, text_eq] at hc
  have hunnamed : disposition (firstPiece f.line) = none →
      ∃ d, Finishes v boundary n c d ∧ d.parameterList = c.parameterList ∧ d.file = c.file :=
    fun hpart => ⟨_, stops_unnamed hb hl hc (by omega) hpart, rfl, rfl⟩
  by_cases hshort : f.disposition.length ≤ maxLineBuffer
  · -- the name looks like a file
    have hname : chars "filename" <:+: f.name := by
      by_contra hname
      rw [Field.reads, if_neg hname, if_pos hshort] at hreads
      cases hreads
    have hfirst := (firstPiece_short (l := f.line) (by omega)).trans (field_line f)
    apply hunnamed
    rw [hfirst]
    have := disposition_field (r := crlf) hf.name_quote (by decide)
    rw [if_pos hname] at this
    exact this
  by_cases htwo : f.disposition.length = maxLineBuffer + 2
  · have hname : chars "filename" <:+: f.name := by
      by_contra hname
      rw [Field.reads, if_neg hname, if_neg hshort, if_pos htwo] at hreads
      cases hreads
    apply hunnamed
    rw [(firstPiece_twoMore htwo).1]
    have := disposition_field (r := []) hf.name_quote (by decide)
    rw [if_pos hname, List.append_nil] at this
    exact this
  by_cases hone : f.disposition.length = maxLineBuffer + 1
  · by_cases hname : chars "filename" <:+: f.name
    · apply hunnamed
      have hfirst : firstPiece f.line = f.line := by
        unfold firstPiece
        rw [if_neg (by omega), List.take_of_length_le (by omega)]
      rw [hfirst]
      have := disposition_field (r := [13]) hf.name_quote (by decide)
      rw [if_pos hname] at this
      exact this
    · exact ⟨_, stops_cut hb hf hname hone hc (by omega), rfl, rfl⟩
  · -- the second quotation mark is behind the buffer
    apply hunnamed
    have hstart : dispositionStart.length ≤ maxLineBuffer := by decide
    have hcut : maxLineBuffer ≤ (dispositionStart ++ f.name).length := by
      simp only [Field.line, List.length_append, List.length_singleton] at hlen ⊢
      have hquote : (chars "\"").length = 1 := rfl
      omega
    have hfirst : firstPiece f.line =
        dispositionStart ++ f.name.take (maxLineBuffer - dispositionStart.length) := by
      unfold firstPiece
      rw [if_neg (by omega)]
      unfold Field.line
      rw [List.append_assoc, List.take_append_of_le_length hcut,
        List.take_append, List.take_of_length_le hstart]
    rw [hfirst]
    exact disposition_cut fun hmem => hf.name_quote (List.mem_of_mem_take hmem)

theorem field_read (hb : IsBoundary boundary) {f : Field} (hf : f.WellFormed boundary) {w : Str}
    (hreads : f.reads = some w) {n : Nat} {c d : Conn} {s : Str}
    (hc : c.rest = boundary ++ crlf ++ f.text ++ s)
    (hn : (boundary ++ crlf ++ f.text).length < n)
    (h : Finishes v boundary (n - (boundary ++ crlf ++ f.text).length + f.excess)
      ({ c with rest := s }.setParameter f.name w) d) :
    Finishes v boundary n c d := by
  unfold Field.reads at hreads
  split at hreads
  case isTrue => cases hreads
  case isFalse hname =>
    split at hreads
    case isTrue hshort =>
      injection hreads with hw
      exact field_short hb hf hname hshort hc hn (hw ▸ h)
    case isFalse hshort =>
      split at hreads
      case isFalse => cases hreads
      case isTrue htwo =>
        injection hreads with hw
        subst hw
        rw [Field.excess, if_neg hshort, Nat.add_zero] at h
        exact field_shifted hb hf hname htwo hc hn h

/-! ## Many fields -/

/-- What is stored for fields that are all read. -/
def storedFields (fields : List Field) : List (Str × Str) :=
  fields.map fun f => (f.name, f.reads.getD [])

def Conn.storeAll (c : Conn) (entries : List (Str × Str)) : Conn :=
  { c with parameterList := entries.foldl (fun m e => m.set e.1 e.2) c.parameterList }

def excess (fields : List Field) : Nat := (fields.map Field.excess).sum

theorem fieldParts_cons (boundary : Str) (f : Field) (fields : List Field) :
    fieldParts boundary (f :: fields) =
      boundary ++ crlf ++ f.text ++ fieldParts boundary fields := by
  simp [fieldParts]

/-- The parts of many fields. -/
theorem fields_read (hb : IsBoundary boundary) {fields : List Field}
    (hf : ∀ f ∈ fields, f.WellFormed boundary) (hreads : ∀ f ∈ fields, f.reads ≠ none)
    {n : Nat} {c d : Conn} {s : Str} (hc : c.rest = fieldParts boundary fields ++ s)
    (hn : (fieldParts boundary fields).length < n)
    (h : Finishes v boundary (n - (fieldParts boundary fields).length + excess fields)
      ({ c with rest := s }.storeAll (storedFields fields)) d) :
    Finishes v boundary n c d := by
  induction fields generalizing n c with
  | nil =>
    have hrest : c.rest = s := hc
    have heq : ({ c with rest := s }.storeAll (storedFields [])) = c := by rw [← hrest]; rfl
    rw [heq] at h
    simpa [fieldParts, excess] using h
  | cons f fields ih =>
    rw [fieldParts_cons] at hc hn h
    rw [List.length_append] at hn h
    obtain ⟨w, hw⟩ := Option.ne_none_iff_exists'.mp (hreads f List.mem_cons_self)
    refine field_read hb (hf f List.mem_cons_self) hw
      (s := fieldParts boundary fields ++ s) (by rw [hc, List.append_assoc]) (by omega) ?_
    refine ih (fun g hg => hf g (List.mem_cons_of_mem f hg))
      (fun g hg => hreads g (List.mem_cons_of_mem f hg)) rfl (by omega) ?_
    have heq : n - (boundary ++ crlf ++ f.text).length + f.excess -
        (fieldParts boundary fields).length + excess fields =
          n - ((boundary ++ crlf ++ f.text).length + (fieldParts boundary fields).length) +
            excess (f :: fields) := by
      simp only [excess, List.map_cons, List.sum_cons]
      omega
    rw [heq]
    have hconn : ({ { c with rest := fieldParts boundary fields ++ s }.setParameter f.name w with
        rest := s }.storeAll (storedFields fields)) =
          { c with rest := s }.storeAll (storedFields (f :: fields)) := by
      simp [Conn.storeAll, Conn.setParameter, storedFields, hw]
    rw [hconn]
    exact h

/-- The first field that is not read ends the request. -/
theorem fields_stop (hb : IsBoundary boundary) {fields : List Field}
    (hf : ∀ f ∈ fields, f.WellFormed boundary) (hnames : (fields.map Field.name).Nodup)
    (hreads : ∃ f ∈ fields, f.reads = none)
    {n : Nat} {c : Conn} {s : Str} (hc : c.rest = fieldParts boundary fields ++ s)
    (hn : (fieldParts boundary fields).length < n) :
    ∃ d, Finishes v boundary n c d ∧ d.file = c.file ∧
      (∀ k, k ∉ fields.map Field.name → d.parameterList.find k = c.parameterList.find k) ∧
      ∃ f ∈ fields, d.parameterList.find f.name = c.parameterList.find f.name := by
  induction fields generalizing n c with
  | nil =>
    obtain ⟨f, hmem, -⟩ := hreads
    exact absurd hmem List.not_mem_nil
  | cons f fields ih =>
    rw [fieldParts_cons] at hc hn
    rw [List.length_append] at hn
    rw [List.append_assoc] at hc
    obtain ⟨hname, hnames⟩ := List.nodup_cons.mp hnames
    have hwell := hf f List.mem_cons_self
    cases hw : f.reads with
    | none =>
      obtain ⟨d, hd, hparams, hfile⟩ := field_stops (v := v) (n := n) hb hwell hw hc (by omega)
      exact ⟨d, hd, hfile, fun k _ => by rw [hparams], f, List.mem_cons_self, by rw [hparams]⟩
    | some w =>
      have htail : ∃ g ∈ fields, g.reads = none := by
        obtain ⟨g, hg, hnone⟩ := hreads
        rcases List.mem_cons.mp hg with rfl | hg
        · rw [hw] at hnone
          cases hnone
        · exact ⟨g, hg, hnone⟩
      obtain ⟨d, hd, hfile, hother, g, hg, hsame⟩ := ih
        (c := { c with rest := fieldParts boundary fields ++ s }.setParameter f.name w)
        (n := n - (boundary ++ crlf ++ f.text).length + f.excess)
        (fun g hg => hf g (List.mem_cons_of_mem f hg)) hnames htail rfl (by omega)
      refine ⟨d, field_read hb hwell hw hc (by omega) hd, hfile, ?_, g, List.mem_cons_of_mem f hg, ?_⟩
      · intro k hk
        simp only [List.map_cons, List.mem_cons, not_or] at hk
        rw [hother k hk.2]
        exact OrdMap.find_set_ne _ _ hk.1
      · rw [hsame]
        refine OrdMap.find_set_ne _ _ ?_
        rintro heq
        exact hname (heq ▸ List.mem_map_of_mem hg)

theorem closing_ends (hb : IsBoundary boundary) {n : Nat} {c : Conn} {s : Str}
    (hfits : (closing boundary).length ≤ maxLineBuffer) (hc : c.rest = closing boundary ++ s)
    (hn : (closing boundary).length ≤ n) :
    Finishes v boundary n c { c with rest := s } := by
  have hl : newline ∉ boundary ++ chars "--" ++ [13] := by
    simp only [List.mem_append, not_or]
    exact ⟨⟨hb.noLine, by decide⟩, by decide⟩
  have heq : boundary ++ chars "--" ++ [13] ++ [newline] = closing boundary := by
    simp [closing, crlf, newline]
  have hshort : (boundary ++ chars "--" ++ [13]).length < maxLineBuffer := by
    rw [← heq, List.length_append, List.length_singleton] at hfits
    exact hfits
  have hfirst := (firstPiece_short hshort).trans heq
  refine Finishes.last ⟨0, fun fuel _ => ?_⟩
  rw [handlePostBoundary]
  refine gives_counted (s := s) hl (by rw [hc, ← heq]; simp) (by rw [hfirst]; exact hn) ?_
  have hlast : boundary ++ chars "--" <:+: closing boundary := (List.prefix_append _ _).isInfix
  rw [hfirst, if_pos ((List.prefix_append _ _).isInfix.trans hlast), if_pos hlast]
  refine ends_pure.mpr ⟨rfl, ?_⟩
  have hother : otherPieces (boundary ++ chars "--" ++ [13]) = [] := if_pos hshort
  rw [hother, List.nil_append]

end

end Tuxbox.Nhttpd
