import Tuxbox.Nhttpd.MultipartFile

/-!
# The parts around the file
-/

namespace Tuxbox.Nhttpd

open Prog

section
variable {v : Server} {boundary : Str}

/-! ## The head of the file -/

theorem split_true {s delimiter before rest : Str}
    (h : ySplitStringExact s delimiter = (true, before, rest)) :
    s = before ++ delimiter ++ rest := by
  unfold ySplitStringExact at h
  cases hfind : findStr delimiter s with
  | none => simp [hfind] at h
  | some i =>
    rw [hfind] at h
    injection h with _ h
    injection h with hbefore hrest
    have hfront := List.find?_some hfind
    rw [List.isPrefixOf_iff_prefix] at hfront
    obtain ⟨t, ht⟩ := hfront
    have hdrop : s.drop (i + delimiter.length) = t := by
      rw [← List.drop_drop, ← ht, List.drop_left]
    rw [← hbefore, ← hrest, hdrop, List.append_assoc, ht, List.take_append_drop]

/-- A line that names a file has the quotation marks of two names. -/
theorem quotes_of_file {line name filename : Str}
    (h : disposition line = some (.file name filename)) : 4 ≤ line.count quote := by
  unfold disposition at h
  rcases hname : ySplitStringExact line (chars "name=\"") with ⟨found, before, right⟩
  rw [hname] at h
  cases found with
  | false => simp at h
  | true =>
    dsimp only at h
    rcases hend : ySplitStringExact right (chars "\"") with ⟨found, before', right'⟩
    rw [hend] at h
    cases found with
    | false => simp at h
    | true =>
      dsimp only at h
      split at h
      case isFalse => simp at h
      case isTrue =>
        rcases hfile : ySplitStringExact right' (chars "filename=\"") with ⟨found, before₂, right₂⟩
        rw [hfile] at h
        cases found with
        | false => simp at h
        | true =>
          dsimp only at h
          rcases hlast : ySplitStringExact right₂ (chars "\"") with ⟨found, before₃, right₃⟩
          rw [hlast] at h
          cases found with
          | false => simp at h
          | true =>
            rw [split_true hname, split_true hend, split_true hfile, split_true hlast]
            have h₁ : (chars "name=\"").count quote = 1 := by decide
            have h₂ : (chars "\"").count quote = 1 := by decide
            have h₃ : (chars "filename=\"").count quote = 1 := by decide
            simp only [List.count_append, h₁, h₂, h₃]
            omega

def FilePart.line (f : FilePart) : Str :=
  dispositionStart ++ f.name ++ chars "\"; filename=\"" ++ f.filename ++ chars "\"" ++ [13]

def FilePart.typeLine (f : FilePart) : Str := chars "Content-Type: " ++ f.mime ++ [13]

theorem FilePart.line_eq (f : FilePart) : f.line ++ [newline] = f.disposition := by
  simp [FilePart.line, FilePart.disposition, crlf, newline]

theorem FilePart.typeLine_eq (f : FilePart) : f.typeLine ++ [newline] = f.contentType := by
  simp [FilePart.typeLine, FilePart.contentType, crlf, newline]

theorem FilePart.head_eq (f : FilePart) (s : Str) :
    f.head ++ s = f.line ++ newline :: (f.typeLine ++ newline :: (crlf ++ s)) := by
  simp [FilePart.head, ← FilePart.line_eq, ← FilePart.typeLine_eq]

theorem newline_file {f : FilePart} (hf : f.WellFormed boundary) :
    newline ∉ f.line ∧ newline ∉ f.typeLine := by
  constructor
  · simp only [FilePart.line, List.mem_append, not_or]
    exact ⟨⟨⟨⟨⟨by decide, hf.name_line⟩, by decide⟩, hf.filename_line⟩, by decide⟩, by decide⟩
  · simp only [FilePart.typeLine, List.mem_append, not_or]
    exact ⟨⟨by decide, hf.mime_line⟩, by decide⟩

theorem disposition_file {f : FilePart} (hf : f.WellFormed boundary) (r : Str) :
    disposition (dispositionStart ++ f.name ++ chars "\"; filename=\"" ++ f.filename ++
      chars "\"" ++ r) = some (.file f.name f.filename) := by
  have hline : dispositionStart ++ f.name ++ chars "\"; filename=\"" ++ f.filename ++ chars "\"" ++
      r = dispositionStart ++ f.name ++ (chars "\"" ++ (chars "; " ++ (chars "filename=\"" ++
        (f.filename ++ (chars "\"" ++ r))))) := by simp [chars]
  have hfile : chars "filename" <:+: dispositionStart ++ f.name ++ (chars "\"" ++ (chars "; " ++
      (chars "filename=\"" ++ (f.filename ++ (chars "\"" ++ r))))) :=
    ⟨dispositionStart ++ f.name ++ chars "\"; ", chars "=\"" ++ f.filename ++ chars "\"" ++ r, by
      simp [chars]⟩
  rw [hline]
  unfold disposition
  rw [split_name]
  dsimp only
  rw [split_quote hf.name_quote]
  dsimp only
  rw [if_pos hfile, split_found _ (by decide)]
  dsimp only
  rw [split_quote hf.filename_quote]

/-- What is read of the content type, behind its name. -/
def FilePart.mimeRead (f : FilePart) : Str :=
  (firstPiece f.typeLine).drop (chars "Content-Type:").length

theorem split_type (f : FilePart) :
    ySplitStringExact (firstPiece f.typeLine) (chars "Content-Type:") = (true, [], f.mimeRead) := by
  have hfront : chars "Content-Type:" <+: firstPiece f.typeLine := by
    have hwhole : chars "Content-Type:" <+: f.typeLine := ⟨chars " " ++ f.mime ++ [13], by
      simp [FilePart.typeLine, chars]⟩
    unfold firstPiece
    split
    · exact hwhole.trans (List.prefix_append _ _)
    · exact List.prefix_take_iff.mpr ⟨hwhole, by decide⟩
  obtain ⟨rest, hrest⟩ := hfront
  have hmime : f.mimeRead = rest := by
    rw [FilePart.mimeRead, ← hrest, List.drop_left]
  rw [← hrest, hmime]
  exact @split_found _ [] rest (by simp)

/-- The first line of a file that fits, and what follows. -/
theorem gives_file (hb : IsBoundary boundary) {f : FilePart} (hf : f.WellFormed boundary)
    (hlen : f.disposition.length ≤ maxLineBuffer) {n n' fuel : Nat} {c d : Conn} {l s t : Str}
    (hc : c.rest = boundary ++ crlf ++ (f.line ++ newline :: (f.typeLine ++ newline :: t)))
    (hl : newline ∉ l) (ht : otherPieces f.typeLine ++ t = l ++ newline :: s)
    (hn : (boundary ++ crlf).length + f.disposition.length + (firstPiece f.typeLine).length +
      (firstPiece l).length ≤ n)
    (h : Gives (if firstPiece l = crlf then do
        setParameter (f.name ++ chars "_upload_filename") v.uploadFilename
        if v.opens then receiveUpload v boundary fuel (n - (boundary ++ crlf).length -
          f.disposition.length - (firstPiece f.typeLine).length - (firstPiece l).length)
        else pure 0
      else pure 0)
      ({ c with rest := otherPieces l ++ s }.storeAll
        [(f.name, trim f.filename), (f.name ++ chars "_mime", trim f.mimeRead)]) n' d) :
    Gives (handlePostBoundary v boundary fuel n) c n' d := by
  obtain ⟨hline, htype⟩ := newline_file hf
  have hshort : f.line.length < maxLineBuffer := by
    have := congrArg List.length f.line_eq
    rw [List.length_append, List.length_singleton] at this
    omega
  have hfirst := (firstPiece_short hshort).trans f.line_eq
  have hother : otherPieces f.line = [] := if_pos hshort
  have hpart : disposition f.disposition = some (.file f.name f.filename) := disposition_file hf crlf
  have hfound : chars "Content-Disposition:" <:+: f.disposition := by
    simp only [FilePart.disposition, List.append_assoc]
    exact disposition_found
  refine gives_start hb hline hc (by rw [hfirst]; omega) ?_
  rw [hfirst, hother, if_pos hfound, hpart]
  dsimp only
  rw [handleFile]
  refine ends_bind.mpr ⟨(), _, ends_setParameter.mpr rfl, ?_⟩
  refine gives_counted (s := t) htype rfl (by omega) ?_
  rw [split_type f]
  dsimp only
  refine ends_bind.mpr ⟨(), _, ends_setParameter.mpr rfl, ?_⟩
  refine gives_counted (s := s) hl (by simp only [Conn.setParameter]; exact ht) (by omega) ?_
  exact h

theorem firstPiece_crlf {l : Str} (h : firstPiece l = crlf) : l = [13] := by
  unfold firstPiece at h
  split at h
  · have h' : l ++ [newline] = [13] ++ [newline] := h
    exact List.append_cancel_right h'
  · have hlen := congrArg List.length h
    rw [List.length_take] at hlen
    simp only [crlf, maxLineBuffer, List.length_cons, List.length_nil] at *
    omega

/-- A first line that does not fit: its second piece is not what the parser asks for. -/
theorem file_cut (hb : IsBoundary boundary) {f : FilePart} (hf : f.WellFormed boundary)
    (hlong : maxLineBuffer < f.disposition.length) {n : Nat} {c : Conn} {s : Str}
    (hc : c.rest = boundary ++ crlf ++ (f.line ++ newline :: s))
    (hn : (boundary ++ crlf).length + f.disposition.length ≤ n) :
    ∃ d, Finishes v boundary n c d ∧ d.file = c.file := by
  have hline := (newline_file hf).1
  have hlen := congrArg List.length f.line_eq
  rw [List.length_append, List.length_singleton] at hlen
  have hnot : ¬ f.line.length < maxLineBuffer := by omega
  have hfirst : firstPiece f.line = f.line.take maxLineBuffer := if_neg hnot
  have hother : otherPieces f.line = f.line.drop maxLineBuffer ++ [newline] := if_neg hnot
  have hl : newline ∉ f.line.drop maxLineBuffer := fun hmem => hline (List.mem_of_mem_drop hmem)
  have hdrop : (f.line.drop maxLineBuffer).length = f.line.length - maxLineBuffer :=
    List.length_drop
  have hsum := length_pieces f.line
  have hsum' := length_pieces (f.line.drop maxLineBuffer)
  have hfirstLen : (firstPiece f.line).length = maxLineBuffer := by
    rw [hfirst, List.length_take_of_le (by omega)]
  have hfound : chars "Content-Disposition:" <:+: firstPiece f.line := by
    have hstart : dispositionStart <+: firstPiece f.line := by
      rw [hfirst]
      refine List.prefix_take_iff.mpr ⟨?_, by decide⟩
      simp only [FilePart.line, List.append_assoc]
      exact List.prefix_append _ _
    have hinfix := disposition_found (s := [])
    rw [List.append_nil] at hinfix
    exact hinfix.trans hstart.isInfix
  cases hpart : disposition (firstPiece f.line) with
  | none => exact ⟨_, stops_unnamed hb hline hc (by omega) hpart, rfl⟩
  | some part =>
    cases part with
    | parameter name =>
      refine ⟨{ c with rest := otherPieces (f.line.drop maxLineBuffer) ++ s },
        Finishes.last ⟨0, fun fuel _ => gives_start hb hline hc (by omega) ?_⟩, rfl⟩
      rw [if_pos hfound, hpart]
      dsimp only
      rw [handleParameter]
      refine gives_counted hl (s := s) (by simp [hother]) (by omega) ?_
      rw [if_neg]
      · exact ends_pure.mpr ⟨rfl, rfl⟩
      -- an empty line would be behind the last quotation mark
      intro hcrlf
      have hdrop1 := firstPiece_crlf hcrlf
      have hcut : f.line.take maxLineBuffer = dispositionStart ++ f.name ++
          chars "\"; filename=\"" ++ f.filename ++ chars "\"" := by
        have hjoin := List.take_append_drop maxLineBuffer f.line
        rw [hdrop1] at hjoin
        exact List.append_cancel_right hjoin
      have hfile := disposition_file hf []
      rw [List.append_nil, ← hcut, ← hfirst, hpart] at hfile
      cases hfile
    | file name filename =>
      refine ⟨{ c with rest := otherPieces (f.line.drop maxLineBuffer) ++ s }.setParameter
        name (trim filename), Finishes.last ⟨0, fun fuel _ => gives_start hb hline hc (by omega) ?_⟩,
        rfl⟩
      rw [if_pos hfound, hpart]
      dsimp only
      rw [handleFile]
      refine ends_bind.mpr ⟨(), _, ends_setParameter.mpr rfl, ?_⟩
      refine gives_counted hl (s := s) (by simp [Conn.setParameter, hother]) (by omega) ?_
      -- all four quotation marks are in the first piece
      have hshort : f.line.length ≤ maxLineBuffer + 1 := by
        by_contra hlonger
        have hquotes := quotes_of_file hpart
        have hcount : (f.line.take maxLineBuffer).count quote ≤ 3 := by
          have hfront : f.line.take maxLineBuffer <+: dispositionStart ++ f.name ++
              chars "\"; filename=\"" ++ f.filename := by
            have hline : dispositionStart ++ f.name ++
                chars "\"; filename=\"" ++ f.filename <+: f.line := by
              simp only [FilePart.line, List.append_assoc]
              exact ⟨chars "\"" ++ [13], by simp⟩
            refine List.prefix_of_prefix_length_le (List.take_prefix _ f.line) hline ?_
            have hlineLen : f.line.length = (dispositionStart ++ f.name ++
                chars "\"; filename=\"" ++ f.filename).length + 2 := by
              simp [FilePart.line, chars]
              omega
            rw [List.length_take]
            omega
          refine (hfront.sublist.count_le quote).trans ?_
          have h₁ : dispositionStart.count quote = 1 := by decide
          have h₂ : (chars "\"; filename=\"").count quote = 2 := by decide
          rw [List.count_append, List.count_append, List.count_append, h₁, h₂,
            List.count_eq_zero_of_not_mem hf.name_quote,
            List.count_eq_zero_of_not_mem hf.filename_quote]
        rw [hfirst] at hquotes
        omega
      have hmissing : ¬ chars "Content-Type:" <:+: firstPiece (f.line.drop maxLineBuffer) := by
        intro hmem
        have hle := hmem.length_le
        have hlen14 : (chars "Content-Type:").length = 13 := rfl
        omega
      rw [split_missing hmissing]
      exact ends_pure.mpr ⟨rfl, rfl⟩

/-- A content type that does not fit: the next piece is not an empty line. -/
theorem file_stops (hb : IsBoundary boundary) {f : FilePart} (hf : f.WellFormed boundary)
    {n : Nat} {c : Conn} {s : Str} (hc : c.rest = boundary ++ crlf ++ f.head ++ s)
    (hn : (boundary ++ crlf ++ f.head).length < n)
    (hlong : maxLineBuffer < f.disposition.length ∨
      maxLineBuffer < f.contentType.length ∧ f.contentType.length ≠ maxLineBuffer + 2) :
    ∃ d, Finishes v boundary n c d ∧ d.file = c.file := by
  rw [List.append_assoc, f.head_eq] at hc
  have hn' : (boundary ++ crlf).length + f.disposition.length + f.contentType.length + 2 < n := by
    have hcrlf : crlf.length = 2 := rfl
    simp only [FilePart.head, List.length_append] at hn ⊢
    omega
  by_cases hcut : maxLineBuffer < f.disposition.length
  · exact file_cut hb hf hcut hc (by omega)
  obtain ⟨htype, htwo⟩ := hlong.resolve_left hcut
  have hlen := congrArg List.length f.typeLine_eq
  rw [List.length_append, List.length_singleton] at hlen
  have hline := (newline_file hf).2
  have hnot : ¬ f.typeLine.length < maxLineBuffer := by omega
  have hother : otherPieces f.typeLine = f.typeLine.drop maxLineBuffer ++ [newline] := if_neg hnot
  have hl : newline ∉ f.typeLine.drop maxLineBuffer := fun hmem => hline (List.mem_of_mem_drop hmem)
  have hdrop : (f.typeLine.drop maxLineBuffer).length = f.typeLine.length - maxLineBuffer :=
    List.length_drop
  have hsum := length_pieces f.typeLine
  have hsum' := length_pieces (f.typeLine.drop maxLineBuffer)
  have hlenOther := congrArg List.length hother
  rw [List.length_append, List.length_singleton] at hlenOther
  have hne : firstPiece (f.typeLine.drop maxLineBuffer) ≠ crlf := by
    intro hcrlf
    have := congrArg List.length (firstPiece_crlf hcrlf)
    rw [List.length_singleton] at this
    omega
  refine ⟨{ c with rest := otherPieces (f.typeLine.drop maxLineBuffer) ++ (crlf ++ s) }.storeAll
    [(f.name, trim f.filename), (f.name ++ chars "_mime", trim f.mimeRead)],
    Finishes.last ⟨0, fun fuel _ => gives_file hb hf (Nat.le_of_not_lt hcut) hc hl
      (s := crlf ++ s) (by rw [hother]; simp) (by omega) ?_⟩, rfl⟩
  rw [if_neg hne]
  exact ends_pure.mpr ⟨rfl, rfl⟩

/-- What is taken for the content. A content type that is two characters too long is
followed by what looks like the empty line behind it. -/
def FilePart.contentRead (f : FilePart) : Str :=
  if f.contentType.length ≤ maxLineBuffer then f.content else crlf ++ f.content

theorem contentRead_boundary (hb : IsBoundary boundary) {f : FilePart} (hf : f.WellFormed boundary) :
    ¬ boundary <:+: f.contentRead := by
  have hne : ¬ boundary <:+: [] := fun h => hf.content (h.trans List.nil_infix)
  unfold FilePart.contentRead
  split
  · exact hf.content
  · intro h
    have h := (infix_split (a := []) (x := 13) (b := newline :: f.content) h hb.noReturn).resolve_left
      hne
    exact hf.content ((infix_split (a := []) h hb.noLine).resolve_left hne)

def FilePart.entries (v : Server) (f : FilePart) : List (Str × Str) :=
  [(f.name, trim f.filename), (f.name ++ chars "_mime", trim f.mimeRead),
    (f.name ++ chars "_upload_filename", v.uploadFilename)]

/-- A file that is opened, with what the blocks take of it. -/
theorem file_read (hb : IsBoundary boundary) {f : FilePart} (hf : f.WellFormed boundary)
    (hlen : f.disposition.length ≤ maxLineBuffer)
    (htype : f.contentType.length ≤ maxLineBuffer ∨ f.contentType.length = maxLineBuffer + 2)
    (hopens : v.opens = true) {z s : Str} (hz : newline ∉ z)
    (hfits : (boundary ++ z).length < maxLineBuffer) {n m k : Nat} {c d : Conn}
    (hc : c.rest = boundary ++ crlf ++ f.head ++ (f.content ++ crlf ++
      (boundary ++ z ++ newline :: s)))
    (hmax : n < 2 ^ 32) (hm : m = n - (boundary ++ crlf ++ f.head).length +
      (f.contentRead.length - f.content.length))
    (hn : (boundary ++ crlf ++ f.head).length + f.content.length + 2 + (boundary ++ z).length + 1 ≤ n)
    (hroom : f.content.length + 8 ≤ v.room) (hk : k ≤ f.contentRead.length + 1)
    (hblocks : BlocksGive v m { c with
      rest := f.contentRead ++ crlf ++ (boundary ++ z ++ newline :: s)
      parameterList := (c.storeAll (f.entries v)).parameterList
      file := [] } k d) :
    ∃ n' e, Leads v boundary n c n' e ∧
      n' = (if boundary ++ chars "--" <:+: boundary ++ z ++ [newline] then 0
        else m - (f.contentRead.length + 2 + (boundary ++ z).length + 1)) ∧
      e.rest = s ∧ e.parameterList = (c.storeAll (f.entries v)).parameterList ∧
      e.file = f.contentRead ++ overhangBehind k f.contentRead := by
  have hcrlf : crlf.length = 2 := rfl
  have hhead : (boundary ++ crlf ++ f.head).length =
      (boundary ++ crlf).length + f.disposition.length + f.contentType.length + 2 := by
    simp only [FilePart.head, List.length_append]
    omega
  have hsum := length_pieces f.typeLine
  have htypeLen := congrArg List.length f.typeLine_eq
  rw [List.length_append, List.length_singleton] at htypeLen
  -- the line that is read as the empty one, and what follows it
  have hnext : otherPieces f.typeLine ++ (crlf ++ (f.content ++ crlf ++
      (boundary ++ z ++ newline :: s))) =
        [13] ++ newline :: (f.contentRead ++ crlf ++ (boundary ++ z ++ newline :: s)) ∧
      (firstPiece f.typeLine).length + (f.contentRead.length - f.content.length) =
        f.contentType.length ∧ f.contentRead.length ≤ f.content.length + 2 ∧
          f.content.length ≤ f.contentRead.length := by
    by_cases hshort : f.contentType.length ≤ maxLineBuffer
    · have hread : f.contentRead = f.content := if_pos hshort
      have hother : otherPieces f.typeLine = [] := if_pos (by omega)
      rw [hother, List.length_nil] at hsum
      rw [hread, hother]
      exact ⟨by simp [crlf, newline], by omega, by omega, Nat.le_refl _⟩
    · have htwo := htype.resolve_left hshort
      have hread : f.contentRead = crlf ++ f.content := if_neg hshort
      have hcut : (chars "Content-Type: " ++ f.mime).length = maxLineBuffer := by
        simp only [FilePart.typeLine, List.length_append, List.length_singleton] at htypeLen ⊢
        omega
      have hother : otherPieces f.typeLine = crlf := by
        unfold otherPieces
        rw [if_neg (by omega), ← hcut]
        unfold FilePart.typeLine
        rw [List.drop_left]
        rfl
      have hreadLen := congrArg List.length hread
      rw [List.length_append] at hreadLen
      rw [hother] at hsum
      refine ⟨?_, by omega, by omega, by omega⟩
      rw [hread, hother]
      simp [crlf, newline]
  obtain ⟨hnext, hfirstLen, hread, hread'⟩ := hnext
  obtain ⟨least, n', e, hrun, hn', hrest, hparams, hfile⟩ := @upload_run v _ hb _ _ _ hz hfits
    (contentRead_boundary hb hf) m k (by omega)
    { c with
      rest := f.contentRead ++ crlf ++ (boundary ++ z ++ newline :: s)
      parameterList := (c.storeAll (f.entries v)).parameterList }
    _ rfl (by omega) (by omega) hk hblocks
  refine ⟨n', e, ⟨least, fun fuel hfuel => ?_⟩, hn', hrest, hparams, hfile⟩
  have hc' : c.rest = boundary ++ crlf ++ (f.line ++ newline :: (f.typeLine ++ newline ::
      (crlf ++ (f.content ++ crlf ++ (boundary ++ z ++ newline :: s))))) := by
    rw [hc, List.append_assoc (boundary ++ crlf), f.head_eq]
  have hone : firstPiece [13] = crlf := rfl
  have hnone : otherPieces [13] = [] := rfl
  refine gives_file hb hf hlen hc' (by decide) hnext (by rw [hone]; omega) ?_
  rw [hone, hnone, if_pos rfl]
  refine ends_bind.mpr ⟨(), _, ends_setParameter.mpr rfl, ?_⟩
  rw [if_pos hopens]
  have hm' : n - (boundary ++ crlf).length - f.disposition.length - (firstPiece f.typeLine).length -
      crlf.length = m := by omega
  rw [hm']
  exact hrun fuel hfuel

/-! ## Behind the file -/

/-- The boundary line of a field behind the file was read: its lines are skipped. -/
theorem field_skipped {f : Field} (hf : f.WellFormed boundary) {n : Nat} {c d : Conn} {s : Str}
    (hc : c.rest = f.text ++ s) (hn : f.text.length < n)
    (h : Finishes v boundary (n - f.text.length) { c with rest := s } d) :
    Finishes v boundary n c d := by
  obtain ⟨hline, hvalue⟩ := newline_field hf
  have hlen := length_field_line f
  have htext : f.text.length = (f.line.length + 1) + 2 + (f.value ++ [13]).length + 1 := by
    simp only [Field.text, List.length_append, ← hlen, crlf, List.length_cons, List.length_nil]
    omega
  rw [text_eq] at hc
  have hfirst : ¬ boundary <:+: f.line ++ [newline] := fun hmem =>
    hf.text (hmem.trans ⟨[], crlf ++ f.value ++ crlf, by
      rw [field_line]
      simp [Field.text]⟩)
  have hsecond : ¬ boundary <:+: [13] ++ [newline] := fun hmem =>
    hf.text (hmem.trans ⟨f.disposition, f.value ++ crlf, by simp [Field.text, crlf, newline]⟩)
  refine skip_line hline hc (by omega) hfirst ?_
  refine skip_line (l := [13]) (s := f.value ++ crlf ++ s) (by decide) (by simp [crlf, newline])
    (by rw [List.length_singleton]; omega) hsecond ?_
  refine skip_line hvalue (s := s) (by simp [crlf, newline]) (by rw [List.length_singleton]; omega)
    (fun hmem => hf.text (hmem.trans value_infix)) ?_
  have heq : n - (f.line.length + 1) - (([13] : Str).length + 1) - ((f.value ++ [13]).length + 1) =
      n - f.text.length := by
    rw [htext, List.length_singleton]
    omega
  rw [heq]
  exact h

/-- Fields to the end: nothing is stored under another name. -/
theorem rest_run (hb : IsBoundary boundary) (hfits : (closing boundary).length ≤ maxLineBuffer)
    {fields : List Field} (hf : ∀ f ∈ fields, f.WellFormed boundary)
    (hnames : (fields.map Field.name).Nodup) {n : Nat} {c : Conn}
    (hc : c.rest = fieldParts boundary fields ++ closing boundary)
    (hn : (fieldParts boundary fields).length + (closing boundary).length ≤ n) :
    ∃ d, Finishes v boundary n c d ∧ d.file = c.file ∧
      ∀ k, k ∉ fields.map Field.name → d.parameterList.find k = c.parameterList.find k := by
  have hpos : 0 < (closing boundary).length := by simp [closing, crlf]
  by_cases hreads : ∀ f ∈ fields, f.reads ≠ none
  · refine ⟨{ c with rest := [] }.storeAll (storedFields fields), ?_, rfl, fun k hk => ?_⟩
    · refine fields_read hb hf hreads hc (by omega) ?_
      exact closing_ends hb hfits (s := []) (by simp [Conn.storeAll]) (by omega)
    · refine OrdMap.find_foldl_set_notMem ?_
      simpa [storedFields] using hk
  · have hnone : ∃ f ∈ fields, f.reads = none := by simpa using hreads
    obtain ⟨d, hd, hfile, hother, -⟩ :=
      fields_stop (v := v) (n := n) hb hf hnames hnone hc (by omega)
    exact ⟨d, hd, hfile, hother⟩

end

end Tuxbox.Nhttpd
