import Tuxbox.Nhttpd.MultipartParts

/-!
# What a multipart request stores
-/

namespace Tuxbox.Nhttpd

open Prog

/-! ## Requests -/

/-- Lines that fit into the buffer, up to the first empty one. -/
def IsHeader (header : Str) : Prop :=
  ∃ lines : List Str, header = lines.flatMap (· ++ [newline]) ++ crlf ∧
    ∀ l ∈ lines, newline ∉ l ∧ l.length + 1 < maxLineBuffer ∧ l ++ [newline] ≠ crlf

def delimiter (boundary : Str) : Str := chars "--" ++ boundary

def uploadNames (file : FilePart) : List Str :=
  [file.name, file.name ++ chars "_mime", file.name ++ chars "_upload_filename"]

/-- A request as a browser sends it, with the length of its body, to a server that can
open the file and has room for it. Nothing is stored under one name twice. -/
structure MultipartRequest (v : Server) (header boundary : Str) (before : List Field)
    (file : FilePart) (after : List Field) : Prop where
  isHeader : IsHeader header
  type : contentType (parseHeader header) = multipart ++ boundary
  length : contentLength (parseHeader header) = (body (delimiter boundary) before file after).length
  noReturn : (13 : Byte) ∉ boundary
  noLine : newline ∉ boundary
  fieldsBefore : ∀ f ∈ before, f.WellFormed (delimiter boundary)
  isFile : file.WellFormed (delimiter boundary)
  fieldsAfter : ∀ f ∈ after, f.WellFormed (delimiter boundary)
  short : (tail (delimiter boundary) after).length < receiveBlockLen
  names : (before.map Field.name ++ uploadNames file ++ after.map Field.name).Nodup
  opens : v.opens = true
  room : (body (delimiter boundary) before file after).length + 8 ≤ v.room

/-- Whatever stands in the parameters and in the file before, and however the bytes
arrive: every field has its value and the file is the one that was sent. -/
def StoredFaithfully (v : Server) (header boundary : Str) (before : List Field) (file : FilePart)
    (after : List Field) : Prop :=
  ∀ c : Conn, c.isValid = true →
    c.rest = header ++ body (delimiter boundary) before file after →
    ∃ d, (∃ least, ∀ fuel, least ≤ fuel → Gives (handlePost v fuel) c true d) ∧
      (∀ f ∈ before ++ after,
        (d.parameterList.find f.name).getD [] = trim (decodeString f.value)) ∧
      d.file = file.content

/-- What the parser takes for the rest of the content at the start of the file. -/
def contentLeft (boundary : Str) (before : List Field) (file : FilePart) (after : List Field) :
    Nat :=
  file.content.length + (tail (delimiter boundary) after).length + excess before

/-- The file is the last part, the lines that name the parts and the values are read
whole, and neither the blocks nor the pieces of the last line reach behind the content. -/
structure Storable (boundary : Str) (before : List Field) (file : FilePart) (after : List Field) :
    Prop where
  last : after = []
  fields : ∀ f ∈ before, f.reads = some (trim (decodeString f.value))
  nameFits : file.disposition.length ≤ maxLineBuffer
  typeFits : file.contentType.length ≤ maxLineBuffer
  blocks : ∀ k, BlocksTake (contentLeft boundary before file after) k → k ≤ file.content.length
  pieces : ∀ k, BlocksTake (contentLeft boundary before file after) k →
    lastLine (file.content.drop k) % maxLineBuffer ≠ maxLineBuffer - 1

section
variable {v : Server} {header boundary : Str} {before after : List Field} {file : FilePart}

theorem header_of_lines {header : Str} (h : IsHeader header) {c : Conn} {s : Str}
    (hc : c.rest = header ++ s) : Header [] c header { c with rest := s } := by
  obtain ⟨lines, rfl, hlines⟩ := h
  have hall : ∀ raw : Str, Header raw c (raw ++ (lines.flatMap (· ++ [newline]) ++ crlf))
      { c with rest := s } := by
    induction lines generalizing c with
    | nil =>
      intro raw
      refine .last ⟨[13], s, rfl, by decide, by decide, ?_, rfl⟩
      rw [hc]
      rfl
    | cons l lines ih =>
      intro raw
      obtain ⟨hl, hlen, hne⟩ := hlines l List.mem_cons_self
      have hline : TakesLine c (l ++ [newline])
          { c with rest := lines.flatMap (· ++ [newline]) ++ crlf ++ s } := by
        refine ⟨l, _, rfl, hl, by rw [List.length_append]; exact hlen, ?_, rfl⟩
        rw [hc]
        simp
      have hrest := ih (c := { c with rest := lines.flatMap (· ++ [newline]) ++ crlf ++ s })
        (fun l' hl' => hlines l' (List.mem_cons_of_mem l hl')) rfl (raw ++ (l ++ [newline]))
      have heq : raw ++ ((l :: lines).flatMap (· ++ [newline]) ++ crlf) =
          raw ++ (l ++ [newline]) ++ (lines.flatMap (· ++ [newline]) ++ crlf) := by simp
      rw [heq]
      exact .next hline hne hrest
  exact hall []

/-- The parts of the body decide how the request ends. -/
theorem request_run (h : MultipartRequest v header boundary before file after) {c d : Conn}
    (hc : c.rest = header ++ body (delimiter boundary) before file after)
    (hd : Finishes v (delimiter boundary) (body (delimiter boundary) before file after).length
      { c with rest := body (delimiter boundary) before file after } d) :
    ∃ least, ∀ fuel, least ≤ fuel → Gives (handlePost v fuel) c true d := by
  obtain ⟨least, hrun⟩ := hd
  have hheader := header_of_lines h.isHeader hc
  refine ⟨max least (c.rest.length + 1), fun fuel hfuel => ?_⟩
  unfold handlePost
  have hhead : Gives (headerLoop v fuel []) c (some header) _ :=
    (hheader.ends (v := v) (by omega : _ < fuel)).mono fun _ _ => trivial
  refine ends_bind.mpr ⟨_, _, hhead, ?_⟩
  have htype : contentType (parseHeader header) = multipart ++ boundary := h.type
  dsimp only
  rw [htype, h.length, if_pos (List.prefix_append _ _), List.drop_left]
  exact ends_bind.mpr ⟨(), d, hrun fuel (by omega), ends_pure.mpr ⟨rfl, rfl⟩⟩

theorem run_unique {c d d' : Conn} {r r' : Bool}
    (h : ∃ least, ∀ fuel, least ≤ fuel → Gives (handlePost v fuel) c r d)
    (h' : ∃ least, ∀ fuel, least ≤ fuel → Gives (handlePost v fuel) c r' d') : d' = d := by
  obtain ⟨least, hrun⟩ := h
  obtain ⟨least', hrun'⟩ := h'
  exact ((hrun _ (Nat.le_max_left least least')).unique (hrun' _ (Nat.le_max_right least least'))).2

theorem MultipartRequest.bound (h : MultipartRequest v header boundary before file after) :
    (closing (delimiter boundary)).length + 2 < receiveBlockLen ∧
      IsBoundary (delimiter boundary) := by
  have hshort := h.short
  have hcrlf : crlf.length = 2 := rfl
  have hdashes : (chars "--").length = 2 := rfl
  simp only [tail, List.length_append] at hshort
  have hclosing : (closing (delimiter boundary)).length + 2 < receiveBlockLen := by omega
  refine ⟨hclosing, ?_, ?_, ?_⟩
  · simp only [delimiter, List.mem_append, not_or]
    exact ⟨by decide, h.noReturn⟩
  · simp only [delimiter, List.mem_append, not_or]
    exact ⟨by decide, h.noLine⟩
  · simp only [closing, List.length_append, receiveBlockLen, maxLineBuffer] at hclosing ⊢
    omega

/-- The line of the boundary behind the content. -/
def tailLine : List Field → Str
  | [] => chars "--" ++ [13]
  | _ :: _ => [13]

def tailRest (boundary : Str) : List Field → Str
  | [] => []
  | f :: fields => f.text ++ (fieldParts boundary fields ++ closing boundary)

theorem tail_eq (boundary : Str) (fields : List Field) :
    tail boundary fields =
      crlf ++ (boundary ++ tailLine fields ++ newline :: tailRest boundary fields) := by
  cases fields with
  | nil => simp [tail, fieldParts, closing, tailLine, tailRest, crlf, newline]
  | cons f fields => simp [tail, fieldParts_cons, tailLine, tailRest, crlf, newline]

theorem tailLine_ends (boundary : Str) (fields : List Field) :
    boundary ++ chars "--" <:+: boundary ++ tailLine fields ++ [newline] ↔ fields = [] := by
  cases fields with
  | nil => exact ⟨fun _ => rfl, fun _ => ⟨[], [13, newline], by simp [tailLine]⟩⟩
  | cons f fields =>
    refine ⟨fun h => absurd h ?_, fun h => nomatch h⟩
    have hopen := (@boundary_open boundary).2
    simpa [tailLine, crlf, newline] using hopen

theorem newline_tailLine (fields : List Field) :
    newline ∉ tailLine fields ∧ (tailLine fields).length ≤ 3 := by
  cases fields with
  | nil => exact ⟨by decide, by decide⟩
  | cons f fields => exact ⟨by simp [tailLine, newline], by simp [tailLine]⟩

/-- Where the blocks start. -/
def Conn.atFile (v : Server) (boundary : Str) (before : List Field) (file : FilePart)
    (after : List Field) (c : Conn) : Conn :=
  { c with
    rest := file.contentRead ++ tail boundary after
    parameterList := ((c.storeAll (storedFields before)).storeAll (file.entries v)).parameterList
    file := [] }

def contentAtFile (boundary : Str) (before : List Field) (file : FilePart) (after : List Field) :
    Nat :=
  contentLeft boundary before file after + (file.contentRead.length - file.content.length)

theorem storedFields_names (fields : List Field) :
    (storedFields fields).map Prod.fst = fields.map Field.name := by
  simp only [storedFields, List.map_map]
  rfl

theorem excess_le (boundary : Str) (fields : List Field) :
    excess fields ≤ (fieldParts boundary fields).length := by
  induction fields with
  | nil => exact Nat.le_refl _
  | cons f fields ih =>
    have hsum := length_pieces (f.value ++ [13])
    have hvalue : f.excess ≤ f.text.length := by
      unfold Field.excess Field.text
      split
      · simp only [List.length_append, List.length_singleton] at hsum ⊢
        omega
      · exact Nat.zero_le _
    rw [fieldParts_cons]
    simp only [excess, List.map_cons, List.sum_cons, List.length_append] at ih ⊢
    omega

/-- Behind the file: the field that follows it is not read. -/
theorem tail_run (hb : IsBoundary boundary) (hclosing : (closing boundary).length ≤ maxLineBuffer)
    (hafter : ∀ f ∈ after, f.WellFormed boundary) (hnames : (after.map Field.name).Nodup)
    {n n' : Nat} {c e : Conn} (hleads : Leads v boundary n c n' e)
    (hlast : after = [] → n' = 0) (hn : after ≠ [] → (tailRest boundary after).length ≤ n')
    (hrest : e.rest = tailRest boundary after) :
    ∃ d, Finishes v boundary n c d ∧ d.file = e.file ∧
      ∀ k, k ∉ after.tail.map Field.name → d.parameterList.find k = e.parameterList.find k := by
  cases after with
  | nil =>
    rw [hlast rfl] at hleads
    exact ⟨e, .last hleads, rfl, fun k _ => rfl⟩
  | cons g gs =>
    have hn := hn (List.cons_ne_nil g gs)
    have hpos : 0 < (closing boundary).length := by simp [closing, crlf]
    simp only [tailRest, List.length_append] at hn hrest
    obtain ⟨d, hd, hfile, hother⟩ := rest_run (v := v) hb hclosing
      (fun f hf => hafter f (List.mem_cons_of_mem g hf)) (List.nodup_cons.mp hnames).2
      (n := n' - g.text.length) (c := { e with rest := fieldParts boundary gs ++ closing boundary })
      rfl (by omega)
    have hskip := field_skipped (v := v) (hafter g List.mem_cons_self) hrest (by omega) hd
    exact ⟨d, .step hleads (by omega) hskip, hfile, hother⟩

theorem parts_run (h : MultipartRequest v header boundary before file after)
    (hreads : ∀ f ∈ before, f.reads ≠ none) (hlen : file.disposition.length ≤ maxLineBuffer)
    (htype : file.contentType.length ≤ maxLineBuffer ∨
      file.contentType.length = maxLineBuffer + 2) {k : Nat} {c d : Conn}
    (hc : c.rest = body (delimiter boundary) before file after)
    (hk : k ≤ file.contentRead.length + 1)
    (hblocks : BlocksGive v (contentAtFile boundary before file after)
      (c.atFile v (delimiter boundary) before file after) k d) :
    ∃ e, Finishes v (delimiter boundary) (body (delimiter boundary) before file after).length c e ∧
      e.file = file.contentRead ++ overhangBehind k file.contentRead ∧
      (∀ f ∈ before, e.parameterList.find f.name = some (f.reads.getD [])) ∧
      ∀ f ∈ after.head?, e.parameterList.find f.name = c.parameterList.find f.name := by
  obtain ⟨hclosing, hb⟩ := h.bound
  obtain ⟨hz, hzlen⟩ := newline_tailLine after
  have hcrlf : crlf.length = 2 := rfl
  have hbody := body_split (delimiter boundary) before file after
  have hbodyLen := congrArg List.length hbody
  have htailLen := congrArg List.length (tail_eq (delimiter boundary) after)
  have hshort := h.short
  have hroom := h.room
  have hmaxLine : maxLineBuffer = 2048 := rfl
  have hexcess := excess_le (delimiter boundary) before
  have hmax : (body (delimiter boundary) before file after).length < 2 ^ 32 := by
    rw [← h.length]
    unfold contentLength
    split
    · exact Nat.two_pow_pos 32
    · exact UInt32.toNat_lt _
  simp only [List.length_append, List.length_cons] at hbodyLen htailLen
  simp only [receiveBlockLen] at hshort hclosing
  obtain ⟨n', e, hleads, hn', hrest, hparams, hfile⟩ := file_read (v := v) hb h.isFile hlen htype
    h.opens hz (s := tailRest (delimiter boundary) after)
    (n := (body (delimiter boundary) before file after).length -
      (fieldParts (delimiter boundary) before).length + excess before)
    (m := contentAtFile boundary before file after) (k := k) (d := d)
    (c := { c with
      rest := delimiter boundary ++ crlf ++ file.head ++
        (file.content ++ tail (delimiter boundary) after) }.storeAll (storedFields before))
    (by simp only [maxLineBuffer, List.length_append]; omega)
    (by rw [tail_eq]; simp [Conn.storeAll])
    (by omega)
    (by simp only [contentAtFile, contentLeft, List.length_append]; omega)
    (by simp only [List.length_append]; omega) (by omega) hk
    (by
      have hat := hblocks
      unfold Conn.atFile at hat
      rw [tail_eq, ← List.append_assoc] at hat
      exact hat)
  have hnames := h.names
  simp only [List.nodup_append] at hnames
  obtain ⟨⟨hnodup, -, hupload⟩, hafter, hdisjoint⟩ := hnames
  obtain ⟨e', hrun, hfile', hother⟩ := tail_run hb (by omega) h.fieldsAfter hafter hleads
    (fun hnil => by rw [hn', if_pos ((tailLine_ends _ _).mpr hnil)])
    (fun hne => by
      rw [hn', if_neg fun hends => hne ((tailLine_ends _ _).mp hends)]
      simp only [contentAtFile, contentLeft, List.length_append]
      omega) hrest
  refine ⟨e', fields_read hb h.fieldsBefore hreads (hc.trans hbody) (by omega) hrun,
    hfile'.trans hfile, ?_, ?_⟩
  · intro f hf
    have hmem : f.name ∈ before.map Field.name := List.mem_map_of_mem hf
    rw [hother f.name fun hlater => hdisjoint _ (List.mem_append_left _ hmem) _
      (List.map_subset _ (List.tail_subset after) hlater) rfl, hparams]
    have hentries : f.name ∉ (file.entries v).map Prod.fst := fun hin =>
      hupload _ hmem _ hin rfl
    have hstored : (f.name, f.reads.getD []) ∈ storedFields before := List.mem_map_of_mem hf
    have hkeys : ((storedFields before).map Prod.fst).Nodup := by
      rw [storedFields_names]
      exact hnodup
    exact (OrdMap.find_foldl_set_notMem hentries).trans
      (OrdMap.find_foldl_set_mem hkeys hstored)
  · intro f hf
    cases after with
    | nil => cases hf
    | cons g gs =>
      injection hf with hf
      subst hf
      obtain ⟨hnext, -⟩ := List.nodup_cons.mp hafter
      have hmem : g.name ∈ (g :: gs).map Field.name := List.mem_cons_self
      rw [hother g.name hnext, hparams]
      have hentries : g.name ∉ (file.entries v).map Prod.fst := fun hin =>
        hdisjoint _ (List.mem_append_right _ hin) _ hmem rfl
      have hkeys : g.name ∉ (storedFields before).map Prod.fst := fun hin =>
        hdisjoint _ (List.mem_append_left _ (storedFields_names before ▸ hin)) _ hmem rfl
      exact (OrdMap.find_foldl_set_notMem hentries).trans
        (OrdMap.find_foldl_set_notMem hkeys)

/-! ## Requests that are stored -/

theorem BlocksTake.zero (contentLen : Nat) : BlocksTake contentLen 0 := by
  unfold BlocksTake
  split
  · exact Nat.zero_le _
  · rfl

theorem BlocksTake.below {contentLen j k : Nat} (h : BlocksTake contentLen k) (hj : j ≤ k) :
    BlocksTake contentLen j := by
  unfold BlocksTake at h ⊢
  split
  case isTrue hfar =>
    rw [if_pos hfar] at h
    exact hj.trans h
  case isFalse hfar =>
    rw [if_neg hfar] at h
    exact Nat.eq_zero_of_le_zero (h ▸ hj)

theorem length_contentRead (file : FilePart) :
    file.content.length ≤ file.contentRead.length ∧
      file.contentRead.length ≤ file.content.length + 2 := by
  unfold FilePart.contentRead
  split
  · exact ⟨Nat.le_refl _, Nat.le_add_right _ 2⟩
  · rw [List.length_append]
    exact ⟨Nat.le_add_left _ _, (Nat.add_comm _ _).le⟩

/-- The server has room for all that follows the head of the file. -/
theorem MultipartRequest.roomAtFile (h : MultipartRequest v header boundary before file after)
    (c : Conn) : (c.atFile v (delimiter boundary) before file after).file.length +
      (c.atFile v (delimiter boundary) before file after).rest.length ≤ v.room := by
  have hroom := h.room
  have hread := (length_contentRead file).2
  simp only [Conn.atFile, body, List.length_append, List.length_nil] at hroom ⊢
  omega

theorem stored_of_storable (h : MultipartRequest v header boundary before file after)
    (hs : Storable boundary before file after) :
    StoredFaithfully v header boundary before file after := by
  intro c _ hc
  have hread : file.contentRead = file.content := if_pos hs.typeFits
  have hleft : contentAtFile boundary before file after = contentLeft boundary before file after := by
    unfold contentAtFile
    rw [hread, Nat.sub_self, Nat.add_zero]
  obtain ⟨k, d, -, htake, hblocks⟩ := blocks_run (contentAtFile boundary before file after)
    (h.roomAtFile { c with rest := body (delimiter boundary) before file after })
  have hk := hs.blocks k (hleft ▸ htake)
  have hreads : ∀ f ∈ before, f.reads ≠ none := fun f hf => by
    rw [hs.fields f hf]
    exact Option.some_ne_none _
  obtain ⟨e, hrun, hfile, hparams, -⟩ := parts_run h hreads hs.nameFits (.inl hs.typeFits)
    (c := { c with rest := body (delimiter boundary) before file after }) rfl
    (by rw [hread]; omega) hblocks
  refine ⟨e, request_run h hc hrun, fun f hf => ?_, ?_⟩
  · rw [hs.last, List.append_nil] at hf
    rw [hparams f hf, hs.fields f hf]
    rfl
  · have hpieces : overhang (file.content.drop k) = [] := if_neg (hs.pieces k (hleft ▸ htake))
    rw [hfile, hread, overhangBehind, if_pos hk, hpieces, List.append_nil]

/-- What the request leaves is what is sent. -/
theorem StoredFaithfully.at_end (hs : StoredFaithfully v header boundary before file after)
    (h : MultipartRequest v header boundary before file after) {c e : Conn}
    (hvalid : c.isValid = true)
    (hc : c.rest = header ++ body (delimiter boundary) before file after)
    (hrun : Finishes v (delimiter boundary) (body (delimiter boundary) before file after).length
      { c with rest := body (delimiter boundary) before file after } e) :
    (∀ f ∈ before ++ after,
      (e.parameterList.find f.name).getD [] = trim (decodeString f.value)) ∧
        e.file = file.content := by
  obtain ⟨d, hd, hparams, hfile⟩ := hs c hvalid hc
  have heq := run_unique hd (request_run h hc hrun)
  subst heq
  exact ⟨hparams, hfile⟩

/-- A connection on which another file and other values are already stored. -/
def otherConn (header boundary : Str) (before : List Field) (file : FilePart)
    (after : List Field) (arrived : List Nat) : Conn where
  rest := header ++ body (delimiter boundary) before file after
  arrived := arrived
  isValid := true
  parameterList := (before ++ after).foldl
    (fun m f => m.set f.name (0 :: trim (decodeString f.value))) OrdMap.empty
  file := 0 :: file.content
  uploads := []
  errors := []

theorem find_otherConn (hnames : ((before ++ after).map Field.name).Nodup) {arrived : List Nat}
    {f : Field} (hf : f ∈ before ++ after) :
    (otherConn header boundary before file after arrived).parameterList.find f.name =
      some (0 :: trim (decodeString f.value)) := by
  have hentries : ∀ (fields : List Field) (m : OrdMap Str Str),
      fields.foldl (fun m f => m.set f.name (0 :: trim (decodeString f.value))) m =
        (fields.map fun f => (f.name, 0 :: trim (decodeString f.value))).foldl
          (fun m e => m.set e.1 e.2) m := fun fields m => by
    rw [List.foldl_map]
  rw [otherConn, hentries]
  refine OrdMap.find_foldl_set_mem ?_ (List.mem_map_of_mem hf)
  rw [List.map_map]
  exact hnames

section
variable (h : MultipartRequest v header boundary before file after)
  (hs : StoredFaithfully v header boundary before file after)
include h hs

/-- The request does not end before the file is written. -/
theorem file_changed {e : Conn} (hfile : e.file = 0 :: file.content) :
    ¬ Finishes v (delimiter boundary) (body (delimiter boundary) before file after).length
      { otherConn header boundary before file after [] with
        rest := body (delimiter boundary) before file after } e := by
  intro hrun
  have hsent := (hs.at_end h rfl rfl hrun).2
  rw [hfile] at hsent
  exact List.cons_ne_self _ _ hsent

theorem reads_of_stored : ∀ f ∈ before, f.reads ≠ none := by
  by_contra hnone
  have hnone : ∃ f ∈ before, f.reads = none := by simpa using hnone
  have hnames := h.names
  simp only [List.nodup_append] at hnames
  have hbody := body_split (delimiter boundary) before file after
  have hlen := congrArg List.length hbody
  have hcrlf : crlf.length = 2 := rfl
  simp only [List.length_append] at hlen
  obtain ⟨e, hrun, hfile, -⟩ := fields_stop (v := v) h.bound.2 h.fieldsBefore hnames.1.1 hnone
    (n := (body (delimiter boundary) before file after).length)
    (c := { otherConn header boundary before file after [] with
      rest := body (delimiter boundary) before file after }) hbody (by omega)
  exact file_changed h hs hfile hrun

theorem head_of_stored : file.disposition.length ≤ maxLineBuffer ∧
    (file.contentType.length ≤ maxLineBuffer ∨
      file.contentType.length = maxLineBuffer + 2) := by
  by_contra hhead
  have hlong : maxLineBuffer < file.disposition.length ∨
      maxLineBuffer < file.contentType.length ∧ file.contentType.length ≠ maxLineBuffer + 2 := by
    omega
  have hbody := body_split (delimiter boundary) before file after
  have hlen := congrArg List.length hbody
  have hcrlf : crlf.length = 2 := rfl
  have htail : 2 ≤ (tail (delimiter boundary) after).length := by
    simp only [tail, List.length_append]
    omega
  simp only [List.length_append] at hlen
  obtain ⟨e, hstop, hfile⟩ := file_stops (v := v) h.bound.2 h.isFile
    (n := (body (delimiter boundary) before file after).length -
      (fieldParts (delimiter boundary) before).length + excess before)
    (c := { otherConn header boundary before file after [] with
      rest := delimiter boundary ++ crlf ++ file.head ++
        (file.content ++ tail (delimiter boundary) after) }.storeAll (storedFields before))
    rfl (by simp only [List.length_append]; omega) hlong
  refine file_changed h hs hfile (fields_read h.bound.2 h.fieldsBefore (reads_of_stored h hs)
    hbody (by omega) hstop)

/-- Whatever the blocks may take of the content: it is stored. -/
theorem taken_of_stored {k : Nat} (hk : k ≤ file.contentRead.length + 1)
    (htake : BlocksTake (contentAtFile boundary before file after) k) :
    file.contentRead ++ overhangBehind k file.contentRead = file.content ∧
      (∀ f ∈ before, f.reads.getD [] = trim (decodeString f.value)) ∧ after = [] := by
  obtain ⟨hlen, htype⟩ := head_of_stored h hs
  have hcrlf : crlf.length = 2 := rfl
  obtain ⟨arrived, d, hblocks⟩ := blocks_pick (v := v) (k := k)
    (c := { otherConn header boundary before file after [] with
      rest := body (delimiter boundary) before file after }.atFile v (delimiter boundary) before
        file after)
    (by simp only [Conn.atFile, tail, List.length_append]; omega) htake (h.roomAtFile _)
  obtain ⟨e, hrun, hfile, hparams, hnext⟩ := parts_run h (reads_of_stored h hs) hlen htype
    (c := { otherConn header boundary before file after arrived with
      rest := body (delimiter boundary) before file after }) rfl hk hblocks
  obtain ⟨hvalues, hcontent⟩ := hs.at_end h rfl rfl hrun
  refine ⟨hfile.symm.trans hcontent, fun f hf => ?_, ?_⟩
  · have hvalue := hvalues f (List.mem_append_left _ hf)
    rw [hparams f hf] at hvalue
    exact hvalue
  · cases hafter : after with
    | nil => rfl
    | cons g gs =>
      have hg : g ∈ before ++ after := by simp [hafter]
      have hnames : ((before ++ after).map Field.name).Nodup := by
        have hall := h.names
        simp only [List.nodup_append, List.mem_append] at hall
        rw [List.map_append]
        exact List.nodup_append.mpr
          ⟨hall.1.1, hall.2.1, fun a ha => hall.2.2 a (.inl ha)⟩
      have hvalue := hvalues g hg
      rw [hnext g (by rw [hafter]; rfl)] at hvalue
      have hother := @find_otherConn header boundary _ _ file hnames arrived _ hg
      rw [hother] at hvalue
      exact absurd hvalue (List.cons_ne_self _ _)

theorem storable_of_stored : Storable boundary before file after := by
  obtain ⟨hcontent, hvalues, hlast⟩ := taken_of_stored h hs (Nat.zero_le _) (.zero _)
  obtain ⟨hname, htype⟩ := head_of_stored h hs
  have hread : file.contentRead = file.content := by
    have hlen := congrArg List.length hcontent
    rw [List.length_append] at hlen
    have hge := (length_contentRead file).1
    have hnil : overhangBehind 0 file.contentRead = [] := List.eq_nil_of_length_eq_zero (by omega)
    rwa [hnil, List.append_nil] at hcontent
  have htypeFits : file.contentType.length ≤ maxLineBuffer := by
    by_contra hlong
    have hcrlf : file.contentRead = crlf ++ file.content := if_neg hlong
    rw [hread] at hcrlf
    have hlen := congrArg List.length hcrlf
    rw [List.length_append] at hlen
    have : crlf.length = 2 := rfl
    omega
  have hleft : contentAtFile boundary before file after = contentLeft boundary before file after := by
    unfold contentAtFile
    rw [hread, Nat.sub_self, Nat.add_zero]
  have hover : ∀ k, k ≤ file.content.length + 1 →
      BlocksTake (contentLeft boundary before file after) k →
      overhangBehind k file.content = [] := fun k hk htake => by
    have htaken := (taken_of_stored h hs (hread.symm ▸ hk) (hleft.symm ▸ htake)).1
    rw [hread] at htaken
    exact List.append_right_eq_self.mp htaken
  have hblocks : ∀ k, BlocksTake (contentLeft boundary before file after) k →
      k ≤ file.content.length := by
    intro k htake
    by_contra hmore
    have hbehind := hover (file.content.length + 1) (Nat.le_refl _)
      (htake.below (Nat.lt_of_not_le hmore))
    rw [overhangBehind, if_neg (Nat.not_succ_le_self _)] at hbehind
    cases hbehind
  refine ⟨hlast, fun f hf => ?_, hname, htypeFits, hblocks, fun k htake hcut => ?_⟩
  · obtain ⟨w, hw⟩ := Option.ne_none_iff_exists'.mp (reads_of_stored h hs f hf)
    have hvalue := hvalues f hf
    rw [hw] at hvalue ⊢
    rw [← hvalue]
    rfl
  · have hk := hblocks k htake
    have hbehind := hover k (hk.trans (Nat.le_succ _)) htake
    rw [overhangBehind, if_pos hk, overhang, if_pos hcut] at hbehind
    cases hbehind

end

/-- A request is stored faithfully under every schedule exactly when it is storable. -/
theorem storedFaithfully_iff (h : MultipartRequest v header boundary before file after) :
    StoredFaithfully v header boundary before file after ↔ Storable boundary before file after :=
  ⟨storable_of_stored h, stored_of_storable h⟩

end

/-! ## A field before the file and behind it -/

def sampleServer : Server := ⟨chars "/tmp/upload.tmp", true, 1000, fun _ => 0⟩

def sampleField : Field := ⟨chars "a", chars "1"⟩

def sampleFile : FilePart := ⟨chars "f", chars "x.txt", chars "text/plain", chars "line\r\n\r\nend"⟩

def sampleHeader : Str :=
  chars "Content-Type: multipart/form-data; boundary=X\r\nContent-Length: 165\r\n\r\n"

theorem sampleField_wellFormed : sampleField.WellFormed (delimiter (chars "X")) :=
  ⟨by decide, by decide, by decide, by decide⟩

theorem sampleHeader_isHeader : IsHeader sampleHeader := by
  refine ⟨[chars "Content-Type: multipart/form-data; boundary=X\r",
    chars "Content-Length: 165\r"], by decide, ?_⟩
  decide

theorem parse_sampleHeader :
    parseHeader sampleHeader = OrdMap.ofList [(chars "Content-Type", multipart ++ chars "X"),
      (chars "Content-Length", chars "165")] := by decide

theorem sampleFile_wellFormed : sampleFile.WellFormed (delimiter (chars "X")) :=
  ⟨by decide +kernel, by decide +kernel, by decide +kernel, by decide +kernel,
    by decide +kernel, by decide +kernel, by decide +kernel⟩

theorem sample_first :
    MultipartRequest sampleServer sampleHeader (chars "X") [sampleField] sampleFile [] where
  isHeader := sampleHeader_isHeader
  type := by
    rw [parse_sampleHeader]
    decide
  length := by
    rw [parse_sampleHeader]
    decide +kernel
  noReturn := by decide
  noLine := by decide
  fieldsBefore := by simpa using sampleField_wellFormed
  isFile := sampleFile_wellFormed
  fieldsAfter := by simp
  short := by decide
  names := by decide
  opens := rfl
  room := by decide +kernel

theorem sample_behind :
    MultipartRequest sampleServer sampleHeader (chars "X") [] sampleFile [sampleField] where
  isHeader := sampleHeader_isHeader
  type := by
    rw [parse_sampleHeader]
    decide
  length := by
    rw [parse_sampleHeader]
    decide +kernel
  noReturn := by decide
  noLine := by decide
  fieldsBefore := by simp
  isFile := sampleFile_wellFormed
  fieldsAfter := by simpa using sampleField_wellFormed
  short := by decide
  names := by decide
  opens := rfl
  room := by decide

/-- Little content is read in lines only. -/
theorem BlocksTake.few {contentLen k : Nat} (hlen : contentLen ≤ searchBoundaryLen)
    (h : BlocksTake contentLen k) : k = 0 := by
  unfold BlocksTake at h
  rwa [if_neg fun hfar => Nat.not_lt_of_le hlen hfar.1] at h

theorem field_before_stored :
    StoredFaithfully sampleServer sampleHeader (chars "X") [sampleField] sampleFile [] := by
  have hfew : contentLeft (chars "X") [sampleField] sampleFile [] ≤ searchBoundaryLen := by decide
  refine (storedFaithfully_iff sample_first).mpr
    ⟨rfl, by decide, by decide, by decide, fun k hk => ?_, fun k hk => ?_⟩
  · rw [hk.few hfew]
    exact Nat.zero_le _
  · rw [hk.few hfew]
    decide

/-- The line of the boundary behind the file is taken for its end: the field is lost. -/
theorem field_behind_lost :
    ¬ StoredFaithfully sampleServer sampleHeader (chars "X") [] sampleFile [sampleField] :=
  fun hs => List.cons_ne_nil _ _ (storable_of_stored sample_behind hs).last

end Tuxbox.Nhttpd
