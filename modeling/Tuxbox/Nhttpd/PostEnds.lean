import Tuxbox.Nhttpd.PostLines

/-!
# POST requests that are finished

Which requests are read to their end, within the buffer of a line and without a
length below zero.
-/

namespace Tuxbox.Nhttpd

open Prog

section
variable {v : Server} {boundary : Str}

/-! ## What the client sends -/

/-- The lines from here on, up to the first empty one. -/
inductive Header : Str → Conn → Str → Conn → Prop
  | last {raw : Str} {c d : Conn} : TakesLine c crlf d → Header raw c (raw ++ crlf) d
  | next {raw line header : Str} {c d e : Conn} : TakesLine c line d → line ≠ crlf →
      Header (raw ++ line) d header e → Header raw c header e

/-- A line goes to the file without its CRLF, behind the CRLF of the line before. There is no result
where the disk is full. -/
def StoresLine (v : Server) (isCrlf : Bool) (line : Str) (c : Conn) (stored : Option Bool)
    (d : Conn) : Prop :=
  if isCrlf ∧ v.room < c.file.length + crlf.length then stored = none ∧ d = c.write v crlf
  else
    let c := if isCrlf then c.write v crlf else c
    d = c.write v (splitCrlf line).2 ∧
      stored = if c.file.length + (splitCrlf line).2.length ≤ v.room then some (splitCrlf line).1
        else none

/-- The lines of a file, with the number of bytes that were read before. -/
inductive FileLines (v : Server) (boundary : Str) (contentLen : Nat) :
    Nat → Bool → Conn → Option (Nat × Bool) → Conn → Prop
  | boundary {readbytes : Nat} {isCrlf : Bool} {line : Str} {c d : Conn} :
      TakesLine c line d → boundary <:+: line →
      FileLines v boundary contentLen readbytes isCrlf c
        (some ((readbytes + line.length) % 2 ^ 32, decide (boundary ++ chars "--" <:+: line))) d
  | full {readbytes : Nat} {isCrlf : Bool} {line : Str} {c d e : Conn} :
      TakesLine c line d → ¬ boundary <:+: line →
      StoresLine v isCrlf line d none e →
      FileLines v boundary contentLen readbytes isCrlf c none e
  | enough {readbytes : Nat} {isCrlf isCrlf' : Bool} {line : Str} {c d e : Conn} :
      TakesLine c line d → ¬ boundary <:+: line →
      StoresLine v isCrlf line d (some isCrlf') e →
      contentLen ≤ (readbytes + line.length) % 2 ^ 32 →
      FileLines v boundary contentLen readbytes isCrlf c
        (some ((readbytes + line.length) % 2 ^ 32, false)) e
  | more {readbytes : Nat} {isCrlf isCrlf' : Bool} {line : Str} {c d e f : Conn}
      {found : Option (Nat × Bool)} :
      TakesLine c line d → ¬ boundary <:+: line →
      StoresLine v isCrlf line d (some isCrlf') e →
      (readbytes + line.length) % 2 ^ 32 < contentLen →
      FileLines v boundary contentLen ((readbytes + line.length) % 2 ^ 32) isCrlf' e found f →
      FileLines v boundary contentLen readbytes isCrlf c found f

/-- What the blocks take from the stream as it arrives and write to the file, behind so many bytes
and after so many questions without an answer. -/
inductive Blocks (v : Server) (length : Nat) : Nat → Nat → Conn → Nat → Conn → Prop
  | wait {readbytes retries k : Nat} {c d : Conn} : c.available = 0 →
      ¬ nonBlockingMaxRetries < retries + 1 → readbytes + receiveBlockLen < length →
      Blocks v length readbytes (retries + 1) c.asked k d → Blocks v length readbytes retries c k d
  | silent {readbytes retries : Nat} {c : Conn} : c.available = 0 →
      (readbytes + receiveBlockLen < length → nonBlockingMaxRetries < retries + 1) →
      Blocks v length readbytes retries c readbytes c.asked
  | full {readbytes retries n : Nat} {c : Conn} : c.available ≠ 0 →
      min c.available receiveBlockLen = n → v.room < c.file.length + n →
      Blocks v length readbytes retries c 0 (c.stored v n)
  | more {readbytes retries n k : Nat} {c d : Conn} : c.available ≠ 0 →
      min c.available receiveBlockLen = n → c.file.length + n ≤ v.room →
      readbytes + n + receiveBlockLen < length →
      Blocks v length (readbytes + n) 0 (c.stored v n) k d → Blocks v length readbytes retries c k d
  | last {readbytes retries n : Nat} {c : Conn} : c.available ≠ 0 →
      min c.available receiveBlockLen = n → c.file.length + n ≤ v.room →
      length ≤ readbytes + n + receiveBlockLen →
      Blocks v length readbytes retries c (readbytes + n) (c.stored v n)

/-- What the blocks take of a file that is longer than the search for its boundary. -/
def FileBlocks (v : Server) (contentLen : Nat) (c : Conn) (contentLen' : Nat) (d : Conn) : Prop :=
  if searchBoundaryLen < contentLen ∧ contentLen < 2 ^ 31 then
    ∃ k, Blocks v (contentLen - searchBoundaryLen) 0 0 c k d ∧ contentLen' = contentLen - k
  else contentLen' = contentLen ∧ d = c

/-- A file: the bytes of its lines are not more than what is left of the content. -/
inductive Upload (v : Server) (boundary : Str) : Nat → Conn → Nat → Conn → Prop
  | full {n n' : Nat} {c d e : Conn} : FileBlocks v n { c with file := [] } n' d →
      FileLines v boundary n' 0 false d none e → Upload v boundary n c 0 e
  | atEnd {n n' readbytes : Nat} {c d e : Conn} : FileBlocks v n { c with file := [] } n' d →
      FileLines v boundary n' 0 false d (some (readbytes, true)) e → readbytes ≤ n' →
      Upload v boundary n c 0 { e with uploads := e.uploads ++ [v.uploadFilename] }
  | more {n n' readbytes : Nat} {c d e : Conn} : FileBlocks v n { c with file := [] } n' d →
      FileLines v boundary n' 0 false d (some (readbytes, false)) e → readbytes ≤ n' →
      Upload v boundary n c (n' - readbytes) e

/-- The line of the boundary and the one that says what the part is. -/
def PartStart (boundary : Str) (n : Nat) (c : Conn) (part : Option Disposition) (n' : Nat)
    (d : Conn) : Prop :=
  ∃ line n₁ c₁ line', TakesPart n c line n₁ c₁ ∧ boundary <:+: line ∧
    ¬ boundary ++ chars "--" <:+: line ∧ TakesPart n₁ c₁ line' n' d ∧
    part = if chars "Content-Disposition:" <:+: line' then disposition line' else none

/-- Behind the start of a part. A part that is not as it should be ends the request. -/
inductive PartRest (v : Server) (boundary : Str) :
    Option Disposition → Nat → Conn → Nat → Conn → Prop
  | unknown {n : Nat} {c : Conn} : PartRest v boundary none n c 0 c
  | noSeparator {n n' : Nat} {c d : Conn} {name line : Str} :
      TakesPart n c line n' d → line ≠ crlf →
      PartRest v boundary (some (.parameter name)) n c 0 d
  | parameter {n n' : Nat} {c d e : Conn} {name value : Str} :
      TakesPart n c crlf n' d → TakesLine d value e → crlf.length ≤ n' →
      PartRest v boundary (some (.parameter name)) n c (n' - crlf.length)
        (e.setParameter name (trim (decodeString value)))
  | noType {n n' : Nat} {c d : Conn} {name filename line : Str} :
      TakesPart n (c.setParameter name (trim filename)) line n' d →
      (ySplitStringExact line (chars "Content-Type:")).1 = false →
      PartRest v boundary (some (.file name filename)) n c 0 d
  | typeOnly {n n₁ n₂ : Nat} {c d e : Conn} {name filename line before mime line' : Str} :
      TakesPart n (c.setParameter name (trim filename)) line n₁ d →
      ySplitStringExact line (chars "Content-Type:") = (true, before, mime) →
      TakesPart n₁ (d.setParameter (name ++ chars "_mime") (trim mime)) line' n₂ e →
      line' ≠ crlf → PartRest v boundary (some (.file name filename)) n c 0 e
  | notOpened {n n₁ n₂ : Nat} {c d e : Conn} {name filename line before mime : Str} :
      TakesPart n (c.setParameter name (trim filename)) line n₁ d →
      ySplitStringExact line (chars "Content-Type:") = (true, before, mime) →
      TakesPart n₁ (d.setParameter (name ++ chars "_mime") (trim mime)) crlf n₂ e →
      v.opens = false →
      PartRest v boundary (some (.file name filename)) n c 0
        (e.setParameter (name ++ chars "_upload_filename") v.uploadFilename)
  | file {n n₁ n₂ n₃ : Nat} {c d e f : Conn} {name filename line before mime : Str} :
      TakesPart n (c.setParameter name (trim filename)) line n₁ d →
      ySplitStringExact line (chars "Content-Type:") = (true, before, mime) →
      TakesPart n₁ (d.setParameter (name ++ chars "_mime") (trim mime)) crlf n₂ e →
      v.opens = true →
      Upload v boundary n₂
        (e.setParameter (name ++ chars "_upload_filename") v.uploadFilename) n₃ f →
      PartRest v boundary (some (.file name filename)) n c n₃ f

/-- What the client has to send, line by line. -/
inductive Part (v : Server) (boundary : Str) : Nat → Conn → Nat → Conn → Prop
  | other {n n' : Nat} {c d : Conn} {line : Str} : TakesPart n c line n' d →
      ¬ boundary <:+: line → Part v boundary n c n' d
  | last {n n' : Nat} {c d : Conn} {line : Str} : TakesPart n c line n' d →
      boundary ++ chars "--" <:+: line → Part v boundary n c 0 d
  | start {n n₁ n' : Nat} {c c₁ d : Conn} {part : Option Disposition} :
      PartStart boundary n c part n₁ c₁ → PartRest v boundary part n₁ c₁ n' d →
      Part v boundary n c n' d

/-- The parts from here on, until nothing is left of the content. -/
inductive Parts (v : Server) (boundary : Str) : Nat → Conn → Conn → Prop
  | last {n : Nat} {c d : Conn} : Part v boundary n c 0 d → Parts v boundary n c d
  | next {n n' : Nat} {c d e : Conn} : Part v boundary n c n' d → 0 < n' →
      Parts v boundary n' d e → Parts v boundary n c e

/-- A request that can be read to its end. -/
def Complete (v : Server) (c : Conn) : Prop :=
  ∃ header d, Header [] c header d ∧
    let contentLen := contentLength (parseHeader header)
    let type := contentType (parseHeader header)
    if multipart <+: type then
      ∃ e, Parts v (chars "--" ++ type.drop multipart.length) contentLen d e
    else if type = urlencoded then contentLen ≤ d.rest.length
    else True

/-! ## The header -/

theorem crlf_ne_nil : crlf ≠ [] := List.cons_ne_nil _ _

theorem TakesLine.ne_nil {c d : Conn} {line : Str} (h : TakesLine c line d) : line ≠ [] := by
  obtain ⟨l, rest, rfl, -⟩ := h
  simp

theorem header_of_ends {fuel : Nat} {c d : Conn} {raw : Str} {found : Option Str}
    (h : Ends Event.Good (headerLoop v fuel raw) c found d) :
    ∃ header, found = some header ∧ Header raw c header d := by
  induction fuel generalizing c raw with
  | zero => exact absurd h ends_endless
  | succ fuel ih =>
    simp only [headerLoop, ends_bind, ends_receiveLine] at h
    obtain ⟨line, e, hline, h⟩ := h
    rw [if_neg hline.ne_nil] at h
    split at h
    case isTrue hcrlf =>
      rw [ends_pure] at h
      obtain ⟨rfl, rfl⟩ := h
      subst hcrlf
      exact ⟨raw ++ crlf, rfl, .last hline⟩
    case isFalse hcrlf =>
      obtain ⟨header, rfl, hheader⟩ := ih h
      exact ⟨header, rfl, .next hline hcrlf hheader⟩

theorem Header.ends {raw header : Str} {c d : Conn} (h : Header raw c header d) {fuel : Nat}
    (hfuel : c.rest.length < fuel) :
    Ends Event.Good (headerLoop v fuel raw) c (some header) d := by
  induction h generalizing fuel with
  | last hline =>
    obtain ⟨fuel, rfl⟩ := Nat.exists_eq_add_one_of_ne_zero (Nat.ne_of_gt (Nat.zero_lt_of_lt hfuel))
    simp only [headerLoop, ends_bind, ends_receiveLine]
    exact ⟨_, _, hline, by simp [crlf_ne_nil]⟩
  | next hline hcrlf hrest ih =>
    obtain ⟨fuel, rfl⟩ := Nat.exists_eq_add_one_of_ne_zero (Nat.ne_of_gt (Nat.zero_lt_of_lt hfuel))
    have hless := hline.shorter.1
    simp only [headerLoop, ends_bind, ends_receiveLine]
    refine ⟨_, _, hline, ?_⟩
    rw [if_neg hline.ne_nil, if_neg hcrlf]
    exact ih (by omega)

theorem Header.pending {raw header : Str} {c d : Conn} (h : Header raw c header d) :
    d.pending ≤ c.pending ∧ d.isValid = c.isValid := by
  have hline : ∀ {line : Str} {c d : Conn}, TakesLine c line d →
      d.pending ≤ c.pending ∧ d.isValid = c.isValid := by
    intro line c d hline
    have hless := hline.shorter.1
    obtain ⟨l, rest, -, -, -, -, rfl⟩ := hline
    refine ⟨?_, rfl⟩
    simp only [Conn.pending] at hless ⊢
    omega
  induction h with
  | last h => exact hline h
  | next h _ _ ih => exact ⟨ih.1.trans (hline h).1, ih.2.trans (hline h).2⟩

/-! ## Files -/

theorem ends_storeLine {good : Event → Prop} {isCrlf : Bool} {line : Str} {c d : Conn}
    {stored : Option Bool} :
    Ends good (storeLine v isCrlf line) c stored d ↔ StoresLine v isCrlf line c stored d := by
  have hline (c : Conn) : Ends good (do
        let ok ← writeFile v (splitCrlf line).2
        if ok then pure (some (splitCrlf line).1) else pure none) c stored d ↔
      d = c.write v (splitCrlf line).2 ∧
        stored = if c.file.length + (splitCrlf line).2.length ≤ v.room then
          some (splitCrlf line).1 else none := by
    simp only [ends_bind, ends_writeFile]
    by_cases hroom : c.file.length + (splitCrlf line).2.length ≤ v.room
    · simp [hroom, and_comm]
    · simp [hroom, and_comm]
  unfold storeLine StoresLine
  cases isCrlf with
  | false => simp [storeCrlf, ends_bind, hline]
  | true =>
    simp only [storeCrlf, if_true, ends_bind, ends_writeFile, true_and]
    by_cases hfull : v.room < c.file.length + crlf.length
    · simp [hfull, Nat.not_le.mpr hfull]
    · simp [hfull, Nat.le_of_not_lt hfull, hline]

theorem StoresLine.rest {isCrlf : Bool} {line : Str} {c d : Conn} {stored : Option Bool}
    (h : StoresLine v isCrlf line c stored d) : d.rest = c.rest ∧ d.arrived = c.arrived := by
  unfold StoresLine at h
  split at h
  · rw [h.2]
    exact ⟨rfl, rfl⟩
  · rw [h.1]
    split <;> exact ⟨rfl, rfl⟩

theorem fileLines_of_ends {contentLen fuel readbytes : Nat} {isCrlf : Bool} {c d : Conn}
    {found : Option (Nat × Bool)}
    (h : Ends Event.Good (fileLineLoop v boundary contentLen fuel readbytes isCrlf) c found d) :
    FileLines v boundary contentLen readbytes isCrlf c found d := by
  induction fuel generalizing c readbytes isCrlf with
  | zero => exact absurd h ends_endless
  | succ fuel ih =>
    simp only [fileLineLoop, ends_bind, ends_receiveLine] at h
    obtain ⟨line, e, hline, h⟩ := h
    split at h
    case isTrue hboundary =>
      rw [ends_pure] at h
      obtain ⟨rfl, rfl⟩ := h
      exact .boundary hline hboundary
    case isFalse hboundary =>
      simp only [ends_bind] at h
      obtain ⟨stored, f, hstored, h⟩ := h
      cases stored with
      | none =>
        rw [ends_pure] at h
        obtain ⟨rfl, rfl⟩ := h
        exact .full hline hboundary (ends_storeLine.mp hstored)
      | some isCrlf' =>
        dsimp only at h
        split at h
        case isTrue hless =>
          exact .more hline hboundary (ends_storeLine.mp hstored) hless.1 (ih h)
        case isFalse hless =>
          rw [ends_pure] at h
          obtain ⟨rfl, rfl⟩ := h
          have hle := Nat.le_of_not_lt fun hlt => hless ⟨hlt, hline.ne_nil⟩
          exact .enough hline hboundary (ends_storeLine.mp hstored) hle

theorem FileLines.ends {contentLen readbytes : Nat} {isCrlf : Bool} {c d : Conn}
    {found : Option (Nat × Bool)} (h : FileLines v boundary contentLen readbytes isCrlf c found d)
    {fuel : Nat} (hfuel : c.rest.length < fuel) :
    Ends Event.Good (fileLineLoop v boundary contentLen fuel readbytes isCrlf) c found d := by
  induction h generalizing fuel with
  | boundary hline hboundary =>
    obtain ⟨fuel, rfl⟩ := Nat.exists_eq_add_one_of_ne_zero (Nat.ne_of_gt (Nat.zero_lt_of_lt hfuel))
    simp only [fileLineLoop, ends_bind, ends_receiveLine]
    exact ⟨_, _, hline, by simp [hboundary]⟩
  | full hline hboundary hstored =>
    obtain ⟨fuel, rfl⟩ := Nat.exists_eq_add_one_of_ne_zero (Nat.ne_of_gt (Nat.zero_lt_of_lt hfuel))
    simp only [fileLineLoop, ends_bind, ends_receiveLine]
    refine ⟨_, _, hline, ?_⟩
    rw [if_neg hboundary]
    simp only [ends_bind]
    exact ⟨_, _, ends_storeLine.mpr hstored, by simp⟩
  | enough hline hboundary hstored hle =>
    obtain ⟨fuel, rfl⟩ := Nat.exists_eq_add_one_of_ne_zero (Nat.ne_of_gt (Nat.zero_lt_of_lt hfuel))
    simp only [fileLineLoop, ends_bind, ends_receiveLine]
    refine ⟨_, _, hline, ?_⟩
    rw [if_neg hboundary]
    simp only [ends_bind]
    refine ⟨_, _, ends_storeLine.mpr hstored, ?_⟩
    dsimp only
    rw [if_neg fun hless => Nat.not_lt_of_le hle hless.1]
    exact ends_pure.mpr ⟨rfl, rfl⟩
  | more hline hboundary hstored hless _ ih =>
    obtain ⟨fuel, rfl⟩ := Nat.exists_eq_add_one_of_ne_zero (Nat.ne_of_gt (Nat.zero_lt_of_lt hfuel))
    have hshort := hline.shorter.1
    have hrest := congrArg List.length hstored.rest.1
    simp only [fileLineLoop, ends_bind, ends_receiveLine]
    refine ⟨_, _, hline, ?_⟩
    rw [if_neg hboundary]
    simp only [ends_bind]
    refine ⟨_, _, ends_storeLine.mpr hstored, ?_⟩
    dsimp only
    rw [if_pos ⟨hless, hline.ne_nil⟩]
    exact ih (by omega)

theorem blocks_of_ends {good : Event → Prop} {length fuel readbytes retries k : Nat} {c d : Conn}
    (h : Ends good (fileBlockLoop v length fuel readbytes retries) c k d) :
    Blocks v length readbytes retries c k d := by
  induction fuel generalizing c readbytes retries with
  | zero => exact absurd h ends_endless
  | succ fuel ih =>
    by_cases havail : c.available = 0
    · rw [fileBlockLoop_nothing havail] at h
      split at h
      case isTrue hlast =>
        obtain ⟨rfl, rfl⟩ := ends_pure.mp h
        exact .silent havail fun _ => hlast
      case isFalse hlast =>
        split at h
        case isTrue hless => exact .wait havail hlast hless (ih h)
        case isFalse hless =>
          obtain ⟨rfl, rfl⟩ := ends_pure.mp h
          exact .silent havail fun h => absurd h hless
    · rw [fileBlockLoop_block havail rfl] at h
      split at h
      case isFalse hfull =>
        obtain ⟨rfl, rfl⟩ := ends_pure.mp h
        exact .full havail rfl (Nat.lt_of_not_le hfull)
      case isTrue hroom =>
        split at h
        case isTrue hless => exact .more havail rfl hroom hless (ih h)
        case isFalse hless =>
          obtain ⟨rfl, rfl⟩ := ends_pure.mp h
          exact .last havail rfl hroom (Nat.le_of_not_lt hless)

theorem Blocks.ends (good : Event → Prop) {length readbytes retries k : Nat} {c d : Conn}
    (h : Blocks v length readbytes retries c k d) :
    ∃ fuel, Ends good (fileBlockLoop v length fuel readbytes retries) c k d := by
  induction h with
  | wait havail hlast hless _ ih =>
    obtain ⟨fuel, h⟩ := ih
    exact ⟨fuel + 1, (fileBlockLoop_nothing havail).mpr (by rwa [if_neg hlast, if_pos hless])⟩
  | silent havail hlast =>
    refine ⟨1, (fileBlockLoop_nothing havail).mpr ?_⟩
    split
    case isTrue => exact ends_pure.mpr ⟨rfl, rfl⟩
    case isFalse hn =>
      rw [if_neg fun h => hn (hlast h)]
      exact ends_pure.mpr ⟨rfl, rfl⟩
  | full havail hn hfull =>
    refine ⟨1, (fileBlockLoop_block havail hn).mpr ?_⟩
    rw [if_neg (Nat.not_le_of_lt hfull)]
    exact ends_pure.mpr ⟨rfl, rfl⟩
  | more havail hn hroom hless _ ih =>
    obtain ⟨fuel, h⟩ := ih
    exact ⟨fuel + 1, (fileBlockLoop_block havail hn).mpr (by rwa [if_pos hroom, if_pos hless])⟩
  | last havail hn hroom hle =>
    refine ⟨1, (fileBlockLoop_block havail hn).mpr ?_⟩
    rw [if_pos hroom, if_neg (Nat.not_lt_of_le hle)]
    exact ends_pure.mpr ⟨rfl, rfl⟩

theorem fileBlockLoop_mono {good : Event → Prop} {length fuel fuel' readbytes retries k : Nat}
    {c d : Conn} (h : Ends good (fileBlockLoop v length fuel readbytes retries) c k d)
    (hfuel : fuel ≤ fuel') :
    Ends good (fileBlockLoop v length fuel' readbytes retries) c k d := by
  induction fuel generalizing fuel' c readbytes retries with
  | zero => exact absurd h ends_endless
  | succ fuel ih =>
    obtain ⟨fuel', rfl⟩ := Nat.exists_eq_add_of_le' hfuel
    rw [← Nat.add_assoc] at hfuel ⊢
    have hle : fuel ≤ fuel' + fuel := Nat.le_add_left _ _
    by_cases havail : c.available = 0
    · rw [fileBlockLoop_nothing havail] at h ⊢
      split at h
      case isTrue hlast => rwa [if_pos hlast]
      case isFalse hlast =>
        rw [if_neg hlast]
        split at h
        case isTrue hless =>
          rw [if_pos hless]
          exact ih h hle
        case isFalse hless => rwa [if_neg hless]
    · rw [fileBlockLoop_block havail rfl] at h ⊢
      split at h
      case isFalse hok => rwa [if_neg hok]
      case isTrue hok =>
        rw [if_pos hok]
        split at h
        case isTrue hless =>
          rw [if_pos hless]
          exact ih h hle
        case isFalse hless => rwa [if_neg hless]

/-- Every run in blocks is the one that ends. -/
theorem receiveFile_end {good : Event → Prop} {length fuel k : Nat} {c d : Conn}
    (h : Ends good (receiveFileGivenLength v fuel length) c k d) :
    BlockEnd v c 0 length k d ∧ ∀ fuel', c.pending + 12 < fuel' →
      Ends good (receiveFileGivenLength v fuel' length) c k d := by
  have hall : ∀ fuel', c.pending + 12 < fuel' → ∃ k' d',
      Ends good (receiveFileGivenLength v fuel' length) c k' d' ∧ BlockEnd v c 0 length k' d' :=
    fun fuel' hfuel => fileBlockLoop_ends v length (Nat.zero_le _) hfuel (.inl rfl)
  have hsame : ∀ fuel', c.pending + 12 < fuel' →
      BlockEnd v c 0 length k d ∧ Ends good (receiveFileGivenLength v fuel' length) c k d := by
    intro fuel' hfuel
    obtain ⟨k', d', hends, hend⟩ := hall fuel' hfuel
    have hleft := fileBlockLoop_mono h (Nat.le_max_left fuel fuel')
    have hright := fileBlockLoop_mono hends (Nat.le_max_right fuel fuel')
    obtain ⟨rfl, rfl⟩ := hleft.unique hright
    exact ⟨hend, hends⟩
  exact ⟨(hsame _ (Nat.lt_succ_self _)).1, fun fuel' hfuel => (hsame fuel' hfuel).2⟩

theorem fileBlocks_of_ends {n n' fuel : Nat} {c d : Conn}
    (h : Ends Event.Good (receiveFileBlocks v fuel n) c n' d) : FileBlocks v n c n' d := by
  unfold receiveFileBlocks at h
  unfold FileBlocks
  split at h
  case isTrue hfar =>
    rw [if_pos hfar]
    simp only [ends_bind, ends_decrease] at h
    obtain ⟨k, e, hblock, -, rfl, rfl⟩ := h
    exact ⟨k, blocks_of_ends hblock, rfl⟩
  case isFalse hnear =>
    rw [if_neg hnear]
    exact ends_pure.mp h

theorem FileBlocks.ends {n n' fuel : Nat} {c d : Conn} (h : FileBlocks v n c n' d)
    (hfuel : c.pending + 12 < fuel) : Ends Event.Good (receiveFileBlocks v fuel n) c n' d := by
  unfold receiveFileBlocks
  unfold FileBlocks at h
  split at h
  case isTrue hfar =>
    obtain ⟨k, hblocks, rfl⟩ := h
    obtain ⟨fuel', hblock⟩ := hblocks.ends Event.Good
    obtain ⟨hend, hends⟩ := receiveFile_end hblock
    rw [if_pos hfar]
    simp only [ends_bind, ends_decrease]
    refine ⟨k, d, hends fuel hfuel, ?_, rfl, rfl⟩
    have := hend.bounded
    simp only [searchBoundaryLen, receiveBlockLen] at hfar this
    omega
  case isFalse hnear =>
    rw [if_neg hnear]
    exact ends_pure.mpr h

theorem FileBlocks.pending {n n' : Nat} {c d : Conn} (h : FileBlocks v n c n' d) :
    d.pending ≤ c.pending ∧ d.rest.length ≤ c.rest.length := by
  unfold FileBlocks at h
  split at h
  · obtain ⟨k, hblocks, -⟩ := h
    obtain ⟨fuel, hblock⟩ := hblocks.ends Event.Good
    have hend := (receiveFile_end hblock).1
    exact ⟨hend.pending, hend.rest⟩
  · rw [h.2]
    exact ⟨Nat.le_refl _, Nat.le_refl _⟩

theorem upload_of_ends {n n' fuel : Nat} {c d : Conn}
    (h : Ends Event.Good (receiveUpload v boundary fuel n) c n' d) : Upload v boundary n c n' d := by
  simp only [receiveUpload, ends_bind, ends_modify] at h
  obtain ⟨_, _, rfl, n₁, e, hblocks, found, f, hlines, h⟩ := h
  have hblocks := fileBlocks_of_ends hblocks
  have hlines := fileLines_of_ends hlines
  cases found with
  | none =>
    rw [ends_pure] at h
    obtain ⟨rfl, rfl⟩ := h
    exact .full hblocks hlines
  | some found =>
    obtain ⟨readbytes, atEnd⟩ := found
    simp only [ends_bind, ends_decrease] at h
    obtain ⟨n₂, _, ⟨hle, rfl, rfl⟩, h⟩ := h
    cases atEnd with
    | true =>
      simp only [if_true, ends_bind, ends_modify, ends_pure] at h
      obtain ⟨_, _, rfl, rfl, rfl⟩ := h
      exact .atEnd hblocks hlines hle
    | false =>
      rw [if_neg Bool.false_ne_true, ends_pure] at h
      obtain ⟨rfl, rfl⟩ := h
      exact .more hblocks hlines hle

theorem Upload.ends {n n' fuel : Nat} {c d : Conn} (h : Upload v boundary n c n' d)
    (hfuel : c.pending + 12 < fuel) :
    Ends Event.Good (receiveUpload v boundary fuel n) c n' d := by
  have hlinesFuel : ∀ {n₁ : Nat} {e : Conn}, FileBlocks v n { c with file := [] } n₁ e →
      e.rest.length < fuel := by
    intro n₁ e hblocks
    have hless := hblocks.pending.2
    simp only [Conn.pending] at hfuel
    dsimp only at hless
    omega
  simp only [receiveUpload, ends_bind, ends_modify]
  cases h with
  | full hblocks hlines =>
    exact ⟨(), _, rfl, _, _, hblocks.ends hfuel, _, _, hlines.ends (hlinesFuel hblocks), by simp⟩
  | atEnd hblocks hlines hle =>
    refine ⟨(), _, rfl, _, _, hblocks.ends hfuel, _, _, hlines.ends (hlinesFuel hblocks), ?_⟩
    simp only [ends_bind, ends_decrease, if_true, ends_modify, ends_pure]
    exact ⟨_, _, ⟨hle, rfl, rfl⟩, (), _, rfl, trivial, rfl⟩
  | more hblocks hlines hle =>
    refine ⟨(), _, rfl, _, _, hblocks.ends hfuel, _, _, hlines.ends (hlinesFuel hblocks), ?_⟩
    simp only [ends_bind, ends_decrease]
    exact ⟨_, _, ⟨hle, rfl, rfl⟩, by simp⟩

/-! ## Parts -/

theorem parameter_of_ends {n n' : Nat} {c d : Conn} {name : Str}
    (h : Ends Event.Good (handleParameter v n name) c n' d) :
    PartRest v boundary (some (.parameter name)) n c n' d := by
  rw [handleParameter, ends_countedLine] at h
  obtain ⟨line, n₁, c₁, hline, h⟩ := h
  split at h
  case isTrue hcrlf =>
    subst hcrlf
    simp only [ends_bind, ends_receiveLine, ends_decrease, ends_setParameter, ends_pure] at h
    obtain ⟨value, c₂, hvalue, n₂, _, ⟨hle, rfl, rfl⟩, _, _, rfl, rfl, rfl⟩ := h
    exact .parameter hline hvalue hle
  case isFalse hcrlf =>
    rw [ends_pure] at h
    obtain ⟨rfl, rfl⟩ := h
    exact .noSeparator hline hcrlf

theorem file_of_ends {n n' fuel : Nat} {c d : Conn} {name filename : Str}
    (h : Ends Event.Good (handleFile v boundary fuel n name filename) c n' d) :
    PartRest v boundary (some (.file name filename)) n c n' d := by
  rw [handleFile, ends_bind] at h
  obtain ⟨_, c₁, hset, h⟩ := h
  rw [ends_setParameter] at hset
  subst hset
  rw [ends_countedLine] at h
  obtain ⟨line, n₁, c₂, hline, h⟩ := h
  rcases hsplit : ySplitStringExact line (chars "Content-Type:") with ⟨found, before, mime⟩
  rw [hsplit] at h
  cases found with
  | false =>
    rw [ends_pure] at h
    obtain ⟨rfl, rfl⟩ := h
    exact .noType hline (by rw [hsplit])
  | true =>
    simp only [ends_bind (p := setParameter _ _), ends_setParameter] at h
    obtain ⟨_, _, rfl, h⟩ := h
    rw [ends_countedLine] at h
    obtain ⟨line', n₂, c₃, hline', h⟩ := h
    split at h
    case isFalse hcrlf =>
      rw [ends_pure] at h
      obtain ⟨rfl, rfl⟩ := h
      exact .typeOnly hline hsplit hline' hcrlf
    case isTrue hcrlf =>
      subst hcrlf
      simp only [ends_bind, ends_setParameter] at h
      obtain ⟨_, _, rfl, h⟩ := h
      cases hopens : v.opens with
      | false =>
        rw [hopens, if_neg Bool.false_ne_true, ends_pure] at h
        obtain ⟨rfl, rfl⟩ := h
        exact .notOpened hline hsplit hline' hopens
      | true =>
        rw [hopens, if_pos rfl] at h
        exact .file hline hsplit hline' hopens (upload_of_ends h)

theorem part_of_ends {n n' fuel : Nat} {c d : Conn}
    (h : Ends Event.Good (handlePostBoundary v boundary fuel n) c n' d) :
    Part v boundary n c n' d := by
  rw [handlePostBoundary, ends_countedLine] at h
  obtain ⟨line, n₁, c₁, hline, h⟩ := h
  split at h
  case isFalse hother =>
    rw [ends_pure] at h
    obtain ⟨rfl, rfl⟩ := h
    exact .other hline hother
  case isTrue hboundary =>
    split at h
    case isTrue hlast =>
      rw [ends_pure] at h
      obtain ⟨rfl, rfl⟩ := h
      exact .last hline hlast
    case isFalse hlast =>
      rw [ends_countedLine] at h
      obtain ⟨line', n₂, c₂, hline', h⟩ := h
      have hstart : PartStart boundary n c
          (if chars "Content-Disposition:" <:+: line' then disposition line' else none) n₂ c₂ :=
        ⟨line, n₁, c₁, line', hline, hboundary, hlast, hline', rfl⟩
      refine .start hstart ?_
      split at h
      case isFalse hdisposition =>
        rw [ends_pure] at h
        obtain ⟨rfl, rfl⟩ := h
        rw [if_neg hdisposition]
        exact .unknown
      case isTrue hdisposition =>
        rw [if_pos hdisposition]
        cases hpart : disposition line' with
        | none =>
          rw [hpart, ends_pure] at h
          obtain ⟨rfl, rfl⟩ := h
          exact .unknown
        | some part =>
          rw [hpart] at h
          cases part with
          | file name filename => exact file_of_ends h
          | parameter name => exact parameter_of_ends h

theorem TakesLine.pending {c d : Conn} {line : Str} (h : TakesLine c line d) :
    d.pending + 12 ≤ c.pending := by
  obtain ⟨hless, harrived⟩ := h.shorter
  simp only [Conn.pending, harrived]
  omega

theorem ends_file {n n' n₁ fuel : Nat} {c d e : Conn} {name filename line before mime : Str}
    (hline : TakesPart n (c.setParameter name (trim filename)) line n₁ d)
    (hsplit : ySplitStringExact line (chars "Content-Type:") = (true, before, mime))
    (h : ∃ line' n₂ f,
      TakesPart n₁ (d.setParameter (name ++ chars "_mime") (trim mime)) line' n₂ f ∧
      Ends Event.Good (if line' = crlf then do
          setParameter (name ++ chars "_upload_filename") v.uploadFilename
          if v.opens then receiveUpload v boundary fuel n₂ else pure 0
        else pure 0) f n' e) :
    Ends Event.Good (handleFile v boundary fuel n name filename) c n' e := by
  rw [handleFile, ends_bind]
  refine ⟨(), _, ends_setParameter.mpr rfl, ?_⟩
  rw [ends_countedLine]
  refine ⟨line, n₁, d, hline, ?_⟩
  rw [hsplit]
  dsimp only
  rw [ends_bind]
  refine ⟨(), _, ends_setParameter.mpr rfl, ?_⟩
  rw [ends_countedLine]
  exact h

theorem PartRest.ends_parameter {n n' : Nat} {c d : Conn} {name : Str}
    (h : PartRest v boundary (some (.parameter name)) n c n' d) :
    Ends Event.Good (handleParameter v n name) c n' d := by
  rw [handleParameter, ends_countedLine]
  cases h with
  | noSeparator hline hcrlf => exact ⟨_, _, _, hline, by simp [hcrlf]⟩
  | parameter hline hvalue hle =>
    refine ⟨_, _, _, hline, ?_⟩
    rw [if_pos rfl]
    simp only [ends_bind, ends_receiveLine, ends_decrease, ends_setParameter, ends_pure]
    exact ⟨_, _, hvalue, _, _, ⟨hle, rfl, rfl⟩, (), _, rfl, rfl, rfl⟩

theorem PartRest.ends_file {n n' fuel : Nat} {c d : Conn} {name filename : Str}
    (h : PartRest v boundary (some (.file name filename)) n c n' d)
    (hfuel : c.pending + 12 < fuel) :
    Ends Event.Good (handleFile v boundary fuel n name filename) c n' d := by
  cases h with
  | noType hline hsplit =>
    rw [handleFile, ends_bind]
    refine ⟨(), _, ends_setParameter.mpr rfl, ?_⟩
    rw [ends_countedLine]
    refine ⟨_, _, _, hline, ?_⟩
    split
    case h_1 => simp
    case h_2 heq => simp [heq] at hsplit
  | typeOnly hline hsplit hline' hcrlf =>
    exact Nhttpd.ends_file hline hsplit ⟨_, _, _, hline', by simp [hcrlf]⟩
  | notOpened hline hsplit hline' hopens =>
    exact Nhttpd.ends_file hline hsplit ⟨_, _, _, hline', by simp [hopens]⟩
  | file hline hsplit hline' hopens hupload =>
    have hless := hline.1.pending
    have hless' := hline'.1.pending
    have hends := hupload.ends
      (by simp only [Conn.setParameter, Conn.pending] at *; omega : _ < fuel)
    refine Nhttpd.ends_file hline hsplit ⟨_, _, _, hline', ?_⟩
    rw [if_pos rfl]
    simp only [ends_bind, ends_setParameter, hopens, if_true]
    exact ⟨(), _, rfl, hends⟩

theorem Part.ends {n n' fuel : Nat} {c d : Conn} (h : Part v boundary n c n' d)
    (hfuel : c.pending + 12 < fuel) :
    Ends Event.Good (handlePostBoundary v boundary fuel n) c n' d := by
  rw [handlePostBoundary, ends_countedLine]
  cases h with
  | other hline hother => exact ⟨_, _, _, hline, by simp [hother]⟩
  | last hline hlast =>
    have hboundary := (List.prefix_append boundary (chars "--")).isInfix.trans hlast
    exact ⟨_, _, _, hline, by simp [hboundary, hlast]⟩
  | start hstart hrest =>
    obtain ⟨line, n₁, c₁, line', hline, hboundary, hlast, hline', rfl⟩ := hstart
    have hless := hline.1.pending
    have hless' := hline'.1.pending
    refine ⟨_, _, _, hline, ?_⟩
    rw [if_pos hboundary, if_neg hlast, ends_countedLine]
    refine ⟨_, _, _, hline', ?_⟩
    split at hrest
    case isFalse hdisposition =>
      rw [if_neg hdisposition]
      cases hrest
      exact ends_pure.mpr ⟨rfl, rfl⟩
    case isTrue hdisposition =>
      rw [if_pos hdisposition]
      cases hpart : disposition line' with
      | none =>
        rw [hpart] at hrest
        cases hrest
        exact ends_pure.mpr ⟨rfl, rfl⟩
      | some part =>
        rw [hpart] at hrest
        cases part with
        | file name filename => exact hrest.ends_file (by omega)
        | parameter name => exact hrest.ends_parameter

/-! ## All parts -/

theorem FileLines.pending {contentLen readbytes : Nat} {isCrlf : Bool} {c d : Conn}
    {found : Option (Nat × Bool)} (h : FileLines v boundary contentLen readbytes isCrlf c found d) :
    d.pending ≤ c.pending := by
  have hstored : ∀ {isCrlf : Bool} {line : Str} {c d e : Conn} {stored : Option Bool},
      TakesLine c line d → StoresLine v isCrlf line d stored e →
      e.pending ≤ c.pending := by
    intro isCrlf line c d e stored hline hstored
    obtain ⟨hrest, harrived⟩ := hstored.rest
    have hless := hline.pending
    simp only [Conn.pending, hrest, harrived] at hless ⊢
    omega
  induction h with
  | boundary hline => exact Nat.le_trans (Nat.le_add_right _ 12) hline.pending
  | full hline _ hfull => exact hstored hline hfull
  | enough hline _ hmore => exact hstored hline hmore
  | more hline _ hmore _ _ ih => exact ih.trans (hstored hline hmore)

theorem Upload.pending {n n' : Nat} {c d : Conn} (h : Upload v boundary n c n' d) :
    d.pending ≤ c.pending := by
  cases h with
  | full hblocks hlines | atEnd hblocks hlines | more hblocks hlines =>
     exact hlines.pending.trans hblocks.pending.1

theorem PartRest.pending {n n' : Nat} {c d : Conn} {part : Option Disposition}
    (h : PartRest v boundary part n c n' d) : d.pending ≤ c.pending := by
  have hset : ∀ (c : Conn) (name value : Str), (c.setParameter name value).pending = c.pending :=
    fun _ _ _ => rfl
  cases h with
  | unknown => exact Nat.le_refl _
  | noSeparator hline =>
    have := hline.1.pending
    omega
  | parameter hline hvalue =>
    have := hline.1.pending
    have := hvalue.pending
    rw [hset]
    omega
  | noType hline =>
    have := hline.1.pending
    rw [hset] at this
    omega
  | typeOnly hline _ hline' | notOpened hline _ hline' =>
    have := hline.1.pending
    have := hline'.1.pending
    simp only [hset] at *
    omega
  | file hline _ hline' _ hupload =>
    have := hline.1.pending
    have := hline'.1.pending
    have := hupload.pending
    simp only [hset] at *
    omega

theorem Part.pending {n n' : Nat} {c d : Conn} (h : Part v boundary n c n' d) :
    d.pending + 12 ≤ c.pending := by
  cases h with
  | other hline => exact hline.1.pending
  | last hline => exact hline.1.pending
  | start hstart hrest =>
    obtain ⟨line, n₁, c₁, line', hline, -, -, hline', -⟩ := hstart
    have := hline.1.pending
    have := hline'.1.pending
    have := hrest.pending
    omega

theorem parts_of_ends {n fuel : Nat} {c d : Conn} {u : Unit}
    (h : Ends Event.Good (boundaryLoop v boundary fuel n) c u d) : Parts v boundary n c d := by
  induction fuel generalizing c n with
  | zero => exact absurd h ends_endless
  | succ fuel ih =>
    simp only [boundaryLoop, ends_bind] at h
    obtain ⟨n', e, hpart, h⟩ := h
    have hpart := part_of_ends hpart
    split at h
    case isTrue hmore => exact .next hpart hmore (ih h)
    case isFalse hzero =>
      rw [ends_pure] at h
      obtain ⟨-, rfl⟩ := h
      obtain rfl := Nat.eq_zero_of_not_pos hzero
      exact .last hpart

theorem Parts.ends {n : Nat} {c d : Conn} (h : Parts v boundary n c d) {fuel : Nat}
    (hfuel : c.pending + 12 < fuel) :
    Ends Event.Good (boundaryLoop v boundary (fuel + 1) n) c () d := by
  induction h generalizing fuel with
  | last hpart =>
    simp only [boundaryLoop, ends_bind]
    exact ⟨0, _, hpart.ends hfuel, by simp⟩
  | next hpart hmore _ ih =>
    have hless := hpart.pending
    obtain ⟨fuel', rfl⟩ := Nat.exists_eq_add_one_of_ne_zero (Nat.ne_of_gt (Nat.zero_lt_of_lt hfuel))
    rw [boundaryLoop, ends_bind]
    refine ⟨_, _, hpart.ends hfuel, ?_⟩
    rw [if_pos hmore]
    exact ih (by omega)

/-! ## The request -/

/-- The connection of a request whose first line was read. -/
def Conn.accepted (rest : Str) (arrived : List Nat) (parameterList : OrdMap Str Str) : Conn :=
  ⟨rest, arrived, true, parameterList, [], [], []⟩

theorem complete_of_ends {fuel : Nat} {c d : Conn} {result : Bool} (hc : c.isValid = true)
    (h : Ends Event.Good (handlePost v fuel) c result d) : Complete v c := by
  simp only [handlePost, ends_bind] at h
  obtain ⟨found, e, hends, h⟩ := h
  obtain ⟨header, rfl, hheader⟩ := header_of_ends hends
  refine ⟨header, e, hheader, ?_⟩
  have hvalid := hheader.pending.2.trans hc
  dsimp only at h ⊢
  split at h
  case isTrue hmultipart =>
    rw [if_pos hmultipart]
    simp only [ends_bind] at h
    obtain ⟨_, f, hparts, -⟩ := h
    exact ⟨f, parts_of_ends hparts⟩
  case isFalse hmultipart =>
    rw [if_neg hmultipart]
    split at h
    case isFalse hform =>
      rw [if_neg hform]
      trivial
    case isTrue hform =>
      rw [if_pos hform]
      simp only [ends_bind, ends_receiveBlock hvalid] at h
      obtain ⟨block, f, hblock, form, g, hloop, -⟩ := h
      have hsum := blockLoop_length hblock
      have hlen := formLoop_length ((blockLoop_valid hblock).trans hvalid) hloop
      simp only [List.length_nil] at hsum
      omega

theorem ends_of_complete {c : Conn} (hc : c.isValid = true) (h : Complete v c) :
    ∃ fuel result d, Ends Event.Good (handlePost v fuel) c result d := by
  obtain ⟨header, d, hheader, hbody⟩ := h
  have hpending := hheader.pending.1
  have hvalid := hheader.pending.2.trans hc
  have hstart : c.rest.length < c.pending + 12 + 2 := by
    unfold Conn.pending
    omega
  have hhead := hheader.ends (v := v) hstart
  refine ⟨c.pending + 12 + 2, ?_⟩
  simp only [handlePost, ends_bind]
  dsimp only at hbody
  split at hbody
  case isTrue hmultipart =>
    obtain ⟨e, hparts⟩ := hbody
    refine ⟨true, e, _, _, hhead, ?_⟩
    dsimp only
    rw [if_pos hmultipart, ends_bind]
    exact ⟨(), e, hparts.ends (by omega), by simp⟩
  case isFalse hmultipart =>
    split at hbody
    case isFalse hform =>
      refine ⟨true, d, _, _, hhead, ?_⟩
      dsimp only
      rw [if_neg hmultipart, if_neg hform]
      exact ends_pure.mpr ⟨rfl, rfl⟩
    case isTrue hform =>
      obtain ⟨block, e, hblock, hless, -⟩ :=
        @blockLoop_ends Event.Good (c.pending + 12 + 2) d [] (by omega)
      have hsum := blockLoop_length hblock
      simp only [List.length_nil] at hsum
      obtain ⟨form, f, hloop⟩ := @formLoop_ends Event.Good (contentLength (parseHeader header)) 
        (c.pending + 12 + 2) _ block ((blockLoop_valid hblock).trans hvalid) (by omega) (by omega)
      refine ⟨true, { f with parameterList := parseParams f.parameterList form }, _, _, hhead, ?_⟩
      dsimp only
      rw [if_neg hmultipart, if_pos hform]
      simp only [ends_bind, ends_receiveBlock hvalid, ends_modify, ends_pure]
      exact ⟨block, e, hblock, form, f, hloop, (), _, rfl, trivial, rfl⟩

/-- The request is finished, no index is behind the buffer of a line, every line is
what was received, and no length wraps. -/
theorem handlePost_finished_iff (v : Server) (rest : Str) (arrived : List Nat)
    (parameterList : OrdMap Str Str) :
    (∃ fuel result d, Ends Event.Good (handlePost v fuel)
      (Conn.accepted rest arrived parameterList) result d) ↔
    Complete v (Conn.accepted rest arrived parameterList) := by
  constructor
  · rintro ⟨fuel, result, d, h⟩
    exact complete_of_ends rfl h
  · exact ends_of_complete rfl

/-- Behind the end of the stream a line still has one character. -/
theorem headerLoop_endless {fuel : Nat} {c : Conn} {raw : Str} (hc : c.rest = []) :
    (headerLoop v fuel raw c).1 = none := by
  induction fuel generalizing c raw with
  | zero => rfl
  | succ fuel ih =>
    have hloop : lineLoop [] c.rest = ([], [], false) := by
      rw [hc]
      rfl
    by_contra hsome
    obtain ⟨⟨found, d⟩, hd⟩ := Option.ne_none_iff_exists'.mp hsome
    have hends : Ends (fun _ => True) (headerLoop v (fuel + 1) raw) c found d :=
      ⟨hd, fun _ _ => trivial⟩
    simp only [headerLoop, ends_bind] at hends
    obtain ⟨line, e, hline, hends⟩ := hends
    obtain ⟨hline, -⟩ := hline
    rw [receiveLine_run v c hloop] at hline
    injection hline with hline
    injection hline with hline he
    have hrest : e.rest = [] := by rw [← he]
    have hone : line = [v.stale []] := hline.symm
    rw [if_neg (by simp [hone]), if_neg (by simp [hone, crlf])] at hends
    have hnone := @ih e (raw ++ line) hrest
    rw [hends.1] at hnone
    cases hnone

end

/-- A client that closes behind the first line of its request. -/
theorem handlePost_closed_endless :
    ¬ ∃ fuel result d, (handlePost ⟨chars "/tmp/upload.tmp", true, 0, fun _ => 0⟩ fuel
      (Conn.accepted [] [] OrdMap.empty)).1 = some (result, d) := by
  rintro ⟨fuel, result, d, h⟩
  have hends : Ends (fun _ => True) (handlePost ⟨chars "/tmp/upload.tmp", true, 0, fun _ => 0⟩ fuel)
      (Conn.accepted [] [] OrdMap.empty) result d := ⟨h, fun _ _ => trivial⟩
  simp only [handlePost, ends_bind] at hends
  obtain ⟨found, e, hheader, -⟩ := hends
  have hnone := @headerLoop_endless ⟨chars "/tmp/upload.tmp", true, 0, fun _ => 0⟩ fuel
    (Conn.accepted [] [] OrdMap.empty) [] rfl
  rw [hheader.1] at hnone
  cases hnone

end Tuxbox.Nhttpd
