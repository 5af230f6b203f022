import Tuxbox.Nhttpd.MultipartFields
import Tuxbox.Nhttpd.PostEnds

/-!
# The file of a multipart body

The lines of a file up to the boundary, in whatever pieces they are read, and the
blocks before them.
-/

namespace Tuxbox.Nhttpd

open Prog

section
variable {v : Server} {boundary : Str}

/-! ## Lines -/

/-- The length of what follows the last line feed. -/
def lastLine : Str → Nat
  | [] => 0
  | c :: s => if newline ∈ c :: s then lastLine s else s.length + 1

theorem lastLine_append (a b : Str) : lastLine (a ++ newline :: b) = lastLine b := by
  induction a with
  | nil => rw [List.nil_append, lastLine, if_pos List.mem_cons_self]
  | cons c a ih =>
    rw [List.cons_append, lastLine, if_pos (by simp), ih]

theorem lastLine_eq {l : Str} (h : newline ∉ l) : lastLine l = l.length := by
  cases l with
  | nil => rfl
  | cons c l => rw [lastLine, if_neg h, List.length_cons]

theorem splitCrlf_join (line : Str) :
    (splitCrlf line).2 ++ (if (splitCrlf line).1 then crlf else []) = line := by
  unfold splitCrlf
  split
  case isTrue h =>
    obtain ⟨l, rfl⟩ := h
    have hlen : (l ++ crlf).length - 2 = l.length := by
      rw [List.length_append]
      rfl
    rw [hlen, List.take_left]
    rfl
  case isFalse => exact List.append_nil line

theorem splitCrlf_crlf (l : Str) : splitCrlf (l ++ crlf) = (true, l) := by
  have hlen : (l ++ crlf).length - 2 = l.length := by
    rw [List.length_append]
    rfl
  unfold splitCrlf
  rw [if_pos (List.suffix_append _ _), hlen, List.take_left]

theorem splitCrlf_noLine {l : Str} (h : newline ∉ l) : splitCrlf l = (false, l) :=
  if_neg fun hsuffix => h (hsuffix.subset (by decide))

/-- The loop over the lines ends there, with any fuel from some amount on. -/
def LinesGive (v : Server) (boundary : Str) (contentLen readbytes : Nat) (isCrlf : Bool) (c : Conn)
    (found : Option (Nat × Bool)) (d : Conn) : Prop :=
  ∃ least, ∀ fuel, least ≤ fuel →
    Gives (fileLineLoop v boundary contentLen fuel readbytes isCrlf) c found d

theorem gives_storeLine {isCrlf : Bool} {line : Str} {c : Conn}
    (hroom : c.file.length + 2 + line.length ≤ v.room) :
    Gives (storeLine v isCrlf line) c (some (splitCrlf line).1)
      { c with file := c.file ++ (if isCrlf then crlf else []) ++ (splitCrlf line).2 } := by
  have hle : (splitCrlf line).2.length ≤ line.length := by
    have h := congrArg List.length (splitCrlf_join line)
    rw [List.length_append] at h
    omega
  have hfirst : Gives (storeCrlf v isCrlf) c true
      { c with file := c.file ++ (if isCrlf then crlf else []) } := by
    unfold storeCrlf
    cases isCrlf with
    | false => exact ends_pure.mpr ⟨rfl, by simp⟩
    | true =>
      have hfits : c.file.length + crlf.length ≤ v.room := by
        have : crlf.length = 2 := rfl
        omega
      exact ends_writeFile.mpr ⟨(decide_eq_true hfits).symm, (write_room hfits).symm⟩
  unfold storeLine
  refine ends_bind.mpr ⟨true, _, hfirst, ?_⟩
  rw [if_pos rfl]
  have hfits : (c.file ++ (if isCrlf then crlf else [])).length + (splitCrlf line).2.length ≤
      v.room := by
    rw [List.length_append]
    have hcrlf : (if isCrlf then crlf else []).length ≤ 2 := by cases isCrlf <;> decide
    omega
  refine ends_bind.mpr ⟨true, _, ends_writeFile.mpr ⟨(decide_eq_true hfits).symm, rfl⟩, ?_⟩
  rw [if_pos rfl]
  exact ends_pure.mpr ⟨rfl, (write_room (v := v)
    (c := { c with file := c.file ++ (if isCrlf then crlf else []) }) hfits).symm⟩

/-- One piece of a line without the boundary. -/
theorem LinesGive.piece {contentLen readbytes : Nat} {isCrlf : Bool} {c d : Conn} {l s : Str}
    {found : Option (Nat × Bool)} (hl : newline ∉ l) (hc : c.rest = l ++ newline :: s)
    (hb : ¬ boundary <:+: firstPiece l) (hmax : contentLen < 2 ^ 32)
    (hless : readbytes + (firstPiece l).length < contentLen)
    (hroom : c.file.length + 2 + (firstPiece l).length ≤ v.room)
    (h : LinesGive v boundary contentLen (readbytes + (firstPiece l).length)
      (splitCrlf (firstPiece l)).1
      { c with
        rest := otherPieces l ++ s
        file := c.file ++ (if isCrlf then crlf else []) ++ (splitCrlf (firstPiece l)).2 } found d) :
    LinesGive v boundary contentLen readbytes isCrlf c found d := by
  obtain ⟨least, hrun⟩ := h
  refine ⟨least + 1, fun fuel hfuel => ?_⟩
  obtain ⟨fuel, rfl⟩ := Nat.exists_eq_add_of_le' hfuel
  have hmod : (readbytes + (firstPiece l).length) % 2 ^ 32 = readbytes + (firstPiece l).length :=
    Nat.mod_eq_of_lt (by omega)
  have hne : firstPiece l ≠ [] := by
    unfold firstPiece
    split
    · simp
    · intro hnil
      have hlen := congrArg List.length hnil
      rw [List.length_take, List.length_nil] at hlen
      simp only [maxLineBuffer] at *
      omega
  rw [← Nat.add_assoc, fileLineLoop]
  refine ends_bind.mpr ⟨_, _, gives_line hl hc, ?_⟩
  dsimp only
  rw [hmod, if_neg hb]
  refine ends_bind.mpr ⟨_, _, gives_storeLine hroom, ?_⟩
  dsimp only
  rw [if_pos ⟨hless, hne⟩]
  exact hrun _ (Nat.le_add_left _ _)

/-- The line of the boundary. A CRLF before it is not written. -/
theorem LinesGive.last {contentLen readbytes : Nat} {isCrlf : Bool} {c : Conn} {l s : Str}
    (hl : newline ∉ l) (hc : c.rest = l ++ newline :: s) (hfits : l.length < maxLineBuffer)
    (hb : boundary <:+: l ++ [newline]) (hmax : readbytes + l.length + 1 < 2 ^ 32) :
    LinesGive v boundary contentLen readbytes isCrlf c
      (some (readbytes + l.length + 1, decide (boundary ++ chars "--" <:+: l ++ [newline])))
      { c with rest := s } := by
  refine ⟨1, fun fuel hfuel => ?_⟩
  obtain ⟨fuel, rfl⟩ := Nat.exists_eq_add_of_le' hfuel
  have hfirst := firstPiece_short hfits
  have hother : otherPieces l = [] := if_pos hfits
  rw [fileLineLoop]
  refine ends_bind.mpr ⟨_, _, gives_line hl hc, ?_⟩
  rw [hfirst, hother]
  dsimp only
  rw [if_pos hb]
  refine ends_pure.mpr ⟨?_, rfl⟩
  rw [List.length_append, List.length_singleton, ← Nat.add_assoc, Nat.mod_eq_of_lt hmax]

/-- What the lines store behind the content. -/
def overhang (content : Str) : Str :=
  if lastLine content % maxLineBuffer = maxLineBuffer - 1 then crlf else []

theorem not_infix_line (hb : IsBoundary boundary) {l : Str} (h : ¬ boundary <:+: l) :
    ¬ boundary <:+: l ++ crlf := by
  intro hmem
  have hne : boundary ≠ [] := by
    rintro rfl
    exact h List.nil_infix
  rcases infix_split (a := l) (x := 13) (b := [newline]) hmem hb.noReturn with hmem | hmem
  · exact h hmem
  · obtain ⟨x, hx⟩ := List.exists_mem_of_ne_nil _ hne
    have hline := hmem.subset hx
    rw [List.mem_singleton] at hline
    exact hb.noLine (hline ▸ hx)

/-- The lines from here on, the boundary being in none of them. -/
theorem fileLines_run (hb : IsBoundary boundary) {z s : Str} (hz : newline ∉ z)
    (hfits : (boundary ++ z).length < maxLineBuffer) {contentLen : Nat} (hmax : contentLen < 2 ^ 32)
    {content : Str} (hcontent : ¬ boundary <:+: content) {readbytes : Nat} {isCrlf : Bool}
    {c : Conn} (hc : c.rest = content ++ crlf ++ (boundary ++ z ++ newline :: s))
    (hlen : readbytes + content.length + 2 + (boundary ++ z).length + 1 ≤ contentLen)
    (hroom : c.file.length + (if isCrlf then crlf else []).length + content.length + 6 ≤ v.room) :
    LinesGive v boundary contentLen readbytes isCrlf c
      (some (readbytes + content.length + 2 + (boundary ++ z).length + 1,
        decide (boundary ++ chars "--" <:+: boundary ++ z ++ [newline])))
      { c with
        rest := s
        file := c.file ++ (if isCrlf then crlf else []) ++ content ++ overhang content } := by
  have hcrlf : ∀ p : Bool, (if p then crlf else []).length ≤ 2 := by
    intro p
    cases p <;> decide
  have hmaxLine : maxLineBuffer = 2048 := rfl
  have hz' : newline ∉ boundary ++ z := by
    simp only [List.mem_append, not_or]
    exact ⟨hb.noLine, hz⟩
  induction hk : content.length using Nat.strong_induction_on
    generalizing content readbytes isCrlf c with
  | _ k ih =>
    -- a piece, and the content behind it
    have hstep : ∀ {l t r : Str}, newline ∉ l → c.rest = l ++ newline :: t →
        firstPiece l ++ r = content → firstPiece l ≠ [] → overhang r = overhang content →
        otherPieces l ++ t = r ++ crlf ++ (boundary ++ z ++ newline :: s) →
        LinesGive v boundary contentLen readbytes isCrlf c
          (some (readbytes + content.length + 2 + (boundary ++ z).length + 1,
            decide (boundary ++ chars "--" <:+: boundary ++ z ++ [newline])))
          { c with
            rest := s
            file := c.file ++ (if isCrlf then crlf else []) ++ content ++ overhang content } := by
      intro l t rest hl ht hjoin hne hover hnext
      have hsum := congrArg List.length hjoin
      rw [List.length_append] at hsum
      have hpos := List.length_pos_of_ne_nil hne
      have hsplit := congrArg List.length (splitCrlf_join (firstPiece l))
      rw [List.length_append] at hsplit
      have hp := hcrlf isCrlf
      have hrest : ¬ boundary <:+: rest := fun hmem =>
        hcontent (hmem.trans (hjoin ▸ (List.suffix_append _ _).isInfix))
      have hpiece : ¬ boundary <:+: firstPiece l := fun hmem =>
        hcontent (hmem.trans (hjoin ▸ (List.prefix_append _ _).isInfix))
      refine LinesGive.piece hl ht hpiece hmax (by omega) (by omega) ?_
      have hrun := @ih rest.length (by omega) rest hrest (readbytes + (firstPiece l).length)
        (splitCrlf (firstPiece l)).1
        { c with
          rest := otherPieces l ++ t
          file := c.file ++ (if isCrlf then crlf else []) ++ (splitCrlf (firstPiece l)).2 }
        hnext (by omega) (by simp only [List.length_append]; omega) rfl
      have hnum :
        readbytes + (firstPiece l).length + rest.length + 2 = readbytes + content.length + 2 := by
        omega
      have hfile : c.file ++ (if isCrlf then crlf else []) ++ (splitCrlf (firstPiece l)).2 ++
          (if (splitCrlf (firstPiece l)).1 then crlf else []) ++ rest ++ overhang rest =
            c.file ++ (if isCrlf then crlf else []) ++ content ++ overhang content := by
        have hassoc : ∀ a p q b o : Str, a ++ p ++ q ++ b ++ rest ++ o =
            a ++ p ++ ((q ++ b) ++ rest) ++ o := by simp
        rw [hassoc, splitCrlf_join, hjoin, hover]
      dsimp only at hrun
      rw [hnum, hfile] at hrun
      exact hrun
    by_cases hline : newline ∈ content
    · obtain ⟨l, t, rfl, hl⟩ := List.eq_append_cons_of_mem hline
      have hrest : c.rest = l ++ newline :: (t ++ crlf ++ (boundary ++ z ++ newline :: s)) := by
        rw [hc]
        simp
      have hoverhang : ∀ a : Str, overhang (a ++ newline :: t) = overhang t := fun a => by
        unfold overhang
        rw [lastLine_append]
      rw [← hk]
      by_cases hshort : l.length < maxLineBuffer
      · have hother : otherPieces l = [] := if_pos hshort
        have hfirst := firstPiece_short hshort
        refine hstep (r := t) hl hrest (by rw [hfirst]; simp) (by rw [hfirst]; simp)
          (hoverhang l).symm (by rw [hother, List.nil_append])
      · have hfirst : firstPiece l = l.take maxLineBuffer := if_neg hshort
        have hother : otherPieces l = l.drop maxLineBuffer ++ [newline] := if_neg hshort
        refine hstep (r := l.drop maxLineBuffer ++ newline :: t) hl hrest ?_ ?_ ?_ ?_
        · rw [hfirst, ← List.append_assoc, List.take_append_drop]
        · rw [hfirst]
          intro hnil
          have hlen0 := congrArg List.length hnil
          rw [List.length_take, List.length_nil] at hlen0
          omega
        · rw [hoverhang, hoverhang]
        · rw [hother]
          simp
    · have hl : newline ∉ content ++ [13] := by
        simp only [List.mem_append, List.mem_singleton, not_or]
        exact ⟨hline, by decide⟩
      have hrest : c.rest = content ++ [13] ++ newline :: (boundary ++ z ++ newline :: s) := by
        rw [hc]
        simp [crlf, newline]
      have hboundary : boundary <:+: boundary ++ z ++ [newline] := ⟨[], z ++ [newline], by simp⟩
      have hlast := lastLine_eq hline
      rw [← hk]
      by_cases hlong : maxLineBuffer ≤ content.length
      · -- the end of the line is not in the piece
        have hnot : ¬ (content ++ [13]).length < maxLineBuffer := by
          rw [List.length_append]
          omega
        have hfirst : firstPiece (content ++ [13]) = content.take maxLineBuffer :=
          (if_neg hnot).trans (List.take_append_of_le_length hlong)
        have hother :
          otherPieces (content ++ [13]) = content.drop maxLineBuffer ++ [13] ++ [newline] := by
          refine (if_neg hnot).trans ?_
          rw [List.drop_append_of_le_length hlong]
        refine hstep (r := content.drop maxLineBuffer) hl hrest ?_ ?_ ?_ ?_
        · rw [hfirst, List.take_append_drop]
        · rw [hfirst]
          intro hnil
          have hlen0 := congrArg List.length hnil
          rw [List.length_take, List.length_nil] at hlen0
          omega
        · unfold overhang
          rw [lastLine_eq fun hmem => hline (List.mem_of_mem_drop hmem), hlast, List.length_drop]
          have hmod : (content.length - maxLineBuffer) % maxLineBuffer =
              content.length % maxLineBuffer := (Nat.mod_eq_sub_mod hlong).symm
          rw [hmod]
        · rw [hother]
          simp [crlf, newline]
      have hnot := not_infix_line hb hcontent
      by_cases hcut : content.length + 1 = maxLineBuffer
      · -- the piece ends between the two characters of the end
        have hfirst : firstPiece (content ++ [13]) = content ++ [13] := by
          unfold firstPiece
          rw [if_neg (by rw [List.length_append, List.length_singleton]; omega),
            List.take_of_length_le (by rw [List.length_append, List.length_singleton]; omega)]
        have hother : otherPieces (content ++ [13]) = [newline] := by
          unfold otherPieces
          rw [if_neg (by rw [List.length_append, List.length_singleton]; omega),
            List.drop_eq_nil_of_le (by rw [List.length_append, List.length_singleton]; omega),
            List.nil_append]
        have hover : overhang content = crlf := by
          unfold overhang
          rw [hlast, if_pos]
          rw [Nat.mod_eq_of_lt (by omega)]
          omega
        have hlen13 : (content ++ [13]).length = content.length + 1 := by
          rw [List.length_append, List.length_singleton]
        have hp := hcrlf isCrlf
        refine LinesGive.piece hl hrest ?_ hmax (by rw [hfirst, hlen13]; omega)
          (by rw [hfirst, hlen13]; omega) ?_
        · rw [hfirst]
          exact fun hmem => hnot (hmem.trans ⟨[], [newline], by simp [crlf, newline]⟩)
        rw [hfirst, hother, splitCrlf_noLine hl, hlen13]
        have hone : firstPiece [] = [newline] := rfl
        refine LinesGive.piece (l := []) (s := boundary ++ z ++ newline :: s) List.not_mem_nil
          (by simp) ?_ hmax (by rw [hone, List.length_singleton]; omega) ?_ ?_
        · rw [hone]
          exact fun hmem => hnot (hmem.trans ⟨content ++ [13], [], by simp [crlf, newline]⟩)
        · rw [hone]
          simp only [List.length_append, List.length_singleton]
          omega
        rw [hone]
        have hend := @LinesGive.last v boundary contentLen
          (readbytes + (content.length + 1) + 1) false ({ c with
            rest := boundary ++ z ++ newline :: s
            file := c.file ++ (if isCrlf then crlf else []) ++ content ++ crlf }) _ _ hz' rfl hfits
            hboundary (by omega)
        have hnum : readbytes + (content.length + 1) + 1 + (boundary ++ z).length + 1 =
            readbytes + content.length + 2 + (boundary ++ z).length + 1 := by omega
        rw [hnum] at hend
        rw [hover]
        have hnl : splitCrlf [newline] = (false, [newline]) := by decide
        rw [hnl]
        simpa [crlf, newline, otherPieces, maxLineBuffer] using hend
      · have hshort : (content ++ [13]).length < maxLineBuffer := by
          rw [List.length_append, List.length_singleton]
          omega
        have hfirst : firstPiece (content ++ [13]) = content ++ crlf := by
          rw [firstPiece_short hshort]
          simp [crlf, newline]
        have hother : otherPieces (content ++ [13]) = [] := if_pos hshort
        have hover : overhang content = [] := by
          unfold overhang
          rw [hlast, if_neg]
          rw [Nat.mod_eq_of_lt (by omega)]
          omega
        have hlen2 : (content ++ crlf).length = content.length + 2 := by
          rw [List.length_append]
          rfl
        have hp := hcrlf isCrlf
        refine LinesGive.piece hl hrest (by rw [hfirst]; exact hnot) hmax
          (by rw [hfirst, hlen2]; omega) (by rw [hfirst, hlen2]; omega) ?_
        rw [hfirst, hother, splitCrlf_crlf, hlen2, hover, List.append_nil]
        have hend := @LinesGive.last v boundary contentLen
          (readbytes + (content.length + 2)) true ({ c with
            rest := boundary ++ z ++ newline :: s
            file := c.file ++ (if isCrlf then crlf else []) ++ content }) _ _ hz' rfl hfits
            hboundary (by omega)
        have hnum : readbytes + (content.length + 2) + (boundary ++ z).length + 1 =
            readbytes + content.length + 2 + (boundary ++ z).length + 1 := by omega
        rw [hnum] at hend
        exact hend

/-! ## Blocks -/

/-- What the blocks take: nothing when the boundary may be near, and so much at most
that the line loop still has to read. -/
def BlocksTake (contentLen : Nat) (k : Nat) : Prop :=
  if searchBoundaryLen < contentLen ∧ contentLen < 2 ^ 31 then
    k ≤ max receiveBlockLen (contentLen - searchBoundaryLen - 1)
  else k = 0

/-- The blocks of a connection, with any fuel from some amount on. -/
def BlocksGive (v : Server) (contentLen : Nat) (c : Conn) (k : Nat) (d : Conn) : Prop :=
  (∃ least, ∀ fuel, least ≤ fuel → Gives (receiveFileBlocks v fuel contentLen) c (contentLen - k) d) ∧
    d = { c with rest := c.rest.drop k, file := c.file ++ c.rest.take k, arrived := d.arrived }

theorem BlocksTake.le {contentLen k : Nat} (h : BlocksTake contentLen k) : k ≤ contentLen := by
  have hsearch : searchBoundaryLen = 2048 := rfl
  have hblock : receiveBlockLen = 1024 := rfl
  unfold BlocksTake at h
  split at h <;> omega

theorem blocksGive_of_ends {contentLen fuel k : Nat} {c d : Conn}
    (hfar : searchBoundaryLen < contentLen ∧ contentLen < 2 ^ 31)
    (hroom : c.file.length + c.rest.length ≤ v.room)
    (h : Gives (receiveFileGivenLength v fuel (contentLen - searchBoundaryLen)) c k d) :
    k ≤ c.rest.length ∧ BlocksTake contentLen k ∧ BlocksGive v contentLen c k d := by
  obtain ⟨hend, hall⟩ := receiveFile_end h
  obtain ⟨n, hn, hk, hd⟩ := hend.stored hroom
  rw [Nat.zero_add] at hk
  subst hk
  have htake : BlocksTake contentLen k := by
    unfold BlocksTake
    rw [if_pos hfar]
    exact hend.bounded
  refine ⟨hn, htake, ⟨c.pending + 13, fun fuel' hfuel => ?_⟩, hd⟩
  unfold receiveFileBlocks
  rw [if_pos hfar]
  exact ends_bind.mpr ⟨k, d, hall fuel' (by omega), gives_decrease htake.le⟩

theorem blocks_run (contentLen : Nat) {c : Conn}
    (hroom : c.file.length + c.rest.length ≤ v.room) :
    ∃ k d, k ≤ c.rest.length ∧ BlocksTake contentLen k ∧ BlocksGive v contentLen c k d := by
  by_cases hfar : searchBoundaryLen < contentLen ∧ contentLen < 2 ^ 31
  · obtain ⟨k, d, hd, -⟩ := @fileBlockLoop_ends (fun _ => True) v
      (contentLen - searchBoundaryLen) (c.pending + 13) c _ _ (Nat.zero_le _) (by omega)
      (.inl rfl)
    exact ⟨k, d, blocksGive_of_ends hfar hroom hd⟩
  · have htake : BlocksTake contentLen 0 := by
      unfold BlocksTake
      rw [if_neg hfar]
    refine ⟨0, c, Nat.zero_le _, htake, ⟨0, fun fuel _ => ?_⟩, by simp⟩
    unfold receiveFileBlocks
    rw [if_neg hfar]
    exact ends_pure.mpr ⟨rfl, rfl⟩

/-- A socket on which nothing arrives any more. -/
theorem pick_nothing (length readbytes : Nat) {n retries : Nat} {c : Conn}
    (hretries : retries + n = nonBlockingMaxRetries + 1)
    (hc : c.arrived = List.replicate n 0) (hn : 0 < n) :
    ∃ fuel d, Gives (fileBlockLoop v length fuel readbytes retries) c readbytes d := by
  have hmax : nonBlockingMaxRetries = 10 := rfl
  induction n generalizing retries c with
  | zero => exact absurd hn (Nat.lt_irrefl 0)
  | succ n ih =>
    have havail : c.available = 0 := by
      unfold Conn.available
      rw [hc, List.replicate_succ]
      exact Nat.zero_min _
    by_cases hlast : nonBlockingMaxRetries < retries + 1
    · exact ⟨1, c.asked, (fileBlockLoop_nothing havail).mpr (by simp [hlast])⟩
    by_cases hlength : readbytes + receiveBlockLen < length
    · obtain ⟨fuel, d, hd⟩ := @ih (retries + 1) c.asked (by omega)
        (by simp [Conn.asked, hc, List.replicate_succ]) (by omega)
      exact ⟨fuel + 1, d, (fileBlockLoop_nothing havail).mpr (by simpa [hlast, hlength] using hd)⟩
    · exact ⟨1, c.asked, (fileBlockLoop_nothing havail).mpr (by simp [hlast, hlength])⟩

/-- Single bytes, then one block, then nothing any more. -/
theorem pick_some (length : Nat) {q n readbytes : Nat} {c : Conn} (hn : 0 < n)
    (hblock : n ≤ receiveBlockLen)
    (hc : c.arrived = List.replicate q 1 ++ n :: List.replicate (nonBlockingMaxRetries + 1) 0)
    (hrest : q + n ≤ c.rest.length) (hroom : c.file.length + q + n ≤ v.room)
    (hq : q = 0 ∨ readbytes + q + receiveBlockLen < length) :
    ∃ fuel d, Gives (fileBlockLoop v length fuel readbytes 0) c (readbytes + q + n) d := by
  have hlen : receiveBlockLen = 1024 := rfl
  induction q generalizing readbytes c with
  | zero =>
    have harrived : c.arrived = n :: List.replicate (nonBlockingMaxRetries + 1) 0 := hc
    have havail : c.available = n := by
      unfold Conn.available
      rw [harrived]
      exact Nat.min_eq_left (by omega)
    have hnothing : (c.stored v n).arrived = List.replicate (nonBlockingMaxRetries + 1) 0 := by
      rw [Conn.stored, Conn.write, Conn.without, Conn.asked, harrived, List.tail_cons]
    have hmin : min c.available receiveBlockLen = n := by rw [havail]; omega
    have hfits : c.file.length + n ≤ v.room := by omega
    rw [Nat.add_zero]
    by_cases hlength : readbytes + n + receiveBlockLen < length
    · obtain ⟨fuel, d, hd⟩ := @pick_nothing v length (readbytes + n) _ 0 _
        (Nat.zero_add _) hnothing (Nat.succ_pos _)
      refine ⟨fuel + 1, d, (fileBlockLoop_block (by omega) hmin).mpr ?_⟩
      rwa [if_pos hfits, if_pos hlength]
    · refine ⟨1, c.stored v n, (fileBlockLoop_block (by omega) hmin).mpr ?_⟩
      rw [if_pos hfits, if_neg hlength]
      exact ends_pure.mpr ⟨rfl, rfl⟩
  | succ q ih =>
    have harrived : c.arrived =
        1 :: (List.replicate q 1 ++ n :: List.replicate (nonBlockingMaxRetries + 1) 0) := hc
    have havail : c.available = 1 := by
      unfold Conn.available
      rw [harrived]
      exact Nat.min_eq_left (by omega)
    have hmin : min c.available receiveBlockLen = 1 := by rw [havail]; omega
    have hfile : (c.stored v 1).file.length = c.file.length + 1 := by
      have hlen1 : (c.rest.take 1).length = 1 := List.length_take_of_le (by omega)
      simp only [Conn.stored, Conn.write, Conn.without, Conn.asked, List.length_take,
        List.length_append]
      omega
    obtain ⟨fuel, d, hd⟩ := @ih (readbytes + 1) (c.stored v 1)
      (by rw [Conn.stored, Conn.write, Conn.without, Conn.asked, harrived, List.tail_cons])
      (by simp only [Conn.stored, Conn.write, Conn.without, Conn.asked, List.length_drop]; omega)
      (by omega) (by omega)
    refine ⟨fuel + 1, d, (fileBlockLoop_block (by omega) hmin).mpr ?_⟩
    rw [if_pos (by omega), if_pos (by omega)]
    have heq : readbytes + 1 + q + n = readbytes + (q + 1) + n := by omega
    rwa [heq] at hd

/-- Whatever the blocks may take they take for some arrivals. -/
theorem blocks_pick {contentLen k : Nat} {c : Conn}
    (hk : k ≤ c.rest.length) (htake : BlocksTake contentLen k)
    (hroom : c.file.length + c.rest.length ≤ v.room) :
    ∃ arrived d, BlocksGive v contentLen { c with arrived := arrived } k d := by
  have hblock : receiveBlockLen = 1024 := rfl
  by_cases hfar : searchBoundaryLen < contentLen ∧ contentLen < 2 ^ 31
  · have hsome : ∃ arrived fuel d, Gives (receiveFileGivenLength v fuel
        (contentLen - searchBoundaryLen)) { c with arrived := arrived } k d := by
      unfold BlocksTake at htake
      rw [if_pos hfar] at htake
      by_cases hzero : k = 0
      · subst hzero
        obtain ⟨fuel, d, hd⟩ := @pick_nothing v (contentLen - searchBoundaryLen) 0
          (nonBlockingMaxRetries + 1) 0
          { c with arrived := List.replicate (nonBlockingMaxRetries + 1) 0 }
          (Nat.zero_add _) rfl (Nat.succ_pos _)
        exact ⟨_, fuel, d, hd⟩
      · obtain ⟨fuel, d, hd⟩ := @pick_some v (contentLen - searchBoundaryLen)
          (k - receiveBlockLen) (min k receiveBlockLen) 0
          { c with
            arrived := List.replicate (k - receiveBlockLen) 1 ++
              (min k receiveBlockLen) :: List.replicate (nonBlockingMaxRetries + 1) 0 }
          (by omega) (Nat.min_le_right _ _) rfl (by dsimp only; omega) (by dsimp only; omega)
          (by omega)
        have heq : 0 + (k - receiveBlockLen) + min k receiveBlockLen = k := by omega
        rw [heq] at hd
        exact ⟨_, fuel, d, hd⟩
    obtain ⟨arrived, fuel, d, hd⟩ := hsome
    exact ⟨arrived, d, (blocksGive_of_ends (c := { c with arrived := arrived }) hfar hroom hd).2.2⟩
  · unfold BlocksTake at htake
    rw [if_neg hfar] at htake
    subst htake
    refine ⟨c.arrived, c, ⟨0, fun fuel _ => ?_⟩, by simp⟩
    unfold receiveFileBlocks
    rw [if_neg hfar]
    exact ends_pure.mpr ⟨rfl, rfl⟩

/-! ## Blocks and lines -/

/-- What is stored behind the content when the blocks took `k` bytes. -/
def overhangBehind (k : Nat) (content : Str) : Str :=
  if k ≤ content.length then overhang (content.drop k) else crlf

/-- The file goes in blocks, and its end line by line. -/
theorem upload_run (hb : IsBoundary boundary) {z s content : Str} (hz : newline ∉ z)
    (hfits : (boundary ++ z).length < maxLineBuffer) (hcontent : ¬ boundary <:+: content)
    {contentLen k : Nat} (hmax : contentLen < 2 ^ 32) {c d : Conn}
    (hc : c.rest = content ++ crlf ++ (boundary ++ z ++ newline :: s))
    (hlen : content.length + 2 + (boundary ++ z).length + 1 ≤ contentLen)
    (hroom : content.length + 6 ≤ v.room) (hk : k ≤ content.length + 1)
    (hblocks : BlocksGive v contentLen { c with file := [] } k d) :
    ∃ least n' e, (∀ fuel, least ≤ fuel → Gives (receiveUpload v boundary fuel contentLen) c n' e) ∧
      n' = (if boundary ++ chars "--" <:+: boundary ++ z ++ [newline] then 0
        else contentLen - (content.length + 2 + (boundary ++ z).length + 1)) ∧
      e.rest = s ∧ e.parameterList = c.parameterList ∧
      e.file = content ++ overhangBehind k content := by
  obtain ⟨⟨least, hblock⟩, hd⟩ := hblocks
  have hlines : LinesGive v boundary (contentLen - k) 0 false d
      (some (content.length + 2 + (boundary ++ z).length + 1 - k,
        decide (boundary ++ chars "--" <:+: boundary ++ z ++ [newline])))
      { d with rest := s, file := content ++ overhangBehind k content } := by
    have hdrest : d.rest = (content ++ crlf ++ (boundary ++ z ++ newline :: s)).drop k := by
      rw [hd, ← hc]
    have hdfile : d.file = (content ++ crlf ++ (boundary ++ z ++ newline :: s)).take k := by
      rw [hd, ← hc]
      rfl
    by_cases hle : k ≤ content.length
    · rw [List.append_assoc, List.drop_append_of_le_length hle, ← List.append_assoc] at hdrest
      rw [List.append_assoc, List.take_append_of_le_length hle] at hdfile
      have hdrop : ¬ boundary <:+: content.drop k := fun hmem =>
        hcontent (hmem.trans (List.drop_suffix k content).isInfix)
      have hdlen : (content.drop k).length = content.length - k := List.length_drop
      have htlen : d.file.length = k := by rw [hdfile, List.length_take_of_le hle]
      have hrun := @fileLines_run v _ hb _ _ hz hfits (contentLen - k) (by omega) _ hdrop
        0 false _ hdrest (by omega)
          (by rw [htlen, hdlen, if_neg Bool.false_ne_true, List.length_nil]; omega)
      have hnum : 0 + (content.drop k).length + 2 + (boundary ++ z).length + 1 =
          content.length + 2 + (boundary ++ z).length + 1 - k := by omega
      have hfile : d.file ++ (if false = true then crlf else []) ++ content.drop k ++
          overhang (content.drop k) = content ++ overhangBehind k content := by
        rw [if_neg Bool.false_ne_true, List.append_nil, hdfile, List.take_append_drop,
          overhangBehind, if_pos hle]
      rw [hnum, hfile] at hrun
      exact hrun
    · -- the carriage return behind the content is in the last block
      have hk : k = (content ++ [13]).length := by
        rw [List.length_append, List.length_singleton]
        omega
      have hsplit : content ++ crlf ++ (boundary ++ z ++ newline :: s) =
          content ++ [13] ++ newline :: (boundary ++ z ++ newline :: s) := by simp [crlf, newline]
      rw [hsplit, hk, List.drop_left] at hdrest
      rw [hsplit, hk, List.take_left] at hdfile
      have hone : firstPiece [] = [newline] := rfl
      have hdlen : d.file.length = content.length + 1 := by
        rw [hdfile, List.length_append, List.length_singleton]
      have hklen : k = content.length + 1 := by
        rw [hk, List.length_append, List.length_singleton]
      have hpiece : ¬ boundary <:+: [newline] := fun hmem =>
        not_infix_line hb hcontent (hmem.trans ⟨content ++ [13], [], by simp [crlf, newline]⟩)
      refine LinesGive.piece (l := []) List.not_mem_nil hdrest (by rw [hone]; exact hpiece) (by omega)
        (by rw [hone, List.length_singleton]; omega)
        (by rw [hone, List.length_singleton]; omega) ?_
      have hz' : newline ∉ boundary ++ z := by
        simp only [List.mem_append, not_or]
        exact ⟨hb.noLine, hz⟩
      have hend := @LinesGive.last v boundary (contentLen - k) 1 false
        { d with rest := boundary ++ z ++ newline :: s, file := content ++ crlf } _ _ hz' rfl hfits
        ⟨[], z ++ [newline], by simp⟩ (by omega)
      have hnum : 1 + (boundary ++ z).length + 1 =
          content.length + 2 + (boundary ++ z).length + 1 - k := by omega
      have hover : overhangBehind k content = crlf := if_neg hle
      have hnl : splitCrlf [newline] = (false, [newline]) := by decide
      rw [hnum] at hend
      rw [hone, hnl, hover]
      simpa [hdfile, crlf, newline, otherPieces, maxLineBuffer] using hend
  obtain ⟨least', hline⟩ := hlines
  have hle : content.length + 2 + (boundary ++ z).length + 1 - k ≤ contentLen - k := by omega
  have hparams : d.parameterList = c.parameterList := by rw [hd]
  by_cases hend : boundary ++ chars "--" <:+: boundary ++ z ++ [newline]
  · refine ⟨max least least', 0, { d with
      rest := s
      file := content ++ overhangBehind k content
      uploads := d.uploads ++ [v.uploadFilename] }, fun fuel hfuel => ?_, (if_pos hend).symm, rfl,
        hparams, rfl⟩
    unfold receiveUpload
    refine ends_bind.mpr ⟨(), _, ends_modify.mpr rfl, ?_⟩
    refine ends_bind.mpr ⟨_, _, hblock fuel (by omega), ?_⟩
    refine ends_bind.mpr ⟨_, _, hline fuel (by omega), ?_⟩
    dsimp only
    refine ends_bind.mpr ⟨_, _, gives_decrease hle, ?_⟩
    rw [if_pos (decide_eq_true hend)]
    exact ends_bind.mpr ⟨(), _, ends_modify.mpr rfl, ends_pure.mpr ⟨rfl, rfl⟩⟩
  · refine ⟨max least least', _, { d with rest := s, file := content ++ overhangBehind k content },
      fun fuel hfuel => ?_, (if_neg hend).symm, rfl, hparams, rfl⟩
    unfold receiveUpload
    refine ends_bind.mpr ⟨(), _, ends_modify.mpr rfl, ?_⟩
    refine ends_bind.mpr ⟨_, _, hblock fuel (by omega), ?_⟩
    refine ends_bind.mpr ⟨_, _, hline fuel (by omega), ?_⟩
    dsimp only
    refine ends_bind.mpr ⟨_, _, gives_decrease hle, ?_⟩
    rw [if_neg (by rw [decide_eq_true_iff]; exact hend)]
    exact ends_pure.mpr ⟨by omega, rfl⟩

end

end Tuxbox.Nhttpd
