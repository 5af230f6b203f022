import Tuxbox.Nhttpd.Post

/-!
# Lines of a POST request

`ReceiveLine` is good for its buffer, and returns what it received, for a line that
ends within the buffer and for no other.

* `ends_fileBlockLoop`, `ends_receiveBlock`: reading in blocks ends.
-/

namespace Tuxbox.Nhttpd

open Prog

/-- What the buffer of a line and the unsigned length ask for. -/
def Event.Good : Event → Prop
  | .line received result written => result = received ∧ ∀ i ∈ written, i < maxLineBuffer
  | .subtract contentLen n => n ≤ contentLen

/-- A line up to its line feed that leaves room for the end of the string. -/
def TakesLine (c : Conn) (line : Str) (d : Conn) : Prop :=
  ∃ l rest, line = l ++ [newline] ∧ newline ∉ l ∧ line.length < maxLineBuffer ∧
    c.rest = line ++ rest ∧ d = { c with rest := rest }

/-- A line that is not longer than what is left of the content. -/
def TakesPart (contentLen : Nat) (c : Conn) (line : Str) (contentLen' : Nat) (d : Conn) : Prop :=
  TakesLine c line d ∧ line.length ≤ contentLen ∧ contentLen' = contentLen - line.length

theorem TakesLine.shorter {c d : Conn} {line : Str} (h : TakesLine c line d) :
    d.rest.length < c.rest.length ∧ d.arrived = c.arrived := by
  obtain ⟨l, rest, rfl, -, -, hrest, rfl⟩ := h
  rw [hrest]
  simp only [List.length_append, List.length_singleton, and_true]
  omega

/-! ## One line -/

theorem lineLoop_line {l : Str} (hl : newline ∉ l) (rest buffer : Str)
    (h : buffer.length + l.length < maxLineBuffer) :
    lineLoop buffer (l ++ newline :: rest) = (buffer ++ l ++ [newline], rest, true) := by
  induction l generalizing buffer with
  | nil => simp [lineLoop]
  | cons x l ih =>
    simp only [List.mem_cons, not_or] at hl
    obtain ⟨hx, hl⟩ := hl
    simp only [List.length_cons] at h
    have hmore : ¬ (x = newline ∨ ¬ buffer.length < maxLineBuffer - 1) := by
      rintro (rfl | hfull)
      · exact hx rfl
      · omega
    have hlen : (buffer ++ [x]).length + l.length < maxLineBuffer := by
      rw [List.length_append, List.length_singleton]
      omega
    rw [List.cons_append, lineLoop, if_neg hmore, ih hl _ hlen]
    simp

theorem lineLoop_true {s buffer result rest : Str} (h : lineLoop buffer s = (result, rest, true))
    (hlen : result.length < maxLineBuffer) :
    ∃ l, newline ∉ l ∧ s = l ++ newline :: rest ∧ result = buffer ++ l ++ [newline] := by
  induction s generalizing buffer with
  | nil => simp [lineLoop] at h
  | cons x s ih =>
    rw [lineLoop] at h
    split at h
    case isTrue hstop =>
      cases h
      rw [List.length_append, List.length_singleton] at hlen
      rcases hstop with rfl | hfull
      · exact ⟨[], List.not_mem_nil, rfl, by simp⟩
      · omega
    case isFalse hmore =>
      obtain ⟨l, hl, rfl, rfl⟩ := ih h
      have hx : newline ≠ x := fun heq => hmore (.inl heq.symm)
      exact ⟨x :: l, by simp [hx, hl], rfl, by simp⟩

theorem receiveLine_run (v : Server) (c : Conn) {buffer rest : Str} {more : Bool}
    (h : lineLoop [] c.rest = (buffer, rest, more)) :
    receiveLine v c =
      (some (if more then buffer else buffer ++ [v.stale buffer],
        { c with rest := rest, isValid := c.isValid && more }),
      [.line buffer (if more then buffer else buffer ++ [v.stale buffer])
        (List.range buffer.length ++
          [(if more then buffer else buffer ++ [v.stale buffer]).length])]) := by
  unfold receiveLine
  rw [h]

theorem ends_receiveLine {v : Server} {c d : Conn} {line : Str} :
    Ends Event.Good (receiveLine v) c line d ↔ TakesLine c line d := by
  rcases hloop : lineLoop [] c.rest with ⟨buffer, rest, more⟩
  unfold Ends
  rw [receiveLine_run v c hloop]
  constructor
  · rintro ⟨heq, hgood⟩
    obtain ⟨hsame, hwritten⟩ := hgood _ List.mem_cons_self
    cases more with
    | false => exact absurd (congrArg List.length hsame) (by simp)
    | true =>
      have hlen : buffer.length < maxLineBuffer := hwritten buffer.length (by simp)
      obtain ⟨l, hl, hs, hbuffer⟩ := lineLoop_true hloop hlen
      rw [List.nil_append] at hbuffer
      subst hbuffer
      simp only [if_true, Bool.and_true, Option.some.injEq, Prod.mk.injEq] at heq
      obtain ⟨rfl, rfl⟩ := heq
      exact ⟨l, rest, rfl, hl, hlen, by rw [hs]; simp, rfl⟩
  · rintro ⟨l, rest', rfl, hl, hlen, hs, rfl⟩
    rw [List.length_append, List.length_singleton] at hlen
    have hline := lineLoop_line hl rest' [] (by simp; omega)
    rw [hs, List.append_assoc, List.singleton_append, hline] at hloop
    cases hloop
    refine ⟨by simp, fun e he => ?_⟩
    rw [List.mem_singleton] at he
    subst he
    refine ⟨rfl, fun i hi => ?_⟩
    simp only [List.nil_append, List.length_append, List.length_singleton, if_true, List.mem_append,
      List.mem_range, List.mem_singleton] at hi
    omega

theorem ends_decrease {contentLen n k : Nat} {c d : Conn} :
    Ends Event.Good (decrease contentLen n) c k d ↔
      n ≤ contentLen ∧ k = contentLen - n ∧ d = c := by
  simp only [decrease, ends_bind, ends_log, ends_pure, Event.Good]
  constructor
  · rintro ⟨-, -, ⟨hle, rfl⟩, rfl, rfl⟩
    exact ⟨hle, if_pos hle, rfl⟩
  · rintro ⟨hle, rfl, rfl⟩
    exact ⟨(), d, ⟨hle, rfl⟩, (if_pos hle).symm, rfl⟩

theorem ends_countedLine {v : Server} {contentLen : Nat} {c d : Conn} {α : Type} {a : α}
    {f : Str → Nat → Post α} :
    Ends Event.Good (do
      let line ← receiveLine v
      let contentLen ← decrease contentLen line.length
      f line contentLen) c a d ↔
    ∃ line n e, TakesPart contentLen c line n e ∧ Ends Event.Good (f line n) e a d := by
  simp only [ends_bind, ends_receiveLine, ends_decrease]
  constructor
  · rintro ⟨line, e, hline, n, t, ⟨hle, rfl, rfl⟩, hf⟩
    exact ⟨line, _, _, ⟨hline, hle, rfl⟩, hf⟩
  · rintro ⟨line, n, e, ⟨hline, hle, rfl⟩, hf⟩
    exact ⟨line, e, hline, _, e, ⟨hle, rfl, rfl⟩, hf⟩

/-! ## Blocks -/

section
variable {good : Event → Prop}

def Conn.available (c : Conn) : Nat :=
  match c.arrived with
  | [] => c.rest.length
  | n :: _ => min n c.rest.length

def Conn.asked (c : Conn) : Conn := { c with arrived := c.arrived.tail }

def Conn.without (c : Conn) (n : Nat) : Conn := { c with rest := c.rest.drop n }

/-- The bytes as far as the disk takes them. -/
def Conn.write (v : Server) (c : Conn) (bytes : Str) : Conn :=
  { c with file := (c.file ++ bytes).take (max v.room c.file.length) }

@[simp] theorem ends_fionread {c d : Conn} {n : Nat} :
    Ends good fionread c n d ↔ n = c.available ∧ d = c.asked := by
  have hrun : fionread c = (some (c.available, c.asked), []) := by
    obtain ⟨rest, arrived, isValid, parameterList, file, uploads, errors⟩ := c
    cases arrived <;> rfl
  unfold Ends
  rw [hrun]
  constructor
  · rintro ⟨h, -⟩
    cases h
    exact ⟨rfl, rfl⟩
  · rintro ⟨rfl, rfl⟩
    exact ⟨rfl, fun e he => absurd he List.not_mem_nil⟩

@[simp] theorem ends_readBytes {c d : Conn} {n : Nat} {bytes : Str} :
    Ends good (readBytes n) c bytes d ↔ bytes = c.rest.take n ∧ d = c.without n := by
  constructor
  · rintro ⟨h, -⟩
    cases h
    exact ⟨rfl, rfl⟩
  · rintro ⟨rfl, rfl⟩
    exact ⟨rfl, fun e he => absurd he List.not_mem_nil⟩

@[simp] theorem ends_writeFile {v : Server} {c d : Conn} {bytes : Str} {ok : Bool} :
    Ends good (writeFile v bytes) c ok d ↔
      ok = decide (c.file.length + bytes.length ≤ v.room) ∧ d = c.write v bytes := by
  simp only [writeFile, ends_bind, ends_get, ends_modify, ends_pure]
  constructor
  · rintro ⟨_, _, ⟨rfl, rfl⟩, _, _, rfl, rfl, rfl⟩
    exact ⟨rfl, rfl⟩
  · rintro ⟨rfl, rfl⟩
    exact ⟨c, c, ⟨rfl, rfl⟩, (), _, rfl, rfl, rfl⟩

def Conn.setParameter (c : Conn) (name value : Str) : Conn :=
  { c with parameterList := c.parameterList.set name value }

@[simp] theorem ends_setParameter {c d : Conn} {name value : Str} {u : Unit} :
    Ends good (setParameter name value) c u d ↔ d = c.setParameter name value := ends_modify

/-- How often the socket is asked at most, with the rounds in which nothing is there. -/
def Conn.pending (c : Conn) : Nat := 12 * (c.arrived.length + c.rest.length)

theorem pending_asked {c : Conn} (h : c.available = 0) :
    c.asked.pending + 12 ≤ c.pending ∨ c.asked.pending = c.pending ∧ c.rest = [] := by
  unfold Conn.available at h
  unfold Conn.pending Conn.asked
  cases harrived : c.arrived with
  | nil =>
    rw [harrived] at h
    exact .inr ⟨by simp, List.length_eq_zero_iff.mp h⟩
  | cons n arrived =>
    left
    simp only [List.tail_cons, List.length_cons]
    omega

theorem available_le (c : Conn) : c.available ≤ c.rest.length := by
  unfold Conn.available
  cases c.arrived with
  | nil => exact Nat.le_refl _
  | cons n arrived => exact Nat.min_le_right n _

theorem pending_without {c : Conn} {n : Nat} (hn : 0 < n) (hle : n ≤ c.rest.length) :
    (c.asked.without n).pending + 12 ≤ c.pending := by
  unfold Conn.pending Conn.without Conn.asked
  simp only [List.length_tail, List.length_drop]
  omega

theorem write_room {v : Server} {c : Conn} {bytes : Str}
    (h : c.file.length + bytes.length ≤ v.room) :
    c.write v bytes = { c with file := c.file ++ bytes } := by
  unfold Conn.write
  rw [List.take_of_length_le]
  rw [List.length_append]
  omega

/-- Where reading in blocks stops: `n` bytes further. -/
structure BlockEnd (v : Server) (c : Conn) (readbytes length : Nat) (k : Nat) (d : Conn) :
    Prop where
  bounded : k ≤ max receiveBlockLen (length - 1)
  pending : d.pending ≤ c.pending
  rest : d.rest.length ≤ c.rest.length
  stored : c.file.length + c.rest.length ≤ v.room → ∃ n, n ≤ c.rest.length ∧ k = readbytes + n ∧
    d = { c with rest := c.rest.drop n, file := c.file ++ c.rest.take n, arrived := d.arrived }

/-- The connection behind a block of `n` bytes that was written to the file. -/
def Conn.stored (v : Server) (c : Conn) (n : Nat) : Conn :=
  (c.asked.without n).write v (c.rest.take n)

theorem fileBlockLoop_nothing {v : Server} {length fuel readbytes retries k : Nat} {c d : Conn}
    (h : c.available = 0) :
    Ends good (fileBlockLoop v length (fuel + 1) readbytes retries) c k d ↔
      Ends good (if nonBlockingMaxRetries < retries + 1 then pure readbytes
        else if readbytes + receiveBlockLen < length then
          fileBlockLoop v length fuel readbytes (retries + 1)
        else pure readbytes) c.asked k d := by
  rw [fileBlockLoop]
  simp only [ends_bind, ends_fionread]
  constructor
  · rintro ⟨_, _, ⟨rfl, rfl⟩, hk⟩
    rwa [if_pos h] at hk
  · intro hk
    exact ⟨_, _, ⟨rfl, rfl⟩, by rwa [if_pos h]⟩

theorem fileBlockLoop_block {v : Server} {length fuel readbytes retries k n : Nat} {c d : Conn}
    (h : c.available ≠ 0) (hn : min c.available receiveBlockLen = n) :
    Ends good (fileBlockLoop v length (fuel + 1) readbytes retries) c k d ↔
      Ends good (if c.file.length + n ≤ v.room then
          if readbytes + n + receiveBlockLen < length then
            fileBlockLoop v length fuel (readbytes + n) 0
          else pure (readbytes + n)
        else pure 0) (c.stored v n) k d := by
  have hlen : (c.asked.rest.take n).length = n := by
    have := available_le c
    exact List.length_take_of_le (by simp only [Conn.asked]; omega)
  rw [fileBlockLoop]
  simp only [ends_bind, ends_fionread]
  constructor
  · rintro ⟨_, _, ⟨rfl, rfl⟩, hk⟩
    simp only [if_neg h, hn, ends_bind, ends_readBytes, ends_writeFile] at hk
    obtain ⟨_, _, ⟨rfl, rfl⟩, _, _, ⟨rfl, rfl⟩, hk⟩ := hk
    simp only [hlen, decide_eq_true_eq] at hk
    exact hk
  · intro hk
    refine ⟨_, _, ⟨rfl, rfl⟩, ?_⟩
    simp only [if_neg h, hn, ends_bind, ends_readBytes, ends_writeFile]
    refine ⟨_, _, ⟨rfl, rfl⟩, _, _, ⟨rfl, rfl⟩, ?_⟩
    simp only [hlen, decide_eq_true_eq]
    exact hk

theorem stored_pending {v : Server} {c : Conn} {n : Nat} (hn : 0 < n) (hle : n ≤ c.rest.length) :
    (c.stored v n).pending + 12 ≤ c.pending ∧
      (c.stored v n).rest.length + n = c.rest.length := by
  refine ⟨pending_without hn hle, ?_⟩
  simp only [Conn.stored, Conn.write, Conn.without, Conn.asked, List.length_drop]
  omega

theorem stored_room {v : Server} {c : Conn} {n : Nat} (hle : n ≤ c.rest.length)
    (hroom : c.file.length + c.rest.length ≤ v.room) :
    c.stored v n = { c with
      rest := c.rest.drop n, file := c.file ++ c.rest.take n
      arrived := (c.stored v n).arrived } := by
  apply write_room
  rw [List.length_take_of_le hle]
  exact Nat.le_trans (Nat.add_le_add_left hle _) hroom

/-- A block, and then a part of what is left. -/
theorem BlockEnd.block {v : Server} {c d : Conn} {readbytes length k n : Nat}
    (hn : 0 < n) (hle : n ≤ c.rest.length)
    (h : BlockEnd v (c.stored v n) (readbytes + n) length k d) :
    BlockEnd v c readbytes length k d := by
  obtain ⟨hpending, hrest⟩ := stored_pending (v := v) hn hle
  refine ⟨h.bounded, ?_, ?_, fun hroom => ?_⟩
  · exact Nat.le_trans h.pending (by omega)
  · exact Nat.le_trans h.rest (by omega)
  · have heq := stored_room hle hroom
    have hroom' : (c.stored v n).file.length + (c.stored v n).rest.length ≤ v.room := by
      rw [heq]
      simp only [List.length_append, List.length_take, List.length_drop]
      omega
    obtain ⟨m, hm, rfl, hd⟩ := h.stored hroom'
    refine ⟨n + m, by omega, by omega, ?_⟩
    rw [hd, heq]
    simp only [List.drop_drop, List.append_assoc, List.take_add]

theorem fileBlockLoop_ends (v : Server) (length : Nat) {fuel : Nat} {c : Conn}
    {readbytes retries : Nat} (hretries : retries ≤ nonBlockingMaxRetries)
    (hfuel : c.pending + 12 - retries < fuel)
    (hread : readbytes = 0 ∨ readbytes + receiveBlockLen < length) :
    ∃ k d, Ends good (fileBlockLoop v length fuel readbytes retries) c k d ∧
      BlockEnd v c readbytes length k d := by
  have hmax : nonBlockingMaxRetries = 10 := rfl
  have hblock : receiveBlockLen = 1024 := rfl
  induction fuel generalizing c readbytes retries with
  | zero => exact absurd hfuel (Nat.not_lt_zero _)
  | succ fuel ih =>
    by_cases havail : c.available = 0
    · -- nothing is there
      have hpending := pending_asked havail
      have hstop : BlockEnd v c readbytes length readbytes c.asked :=
        ⟨by omega, by omega, Nat.le_refl _, fun _ => ⟨0, Nat.zero_le _, rfl, by simp [Conn.asked]⟩⟩
      simp only [fileBlockLoop_nothing havail]
      by_cases hlast : nonBlockingMaxRetries < retries + 1
      · exact ⟨readbytes, c.asked, by simp [hlast], hstop⟩
      by_cases hlength : readbytes + receiveBlockLen < length
      · obtain ⟨k, d, hd, hend⟩ := @ih c.asked readbytes (retries + 1) (by omega)
          (by omega) (.inr hlength)
        refine ⟨k, d, by simpa only [if_neg hlast, if_pos hlength] using hd, ?_⟩
        exact ⟨hend.bounded, by have := hend.pending; omega, hend.rest, hend.stored⟩
      · exact ⟨readbytes, c.asked, by simp [hlast, hlength], hstop⟩
    · -- a block of at least one byte
      have havailable := available_le c
      generalize hn : min c.available receiveBlockLen = n
      have hpos : 0 < n := by omega
      have hle : n ≤ c.rest.length := by omega
      obtain ⟨hpending, hrest⟩ := stored_pending (v := v) hpos hle
      simp only [fileBlockLoop_block havail hn]
      by_cases hok : c.file.length + n ≤ v.room
      · by_cases hlength : readbytes + n + receiveBlockLen < length
        · obtain ⟨k, d, hd, hend⟩ := @ih (c.stored v n) (readbytes + n) 0 (by omega)
            (by omega) (.inr hlength)
          exact ⟨k, d, by simpa only [if_pos hok, if_pos hlength] using hd, hend.block hpos hle⟩
        · refine ⟨readbytes + n, c.stored v n, by simp [hok, hlength], ?_⟩
          refine BlockEnd.block hpos hle ⟨by omega, Nat.le_refl _, Nat.le_refl _, fun _ => ?_⟩
          exact ⟨0, Nat.zero_le _, rfl, by simp⟩
      · refine ⟨0, c.stored v n, by simp [hok], Nat.zero_le _, by omega, by omega, fun hroom => ?_⟩
        omega

/-! ## A form -/

theorem blockLoop_length {fuel : Nat} {c d : Conn} {result s : Str}
    (h : Ends good (blockLoop fuel result) c s d) :
    s.length + d.rest.length = result.length + c.rest.length := by
  induction fuel generalizing c result with
  | zero => exact absurd h ends_endless
  | succ fuel ih =>
    simp only [blockLoop, ends_bind, ends_fionread] at h
    obtain ⟨_, _, ⟨rfl, rfl⟩, h⟩ := h
    by_cases havail : c.available = 0
    · rw [if_pos havail, ends_pure] at h
      obtain ⟨rfl, rfl⟩ := h
      rfl
    · rw [if_neg havail] at h
      simp only [ends_bind, ends_readBytes] at h
      obtain ⟨_, _, ⟨rfl, rfl⟩, h⟩ := h
      generalize min c.available receiveBlockLen = n at h
      have hsum : (result ++ c.asked.rest.take n).length + (c.asked.without n).rest.length =
          result.length + c.rest.length := by
        simp only [Conn.without, Conn.asked, List.length_append, List.length_take,
          List.length_drop]
        omega
      split at h
      · rw [ends_pure] at h
        obtain ⟨rfl, rfl⟩ := h
        exact hsum
      · exact (ih h).trans hsum

theorem blockLoop_ends {fuel : Nat} {c : Conn} (result : Str) (hfuel : c.pending < fuel) :
    ∃ s d, Ends good (blockLoop fuel result) c s d ∧ d.pending ≤ c.pending ∧
      (d.pending + 12 ≤ c.pending ∨ c.rest = []) := by
  induction fuel generalizing c result with
  | zero => exact absurd hfuel (Nat.not_lt_zero _)
  | succ fuel ih =>
    simp only [blockLoop, ends_bind, ends_fionread]
    by_cases havail : c.available = 0
    · have hpending := pending_asked havail
      refine ⟨result, c.asked, ⟨_, _, ⟨rfl, rfl⟩, by simp [havail]⟩, by omega, ?_⟩
      exact hpending.imp_right And.right
    · have havailable := available_le c
      have hblock : receiveBlockLen = 1024 := rfl
      generalize hn : min c.available receiveBlockLen = n
      have hle : n ≤ c.rest.length := by omega
      have hpending := pending_without (c := c) (n := n) (by omega) hle
      have hlen : (c.asked.rest.take n).length = n := List.length_take_of_le hle
      obtain ⟨s, d, hd, hless, -⟩ :=
        ih (c := c.asked.without n) (result ++ c.asked.rest.take n) (by omega)
      refine ⟨s, d, ⟨_, _, ⟨rfl, rfl⟩, ?_⟩, by omega, .inl (by omega)⟩
      rw [if_neg havail, hn]
      simp only [ends_bind, ends_readBytes]
      exact ⟨_, _, ⟨rfl, rfl⟩, by rwa [if_neg (by omega)]⟩

theorem ends_receiveBlock {fuel : Nat} {c d : Conn} {s : Str} (hc : c.isValid = true) :
    Ends good (receiveBlock fuel) c s d ↔ Ends good (blockLoop fuel []) c s d := by
  simp only [receiveBlock, ends_bind, ends_get]
  constructor
  · rintro ⟨_, _, ⟨rfl, rfl⟩, h⟩
    rwa [if_pos hc] at h
  · intro h
    exact ⟨c, c, ⟨rfl, rfl⟩, by rwa [if_pos hc]⟩

theorem blockLoop_valid {fuel : Nat} {c d : Conn} {result s : Str}
    (h : Ends good (blockLoop fuel result) c s d) : d.isValid = c.isValid := by
  induction fuel generalizing c result with
  | zero => exact absurd h ends_endless
  | succ fuel ih =>
    simp only [blockLoop, ends_bind, ends_fionread] at h
    obtain ⟨_, _, ⟨rfl, rfl⟩, h⟩ := h
    split at h
    · rw [ends_pure] at h
      obtain ⟨rfl, rfl⟩ := h
      rfl
    · simp only [ends_bind, ends_readBytes] at h
      obtain ⟨_, _, ⟨rfl, rfl⟩, h⟩ := h
      split at h
      · rw [ends_pure] at h
        obtain ⟨rfl, rfl⟩ := h
        rfl
      · exact (ih h).trans rfl

/-- A form that ends has as many bytes as its length says. -/
theorem formLoop_length {contentLen fuel : Nat} {c d : Conn} {postHeader s : Str}
    (hc : c.isValid = true) (h : Ends good (formLoop contentLen fuel postHeader) c s d) :
    contentLen ≤ postHeader.length + c.rest.length := by
  induction fuel generalizing c postHeader with
  | zero => exact absurd h ends_endless
  | succ fuel ih =>
    rw [formLoop] at h
    split at h
    · simp only [ends_bind, ends_receiveBlock hc] at h
      obtain ⟨block, e, hblock, h⟩ := h
      have hlen := blockLoop_length hblock
      have := ih ((blockLoop_valid hblock).trans hc) h
      simp only [List.length_append, List.length_nil] at this hlen
      omega
    · omega

theorem formLoop_ends {contentLen fuel : Nat} {c : Conn} {postHeader : Str}
    (hc : c.isValid = true) (hfuel : c.pending + 1 < fuel)
    (hlen : contentLen ≤ postHeader.length + c.rest.length) :
    ∃ s d, Ends good (formLoop contentLen fuel postHeader) c s d := by
  induction fuel generalizing c postHeader with
  | zero => exact absurd hfuel (Nat.not_lt_zero _)
  | succ fuel ih =>
    rw [formLoop]
    split
    case isTrue hless =>
      obtain ⟨block, e, hblock, -, hpending⟩ :=
        @blockLoop_ends good fuel c [] (by omega)
      have hsum := blockLoop_length hblock
      simp only [List.length_nil] at hsum
      have hrest : c.rest ≠ [] := by
        intro hnil
        rw [hnil, List.length_nil] at hlen
        omega
      have hpending := hpending.resolve_right hrest
      obtain ⟨s, d, hd⟩ := @ih e (postHeader ++ block)
        ((blockLoop_valid hblock).trans hc)
        (by omega) (by rw [List.length_append]; omega)
      refine ⟨s, d, ?_⟩
      simp only [ends_bind, ends_receiveBlock hc]
      exact ⟨block, e, hblock, hd⟩
    case isFalse => exact ⟨postHeader, c, by simp⟩

end

end Tuxbox.Nhttpd
