import Tuxbox.Lib.Bytes
import Mathlib.Data.List.Basic

/-!
# The IO buffer of enigma

`eIOBuffer` keeps bytes in a list of blocks of one size. It is filled at the end, from memory
or from a file, and emptied at the front, where `ptr` bytes of the first block are gone.
-/

namespace Tuxbox.Enigma

/-- The blocks up to their `len`, and what is gone of the first one. -/
structure IOBuffer where
  buffer : List Str
  ptr : Nat
  deriving DecidableEq

namespace IOBuffer

/-- What a call of `read` gives: `EINTR`, another error, or some bytes. -/
inductive ReadResult
  | eintr
  | failed
  | got (data : Str)

/-- What a call of `write` gives. -/
inductive WriteResult
  | eintr
  | failed
  | wrote (n : Nat)

def removeblock (s : IOBuffer) : IOBuffer := ⟨s.buffer.tail, 0⟩

def addblock (s : IOBuffer) : IOBuffer := ⟨s.buffer ++ [[]], s.ptr⟩

def size (s : IOBuffer) : Int := (s.buffer.map List.length).sum - s.ptr

def empty (s : IOBuffer) : Bool := s.buffer.isEmpty

def peekLoop : List Str → (p len : Nat) → Str
  | [], _, _ => []
  | b :: bs, p, len =>
    if len = 0 then []
    else
      let tc := min (b.length - p) len
      (b.drop p).take tc ++ peekLoop bs 0 (len - tc)

def peek (s : IOBuffer) (len : Nat) : Str := peekLoop s.buffer s.ptr len

/-- `none` where there are no more blocks, which is asserted not to happen. -/
def skipLoop : List Str → (ptr len : Nat) → Option IOBuffer
  | bs, ptr, 0 => some ⟨bs, ptr⟩
  | [], _, _ + 1 => none
  | b :: bs, ptr, len + 1 =>
    -- a block that is used up is removed
    if len + 1 < b.length - ptr then some ⟨b :: bs, ptr + (len + 1)⟩
    else skipLoop bs 0 (len + 1 - (b.length - ptr))

def skip (s : IOBuffer) (len : Nat) : Option IOBuffer := skipLoop s.buffer s.ptr len

def read (s : IOBuffer) (len : Nat) : Option (IOBuffer × Str) :=
  let dest := s.peek len
  (s.skip dest.length).map fun t => (t, dest)

/-- How much the last block holds. -/
def backLen (s : IOBuffer) : Nat := (s.buffer.getLast?.map List.length).getD 0

/-- Before bytes are stored: a new block, unless there is one with room. -/
def room (allocationsize : Nat) (s : IOBuffer) : IOBuffer :=
  if s.empty ∨ allocationsize = s.backLen then s.addblock else s

/-- Bytes behind those of the last block. -/
def fill (s : IOBuffer) (data : Str) : IOBuffer :=
  ⟨s.buffer.dropLast ++ [s.buffer.getLast?.getD [] ++ data], s.ptr⟩

/-- `none` where the loop does not end. -/
def write (allocationsize : Nat) (s : IOBuffer) (source : Str) : Option IOBuffer :=
  if source = [] then some s
  else
    let s := s.room allocationsize
    let tc := min source.length (allocationsize - s.backLen)
    if tc = 0 then none else write allocationsize (s.fill (source.take tc)) (source.drop tc)
termination_by source.length
decreasing_by
  rw [List.length_drop]
  exact Nat.sub_lt (List.length_pos_iff.mpr ‹_›) (Nat.pos_of_ne_zero ‹_›)

/-- The results are those of all calls of `read` the loop makes; `none` where they are not. -/
def fromfile (allocationsize : Nat) : IOBuffer → (len : Nat) → List ReadResult →
    Option (IOBuffer × Nat)
  | s, len, [] => if len = 0 then some (s, 0) else none
  | s, len, r :: rs =>
    if len = 0 then none
    else
      let s := s.room allocationsize
      let tc := min len (allocationsize - s.backLen)
      match r with
      | .eintr => fromfile allocationsize s len rs
      | .failed =>
        if 0 ≠ tc then if rs.isEmpty then some (s, 0) else none
        else fromfile allocationsize s len rs
      | .got data =>
        if tc < data.length then none
        else if data.length ≠ tc then
          if rs.isEmpty then some (s.fill data, data.length) else none
        else
          (fromfile allocationsize (s.fill data) (len - data.length) rs).map fun t =>
            (t.1, data.length + t.2)

/-- After `w` bytes of the first block. -/
def advance (s : IOBuffer) (w : Nat) : IOBuffer :=
  if s.ptr + w = (s.buffer.head?.getD []).length then s.removeblock else ⟨s.buffer, s.ptr + w⟩

/-- The bytes that are written; the results are those of all calls of `write` the loop makes. -/
def tofile : IOBuffer → (len : Nat) → List WriteResult → Option (IOBuffer × Str)
  | s, len, [] => if len = 0 ∨ s.empty then some (s, []) else none
  | s, len, r :: rs =>
    if len = 0 ∨ s.empty then none
    else
      let front := (s.buffer.head?.getD []).drop s.ptr
      let tc := min front.length len
      let wrote (w : Nat) : Option (IOBuffer × Str) :=
        if tc ≠ w then if rs.isEmpty then some (s.advance w, front.take w) else none
        else (tofile (s.advance w) (len - w) rs).map fun t => (t.1, front.take w ++ t.2)
      match r with
      | .eintr => tofile s len rs
      | .failed => wrote 0
      | .wrote w => if tc < w then none else wrote w

def searchLoop (ch : Int) : List Str → (p c : Nat) → Int
  | [], _, _ => -1
  | b :: bs, p, c =>
    match (b.drop p).findIdx? (fun x => decide ((x.toNat : Int) = ch)) with
    | some k => c + k
    | none => searchLoop ch bs 0 (c + (b.length - p))

/-- `ch` as it is compared, with or without a sign. -/
def searchchr (s : IOBuffer) (ch : Int) : Int := searchLoop ch s.buffer s.ptr 0

/-! ## A queue of bytes -/

inductive Call
  | peek (len : Nat)
  | skip (len : Nat)
  | read (len : Nat)
  | write (source : Str)
  | fromfile (len : Nat) (reads : List ReadResult)
  | tofile (len : Nat) (writes : List WriteResult)
  | searchchr (ch : Int)

/-- What a call returns or delivers. -/
inductive Result
  | done
  | bytes (data : Str)
  | number (n : Int)
  deriving DecidableEq

/-- What a queue of bytes does. -/
def call (allocationsize : Nat) (s : IOBuffer) : Call → Option (IOBuffer × Result)
  | .peek len => some (s, .bytes (s.peek len))
  | .skip len => (s.skip len).map fun t => (t, .done)
  | .read len => (s.read len).map fun t => (t.1, .bytes t.2)
  | .write source => (s.write allocationsize source).map fun t => (t, .done)
  | .fromfile len reads => (s.fromfile allocationsize len reads).map fun t => (t.1, .number t.2)
  | .tofile len writes => (s.tofile len writes).map fun t => (t.1, .bytes t.2)
  | .searchchr ch => some (s, .number (s.searchchr ch))

/-- What was delivered by some calls of `read`. -/
def delivered : List ReadResult → Str
  | [] => []
  | .got data :: rs => data ++ delivered rs
  | _ :: rs => delivered rs

/-- How much was taken by some calls of `write`. -/
def taken : List WriteResult → Nat
  | [] => 0
  | .wrote n :: rs => n + taken rs
  | _ :: rs => taken rs

/-- The calls of a queue. -/
def Queue.call (q : Str) : Call → Option (Str × Result)
  | .peek len => some (q, .bytes (q.take len))
  | .skip len => if len ≤ q.length then some (q.drop len, .done) else none
  | .read len => some (q.drop len, .bytes (q.take len))
  | .write source => some (q ++ source, .done)
  | .fromfile _ reads => some (q ++ delivered reads, .number (delivered reads).length)
  | .tofile _ writes => some (q.drop (taken writes), .bytes (q.take (taken writes)))
  | .searchchr ch =>
    some (q, .number (match q.findIdx? (fun x => decide ((x.toNat : Int) = ch)) with
      | some k => k
      | none => -1))

/-! ## The blocks in order -/

def contents (s : IOBuffer) : Str := s.buffer.flatten.drop s.ptr

/-- All blocks but the last are full, and only the first is used up in part. A block
without bytes is the last one. -/
structure Ordered (allocationsize : Nat) (s : IOBuffer) : Prop where
  full : ∀ b ∈ s.buffer.dropLast, b.length = allocationsize
  bounded : ∀ b ∈ s.buffer, b.length ≤ allocationsize
  nil : s.buffer = [] → s.ptr = 0
  front : ∀ b bs, s.buffer = b :: bs → s.ptr < b.length ∨ (s.ptr = 0 ∧ b = [] ∧ bs = [])

section
variable {allocationsize : Nat} {s t : IOBuffer}

theorem contents_cons {b : Str} {ptr : Nat} (h : ptr ≤ b.length) (bs : List Str) :
    contents ⟨b :: bs, ptr⟩ = b.drop ptr ++ bs.flatten := by
  unfold contents
  rw [List.flatten_cons, List.drop_append_of_le_length h]

theorem Ordered.le (h : Ordered allocationsize s) {b : Str} {bs : List Str}
    (hs : s.buffer = b :: bs) : s.ptr ≤ b.length := by
  rcases h.front b bs hs with hlt | ⟨hzero, -, -⟩
  · exact hlt.le
  · omega

/-- The blocks without the first. -/
theorem ordered_tail (halloc : 0 < allocationsize) {b : Str} {bs : List Str} {ptr : Nat}
    (h : Ordered allocationsize ⟨b :: bs, ptr⟩) : Ordered allocationsize ⟨bs, 0⟩ := by
  constructor
  · intro c hc
    apply h.full
    cases bs with
    | nil => cases hc
    | cons d ds => exact List.mem_cons_of_mem b hc
  · exact fun c hc => h.bounded c (List.mem_cons_of_mem b hc)
  · exact fun _ => rfl
  · rintro c cs hcs
    obtain rfl : bs = c :: cs := hcs
    cases cs with
    | nil =>
      rcases Nat.eq_zero_or_pos c.length with hzero | hpos
      · exact Or.inr ⟨rfl, List.length_eq_zero_iff.mp hzero, rfl⟩
      · exact Or.inl hpos
    | cons d ds =>
      left
      have hfull := h.full c (by simp)
      change 0 < c.length
      omega

/-! ## Peek, skip, read -/

theorem peekLoop_eq {bs : List Str} {p : Nat} (hp : ∀ b cs, bs = b :: cs → p ≤ b.length)
    (hnil : bs = [] → p = 0) (len : Nat) : peekLoop bs p len = (bs.flatten.drop p).take len := by
  induction bs generalizing p len with
  | nil => simp [peekLoop]
  | cons b bs ih =>
    have hle := hp b bs rfl
    have hrest := ih (p := 0) (fun _ _ _ => Nat.zero_le _) (fun _ => rfl)
    rw [peekLoop, List.flatten_cons, List.drop_append_of_le_length hle, List.take_append]
    by_cases hlen : len = 0
    · simp [hlen]
    · rw [if_neg hlen]
      dsimp only
      rw [hrest, List.drop_zero, List.length_drop]
      by_cases hshort : b.length - p ≤ len
      · rw [Nat.min_eq_left hshort]
        congr 1
        rw [List.take_of_length_le (by simp), List.take_of_length_le (by simpa using hshort)]
      · have hzero : len - (b.length - p) = 0 := by omega
        rw [Nat.min_eq_right (by omega), Nat.sub_self, hzero]

theorem peek_eq (h : Ordered allocationsize s) (len : Nat) : s.peek len = s.contents.take len := by
  apply peekLoop_eq
  · exact fun b bs hs => h.le hs
  · exact h.nil

theorem skipLoop_eq (halloc : 0 < allocationsize) {bs : List Str} {ptr : Nat}
    (h : Ordered allocationsize ⟨bs, ptr⟩) (len : Nat) :
    (len ≤ (contents ⟨bs, ptr⟩).length → ∃ t, skipLoop bs ptr len = some t ∧
      Ordered allocationsize t ∧ t.contents = (contents ⟨bs, ptr⟩).drop len) ∧
    (¬ len ≤ (contents ⟨bs, ptr⟩).length → skipLoop bs ptr len = none) := by
  induction bs generalizing ptr len with
  | nil =>
    obtain rfl : ptr = 0 := h.nil rfl
    cases len with
    | zero => exact ⟨fun _ => ⟨_, rfl, h, rfl⟩, fun hn => absurd (Nat.zero_le _) hn⟩
    | succ len => exact ⟨fun hn => absurd hn (by simp [contents]), fun _ => rfl⟩
  | cons b bs ih =>
    have hle : ptr ≤ b.length := h.le rfl
    have hcontents := contents_cons hle bs
    cases len with
    | zero => exact ⟨fun _ => ⟨_, rfl, h, rfl⟩, fun hn => absurd (Nat.zero_le _) hn⟩
    | succ len =>
      rw [skipLoop]
      by_cases hin : len + 1 < b.length - ptr
      · rw [if_pos hin]
        constructor
        · intro _
          refine ⟨_, rfl, ?_, ?_⟩
          · refine ⟨h.full, h.bounded, fun hn => (List.cons_ne_nil b bs hn).elim, ?_⟩
            rintro c cs hcs
            obtain ⟨rfl, rfl⟩ := List.cons.inj hcs
            left
            change ptr + (len + 1) < b.length
            omega
          · rw [contents_cons (by omega), hcontents, List.drop_append_of_le_length _,
              List.drop_drop]
            rw [List.length_drop]
            omega
        · intro hn
          rw [hcontents, List.length_append, List.length_drop] at hn
          omega
      · rw [if_neg hin]
        have htail := ordered_tail halloc h
        obtain ⟨hsome, hnone⟩ := ih htail (len + 1 - (b.length - ptr))
        have hrest : contents ⟨bs, 0⟩ = bs.flatten := rfl
        rw [hrest] at hsome hnone
        rw [hcontents, List.length_append, List.length_drop]
        constructor
        · intro hlen
          obtain ⟨t, ht, hord, hdrop⟩ := hsome (by omega)
          refine ⟨t, ht, hord, ?_⟩
          have hgone : (b.drop ptr).drop (len + 1) = [] := by
            apply List.drop_of_length_le
            rw [List.length_drop]
            omega
          rw [hdrop, List.drop_append, List.length_drop, hgone, List.nil_append]
        · exact fun hn => hnone (by omega)

/-! ## Bytes at the end -/

/-- A buffer with room in its last block. -/
structure Room (allocationsize : Nat) (s : IOBuffer) : Prop where
  ordered : Ordered allocationsize s
  nonempty : s.buffer ≠ []
  room : s.backLen < allocationsize

theorem contents_concat {bs : List Str} {b : Str} {ptr : Nat} (h : ptr ≤ (bs ++ [b]).flatten.length)
    (data : Str) : contents ⟨bs ++ [b ++ data], ptr⟩ = contents ⟨bs ++ [b], ptr⟩ ++ data := by
  unfold contents
  simp only [List.flatten_append, List.flatten_cons, List.flatten_nil, List.append_nil] at h ⊢
  rw [← List.append_assoc, List.drop_append_of_le_length h]

theorem Ordered.ptr_le (h : Ordered allocationsize s) : s.ptr ≤ s.buffer.flatten.length := by
  cases hs : s.buffer with
  | nil =>
    rw [h.nil hs]
    exact Nat.zero_le _
  | cons b bs =>
    have hle := h.le hs
    rw [List.flatten_cons, List.length_append]
    omega

theorem split_back (hne : s.buffer ≠ []) : ∃ bs b, s.buffer = bs ++ [b] :=
  ⟨_, _, (List.dropLast_append_getLast hne).symm⟩

theorem backLen_concat {bs : List Str} {b : Str} (h : s.buffer = bs ++ [b]) :
    s.backLen = b.length := by
  unfold backLen
  rw [h, List.getLast?_concat]
  rfl

theorem room_room (halloc : 0 < allocationsize) (h : Ordered allocationsize s) :
    Room allocationsize (s.room allocationsize) ∧
      (s.room allocationsize).contents = s.contents := by
  unfold room
  by_cases hneed : s.empty = true ∨ allocationsize = s.backLen
  · rw [if_pos hneed]
    have hback : (s.addblock).backLen = 0 := by
      rw [backLen_concat (s := s.addblock) rfl]
      rfl
    have hcontents : s.addblock.contents = s.contents := by
      unfold contents addblock
      simp
    refine ⟨⟨⟨?_, ?_, ?_, ?_⟩, ?_, by rw [hback]; exact halloc⟩, hcontents⟩
    · intro b hb
      have hb : b ∈ s.buffer := by simpa [addblock] using hb
      rcases hneed with hempty | hfull
      · rw [List.isEmpty_iff.mp hempty] at hb
        cases hb
      · have hne : s.buffer ≠ [] := List.ne_nil_of_mem hb
        obtain ⟨bs, c, hs⟩ := split_back hne
        have hlast := backLen_concat hs
        rw [hs] at hb
        rcases List.mem_append.mp hb with hb | hb
        · apply h.full
          rw [hs, List.dropLast_concat]
          exact hb
        · rw [List.mem_singleton.mp hb, hfull, hlast]
    · intro b hb
      rcases List.mem_append.mp hb with hb | hb
      · exact h.bounded b hb
      · rw [List.mem_singleton.mp hb]
        exact Nat.zero_le _
    · intro hnil
      exact absurd hnil (by simp [addblock])
    · intro b bs hbs
      cases hs : s.buffer with
      | nil =>
        have hcons : [[]] = b :: bs := by simpa [addblock, hs] using hbs
        obtain ⟨rfl, rfl⟩ := List.cons.inj hcons
        exact Or.inr ⟨h.nil hs, rfl, rfl⟩
      | cons c cs =>
        have hcons : c :: (cs ++ [[]]) = b :: bs := by simpa [addblock, hs] using hbs
        obtain ⟨rfl, rfl⟩ := List.cons.inj hcons
        rcases h.front c cs hs with hlt | ⟨-, rfl, rfl⟩
        · exact Or.inl hlt
        · exfalso
          have hlast : s.backLen = 0 := by
            have hlast : s.buffer = [] ++ [[]] := hs
            rw [backLen_concat hlast]
            rfl
          rcases hneed with hempty | hfull
          · rw [empty, hs] at hempty
            cases hempty
          · omega
    · simp [addblock]
  · rw [if_neg hneed]
    obtain ⟨hempty, hfull⟩ := not_or.mp hneed
    have hne : s.buffer ≠ [] := by
      rintro hnil
      apply hempty
      rw [empty, hnil]
      rfl
    refine ⟨⟨h, hne, ?_⟩, rfl⟩
    obtain ⟨bs, b, hs⟩ := split_back hne
    have hle := h.bounded b (by rw [hs]; simp)
    rw [backLen_concat hs] at hfull ⊢
    omega

theorem fill_ordered (h : Room allocationsize s) {data : Str}
    (hdata : data.length ≤ allocationsize - s.backLen) :
    Ordered allocationsize (s.fill data) ∧ (s.fill data).contents = s.contents ++ data := by
  obtain ⟨hord, hne, hroom⟩ := h
  obtain ⟨bs, b, hs⟩ := split_back hne
  have hback := backLen_concat hs
  rw [hback] at hroom hdata
  obtain ⟨buffer, ptr⟩ := s
  obtain rfl : buffer = bs ++ [b] := hs
  have hfill : fill ⟨bs ++ [b], ptr⟩ data = ⟨bs ++ [b ++ data], ptr⟩ := by
    unfold fill
    simp only [List.dropLast_concat, List.getLast?_concat, Option.getD_some]
  rw [hfill]
  refine ⟨⟨?_, ?_, ?_, ?_⟩, contents_concat hord.ptr_le data⟩
  · intro c hc
    apply hord.full
    rwa [List.dropLast_concat] at hc ⊢
  · intro c hc
    rcases List.mem_append.mp hc with hc | hc
    · exact hord.bounded c (List.mem_append_left _ hc)
    · rw [List.mem_singleton.mp hc, List.length_append]
      omega
  · intro hnil
    exact absurd hnil (by simp)
  · intro c cs hcs
    cases bs with
    | nil =>
      have hcons : [b ++ data] = c :: cs := hcs
      obtain ⟨rfl, rfl⟩ := List.cons.inj hcons
      rcases hord.front b [] rfl with hlt | ⟨hzero, rfl, -⟩
      · left
        rw [List.length_append]
        exact Nat.lt_add_right _ hlt
      · cases data with
        | nil => exact Or.inr ⟨hzero, rfl, rfl⟩
        | cons x xs =>
          left
          change ptr < ([] ++ x :: xs).length
          rw [show ptr = 0 from hzero]
          exact Nat.succ_pos _
    | cons d ds =>
      have hcons : d :: (ds ++ [b ++ data]) = c :: cs := hcs
      obtain ⟨rfl, rfl⟩ := List.cons.inj hcons
      rcases hord.front d (ds ++ [b]) rfl with hlt | ⟨-, -, hnil⟩
      · exact Or.inl hlt
      · exact absurd hnil (by simp)

theorem write_eq (halloc : 0 < allocationsize) (h : Ordered allocationsize s) (source : Str) :
    ∃ t, s.write allocationsize source = some t ∧ Ordered allocationsize t ∧
      t.contents = s.contents ++ source := by
  induction hn : source.length using Nat.strongRecOn generalizing s source with
  | ind n ih =>
    rw [write]
    by_cases hnil : source = []
    · rw [if_pos hnil]
      exact ⟨s, rfl, h, by rw [hnil, List.append_nil]⟩
    · rw [if_neg hnil]
      obtain ⟨hroom, hcontents⟩ := room_room halloc h
      have hpos := List.length_pos_iff.mpr hnil
      have hback := hroom.room
      dsimp only
      generalize htc : min source.length (allocationsize - (s.room allocationsize).backLen) = tc
      have htake : (source.take tc).length ≤ allocationsize - (s.room allocationsize).backLen := by
        rw [List.length_take]
        omega
      obtain ⟨hfill, hfilled⟩ := fill_ordered hroom htake
      have hless : (source.drop tc).length < n := by
        rw [List.length_drop]
        omega
      obtain ⟨t, ht, hord, hend⟩ := ih _ hless hfill (source.drop tc) rfl
      rw [if_neg (by omega)]
      refine ⟨t, ht, hord, ?_⟩
      rw [hend, hfilled, hcontents, List.append_assoc, List.take_append_drop]

theorem fromfile_eq (halloc : 0 < allocationsize) (h : Ordered allocationsize s) {len n : Nat}
    {reads : List ReadResult} (hcall : s.fromfile allocationsize len reads = some (t, n)) :
    Ordered allocationsize t ∧ t.contents = s.contents ++ delivered reads ∧
      n = (delivered reads).length := by
  induction reads generalizing s len n with
  | nil =>
    rw [fromfile] at hcall
    split at hcall
    · cases hcall
      exact ⟨h, (List.append_nil _).symm, rfl⟩
    · cases hcall
  | cons r rs ih =>
    obtain ⟨hroom, hcontents⟩ := room_room halloc h
    rw [fromfile] at hcall
    split at hcall
    · cases hcall
    · cases r with
      | eintr =>
        obtain ⟨hord, hend, hn⟩ := ih hroom.ordered hcall
        exact ⟨hord, by rw [hend, hcontents]; rfl, hn⟩
      | failed =>
        dsimp only at hcall
        split at hcall
        · split at hcall
          · rename_i hrs
            cases hcall
            rw [List.isEmpty_iff.mp hrs]
            exact ⟨hroom.ordered, by rw [hcontents]; exact (List.append_nil _).symm, rfl⟩
          · cases hcall
        · obtain ⟨hord, hend, hn⟩ := ih hroom.ordered hcall
          exact ⟨hord, by rw [hend, hcontents]; rfl, hn⟩
      | got data =>
        dsimp only at hcall
        split at hcall
        · cases hcall
        · rename_i hle
          have hdata : data.length ≤ allocationsize - (s.room allocationsize).backLen := by omega
          obtain ⟨hfill, hfilled⟩ := fill_ordered hroom hdata
          split at hcall
          · split at hcall
            · rename_i hrs
              cases hcall
              rw [List.isEmpty_iff.mp hrs]
              refine ⟨hfill, ?_, ?_⟩
              · rw [hfilled, hcontents, delivered, delivered, List.append_nil]
              · rw [delivered, delivered, List.append_nil]
            · cases hcall
          · obtain ⟨⟨t', n'⟩, hrest, heq⟩ := Option.map_eq_some_iff.mp hcall
            cases heq
            obtain ⟨hord, hend, hn⟩ := ih hfill hrest
            refine ⟨hord, ?_, ?_⟩
            · rw [hend, hfilled, hcontents, delivered, List.append_assoc]
            · rw [delivered, List.length_append, ← hn]

/-! ## Bytes at the front -/

theorem advance_eq (halloc : 0 < allocationsize) (h : Ordered allocationsize s)
    (hne : s.buffer ≠ []) {w : Nat} (hw : w ≤ ((s.buffer.head?.getD []).drop s.ptr).length) :
    Ordered allocationsize (s.advance w) ∧ (s.advance w).contents = s.contents.drop w ∧
      ((s.buffer.head?.getD []).drop s.ptr).take w = s.contents.take w := by
  obtain ⟨buffer, ptr⟩ := s
  cases buffer with
  | nil => exact absurd rfl hne
  | cons b bs =>
    have hle : ptr ≤ b.length := h.le rfl
    have hcontents := contents_cons hle bs
    change w ≤ (b.drop ptr).length at hw
    have htake : (b.drop ptr).take w = (contents ⟨b :: bs, ptr⟩).take w := by
      rw [hcontents, List.take_append_of_le_length hw]
    have hdrop : (contents ⟨b :: bs, ptr⟩).drop w = b.drop (ptr + w) ++ bs.flatten := by
      rw [hcontents, List.drop_append_of_le_length hw, List.drop_drop]
    rw [List.length_drop] at hw
    by_cases hused : ptr + w = b.length
    · have hadvance : advance ⟨b :: bs, ptr⟩ w = ⟨bs, 0⟩ := if_pos hused
      rw [hadvance]
      refine ⟨ordered_tail halloc h, ?_, htake⟩
      rw [hdrop, hused, List.drop_length, List.nil_append]
      rfl
    · have hadvance : advance ⟨b :: bs, ptr⟩ w = ⟨b :: bs, ptr + w⟩ := if_neg hused
      rw [hadvance]
      refine ⟨⟨h.full, h.bounded, fun hn => (List.cons_ne_nil b bs hn).elim, ?_⟩, ?_, htake⟩
      · intro c cs hcs
        obtain ⟨rfl, rfl⟩ := List.cons.inj hcs
        left
        change ptr + w < b.length
        omega
      · rw [hdrop, contents_cons (by omega)]

theorem tofile_eq (halloc : 0 < allocationsize) (h : Ordered allocationsize s) {len : Nat}
    {out : Str} {writes : List WriteResult} (hcall : s.tofile len writes = some (t, out)) :
    Ordered allocationsize t ∧ t.contents = s.contents.drop (taken writes) ∧
      out = s.contents.take (taken writes) := by
  induction writes generalizing s len out with
  | nil =>
    rw [tofile] at hcall
    split at hcall
    · cases hcall
      exact ⟨h, rfl, rfl⟩
    · cases hcall
  | cons r rs ih =>
    rw [tofile] at hcall
    split at hcall
    · cases hcall
    · rename_i hgo
      have hne : s.buffer ≠ [] := by
        intro hnil
        apply hgo
        right
        rw [empty, hnil]
        rfl
      dsimp only at hcall
      generalize hfront : (s.buffer.head?.getD []).drop s.ptr = front at hcall
      have hwrote {w : Nat} (hw : w ≤ front.length)
          (hcall : (if min front.length len ≠ w then
              if rs.isEmpty then some (s.advance w, front.take w) else none
            else ((s.advance w).tofile (len - w) rs).map fun t => (t.1, front.take w ++ t.2)) =
              some (t, out)) :
          Ordered allocationsize t ∧ t.contents = s.contents.drop (w + taken rs) ∧
            out = s.contents.take (w + taken rs) := by
        obtain ⟨hord, hdrop, htake⟩ := advance_eq halloc h hne (hfront ▸ hw)
        rw [hfront] at htake
        split at hcall
        · split at hcall
          · rename_i hrs
            cases hcall
            rw [List.isEmpty_iff.mp hrs, taken, Nat.add_zero]
            exact ⟨hord, hdrop, htake⟩
          · cases hcall
        · obtain ⟨⟨t', out'⟩, hrest, heq⟩ := Option.map_eq_some_iff.mp hcall
          cases heq
          obtain ⟨hord', hend, hout⟩ := ih hord hrest
          refine ⟨hord', ?_, ?_⟩
          · rw [hend, hdrop, List.drop_drop]
          · change front.take w ++ out' = _
            rw [htake, hout, hdrop, List.take_add]
      cases r with
      | eintr => exact ih h hcall
      | failed =>
        have hzero := hwrote (Nat.zero_le _) hcall
        rw [Nat.zero_add] at hzero
        exact hzero
      | wrote w =>
        dsimp only at hcall
        split at hcall
        · cases hcall
        · exact hwrote (by omega) hcall

/-! ## Search -/

theorem findIdx?_append_getD {xs ys : Str} (p : Byte → Bool) (n : Nat) :
    (match (xs ++ ys).findIdx? p with | some k => ((n + k : Nat) : Int) | none => -1) =
      match xs.findIdx? p with
      | some k => ((n + k : Nat) : Int)
      | none =>
        match ys.findIdx? p with
        | some k => ((n + xs.length + k : Nat) : Int)
        | none => -1 := by
  rw [List.findIdx?_append]
  cases xs.findIdx? p with
  | some k => rfl
  | none =>
    cases ys.findIdx? p with
    | some k =>
      simp only [Option.map_some, Option.none_or]
      congr 1
      omega
    | none => rfl

theorem searchLoop_eq (ch : Int) {bs : List Str} {p : Nat}
    (hp : ∀ b cs, bs = b :: cs → p ≤ b.length) (hnil : bs = [] → p = 0) (c : Nat) :
    searchLoop ch bs p c =
      match (bs.flatten.drop p).findIdx? (fun x => decide ((x.toNat : Int) = ch)) with
      | some k => ((c + k : Nat) : Int)
      | none => -1 := by
  induction bs generalizing p c with
  | nil => simp [searchLoop]
  | cons b bs ih =>
    have hle := hp b bs rfl
    have hrest := ih (p := 0) (fun _ _ _ => Nat.zero_le _) (fun _ => rfl)
    rw [searchLoop, List.flatten_cons, List.drop_append_of_le_length hle, findIdx?_append_getD]
    cases (b.drop p).findIdx? (fun x => decide ((x.toNat : Int) = ch)) with
    | some k => rfl
    | none =>
      dsimp only
      rw [hrest, List.drop_zero, List.length_drop]

theorem searchchr_eq (h : Ordered allocationsize s) (ch : Int) :
    s.searchchr ch =
      match s.contents.findIdx? (fun x => decide ((x.toNat : Int) = ch)) with
      | some k => (k : Int)
      | none => -1 := by
  have hloop := searchLoop_eq ch (fun b cs hs => h.le hs) h.nil 0
  unfold searchchr
  rw [hloop]
  simp only [Nat.zero_add]
  rfl

/-! ## Every call, every run -/

/-- The calls that need no file. -/
def Call.Memory : Call → Prop
  | .fromfile _ _ => False
  | .tofile _ _ => False
  | _ => True

theorem skip_eq (halloc : 0 < allocationsize) (h : Ordered allocationsize s) (len : Nat) :
    (s.skip len).map (fun t => (t.contents, Result.done)) = Queue.call s.contents (.skip len) ∧
      ∀ t, s.skip len = some t → Ordered allocationsize t := by
  have hblocks : Ordered allocationsize ⟨s.buffer, s.ptr⟩ := h
  obtain ⟨hsome, hnone⟩ := skipLoop_eq halloc hblocks len
  unfold skip
  by_cases hlen : len ≤ s.contents.length
  · obtain ⟨t, ht, hord, hdrop⟩ := hsome hlen
    rw [ht]
    constructor
    · rw [Option.map_some, Queue.call, if_pos hlen, hdrop]
    · intro t' ht'
      rw [← Option.some_inj.mp ht']
      exact hord
  · rw [hnone hlen]
    constructor
    · rw [Option.map_none, Queue.call, if_neg hlen]
    · exact fun t ht => nomatch ht

/-- What is peeked can be skipped. -/
theorem read_eq (halloc : 0 < allocationsize) (h : Ordered allocationsize s) (len : Nat) :
    ∃ t, s.read len = some (t, s.contents.take len) ∧ Ordered allocationsize t ∧
      t.contents = s.contents.drop len := by
  obtain ⟨hskip, hord⟩ := skip_eq halloc h (s.contents.take len).length
  have hle : (s.contents.take len).length ≤ s.contents.length := List.length_take_le' _ _
  rw [Queue.call, if_pos hle] at hskip
  obtain ⟨t, ht, heq⟩ := Option.map_eq_some_iff.mp hskip
  obtain ⟨hdrop, -⟩ := Prod.mk.inj heq
  refine ⟨t, ?_, hord t ht, ?_⟩
  · unfold read
    rw [peek_eq h]
    dsimp only
    rw [ht]
    rfl
  · rw [hdrop, List.length_take]
    by_cases hlen : len ≤ s.contents.length
    · rw [Nat.min_eq_left hlen]
    · rw [Nat.min_eq_right (by omega), List.drop_length, List.drop_of_length_le (by omega)]

/-- A call on the blocks is one on a queue. -/
theorem call_refines (halloc : 0 < allocationsize) (h : Ordered allocationsize s) {c : Call}
    {r : Result} (hcall : call allocationsize s c = some (t, r)) :
    Ordered allocationsize t ∧ Queue.call s.contents c = some (t.contents, r) := by
  cases c with
  | peek len =>
    cases hcall
    exact ⟨h, by rw [peek_eq h]; rfl⟩
  | skip len =>
    obtain ⟨hskip, hord⟩ := skip_eq halloc h len
    obtain ⟨t', ht, heq⟩ := Option.map_eq_some_iff.mp hcall
    cases heq
    exact ⟨hord _ ht, by rw [← hskip, ht]; rfl⟩
  | read len =>
    obtain ⟨t', ht, hord, hdrop⟩ := read_eq halloc h len
    rw [call, ht] at hcall
    cases hcall
    exact ⟨hord, by rw [hdrop]; rfl⟩
  | write source =>
    obtain ⟨t', ht, hord, hend⟩ := write_eq halloc h source
    rw [call, ht] at hcall
    cases hcall
    exact ⟨hord, by rw [hend]; rfl⟩
  | fromfile len reads =>
    obtain ⟨⟨t', n⟩, ht, heq⟩ := Option.map_eq_some_iff.mp hcall
    cases heq
    obtain ⟨hord, hend, rfl⟩ := fromfile_eq halloc h ht
    exact ⟨hord, by rw [hend]; rfl⟩
  | tofile len writes =>
    obtain ⟨⟨t', out⟩, ht, heq⟩ := Option.map_eq_some_iff.mp hcall
    cases heq
    obtain ⟨hord, hend, hout⟩ := tofile_eq halloc h ht
    exact ⟨hord, by rw [hend, hout]; rfl⟩
  | searchchr ch =>
    cases hcall
    exact ⟨h, by rw [searchchr_eq h]; rfl⟩

/-- A call that needs no file returns where the one on a queue does. -/
theorem call_returns (halloc : 0 < allocationsize) (h : Ordered allocationsize s) {c : Call}
    (hc : c.Memory) : (call allocationsize s c).isSome = (Queue.call s.contents c).isSome := by
  cases c with
  | peek len => rfl
  | skip len =>
    rw [← (skip_eq halloc h len).1, call, Option.isSome_map, Option.isSome_map]
  | read len =>
    obtain ⟨t', ht, -⟩ := read_eq halloc h len
    rw [call, ht]
    rfl
  | write source =>
    obtain ⟨t', ht, -⟩ := write_eq halloc h source
    rw [call, ht]
    rfl
  | fromfile => exact hc.elim
  | tofile => exact hc.elim
  | searchchr ch => rfl

theorem size_eq (h : Ordered allocationsize s) : s.size = s.contents.length := by
  have hle := h.ptr_le
  unfold size contents
  rw [List.length_drop]
  rw [List.length_flatten] at hle ⊢
  omega

theorem contents_of_empty (h : s.empty = true) : s.contents = [] := by
  unfold contents
  rw [List.isEmpty_iff.mp h]
  exact List.drop_nil

/-- `empty` is right unless a block without bytes is all there is. -/
theorem empty_iff (h : Ordered allocationsize s) :
    (s.empty = true ↔ s.contents = []) ↔ s.buffer ≠ [[]] := by
  constructor
  · intro hiff hs
    have hnil : s.contents = [] := by
      unfold contents
      rw [hs]
      exact List.drop_nil
    have hempty := hiff.mpr hnil
    rw [empty, hs] at hempty
    cases hempty
  · intro hs
    refine ⟨contents_of_empty, fun hnil => ?_⟩
    cases hb : s.buffer with
    | nil =>
      rw [empty, hb]
      rfl
    | cons b bs =>
      exfalso
      have hlen := congrArg List.length hnil
      unfold contents at hlen
      rw [hb, List.length_drop, List.flatten_cons, List.length_append, List.length_nil] at hlen
      rcases h.front b bs hb with hlt | ⟨-, rfl, rfl⟩
      · omega
      · exact hs hb

end

/-- Calls one after the other. -/
def run (allocationsize : Nat) : IOBuffer → List Call → Option (IOBuffer × List Result)
  | s, [] => some (s, [])
  | s, c :: cs =>
    (call allocationsize s c).bind fun r =>
      (run allocationsize r.1 cs).map fun t => (t.1, r.2 :: t.2)

def Queue.run : Str → List Call → Option (Str × List Result)
  | q, [] => some (q, [])
  | q, c :: cs => (Queue.call q c).bind fun r => (Queue.run r.1 cs).map fun t => (t.1, r.2 :: t.2)

theorem run_refines {allocationsize : Nat} (halloc : 0 < allocationsize) {s t : IOBuffer}
    (h : Ordered allocationsize s) {calls : List Call} {results : List Result}
    (hrun : run allocationsize s calls = some (t, results)) :
    Ordered allocationsize t ∧ Queue.run s.contents calls = some (t.contents, results) := by
  induction calls generalizing s results with
  | nil =>
    cases hrun
    exact ⟨h, rfl⟩
  | cons c cs ih =>
    obtain ⟨⟨s', r⟩, hcall, hrest⟩ := Option.bind_eq_some_iff.mp hrun
    obtain ⟨⟨t', rs⟩, hrun', heq⟩ := Option.map_eq_some_iff.mp hrest
    cases heq
    obtain ⟨hord, hqueue⟩ := call_refines halloc h hcall
    obtain ⟨hend, hqueues⟩ := ih hord hrun'
    refine ⟨hend, ?_⟩
    rw [Queue.run, hqueue, Option.bind_some, hqueues]
    rfl

/-- The new buffer. -/
def init : IOBuffer := ⟨[], 0⟩

theorem init_ordered (allocationsize : Nat) : Ordered allocationsize init :=
  ⟨fun _ hb => (by cases hb), fun _ hb => (by cases hb), fun _ => rfl,
    fun _ _ hb => (by cases hb)⟩

/-- Every sequence of calls does what a queue of bytes does. -/
theorem run_fifo {allocationsize : Nat} (halloc : 0 < allocationsize) {calls : List Call}
    {t : IOBuffer} {results : List Result}
    (hrun : run allocationsize init calls = some (t, results)) :
    Queue.run [] calls = some (t.contents, results) ∧
      t.size = t.contents.length ∧
      (∀ b ∈ t.buffer, b.length ≤ allocationsize) ∧
      (t.empty = true → t.contents = []) ∧
      ∀ c : Call, c.Memory →
        (call allocationsize t c).isSome = (Queue.call t.contents c).isSome := by
  obtain ⟨hord, hqueue⟩ := run_refines halloc (init_ordered allocationsize) hrun
  exact ⟨hqueue, size_eq hord, hord.bounded, contents_of_empty,
    fun c hc => call_returns halloc hord hc⟩

/-- Blocks of two bytes: five bytes in, four out. -/
def fiveBytes : List Call :=
  [.write [1, 2, 3], .fromfile 2 [.eintr, .got [4], .got [5]], .tofile 3 [.wrote 2, .wrote 1],
    .read 1]

theorem fiveBytes_run : run 2 init fiveBytes =
    some (⟨[[5]], 0⟩, [.done, .number 2, .bytes [1, 2, 3], .bytes [4]]) := by
  decide +kernel

theorem fiveBytes_fifo : Queue.run [] fiveBytes =
    some ([5], [.done, .number 2, .bytes [1, 2, 3], .bytes [4]]) :=
  (run_fifo (by decide) fiveBytes_run).1

/-- After any calls, `empty` is right but for a single block without bytes. -/
theorem empty_exact {allocationsize : Nat} (halloc : 0 < allocationsize) {calls : List Call}
    {t : IOBuffer} {results : List Result}
    (hrun : run allocationsize init calls = some (t, results)) :
    (t.empty = true ↔ t.size = 0) ↔ t.buffer ≠ [[]] := by
  obtain ⟨hord, -⟩ := run_refines halloc (init_ordered allocationsize) hrun
  have hsize : t.size = 0 ↔ t.contents = [] := by
    rw [size_eq hord, Int.natCast_eq_zero, List.length_eq_zero_iff]
  rw [hsize]
  exact empty_iff hord

theorem fiveBytes_empty : (empty ⟨[[5]], 0⟩ = true ↔ size ⟨[[5]], 0⟩ = 0) ↔
    ([[5]] : List Str) ≠ [[]] :=
  empty_exact (by decide) fiveBytes_run

/-- A read at the end of a file leaves a block without bytes. -/
example : run 2 init [.fromfile 2 [.got []]] = some (⟨[[]], 0⟩, [.number 0]) ∧
    empty ⟨[[]], 0⟩ = false ∧ size ⟨[[]], 0⟩ = 0 := by
  decide +kernel

end IOBuffer

end Tuxbox.Enigma
