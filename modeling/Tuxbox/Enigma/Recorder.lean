import Tuxbox.Lib.Bytes
import Tuxbox.Lib.Run

/-!
# The recorder of enigma

The thread of `eDVBRecorder` reads a transport stream into a buffer, puts PAT and
PMT sections in between, and writes the buffer to files that are split by size, or
by slices under a permanent timeshift.
-/

namespace Tuxbox.Enigma

inductive Hardware where
  | dbox
  | dreambox
  deriving DecidableEq

/-- `RECORD_BUFFERSIZE` -/
def recordBuffersize : Hardware → Nat
  | .dbox => 262072
  | .dreambox => 524144

def sectionLength (buf : Str) : Nat :=
  ((buf.getD 1 0).toNat <<< 8 ||| (buf.getD 2 0).toNat) &&& 0x0fff

/-- The raw data of a PAT or PMT. -/
structure RawSection where
  raw : Str
  complete : raw.length = sectionLength raw + 3

def tsHeader (pusi : Bool) (pid scrmbl adap : Nat) (cc : UInt32) : Str :=
  [0x47, UInt8.ofNat (pusi.toNat <<< 6 ||| pid >>> 8), UInt8.ofNat pid,
    UInt8.ofNat (scrmbl <<< 6 ||| adap <<< 4 ||| (cc &&& 0x0f).toNat)]

/-- The packets of the loop of `section2ts`, and the continuity counter after it. -/
def sectionPackets (pusi : Bool) (src : Str) (pid : Nat) (cc : UInt32) : Str × UInt32 :=
  if src = [] then ([], cc)
  else
    let cplen := if pusi then 183 else 184
    let pointerField := if pusi then [0x00] else []
    let rest := sectionPackets false (src.drop cplen) pid (cc + 1)
    (tsHeader pusi pid 0 1 cc ++ pointerField ++ src.take cplen ++ rest.1, rest.2)
termination_by src.length
decreasing_by
  have : 0 < src.length := List.length_pos_iff.mpr ‹_›
  cases pusi <;> simp <;> omega

def section2ts (s : RawSection) (pid : Nat) (cc : UInt32) : Str × UInt32 :=
  let dest := sectionPackets true s.raw pid cc
  let cplen := dest.1.length % 188
  (if cplen = 0 then dest.1 else dest.1 ++ List.replicate (188 - cplen) 0xff, dest.2)

/-- What a call of `write` gives: `EINTR`, another error, or a number of bytes. -/
inductive WriteResult where
  | eintr
  | failed
  | wrote (n : Nat)
  deriving DecidableEq

/-- The file that is written: its contents if it could be opened, and `size`. -/
structure Outfd where
  contents : Option Str
  size : Int
  deriving DecidableEq

/-- Both loops of `flushBuffer`: a write is short if it stores less than `limit` of
what is pending, the short one after `retrycount` others is an error. The results
are those of all calls of `write` the loop makes. -/
def writeLoop (limit : Str → Nat) : Nat → Outfd → Str → List WriteResult → Option (Outfd × Bool)
  | _, o, pending, [] => if pending = [] then some (o, true) else none
  | retrycount, o, pending, r :: rs =>
    if pending = [] then none
    else
      match r, o.contents with
      | .eintr, _ => writeLoop limit retrycount o pending rs
      | .failed, _ => if rs = [] then some (o, false) else none
      | .wrote _, none => none
      | .wrote n, some c =>
        let contents := some (c ++ pending.take n)
        if pending.length < n then none
        else if n < limit pending ∧ retrycount = 0 then
          if rs = [] then some (⟨contents, o.size⟩, false) else none
        else
          writeLoop limit (if n < limit pending then retrycount - 1 else retrycount)
            ⟨contents, o.size + n⟩ (pending.drop n) rs

/-- How many of the writes are short. -/
def shortWrites (limit : Str → Nat) : Str → List WriteResult → Nat
  | _, [] => 0
  | pending, .wrote n :: rs =>
    (if n < limit pending then 1 else 0) + shortWrites limit (pending.drop n) rs
  | pending, _ :: rs => shortWrites limit pending rs

section writeLoop
variable {limit : Str → Nat} {retrycount : Nat} {o o' : Outfd} {pending : Str}
  {rs : List WriteResult}

/-- The file is at least as long as `size` says. -/
def Outfd.Counted (o : Outfd) : Prop :=
  ∀ contents : Str, o.contents = some contents → o.size ≤ contents.length

@[simp] theorem Outfd.counted_some {contents : Str} {size : Int} :
    Outfd.Counted ⟨some contents, size⟩ ↔ size ≤ contents.length :=
  ⟨fun h => h contents rfl, fun h _ hc => Option.some_inj.mp hc ▸ h⟩

@[simp] theorem Outfd.counted_none {size : Int} : Outfd.Counted ⟨none, size⟩ := by
  simp [Outfd.Counted]

theorem writeLoop_stored (h : writeLoop limit retrycount o pending rs = some (o', true)) :
    o'.contents = o.contents.map (· ++ pending) ∧ o'.size = o.size + pending.length := by
  induction rs generalizing retrycount o pending with
  | nil =>
    simp only [writeLoop] at h
    split at h
    · rename_i hp
      cases h
      simp [hp]
    · cases h
  | cons r rs ih =>
    simp only [writeLoop] at h
    split at h
    · cases h
    split at h
    · exact ih h
    · split at h <;> cases h
    · cases h
    · rename_i n c hc
      split at h
      · cases h
      split at h
      · split at h <;> cases h
      · obtain ⟨hcontents, hsize⟩ := ih h
        rw [hcontents, hsize, hc, List.length_drop]
        constructor
        · simp
        · dsimp only
          omega

theorem writeLoop_opened (h : writeLoop limit retrycount o pending rs = some (o', true))
    (hp : pending ≠ []) : o.contents.isSome = true := by
  induction rs generalizing retrycount with
  | nil => simp [writeLoop, hp] at h
  | cons r rs ih =>
    simp only [writeLoop, hp, if_false] at h
    split at h
    · exact ih h
    · split at h <;> cases h
    · cases h
    · rename_i hc
      rw [hc]
      rfl

theorem writeLoop_counted {b : Bool} (ho : o.Counted)
    (h : writeLoop limit retrycount o pending rs = some (o', b)) : o'.Counted := by
  induction rs generalizing retrycount o pending with
  | nil =>
    simp only [writeLoop] at h
    split at h
    · cases h
      exact ho
    · cases h
  | cons r rs ih =>
    simp only [writeLoop] at h
    split at h
    · cases h
    split at h
    · exact ih ho h
    · split at h <;> cases h
      exact ho
    · cases h
    · rename_i n c hc
      have hle := ho c hc
      split at h
      · cases h
      split at h
      · split at h <;> cases h
        simp only [Outfd.counted_some, List.length_append]
        omega
      · apply ih _ h
        simp only [Outfd.counted_some, List.length_append, List.length_take]
        omega

/-- A loop writes all it is given unless a write fails or too many are short. -/
theorem writeLoop_iff {b : Bool} (h : writeLoop limit retrycount o pending rs = some (o', b)) :
    b = true ↔ .failed ∉ rs ∧ shortWrites limit pending rs ≤ retrycount := by
  induction rs generalizing retrycount o pending with
  | nil =>
    simp only [writeLoop] at h
    split at h
    · cases h
      simp [shortWrites]
    · cases h
  | cons r rs ih =>
    simp only [writeLoop] at h
    split at h
    · cases h
    split at h
    · simpa [shortWrites] using ih h
    · split at h <;> cases h
      simp
    · cases h
    · rename_i n c hc
      simp only [shortWrites, List.mem_cons, reduceCtorEq, false_or]
      split at h
      · cases h
      split at h
      · rename_i hshort
        split at h <;> cases h
        simp [hshort.1, hshort.2]
      · rename_i hmore
        rw [ih h]
        split_ifs at hmore ⊢ with hn
        · have : retrycount ≠ 0 := fun h0 => hmore ⟨hn, h0⟩
          apply and_congr_right'
          omega
        · simp

end writeLoop

inductive RecorderState where
  | stopped
  | running
  | error
  deriving DecidableEq

/-- Where the thread is: in its loop, or before one of the sections of `PatPmtWrite`. -/
inductive ThreadAt where
  | loop
  | pat
  | pmt
  deriving DecidableEq

/-- Why `openFile` has closed a file. -/
inductive Closing where
  | split
  | slice
  deriving DecidableEq

/-- `eDVBRecorder`, `bufptr` being the length of `buf`. Beside it: the files that are
finished, whether an error was reported, all that was read and inserted, and whether a
section has overrun `secbuf`. -/
structure Recorder where
  splitsize : Int
  outfd : Outfd
  buf : Str
  state : RecorderState
  thread : ThreadAt
  patCC : UInt32
  pmtCC : UInt32
  finished : List (Closing × Str)
  reported : Bool
  arrived : Str
  overrun : Bool
  deriving DecidableEq

/-- What a call of `flushBuffer` meets: the results of the two loops of writes, the
permanent timeshift and its `CheckSlice`, and whether `openFile` gets a file. -/
structure Flush where
  writes : List WriteResult
  timeshifting : Bool
  slice : Bool
  opened : Bool
  rest : List WriteResult
  deriving DecidableEq

namespace Recorder

def error (s : Recorder) : Recorder := { s with state := .error, reported := true }

def openFile (s : Recorder) (closing : Closing) (opened : Bool) : Recorder :=
  { s with
    outfd := ⟨if opened then some [] else none, 0⟩
    finished := s.finished ++ (s.outfd.contents.map (closing, ·)).toList }

/-- After `open`, which reports that there is no file. -/
def opened (splitsize : Int) (opened : Bool) : Recorder :=
  ⟨splitsize, ⟨if opened then some [] else none, 0⟩, [], .stopped, .loop, 0, 0, [], !opened, [],
    false⟩

def towrite (s : Recorder) : Int :=
  if s.splitsize - s.outfd.size > s.buf.length then s.buf.length
  else s.splitsize - s.outfd.size

def firstLoop (s : Recorder) (f : Flush) : Option (Outfd × Bool) :=
  writeLoop (fun _ => s.towrite.toNat) 5 s.outfd (s.buf.take s.towrite.toNat) f.writes

/-- `dosplit`, after the first loop. -/
def dosplit (s : Recorder) (f : Flush) : Bool :=
  if f.timeshifting then f.slice else decide (s.outfd.size ≥ s.splitsize)

def closing (f : Flush) : Closing := if f.timeshifting then .slice else .split

/-- `flushBuffer`, from the decision to split on; `written` bytes are written. -/
def flushSplit (s : Recorder) (written : Nat) (f : Flush) : Option (Recorder × Bool) :=
  if s.dosplit f then
    let s := s.openFile (closing f) f.opened
    if f.opened then
      match writeLoop List.length 5 s.outfd (s.buf.drop written) f.rest with
      | none => none
      | some (o, false) => some ({ s with outfd := o }.error, false)
      | some (o, true) => some ({ s with outfd := o, buf := [] }, true)
    else some (s.error, false)
  else some ({ s with buf := [] }, true)

def flushBuffer (s : Recorder) (f : Flush) : Option (Recorder × Bool) :=
  if s.buf = [] then some (s, true)
  else
    match s.firstLoop f with
    | none => none
    | some (o, false) => some ({ s with outfd := o }.error, false)
    | some (o, true) => { s with outfd := o }.flushSplit s.towrite.toNat f

def store (s : Recorder) (data : Str) : Recorder :=
  { s with buf := s.buf ++ data, arrived := s.arrived ++ data }

/-- The buffer of `writeSection`. -/
def secbufSize : Nat := 4300

/-- `section2ts` into `secbuf`. -/
def fillSecbuf (s : Recorder) (secbuf : Str) : Recorder :=
  if secbuf.length ≤ secbufSize then s else { s with overrun := true }

/-- The result of `flushBuffer` is not looked at. -/
def writeSection (hw : Hardware) (s : Recorder) (data : Option RawSection) (pid : Nat)
    (cc : UInt32) (f : Flush) : Option (Recorder × UInt32) :=
  match data with
  | none => some (s, cc)
  | some data =>
    let secbuf := section2ts data pid cc
    let s := s.fillSecbuf secbuf.1
    if secbuf.1 = [] then some (s, secbuf.2)
    else if s.buf.length + secbuf.1.length ≥ recordBuffersize hw then
      (s.flushBuffer f).map fun r => (r.1.store secbuf.1, secbuf.2)
    else some (s.store secbuf.1, secbuf.2)

end Recorder

/-- The steps of the thread, and the calls of `start` and `stop`. -/
inductive RecorderStep where
  | start
  | insertPat (data : Option RawSection) (f : Flush)
  | insertPmt (data : Option RawSection) (pmtpid : Nat) (f : Flush)
  | read (data : Str) (writePatPmt : Bool) (f : Flush)
  | readError
  | stop (f : Flush)

namespace Recorder

/-- `none` where the step is not one of the thread's next ones, or the results do
not fit the calls of `read` and `write`. -/
def step (hw : Hardware) (s : Recorder) : RecorderStep → Option Recorder
  | .start =>
    if s.thread ≠ .loop then none
    else if s.state = .running then some s
    else some { s with state := .running, thread := .pat }
  | .insertPat data f =>
    if s.thread ≠ .pat then none
    else (s.writeSection hw data 0 s.patCC f).map fun r =>
      { r.1 with patCC := r.2, thread := .pmt }
  | .insertPmt data pmtpid f =>
    if s.thread ≠ .pmt then none
    else (s.writeSection hw data pmtpid s.pmtCC f).map fun r =>
      { r.1 with pmtCC := r.2, thread := .loop }
  | .read data writePatPmt f =>
    if s.thread ≠ .loop ∨ s.state ≠ .running then none
    else if data.length > min (recordBuffersize hw - s.buf.length) 65424 then none
    else
      let s := s.store data
      if writePatPmt then some { s with thread := .pat }
      else if s.buf.length ≥ recordBuffersize hw then (s.flushBuffer f).map (·.1)
      else some s
  | .readError =>
    if s.thread ≠ .loop ∨ s.state ≠ .running then none else some s.error
  | .stop f =>
    if s.thread ≠ .loop then none
    else if s.state = .stopped then some s
    else (flushBuffer { s with state := .stopped } f).map (·.1)

/-- All that was written to files, in order. -/
def files (s : Recorder) : Str := s.finished.flatMap (·.2) ++ s.outfd.contents.getD []

/-- Nothing is lost, as long as no error is reported. -/
def Kept (s : Recorder) : Prop := s.reported = false → s.files ++ s.buf = s.arrived

/-- The files that were finished without timeshift have the split size. -/
def Exact (s : Recorder) : Prop :=
  ∀ contents : Str, (Closing.split, contents) ∈ s.finished → (contents.length : Int) = s.splitsize

structure Sound (hw : Hardware) (s : Recorder) : Prop where
  bounded : s.buf.length ≤ recordBuffersize hw
  inside : s.overrun = false
  kept : s.Kept
  exact : s.Exact

def restLoop (s : Recorder) (f : Flush) : Option (Outfd × Bool) :=
  writeLoop List.length 5 ⟨some [], 0⟩ (s.buf.drop s.towrite.toNat) f.rest

/-- The first loop writes all it is given. -/
def FirstStores (s : Recorder) (f : Flush) : Prop :=
  let towrite := s.towrite.toNat
  .failed ∉ f.writes ∧ shortWrites (fun _ => towrite) (s.buf.take towrite) f.writes ≤ 5

/-- The second loop does. -/
def RestStores (s : Recorder) (f : Flush) : Prop :=
  .failed ∉ f.rest ∧ shortWrites List.length (s.buf.drop s.towrite.toNat) f.rest ≤ 5

/-- The first loop gets to the split size, or the timeshift to a new slice. -/
def Splits (s : Recorder) (f : Flush) : Prop :=
  if f.timeshifting then f.slice = true else s.splitsize ≤ s.outfd.size + s.buf.length

/-- No error is met. -/
def Stores (s : Recorder) (f : Flush) : Prop :=
  s.FirstStores f ∧ (s.Splits f → f.opened = true ∧ s.RestStores f)

/-- Without a new slice, a timeshift has room for the buffer; without timeshift, a
file that is finished has at most the split size, and `size` is right for it. -/
def FlushOk (s : Recorder) (f : Flush) : Prop :=
  s.buf ≠ [] → s.FirstStores f →
    (f.timeshifting = true → f.slice = false → s.reported = false →
      s.buf.length ≤ s.splitsize - s.outfd.size) ∧
    (f.timeshifting = false → s.splitsize ≤ s.outfd.size + s.buf.length →
      ∀ contents : Str, s.outfd.contents = some contents →
        (contents.length : Int) = s.outfd.size ∧ s.outfd.size ≤ s.splitsize)

/-- The packets of a section fit `secbuf`. A section for which the buffer has no room
makes `flushBuffer` empty the buffer first. -/
def InsertOk (hw : Hardware) (s : Recorder) (data : Option RawSection) (pid : Nat)
    (cc : UInt32) (f : Flush) : Prop :=
  ∀ sec, data = some sec →
    let len := (section2ts sec pid cc).1.length
    len ≤ secbufSize ∧ (recordBuffersize hw ≤ s.buf.length + len →
      s.FlushOk f ∧ (recordBuffersize hw < s.buf.length + len → s.Stores f))

def Ok (hw : Hardware) (s : Recorder) : RecorderStep → Prop
  | .start => True
  | .insertPat data f => s.InsertOk hw data 0 s.patCC f
  | .insertPmt data pmtpid f => s.InsertOk hw data pmtpid s.pmtCC f
  | .read data writePatPmt f =>
    writePatPmt = false → recordBuffersize hw ≤ s.buf.length + data.length →
      (s.store data).FlushOk f
  | .readError => True
  | .stop f => s.state ≠ .stopped → s.FlushOk f

section flushBuffer
variable {hw : Hardware} {s s' : Recorder} {f : Flush} {o o' : Outfd} {b : Bool}

/-- What `flushBuffer` can do. -/
inductive Flushed (s : Recorder) (f : Flush) : Recorder → Bool → Prop
  | empty : s.buf = [] → Flushed s f s true
  | failed (o : Outfd) : s.buf ≠ [] → s.firstLoop f = some (o, false) →
      Flushed s f { s with outfd := o }.error false
  | unsplit (o : Outfd) : s.buf ≠ [] → s.firstLoop f = some (o, true) → ¬ s.Splits f →
      Flushed s f { s with outfd := o, buf := [] } true
  | unopened (o : Outfd) : s.buf ≠ [] → s.firstLoop f = some (o, true) → s.Splits f →
      f.opened = false → Flushed s f ({ s with outfd := o }.openFile (closing f) false).error false
  | restFailed (o o' : Outfd) : s.buf ≠ [] → s.firstLoop f = some (o, true) → s.Splits f →
      f.opened = true → s.restLoop f = some (o', false) →
      Flushed s f { { s with outfd := o }.openFile (closing f) true with outfd := o' }.error false
  | split (o o' : Outfd) : s.buf ≠ [] → s.firstLoop f = some (o, true) → s.Splits f →
      f.opened = true → s.restLoop f = some (o', true) →
      Flushed s f
        { { s with outfd := o }.openFile (closing f) true with outfd := o', buf := [] } true

theorem towrite_pos (h : s.buf ≠ []) :
    s.buf.length ≤ s.towrite.toNat ↔ (s.buf.length : Int) ≤ s.splitsize - s.outfd.size := by
  have := List.length_pos_iff.mpr h
  unfold towrite
  split <;> omega

theorem dosplit_iff (h : s.firstLoop f = some (o, true)) :
    ({ s with outfd := o }.dosplit f = true) ↔ s.Splits f := by
  obtain ⟨-, hsize⟩ := writeLoop_stored h
  unfold dosplit Splits
  cases f.timeshifting
  · simp only [hsize, List.length_take, decide_eq_true_eq, if_false, Bool.false_eq_true]
    unfold towrite
    split <;> omega
  · rfl

theorem flushed (h : s.flushBuffer f = some (s', b)) : Flushed s f s' b := by
  unfold flushBuffer at h
  split at h
  · rename_i hb
    cases h
    exact .empty hb
  rename_i hb
  split at h
  · cases h
  · rename_i o hfirst
    cases h
    exact .failed o hb hfirst
  · rename_i o hfirst
    have hsplit := dosplit_iff (o := o) hfirst
    unfold flushSplit at h
    split at h
    · rename_i hd
      have hd := hsplit.mp hd
      dsimp only at h
      split at h
      · rename_i ho
        rw [ho] at h
        split at h
        · cases h
        · rename_i o' hrest
          cases h
          exact .restFailed o o' hb hfirst hd ho hrest
        · rename_i o' hrest
          cases h
          exact .split o o' hb hfirst hd ho hrest
      · rename_i ho
        have ho := Bool.eq_false_iff.mpr ho
        rw [ho] at h
        cases h
        exact .unopened o hb hfirst hd ho
    · rename_i hd
      cases h
      exact .unsplit o hb hfirst (mt hsplit.mpr hd)

theorem flushBuffer_counted (hs : s.outfd.Counted) (h : s.flushBuffer f = some (s', b)) :
    s'.outfd.Counted := by
  cases flushed h with
  | empty => exact hs
  | failed o _ hfirst | unsplit o _ hfirst => exact writeLoop_counted hs hfirst
  | unopened => exact Outfd.counted_none
  | restFailed o o' _ _ _ _ hrest | split o o' _ _ _ _ hrest =>
     exact writeLoop_counted (by simp) hrest

theorem flushBuffer_buf (h : s.flushBuffer f = some (s', b)) :
    s'.buf = if b = true then [] else s.buf := by
  cases flushed h with
  | empty hb => exact hb
  | failed => rfl
  | unsplit => rfl
  | unopened => rfl
  | restFailed => rfl
  | split => rfl

theorem flushBuffer_iff (hb : s.buf ≠ []) (h : s.flushBuffer f = some (s', b)) :
    b = true ↔ s.Stores f := by
  have first {o : Outfd} {b : Bool} (h : s.firstLoop f = some (o, b)) :
      b = true ↔ s.FirstStores f := writeLoop_iff h
  have rest {o : Outfd} {b : Bool} (h : s.restLoop f = some (o, b)) :
      b = true ↔ s.RestStores f := writeLoop_iff h
  cases flushed h with
  | empty he => exact absurd he hb
  | failed o _ hfirst =>
    apply iff_of_false Bool.false_ne_true
    exact fun hs => Bool.false_ne_true ((first hfirst).mpr hs.1)
  | unsplit o _ hfirst hd => exact iff_of_true rfl ⟨(first hfirst).mp rfl, fun h => absurd h hd⟩
  | unopened o _ hfirst hd ho =>
    apply iff_of_false Bool.false_ne_true
    intro hs
    rw [(hs.2 hd).1] at ho
    cases ho
  | restFailed o o' _ _ hd _ hrest =>
    apply iff_of_false Bool.false_ne_true
    exact fun hs => Bool.false_ne_true ((rest hrest).mpr (hs.2 hd).2)
  | split o o' _ hfirst hd ho hrest =>
    exact iff_of_true rfl ⟨(first hfirst).mp rfl, fun _ => ⟨ho, (rest hrest).mp rfl⟩⟩

theorem files_firstLoop (h : s.firstLoop f = some (o, true)) :
    o.contents.getD [] = s.outfd.contents.getD [] ++ s.buf.take s.towrite.toNat := by
  rw [(writeLoop_stored h).1]
  cases hc : s.outfd.contents with
  | some contents => rfl
  | none =>
    by_cases hp : s.buf.take s.towrite.toNat = []
    · rw [hp]
      rfl
    · have := writeLoop_opened h hp
      rw [hc] at this
      cases this

/-- Without a split the buffer is dropped from where the first loop ends. -/
theorem kept_unsplit (hs : s.Kept) (hb : s.buf ≠ []) (h : s.firstLoop f = some (o, true)) :
    Kept { s with outfd := o, buf := [] } ↔
      (s.reported = false → (s.buf.length : Int) ≤ s.splitsize - s.outfd.size) := by
  unfold Kept at hs ⊢
  apply imp_congr_right
  intro hr
  rw [← hs hr, ← towrite_pos hb]
  simp only [files, files_firstLoop h, List.append_nil, List.append_assoc]
  rw [List.append_cancel_left_eq, List.append_cancel_left_eq]
  constructor
  · intro htake
    have := congrArg List.length htake
    rw [List.length_take] at this
    omega
  · exact List.take_of_length_le

theorem kept_split (hs : s.Kept) (h : s.firstLoop f = some (o, true))
    (hrest : s.restLoop f = some (o', true)) {closing : Closing} :
    Kept { { s with outfd := o }.openFile closing true with outfd := o', buf := [] } := by
  intro hr
  have hclosed : (o.contents.map (closing, ·)).toList.flatMap (·.2) = o.contents.getD [] := by
    cases o.contents <;> simp
  have hrest' := (writeLoop_stored hrest).1
  have hall := hs hr
  simp only [files, openFile, List.flatMap_append, hclosed, files_firstLoop h, hrest'] at hall ⊢
  simp only [Option.map_some, Option.getD_some, List.nil_append, List.append_nil,
    List.append_assoc, List.take_append_drop] at hall ⊢
  exact hall

theorem exact_openFile (hs : s.Exact) (hI : s.outfd.Counted)
    (h : s.firstLoop f = some (o, true)) (hd : s.Splits f) (ho : Bool) :
    Exact ({ s with outfd := o }.openFile (closing f) ho) ↔
      (f.timeshifting = false → s.splitsize ≤ s.outfd.size + s.buf.length →
        ∀ contents : Str, s.outfd.contents = some contents →
          (contents.length : Int) = s.outfd.size ∧ s.outfd.size ≤ s.splitsize) := by
  unfold Exact at hs ⊢
  simp only [openFile, (writeLoop_stored h).1, List.mem_append]
  cases ht : f.timeshifting with
  | true =>
    simpa [closing, ht] using hs
  | false =>
    have hd : s.splitsize ≤ s.outfd.size + s.buf.length := by simpa [Splits, ht] using hd
    cases hc : s.outfd.contents with
    | none => simpa using hs
    | some contents =>
      have hcount := hI contents hc
      have hlen : ((contents ++ s.buf.take s.towrite.toNat).length : Int) = s.splitsize ↔
          (contents.length : Int) = s.outfd.size ∧ s.outfd.size ≤ s.splitsize := by
        rw [List.length_append, List.length_take]
        unfold towrite
        split <;> omega
      simp only [closing, ht, Option.map_some, Option.toList_some, List.mem_singleton,
        Bool.false_eq_true, if_false, Prod.mk.injEq, true_and, hd, forall_const, Option.some.injEq,
        forall_eq', or_imp, forall_and, forall_eq, hlen]
      exact and_iff_right hs

theorem flushBuffer_sound_iff (hI : s.outfd.Counted) (hkept : s.Kept) (hexact : s.Exact)
    (h : s.flushBuffer f = some (s', b)) : s'.Kept ∧ s'.Exact ↔ s.FlushOk f := by
  have first {o : Outfd} {b : Bool} (h : s.firstLoop f = some (o, b)) :
      b = true ↔ s.FirstStores f := writeLoop_iff h
  -- a split or a new slice leaves nothing to be dropped
  have room (hd : s.Splits f) : f.timeshifting = true → f.slice = false → s.reported = false →
      (s.buf.length : Int) ≤ s.splitsize - s.outfd.size := by
    intro ht hslice
    rw [Splits, if_pos ht, hslice] at hd
    cases hd
  cases flushed h with
  | empty hb => exact iff_of_true ⟨hkept, hexact⟩ fun hne => absurd hb hne
  | failed o _ hfirst =>
    apply iff_of_true
    · exact ⟨fun hr => (nomatch hr), hexact⟩
    · intro _ hstores
      cases (first hfirst).mpr hstores
  | unsplit o hb hfirst hd =>
    have hstores := (first hfirst).mp rfl
    have hexact' : Exact { s with outfd := o, buf := [] } := hexact
    rw [and_iff_left hexact', kept_unsplit hkept hb hfirst]
    unfold Splits at hd
    cases ht : f.timeshifting with
    | true =>
      have hslice : f.slice = false := by simpa [ht] using hd
      simp [FlushOk, hb, hstores, ht, hslice]
    | false =>
      have hd : s.outfd.size + s.buf.length < s.splitsize := by simpa [ht] using hd
      apply iff_of_true
      · intro
        omega
      · intro _ _
        exact ⟨fun h => (nomatch ht.symm.trans h), fun _ h => absurd h (by omega)⟩
  | unopened o hb hfirst hd ho =>
    have hstores := (first hfirst).mp rfl
    have hexact' := exact_openFile hexact hI hfirst hd false
    rw [FlushOk, imp_iff_right hb, imp_iff_right hstores, and_iff_right (room hd), ← hexact']
    exact and_iff_right fun hr => nomatch hr
  | restFailed o o' hb hfirst hd ho hrest =>
    have hstores := (first hfirst).mp rfl
    have hexact' := exact_openFile hexact hI hfirst hd true
    rw [FlushOk, imp_iff_right hb, imp_iff_right hstores, and_iff_right (room hd), ← hexact']
    exact and_iff_right fun hr => nomatch hr
  | split o o' hb hfirst hd ho hrest =>
    have hstores := (first hfirst).mp rfl
    have hexact' := exact_openFile hexact hI hfirst hd true
    rw [FlushOk, imp_iff_right hb, imp_iff_right hstores, and_iff_right (room hd), ← hexact']
    exact and_iff_right (kept_split hkept hfirst hrest)

end flushBuffer

section steps
variable {hw : Hardware} {s t : Recorder}

theorem sectionPackets_length (pusi : Bool) (src : Str) (pid : Nat) (cc : UInt32) :
    (sectionPackets pusi src pid cc).1.length ≤ src.length + 5 * ((src.length + 182) / 183) := by
  fun_induction sectionPackets pusi src pid cc with
  | case1 => simp
  | case2 pusi src cc hne cplen pointerField rest ih =>
    have hpos := List.length_pos_iff.mpr hne
    rw [List.length_drop] at ih
    simp only [List.length_append, List.length_take]
    have hheader : (tsHeader pusi pid 0 1 cc).length = 4 := rfl
    have hcplen : 183 ≤ cplen := by
      dsimp only [cplen]
      split <;> decide
    have hpointer : pointerField.length ≤ 1 := by
      dsimp only [pointerField]
      split <;> decide
    dsimp only [rest]
    omega

theorem section2ts_length (sec : RawSection) (pid : Nat) (cc : UInt32) :
    (section2ts sec pid cc).1.length < recordBuffersize hw := by
  have hraw : sec.raw.length ≤ 4098 := by
    rw [sec.complete]
    exact Nat.add_le_add_right Nat.and_le_right 3
  have hpackets := sectionPackets_length true sec.raw pid cc
  have hsize : 262072 ≤ recordBuffersize hw := by cases hw <;> decide
  unfold section2ts
  dsimp only
  split
  · omega
  · rw [List.length_append, List.length_replicate]
    omega

theorem section2ts_ne_nil (sec : RawSection) (pid : Nat) (cc : UInt32) :
    (section2ts sec pid cc).1 ≠ [] := by
  have hraw : sec.raw ≠ [] := by
    apply List.length_pos_iff.mp
    rw [sec.complete]
    exact Nat.succ_pos _
  have hpackets : (sectionPackets true sec.raw pid cc).1 ≠ [] := by
    rw [sectionPackets, if_neg hraw]
    exact List.cons_ne_nil _ _
  unfold section2ts
  dsimp only
  split
  · exact hpackets
  · exact List.append_ne_nil_of_left_ne_nil hpackets _

theorem store_kept {data : Str} : (s.store data).Kept ↔ s.Kept := by
  unfold Kept
  apply imp_congr_right
  intro _
  have hfiles : (s.store data).files = s.files := rfl
  rw [hfiles]
  simp only [store]
  rw [← List.append_assoc, List.append_left_inj]

theorem flushBuffer_overrun {f : Flush} {b : Bool} (h : s.flushBuffer f = some (t, b)) :
    t.overrun = s.overrun := by
  cases flushed h <;> rfl

theorem flushBuffer_sound {f : Flush} {b : Bool} (hI : s.outfd.Counted) (hs : s.Sound hw)
    (h : s.flushBuffer f = some (t, b)) : t.Sound hw ↔ s.FlushOk f := by
  have hbounded : t.buf.length ≤ recordBuffersize hw := by
    rw [flushBuffer_buf h]
    split
    · exact Nat.zero_le _
    · exact hs.bounded
  have hinside : t.overrun = false := (flushBuffer_overrun h).trans hs.inside
  rw [← flushBuffer_sound_iff hI hs.kept hs.exact h]
  exact ⟨fun h => ⟨h.kept, h.exact⟩, fun h => ⟨hbounded, hinside, h.1, h.2⟩⟩

theorem writeSection_counted {data : Option RawSection} {pid : Nat} {cc cc' : UInt32} {f : Flush}
    (hI : s.outfd.Counted) (h : s.writeSection hw data pid cc f = some (t, cc')) :
    t.outfd.Counted := by
  unfold writeSection at h
  split at h
  · cases h
    exact hI
  rename_i sec
  have hfill : (s.fillSecbuf (section2ts sec pid cc).1).outfd = s.outfd := by
    unfold fillSecbuf
    split <;> rfl
  rw [← hfill] at hI
  dsimp only at h
  split at h
  · cases h
    exact hI
  split at h
  · obtain ⟨r, hflush, heq⟩ := Option.map_eq_some_iff.mp h
    cases heq
    have hpair : (s.fillSecbuf (section2ts sec pid cc).1).flushBuffer f = some (r.1, r.2) := hflush
    have hcounted : r.1.outfd.Counted := flushBuffer_counted hI hpair
    exact hcounted
  · cases h
    exact hI

theorem writeSection_sound_iff {data : Option RawSection} {pid : Nat} {cc cc' : UInt32}
    {f : Flush} (hI : s.outfd.Counted) (hs : s.Sound hw)
    (h : s.writeSection hw data pid cc f = some (t, cc')) :
    t.Sound hw ↔ s.InsertOk hw data pid cc f := by
  unfold writeSection at h
  split at h
  · cases h
    exact iff_of_true hs fun _ h => nomatch h
  rename_i sec
  have hlen : (section2ts sec pid cc).1.length < recordBuffersize hw := section2ts_length sec pid cc
  dsimp only at h
  rw [if_neg (section2ts_ne_nil sec pid cc)] at h
  simp only [InsertOk, Option.some.injEq, forall_eq']
  generalize (section2ts sec pid cc).1 = secbuf at *
  by_cases hfits : secbuf.length ≤ secbufSize
  swap
  · -- the stack is overrun, whatever comes then
    have hover : t.overrun = true := by
      simp only [fillSecbuf, if_neg hfits] at h
      split at h
      · obtain ⟨r, hflush, heq⟩ := Option.map_eq_some_iff.mp h
        obtain ⟨rfl, -⟩ := Prod.mk.inj heq
        exact flushBuffer_overrun hflush
      · cases h
        rfl
    refine iff_of_false (fun hno => ?_) fun hok => hfits hok.1
    rw [hno.inside] at hover
    cases hover
  simp only [fillSecbuf, if_pos hfits] at h
  rw [and_iff_right hfits]
  split at h
  · rename_i hfull
    obtain ⟨⟨s', b⟩, hflush, heq⟩ := Option.map_eq_some_iff.mp h
    obtain ⟨rfl, -⟩ := Prod.mk.inj heq
    have hb : s.buf ≠ [] := by
      intro hb
      rw [hb, List.length_nil] at hfull
      omega
    have hbuf := flushBuffer_buf hflush
    -- a flush that fails leaves the section to be stored past the buffer
    have hbounded : (s'.store secbuf).buf.length ≤ recordBuffersize hw ↔
        (recordBuffersize hw < s.buf.length + secbuf.length → s.Stores f) := by
      rw [← flushBuffer_iff hb hflush]
      simp only [store, hbuf, List.length_append]
      cases b with
      | true => simpa using hlen.le
      | false => simp
    rw [imp_iff_right hfull, ← flushBuffer_sound_iff hI hs.kept hs.exact hflush, ← hbounded]
    constructor
    · rintro ⟨hle, -, hkept, hexact⟩
      exact ⟨⟨store_kept.mp hkept, hexact⟩, hle⟩
    · rintro ⟨⟨hkept, hexact⟩, hle⟩
      exact ⟨hle, (flushBuffer_overrun hflush).trans hs.inside, store_kept.mpr hkept, hexact⟩
  · rename_i hroom
    cases h
    apply iff_of_true
    · refine ⟨?_, hs.inside, store_kept.mpr hs.kept, hs.exact⟩
      rw [store, List.length_append]
      omega
    · exact fun hfull => absurd hfull hroom

theorem step_counted {a : RecorderStep} (hI : s.outfd.Counted) (h : s.step hw a = some t) :
    t.outfd.Counted := by
  cases a with
  | start =>
    simp only [step] at h
    split_ifs at h <;> cases h
    · exact hI
    · exact hI
  | insertPat data f | insertPmt data pmtpid f =>
    simp only [step, Option.map_eq_some_iff, Option.ite_none_left_eq_some] at h
    obtain ⟨-, r, hr, rfl⟩ := h
    exact writeSection_counted (t := r.1) hI hr
  | read data writePatPmt f =>
    simp only [step, Option.ite_none_left_eq_some] at h
    obtain ⟨-, -, h⟩ := h
    split_ifs at h
    · cases h
      exact hI
    · obtain ⟨r, hr, rfl⟩ := Option.map_eq_some_iff.mp h
      exact flushBuffer_counted (s := s.store data) hI hr
    · cases h
      exact hI
  | readError =>
    simp only [step, Option.ite_none_left_eq_some] at h
    obtain ⟨-, h⟩ := h
    cases h
    exact hI
  | stop f =>
    simp only [step, Option.ite_none_left_eq_some] at h
    obtain ⟨-, h⟩ := h
    split_ifs at h
    · cases h
      exact hI
    · obtain ⟨r, hr, rfl⟩ := Option.map_eq_some_iff.mp h
      exact flushBuffer_counted (s := { s with state := .stopped }) hI hr

/-- A step stays in the buffer, loses nothing and finishes no other file than of the
split size exactly where its condition is met. -/
theorem step_sound_iff (a : RecorderStep) (hI : s.outfd.Counted) (hs : s.Sound hw)
    (h : s.step hw a = some t) : t.Sound hw ↔ s.Ok hw a := by
  cases a with
  | start =>
    simp only [step] at h
    split_ifs at h <;> cases h
    · exact iff_of_true hs trivial
    · exact iff_of_true ⟨hs.bounded, hs.inside, hs.kept, hs.exact⟩ trivial
  | insertPat _ _ | insertPmt _ _ _ =>
    simp only [step, Option.map_eq_some_iff, Option.ite_none_left_eq_some] at h
    obtain ⟨-, r, hr, rfl⟩ := h
    rw [Ok, ← writeSection_sound_iff (t := r.1) hI hs hr]
    exact ⟨fun h => ⟨h.bounded, h.inside, h.kept, h.exact⟩,
      fun h => ⟨h.bounded, h.inside, h.kept, h.exact⟩⟩
  | read data writePatPmt f =>
    simp only [step, Option.ite_none_left_eq_some] at h
    obtain ⟨-, hlen, h⟩ := h
    have hbounded := hs.bounded
    have hread : (s.store data).Sound hw := by
      refine ⟨?_, hs.inside, store_kept.mpr hs.kept, hs.exact⟩
      rw [store, List.length_append]
      omega
    split_ifs at h with hw' hfull
    · cases h
      exact iff_of_true ⟨hread.bounded, hread.inside, hread.kept, hread.exact⟩
        fun hf => by simp [hw'] at hf
    · obtain ⟨r, hr, rfl⟩ := Option.map_eq_some_iff.mp h
      rw [store, List.length_append] at hfull
      simp only [Ok, Bool.eq_false_iff.mpr hw', forall_const, imp_iff_right hfull]
      exact flushBuffer_sound (t := r.1) (s := s.store data) hI hread hr
    · cases h
      apply iff_of_true hread
      intro _ hle
      rw [store, List.length_append] at hfull
      exact absurd hle hfull
  | readError =>
    simp only [step, Option.ite_none_left_eq_some] at h
    obtain ⟨-, h⟩ := h
    cases h
    exact iff_of_true ⟨hs.bounded, hs.inside, fun h => (nomatch h), hs.exact⟩ trivial
  | stop f =>
    simp only [step, Option.ite_none_left_eq_some] at h
    obtain ⟨-, h⟩ := h
    split_ifs at h with hstop
    · cases h
      exact iff_of_true hs fun hne => absurd hstop hne
    · obtain ⟨r, hr, rfl⟩ := Option.map_eq_some_iff.mp h
      rw [Ok, imp_iff_right hstop]
      exact flushBuffer_sound (s := { s with state := .stopped }) (t := r.1) hI
        ⟨hs.bounded, hs.inside, hs.kept, hs.exact⟩ hr

end steps

theorem opened_sound (hw : Hardware) (splitsize : Int) (ok : Bool) :
    (opened splitsize ok).Sound hw := by
  refine ⟨Nat.zero_le _, rfl, ?_, fun _ h => nomatch h⟩
  intro _
  cases ok <;> rfl

theorem opened_counted (splitsize : Int) (ok : Bool) : (opened splitsize ok).outfd.Counted := by
  cases ok <;> simp [opened]

/-- Every state of a run is sound if and only if every step meets its condition. -/
theorem recorded_iff_admitted (hw : Hardware) (splitsize : Int) (ok : Bool)
    (steps : List RecorderStep) :
    Sustains (step hw) (Sound hw) (opened splitsize ok) steps ↔
      Admits (step hw) (Ok hw) (opened splitsize ok) steps :=
  sustains_iff_admits (fun _ _ _ => step_counted) (fun _ a _ => step_sound_iff a)
    (opened_counted splitsize ok) (opened_sound hw splitsize ok) steps

/-- `record_splitsize` of 1: a timeshift that gets no new slice in a buffer of six
packets, five of them fill the file. -/
def droppedPacket : List RecorderStep :=
  let idle : Flush := ⟨[], false, false, false, []⟩
  [.start, .insertPat none idle, .insertPmt none 0 idle,
    .read (List.replicate 1128 0x47) false idle,
    .stop ⟨[.wrote 940], true, false, false, []⟩]

theorem droppedPacket_lost :
    ¬ Sustains (step .dbox) (Sound .dbox) (opened 940 true) droppedPacket := by
  intro h
  have hrun : (runList (step .dbox) (opened 940 true) droppedPacket).map
      (fun s => (s.reported, (s.files ++ s.buf).length, s.arrived.length)) =
      some (false, 940, 1128) := by
    decide +kernel
  obtain ⟨s, hs, hvalues⟩ := Option.map_eq_some_iff.mp hrun
  have hkept := (h.run hs).kept
  simp only [Prod.mk.injEq] at hvalues
  obtain ⟨hr, hwritten, harrived⟩ := hvalues
  rw [hkept hr, harrived] at hwritten
  cases hwritten

end Recorder

end Tuxbox.Enigma
