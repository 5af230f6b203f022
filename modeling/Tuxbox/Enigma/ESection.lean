import Tuxbox.Lib.Bytes
import Tuxbox.Lib.Run
import Mathlib.Data.List.Induction

/-!
# The section reader of enigma

`eSection` sets a filter, gets sections one by one and passes them on; with
`SECREAD_INORDER` only the one with the next number, until a number reaches the
`last_section_number` that its own section has.
-/

namespace Tuxbox.Enigma

def secreadInorder : Nat := 1

def secreadCrc : Nat := 2

def secreadNotimeout : Nat := 4

/-- A call of `sectionFinish`, with what `sectionRead` got since the filter was
set. `allRead` is the call after the last section, `stillOpen` that the filter
has not been closed before it. -/
structure Finish where
  error : Int
  allRead : Bool
  stillOpen : Bool
  passed : List Str
  deriving DecidableEq

/-- `nextSection` is `section` in the source. `handle` is the reader's; `timer`
is the time it is started for, if there is a timer and it runs. -/
structure ESection where
  pid : Int
  tableid : Int
  tableidext : Int
  tableidmask : Int
  flags : Nat
  version : Int
  nextSection : Int
  maxsec : Nat
  handle : Int
  notifier : Bool
  timer : Option (Option Nat)
  buf : Str
  passed : List Str
  finishes : List Finish
  deriving DecidableEq

def sectionNumber (buf : Str) : Nat := (buf.getD 6 0).toNat

def lastSectionNumber (buf : Str) : Nat := (buf.getD 7 0).toNat

def versionByte (buf : Str) : Nat := (buf.getD 5 0).toNat

/-- What a `read` of the demultiplexer gives: bytes, which overwrite the start of
the buffer, or an error. -/
inductive Received where
  | bytes (bs : Str)
  | error (errno : Int)

namespace ESection

def inOrder (s : ESection) : Prop := s.flags &&& secreadInorder ≠ 0

instance (s : ESection) : Decidable s.inOrder := inferInstanceAs (Decidable (_ ≠ _))

/-- The constructor; the contents of the buffer are not set. -/
def create (buf : Str) (pid tableid tableidext version : Int) (flags : Nat) (tableidmask : Int) :
    ESection where
  pid := pid
  tableid := tableid
  tableidext := tableidext
  tableidmask := tableidmask
  flags := flags
  version := version
  nextSection := -1
  maxsec := 0
  handle := -1
  notifier := false
  timer := if flags &&& secreadNotimeout = 0 then some none else none
  buf := buf
  passed := []
  finishes := []

/-- The constructor of `eTable`. -/
def eTable (buf : Str) (pid tableid tableidmask tableidext version : Int) : ESection :=
  create buf pid tableid tableidext version (if pid = 0x14 then 0 else secreadInorder ||| secreadCrc)
    tableidmask

def startTimer (s : ESection) (ms : Nat) : ESection :=
  { s with timer := s.timer.map fun _ => some ms }

def closeFilter (s : ESection) : ESection :=
  if s.handle > 0 then
    { s with notifier := false, timer := s.timer.map fun _ => none, handle := -1 }
  else s

def sectionFinish (s : ESection) (error : Int) (allRead : Bool) : ESection :=
  { s with finishes := s.finishes ++ [⟨error, allRead, s.notifier, s.passed⟩] }

/-- `handle` is what the driver gives for the new filter. Closing the old
filter is the first thing `reader.open` does too. -/
def setFilter (s : ESection) (pid tableid tableidext version : Int) (flags : Nat)
    (tableidmask handle : Int) : ESection :=
  let s := { s with
    pid := pid
    tableid := tableid
    tableidext := tableidext
    version := version
    flags := flags
    tableidmask := tableidmask
    nextSection := -1
    maxsec := 0
    passed := [] }.closeFilter
  let s := { s with handle := handle }
  if handle < 0 then s
  else
    { s with
      timer := if flags &&& secreadNotimeout = 0 then s.timer else none
      notifier := true }

def start (s : ESection) (handle : Int) : ESection :=
  let s :=
    if s.version = -1 then
      s.startTimer <|
        if s.pid = 0x14 then 90000
        else if s.pid = 0x10 then 12000
        else if s.pid = 0x00 then 4000
        else if s.pid = 0x11 then 5000
        else if s.pid = 0x12 then 15000
        else if s.tableid = 0x02 then 4000
        else 10000
    else s
  s.setFilter s.pid s.tableid s.tableidext s.version s.flags s.tableidmask handle

/-- `eSectionReader::read`, with its result. Table ids are compared as bytes. -/
def read (s : ESection) : Received → Int × ESection
  | .error errno => (errno, s)
  | .bytes bs =>
    let s := { s with buf := bs ++ s.buf.drop bs.length }
    let tableid := UInt8.ofInt s.tableid
    let mask := UInt8.ofInt s.tableidmask
    if bs ≠ [] ∧ s.buf.getD 0 0 &&& mask ≠ tableid &&& mask then (-2, s) else (0, s)

/-- What the loop does with one section and whether it goes on; `err` is what
`sectionRead` gives for it. -/
def dataStep (s : ESection) (r : Received) (err : Int) : ESection × Bool :=
  let (ret, s) := s.read r
  if ret ≠ 0 then (s.startTimer 10000, false)
  else
    let s := if s.nextSection = -1 then { s with nextSection := 0 }.startTimer 10000 else s
    let s := { s with maxsec := lastSectionNumber s.buf }
    if s.inOrder ∧ s.nextSection ≠ (sectionNumber s.buf : Int) then (s, false)
    else
      let s := if s.inOrder then { s with nextSection := s.nextSection + 1 } else s
      let s := { s with version := versionByte s.buf, passed := s.passed ++ [s.buf] }
      if err ≠ 0 then (s.closeFilter.sectionFinish (if err > 0 then 0 else err) false, false)
      else if s.inOrder ∧ s.nextSection > (s.maxsec : Int) then
        (s.closeFilter.sectionFinish 0 true, false)
      else (s.startTimer 10000, true)

/-- The loop of `data`, for the sections it reads. -/
def data : ESection → List (Received × Int) → ESection
  | s, [] => s
  | s, (r, err) :: rest =>
    match s.dataStep r err with
    | (s, true) => s.data rest
    | (s, false) => s

def etimedout : Int := 110

def ecanceled : Int := 125

def timeout (s : ESection) : ESection := s.closeFilter.sectionFinish (-etimedout) false

def abort (s : ESection) : ESection :=
  if s.handle > 0 then s.closeFilter.sectionFinish (-ecanceled) false else s

def setContext (s : ESection) : ESection :=
  { s with timer := if s.flags &&& secreadNotimeout = 0 then some none else none }

end ESection

/-- `data` is called by the notifier, as long as there is one. -/
inductive SectionAct where
  | start (handle : Int)
  | setFilter (pid tableid tableidext version : Int) (flags : Nat) (tableidmask handle : Int)
  | data (reads : List (Received × Int))
  | timeout
  | abort
  | setContext

def sectionStep (s : ESection) : SectionAct → Option ESection
  | .start handle => some (s.start handle)
  | .setFilter pid tableid tableidext version flags tableidmask handle =>
    some (s.setFilter pid tableid tableidext version flags tableidmask handle)
  | .data reads => if s.notifier then some (s.data reads) else none
  | .timeout => some s.timeout
  | .abort => some s.abort
  | .setContext => some s.setContext

/-! ## What is passed on -/

/-- The sections are those with the numbers from 0 on, in order; the last one has
at least the last number it names, and no one before has, unless the filter
could not be closed. -/
def InSequence (stillOpen : Bool) (passed : List Str) : Prop :=
  passed.map sectionNumber = List.range passed.length ∧
  ∃ earlier last, passed = earlier ++ [last] ∧ lastSectionNumber last ≤ sectionNumber last ∧
    (stillOpen = false → ∀ p ∈ earlier, sectionNumber p < lastSectionNumber p)

/-- If they all name the same last number, it is the number of the last one. -/
theorem InSequence.last {stillOpen : Bool} {passed : List Str} (h : InSequence stillOpen passed)
    (hclosed : stillOpen = false) {n : Nat} (hn : ∀ p ∈ passed, lastSectionNumber p = n) :
    passed.map sectionNumber = List.range (n + 1) := by
  obtain ⟨hnumbers, earlier, last, rfl, hlast, hearlier⟩ := h
  simp only [List.map_append, List.map_cons, List.map_nil, List.length_append, List.length_singleton,
    List.range_succ] at hnumbers
  obtain ⟨hinit, hnum⟩ := List.append_inj' hnumbers rfl
  have hnum : sectionNumber last = earlier.length := by simpa using hnum
  have hln := hn last (by simp)
  have hlen : earlier.length = n := by
    cases earlier using List.reverseRecOn with
    | nil => simp only [List.length_nil] at hnum ⊢; omega
    | append_singleton earlier p =>
      have hp := hearlier hclosed p (by simp)
      have hpn := hn p (by simp)
      simp only [List.map_append, List.map_cons, List.map_nil, List.length_append,
        List.length_singleton, List.range_succ] at hinit hnum ⊢
      obtain ⟨_, hpnum⟩ := List.append_inj' hinit rfl
      have hpnum : sectionNumber p = earlier.length := by simpa using hpnum
      omega
  rw [List.map_append, hinit, List.range_succ, hlen]
  simp [hnum, hlen]

/-- While sections are read in order, those passed on have the numbers up to the
one that is expected. -/
structure Counted (s : ESection) : Prop where
  numbers : s.inOrder → s.passed.map sectionNumber = List.range s.passed.length
  next : s.inOrder → s.nextSection = s.passed.length ∨ (s.nextSection = -1 ∧ s.passed = [])
  finishes : ∀ f ∈ s.finishes, f.allRead = true → f.error = 0 ∧ InSequence f.stillOpen f.passed

/-- The invariant: none of the sections passed on was the last, unless the filter
cannot be closed. -/
structure Reading (s : ESection) : Prop extends Counted s where
  unfinished : s.inOrder → s.notifier = true → 0 < s.handle →
    ∀ p ∈ s.passed, sectionNumber p < lastSectionNumber p

section
variable {s : ESection}

theorem Counted.closeFilter (h : Counted s) : Reading s.closeFilter := by
  unfold ESection.closeFilter
  split
  · exact ⟨⟨h.numbers, h.next, h.finishes⟩, fun _ hn => absurd hn (by simp)⟩
  · rename_i hhandle
    exact ⟨h, fun _ _ hpos => absurd hpos hhandle⟩

theorem Reading.startTimer (h : Reading s) (ms : Nat) : Reading (s.startTimer ms) :=
  ⟨⟨h.numbers, h.next, h.finishes⟩, h.unfinished⟩

theorem Reading.finish (h : Reading s) {error : Int} {allRead : Bool}
    (hf : allRead = true → error = 0 ∧ InSequence s.notifier s.passed) :
    Reading (s.sectionFinish error allRead) := by
  refine ⟨⟨h.numbers, h.next, fun f hmem hall => ?_⟩, h.unfinished⟩
  simp only [ESection.sectionFinish, List.mem_append, List.mem_singleton] at hmem
  rcases hmem with hmem | rfl
  · exact h.finishes f hmem hall
  · exact hf hall

/-- A finish before the last section. -/
theorem Counted.sectionFinish (h : Counted s) (error : Int) :
    Reading (s.closeFilter.sectionFinish error false) :=
  h.closeFilter.finish fun hall => by cases hall

theorem Reading.setFilter (h : Reading s) (pid tableid tableidext version : Int) (flags : Nat)
    (tableidmask handle : Int) :
    Reading (s.setFilter pid tableid tableidext version flags tableidmask handle) := by
  have hpassed :
    (s.setFilter pid tableid tableidext version flags tableidmask handle).passed = [] := by
    unfold ESection.setFilter ESection.closeFilter
    simp only
    split <;> split <;> rfl
  have hnext : (s.setFilter pid tableid tableidext version flags tableidmask handle).nextSection =
      -1 := by
    unfold ESection.setFilter ESection.closeFilter
    simp only
    split <;> split <;> rfl
  have hfinishes : (s.setFilter pid tableid tableidext version flags tableidmask handle).finishes =
      s.finishes := by
    unfold ESection.setFilter ESection.closeFilter
    simp only
    split <;> split <;> rfl
  refine ⟨⟨fun _ => ?_, fun _ => .inr ⟨hnext, hpassed⟩, ?_⟩, fun _ _ _ p hp => ?_⟩
  · simp [hpassed]
  · rw [hfinishes]
    exact h.finishes
  · simp [hpassed] at hp

/-- The section that is expected is the one after those passed on. -/
theorem Counted.expected (h : Counted s) (hin : s.inOrder) {buf : Str}
    (hnum : s.nextSection = (sectionNumber buf : Int)) : sectionNumber buf = s.passed.length := by
  rcases h.next hin with hn | ⟨hn, _⟩ <;> omega

theorem read_state (s : ESection) (r : Received) : ∃ buf, (s.read r).2 = { s with buf := buf } := by
  cases r with
  | error errno => exact ⟨s.buf, rfl⟩
  | bytes bs =>
    refine ⟨bs ++ s.buf.drop bs.length, ?_⟩
    simp only [ESection.read]
    split <;> rfl

/-- `section` after the first read. -/
def ESection.expecting (s : ESection) : ESection :=
  if s.nextSection = -1 then { s with nextSection := 0 }.startTimer 10000 else s

theorem Reading.expecting (h : Reading s) : Reading s.expecting := by
  unfold ESection.expecting
  split
  · rename_i hfirst
    refine ⟨⟨h.numbers, fun hin => .inl ?_, h.finishes⟩, h.unfinished⟩
    rcases h.next hin with hn | ⟨_, hp⟩
    · omega
    · simp [ESection.startTimer, hp]
  · exact h

theorem expecting_notifier (s : ESection) : s.expecting.notifier = s.notifier := by
  unfold ESection.expecting
  split <;> rfl

/-- The section in the buffer is counted and passed on. -/
def ESection.accept (s : ESection) : ESection :=
  let s := if s.inOrder then { s with nextSection := s.nextSection + 1 } else s
  { s with version := (versionByte s.buf : Int), passed := s.passed ++ [s.buf] }

theorem accept_frame (s : ESection) :
    (s.accept.inOrder ↔ s.inOrder) ∧ s.accept.passed = s.passed ++ [s.buf] ∧
      s.accept.nextSection = (if s.inOrder then s.nextSection + 1 else s.nextSection) ∧
      s.accept.maxsec = s.maxsec ∧ s.accept.notifier = s.notifier ∧ s.accept.handle = s.handle ∧
      s.accept.finishes = s.finishes := by
  by_cases hin : s.inOrder
  · have heq : s.accept = { s with
        nextSection := s.nextSection + 1
        version := (versionByte s.buf : Int)
        passed := s.passed ++ [s.buf] } := by simp [ESection.accept, hin]
    rw [heq, if_pos hin]
    exact ⟨Iff.rfl, rfl, rfl, rfl, rfl, rfl, rfl⟩
  · have heq : s.accept = { s with
        version := (versionByte s.buf : Int)
        passed := s.passed ++ [s.buf] } := by simp [ESection.accept, hin]
    rw [heq, if_neg hin]
    exact ⟨Iff.rfl, rfl, rfl, rfl, rfl, rfl, rfl⟩

theorem Counted.accept (h : Counted s)
    (hnum : s.inOrder → s.nextSection = (sectionNumber s.buf : Int)) :
    Counted s.accept := by
  obtain ⟨hflags, hpassed, hnext, _, _, _, hfinishes⟩ := accept_frame s
  constructor
  · intro hin
    have hlen := h.expected (hflags.mp hin) (hnum (hflags.mp hin))
    simp [hpassed, h.numbers (hflags.mp hin), List.range_succ, hlen]
  · intro hin
    have hlen := h.expected (hflags.mp hin) (hnum (hflags.mp hin))
    have hn := hnum (hflags.mp hin)
    left
    rw [hnext, if_pos (hflags.mp hin), hpassed, List.length_append, List.length_singleton]
    push_cast
    omega
  · rw [hfinishes]
    exact h.finishes

theorem closeFilter_passed (s : ESection) : s.closeFilter.passed = s.passed := by
  unfold ESection.closeFilter
  split <;> rfl

/-- If the filter is closed, it had a descriptor. -/
theorem closeFilter_closed (hopen : s.notifier = true) (hclosed : s.closeFilter.notifier = false) :
    0 < s.handle := by
  unfold ESection.closeFilter at hclosed
  split at hclosed
  · assumption
  · rw [hopen] at hclosed
    cases hclosed

/-- The end of one round of the loop: an error, the last section, or more to
come. -/
theorem accept_good (h : Reading s) (hopen : s.notifier = true)
    (hmax : s.maxsec = lastSectionNumber s.buf)
    (hnum : s.inOrder → s.nextSection = (sectionNumber s.buf : Int)) (err : Int) :
    Reading (s.accept.closeFilter.sectionFinish err false) ∧
    (s.accept.inOrder → s.accept.nextSection > (s.accept.maxsec : Int) →
      Reading (s.accept.closeFilter.sectionFinish 0 true)) ∧
    (¬ (s.accept.inOrder ∧ s.accept.nextSection > (s.accept.maxsec : Int)) → Reading s.accept) := by
  have hcounted := h.toCounted.accept hnum
  obtain ⟨hflags, hpassed, hnext, hmaxsec, hnotifier, hhandle, _⟩ := accept_frame s
  refine ⟨hcounted.sectionFinish err, fun hin hlast => ?_, fun hmore => ⟨hcounted, ?_⟩⟩
  · apply hcounted.closeFilter.finish
    intro _
    rw [hnext, if_pos (hflags.mp hin), hmaxsec, hmax, hnum (hflags.mp hin)] at hlast
    rw [closeFilter_passed]
    refine ⟨rfl, hcounted.numbers hin, s.passed, s.buf, hpassed, by omega, fun hclosed => ?_⟩
    have hpos := closeFilter_closed (hnotifier.trans hopen) hclosed
    exact h.unfinished (hflags.mp hin) hopen (hhandle ▸ hpos)
  · intro hin _ hpos p hp
    have hle : ¬ s.accept.nextSection > (s.accept.maxsec : Int) := fun hgt => hmore ⟨hin, hgt⟩
    rw [hnext, if_pos (hflags.mp hin), hmaxsec, hmax, hnum (hflags.mp hin)] at hle
    rw [hpassed, List.mem_append, List.mem_singleton] at hp
    rcases hp with hp | rfl
    · exact h.unfinished (hflags.mp hin) hopen (hhandle ▸ hpos) p hp
    · omega

/-- The loop from the test of the number on. -/
def ESection.consider (s : ESection) (err : Int) : ESection × Bool :=
  if s.inOrder ∧ s.nextSection ≠ (sectionNumber s.buf : Int) then (s, false)
  else if err ≠ 0 then
    (s.accept.closeFilter.sectionFinish (if err > 0 then 0 else err) false, false)
  else if s.accept.inOrder ∧ s.accept.nextSection > (s.accept.maxsec : Int) then
    (s.accept.closeFilter.sectionFinish 0 true, false)
  else (s.accept.startTimer 10000, true)

theorem dataStep_eq (s : ESection) (r : Received) (err : Int) :
    s.dataStep r err =
      if (s.read r).1 ≠ 0 then ((s.read r).2.startTimer 10000, false)
      else
        { (s.read r).2.expecting with
          maxsec := lastSectionNumber (s.read r).2.expecting.buf }.consider err :=
  rfl

/-- The section in the buffer keeps the invariant; if the loop goes on, the
notifier is still there. -/
theorem consider_good (h : Reading s) (hopen : s.notifier = true)
    (hmax : s.maxsec = lastSectionNumber s.buf) (err : Int) :
    Reading (s.consider err).1 ∧
      ((s.consider err).2 = true → (s.consider err).1.notifier = true) := by
  unfold ESection.consider
  split
  · exact ⟨h, fun hgo => by cases hgo⟩
  rename_i hnumber
  have hnum (hin : s.inOrder) : s.nextSection = (sectionNumber s.buf : Int) := by
    by_contra hne
    exact hnumber ⟨hin, hne⟩
  obtain ⟨herror, hlast, hmore⟩ := accept_good h hopen hmax hnum (if err > 0 then 0 else err)
  split
  · exact ⟨herror, fun hgo => by cases hgo⟩
  split
  · rename_i hend
    exact ⟨hlast hend.1 hend.2, fun hgo => by cases hgo⟩
  · rename_i hend
    exact ⟨(hmore hend).startTimer 10000, fun _ => (accept_frame s).2.2.2.2.1.trans hopen⟩

/-- What one section keeps. -/
theorem dataStep_good (h : Reading s) (hopen : s.notifier = true) (r : Received) (err : Int) :
    Reading (s.dataStep r err).1 ∧
      ((s.dataStep r err).2 = true → (s.dataStep r err).1.notifier = true) := by
  obtain ⟨buf, hread⟩ := read_state s r
  have hbuf : Reading { s with buf := buf } := ⟨⟨h.numbers, h.next, h.finishes⟩, h.unfinished⟩
  have hexp := hbuf.expecting
  have hexpopen := (expecting_notifier { s with buf := buf }).trans hopen
  rw [dataStep_eq, hread]
  generalize ESection.expecting { s with buf := buf } = e at hexp hexpopen
  split
  · exact ⟨hbuf.startTimer 10000, fun hgo => by cases hgo⟩
  · exact consider_good (s := { e with maxsec := lastSectionNumber e.buf })
      ⟨⟨hexp.numbers, hexp.next, hexp.finishes⟩, hexp.unfinished⟩ hexpopen rfl err

theorem data_good (h : Reading s) (hopen : s.notifier = true) (reads : List (Received × Int)) :
    Reading (s.data reads) := by
  induction reads generalizing s with
  | nil => exact h
  | cons read rest ih =>
    obtain ⟨r, err⟩ := read
    obtain ⟨hgood, hgo⟩ := dataStep_good h hopen r err
    rw [ESection.data]
    split <;> rename_i heq
    · rw [heq] at hgood hgo
      exact ih hgood (hgo rfl)
    · rw [heq] at hgood
      exact hgood

theorem sectionStep_good {t : ESection} (h : Reading s) (a : SectionAct)
    (hstep : sectionStep s a = some t) : Reading t := by
  cases a with
  | start handle =>
    cases hstep
    unfold ESection.start
    split
    · exact (h.startTimer _).setFilter ..
    · exact h.setFilter ..
  | setFilter pid tableid tableidext version flags tableidmask handle =>
    cases hstep
    exact h.setFilter ..
  | data reads =>
    simp only [sectionStep] at hstep
    split at hstep
    · rename_i hopen
      cases hstep
      exact data_good h hopen reads
    · cases hstep
  | timeout =>
    cases hstep
    exact h.toCounted.sectionFinish _
  | abort =>
    cases hstep
    unfold ESection.abort
    split
    · exact h.toCounted.sectionFinish _
    · exact h
  | setContext =>
    cases hstep
    exact ⟨⟨h.numbers, h.next, h.finishes⟩, h.unfinished⟩

end

theorem eTable_reading (buf : Str) (pid tableid tableidmask tableidext version : Int) :
    Reading (.eTable buf pid tableid tableidmask tableidext version) := by
  refine ⟨⟨fun _ => rfl, fun _ => .inr ⟨rfl, rfl⟩, fun f hf => ?_⟩, fun _ _ _ p hp => ?_⟩
  · cases hf
  · cases hp

/-- **A table in order.** In every run of a table's reader: when all sections were
read, the error is 0 and those passed on since the filter was set have the
numbers from 0 on, in order, up to the first that reaches the last number it
names itself; so if all name the same last number, they are 0 up to that one.
Versions are not compared. -/
theorem table_in_order (buf : Str) (pid tableid tableidmask tableidext version : Int) {s : ESection}
    (h : Runs sectionStep (fun _ _ => True)
      (.eTable buf pid tableid tableidmask tableidext version) s) :
    ∀ f ∈ s.finishes, f.allRead = true → f.error = 0 ∧ InSequence f.stillOpen f.passed ∧
      (f.stillOpen = false → ∀ n, (∀ p ∈ f.passed, lastSectionNumber p = n) →
        f.passed.map sectionNumber = List.range (n + 1)) := by
  have hgood := h.invariant (fun _ a _ hs _ hstep => sectionStep_good hs a hstep)
    (eTable_reading buf pid tableid tableidmask tableidext version)
  intro f hf hall
  obtain ⟨herror, hseq⟩ := hgood.finishes f hf hall
  exact ⟨herror, hseq, fun hclosed _ hn => hseq.last hclosed hn⟩

/-- A section of table 0x42 with a version, a number and a last number. -/
def shortSection (version number last : Byte) : Str := [0x42, 0, 3, 0, 1, version, number, last]

/-- The reader of table 0x42 reads these sections after it was started. -/
def readTable (sections : List Str) : List SectionAct :=
  [.start 5, .data (sections.map fun bs => (.bytes bs, 0))]

theorem table_in_order_two :
    ∃ s, runList sectionStep (.eTable [] 0x11 0x42 0xff (-1) (-1))
        (readTable [shortSection 1 0 1, shortSection 1 1 1]) = some s ∧ s.finishes.length = 1 ∧
      ∀ f ∈ s.finishes, f.allRead = true → f.error = 0 ∧ InSequence f.stillOpen f.passed ∧
        (f.stillOpen = false → ∀ n, (∀ p ∈ f.passed, lastSectionNumber p = n) →
          f.passed.map sectionNumber = List.range (n + 1)) := by
  apply Exists.intro _
  refine ⟨rfl, by decide, ?_⟩
  exact table_in_order [] 0x11 0x42 0xff (-1) (-1) <| Runs.ofList (fun _ _ _ => trivial)
    (show runList sectionStep _
      (readTable [shortSection 1 0 1, shortSection 1 1 1]) = some _ from rfl)

/-- The version changes between the two sections of a table. -/
theorem table_of_two_versions :
    ∃ s, runList sectionStep (.eTable [] 0x11 0x42 0xff (-1) (-1))
        (readTable [shortSection 1 0 5, shortSection 3 1 1]) = some s ∧
      s.finishes = [⟨0, true, false, [shortSection 1 0 5, shortSection 3 1 1]⟩] ∧
      versionByte (shortSection 1 0 5) ≠ versionByte (shortSection 3 1 1) ∧
      lastSectionNumber (shortSection 1 0 5) ≠ lastSectionNumber (shortSection 3 1 1) :=
  ⟨_, rfl, by decide, by decide, by decide⟩

end Tuxbox.Enigma
