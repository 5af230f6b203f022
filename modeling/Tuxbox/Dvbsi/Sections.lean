import Tuxbox.Dvbsi.Descriptors

/-!
# Section constructors of libdvbsi++

The constructors of the program map, event information and network information
sections. A section is given as the memory from its table id on; the outer loops
count the bytes that are left, the loops over the descriptors of one entry only
look at the length of the entry.

* `programMapSection`, `eventInformationSection`, `networkInformationSection`.
-/

namespace Tuxbox.Dvbsi

open Parse

/-- `DVB_LENGTH`. -/
def dvbLength (p : Nat) : Parse Nat := do
  let w ← r16 p
  pure (w &&& 0x0fff)

/-- `DVB_PID`. -/
def dvbPid (p : Nat) : Parse (BitVec 13) := do
  let w ← r16 p
  pure (BitVec.ofNat 13 w)

structure LongCrcSection where
  tableId : Byte
  sectionSyntaxIndicator : Byte
  sectionLength : Nat
  tableIdExtension : Nat
  versionNumber : Byte
  currentNextIndicator : Byte
  sectionNumber : Byte
  lastSectionNumber : Byte
  crc32 : Option Nat

/-- The checksum of a section of no length is read from before the section. -/
def sectionCrc32 (sectionLength : Nat) : Parse (Option Nat) :=
  if sectionLength = 0 then pure none
  else do
    let crc32 ← r32 (sectionLength - 1)
    pure (some crc32)

def longCrcSection : Parse LongCrcSection := do
  let tableId ← read 0
  let b ← read 1
  let sectionLength ← dvbLength 1
  let tableIdExtension ← r16 3
  let v ← read 5
  let sectionNumber ← read 6
  let lastSectionNumber ← read 7
  let crc32 ← sectionCrc32 sectionLength
  pure ⟨tableId, (b >>> 7) &&& 0x01, sectionLength, tableIdExtension, (v >>> 1) &&& 0x1f, v &&& 0x01,
    sectionNumber, lastSectionNumber, crc32⟩

/-- A field that only a longer section has. -/
def ifLonger {α : Type} (sectionLength n : Nat) (p : Parse α) (other : α) : Parse α :=
  if n < sectionLength then p else pure other

/-! ## Descriptors -/

/-- `2 + buffer[pos + 1]`. -/
def descriptorLoopLength (pos : Nat) : Parse Nat := do
  let l ← read (pos + 1)
  pure (2 + l.toNat)

/-- The loop over the descriptors of an entry at `p`, from `first` on. Its container
keeps the descriptors that are valid. -/
def descriptorEntry (p i : Nat) : Parse (Descriptor × Nat) := do
  let d ← descriptor (p + i)
  let l ← read (p + i + 1)
  pure (d, i + (l.toNat + 2))

def descriptorLoop (valid : Descriptor → Bool) (p first length : Nat) : Parse (List Descriptor) := do
  let ds ← loop (descriptorEntry p) (length + first) (length + 1) first
  pure (ds.filter valid)

/-! ## Program map -/

def elementaryStreamInfo (valid : Descriptor → Bool) (p : Nat) : Parse ElementaryStreamInfo := do
  let streamType ← read p
  let elementaryPid ← dvbPid (p + 1)
  let esInfoLength ← dvbLength (p + 3)
  let ds ← descriptorLoop valid p 5 esInfoLength
  pure ⟨streamType, elementaryPid, ds⟩

def esLoopLength (pos : Nat) : Parse Nat := do
  let l ← dvbLength (pos + 3)
  pure (5 + l)

structure ProgramMap where
  header : LongCrcSection
  pcrPid : BitVec 13
  programInfoLength : Nat
  descriptors : List Descriptor
  esInfo : List ElementaryStreamInfo

/-- The streams, once the program information ended where it says. -/
def esInfoLoop (valid : Descriptor → Bool) (rest : Rest) : Parse (List ElementaryStreamInfo) :=
  if rest.left2 = 0 then do
    let (esInfo, _) ←
      counted 4 esLoopLength (elementaryStreamInfo valid) (rest.left + 1) rest.pos rest.left rest.left
    pure esInfo
  else pure []

def programMapSection (valid : Descriptor → Bool) : Parse ProgramMap := do
  let s ← longCrcSection
  let pcrPid ← ifLonger s.sectionLength 10 (dvbPid 8) 0
  let programInfoLength ← ifLonger s.sectionLength 12 (dvbLength 10) 0
  let bytesLeft := if 13 < s.sectionLength then s.sectionLength - 13 else 0
  let (ds, rest) ←
    counted 1 descriptorLoopLength descriptor (programInfoLength + 1) 12 bytesLeft programInfoLength
  let esInfo ← esInfoLoop valid rest
  pure ⟨s, pcrPid, programInfoLength, ds.filter valid, esInfo⟩

/-! ## Event information -/

structure Event where
  eventId : Nat
  startTimeMjd : Nat
  startTimeBcd : Nat
  duration : Nat
  runningStatus : Byte
  freeCaMode : Byte
  descriptorsLoopLength : Nat
  descriptors : List Descriptor

/-- Three bytes, the high one first. -/
def r24 (p : Nat) : Parse Nat := do
  let high ← read p
  let low ← r16 (p + 1)
  pure (high.toNat <<< 16 ||| low)

def event (valid : Descriptor → Bool) (p : Nat) : Parse Event := do
  let eventId ← r16 p
  let startTimeMjd ← r16 (p + 2)
  let startTimeBcd ← r24 (p + 4)
  let duration ← r24 (p + 7)
  let b ← read (p + 10)
  let descriptorsLoopLength ← dvbLength (p + 10)
  let ds ← descriptorLoop valid p 12 descriptorsLoopLength
  pure ⟨eventId, startTimeMjd, startTimeBcd, duration, (b >>> 5) &&& 0x07, (b >>> 4) &&& 0x01,
    descriptorsLoopLength, ds⟩

def eventLoopLength (pos : Nat) : Parse Nat := do
  let l ← dvbLength (pos + 10)
  pure (12 + l)

structure EventInformation where
  header : LongCrcSection
  transportStreamId : Nat
  originalNetworkId : Nat
  segmentLastSectionNumber : Byte
  lastTableId : Byte
  events : List Event

def eventInformationSection (valid : Descriptor → Bool) : Parse EventInformation := do
  let s ← longCrcSection
  let transportStreamId ← ifLonger s.sectionLength 10 (r16 8) 0
  let originalNetworkId ← ifLonger s.sectionLength 12 (r16 10) 0
  let segmentLastSectionNumber ← ifLonger s.sectionLength 13 (read 12) s.sectionNumber
  let lastTableId ← ifLonger s.sectionLength 14 (read 13) s.tableId
  let bytesLeft := if 15 < s.sectionLength then s.sectionLength - 15 else 0
  let (events, _) ← counted 11 eventLoopLength (event valid) (bytesLeft + 1) 14 bytesLeft bytesLeft
  pure ⟨s, transportStreamId, originalNetworkId, segmentLastSectionNumber, lastTableId, events⟩

/-! ## Network information -/

structure TransportStreamInfo where
  transportStreamId : Nat
  originalNetworkId : Nat
  descriptors : List Descriptor

def transportStreamInfo (valid : Descriptor → Bool) (p : Nat) : Parse TransportStreamInfo := do
  let transportStreamId ← r16 p
  let originalNetworkId ← r16 (p + 2)
  let transportDescriptorsLength ← dvbLength (p + 4)
  let ds ← descriptorLoop valid p 6 transportDescriptorsLength
  pure ⟨transportStreamId, originalNetworkId, ds⟩

def transportStreamLoopLength (pos : Nat) : Parse Nat := do
  let l ← dvbLength (pos + 4)
  pure (6 + l)

structure NetworkInformation where
  header : LongCrcSection
  networkDescriptorsLength : Nat
  descriptors : List Descriptor
  tsInfo : List TransportStreamInfo

/-- The streams, once the network descriptors ended where their length says. -/
def tsInfoLoop (valid : Descriptor → Bool) (rest : Rest) : Parse (List TransportStreamInfo) :=
  if rest.left2 = 0 ∧ 1 < rest.left then do
    let left2 ← dvbLength rest.pos
    let left ← subtract rest.left 2
    let (tsInfo, _) ←
      counted 4 transportStreamLoopLength (transportStreamInfo valid) (left2 + 1) (rest.pos + 2)
        left left2
    pure tsInfo
  else pure []

def networkInformationSection (valid : Descriptor → Bool) : Parse NetworkInformation := do
  let s ← longCrcSection
  let networkDescriptorsLength ← ifLonger s.sectionLength 9 (dvbLength 8) 0
  let bytesLeft := if 11 < s.sectionLength then s.sectionLength - 11 else 0
  let (ds, rest) ←
    counted 1 descriptorLoopLength descriptor (networkDescriptorsLength + 1) 10 bytesLeft
      networkDescriptorsLength
  let tsInfo ← tsInfoLoop valid rest
  pure ⟨s, networkDescriptorsLength, ds.filter valid, tsInfo⟩

/-! ## The tables -/

inductive Table where
  | programMap
  | eventInformation
  | networkInformation
  deriving DecidableEq

/-- The run of a constructor, without the object it builds. -/
def constructSection (valid : Descriptor → Bool) (t : Table) : Parse Unit :=
  match t with
  | .programMap => programMapSection valid >>= fun _ => pure ()
  | .eventInformation => eventInformationSection valid >>= fun _ => pure ()
  | .networkInformation => networkInformationSection valid >>= fun _ => pure ()

end Tuxbox.Dvbsi
