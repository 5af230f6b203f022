import Tuxbox.Connection.MessageTools
import Mathlib.Data.List.Sort

/-!
# The CA-PMT of libdvbsi++

`CaProgramMapSection` collects the CA descriptors of a program map section and
of later ones of the same program, counting the bytes as it goes. A bit field of
the source is a `BitVec` of its width.
-/

namespace Tuxbox.Dvbsi

open Connection

def caDescriptorTag : Byte := 0x09

/-- A descriptor of any kind, read from its tag, its length and that many bytes. -/
structure Descriptor where
  descriptorTag : Byte
  dataBytes : List Byte
  length_lt : dataBytes.length < 256
  deriving DecidableEq

namespace Descriptor

def getLength (d : Descriptor) : Nat := d.dataBytes.length

/-- The bytes of the message. -/
def writeToBuffer (d : Descriptor) : List Byte :=
  d.descriptorTag :: d.getLength.toUInt8 :: d.dataBytes

/-- `caSystemId` of a CA descriptor. -/
def caSystemId (d : Descriptor) : Nat :=
  (d.dataBytes.getD 0 0).toNat <<< 8 ||| (d.dataBytes.getD 1 0).toNat

/-- What the constructor of the descriptor's class finds: a CA descriptor has at
least four bytes, `other` is the check of the other classes. -/
def isValid (other : Byte → List Byte → Bool) (d : Descriptor) : Bool :=
  if d.descriptorTag = caDescriptorTag then decide (4 ≤ d.getLength)
  else other d.descriptorTag d.dataBytes

end Descriptor

structure ElementaryStreamInfo where
  streamType : Byte
  elementaryPid : BitVec 13
  descriptors : List Descriptor

structure ProgramMapSection where
  tableIdExtension : BitVec 16
  versionNumber : BitVec 5
  currentNextIndicator : BitVec 1
  descriptors : List Descriptor
  esInfo : List ElementaryStreamInfo

/-- `std::lower_bound`: the first element of a sorted vector that is not less. -/
def lowerBound (caids : List Nat) (caid : Nat) : Option Nat :=
  (caids.dropWhile fun c => decide (c < caid)).head?

/-- The descriptors a CA-PMT takes over. -/
def isWanted (caids : List Nat) (d : Descriptor) : Bool :=
  d.descriptorTag == caDescriptorTag &&
    (caids.isEmpty || lowerBound caids d.caSystemId == some d.caSystemId)

/-! ## Length fields -/

/-- The search for the number of length bytes. The mask of an `uint32_t` covers
every length after three steps. -/
def sizeLoop (length : Nat) : (left : Nat) → (lengthFieldSize mask : Nat) → Nat
  | 0, lengthFieldSize, _ => lengthFieldSize
  | left + 1, lengthFieldSize, mask =>
    if length &&& mask ≠ length then
      sizeLoop length left (lengthFieldSize + 1) (mask <<< 8 ||| 0xff)
    else lengthFieldSize

/-- `CaLengthField` as written. -/
def caLengthField (length : Nat) : List Byte :=
  if length < 0x80 then [length.toUInt8]
  else
    let lengthFieldSize := sizeLoop length 3 1 0xff
    (1 <<< 7 ||| lengthFieldSize).toUInt8 :: bigEndian length lengthFieldSize

/-! ## Streams -/

/-- `caPmtCmdId` is only read when `esInfoLength` is not zero; in the source it is
not set before that. -/
structure CaElementaryStreamInfo where
  streamType : Byte
  elementaryPid : BitVec 13
  esInfoLength : BitVec 12
  caPmtCmdId : Byte
  descriptors : List Descriptor

namespace CaElementaryStreamInfo

def addDescriptor (caids : List Nat) (info : CaElementaryStreamInfo) (d : Descriptor) :
    CaElementaryStreamInfo :=
  if isWanted caids d then
    { info with
      descriptors := info.descriptors ++ [d]
      esInfoLength := info.esInfoLength + .ofNat 12 (d.getLength + 2) }
  else info

/-- The constructor. -/
def create (info : ElementaryStreamInfo) (cmdId : Byte) (caids : List Nat) :
    CaElementaryStreamInfo :=
  let start : CaElementaryStreamInfo := ⟨info.streamType, info.elementaryPid, 0, cmdId, []⟩
  let out := info.descriptors.foldl (addDescriptor caids) start
  if out.esInfoLength ≠ 0 then { out with esInfoLength := out.esInfoLength + 1 } else out

def getLength (info : CaElementaryStreamInfo) : Nat := info.esInfoLength.toNat + 5

def writeToBuffer (info : CaElementaryStreamInfo) : List Byte :=
  [info.streamType, (info.elementaryPid.toNat >>> 8).toUInt8, info.elementaryPid.toNat.toUInt8,
    (info.esInfoLength.toNat >>> 8).toUInt8, info.esInfoLength.toNat.toUInt8] ++
  if info.esInfoLength ≠ 0 then
    info.caPmtCmdId :: info.descriptors.flatMap Descriptor.writeToBuffer
  else []

end CaElementaryStreamInfo

/-! ## Programs -/

structure CaProgramMapSection where
  length : BitVec 32
  caPmtListManagement : Byte
  programNumber : BitVec 16
  versionNumber : BitVec 5
  currentNextIndicator : BitVec 1
  programInfoLength : BitVec 12
  caPmtCmdId : Byte
  descriptorList : List Descriptor
  esInfo : List CaElementaryStreamInfo
  caids : List Nat

namespace CaProgramMapSection

/-- Both counters are raised. -/
def count (c : CaProgramMapSection) (len : Nat) : CaProgramMapSection :=
  { c with
    programInfoLength := c.programInfoLength + .ofNat 12 len
    length := c.length + .ofNat 32 len }

def addDescriptor (c : CaProgramMapSection) (d : Descriptor) : CaProgramMapSection :=
  if isWanted c.caids d then
    { c with descriptorList := c.descriptorList ++ [d] }.count (d.getLength + 2)
  else c

def addStream (c : CaProgramMapSection) (info : ElementaryStreamInfo) : CaProgramMapSection :=
  let info := CaElementaryStreamInfo.create info c.caPmtCmdId c.caids
  { c with esInfo := c.esInfo ++ [info], length := c.length + .ofNat 32 info.getLength }

/-- The section is of the same program and version. -/
def accepts (c : CaProgramMapSection) (pmt : ProgramMapSection) : Bool :=
  pmt.tableIdExtension == c.programNumber && pmt.versionNumber == c.versionNumber &&
    c.currentNextIndicator == pmt.currentNextIndicator

/-- What is added to the section later. -/
def append (c : CaProgramMapSection) (pmt : ProgramMapSection) : Bool × CaProgramMapSection :=
  if c.accepts pmt then
    (true, pmt.esInfo.foldl addStream (pmt.descriptors.foldl addDescriptor c))
  else (false, c)

/-- The constructor, from which `append` is called. -/
def create (pmt : ProgramMapSection) (listManagement cmdId : Byte) (pcaids : List Nat) :
    CaProgramMapSection :=
  let start : CaProgramMapSection :=
    { length := 6
      caPmtListManagement := listManagement
      programNumber := pmt.tableIdExtension
      versionNumber := pmt.versionNumber
      currentNextIndicator := pmt.currentNextIndicator
      programInfoLength := 0
      caPmtCmdId := cmdId
      descriptorList := []
      esInfo := []
      caids := pcaids.mergeSort }
  (start.append pmt).2

/-- `DescriptorContainer::descriptor`: a descriptor that is not valid is dropped. -/
def descriptor (other : Byte → List Byte → Bool) (c : CaProgramMapSection) (d : Descriptor)
    (back : Bool) : CaProgramMapSection :=
  if d.isValid other then
    { c with descriptorList := if back then c.descriptorList ++ [d] else d :: c.descriptorList }
  else c

/-- `none`: the last or first descriptor of an empty list is read. -/
def injectDescriptor (other : Byte → List Byte → Bool) (c : CaProgramMapSection) (d : Descriptor)
    (back : Bool) : Option CaProgramMapSection :=
  let c := c.descriptor other d back
  let counted := if back then c.descriptorList.getLast? else c.descriptorList.head?
  counted.map fun d => c.count (d.getLength + 2)

def setListManagement (c : CaProgramMapSection) (listManagement : Byte) : CaProgramMapSection :=
  { c with caPmtListManagement := listManagement }

def writeToBuffer (c : CaProgramMapSection) : List Byte :=
  let programInfoLength :=
    if c.programInfoLength ≠ 0 then c.programInfoLength.toNat + 1 else 0
  let length := if c.programInfoLength ≠ 0 then c.length + 1 else c.length
  ([0x9f, 0x80, 0x32] : List Byte) ++ caLengthField length.toNat ++
  [c.caPmtListManagement, (c.programNumber.toNat >>> 8).toUInt8, c.programNumber.toNat.toUInt8,
    (c.versionNumber.toNat <<< 1 ||| c.currentNextIndicator.toNat).toUInt8,
    (programInfoLength >>> 8).toUInt8, programInfoLength.toUInt8] ++
  (if programInfoLength ≠ 0 then
    c.caPmtCmdId :: c.descriptorList.flatMap Descriptor.writeToBuffer
  else []) ++
  c.esInfo.flatMap CaElementaryStreamInfo.writeToBuffer

end CaProgramMapSection

/-- A call at a CA-PMT. -/
inductive Call where
  | append (pmt : ProgramMapSection)
  | injectDescriptor (d : Descriptor) (back : Bool)
  | setListManagement (listManagement : Byte)

def CaProgramMapSection.step (other : Byte → List Byte → Bool) (c : CaProgramMapSection) :
    Call → Option CaProgramMapSection
  | .append pmt => some (c.append pmt).2
  | .injectDescriptor d back => c.injectDescriptor other d back
  | .setListManagement listManagement => some (c.setListManagement listManagement)

end Tuxbox.Dvbsi
