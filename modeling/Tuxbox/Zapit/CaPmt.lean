import Tuxbox.Connection.MessageTools
import Mathlib.Data.List.Induction

/-! The CA-PMT that zapit sends to the conditional access daemon: descriptors,
tables of descriptors, elementary streams, and the message around them. A bit
field of the source is a `BitVec` of its width. -/
namespace Tuxbox.Zapit

open Connection

/-- A buffer a CA descriptor can be read from: the descriptor is complete and
long enough for its fixed part. -/
structure CaBuffer where
  bytes : List Byte
  fixed : 4 ≤ (bytes.getD 1 0).toNat
  complete : (bytes.getD 1 0).toNat + 2 ≤ bytes.length

/-- The bytes of the descriptor at the start of the buffer. -/
def CaBuffer.descriptor (b : CaBuffer) : List Byte := b.bytes.take ((b.bytes.getD 1 0).toNat + 2)

structure CCaDescriptor where
  descriptorTag : BitVec 8
  descriptorLength : BitVec 8
  caSystemID : BitVec 16
  reserved1 : BitVec 3
  caPID : BitVec 13
  privateDataByte : List Byte

namespace CCaDescriptor

/-- The constructor. -/
def ofBuffer (b : CaBuffer) : CCaDescriptor :=
  let buffer (i : Nat) : Nat := (b.bytes.getD i 0).toNat
  { descriptorTag := .ofNat 8 (buffer 0)
    descriptorLength := .ofNat 8 (buffer 1)
    caSystemID := .ofNat 16 (buffer 2 <<< 8 ||| buffer 3)
    reserved1 := .ofNat 3 (buffer 4 >>> 5)
    caPID := .ofNat 13 ((buffer 4 &&& 0x1F) <<< 8 ||| buffer 5)
    privateDataByte := (b.bytes.take (buffer 1 + 2)).drop 6 }

/-- Stores from `p` on and returns the number of bytes. -/
def writeToBuffer (d : CCaDescriptor) (m : Mem) (p : Nat) : Mem × Nat :=
  let m := m.write p d.descriptorTag.toNat.toUInt8
  let m := m.write (p + 1) d.descriptorLength.toNat.toUInt8
  let m := m.write (p + 2) (d.caSystemID.toNat >>> 8).toUInt8
  let m := m.write (p + 3) d.caSystemID.toNat.toUInt8
  let m := m.write (p + 4) (d.reserved1.toNat <<< 5 ||| d.caPID.toNat >>> 8).toUInt8
  let m := m.write (p + 5) d.caPID.toNat.toUInt8
  let m := m.put (p + 6) d.privateDataByte
  (m, d.descriptorLength.toNat + 2)

def getLength (d : CCaDescriptor) : Nat := d.descriptorLength.toNat + 2

end CCaDescriptor

structure CCaTable where
  caDescriptor : List CCaDescriptor
  reserved2 : BitVec 4
  infoLength : BitVec 12

namespace CCaTable

/-- The constructor, and the one field its users set. -/
def create (reserved2 : BitVec 4) : CCaTable := ⟨[], reserved2, 0⟩

def addCaDescriptor (t : CCaTable) (buffer : CaBuffer) : CCaTable :=
  let dummy := CCaDescriptor.ofBuffer buffer
  let info := if t.infoLength = 0 then 1 else t.infoLength
  { t with
    caDescriptor := t.caDescriptor ++ [dummy]
    infoLength := info + .ofNat 12 dummy.getLength }

def getLength (t : CCaTable) : Nat := t.infoLength.toNat + 2

/-- The loop over the descriptors, as the memory and `pos`. -/
def writeDescriptors (p : Nat) : List CCaDescriptor → Mem × Nat → Mem × Nat
  | [], out => out
  | d :: ds, (m, pos) =>
    let out := d.writeToBuffer m (p + pos)
    writeDescriptors p ds (out.1, pos + out.2)

def writeToBuffer (t : CCaTable) (m : Mem) (p : Nat) : Mem × Nat :=
  let m := m.write p (t.reserved2.toNat <<< 4 ||| t.infoLength.toNat >>> 8).toUInt8
  let m := m.write (p + 1) t.infoLength.toNat.toUInt8
  if t.infoLength = 0 then (m, 2)
  else writeDescriptors p t.caDescriptor (m.write (p + 2) 1, 3)

end CCaTable

structure CEsInfo extends CCaTable where
  streamType : BitVec 8
  reserved1 : BitVec 3
  elementaryPID : BitVec 13

namespace CEsInfo

def getLength (e : CEsInfo) : Nat := e.toCCaTable.getLength + 3

def writeToBuffer (e : CEsInfo) (m : Mem) (p : Nat) : Mem × Nat :=
  let m := m.write p e.streamType.toNat.toUInt8
  let m := m.write (p + 1) (e.reserved1.toNat <<< 5 ||| e.elementaryPID.toNat >>> 8).toUInt8
  let m := m.write (p + 2) e.elementaryPID.toNat.toUInt8
  let out := e.toCCaTable.writeToBuffer m (p + 3)
  (out.1, 3 + out.2)

end CEsInfo

structure CCaPmt extends CCaTable where
  caPmtListManagement : BitVec 8
  programNumber : BitVec 16
  reserved1 : BitVec 2
  versionNumber : BitVec 5
  currentNextIndicator : BitVec 1
  esInfo : List CEsInfo

namespace CCaPmt

/-- The sum is an `unsigned int`. -/
def getLength (c : CCaPmt) : Nat :=
  c.esInfo.foldl (fun size e => (size + e.getLength) % 2 ^ 32) (4 + c.toCCaTable.getLength)

def writeEsInfo (p : Nat) : List CEsInfo → Mem × Nat → Mem × Nat
  | [], out => out
  | e :: es, (m, pos) =>
    let out := e.writeToBuffer m (p + pos)
    writeEsInfo p es (out.1, pos + out.2)

def writeToBuffer (c : CCaPmt) (m : Mem) (p : Nat) : Option (Mem × Nat) :=
  let m := m.write p 0x9F
  let m := m.write (p + 1) 0x80
  let m := m.write (p + 2) 0x32
  match writeLengthField m (p + 3) c.getLength with
  | none => none
  | some (m, n) =>
    let pos := 3 + n
    let m := m.write (p + pos) c.caPmtListManagement.toNat.toUInt8
    let m := m.write (p + (pos + 1)) (c.programNumber.toNat >>> 8).toUInt8
    let m := m.write (p + (pos + 2)) c.programNumber.toNat.toUInt8
    let m := m.write (p + (pos + 3)) (c.reserved1.toNat <<< 6 ||| c.versionNumber.toNat <<< 1 |||
      c.currentNextIndicator.toNat).toUInt8
    let out := c.toCCaTable.writeToBuffer m (p + (pos + 4))
    some (writeEsInfo p c.esInfo (out.1, pos + 4 + out.2))

end CCaPmt

/-- The buffer of `CCam::setCaPmt`: its size, and what is stored in it with the
number of bytes sent. -/
def setCaPmt (c : CCaPmt) : Nat × Option (Mem × Nat) :=
  let size := c.getLength
  (3 + getLengthFieldSize size + size, c.writeToBuffer .unset 0)

/-! ## What a CA-PMT is built from -/

structure EsSource where
  streamType : BitVec 8
  reserved1 : BitVec 3
  elementaryPID : BitVec 13
  reserved2 : BitVec 4
  descriptors : List CaBuffer

structure PmtSource where
  caPmtListManagement : BitVec 8
  programNumber : BitVec 16
  reserved1 : BitVec 2
  versionNumber : BitVec 5
  currentNextIndicator : BitVec 1
  reserved2 : BitVec 4
  descriptors : List CaBuffer
  es : List EsSource

def CCaTable.build (reserved2 : BitVec 4) (bs : List CaBuffer) : CCaTable :=
  bs.foldl addCaDescriptor (create reserved2)

def CEsInfo.build (e : EsSource) : CEsInfo :=
  { CCaTable.build e.reserved2 e.descriptors with
    streamType := e.streamType
    reserved1 := e.reserved1
    elementaryPID := e.elementaryPID }

def CCaPmt.build (s : PmtSource) : CCaPmt :=
  { CCaTable.build s.reserved2 s.descriptors with
    caPmtListManagement := s.caPmtListManagement
    programNumber := s.programNumber
    reserved1 := s.reserved1
    versionNumber := s.versionNumber
    currentNextIndicator := s.currentNextIndicator
    esInfo := s.es.map CEsInfo.build }

/-- The bytes of the command id and the descriptors; neither is there without
descriptors. -/
def infoBytes (bs : List CaBuffer) : List Byte :=
  if bs = [] then [] else 1 :: bs.flatMap CaBuffer.descriptor

def EsSource.length (e : EsSource) : Nat := 3 + (2 + (infoBytes e.descriptors).length)

/-- The length of the message behind its tag and its length field. -/
def PmtSource.length (s : PmtSource) : Nat :=
  4 + (2 + (infoBytes s.descriptors).length) + (s.es.map EsSource.length).sum

end Tuxbox.Zapit
