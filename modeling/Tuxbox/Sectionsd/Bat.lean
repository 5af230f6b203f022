import Tuxbox.Sectionsd.DvbString
import Tuxbox.Sectionsd.Eit

/-! The bouquet sections of sectionsd. Every transport stream is gone through twice:
the first time for the descriptors that order the services, the second time for the
services themselves. A place in the section is the rest of the buffer from there on. -/
namespace Tuxbox.Sectionsd

open Buffer

structure SIbouquet where
  bouquetId : UInt16
  bouquetName : Str
  originalNetworkId : UInt16
  transportStreamId : UInt16
  serviceId : UInt16
  position : UInt16
  serviceTyp : Byte

/-- `CREATE_BOUQUETENTRY_ID`. -/
def SIbouquet.uniqueKey (s : SIbouquet) : Nat :=
  s.bouquetId.toNat <<< 48 ||| (s.serviceTyp.toNat <<< 32 |||
    (s.position.toNat <<< 16 ||| s.serviceId.toNat))

namespace SIsectionBAT

def NOVA : UInt16 := 0x3ffe

def CANALDIGITAAL : UInt16 := 0x3fff

/-- `!strncmp(buf + i, text, n)`, which reads up to the first byte that differs. -/
def startsWith (buf : Str) : (i : Nat) → (text : Str) → Option Bool
  | _, [] => some true
  | i, c :: text => do
    let b ← read buf i
    if b = c then startsWith buf (i + 1) text else pure false

/-- `private_data_specifier`. -/
def privateDataSpecifier (buf : Str) (i : Nat) : Option Nat := do
  let byte1 ← read buf i
  let byte2 ← read buf (i + 1)
  let byte3 ← read buf (i + 2)
  let byte4 ← read buf (i + 3)
  pure (((byte1.toNat * 256 + byte2.toNat) * 256 + byte3.toNat) * 256 + byte4.toNat)

/-! ## The bouquet -/

structure Bouquet where
  bouquetId : UInt16
  bouquetName : Str
  specifier : Nat

/-- Two providers do not have an id of their own. -/
def reservedId (buf : Str) (bouquetId : UInt16) : Option UInt16 :=
  if bouquetId = 0x0001 then do
    let nova ← startsWith buf 2 (chars "NOVA")
    let digitaal ← startsWith buf 2 (chars "CanalDigitaal")
    pure (if digitaal then CANALDIGITAAL else if nova then NOVA else bouquetId)
  else some bouquetId

def bouquetDescriptor (desc : Str) (_len : Nat) (b : Bouquet) : Option Bouquet := do
  let tag ← read desc 0
  if tag = 0x47 then
    let length ← read desc 1
    if length.toNat = 0 then pure b
    else
      let bouquetId ← reservedId desc b.bouquetId
      let name ← dvbString desc 2 length.toNat
      pure { b with bouquetId := bouquetId, bouquetName := name }
  else if tag = 0x5f then
    let specifier ← privateDataSpecifier desc 2
    pure { b with specifier := specifier }
  else pure b

/-! ## Transport streams -/

/-- What all entries of a transport stream have. -/
structure Stream where
  bouquetId : UInt16
  bouquetName : Str
  sectionNumber : Byte
  transportStreamId : UInt16
  originalNetworkId : UInt16

def Stream.entry (t : Stream) (serviceId position : UInt16) (serviceTyp : Byte) : SIbouquet :=
  ⟨t.bouquetId, t.bouquetName, t.originalNetworkId, t.transportStreamId, serviceId, position,
    serviceTyp⟩

/-- What a descriptor says for those behind it. -/
structure Notes where
  specifier : Nat
  privdesc : Option Str

structure State where
  notes : Notes
  count : Nat
  bsv : OrdMap Nat SIbouquet

def State.insert (bs : SIbouquet) (s : State) : State :=
  { s with bsv := s.bsv.insertNew bs.uniqueKey bs }

/-- The channel number of a service, in the `n` entries from `i` on. -/
def orderPosition (privdesc : Str) (serviceId : UInt16) : (n i : Nat) → Option UInt16
  | 0, _ => some 0xffff
  | n + 1, i => do
    let id ← word privdesc i
    if serviceId = id then word privdesc (i + 2) else orderPosition privdesc serviceId n (i + 4)

def positionOf (t : Stream) (serviceId : UInt16) (s : State) : Option UInt16 :=
  match s.notes.privdesc with
  | none => some (UInt16.ofNat ((t.sectionNumber &&& 0x1f).toNat * 2048 + s.count % 2048))
  | some privdesc => do
    let length ← read privdesc 1
    orderPosition privdesc serviceId (length.toNat / 4) 2

def serviceStep (t : Stream) (buf : Str) (i : Nat) (s : State) : Option (Nat × State) := do
  let serviceId ← word buf i
  let serviceTyp ← read buf (i + 2)
  let position ← positionOf t serviceId s
  pure (i + 3, { s.insert (t.entry serviceId position serviceTyp) with count := s.count + 1 })

/-- Entries of three bytes. -/
def serviceListDescriptor (t : Stream) (buf : Str) (s : State) : Option State := do
  let length ← read buf 1
  let r ← walk (serviceStep t buf) length.toNat 2 s
  pure r.2

def orderStep (t : Stream) (buf : Str) (i : Nat) (s : State) : Option (Nat × State) := do
  let serviceId ← word buf i
  let serviceTyp ← read buf (i + 2)
  let position ← word buf (i + 5)
  pure (i + 9, s.insert (t.entry serviceId position serviceTyp))

/-- `descriptor_length - 2` as an `unsigned short`. -/
def privdlen (length : Nat) : Nat := (length + 65536 - 2) % 65536

/-- Entries of nine bytes, behind two that are all ones. -/
def bskybDescriptor (t : Stream) (buf : Str) (s : State) : Option State := do
  let length ← read buf 1
  let unknown1 ← read buf 2
  if unknown1 = 0xff then
    let unknown2 ← read buf 3
    if unknown2 = 0xff then
      let r ← walk (orderStep t buf) (privdlen length.toNat - 4) 4 s
      pure r.2
    else pure s
  else pure s

/-- The descriptors that order the services of UPC, TPS, Canal+ and Irdeto. -/
def Orders (bouquetId : UInt16) (specifier : Nat) (tag : Byte) : Prop :=
  tag = 0x81 ∧ specifier = 0x55504300 ∨
  tag = 0x82 ∧ (specifier = 0x00000010 ∨ bouquetId = 0x0021) ∨
  tag = 0x83 ∧ (specifier = 0x000000c0 ∨ specifier = 0x0000003a) ∨
  tag = 0x93 ∧ (specifier = 0x00362275 ∨ bouquetId = CANALDIGITAAL)

instance (bouquetId : UInt16) (specifier : Nat) (tag : Byte) :
    Decidable (Orders bouquetId specifier tag) :=
  inferInstanceAs (Decidable (_ ∨ _))

/-- The services are taken the second time, where `loop_count` is zero. -/
def streamDescriptor (t : Stream) (second : Bool) (desc : Str) (_len : Nat) (s : State) :
    Option State := do
  let tag ← read desc 0
  if tag = 0x41 then
    if second ∧ s.notes.specifier ≠ 0x00000002 then serviceListDescriptor t desc s else pure s
  else if tag = 0x5f then
    let specifier ← privateDataSpecifier desc 2
    pure (if specifier = 0 then s else { s with notes.specifier := specifier })
  else if tag = 0xb1 then
    if second ∧ s.notes.specifier = 0x00000002 then bskybDescriptor t desc s else pure s
  else if Orders t.bouquetId s.notes.specifier tag then
    pure { s with notes.privdesc := some desc }
  else pure s

/-- One time through the descriptors. Whether they are in the section is not looked at. -/
def pass (t : Stream) (second : Bool) (buffer : Str) (start length : Nat) (s : State) :
    Option State := do
  let r ← walk (uncheckedStep (streamDescriptor t second) buffer (start + length))
    (start + length - 1) start s
  pure r.2

def streamStep (b : Bouquet) (buffer : Str) (actPos : Nat) (s : State) : Option (Nat × State) := do
  let sectionNumber ← read buffer 6
  let transportStreamId ← word buffer actPos
  let originalNetworkId ← word buffer (actPos + 2)
  let length ← loopLength buffer (actPos + 4)
  let t : Stream := ⟨b.bouquetId, b.bouquetName, sectionNumber, transportStreamId, originalNetworkId⟩
  let s ← pass t false buffer (actPos + 6) length { s with notes.privdesc := none }
  let s ← pass t true buffer (actPos + 6) length s
  pure (actPos + 6 + length, s)

def parse (buffer : Str) : Option (OrdMap Nat SIbouquet) :=
  if buffer.length < 16 then some .empty
  else do
    let bouquetId ← word buffer 3
    let length ← loopLength buffer 8
    let b ← walk (uncheckedStep bouquetDescriptor buffer (10 + length)) (10 + length - 1) 10
      ⟨bouquetId, [], 0⟩
    let _descriptorsLoopLength ← loopLength buffer (10 + length)
    if b.2.bouquetId = 0x0001 then pure .empty
    else
      let r ← walk (streamStep b.2 buffer) (buffer.length - 5) (12 + length)
        ⟨⟨b.2.specifier, none⟩, 0, .empty⟩
      pure r.2.bsv

end SIsectionBAT

end Tuxbox.Sectionsd
