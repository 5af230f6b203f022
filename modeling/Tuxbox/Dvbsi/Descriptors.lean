import Tuxbox.Dvbsi.CaProgramMap
import Tuxbox.Lib.Parse

/-!
# Descriptor constructors of libdvbsi++

The constructors with loops over entries. Each is given the memory from its
descriptor's tag on; an entry's constructor is given the index of its first byte.
A field that the source leaves unset is `none`.
-/

namespace Tuxbox.Dvbsi

open Parse

/-- The base class reads the tag, the length and that many bytes. -/
def descriptor (p : Nat) : Parse Descriptor := fun m =>
  (.ok ⟨m p, m.slice (p + 2) (m (p + 1)).toNat, by simpa using (m (p + 1)).toNat_lt⟩,
    p + 2 + (m (p + 1)).toNat)

theorem descriptor_apply {m : Memory} (p : Nat) : ∃ d : Descriptor, d.getLength = (m (p + 1)).toNat ∧
    descriptor p m = (.ok d, p + 2 + (m (p + 1)).toNat) :=
  ⟨_, by simp [Descriptor.getLength], rfl⟩

/-- The steps of a loop `for (i = 0; i < length; i += size)`. -/
def steps (length size : Nat) : List Nat := List.range' 0 ((length + (size - 1)) / size) size

/-- The difference of two `size_t`, which wraps. -/
def sizeSub (a b : Nat) : Nat := if b ≤ a then a - b else 2 ^ 32 + a - b

/-! ## Content identifiers -/

structure ContentReferenceIdentifier where
  type : Byte
  location : Byte
  length : Option Nat
  cridBytes : Str
  reference : Option Nat

/-- The bytes are copied to a vector that was only reserved, which stays empty. -/
def contentReferenceIdentifier (p : Nat) : Parse ContentReferenceIdentifier := do
  let b ← read p
  let type := (b >>> 2) &&& 0x3f
  let location := b &&& 0x03
  if location = 0 then
    let length ← read (p + 1)
    let _ ← bytes (p + 2) length.toNat
    pure ⟨type, location, some length.toNat, [], some 0⟩
  else if location = 1 then
    let reference ← r16 (p + 2)
    pure ⟨type, location, some 0, [], some reference⟩
  else pure ⟨type, location, none, [], none⟩

def contentIdentifierEntry (i : Nat) : Parse (ContentReferenceIdentifier × Nat) := do
  let crid ← contentReferenceIdentifier (2 + i)
  let next := if crid.location = 0 then i + (crid.length.getD 0 + 2)
    else if crid.location = 1 then i + 3 else i
  pure (crid, next)

def contentIdentifierDescriptor (fuel : Nat) : Parse (List ContentReferenceIdentifier) := do
  let d ← descriptor 0
  loop contentIdentifierEntry d.getLength fuel 0

/-! ## Mosaics -/

structure MosaicCell where
  logicalCellId : Byte
  logicalCellPresentationInfo : Byte
  elementaryCellFieldLength : Byte
  elementaryCellFields : List Byte
  cellLinkageInfo : Byte
  bouquetId : Option Nat
  eventId : Option Nat
  originalNetworkId : Option Nat
  transportStreamId : Option Nat
  serviceId : Option Nat

def elementaryCellField (p : Nat) : Parse Byte := do
  let b ← read p
  pure (b &&& 0x3f)

def mosaicCell (p : Nat) : Parse MosaicCell := do
  let b0 ← read p
  let b1 ← read (p + 1)
  let length ← read (p + 2)
  let fields ← each (fun i => elementaryCellField (p + 3 + i)) (steps length.toNat 1)
  let info ← read (p + length.toNat + 3)
  let cell : MosaicCell :=
    ⟨(b0 >>> 2) &&& 0x3f, b1 &&& 0x07, length, fields, info, none, none, none, none, none⟩
  let q := p + length.toNat
  if info = 0x01 then
    let bouquetId ← r16 (q + 4)
    pure { cell with bouquetId := some bouquetId }
  else if info = 0x02 ∨ info = 0x03 ∨ info = 0x04 then
    let eventId ← if info = 0x04 then (do let e ← r16 (q + 10); pure (some e)) else pure none
    let originalNetworkId ← r16 (q + 4)
    let transportStreamId ← r16 (q + 6)
    let serviceId ← r16 (q + 8)
    pure { cell with
      eventId := eventId
      originalNetworkId := some originalNetworkId
      transportStreamId := some transportStreamId
      serviceId := some serviceId }
  else pure cell

structure Mosaic where
  mosaicEntryPoint : Byte
  numberOfHorizontalElementaryCells : Byte
  numberOfVerticalElementaryCells : Byte
  mosaicCells : List MosaicCell

/-- The local variable `elementaryCellFieldLength`, from the linkage of a cell. -/
def linkageLength (info : Byte) : Nat :=
  if info = 0x01 then 2
  else if info = 0x02 ∨ info = 0x03 then 6
  else if info = 0x04 then 8
  else 0

def mosaicEntry (i : Nat) : Parse (MosaicCell × Nat) := do
  let cell ← mosaicCell (i + 3)
  let length ← read (i + 5)
  let info ← read (i + 5 + length.toNat + 1)
  pure (cell, (i + (length.toNat + 4 + linkageLength info)) % 2 ^ 32)

def mosaicDescriptor (fuel : Nat) : Parse Mosaic := do
  let d ← descriptor 0
  let b ← read 2
  let cells ← loop mosaicEntry (sizeSub d.getLength 1) fuel 0
  pure ⟨(b >>> 7) &&& 0x01, (b >>> 4) &&& 0x07, b &&& 0x07, cells⟩

/-! ## Cells of a terrestrial network -/

structure SubcellInfo where
  cellIdExtension : Byte
  transposerFrequency : Nat

def subcellInfo (p : Nat) : Parse SubcellInfo := do
  let cellIdExtension ← read p
  let transposerFrequency ← r32 (p + 1)
  pure ⟨cellIdExtension, transposerFrequency⟩

structure CellFrequencyLink where
  cellId : Nat
  frequency : Nat
  subcellInfoLoopLength : Byte
  subcells : List SubcellInfo

def cellFrequencyLink (p : Nat) : Parse CellFrequencyLink := do
  let cellId ← r16 p
  let frequency ← r32 (p + 2)
  let length ← read (p + 6)
  let subcells ← each (fun i => subcellInfo (p + 7 + i)) (steps length.toNat 5)
  pure ⟨cellId, frequency, length, subcells⟩

def cellFrequencyLinkEntry (descriptorLength i : Nat) : Parse (CellFrequencyLink × Nat) := do
  let length ← read (i + 10)
  require (i + length.toNat + 6 ≤ descriptorLength)
  let link ← cellFrequencyLink (i + 2)
  pure (link, i + (length.toNat + 6))

def cellFrequencyLinkDescriptor (fuel : Nat) : Parse (List CellFrequencyLink) := do
  let d ← descriptor 0
  loop (cellFrequencyLinkEntry d.getLength) d.getLength fuel 0

structure Subcell where
  cellIdExtension : Byte
  subcellLatitude : Nat
  subcellLongitude : Nat
  subcellExtendOfLatitude : Nat
  subcellExtendOfLongitude : Nat

def subcell (p : Nat) : Parse Subcell := do
  let cellIdExtension ← read p
  let latitude ← r16 (p + 1)
  let longitude ← r16 (p + 3)
  let extendOfLatitude ← r16 (p + 5)
  let extendOfLongitude ← r16 (p + 6)
  pure ⟨cellIdExtension, latitude, longitude, extendOfLatitude >>> 4, extendOfLongitude &&& 0x0fff⟩

structure Cell where
  cellId : Nat
  cellLatitude : Nat
  cellLongtitude : Nat
  cellExtendOfLatitude : Nat
  cellExtendOfLongtitude : Nat
  subcellInfoLoopLength : Byte
  subcells : List Subcell

def cell (p : Nat) : Parse Cell := do
  let cellId ← r16 p
  let latitude ← r16 (p + 2)
  let longtitude ← r16 (p + 4)
  let extendOfLatitude ← r16 (p + 6)
  let extendOfLongtitude ← r16 (p + 7)
  let length ← read (p + 9)
  let subcells ← each (fun i => subcell (p + 10 + i)) (steps length.toNat 8)
  pure ⟨cellId, latitude, longtitude, extendOfLatitude >>> 4, extendOfLongtitude &&& 0x0fff,
    length, subcells⟩

def cellListEntry (i : Nat) : Parse (Cell × Nat) := do
  let c ← cell (i + 2)
  let length ← read (i + 11)
  pure (c, i + (length.toNat + 10))

def cellListDescriptor (fuel : Nat) : Parse (List Cell) := do
  let d ← descriptor 0
  loop cellListEntry d.getLength fuel 0

/-! ## Data in the blanking interval -/

structure VbiDataLine where
  fieldParity : Byte
  lineOffset : Byte

def vbiDataLine (p : Nat) : Parse VbiDataLine := do
  let b ← read p
  pure ⟨(b >>> 5) &&& 0x01, b &&& 0x1f⟩

structure VbiDataService where
  dataServiceId : Byte
  dataServiceDescriptorLength : Byte
  vbiDataLines : List VbiDataLine

def hasVbiDataLines (dataServiceId : Byte) : Bool :=
  dataServiceId ∈ ([0x01, 0x02, 0x04, 0x05, 0x06, 0x07] : List Byte)

def vbiDataService (p : Nat) : Parse VbiDataService := do
  let dataServiceId ← read p
  let length ← read (p + 1)
  if hasVbiDataLines dataServiceId then
    let vbiDataLines ← each (fun i => vbiDataLine (p + 2 + i)) (steps length.toNat 1)
    pure ⟨dataServiceId, length, vbiDataLines⟩
  else pure ⟨dataServiceId, length, []⟩

def vbiDataEntry (i : Nat) : Parse (VbiDataService × Nat) := do
  let service ← vbiDataService (i + 2)
  let length ← read (i + 3)
  pure (service, i + (length.toNat + 2))

def vbiDataDescriptor (fuel : Nat) : Parse (List VbiDataService) := do
  let d ← descriptor 0
  loop vbiDataEntry d.getLength fuel 0

/-! ## Extended events -/

structure ExtendedEvent where
  itemDescriptionLength : Byte
  itemDescription : Str
  itemLength : Byte
  item : Str

def extendedEvent (p : Nat) : Parse ExtendedEvent := do
  let itemDescriptionLength ← read p
  let itemDescription ← bytes (p + 1) itemDescriptionLength.toNat
  let itemLength ← read (p + itemDescriptionLength.toNat + 1)
  let item ← bytes (p + itemDescriptionLength.toNat + 2) itemLength.toNat
  pure ⟨itemDescriptionLength, itemDescription, itemLength, item⟩

def extendedEventEntry (i : Nat) : Parse (ExtendedEvent × Nat) := do
  let e ← extendedEvent (i + 7)
  pure (e, i + (e.itemDescriptionLength.toNat + e.itemLength.toNat + 2))

structure ExtendedEvents where
  descriptorNumber : Byte
  lastDescriptorNumber : Byte
  iso639LanguageCode : Str
  lengthOfItems : Byte
  items : List ExtendedEvent
  textLength : Byte
  text : Str

def extendedEventDescriptor (fuel : Nat) : Parse ExtendedEvents := do
  let d ← descriptor 0
  require (6 ≤ d.getLength)
  let b ← read 2
  let iso639LanguageCode ← bytes 3 3
  let lengthOfItems ← read 6
  require (6 + lengthOfItems.toNat ≤ d.getLength)
  let items ← loop extendedEventEntry lengthOfItems.toNat fuel 0
  let textLength ← read (lengthOfItems.toNat + 7)
  require (6 + lengthOfItems.toNat + textLength.toNat ≤ d.getLength)
  let text ← bytes (lengthOfItems.toNat + 8) textLength.toNat
  pure ⟨(b >>> 4) &&& 0x0f, b &&& 0x0f, iso639LanguageCode, lengthOfItems, items, textLength, text⟩

/-! ## Service availability and linkage -/

structure ServiceAvailability where
  availabilityFlag : Byte
  cellIds : List Nat

def cellIdEntry (descriptorLength i : Nat) : Parse (Nat × Nat) := do
  require (i + 3 ≤ descriptorLength)
  let cellId ← r16 (i + 3)
  pure (cellId, i + 2)

def serviceAvailabilityDescriptor (fuel : Nat) : Parse ServiceAvailability := do
  let d ← descriptor 0
  require (1 ≤ d.getLength)
  let b ← read 2
  let cellIds ← loop (cellIdEntry d.getLength) (sizeSub d.getLength 1) fuel 0
  pure ⟨(b >>> 7) &&& 0x01, cellIds⟩

structure Linkage where
  transportStreamId : Nat
  originalNetworkId : Nat
  serviceId : Nat
  linkageType : Byte
  privateDataBytes : Str
  handOverType : Option Byte
  originType : Option Byte
  networkId : Option Nat
  initialServiceId : Option Nat

/-- The network id of a hand-over, with the new `offset`. -/
def handOverNetwork (descriptorLength : Nat) (handOverType : Byte) : Parse (Option Nat × Nat) :=
  if 0x01 ≤ handOverType ∧ handOverType ≤ 0x03 then do
    require (10 ≤ descriptorLength)
    let networkId ← r16 10
    pure (some networkId, 2)
  else pure (none, 0)

/-- The service id of a hand-over, with the new `offset`. -/
def handOverService (descriptorLength offset : Nat) (originType : Byte) : Parse (Option Nat × Nat) :=
  if originType = 0x00 then do
    require (8 + offset + 2 ≤ descriptorLength)
    let initialServiceId ← r16 (offset + 10)
    pure (some initialServiceId, offset + 2)
  else pure (none, offset)

/-- `headerLength` is eight and the `offset` behind the hand-over byte. -/
def linkageDescriptor : Parse Linkage := do
  let d ← descriptor 0
  require (7 ≤ d.getLength)
  let transportStreamId ← r16 2
  let originalNetworkId ← r16 4
  let serviceId ← r16 6
  let linkageType ← read 8
  if linkageType ≠ 0x08 then
    let privateDataBytes ← bytes 9 (d.getLength - 7)
    pure ⟨transportStreamId, originalNetworkId, serviceId, linkageType, privateDataBytes,
      none, none, none, none⟩
  else
    require (8 ≤ d.getLength)
    let b ← read 9
    let handOverType := (b >>> 4) &&& 0x0f
    let originType := b &&& 0x01
    let network ← handOverNetwork d.getLength handOverType
    let service ← handOverService d.getLength network.2 originType
    let offset := service.2
    let privateDataBytes ← bytes (offset + 10) (d.getLength - (8 + offset))
    pure ⟨transportStreamId, originalNetworkId, serviceId, linkageType, privateDataBytes,
      some handOverType, some originType, network.1, service.1⟩

/-! ## Transport protocols -/

structure OcTransport where
  remoteConnection : Byte
  originalNetworkId : Nat
  transportStreamId : Nat
  serviceId : Nat
  componentTag : Byte

def ocTransport (p : Nat) : Parse OcTransport := do
  let b ← read p
  let originalNetworkId ← r16 (p + 1)
  let transportStreamId ← r16 (p + 3)
  let serviceId ← r16 (p + 5)
  let componentTag ← read (p + 7)
  pure ⟨(b >>> 7) &&& 0x01, originalNetworkId, transportStreamId, serviceId, componentTag⟩

structure Url where
  urlLength : Byte
  url : Str

/-- `assign` is called with a count and a character: the first byte of the text
says how often the length byte is repeated. -/
def url (p : Nat) : Parse Url := do
  let urlLength ← read p
  let count ← read (p + 1)
  pure ⟨urlLength, List.replicate count.toNat urlLength⟩

/-- A loop over the addresses from `p` on. -/
def urlEntry (p i : Nat) : Parse (Url × Nat) := do
  let u ← url (p + i)
  pure (u, (i + (u.urlLength.toNat + 1)) % 2 ^ 32)

structure IpTransport where
  remoteConnection : Byte
  originalNetworkId : Nat
  transportStreamId : Nat
  serviceId : Nat
  alignmentIndicator : Byte
  urls : List Url

def ipTransport (fuel p length : Nat) : Parse IpTransport := do
  let b ← read p
  let originalNetworkId ← r16 (p + 1)
  let transportStreamId ← r16 (p + 3)
  let serviceId ← r16 (p + 5)
  let a ← read (p + 7)
  let urls ← loop (urlEntry (p + 8)) length fuel 0
  pure ⟨(b >>> 7) &&& 0x01, originalNetworkId, transportStreamId, serviceId, (a >>> 7) &&& 0x01, urls⟩

structure InteractionTransport where
  urlBase : Url
  urlExtensions : List Url

def interactionTransport (fuel p length : Nat) : Parse InteractionTransport := do
  let urlBase ← url p
  let urlExtensions ← loop (urlEntry (p + (urlBase.urlLength.toNat + 1)))
    (sizeSub length (urlBase.urlLength.toNat + 1)) fuel 0
  pure ⟨urlBase, urlExtensions⟩

/-- What the descriptor holds besides its protocol id. -/
inductive Transport where
  | oc (t : OcTransport)
  | ip (t : IpTransport)
  | interaction (t : InteractionTransport)
  | none

structure TransportProtocol where
  protocolId : Nat
  transportProtocolLabel : Byte
  transport : Transport

def transportProtocolDescriptor (fuel : Nat) : Parse TransportProtocol := do
  let d ← descriptor 0
  require (5 ≤ d.getLength)
  let protocolId ← r16 2
  let label ← read 4
  if protocolId = 0x0001 then
    require (13 ≤ d.getLength)
    let t ← ocTransport 5
    pure ⟨protocolId, label, .oc t⟩
  else if protocolId = 0x0002 then
    let t ← ipTransport fuel 5 (d.getLength - 5)
    pure ⟨protocolId, label, .ip t⟩
  else if protocolId = 0x0003 then
    let t ← interactionTransport fuel 5 (d.getLength - 5)
    pure ⟨protocolId, label, .interaction t⟩
  else pure ⟨protocolId, label, .none⟩

/-! ## The kinds -/

inductive Kind where
  | contentIdentifier
  | mosaic
  | cellFrequencyLink
  | cellList
  | vbiData
  | extendedEvent
  | serviceAvailability
  | linkage
  | transportProtocol
  deriving DecidableEq

/-- The run of a constructor, without the object it builds. -/
def construct (k : Kind) (fuel : Nat) : Parse Unit :=
  match k with
  | .contentIdentifier => contentIdentifierDescriptor fuel >>= fun _ => pure ()
  | .mosaic => mosaicDescriptor fuel >>= fun _ => pure ()
  | .cellFrequencyLink => cellFrequencyLinkDescriptor fuel >>= fun _ => pure ()
  | .cellList => cellListDescriptor fuel >>= fun _ => pure ()
  | .vbiData => vbiDataDescriptor fuel >>= fun _ => pure ()
  | .extendedEvent => extendedEventDescriptor fuel >>= fun _ => pure ()
  | .serviceAvailability => serviceAvailabilityDescriptor fuel >>= fun _ => pure ()
  | .linkage => linkageDescriptor >>= fun _ => pure ()
  | .transportProtocol => transportProtocolDescriptor fuel >>= fun _ => pure ()

end Tuxbox.Dvbsi
