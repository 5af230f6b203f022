import Tuxbox.Lib.OrdMap
import Tuxbox.Lib.Walk

/-!
# The events of the EPG cache

`eventData` keeps an event as its first ten bytes and the checksums of its descriptors.
The descriptors themselves are in a store that all events share, with a count of the
places they are used at.

There is no result where the code writes outside an array or ends the program.
-/

namespace Tuxbox.Enigma

open Buffer

instance crcLinearOrder : LinearOrder UInt32 where
  le_refl := UInt32.le_refl
  le_trans _ _ _ := UInt32.le_trans
  le_antisymm _ _ := UInt32.le_antisymm
  le_total := UInt32.le_total
  lt_iff_le_not_ge a b := by
    rw [UInt32.not_le]
    exact ⟨fun h => ⟨UInt32.le_of_lt h, h⟩, fun h => h.2⟩
  toDecidableLE := inferInstance
  toDecidableLT := inferInstance
  toDecidableEq := inferInstance

def crc32Table : List UInt32 :=
  [0x00000000, 0x04c11db7, 0x09823b6e, 0x0d4326d9, 0x130476dc, 0x17c56b6b, 0x1a864db2, 0x1e475005,
    0x2608edb8, 0x22c9f00f, 0x2f8ad6d6, 0x2b4bcb61, 0x350c9b64, 0x31cd86d3, 0x3c8ea00a, 0x384fbdbd,
    0x4c11db70, 0x48d0c6c7, 0x4593e01e, 0x4152fda9, 0x5f15adac, 0x5bd4b01b, 0x569796c2, 0x52568b75,
    0x6a1936c8, 0x6ed82b7f, 0x639b0da6, 0x675a1011, 0x791d4014, 0x7ddc5da3, 0x709f7b7a, 0x745e66cd,
    0x9823b6e0, 0x9ce2ab57, 0x91a18d8e, 0x95609039, 0x8b27c03c, 0x8fe6dd8b, 0x82a5fb52, 0x8664e6e5,
    0xbe2b5b58, 0xbaea46ef, 0xb7a96036, 0xb3687d81, 0xad2f2d84, 0xa9ee3033, 0xa4ad16ea, 0xa06c0b5d,
    0xd4326d90, 0xd0f37027, 0xddb056fe, 0xd9714b49, 0xc7361b4c, 0xc3f706fb, 0xceb42022, 0xca753d95,
    0xf23a8028, 0xf6fb9d9f, 0xfbb8bb46, 0xff79a6f1, 0xe13ef6f4, 0xe5ffeb43, 0xe8bccd9a, 0xec7dd02d,
    0x34867077, 0x30476dc0, 0x3d044b19, 0x39c556ae, 0x278206ab, 0x23431b1c, 0x2e003dc5, 0x2ac12072,
    0x128e9dcf, 0x164f8078, 0x1b0ca6a1, 0x1fcdbb16, 0x018aeb13, 0x054bf6a4, 0x0808d07d, 0x0cc9cdca,
    0x7897ab07, 0x7c56b6b0, 0x71159069, 0x75d48dde, 0x6b93dddb, 0x6f52c06c, 0x6211e6b5, 0x66d0fb02,
    0x5e9f46bf, 0x5a5e5b08, 0x571d7dd1, 0x53dc6066, 0x4d9b3063, 0x495a2dd4, 0x44190b0d, 0x40d816ba,
    0xaca5c697, 0xa864db20, 0xa527fdf9, 0xa1e6e04e, 0xbfa1b04b, 0xbb60adfc, 0xb6238b25, 0xb2e29692,
    0x8aad2b2f, 0x8e6c3698, 0x832f1041, 0x87ee0df6, 0x99a95df3, 0x9d684044, 0x902b669d, 0x94ea7b2a,
    0xe0b41de7, 0xe4750050, 0xe9362689, 0xedf73b3e, 0xf3b06b3b, 0xf771768c, 0xfa325055, 0xfef34de2,
    0xc6bcf05f, 0xc27dede8, 0xcf3ecb31, 0xcbffd686, 0xd5b88683, 0xd1799b34, 0xdc3abded, 0xd8fba05a,
    0x690ce0ee, 0x6dcdfd59, 0x608edb80, 0x644fc637, 0x7a089632, 0x7ec98b85, 0x738aad5c, 0x774bb0eb,
    0x4f040d56, 0x4bc510e1, 0x46863638, 0x42472b8f, 0x5c007b8a, 0x58c1663d, 0x558240e4, 0x51435d53,
    0x251d3b9e, 0x21dc2629, 0x2c9f00f0, 0x285e1d47, 0x36194d42, 0x32d850f5, 0x3f9b762c, 0x3b5a6b9b,
    0x0315d626, 0x07d4cb91, 0x0a97ed48, 0x0e56f0ff, 0x1011a0fa, 0x14d0bd4d, 0x19939b94, 0x1d528623,
    0xf12f560e, 0xf5ee4bb9, 0xf8ad6d60, 0xfc6c70d7, 0xe22b20d2, 0xe6ea3d65, 0xeba91bbc, 0xef68060b,
    0xd727bbb6, 0xd3e6a601, 0xdea580d8, 0xda649d6f, 0xc423cd6a, 0xc0e2d0dd, 0xcda1f604, 0xc960ebb3,
    0xbd3e8d7e, 0xb9ff90c9, 0xb4bcb610, 0xb07daba7, 0xae3afba2, 0xaafbe615, 0xa7b8c0cc, 0xa379dd7b,
    0x9b3660c6, 0x9ff77d71, 0x92b45ba8, 0x9675461f, 0x8832161a, 0x8cf30bad, 0x81b02d74, 0x857130c3,
    0x5d8a9099, 0x594b8d2e, 0x5408abf7, 0x50c9b640, 0x4e8ee645, 0x4a4ffbf2, 0x470cdd2b, 0x43cdc09c,
    0x7b827d21, 0x7f436096, 0x7200464f, 0x76c15bf8, 0x68860bfd, 0x6c47164a, 0x61043093, 0x65c52d24,
    0x119b4be9, 0x155a565e, 0x18197087, 0x1cd86d30, 0x029f3d35, 0x065e2082, 0x0b1d065b, 0x0fdc1bec,
    0x3793a651, 0x3352bbe6, 0x3e119d3f, 0x3ad08088, 0x2497d08d, 0x2056cd3a, 0x2d15ebe3, 0x29d4f654,
    0xc5a92679, 0xc1683bce, 0xcc2b1d17, 0xc8ea00a0, 0xd6ad50a5, 0xd26c4d12, 0xdf2f6bcb, 0xdbee767c,
    0xe3a1cbc1, 0xe760d676, 0xea23f0af, 0xeee2ed18, 0xf0a5bd1d, 0xf464a0aa, 0xf9278673, 0xfde69bc4,
    0x89b8fd09, 0x8d79e0be, 0x803ac667, 0x84fbdbd0, 0x9abc8bd5, 0x9e7d9662, 0x933eb0bb, 0x97ffad0c,
    0xafb010b1, 0xab710d06, 0xa6322bdf, 0xa2f33668, 0xbcb4666d, 0xb8757bda, 0xb5365d03, 0xb1f740b4]

def crcByte (crc : UInt32) (c : Byte) : UInt32 :=
  (crc <<< 8) ^^^ crc32Table.getD (((crc >>> 24) ^^^ c.toUInt32) &&& 0xFF).toNat 0

def crc32 (descr : Str) : UInt32 := descr.foldl crcByte 0

/-- The kinds of descriptors that are kept: extended and short events, linkage, components,
contents, time shifted events. -/
def isCached (tag : Byte) : Bool := [0x4E, 0x4D, 0x4A, 0x50, 0x54, 0x4F].contains tag

/-- `std::pair<__u16, __u8*>`: how often a descriptor is used, and its bytes. -/
structure DescriptorPair where
  first : UInt16
  second : Str

/-- The static members of `eventData`. -/
structure EventStore where
  descriptors : OrdMap UInt32 DescriptorPair
  cacheSize : Int

/-- An object; `EITdata` is `head` and behind it `ids`. -/
structure EventData where
  byteSize : UInt8
  type : UInt8
  head : Str
  ids : List UInt32

namespace EventStore

def start : EventStore := ⟨.empty, 0⟩

/-- One more place where a descriptor is used. -/
def use (descr : Str) (s : EventStore) : EventStore :=
  match s.descriptors.find (crc32 descr) with
  | none => ⟨s.descriptors.set (crc32 descr) ⟨1, descr⟩, s.cacheSize + descr.length⟩
  | some p =>
    { s with descriptors := s.descriptors.set (crc32 descr) { p with first := p.first + 1 } }

/-- One place less. What is not used any more is deleted, and its second byte, the length
behind the first two, is taken from the size. -/
def release (s : EventStore) (id : UInt32) : Option EventStore :=
  match s.descriptors.find id with
  | none => none
  | some p =>
    if p.first - 1 = 0 then do
      let length ← read p.second 1
      pure ⟨s.descriptors.erase id, s.cacheSize - length.toNat⟩
    else some { s with descriptors := s.descriptors.set id { p with first := p.first - 1 } }

end EventStore

/-- One descriptor. A descriptor that is cut off ends the loop. -/
def descriptorStep (e : Str) (size ptr : Nat) (r : EventStore × List UInt32) :
    Option (Nat × (EventStore × List UInt32)) := do
  let tag ← read e ptr
  let length ← read e (ptr + 1)
  if size - ptr ≥ length.toNat + 2 then
    if isCached tag then
      let descr ← string e ptr (length.toNat + 2)
      pure (ptr + (length.toNat + 2), (r.1.use descr, r.2 ++ [crc32 descr]))
    else pure (ptr + (length.toNat + 2), r)
  else pure (size, r)

/-- The ids are collected in an array of 65. The size of `EITdata` is a byte. -/
def initEventData (e : Str) (size type : Nat) (s : EventStore) : Option (EventStore × EventData) := do
  let r ← walk (descriptorStep e size) (size - 1) 12 (s, [])
  let ids := r.2.2
  let byteSize := UInt8.ofNat (10 + ids.length * 4)
  if ids.length > 65 ∨ byteSize.toNat < 10 then none
  else
    let head ← string e 0 10
    pure ({ r.2.1 with cacheSize := r.2.1.cacheSize + byteSize.toNat },
      ⟨byteSize, UInt8.ofNat type, head, ids.take ((byteSize.toNat - 10) / 4)⟩)

namespace EventData

/-- A descriptor of the event, as many bytes as it says it has. -/
def descriptor (s : EventStore) (id : UInt32) : Option Str := do
  let p ← s.descriptors.find id
  let length ← read p.second 1
  string p.second 0 (length.toNat + 2)

/-- The event is put together in a buffer of 4108 bytes. -/
def get (s : EventStore) (o : EventData) : Option Str := do
  let descriptors ← o.ids.mapM (descriptor s)
  let length := descriptors.flatten.length
  if 12 + length > 4108 then none
  else pure (o.head ++ [UInt8.ofNat (length / 256 % 16), UInt8.ofNat (length % 256)] ++
    descriptors.flatten)

def destroy (s : EventStore) (o : EventData) : Option EventStore :=
  if o.byteSize = 0 then some s
  else o.ids.foldlM EventStore.release { s with cacheSize := s.cacheSize - o.byteSize.toNat }

end EventData

end Tuxbox.Enigma
