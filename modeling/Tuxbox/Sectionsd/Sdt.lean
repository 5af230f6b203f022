import Tuxbox.Sectionsd.DvbString
import Tuxbox.Sectionsd.EitBounds

/-! The service description sections of sectionsd. The parsers of the descriptors
do not look at the length of the section. Main result: `parse_ends_iff_fits`. -/
namespace Tuxbox.Sectionsd

open Buffer
open Parse (Starts)

structure SInvodReference where
  transportStreamId : UInt16
  originalNetworkId : UInt16
  serviceId : UInt16
  deriving DecidableEq

def SInvodReference.uniqueKey (r : SInvodReference) : Nat :=
  createChannelId r.serviceId r.originalNetworkId r.transportStreamId

structure SIservice where
  serviceId : UInt16
  originalNetworkId : UInt16
  transportStreamId : UInt16
  serviceTyp : Byte
  nvods : OrdMap Nat SInvodReference
  serviceName : Str
  providerName : Str
  eitScheduleFlag : Bool
  eitPresentFollowingFlag : Bool
  runningStatus : Nat
  freeCAmode : Bool

/-- The ids change places, for the sake of older data. -/
def SIservice.uniqueKey (s : SIservice) : Nat :=
  createChannelId s.serviceId s.transportStreamId s.originalNetworkId

def checkBlacklisted (onid tsid : UInt16) : Bool :=
  (onid == 0x0001 && [0x03F0, 0x0408, 0x040E, 0x0412, 0x0416, 0x041E, 0x0420, 0x0422, 0x0424].contains
    tsid) || tsid == 0x0444

namespace SIsectionSDT

def nvodStep (buf : Str) (spointer : Nat) (s : SIservice) : Option (Nat × SIservice) := do
  let transportStreamId ← word buf spointer
  let originalNetworkId ← word buf (spointer + 2)
  let sID ← word buf (spointer + 4)
  let ref : SInvodReference := ⟨transportStreamId, originalNetworkId, sID⟩
  pure (spointer + 6, { s with nvods := s.nvods.insertNew ref.uniqueKey ref })

/-- The loop runs as long as `spointer <= buf + descriptor_length`. -/
def parseNVODreferenceDescriptor (buf : Str) (s : SIservice) : Option SIservice := do
  let length ← read buf 1
  let r ← walk (nvodStep buf) (length.toNat + 1) 2 s
  pure r.2

/-- A name is copied up to a zero byte in order to put a code table in front of it. -/
def nameAt (copied : Prop) [Decidable copied] (buf : Str) (i n : Nat) : Option Str :=
  if copied then copiedString buf i n else dvbString buf i n

def takeProviderName (isBlacklisted : Bool) (buf : Str) (n : Nat) (s : SIservice) :
    Option SIservice :=
  if n = 0 then some s
  else do
    let first ← read buf 4
    let name ← nameAt (first > 0x05 ∧ isBlacklisted) buf 4 n
    pure { s with providerName := name }

/-- The byte in front of the name, its length, is what is compared. -/
def takeServiceName (isBlacklisted : Bool) (buf : Str) (i : Nat) (s : SIservice) :
    Option SIservice := do
  let servicenamelength ← read buf i
  if servicenamelength.toNat = 0 then pure s
  else
    let name ← nameAt (servicenamelength.toNat + 1 > 0x05 ∧ isBlacklisted) buf (i + 1)
      servicenamelength.toNat
    pure { s with serviceName := name }

def parseServiceDescriptor (buf : Str) (s : SIservice) : Option SIservice := do
  let serviceTyp ← read buf 2
  let isBlacklisted := checkBlacklisted s.originalNetworkId s.transportStreamId
  let n ← read buf 3
  let s ← takeProviderName isBlacklisted buf n.toNat { s with serviceTyp := serviceTyp }
  takeServiceName isBlacklisted buf (4 + n.toNat) s

/-- The comparison with the fourth byte is made before the bytes are joined. -/
def parsePrivateDataDescriptor (buf : Str) (s : SIservice) : Option SIservice := do
  let byte1 ← read buf 2
  let byte2 ← read buf 3
  let byte3 ← read buf 4
  let byte4 ← read buf 5
  pure (if (byte1 ≠ 0 ∨ byte2 ≠ 0 ∨ byte3 ≠ 0 ∨ byte4 = 0xc0) ∧ s.serviceTyp = 0xc3 then
    { s with serviceTyp := 0x01 } else s)

def parseDescriptor (desc : Str) (_len : Nat) (s : SIservice) : Option SIservice := do
  let tag ← read desc 0
  if tag = 0x48 then parseServiceDescriptor desc s
  else if tag = 0x4b then parseNVODreferenceDescriptor desc s
  else if tag = 0x5f then parsePrivateDataDescriptor desc s
  else pure s

def parseDescriptors (sv : Str) (total : Nat) (s : SIservice) : Option SIservice := do
  let r ← walk (checkedStep parseDescriptor sv total) (total - 1) 5 s
  pure r.2

def serviceStep (buffer : Str) (actPos : Nat) (svs : OrdMap Nat SIservice) :
    Option (Nat × OrdMap Nat SIservice) := do
  let sv := buffer.drop actPos
  let serviceId ← word sv 0
  let eit ← read sv 2
  let flags ← read sv 3
  let originalNetworkId ← word buffer 8
  let transportStreamId ← word buffer 3
  let length ← loopLength sv 3
  let s ← parseDescriptors sv (min (buffer.length - actPos) (5 + length)) {
    serviceId := serviceId, originalNetworkId := originalNetworkId
    transportStreamId := transportStreamId, serviceTyp := 0, nvods := .empty
    serviceName := [], providerName := []
    eitScheduleFlag := eit &&& 0x02 ≠ 0, eitPresentFollowingFlag := eit &&& 0x01 ≠ 0
    runningStatus := (flags >>> 5).toNat, freeCAmode := flags &&& 0x10 ≠ 0 }
  pure (actPos + (5 + length), svs.insertNew s.uniqueKey s)

/-- The loop runs as long as a header of a service is left. -/
def parse (buffer : Str) : Option (OrdMap Nat SIservice) :=
  if buffer.length < 16 then some .empty
  else do
    let r ← walk (serviceStep buffer) (buffer.length - 4) 11 .empty
    pure r.2

/-! ## Sections that fit -/

def NameFits (copied : Prop) (buf : Str) (i n : Nat) : Prop :=
  (copied → CopyFits buf i n) ∧ (¬ copied → StringFits buf i n)

structure ServiceFits (isBlacklisted : Bool) (buf : Str) : Prop where
  provider : lengthAt buf 3 ≠ 0 →
    NameFits (buf.getD 4 0 > 0x05 ∧ isBlacklisted) buf 4 (lengthAt buf 3)
  nameLength : 4 + lengthAt buf 3 < buf.length
  name : lengthAt buf (4 + lengthAt buf 3) ≠ 0 →
    NameFits (lengthAt buf (4 + lengthAt buf 3) + 1 > 0x05 ∧ isBlacklisted) buf
      (4 + lengthAt buf 3 + 1) (lengthAt buf (4 + lengthAt buf 3))

structure DescriptorFits (isBlacklisted : Bool) (buf : Str) : Prop where
  service : buf.getD 0 0 = 0x48 → ServiceFits isBlacklisted buf
  reference : buf.getD 0 0 = 0x4b → ∀ k, 2 + 6 * k ≤ lengthAt buf 1 → 8 + 6 * k ≤ buf.length
  privateData : buf.getD 0 0 = 0x5f → 6 ≤ buf.length

def serviceLength (buf : Str) (p : Nat) : Nat := 5 + loopLengthAt buf (p + 3)

def nextService (buf : Str) (p : Nat) : Nat := p + serviceLength buf p

/-- The bytes of a service that are in the section. -/
def serviceTotal (buf : Str) (p : Nat) : Nat := min (buf.length - p) (serviceLength buf p)

/-- The networks of the section as a whole. -/
def blacklistedAt (buf : Str) : Bool := checkBlacklisted (wordAt buf 8) (wordAt buf 3)

def ServiceAtFits (buf : Str) (p : Nat) : Prop :=
  ∀ d, Starts (nextDescriptor (buf.drop p) (serviceTotal buf p)) (serviceTotal buf p - 1) 5 d →
    d < serviceTotal buf p - 1 → DescriptorFits (blacklistedAt buf) ((buf.drop p).drop d)

def Fits (buf : Str) : Prop :=
  16 ≤ buf.length → ∀ p, Starts (nextService buf) (buf.length - 4) 11 p →
    p < buf.length - 4 → ServiceAtFits buf p

/-! ## Descriptors -/

section
variable {buf : Str} {s : SIservice}

theorem nameAt_isSome {copied : Prop} [Decidable copied] {i n : Nat} (hn : n ≠ 0) :
    (∃ t, nameAt copied buf i n = some t) ↔ NameFits copied buf i n := by
  unfold nameAt NameFits
  split
  · rename_i h
    rw [copiedString_isSome]
    exact ⟨fun hfit => ⟨fun _ => hfit, fun hno => absurd h hno⟩, fun hfit => hfit.1 h⟩
  · rename_i h
    rw [dvbString_isSome hn]
    exact ⟨fun hfit => ⟨fun hcopied => absurd hcopied h, fun _ => hfit⟩, fun hfit => hfit.2 h⟩

theorem takeProviderName_iff {isBlacklisted : Bool} {n : Nat} (h4 : 4 < buf.length) :
    (∃ s', takeProviderName isBlacklisted buf n s = some s') ↔
      (n ≠ 0 → NameFits (buf.getD 4 0 > 0x05 ∧ isBlacklisted) buf 4 n) := by
  unfold takeProviderName
  split
  · rename_i hzero
    exact iff_of_true ⟨_, rfl⟩ fun h => absurd hzero h
  · rename_i hpos
    rw [exists_read, and_iff_right h4, exists_bind_pure,
      nameAt_isSome hpos, forall_prop_of_true hpos]

theorem takeServiceName_iff {isBlacklisted : Bool} {i : Nat} :
    (∃ s', takeServiceName isBlacklisted buf i s = some s') ↔
      i < buf.length ∧ (lengthAt buf i ≠ 0 →
        NameFits (lengthAt buf i + 1 > 0x05 ∧ isBlacklisted) buf (i + 1) (lengthAt buf i)) := by
  unfold takeServiceName
  rw [exists_read]
  apply and_congr_right
  intro _
  split
  · rename_i hzero
    exact iff_of_true ⟨_, rfl⟩ fun h => absurd hzero h
  · rename_i hpos
    rw [exists_bind_pure, nameAt_isSome hpos]
    exact ⟨fun h _ => h, fun h => h hpos⟩

theorem parseServiceDescriptor_iff :
    (∃ s', parseServiceDescriptor buf s = some s') ↔
      ServiceFits (checkBlacklisted s.originalNetworkId s.transportStreamId) buf := by
  unfold parseServiceDescriptor
  rw [exists_read, exists_read, exists_bind_iff fun _ => takeServiceName_iff]
  constructor
  · rintro ⟨-, -, hprovider, hlength, hname⟩
    have h4 : 4 < buf.length := by omega
    exact ⟨(takeProviderName_iff h4).mp hprovider, hlength, hname⟩
  · rintro ⟨hprovider, hlength, hname⟩
    have h4 : 4 < buf.length := by omega
    exact ⟨by omega, by omega, (takeProviderName_iff h4).mpr hprovider, hlength, hname⟩

theorem nvodStep_isSome {i : Nat} :
    (∃ r, nvodStep buf i s = some r) ↔ i + 6 ≤ buf.length := by
  unfold nvodStep
  rw [exists_bind_iff (P := i + 6 ≤ buf.length) fun _ => ?_]
  · rw [word_isSome]
    omega
  · rw [exists_bind_iff (P := i + 6 ≤ buf.length) fun _ => ?_]
    · rw [word_isSome]
      omega
    · rw [exists_bind_pure, word_isSome]
      omega

theorem nvodStep_next {i : Nat} {r : Nat × SIservice} (h : nvodStep buf i s = some r) :
    r.1 = i + 6 ∧ r.2.originalNetworkId = s.originalNetworkId ∧
      r.2.transportStreamId = s.transportStreamId := by
  unfold nvodStep at h
  obtain ⟨t, -, h⟩ := Option.bind_eq_some_iff.mp h
  obtain ⟨o, -, h⟩ := Option.bind_eq_some_iff.mp h
  obtain ⟨sid, -, h⟩ := Option.bind_eq_some_iff.mp h
  rw [← Option.some_inj.mp h]
  exact ⟨rfl, rfl, rfl⟩

theorem nvodStep_moves (buf : Str) (stop : Nat) : Moves (nvodStep buf) stop :=
  fun i s r _ h => by
    rw [(nvodStep_next h).1]
    omega

theorem parseNVODreferenceDescriptor_iff (h1 : 1 < buf.length) :
    (∃ s', parseNVODreferenceDescriptor buf s = some s') ↔
      ∀ k, 2 + 6 * k ≤ lengthAt buf 1 → 8 + 6 * k ≤ buf.length := by
  unfold parseNVODreferenceDescriptor
  rw [exists_read, and_iff_right h1, exists_bind_pure,
    walk_ends_iff (fun i => i + 6) (fun i => i + 6 ≤ buf.length) (nvodStep_moves buf _)
      (fun i s r _ h => (nvodStep_next h).1) (fun i s _ => nvodStep_isSome)]
  constructor
  · intro h k hk
    have := h (2 + 6 * k) (starts_stride.mpr ⟨k, rfl, fun i hi => by
      change 2 + 6 * i < lengthAt buf 1 + 1
      omega⟩) (Nat.lt_succ_of_le hk)
    omega
  · intro h j hj hjs
    obtain ⟨k, rfl, -⟩ := starts_stride.mp hj
    have := h k (Nat.le_of_lt_succ hjs)
    omega

theorem parsePrivateDataDescriptor_iff :
    (∃ s', parsePrivateDataDescriptor buf s = some s') ↔ 6 ≤ buf.length := by
  unfold parsePrivateDataDescriptor
  simp only [exists_read]
  exact ⟨fun h => h.2.2.2.1, fun h => ⟨by omega, by omega, by omega, h, _, rfl⟩⟩

theorem parseDescriptor_iff {len : Nat} (h1 : 1 < buf.length) :
    (∃ s', parseDescriptor buf len s = some s') ↔
      DescriptorFits (checkBlacklisted s.originalNetworkId s.transportStreamId) buf := by
  unfold parseDescriptor
  rw [exists_read, and_iff_right (by omega)]
  split_ifs with h48 h4b h5f
  · rw [parseServiceDescriptor_iff]
    exact ⟨fun h => ⟨fun _ => h, other_tag h48 (by decide), other_tag h48 (by decide)⟩,
      fun h => h.service h48⟩
  · rw [parseNVODreferenceDescriptor_iff h1]
    exact ⟨fun h => ⟨other_tag h4b (by decide), fun _ => h, other_tag h4b (by decide)⟩,
      fun h => h.reference h4b⟩
  · rw [parsePrivateDataDescriptor_iff]
    exact ⟨fun h => ⟨other_tag h5f (by decide), other_tag h5f (by decide), fun _ => h⟩,
      fun h => h.privateData h5f⟩
  · exact iff_of_true ⟨s, rfl⟩
      ⟨fun h => absurd h h48, fun h => absurd h h4b, fun h => absurd h h5f⟩

theorem takeProviderName_network {isBlacklisted : Bool} {n : Nat} {s' : SIservice}
    (h : takeProviderName isBlacklisted buf n s = some s') :
    s'.originalNetworkId = s.originalNetworkId ∧ s'.transportStreamId = s.transportStreamId := by
  unfold takeProviderName at h
  split at h
  · rw [← Option.some_inj.mp h]
    exact ⟨rfl, rfl⟩
  · obtain ⟨-, h⟩ := read_bind.mp h
    obtain ⟨name, -, h⟩ := Option.bind_eq_some_iff.mp h
    rw [← Option.some_inj.mp h]
    exact ⟨rfl, rfl⟩

theorem takeServiceName_network {isBlacklisted : Bool} {i : Nat} {s' : SIservice}
    (h : takeServiceName isBlacklisted buf i s = some s') :
    s'.originalNetworkId = s.originalNetworkId ∧ s'.transportStreamId = s.transportStreamId := by
  unfold takeServiceName at h
  obtain ⟨-, h⟩ := read_bind.mp h
  split at h
  · rw [← Option.some_inj.mp h]
    exact ⟨rfl, rfl⟩
  · obtain ⟨name, -, h⟩ := Option.bind_eq_some_iff.mp h
    rw [← Option.some_inj.mp h]
    exact ⟨rfl, rfl⟩

/-- A descriptor does not say which network the service is in. -/
theorem parseDescriptor_network {len : Nat} {s' : SIservice}
    (h : parseDescriptor buf len s = some s') :
    s'.originalNetworkId = s.originalNetworkId ∧ s'.transportStreamId = s.transportStreamId := by
  unfold parseDescriptor at h
  obtain ⟨-, h⟩ := read_bind.mp h
  split_ifs at h with h48 h4b h5f
  · unfold parseServiceDescriptor at h
    obtain ⟨-, h⟩ := read_bind.mp h
    obtain ⟨-, h⟩ := read_bind.mp h
    obtain ⟨t, ht, h⟩ := Option.bind_eq_some_iff.mp h
    obtain ⟨honid, htsid⟩ := takeProviderName_network ht
    obtain ⟨honid', htsid'⟩ := takeServiceName_network h
    exact ⟨honid'.trans honid, htsid'.trans htsid⟩
  · unfold parseNVODreferenceDescriptor at h
    obtain ⟨-, h⟩ := read_bind.mp h
    obtain ⟨r, hr, h⟩ := Option.bind_eq_some_iff.mp h
    rw [← Option.some_inj.mp h]
    exact walk_keeps (P := fun t => t.originalNetworkId = s.originalNetworkId ∧
      t.transportStreamId = s.transportStreamId) (nvodStep_moves buf _)
      (fun i t r hr ht => ⟨(nvodStep_next hr).2.1.trans ht.1, (nvodStep_next hr).2.2.trans ht.2⟩)
      hr ⟨rfl, rfl⟩
  · unfold parsePrivateDataDescriptor at h
    obtain ⟨-, h⟩ := read_bind.mp h
    obtain ⟨-, h⟩ := read_bind.mp h
    obtain ⟨-, h⟩ := read_bind.mp h
    obtain ⟨-, h⟩ := read_bind.mp h
    rw [← Option.some_inj.mp h]
    split <;> exact ⟨rfl, rfl⟩
  · rw [← Option.some_inj.mp h]
    exact ⟨rfl, rfl⟩

/-! ## Services -/

theorem parseDescriptors_iff {total : Nat} (htotal : total ≤ buf.length) :
    (∃ s', parseDescriptors buf total s = some s') ↔
      ∀ d, Starts (nextDescriptor buf total) (total - 1) 5 d → d < total - 1 →
        DescriptorFits (checkBlacklisted s.originalNetworkId s.transportStreamId) (buf.drop d) := by
  unfold parseDescriptors
  rw [exists_bind_pure]
  exact checked_ends_iff
    (fun s : SIservice => checkBlacklisted s.originalNetworkId s.transportStreamId)
    (fun d isBlacklisted => DescriptorFits isBlacklisted (buf.drop d)) htotal
    (fun d s s' h => by rw [(parseDescriptor_network h).1, (parseDescriptor_network h).2])
    (fun d s hd => parseDescriptor_iff (by rw [List.length_drop]; omega)) 5 s

/-- What one round does, with the header of the service read. -/
theorem serviceStep_eq {p : Nat} (h16 : 16 ≤ buf.length) (hp : p < buf.length - 4)
    (svs : OrdMap Nat SIservice) :
    ∃ s : SIservice, s.originalNetworkId = wordAt buf 8 ∧ s.transportStreamId = wordAt buf 3 ∧
      serviceStep buf p svs =
        (parseDescriptors (buf.drop p) (serviceTotal buf p) s).map fun s =>
          (nextService buf p, svs.insertNew s.uniqueKey s) := by
  have hlen : (buf.drop p).length = buf.length - p := List.length_drop
  have hsid : word (buf.drop p) 0 = some (wordAt (buf.drop p) 0) := word_some (by omega)
  have honid : word buf 8 = some (wordAt buf 8) := word_some (by omega)
  have htsid : word buf 3 = some (wordAt buf 3) := word_some (by omega)
  have heit : Buffer.read (buf.drop p) 2 = some ((buf.drop p).getD 2 0) := read_some (by omega)
  have hflags : Buffer.read (buf.drop p) 3 = some ((buf.drop p).getD 3 0) := read_some (by omega)
  have hloop : loopLength (buf.drop p) 3 = some (loopLengthAt buf (p + 3)) := by
    rw [loopLength_some (by omega), loopLengthAt_drop]
  refine ⟨{
    serviceId := wordAt (buf.drop p) 0, originalNetworkId := wordAt buf 8
    transportStreamId := wordAt buf 3, serviceTyp := 0, nvods := .empty
    serviceName := [], providerName := []
    eitScheduleFlag := (buf.drop p).getD 2 0 &&& 0x02 ≠ 0
    eitPresentFollowingFlag := (buf.drop p).getD 2 0 &&& 0x01 ≠ 0
    runningStatus := ((buf.drop p).getD 3 0 >>> 5).toNat
    freeCAmode := (buf.drop p).getD 3 0 &&& 0x10 ≠ 0 }, rfl, rfl, ?_⟩
  unfold serviceStep
  simp only [bind_of_some hsid, bind_of_some heit, bind_of_some hflags, bind_of_some honid,
    bind_of_some htsid, bind_of_some hloop]
  rw [Option.map_eq_bind]
  rfl

theorem serviceStep_iff {p : Nat} (h16 : 16 ≤ buf.length) (hp : p < buf.length - 4)
    (svs : OrdMap Nat SIservice) :
    (∃ r, serviceStep buf p svs = some r) ↔ ServiceAtFits buf p := by
  obtain ⟨s, honid, htsid, heq⟩ := serviceStep_eq h16 hp svs
  have htotal : serviceTotal buf p ≤ (buf.drop p).length := by
    rw [List.length_drop]
    exact Nat.min_le_left _ _
  rw [heq, ← Option.isSome_iff_exists, Option.isSome_map, Option.isSome_iff_exists,
    parseDescriptors_iff htotal, honid, htsid]
  rfl

theorem serviceStep_next {p : Nat} {svs : OrdMap Nat SIservice} {r : Nat × OrdMap Nat SIservice}
    (h16 : 16 ≤ buf.length) (hp : p < buf.length - 4) (h : serviceStep buf p svs = some r) :
    r.1 = nextService buf p := by
  obtain ⟨s, -, -, heq⟩ := serviceStep_eq h16 hp svs
  obtain ⟨s', -, rfl⟩ := Option.map_eq_some_iff.mp (heq ▸ h)
  rfl

theorem serviceStep_moves (h16 : 16 ≤ buf.length) : Moves (serviceStep buf) (buf.length - 4) :=
  fun p svs r hp h => by
    rw [serviceStep_next h16 hp h]
    unfold nextService serviceLength
    omega

/-- The parser ends, and stays inside the section, if and only if every descriptor of every
service does. -/
theorem parse_ends_iff_fits (buf : Str) : (∃ svs, parse buf = some svs) ↔ Fits buf := by
  unfold parse Fits
  split
  · rename_i hshort
    exact iff_of_true ⟨_, rfl⟩ fun h => absurd h (Nat.not_le.mpr hshort)
  · rename_i hlong
    have h16 : 16 ≤ buf.length := Nat.not_lt.mp hlong
    rw [exists_bind_pure, forall_prop_of_true h16]
    exact walk_ends_iff (nextService buf) (ServiceAtFits buf) (serviceStep_moves h16)
      (fun p svs r hp h => serviceStep_next h16 hp h)
      (fun p svs hp => serviceStep_iff h16 hp svs) 11 .empty

end

end SIsectionSDT

end Tuxbox.Sectionsd
