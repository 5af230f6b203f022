import Tuxbox.Lib.Codec
import Tuxbox.Zapit.Channel

/-! The packed ids of zapit: the key of a transponder and the id of a channel. A satellite
position west of Greenwich is negative, and its sign covers the frequency.

Main results: `getFrequency_create`, what is read back, `create_inj_iff`, which ids are
the same, and `keepsParts_iff`. -/
namespace Tuxbox.Zapit

/-! ## The macros -/

/-- What a `transponder_id_t` is made of. -/
@[ext] structure TransponderParts where
  frequency : UInt16
  satellitePosition : Int16
  originalNetworkId : UInt16
  transportStreamId : UInt16
  deriving DecidableEq

/-- `CREATE_TRANSPONDER_ID_FROM_FREQUENCY_SATELLITEPOSITION_ORIGINALNETWORK_TRANSPORTSTREAM_ID`. -/
def createTransponderId (frequency : UInt16) (satellitePosition : Int16)
    (originalNetworkId transportStreamId : UInt16) : UInt64 :=
  frequency.toUInt64 <<< 48 ||| satellitePosition.toInt64.toUInt64 <<< 32 |||
    transportStreamId.toUInt64 <<< 16 ||| originalNetworkId.toUInt64

def TransponderParts.id (p : TransponderParts) : UInt64 :=
  createTransponderId p.frequency p.satellitePosition p.originalNetworkId p.transportStreamId

def getOriginalNetworkId (transponderId : UInt64) : UInt16 := transponderId.toUInt16

def getTransportStreamId (transponderId : UInt64) : UInt16 := (transponderId >>> 16).toUInt16

def getSatellitePosition (transponderId : UInt64) : Int16 := (transponderId >>> 32).toUInt16.toInt16

def getFrequency (transponderId : UInt64) : UInt16 := (transponderId >>> 48).toUInt16

def getOriginalNetworkIdFromChannelId (channelId : Nat) : UInt16 := UInt16.ofNat (channelId >>> 32)

def getServiceIdFromChannelId (channelId : Nat) : UInt16 := UInt16.ofNat channelId

/-! ## Reading the parts back -/

variable (f o t : UInt16) (s : Int16)

/-- The sign of the position is in all bits above it. -/
theorem getLsbD_create (i : Nat) : (createTransponderId f s o t).toBitVec.getLsbD i =
    if i < 16 then o.toBitVec.getLsbD i
    else if i < 32 then t.toBitVec.getLsbD (i - 16)
    else if i < 48 then s.toBitVec.getLsbD (i - 32)
    else decide (i < 64) && (f.toBitVec.getLsbD (i - 48) || s.toBitVec.msb) := by
  have h16 : (UInt64.toBitVec 16 % 64).toNat = 16 := rfl
  have h32 : (UInt64.toBitVec 32 % 64).toNat = 32 := rfl
  have h48 : (UInt64.toBitVec 48 % 64).toNat = 48 := rfl
  simp only [createTransponderId, UInt64.toBitVec_or, UInt64.toBitVec_shiftLeft,
    UInt16.toBitVec_toUInt64, Int64.toBitVec_toUInt64, Int16.toBitVec_toInt64,
    BitVec.getLsbD_or, BitVec.getLsbD_shiftLeft', BitVec.getLsbD_setWidth,
    BitVec.getLsbD_signExtend, h16, h32, h48]
  by_cases ho : i < 16
  · simp [ho, show i < 32 by omega, show i < 48 by omega, show i < 64 by omega]
  by_cases ht : i < 32
  · simp [ho, ht, show 16 ≤ i by omega, show i < 48 by omega, show i < 64 by omega,
      show i - 16 < 64 by omega]
  have hi : 16 ≤ i := by omega
  have hi' : 16 ≤ i - 16 := by omega
  by_cases hs : i < 48
  · simp [ho, ht, hs, hi, hi', show i < 64 by omega, show i - 32 < 64 by omega,
      show i - 32 < 16 by omega]
  by_cases h64 : i < 64
  · simp [ho, ht, hs, hi, hi', h64, show ¬ i - 32 < 16 by omega, show i - 48 < 64 by omega,
      show i - 32 < 64 by omega]
  · simp [ho, ht, hs, hi, hi', h64]

theorem getOriginalNetworkId_create : getOriginalNetworkId (createTransponderId f s o t) = o := by
  refine UInt16.toBitVec_inj.mp (BitVec.eq_of_getLsbD_eq fun i hi => ?_)
  simp [getOriginalNetworkId, getLsbD_create, hi]

theorem getTransportStreamId_create :
    getTransportStreamId (createTransponderId f s o t) = t := by
  refine UInt16.toBitVec_inj.mp (BitVec.eq_of_getLsbD_eq fun i hi => ?_)
  simp [getTransportStreamId, getLsbD_create, hi, show 16 + i < 32 by omega]

theorem getSatellitePosition_create :
    getSatellitePosition (createTransponderId f s o t) = s := by
  refine Int16.toBitVec_inj.mp (BitVec.eq_of_getLsbD_eq fun i hi => ?_)
  simp [getSatellitePosition, getLsbD_create, hi, show ¬ 32 + i < 16 by omega,
    show 32 + i < 48 by omega]

theorem msb_iff : s.toBitVec.msb = true ↔ s < 0 := by
  rw [Int16.lt_iff_toInt_lt, BitVec.msb_eq_toInt, decide_eq_true_eq]
  rfl

theorem getLsbD_getFrequency {i : Nat} (hi : i < 16) :
    (getFrequency (createTransponderId f s o t)).toBitVec.getLsbD i =
      (f.toBitVec.getLsbD i || s.toBitVec.msb) := by
  have hbit : ∀ id, (getFrequency id).toBitVec.getLsbD i = id.toBitVec.getLsbD (48 + i) := by
    intro id
    simp [getFrequency, hi]
  rw [hbit, getLsbD_create]
  simp [show ¬ 48 + i < 16 by omega, show ¬ 48 + i < 32 by omega, show 48 + i < 64 by omega]

theorem getFrequency_create :
    getFrequency (createTransponderId f s o t) = if s < 0 then 0xffff else f := by
  refine UInt16.toBitVec_inj.mp (BitVec.eq_of_getLsbD_eq fun i hi => ?_)
  rw [getLsbD_getFrequency f o t s hi]
  by_cases hs : s < 0
  · rw [if_pos hs, (msb_iff s).mpr hs, Bool.or_true]
    exact (by decide : ∀ i < 16, true = (0xffff : UInt16).toBitVec.getLsbD i) i hi
  · rw [if_neg hs, Bool.eq_false_iff.mpr fun h => hs ((msb_iff s).mp h), Bool.or_false]

theorem createChannelId_eq (serviceId : UInt16) : createChannelId serviceId o t =
    t.toNat * 2 ^ 32 + (o.toNat * 2 ^ 16 + serviceId.toNat) := by
  have ho := o.toNat_lt
  have hs := serviceId.toNat_lt
  unfold createChannelId
  rw [or_shift o.toNat (by omega), or_shift t.toNat (by omega)]

theorem createChannelId_inj {sid sid' o o' t t' : UInt16} :
    createChannelId sid o t = createChannelId sid' o' t' ↔ sid = sid' ∧ o = o' ∧ t = t' := by
  constructor
  · intro h
    have hs := sid.toNat_lt
    have hs' := sid'.toNat_lt
    have ho := o.toNat_lt
    have ho' := o'.toNat_lt
    rw [createChannelId_eq, createChannelId_eq] at h
    exact ⟨UInt16.toNat_inj.mp (by omega), UInt16.toNat_inj.mp (by omega),
      UInt16.toNat_inj.mp (by omega)⟩
  · rintro ⟨rfl, rfl, rfl⟩
    rfl

/-- The macro is older than the order of the parts. -/
theorem getOriginalNetworkIdFromChannelId_create (serviceId : UInt16) :
    getOriginalNetworkIdFromChannelId (createChannelId serviceId o t) = t := by
  have ho := o.toNat_lt
  have ht := t.toNat_lt
  have hs := serviceId.toNat_lt
  refine UInt16.toNat_inj.mp ?_
  rw [getOriginalNetworkIdFromChannelId, UInt16.toNat_ofNat', createChannelId_eq,
    Nat.shiftRight_eq_div_pow]
  omega

theorem getServiceIdFromChannelId_create (serviceId : UInt16) :
    getServiceIdFromChannelId (createChannelId serviceId o t) = serviceId := by
  have hs := serviceId.toNat_lt
  refine UInt16.toNat_inj.mp ?_
  rw [getServiceIdFromChannelId, UInt16.toNat_ofNat', createChannelId_eq]
  omega

/-! ## Which ids are the same -/

variable (p q : TransponderParts)

theorem id_eq_iff : p.id = q.id ↔
    p.satellitePosition = q.satellitePosition ∧ p.originalNetworkId = q.originalNetworkId ∧
      p.transportStreamId = q.transportStreamId ∧
      (0 ≤ p.satellitePosition → p.frequency = q.frequency) := by
  constructor
  · intro h
    have hs := congrArg getSatellitePosition h
    have ho := congrArg getOriginalNetworkId h
    have ht := congrArg getTransportStreamId h
    have hf := congrArg getFrequency h
    simp only [TransponderParts.id, getSatellitePosition_create, getOriginalNetworkId_create,
      getTransportStreamId_create, getFrequency_create] at hs ho ht hf
    refine ⟨hs, ho, ht, fun hpos => ?_⟩
    rwa [← hs, if_neg (Int16.not_lt.mpr hpos), if_neg (Int16.not_lt.mpr hpos)] at hf
  · rintro ⟨hs, ho, ht, hf⟩
    refine UInt64.toBitVec_inj.mp (BitVec.eq_of_getLsbD_eq fun i hi => ?_)
    rw [TransponderParts.id, TransponderParts.id, getLsbD_create, getLsbD_create, hs, ho, ht]
    by_cases hneg : q.satellitePosition < 0
    · rw [(msb_iff q.satellitePosition).mpr hneg, Bool.or_true, Bool.or_true]
    · rw [hf (hs ▸ Int16.not_lt.mp hneg)]

/-! ## The delivery descriptor of a scan and the settings file -/

/-- `class transponder`, the parts that its id is put together from again. -/
structure Transponder where
  transportStreamId : UInt16
  originalNetworkId : UInt16
  deriving DecidableEq

/-- `FREQUENCY_IN_KHZ`. -/
def frequencyInKHz (a : Nat) : UInt16 := UInt16.ofNat ((a + 500) / 1000)

/-- The eight digits of the frequency, with the correction for those that send it in the wrong
unit. -/
def satelliteFrequency (b2 b3 b4 b5 : Byte) : Nat :=
  let frequency :=
    (b2.toNat >>> 4) * 100000000 + (b2.toNat &&& 0x0f) * 10000000 +
    (b3.toNat >>> 4) * 1000000 + (b3.toNat &&& 0x0f) * 100000 +
    (b4.toNat >>> 4) * 10000 + (b4.toNat &&& 0x0f) * 1000 +
    (b5.toNat >>> 4) * 100 + (b5.toNat &&& 0x0f) * 10
  if frequency ≥ 100000000 then frequency / 10 else frequency

/-- What `satellite_delivery_system_descriptor` puts into the transponder map. `parse_nit` hands
it an id without a frequency. -/
def satelliteDeliverySystem (b2 b3 b4 b5 : Byte) (transponderId2 : UInt64) : UInt64 × Transponder :=
  let zfrequency := frequencyInKHz (satelliteFrequency b2 b3 b4 b5)
  let transponderId := transponderId2 ||| zfrequency.toUInt64 <<< 48
  (transponderId,
    ⟨getTransportStreamId transponderId, getOriginalNetworkId transponderId⟩)

/-- The id that `write_provider` looks the channels of an entry up by. -/
def writtenTransponderId (entry : UInt64 × Transponder) : UInt64 :=
  createTransponderId (getFrequency entry.1) (getSatellitePosition entry.1)
    entry.2.originalNetworkId entry.2.transportStreamId

theorem create_or_frequency :
    createTransponderId 0 s o t ||| f.toUInt64 <<< 48 = createTransponderId f s o t := by
  have hzero : (0 : UInt16).toUInt64 <<< 48 = 0 := rfl
  rw [createTransponderId, createTransponderId, hzero, UInt64.zero_or, UInt64.or_comm,
    ← UInt64.or_assoc, ← UInt64.or_assoc]

/-- The sign bits are read as a frequency and put back where they were. -/
theorem create_of_parts : createTransponderId (getFrequency (createTransponderId f s o t))
    (getSatellitePosition (createTransponderId f s o t)) o t = createTransponderId f s o t := by
  rw [getFrequency_create, getSatellitePosition_create]
  refine (id_eq_iff ⟨_, s, o, t⟩ ⟨f, s, o, t⟩).mpr ⟨rfl, rfl, rfl, fun hs => ?_⟩
  exact if_neg (Int16.not_lt.mpr hs)

/-! ## The parts of an id -/

/-- The ids are the same for the scan and the file. -/
def Agree (p : TransponderParts) : Prop :=
  ∀ b2 b3 b4 b5, p.frequency = frequencyInKHz (satelliteFrequency b2 b3 b4 b5) →
    let entry := satelliteDeliverySystem b2 b3 b4 b5
      (createTransponderId 0 p.satellitePosition p.originalNetworkId p.transportStreamId)
    entry.1 = p.id ∧ writtenTransponderId entry = entry.1

theorem satelliteDeliverySystem_create (b2 b3 b4 b5 : Byte) :
    satelliteDeliverySystem b2 b3 b4 b5 (createTransponderId 0 s o t) =
      (createTransponderId (frequencyInKHz (satelliteFrequency b2 b3 b4 b5)) s o t, ⟨t, o⟩) := by
  rw [satelliteDeliverySystem, create_or_frequency, getTransportStreamId_create,
    getOriginalNetworkId_create]

theorem agree : Agree p := by
  intro b2 b3 b4 b5 hf
  rw [satelliteDeliverySystem_create, ← hf]
  exact ⟨rfl, create_of_parts p.frequency p.originalNetworkId p.transportStreamId
    p.satellitePosition⟩

/-- What the packing of a transponder, of a second one and of a channel has to keep. -/
structure KeepsParts (p q : TransponderParts) (serviceId : UInt16) : Prop where
  frequency : getFrequency p.id = p.frequency
  satellitePosition : getSatellitePosition p.id = p.satellitePosition
  originalNetworkId : getOriginalNetworkId p.id = p.originalNetworkId
  transportStreamId : getTransportStreamId p.id = p.transportStreamId
  distinct : p ≠ q → p.id ≠ q.id
  channelOnid : getOriginalNetworkIdFromChannelId
    (createChannelId serviceId p.originalNetworkId p.transportStreamId) = p.originalNetworkId
  channelSid : getServiceIdFromChannelId
    (createChannelId serviceId p.originalNetworkId p.transportStreamId) = serviceId
  agree : Agree p

/-- No sign over the frequency, and the two parts that were exchanged are the same. -/
structure PartsFit (p q : TransponderParts) : Prop where
  frequency : p.satellitePosition < 0 → p.frequency = 0xffff
  alone : p.satellitePosition < 0 → q = { p with frequency := q.frequency } → q = p
  exchanged : p.transportStreamId = p.originalNetworkId

/-- The id keeps its parts apart exactly when they fit. -/
theorem keepsParts_iff (serviceId : UInt16) : KeepsParts p q serviceId ↔ PartsFit p q := by
  have hf : getFrequency p.id = p.frequency ↔ (p.satellitePosition < 0 → p.frequency = 0xffff) := by
    rw [TransponderParts.id, getFrequency_create]
    split
    · rename_i hneg
      exact ⟨fun h _ => h.symm, fun h => (h hneg).symm⟩
    · rename_i hpos
      exact iff_of_true rfl fun hneg => absurd hneg hpos
  have hd : (p ≠ q → p.id ≠ q.id) ↔
      (p.satellitePosition < 0 → q = { p with frequency := q.frequency } → q = p) := by
    rw [not_imp_not, id_eq_iff]
    constructor
    · intro h hneg hq
      refine (h ?_).symm
      rw [hq]
      exact ⟨rfl, rfl, rfl, fun hpos => absurd hneg (Int16.not_lt.mpr hpos)⟩
    · rintro h ⟨hs, ho, ht, hf⟩
      by_cases hneg : p.satellitePosition < 0
      · refine (h hneg ?_).symm
        rw [hs, ho, ht]
      · exact TransponderParts.ext (hf (Int16.not_lt.mp hneg)) hs ho ht
  constructor
  · intro h
    refine ⟨hf.mp h.frequency, hd.mp h.distinct, ?_⟩
    exact (getOriginalNetworkIdFromChannelId_create _ _ _).symm.trans h.channelOnid
  · intro h
    refine ⟨hf.mpr h.frequency, getSatellitePosition_create _ _ _ _,
      getOriginalNetworkId_create _ _ _ _, getTransportStreamId_create _ _ _ _,
      hd.mpr h.alone, ?_, getServiceIdFromChannelId_create _ _ _, agree p⟩
    exact (getOriginalNetworkIdFromChannelId_create _ _ _).trans h.exchanged

/-- Two transponders at thirty degrees west that differ in their frequency only. -/
theorem west_ids_collide : ¬ ∀ p q serviceId, KeepsParts p q serviceId := by
  intro h
  have hkeeps := h ⟨11000, -300, 1, 1⟩ ⟨12000, -300, 1, 1⟩ 0
  exact hkeeps.distinct (by decide) (by decide)

end Tuxbox.Zapit
