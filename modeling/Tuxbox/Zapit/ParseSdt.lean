import Mathlib.Tactic.MkIffOfInductiveProp
import Tuxbox.Lib.Places
import Tuxbox.Sectionsd.DvbString
import Tuxbox.Zapit.Demux

/-! The service description sections of a scan: `parse_sdt`. A service descriptor is read only as
long as the service is not known, and on one network the descriptors in front of it say whether it
is wanted.

Main result: `parseSdt_iff`. -/
namespace Tuxbox.Zapit

open Buffer
open Sectionsd (word wordAt word_some word_isSome loopLength loopLengthAt loopLength_some
  loopLength_isSome dvbString dvbString_isSome StringFits)

/-! ## The channels -/

/-- `allchans.insert`. -/
def Tallchans.insert (allchans : Tallchans) (c : CZapitChannel) : Tallchans where
  map := allchans.map.insertNew c.getChannelID c
  keyed := by
    intro id d h
    rw [OrdMap.find_insertNew] at h
    split at h
    · rename_i hid
      have hd : (allchans.map.find c.getChannelID).getD c = d := Option.some_inj.mp h
      cases hfind : allchans.map.find c.getChannelID with
      | none =>
        rw [hfind, Option.getD_none] at hd
        rw [← hd, hid]
      | some e =>
        rw [hfind, Option.getD_some] at hd
        rw [← hd, hid]
        exact allchans.keyed _ e hfind
    · exact allchans.keyed id d h

theorem Tallchans.isSome_find_insert (allchans : Tallchans) (c : CZapitChannel) (id : Nat) :
    ((allchans.insert c).find id).isSome =
      (decide (id = c.getChannelID) || (allchans.find id).isSome) := by
  have hfind : (allchans.insert c).find id = if id = c.getChannelID then
      some ((allchans.map.find c.getChannelID).getD c) else allchans.map.find id :=
    OrdMap.find_insertNew allchans.map c.getChannelID c id
  rw [hfind]
  by_cases hid : id = c.getChannelID
  · rw [if_pos hid, decide_eq_true hid, Option.isSome_some, Bool.true_or]
  · rw [if_neg hid, decide_eq_false hid, Bool.false_or]
    rfl

/-- What is the same for all sections of a scan. -/
structure ScanContext where
  satellitePosition : Int16
  diSEqC : UInt8
  frequency : UInt32
  parentalcontrol : Bool
  serviceTypes : OrdMap Nat Byte

/-- `FREQUENCY_IN_KHZ` of an `uint32_t`. -/
def zfrequency (frequency : UInt32) : UInt16 := UInt16.ofNat ((frequency + 500).toNat / 1000)

/-- The ids of a service. -/
structure ServiceIds where
  serviceId : UInt16
  transportStreamId : UInt16
  originalNetworkId : UInt16

def ServiceIds.channelId (ids : ServiceIds) : Nat :=
  createChannelId ids.serviceId ids.originalNetworkId ids.transportStreamId

/-! ## The service descriptor -/

def checkBlacklistedDigitalPlus (onid tsid : UInt16) : Bool :=
  onid == 0x0001 && [0x03F0, 0x0408, 0x040E, 0x0412, 0x0416, 0x041E, 0x0420, 0x0422, 0x0424].contains
    tsid

/-- Providers whose names have no code table. -/
def inBlacklist (providerName : Str) (ids : ServiceIds) : Bool :=
  providerName == chars "CanalSat" ++ [0xE9] ++ chars "lite" ||
    providerName == chars "Chambre des D" ++ [0xE9] ++ chars "put" ++ [0xE9] ++ chars "es" ||
    providerName == chars "SKY" ||
    checkBlacklistedDigitalPlus ids.originalNetworkId ids.transportStreamId ||
    providerName == chars "BetaDigital" || ids.originalNetworkId == 0xf020

/-- The services that the cable network transmits at times: their name, bouquet and number. -/
def timeShiftedServices : List (UInt16 × Str × Str × UInt16) :=
  [(0x05e6, chars "Television X", chars "Adult", 970),
    (0x019f, chars "XXX Brits", chars "Adult", 973),
    (0x05e4, chars "Filth XXX", chars "Adult", 974), (0x05df, chars "Redhot XXX", chars "Adult", 975),
    (0x05dd, chars "Wives XXX", chars "Adult", 976), (0x04c2, chars "Playboy TV", chars "Adult", 979),
    (0x04c1, chars "Adult Channel", chars "Adult", 980),
      (0x02c9, chars "Sky Events", chars "Sport", 598),
    (0x07d9, chars "Prime Events", chars "Sport", 599)]

def timeShiftedService (serviceId : UInt16) : Str × Str × UInt16 :=
  match timeShiftedServices.find? fun s => s.1 = serviceId with
  | some s => s.2
  | none => ([], chars "Other", 999)

/-- A service that is kept from the viewers. -/
def adultService (ctx : ScanContext) (serviceId : UInt16) : Bool :=
  (timeShiftedService serviceId).2.1 == chars "Adult" && ctx.parentalcontrol

/-- `time_shifted_service_descriptor` of a service that is not known. -/
def takeTimeShifted (ctx : ScanContext) (ids : ServiceIds) (allchans : Tallchans) : Tallchans :=
  if adultService ctx ids.serviceId then allchans
  else
    let s := timeShiftedService ids.serviceId
    allchans.insert {
      name := s.1, serviceId := ids.serviceId, transportStreamId := ids.transportStreamId
      originalNetworkId := ids.originalNetworkId, serviceType := ST_DIGITAL_TELEVISION_SERVICE
      diSEqC := 0, satellitePosition := ctx.satellitePosition, frequency := zfrequency ctx.frequency
      channelNumber := s.2.2 }

/-- `std::string(buf + i, stop - i)`, which throws where the length is negative. -/
def stringTo (buf : Str) (i stop : Nat) : Option Str :=
  if i ≤ stop then string buf i (stop - i) else none

/-- The name behind the provider's, with a code table in front of it where it has none itself. A
`CDVBString` of a negative length is empty. -/
def takeServiceName (listed : Bool) (buf : Str) : Option Str := do
  let length ← read buf 1
  let providerLength ← read buf 3
  let start := 4 + providerLength.toNat + 1
  let stop := 2 + length.toNat
  if listed then
    let first ← read buf start
    if first ≥ 0x20 then
      let copy ← stringTo buf start stop
      dvbString (0x05 :: (copy ++ [0])) 0 (copy.length + 1)
    else dvbString buf start (stop - start)
  else
    let _providerName ← dvbString buf 4 providerLength.toNat
    dvbString buf start (stop - start)

/-- A service of the cable network that is hidden, or not in its list. -/
def unwanted (ctx : ScanContext) (ids : ServiceIds) (bouquetId : UInt16) : Bool :=
  ids.originalNetworkId == 0xf020 &&
    (bouquetId.toUInt8 == 0x0c && ctx.parentalcontrol ||
      ctx.serviceTypes.size != 0 && !ctx.serviceTypes.contains ids.channelId)

/-- What a service that is wanted and not known is read for. -/
def takeService (ctx : ScanContext) (ids : ServiceIds) (channelNumber : UInt16) (buf : Str)
    (allchans : Tallchans) : Option Tallchans := do
  let serviceType ← read buf 2
  let providerLength ← read buf 3
  if ids.originalNetworkId = 0xf020 ∧ serviceType = 0x05 then
    pure (takeTimeShifted ctx ids allchans)
  else
    let providerName ← string buf 4 providerLength.toNat
    let serviceName ← takeServiceName (inBlacklist providerName ids) buf
    pure (allchans.insert {
      name := serviceName, serviceId := ids.serviceId, transportStreamId := ids.transportStreamId
      originalNetworkId := ids.originalNetworkId, serviceType := serviceType
      diSEqC := ctx.diSEqC, satellitePosition := ctx.satellitePosition
      frequency := zfrequency ctx.frequency, channelNumber := channelNumber })

def serviceDescriptor (ctx : ScanContext) (ids : ServiceIds) (channelNumber bouquetId : UInt16)
    (buf : Str) (allchans : Tallchans) : Option Tallchans :=
  if unwanted ctx ids bouquetId then some allchans
  else if (allchans.find ids.channelId).isSome then some allchans
  else takeService ctx ids channelNumber buf allchans

/-! ## The loops -/

structure ServiceState where
  allchans : Tallchans
  channelNumber : UInt16
  bouquetId : UInt16

def sdtDescriptor (ctx : ScanContext) (ids : ServiceIds) (buf : Str) (s : ServiceState) :
    Option ServiceState := do
  let tag ← read buf 0
  if tag = 0x48 then
    let allchans ← serviceDescriptor ctx ids s.channelNumber s.bouquetId buf s.allchans
    pure { s with allchans := allchans }
  else if (tag = 0xC0 ∨ tag = 0xCA) ∧ ids.originalNetworkId = 0xf020 then
    let channelNumber ← word buf 2
    let nameLength ← read buf 4
    let bouquetId ← read buf (4 + nameLength.toNat + 1)
    pure { s with channelNumber := channelNumber, bouquetId := bouquetId.toUInt16 }
  else pure s

/-- One service of a section, whose header has the other two ids. -/
def sdtService (ctx : ScanContext) (tsid onid : UInt16) (buffer : Str) (pos : Nat)
    (s : ServiceState) : Option (Nat × ServiceState) := do
  let serviceId ← word buffer pos
  let length ← loopLength buffer (pos + 3)
  let r ← walk (entryStep (sdtDescriptor ctx ⟨serviceId, tsid, onid⟩) buffer) (pos + (length + 5))
    (pos + 5) { s with channelNumber := 0 }
  pure (pos + (length + 5), r.2)

def parseSdtSection (ctx : ScanContext) (buffer : Str) (s : Byte × ServiceState) :
    Option (Flow (Byte × ServiceState) (Int × ServiceState)) := do
  let sectionLength ← loopLength buffer 1
  let tsid ← word buffer 3
  let onid ← word buffer 8
  let r ← walk (sdtService ctx tsid onid buffer) (sectionLength - 1) 11 s.2
  let last ← read buffer 7
  pure (if s.1 = last then .ret (0, r.2) else .again (s.1 + 1, r.2))

/-- The filter asks for one section number after the other. -/
def parseSdt (ctx : ScanContext) (answers : Answers) (fuel : Nat) (buffer : Str)
    (allchans : Tallchans) : Option (Int × ServiceState) :=
  readFor (parseSdtSection ctx) (fun s => (-1, s.2)) answers fuel 0 buffer (0, ⟨allchans, 0, 99⟩)

/-! ## Sections that fit -/

/-- A text that is not empty is in the buffer. -/
def TextFits (buf : Str) (i n : Nat) : Prop := n ≠ 0 → StringFits buf i n

def nameStart (buf : Str) : Nat := 4 + lengthAt buf 3 + 1

def nameStop (buf : Str) : Nat := 2 + lengthAt buf 1

@[mk_iff] structure NamesFit (listed : Bool) (buf : Str) : Prop where
  first : listed → nameStart buf < buf.length
  copied : listed → buf.getD (nameStart buf) 0 ≥ 0x20 →
    nameStart buf ≤ nameStop buf ∧ nameStop buf ≤ buf.length
  inPlace : listed → buf.getD (nameStart buf) 0 < 0x20 →
    TextFits buf (nameStart buf) (nameStop buf - nameStart buf)
  provider : listed = false → TextFits buf 4 (lengthAt buf 3)
  service : listed = false → TextFits buf (nameStart buf) (nameStop buf - nameStart buf)

def providerAt (buf : Str) : Str := (buf.drop 4).take (lengthAt buf 3)

def isTimeShifted (ids : ServiceIds) (buf : Str) : Bool :=
  ids.originalNetworkId == 0xf020 && buf.getD 2 0 == 0x05

@[mk_iff] structure ServiceFits (ids : ServiceIds) (buf : Str) : Prop where
  header : 4 ≤ buf.length
  provider : isTimeShifted ids buf = false → 4 + lengthAt buf 3 ≤ buf.length
  names : isTimeShifted ids buf = false → NamesFit (inBlacklist (providerAt buf) ids) buf

/-- The channels that are known, and the bouquet that was named last. -/
structure ServiceNotes where
  known : Nat → Bool
  bouquetId : UInt16

def Tallchans.known (allchans : Tallchans) (id : Nat) : Bool := (allchans.find id).isSome

def ServiceState.notes (s : ServiceState) : ServiceNotes := ⟨s.allchans.known, s.bouquetId⟩

/-- The service descriptor is passed. -/
def isPassed (ctx : ScanContext) (ids : ServiceIds) (t : ServiceNotes) : Bool :=
  unwanted ctx ids t.bouquetId || t.known ids.channelId

@[mk_iff] structure SdtDescriptorFits (ctx : ScanContext) (ids : ServiceIds) (buf : Str)
    (t : ServiceNotes) : Prop where
  service : buf.getD 0 0 = 0x48 → isPassed ctx ids t = false → ServiceFits ids buf
  cable : buf.getD 0 0 = 0xC0 ∨ buf.getD 0 0 = 0xCA → ids.originalNetworkId = 0xf020 →
    5 + lengthAt buf 4 < buf.length

/-- A service that is taken is known from then on, unless it is kept from the viewers. -/
def knownNote (ctx : ScanContext) (ids : ServiceIds) (buf : Str) (known : Nat → Bool) :
    Nat → Bool :=
  if isTimeShifted ids buf && adultService ctx ids.serviceId then known
  else fun id => decide (id = ids.channelId) || known id

def sdtNote (ctx : ScanContext) (ids : ServiceIds) (buf : Str) (t : ServiceNotes) : ServiceNotes :=
  if buf.getD 0 0 = 0x48 then
    if isPassed ctx ids t then t else { t with known := knownNote ctx ids buf t.known }
  else if (buf.getD 0 0 = 0xC0 ∨ buf.getD 0 0 = 0xCA) ∧ ids.originalNetworkId = 0xf020 then
    { t with bouquetId := (buf.getD (5 + lengthAt buf 4) 0).toUInt16 }
  else t

/-- The service at a place. -/
def idsAt (buf : Str) (p : Nat) : ServiceIds := ⟨wordAt buf p, wordAt buf 3, wordAt buf 8⟩

def nextService (buf : Str) (p : Nat) : Nat := p + (loopLengthAt buf (p + 3) + 5)

/-- Its descriptors. -/
def servicePlaces (buf : Str) (p : Nat) : List Nat :=
  places (nextEntry buf) (nextService buf p) (p + 5)

structure SdtServiceFits (ctx : ScanContext) (buf : Str) (p : Nat) (t : ServiceNotes) : Prop where
  header : p + 4 < buf.length
  descriptors : Passes
    (fun d t => d + 1 < buf.length ∧ SdtDescriptorFits ctx (idsAt buf p) (buf.drop d) t)
    (fun _ _ => false) (fun d => sdtNote ctx (idsAt buf p) (buf.drop d)) (servicePlaces buf p) t

def sdtServiceNote (ctx : ScanContext) (buf : Str) (p : Nat) (t : ServiceNotes) : ServiceNotes :=
  noted (fun _ _ => false) (fun d => sdtNote ctx (idsAt buf p) (buf.drop d)) (servicePlaces buf p) t

def sdtPlaces (buf : Str) : List Nat := places (nextService buf) (loopLengthAt buf 1 - 1) 11

def SdtFits (ctx : ScanContext) (buf : Str) (t : Byte × ServiceNotes) : Prop :=
  Passes (SdtServiceFits ctx buf) (fun _ _ => false) (sdtServiceNote ctx buf) (sdtPlaces buf) t.2

def sdtSectionNote (ctx : ScanContext) (buf : Str) (t : Byte × ServiceNotes) :
    Byte × ServiceNotes :=
  (t.1 + 1, noted (fun _ _ => false) (sdtServiceNote ctx buf) (sdtPlaces buf) t.2)

/-- The number that was asked for is that of the last section. -/
def SdtLast (buf : Str) (t : Byte × ServiceNotes) : Prop := t.1 = buf.getD 7 0

/-! ## Names -/

section
variable {buf : Str} {ctx : ScanContext} {ids : ServiceIds}

theorem dvbString_iff {i n : Nat} : (∃ s, dvbString buf i n = some s) ↔ TextFits buf i n := by
  unfold TextFits
  by_cases hn : n = 0
  · rw [hn]
    exact iff_of_true ⟨_, rfl⟩ fun h => absurd rfl h
  · rw [dvbString_isSome hn, forall_prop_of_true hn]

/-- A copy ends in a zero byte of its own. -/
theorem dvbString_copy (copy : Str) :
    ∃ s, dvbString (0x05 :: (copy ++ [0])) 0 (copy.length + 1) = some s := by
  refine (dvbString_isSome (Nat.succ_ne_zero _)).mpr ⟨?_, fun _ => ?_⟩ <;>
    simp only [List.length_cons, List.length_append, List.length_nil] <;> omega

theorem stringTo_isSome {i stop : Nat} (hi : i < buf.length) (hstop : stop < 2 ^ 31) :
    (∃ s, stringTo buf i stop = some s) ↔ i ≤ stop ∧ stop ≤ buf.length := by
  unfold stringTo
  split
  · rename_i h
    rw [string_isSome]
    omega
  · rename_i h
    exact iff_of_false (fun ⟨_, h⟩ => nomatch h) fun hfit => h hfit.1

theorem takeServiceName_iff {listed : Bool} (h3 : 3 < buf.length) :
    (∃ s, takeServiceName listed buf = some s) ↔ NamesFit listed buf := by
  unfold takeServiceName
  rw [exists_read, and_iff_right (by omega), exists_read, and_iff_right h3, namesFit_iff]
  have hlength : (buf.getD 1 0).toNat = lengthAt buf 1 := rfl
  have hprovider : (buf.getD 3 0).toNat = lengthAt buf 3 := rfl
  have hstart : 4 + lengthAt buf 3 + 1 = nameStart buf := rfl
  have hstop : 2 + lengthAt buf 1 = nameStop buf := rfl
  have hlt : nameStop buf < 2 ^ 31 := by
    have := lengthAt_lt buf 1
    unfold nameStop
    omega
  dsimp only
  rw [hlength, hprovider, hstart, hstop]
  cases listed with
  | true =>
    rw [if_pos rfl, exists_read]
    simp only [forall_true_left, reduceCtorEq, IsEmpty.forall_iff, and_true]
    refine and_congr_right fun hfirst => ?_
    split
    · rename_i hplain
      rw [exists_bind, forall_prop_of_true hplain,
        and_iff_left fun h => absurd hplain (UInt8.not_le.mpr h), ← stringTo_isSome hfirst hlt]
      exact exists_congr fun copy => and_iff_left (dvbString_copy copy)
    · rename_i hcoded
      rw [dvbString_iff, forall_prop_of_true (UInt8.not_le.mp hcoded)]
      exact (and_iff_right fun h => absurd h hcoded).symm
  | false =>
    rw [if_neg Bool.false_ne_true, exists_bind_iff fun _ => dvbString_iff, dvbString_iff]
    simp

/-! ## The service descriptor -/

variable {allchans : Tallchans} {channelNumber bouquetId : UInt16}

theorem isTimeShifted_iff : isTimeShifted ids buf = true ↔
    ids.originalNetworkId = 0xf020 ∧ buf.getD 2 0 = 0x05 := by
  simp only [isTimeShifted, Bool.and_eq_true, beq_iff_eq]

theorem string_provider (h : 4 + lengthAt buf 3 ≤ buf.length) :
    string buf 4 (lengthAt buf 3) = some (providerAt buf) := by
  have hlt := lengthAt_lt buf 3
  unfold string
  split
  · rename_i hzero
    rw [providerAt, hzero, List.take_zero]
  · rw [if_pos ⟨by omega, h⟩]
    rfl

theorem takeService_iff :
    (∃ a, takeService ctx ids channelNumber buf allchans = some a) ↔ ServiceFits ids buf := by
  unfold takeService
  rw [exists_read, exists_read, serviceFits_iff]
  rcases Nat.lt_or_ge 3 buf.length with h3 | hshort
  · have h2 : 2 < buf.length := by omega
    have h4 : 4 ≤ buf.length := h3
    rw [and_iff_right h2, and_iff_right h3, and_iff_right h4]
    split
    · rename_i hshifted
      have hyes : isTimeShifted ids buf = true := isTimeShifted_iff.mpr hshifted
      rw [hyes]
      exact iff_of_true ⟨_, rfl⟩ ⟨(fun h => nomatch h), fun h => nomatch h⟩
    · rename_i hnamed
      have hno : isTimeShifted ids buf = false :=
        Bool.eq_false_iff.mpr fun h => hnamed (isTimeShifted_iff.mp h)
      have hprovider : (buf.getD 3 0).toNat = lengthAt buf 3 := rfl
      rw [forall_prop_of_true hno, forall_prop_of_true hno, hprovider]
      rcases Nat.lt_or_ge buf.length (4 + lengthAt buf 3) with hlong | hfit
      · refine iff_of_false (fun h => ?_) fun h => absurd h.1 (Nat.not_le.mpr hlong)
        obtain ⟨name, hname, -⟩ := exists_bind.mp h
        have := string_isSome.mp ⟨name, hname⟩
        omega
      · rw [and_iff_right hfit, bind_of_some (string_provider hfit), exists_bind_pure,
          takeServiceName_iff h3]
  · exact iff_of_false (fun h => absurd h.2.1 (by omega)) fun h => absurd h.1 (by omega)

theorem takeService_known {a : Tallchans}
    (h : takeService ctx ids channelNumber buf allchans = some a) :
    a.known = knownNote ctx ids buf allchans.known := by
  unfold takeService at h
  obtain ⟨-, h⟩ := read_bind.mp h
  obtain ⟨-, h⟩ := read_bind.mp h
  unfold knownNote
  split at h
  · rename_i hshifted
    rw [isTimeShifted_iff.mpr hshifted, Bool.true_and, ← Option.some_inj.mp h, takeTimeShifted]
    split
    · rfl
    · exact funext fun id => Tallchans.isSome_find_insert _ _ id
  · rename_i hnamed
    have hno : isTimeShifted ids buf = false :=
      Bool.eq_false_iff.mpr fun h => hnamed (isTimeShifted_iff.mp h)
    obtain ⟨provider, -, h⟩ := Option.bind_eq_some_iff.mp h
    obtain ⟨name, -, h⟩ := Option.bind_eq_some_iff.mp h
    rw [hno, Bool.false_and, if_neg Bool.false_ne_true, ← Option.some_inj.mp h]
    exact funext fun id => Tallchans.isSome_find_insert _ _ id

theorem serviceDescriptor_eq :
    serviceDescriptor ctx ids channelNumber bouquetId buf allchans =
      if isPassed ctx ids ⟨allchans.known, bouquetId⟩ then some allchans
      else takeService ctx ids channelNumber buf allchans := by
  have hknown : (allchans.find ids.channelId).isSome = allchans.known ids.channelId := rfl
  unfold serviceDescriptor isPassed
  rw [hknown]
  dsimp only
  cases unwanted ctx ids bouquetId with
  | true => rfl
  | false => rfl

/-! ## Descriptors -/

theorem sdtDescriptor_iff {s : ServiceState} (h0 : 0 < buf.length) :
    (∃ s', sdtDescriptor ctx ids buf s = some s') ↔ SdtDescriptorFits ctx ids buf s.notes := by
  unfold sdtDescriptor
  rw [exists_read, and_iff_right h0, sdtDescriptorFits_iff]
  have hname : (buf.getD 4 0).toNat = lengthAt buf 4 := rfl
  generalize buf.getD 0 0 = tag
  split_ifs with h48 hcable
  · rw [exists_bind_pure, serviceDescriptor_eq, and_iff_left (by simp [h48]),
      forall_prop_of_true h48]
    have hnotes : s.notes = ⟨s.allchans.known, s.bouquetId⟩ := rfl
    rw [hnotes]
    split
    · rename_i hpassed
      rw [hpassed]
      exact iff_of_true ⟨_, rfl⟩ fun h => nomatch h
    · rename_i htaken
      rw [takeService_iff, forall_prop_of_true (Bool.eq_false_iff.mpr htaken)]
  · rw [and_iff_right fun h => absurd h h48, forall_prop_of_true hcable.1,
      forall_prop_of_true hcable.2,
      exists_bind_iff (P := 5 + lengthAt buf 4 < buf.length) fun _ => ?_, word_isSome]
    · omega
    · rw [exists_read, hname, exists_bind_pure, read_isSome]
      omega
  · refine iff_of_true ⟨_, rfl⟩ ⟨fun h => absurd h h48, fun h h' => absurd ⟨h, h'⟩ hcable⟩

theorem sdtDescriptor_notes {d : Nat} {s s' : ServiceState}
    (h : sdtDescriptor ctx ids (buf.drop d) s = some s') :
    s'.notes = sdtNote ctx ids (buf.drop d) s.notes := by
  unfold sdtDescriptor at h
  obtain ⟨-, h⟩ := read_bind.mp h
  unfold sdtNote
  split at h
  · rename_i h48
    obtain ⟨a, ha, h⟩ := Option.bind_eq_some_iff.mp h
    rw [serviceDescriptor_eq] at ha
    rw [if_pos h48, ← Option.some_inj.mp h]
    have hnotes : s.notes = ⟨s.allchans.known, s.bouquetId⟩ := rfl
    rw [hnotes]
    split at ha
    · rename_i hpassed
      rw [if_pos hpassed, ← Option.some_inj.mp ha]
      rfl
    · rename_i htaken
      rw [if_neg htaken, ← takeService_known ha]
      rfl
  · rename_i h48
    rw [if_neg h48]
    split at h
    · rename_i hcable
      obtain ⟨number, -, h⟩ := Option.bind_eq_some_iff.mp h
      obtain ⟨-, h⟩ := read_bind.mp h
      obtain ⟨-, h⟩ := read_bind.mp h
      rw [if_pos hcable, ← Option.some_inj.mp h, Nat.add_right_comm 4]
      rfl
    · rename_i hother
      rw [if_neg hother, ← Option.some_inj.mp h]

/-! ## Services -/

theorem sdtDescriptors_follow (stop : Nat) :
    Follows (fun d t => d + 1 < buf.length ∧ SdtDescriptorFits ctx ids (buf.drop d) t)
      (fun _ _ => false) (fun d => sdtNote ctx ids (buf.drop d))
      (entryStep (sdtDescriptor ctx ids) buf) stop ServiceState.notes (nextEntry buf) :=
  entryStep_follows (fun _ _ _ => sdtDescriptor_notes) (fun d s hd => sdtDescriptor_iff (by
    rw [List.length_drop]
    omega)) stop

/-- The round at a service, with its header read. -/
theorem sdtService_eq {p : Nat} {s : ServiceState} (hp : p + 4 < buf.length) :
    sdtService ctx (wordAt buf 3) (wordAt buf 8) buf p s =
      (walk (entryStep (sdtDescriptor ctx (idsAt buf p)) buf) (nextService buf p) (p + 5)
        { s with channelNumber := 0 }).map fun r => (nextService buf p, r.2) := by
  have hid : word buf p = some (wordAt buf p) := word_some (by omega)
  have hlength : loopLength buf (p + 3) = some (loopLengthAt buf (p + 3)) := loopLength_some hp
  unfold sdtService
  rw [bind_of_some hid, bind_of_some hlength, Option.map_eq_bind]
  rfl

theorem sdtService_header {tsid onid : UInt16} {p : Nat} {s : ServiceState} {r : Nat × ServiceState}
    (h : sdtService ctx tsid onid buf p s = some r) : p + 4 < buf.length := by
  unfold sdtService at h
  obtain ⟨id, -, h⟩ := Option.bind_eq_some_iff.mp h
  obtain ⟨length, hlength, -⟩ := Option.bind_eq_some_iff.mp h
  exact loopLength_isSome.mp ⟨length, hlength⟩

theorem sdtServices_follow (stop : Nat) :
    Follows (SdtServiceFits ctx buf) (fun _ _ => false) (sdtServiceNote ctx buf)
      (sdtService ctx (wordAt buf 3) (wordAt buf 8) buf) stop ServiceState.notes
      (nextService buf) where
  moves := fun p => by
    unfold nextService
    omega
  result := fun p s r _ h => by
    rw [sdtService_eq (sdtService_header h)] at h
    obtain ⟨q, hq, rfl⟩ := Option.map_eq_some_iff.mp h
    have hnotes := (sdtDescriptors_follow (nextService buf p)).view_eq hq
    exact ⟨rfl, hnotes⟩
  ends := fun p s _ => by
    constructor
    · rintro ⟨r, h⟩
      have hp := sdtService_header h
      rw [sdtService_eq hp] at h
      obtain ⟨q, hq, -⟩ := Option.map_eq_some_iff.mp h
      have hpasses := ((sdtDescriptors_follow (nextService buf p)).ends_iff _ _).mp ⟨q, hq⟩
      exact ⟨hp, hpasses⟩
    · rintro ⟨hp, hpasses⟩
      obtain ⟨q, hq⟩ := ((sdtDescriptors_follow _).ends_iff (p + 5)
        { s with channelNumber := 0 }).mpr hpasses
      rw [sdtService_eq hp, hq]
      exact ⟨_, rfl⟩

/-! ## Sections -/

/-- A section, with its header read. -/
theorem parseSdtSection_eq (h10 : 10 ≤ buf.length) (s : Byte × ServiceState) :
    parseSdtSection ctx buf s =
      (walk (sdtService ctx (wordAt buf 3) (wordAt buf 8) buf) (loopLengthAt buf 1 - 1) 11 s.2).map
        fun r => if s.1 = buf.getD 7 0 then .ret (0, r.2) else .again (s.1 + 1, r.2) := by
  have hlength : loopLength buf 1 = some (loopLengthAt buf 1) := loopLength_some (by omega)
  have htsid : word buf 3 = some (wordAt buf 3) := word_some (by omega)
  have honid : word buf 8 = some (wordAt buf 8) := word_some (by omega)
  have hlast : Buffer.read buf 7 = some (buf.getD 7 0) := read_some (by omega)
  unfold parseSdtSection
  rw [bind_of_some hlength, bind_of_some htsid, bind_of_some honid, Option.map_eq_bind]
  simp only [bind_of_some hlast]
  rfl

theorem parseSdtSection_handles : Handles (parseSdtSection ctx) 1026
    (fun s => (s.1, s.2.notes)) (sdtSectionNote ctx) (SdtFits ctx) SdtLast where
  ends := fun buf s hbuf => by
    rw [parseSdtSection_eq (by omega), ← Option.isSome_iff_exists, Option.isSome_map,
      Option.isSome_iff_exists]
    exact (sdtServices_follow _).ends_iff 11 s.2
  again := fun buf s s' hbuf h => by
    rw [parseSdtSection_eq (by omega)] at h
    obtain ⟨r, hr, h⟩ := Option.map_eq_some_iff.mp h
    split at h
    · cases h
    · rename_i hnext
      cases h
      exact ⟨hnext, congrArg (Prod.mk (s.1 + 1)) ((sdtServices_follow _).view_eq hr)⟩
  ret := fun buf s r hbuf h => by
    rw [parseSdtSection_eq (by omega)] at h
    obtain ⟨q, -, h⟩ := Option.map_eq_some_iff.mp h
    split at h
    · assumption
    · cases h

/-- The scan of a transport stream ends, and reads nothing outside its buffer, if and only if its
sections let it. -/
theorem parseSdt_iff {answers : Answers} {buffer : Str} (hbuf : buffer.length = 1026)
    (ctx : ScanContext) (allchans : Tallchans) :
    (∃ fuel r, parseSdt ctx answers fuel buffer allchans = some r) ↔
      Finishes (sdtSectionNote ctx) answers (SdtFits ctx) SdtLast buffer
        (0, ⟨allchans.known, 99⟩) :=
  readFor_ends_iff parseSdtSection_handles hbuf (0, ⟨allchans, 0, 99⟩)

end

end Tuxbox.Zapit
