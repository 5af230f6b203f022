import Tuxbox.Zapit.ParsePmt
import Tuxbox.Zapit.ParseSdt
import Tuxbox.Zapit.TransponderId

/-!
# The network information sections of a scan

`parse_nit`. The loop over the transport streams passes those that are known, and a delivery
descriptor for another frontend ends it.
-/

namespace Tuxbox.Zapit

open Buffer
open Sectionsd (word wordAt word_some word_isSome loopLength loopLengthAt loopLength_some
  loopLength_isSome)

/-! ## Delivery descriptors -/

inductive FeType
  | qpsk
  | qam
  | ofdm
  deriving DecidableEq

/-- `class transponder`. The code rate and the modulation are the numbers that the descriptor has
for them. -/
structure ScannedTransponder extends Transponder where
  frequency : UInt32
  symbolRate : Nat
  fecInner : Byte
  modulation : Byte
  polarization : Byte
  diSEqC : Byte

/-- The seven digits of the symbol rate. -/
def symbolRate (b9 b10 b11 b12 : Byte) : Nat :=
  (b9.toNat >>> 4) * 100000000 + (b9.toNat &&& 0x0f) * 10000000 +
  (b10.toNat >>> 4) * 1000000 + (b10.toNat &&& 0x0f) * 100000 +
  (b11.toNat >>> 4) * 10000 + (b11.toNat &&& 0x0f) * 1000 +
  (b12.toNat >>> 4) * 100

/-- The frequency of a cable network, modulo `2 ^ 32`. -/
def cableFrequency (b2 b3 b4 b5 : Byte) : UInt32 :=
  UInt32.ofNat ((b2.toNat >>> 4) * 1000000000 + (b2.toNat &&& 0x0f) * 100000000 +
    (b3.toNat >>> 4) * 10000000 + (b3.toNat &&& 0x0f) * 1000000 +
    (b4.toNat >>> 4) * 100000 + (b4.toNat &&& 0x0f) * 10000 +
    (b5.toNat >>> 4) * 1000 + (b5.toNat &&& 0x0f) * 100)

/-- The key of a cable transponder. -/
def cableTransponderId (b2 b3 b4 b5 : Byte) (transponderId2 : UInt64) : UInt64 :=
  transponderId2 ||| (zfrequency (cableFrequency b2 b3 b4 b5)).toUInt64 <<< 48

/-- What is the same for all sections of a scan. -/
structure NitContext where
  satellitePosition : Int16
  diSEqC : UInt8
  netid : UInt32
  frontendType : FeType

/-- `returned` stands for the `return -2` out of the loops. -/
structure NitState where
  serviceTypes : OrdMap Nat Byte
  transponders : OrdMap Nat ScannedTransponder
  returned : Bool

def NitState.insert (s : NitState) (id : UInt64) (t : ScannedTransponder) : NitState :=
  { s with transponders := s.transponders.insertNew id.toNat t }

def satelliteDeliverySystemDescriptor (ctx : NitContext) (transponderId2 : UInt64) (buf : Str)
    (s : NitState) : Option NitState := do
  let digits ← string buf 2 4
  let polarization ← read buf 8
  let rate ← string buf 9 4
  let b i := digits.getD i 0
  let r i := rate.getD i 0
  let entry := satelliteDeliverySystem (b 0) (b 1) (b 2) (b 3) transponderId2
  let sum := symbolRate (r 0) (r 1) (r 2) (r 3)
  pure (s.insert entry.1 { entry.2 with
    frequency := UInt32.ofNat (satelliteFrequency (b 0) (b 1) (b 2) (b 3))
    symbolRate := if sum ≥ 50000000 then sum / 10 else sum
    fecInner := r 3 &&& 0x0f, modulation := 0
    polarization := polarization >>> 5 &&& 0x03, diSEqC := ctx.diSEqC })

def cableDeliverySystemDescriptor (transponderId2 : UInt64) (buf : Str) (s : NitState) :
    Option NitState := do
  let digits ← string buf 2 4
  let modulation ← read buf 8
  let rate ← string buf 9 4
  let b i := digits.getD i 0
  let r i := rate.getD i 0
  let id := cableTransponderId (b 0) (b 1) (b 2) (b 3) transponderId2
  pure (s.insert id {
    transportStreamId := getTransportStreamId id, originalNetworkId := getOriginalNetworkId id
    frequency := cableFrequency (b 0) (b 1) (b 2) (b 3)
    symbolRate := symbolRate (r 0) (r 1) (r 2) (r 3)
    fecInner := r 3 &&& 0x0f, modulation := modulation, polarization := 0, diSEqC := 0 })

/-- An entry of the service list. -/
def serviceType (tsid onid : UInt16) (buf : Str) (s : NitState) (k : Nat) : Option NitState := do
  let serviceId ← word buf (3 * k + 2)
  let type ← read buf (3 * k + 4)
  pure { s with serviceTypes := s.serviceTypes.set (createChannelId serviceId onid tsid) type }

/-- `for (int i = 0; i < buffer[1]; i += 3)`. -/
def serviceListDescriptor (tsid onid : UInt16) (buf : Str) (s : NitState) : Option NitState := do
  let length ← read buf 1
  (List.range ((length.toNat + 2) / 3)).foldlM (serviceType tsid onid buf) s

/-- The frontend that a delivery descriptor is for. -/
def deliveryType (tag : Byte) : Option FeType :=
  if tag = 0x43 then some .qpsk
  else if tag = 0x44 then some .qam
  else if tag = 0x5A then some .ofdm
  else none

/-- A delivery descriptor for another frontend than the one that is there. -/
def isForeign (ctx : NitContext) (tag : Byte) : Bool :=
  match deliveryType tag with
  | some type => type != ctx.frontendType
  | none => false

/-! ## The loops -/

def nitDescriptor (ctx : NitContext) (tsid onid : UInt16) (transponderId : UInt64) (tag : Byte)
    (buf : Str) (s : NitState) : Option NitState :=
  if tag = 0x41 then serviceListDescriptor tsid onid buf s
  else if tag = 0x43 then satelliteDeliverySystemDescriptor ctx transponderId buf s
  else if tag = 0x44 then cableDeliverySystemDescriptor transponderId buf s
  else some s

/-- One descriptor of a transport stream whose descriptors end at `stop`. -/
def nitDescriptorStep (ctx : NitContext) (tsid onid : UInt16) (transponderId : UInt64)
    (buffer : Str) (stop pos2 : Nat) (s : NitState) : Option (Nat × NitState) := do
  let tag ← read buffer pos2
  if isForeign ctx tag then pure (stop, { s with returned := true })
  else
    let s ← nitDescriptor ctx tsid onid transponderId tag (buffer.drop pos2) s
    let length ← read buffer (pos2 + 1)
    pure (pos2 + (length.toNat + 2), s)

/-- One transport stream. The loop over them ends at `stop`. -/
def transportStep (ctx : NitContext) (buffer : Str) (stop pos : Nat) (s : NitState) :
    Option (Nat × NitState) := do
  let tsid ← word buffer pos
  let onid ← word buffer (pos + 2)
  let length ← loopLength buffer (pos + 4)
  let transponderId := createTransponderId 0 ctx.satellitePosition onid tsid
  if s.transponders.contains transponderId.toNat then pure (pos + (length + 6), s)
  else
    let r ← walk (nitDescriptorStep ctx tsid onid transponderId buffer (pos + (length + 6)))
      (pos + (length + 6)) (pos + 6) s
    pure (if r.2.returned then stop else pos + (length + 6), r.2)

/-- No descriptor of the network is looked into. -/
def networkDescriptor (buf : Str) (_ : Unit) : Option Unit := do
  let _tag ← read buf 0
  pure ()

structure NitRun where
  sectionNumber : Byte
  lastSectionNumber : Byte
  state : NitState

/-- `while (section_number != last_section_number)`. -/
def NitRun.flow (r : NitRun) : Flow NitRun (Int × NitState) :=
  if r.sectionNumber = r.lastSectionNumber then .ret (0, r.state) else .again r

/-- The second loop of a section, if its length says that there is one. -/
def takeTransports (ctx : NitContext) (buffer : Str) (sectionLength pos : Nat) (s : NitState) :
    Option NitState := do
  let transportStreamLoopLength ← loopLength buffer pos
  if transportStreamLoopLength = 0 then pure s
  else
    let r ← walk (transportStep ctx buffer (sectionLength - 3)) (sectionLength - 3) (pos + 2) s
    pure r.2

/-- A section of the network that is asked for. -/
def takeNit (ctx : NitContext) (buffer : Str) (s : NitState) :
    Option (Flow NitRun (Int × NitState)) := do
  let sectionLength ← loopLength buffer 1
  let sectionNumber ← read buffer 6
  let lastSectionNumber ← read buffer 7
  let networkDescriptorsLength ← loopLength buffer 8
  let network ← walk (entryStep networkDescriptor buffer) (networkDescriptorsLength + 10) 10 ()
  let s ← takeTransports ctx buffer sectionLength network.1 s
  pure (if s.returned then .ret (-2, s) else NitRun.flow ⟨sectionNumber, lastSectionNumber, s⟩)

/-- Another network is asked for. -/
def isOther (ctx : NitContext) (networkId : UInt16) : Bool :=
  ctx.netid != 0 && ctx.netid != networkId.toUInt32

def parseNitSection (ctx : NitContext) (buffer : Str) (r : NitRun) :
    Option (Flow NitRun (Int × NitState)) := do
  let networkId ← word buffer 3
  if isOther ctx networkId then pure r.flow else takeNit ctx buffer r.state

def parseNit (ctx : NitContext) (answers : Answers) (fuel : Nat) (buffer : Str)
    (serviceTypes : OrdMap Nat Byte) (transponders : OrdMap Nat ScannedTransponder) :
    Option (Int × NitState) :=
  readFor (parseNitSection ctx) (fun r => (-1, r.state)) answers fuel 0 buffer
    ⟨0, 1, serviceTypes, transponders, false⟩

/-! ## Sections that fit -/

/-- The transponders that are known, and whether the loops were left. -/
structure NitNotes where
  known : Nat → Bool
  returned : Bool

def NitState.notes (s : NitState) : NitNotes := ⟨s.transponders.contains, s.returned⟩

@[mk_iff] structure NitDescriptorFits (buf : Str) : Prop where
  services : buf.getD 0 0 = 0x41 → ∀ k < (lengthAt buf 1 + 2) / 3, 3 * k + 5 ≤ buf.length
  delivery : buf.getD 0 0 = 0x43 ∨ buf.getD 0 0 = 0x44 → 13 ≤ buf.length

/-- The key that a delivery descriptor gives to the transponder. -/
def deliveredId (transponderId2 : UInt64) (buf : Str) : UInt64 :=
  if buf.getD 0 0 = 0x43 then
    (satelliteDeliverySystem (buf.getD 2 0) (buf.getD 3 0) (buf.getD 4 0) (buf.getD 5 0)
      transponderId2).1
  else
    cableTransponderId (buf.getD 2 0) (buf.getD 3 0) (buf.getD 4 0) (buf.getD 5 0) transponderId2

def nitNote (ctx : NitContext) (transponderId : UInt64) (buf : Str) (t : NitNotes) : NitNotes :=
  if isForeign ctx (buf.getD 0 0) then { t with returned := true }
  else if buf.getD 0 0 = 0x43 ∨ buf.getD 0 0 = 0x44 then
    { t with
      known := fun id => decide (id = (deliveredId transponderId buf).toNat) || t.known id }
  else t

/-- The transport stream at a place. -/
def transponderAt (ctx : NitContext) (buf : Str) (p : Nat) : UInt64 :=
  createTransponderId 0 ctx.satellitePosition (wordAt buf (p + 2)) (wordAt buf p)

def nextTransport (buf : Str) (p : Nat) : Nat := p + (loopLengthAt buf (p + 4) + 6)

def transportNote (ctx : NitContext) (buf : Str) (p : Nat) (t : NitNotes) : NitNotes :=
  if t.known (transponderAt ctx buf p).toNat then t
  else
    noted (fun d _ => isForeign ctx (buf.getD d 0))
      (fun d => nitNote ctx (transponderAt ctx buf p) (buf.drop d))
      (places (nextEntry buf) (nextTransport buf p) (p + 6)) t

/-- Its descriptors are read, and one of them is for another frontend. -/
def transportLeaves (ctx : NitContext) (buf : Str) (p : Nat) (t : NitNotes) : Bool :=
  !t.known (transponderAt ctx buf p).toNat && (transportNote ctx buf p t).returned

/-- A descriptor is passed as a whole, or ends the loop with its tag. -/
def NitEntryFits (ctx : NitContext) (buf : Str) (d : Nat) : Prop :=
  d < buf.length ∧ (isForeign ctx (buf.getD d 0) = false →
    d + 1 < buf.length ∧ NitDescriptorFits (buf.drop d))

structure TransportFits (ctx : NitContext) (buf : Str) (p : Nat) (t : NitNotes) : Prop where
  header : p + 5 < buf.length
  descriptors : t.known (transponderAt ctx buf p).toNat = false →
    Passes (fun d _ => NitEntryFits ctx buf d) (fun d _ => isForeign ctx (buf.getD d 0))
      (fun d => nitNote ctx (transponderAt ctx buf p) (buf.drop d))
      (places (nextEntry buf) (nextTransport buf p) (p + 6)) t

/-- Behind the descriptors of the network, with the length of the second loop. -/
def networkStop (buf : Str) : Nat := placeBehind (nextEntry buf) (loopLengthAt buf 8 + 10) 10

def transportPlaces (buf : Str) : List Nat :=
  places (nextTransport buf) (loopLengthAt buf 1 - 3) (networkStop buf + 2)

structure NetworkFits (ctx : NitContext) (buf : Str) (t : NitNotes) : Prop where
  network : ∀ d ∈ places (nextEntry buf) (loopLengthAt buf 8 + 10) 10, d + 1 < buf.length
  second : networkStop buf + 1 < buf.length
  transports : loopLengthAt buf (networkStop buf) ≠ 0 →
    Passes (TransportFits ctx buf) (transportLeaves ctx buf) (transportNote ctx buf)
      (transportPlaces buf) t

/-- The numbers of the section and of the last one, and the notes. -/
structure NitRunNotes where
  sectionNumber : Byte
  lastSectionNumber : Byte
  notes : NitNotes

def NitRun.view (r : NitRun) : NitRunNotes := ⟨r.sectionNumber, r.lastSectionNumber, r.state.notes⟩

def NitFits (ctx : NitContext) (buf : Str) (t : NitRunNotes) : Prop :=
  isOther ctx (wordAt buf 3) = false → NetworkFits ctx buf t.notes

def networkNote (ctx : NitContext) (buf : Str) (t : NitNotes) : NitNotes :=
  if loopLengthAt buf (networkStop buf) = 0 then t
  else noted (transportLeaves ctx buf) (transportNote ctx buf) (transportPlaces buf) t

def nitSectionNote (ctx : NitContext) (buf : Str) (t : NitRunNotes) : NitRunNotes :=
  if isOther ctx (wordAt buf 3) then t
  else ⟨buf.getD 6 0, buf.getD 7 0, networkNote ctx buf t.notes⟩

/-- The last section of the network, or one with a descriptor for another frontend. -/
def NitLast (ctx : NitContext) (buf : Str) (t : NitRunNotes) : Prop :=
  (nitSectionNote ctx buf t).sectionNumber = (nitSectionNote ctx buf t).lastSectionNumber ∨
    isOther ctx (wordAt buf 3) = false ∧ (networkNote ctx buf t.notes).returned

/-! ## Descriptors -/

section
variable {ctx : NitContext} {tsid onid : UInt16} {transponderId : UInt64} {buf : Str}
  {s s' : NitState}

theorem delivery_isSome {f : Str → Byte → Str → NitState} : (∃ s', (do
    let digits ← string buf 2 4
    let b8 ← read buf 8
    let rate ← string buf 9 4
    pure (f digits b8 rate)) = some s') ↔ 13 ≤ buf.length := by
  have hrate : ∀ digits : Str, (∃ s', (do
      let b8 ← read buf 8
      let rate ← string buf 9 4
      pure (f digits b8 rate)) = some s') ↔ 13 ≤ buf.length := by
    intro digits
    rw [exists_read, exists_bind_pure, string_some_iff (by decide) (by decide)]
    omega
  rw [exists_bind_iff hrate, string_some_iff (by decide) (by decide)]
  omega

theorem serviceType_isSome {k : Nat} :
    (∃ s', serviceType tsid onid buf s k = some s') ↔ 3 * k + 5 ≤ buf.length := by
  unfold serviceType
  rw [exists_bind_iff (P := 3 * k + 5 ≤ buf.length) fun _ => ?_, word_isSome]
  · omega
  · rw [exists_bind_pure, read_isSome]
    omega

theorem nitDescriptor_iff (h1 : 1 < buf.length) :
    (∃ s', nitDescriptor ctx tsid onid transponderId (buf.getD 0 0) buf s = some s') ↔
      NitDescriptorFits buf := by
  unfold nitDescriptor
  rw [nitDescriptorFits_iff]
  have hlength : (buf.getD 1 0).toNat = lengthAt buf 1 := rfl
  generalize buf.getD 0 0 = tag
  split_ifs with h41 h43 h44
  · unfold serviceListDescriptor
    rw [exists_read, and_iff_right h1, hlength, foldlM_ends_iff (fun k => 3 * k + 5 ≤ buf.length)
      fun _ _ => serviceType_isSome]
    simp [h41]
  · unfold satelliteDeliverySystemDescriptor
    rw [delivery_isSome]
    simp [h43]
  · unfold cableDeliverySystemDescriptor
    rw [delivery_isSome]
    simp [h44]
  · refine iff_of_true ⟨_, rfl⟩ ?_
    simp [h41, h43, h44]

theorem string_eq {i n : Nat} {t : Str} (h : string buf i n = some t) :
    t = (buf.drop i).take n := by
  unfold string at h
  split at h
  · rename_i hzero
    rw [← Option.some_inj.mp h, hzero, List.take_zero]
  · split at h
    · exact (Option.some_inj.mp h).symm
    · cases h

theorem getD_string {i n j : Nat} {t : Str} (h : string buf i n = some t) (hj : j < n) :
    t.getD j 0 = buf.getD (i + j) 0 := by
  rw [string_eq h, List.getD, List.getElem?_take_of_lt hj, List.getElem?_drop, List.getD]

/-- The digits of the frequency. -/
theorem digits_eq {digits : Str} (h : string buf 2 4 = some digits) :
    digits.getD 0 0 = buf.getD 2 0 ∧ digits.getD 1 0 = buf.getD 3 0 ∧
      digits.getD 2 0 = buf.getD 4 0 ∧ digits.getD 3 0 = buf.getD 5 0 :=
  ⟨getD_string h (by decide), getD_string h (by decide), getD_string h (by decide),
    getD_string h (by decide)⟩

theorem notes_insert (id : UInt64) (t : ScannedTransponder) : (s.insert id t).notes =
    { s.notes with known := fun k => decide (k = id.toNat) || s.notes.known k } := by
  have hcontains : ∀ k, (s.transponders.insertNew id.toNat t).contains k =
      (decide (k = id.toNat) || s.transponders.contains k) := by
    intro k
    rw [OrdMap.contains, OrdMap.find_insertNew]
    by_cases hk : k = id.toNat
    · rw [if_pos hk, decide_eq_true hk]
      rfl
    · rw [if_neg hk, decide_eq_false hk]
      rfl
  exact congrArg (NitNotes.mk · s.returned) (funext hcontains)

theorem serviceListDescriptor_notes (h : serviceListDescriptor tsid onid buf s = some s') :
    s'.notes = s.notes := by
  unfold serviceListDescriptor at h
  obtain ⟨-, h⟩ := read_bind.mp h
  refine foldlM_keeps (P := fun s' => s'.notes = s.notes) (fun t k t' ht hs => ?_) h rfl
  unfold serviceType at ht
  obtain ⟨id, -, ht⟩ := Option.bind_eq_some_iff.mp ht
  obtain ⟨-, ht⟩ := read_bind.mp ht
  rw [← Option.some_inj.mp ht, ← hs]
  rfl

/-- The key is made of the four bytes of the frequency. -/
theorem nitDescriptor_notes
    (h : nitDescriptor ctx tsid onid transponderId (buf.getD 0 0) buf s = some s') :
    s'.notes = if buf.getD 0 0 = 0x43 ∨ buf.getD 0 0 = 0x44 then
      { s.notes with
        known := fun id => decide (id = (deliveredId transponderId buf).toNat) || s.notes.known id }
      else s.notes := by
  unfold nitDescriptor at h
  unfold deliveredId
  split_ifs at h with h41 h43 h44
  · rw [if_neg (by rw [h41]; decide), serviceListDescriptor_notes h]
  · unfold satelliteDeliverySystemDescriptor at h
    obtain ⟨digits, hdigits, h⟩ := Option.bind_eq_some_iff.mp h
    obtain ⟨-, h⟩ := read_bind.mp h
    obtain ⟨rate, -, h⟩ := Option.bind_eq_some_iff.mp h
    rw [if_pos (.inl h43), if_pos h43, ← Option.some_inj.mp h, notes_insert]
    obtain ⟨h0, h1, h2, h3⟩ := digits_eq hdigits
    simp only [h0, h1, h2, h3]
  · unfold cableDeliverySystemDescriptor at h
    obtain ⟨digits, hdigits, h⟩ := Option.bind_eq_some_iff.mp h
    obtain ⟨-, h⟩ := read_bind.mp h
    obtain ⟨rate, -, h⟩ := Option.bind_eq_some_iff.mp h
    rw [if_pos (.inr h44), if_neg h43, ← Option.some_inj.mp h, notes_insert]
    obtain ⟨h0, h1, h2, h3⟩ := digits_eq hdigits
    simp only [h0, h1, h2, h3]
  · rw [if_neg (not_or.mpr ⟨h43, h44⟩), ← Option.some_inj.mp h]

/-! ## Transport streams -/

theorem nitDescriptors_follow (stop : Nat) :
    Follows (fun d _ => NitEntryFits ctx buf d) (fun d _ => isForeign ctx (buf.getD d 0))
      (fun d => nitNote ctx transponderId (buf.drop d))
      (nitDescriptorStep ctx tsid onid transponderId buf stop) stop NitState.notes
      (nextEntry buf) where
  moves := lt_nextEntry buf
  result := fun d s r _ h => by
    unfold nitDescriptorStep at h
    obtain ⟨-, h⟩ := read_bind.mp h
    have htag : buf.getD d 0 = (buf.drop d).getD 0 0 := by rw [getD_drop, Nat.add_zero]
    unfold nitNote
    rw [← htag]
    split at h
    · rename_i hforeign
      rw [if_pos hforeign, if_pos hforeign, ← Option.some_inj.mp h]
      exact ⟨rfl, rfl⟩
    · rename_i hours
      obtain ⟨s₁, hs₁, h⟩ := Option.bind_eq_some_iff.mp h
      obtain ⟨-, h⟩ := read_bind.mp h
      rw [htag] at hs₁
      rw [if_neg hours, if_neg hours, ← Option.some_inj.mp h, htag]
      exact ⟨rfl, nitDescriptor_notes hs₁⟩
  ends := fun d s _ => by
    unfold nitDescriptorStep NitEntryFits
    rw [exists_read]
    refine and_congr_right fun hd => ?_
    have htag : buf.getD d 0 = (buf.drop d).getD 0 0 := by rw [getD_drop, Nat.add_zero]
    split
    · rename_i hforeign
      exact iff_of_true ⟨_, rfl⟩ fun h => absurd hforeign (Bool.eq_false_iff.mp h)
    · rename_i hours
      rw [forall_prop_of_true (Bool.eq_false_iff.mpr hours),
        exists_bind_iff (P := d + 1 < buf.length) fun s' => by
          rw [exists_read]
          exact and_iff_left ⟨_, rfl⟩, and_comm]
      refine and_congr_right fun hd1 => ?_
      rw [htag]
      exact nitDescriptor_iff (by rw [List.length_drop]; omega)

/-- The round at a transport stream, with its header read. -/
theorem transportStep_eq {stop p : Nat} (hp : p + 5 < buf.length) :
    transportStep ctx buf stop p s =
      if s.notes.known (transponderAt ctx buf p).toNat then some (nextTransport buf p, s)
      else
        (walk (nitDescriptorStep ctx (wordAt buf p) (wordAt buf (p + 2)) (transponderAt ctx buf p)
          buf (nextTransport buf p)) (nextTransport buf p) (p + 6) s).map
            fun r => (if r.2.returned then stop else nextTransport buf p, r.2) := by
  have htsid : word buf p = some (wordAt buf p) := word_some (by omega)
  have honid : word buf (p + 2) = some (wordAt buf (p + 2)) := word_some (by omega)
  have hlength : loopLength buf (p + 4) = some (loopLengthAt buf (p + 4)) := loopLength_some hp
  unfold transportStep
  rw [bind_of_some htsid, bind_of_some honid, bind_of_some hlength, Option.map_eq_bind]
  rfl

theorem transportStep_header {stop p : Nat} {r : Nat × NitState}
    (h : transportStep ctx buf stop p s = some r) : p + 5 < buf.length := by
  unfold transportStep at h
  obtain ⟨tsid, -, h⟩ := Option.bind_eq_some_iff.mp h
  obtain ⟨onid, -, h⟩ := Option.bind_eq_some_iff.mp h
  obtain ⟨length, hlength, -⟩ := Option.bind_eq_some_iff.mp h
  exact loopLength_isSome.mp ⟨length, hlength⟩

theorem transports_follow (stop : Nat) :
    Follows (TransportFits ctx buf) (transportLeaves ctx buf) (transportNote ctx buf)
      (transportStep ctx buf stop) stop NitState.notes (nextTransport buf) where
  moves := fun p => by
    unfold nextTransport
    omega
  result := fun p s r _ h => by
    rw [transportStep_eq (transportStep_header h)] at h
    unfold transportLeaves transportNote
    split at h
    · rename_i hknown
      rw [hknown, ← Option.some_inj.mp h]
      exact ⟨rfl, rfl⟩
    · rename_i hnew
      obtain ⟨q, hq, rfl⟩ := Option.map_eq_some_iff.mp h
      have hnotes := (nitDescriptors_follow (nextTransport buf p)).view_eq hq
      rw [if_neg hnew, Bool.eq_false_iff.mpr hnew, Bool.not_false, Bool.true_and, ← hnotes]
      exact ⟨rfl, rfl⟩
  ends := fun p s _ => by
    have hfollow : Follows _ _ _ (nitDescriptorStep ctx (wordAt buf p) (wordAt buf (p + 2))
        (transponderAt ctx buf p) buf (nextTransport buf p)) _ _ _ :=
      nitDescriptors_follow (nextTransport buf p)
    have hwalk := hfollow.ends_iff (p + 6) s
    constructor
    · rintro ⟨r, h⟩
      have hp := transportStep_header h
      refine ⟨hp, fun hnew => ?_⟩
      rw [transportStep_eq hp, hnew, if_neg Bool.false_ne_true] at h
      obtain ⟨q, hq, -⟩ := Option.map_eq_some_iff.mp h
      exact hwalk.mp ⟨q, hq⟩
    · rintro ⟨hp, hpasses⟩
      rw [transportStep_eq hp]
      split
      · exact ⟨_, rfl⟩
      · rename_i hnew
        obtain ⟨q, hq⟩ := hwalk.mpr (hpasses (Bool.eq_false_iff.mpr hnew))
        rw [hq]
        exact ⟨_, rfl⟩

/-! ## Sections -/

theorem network_follows (stop : Nat) :
    Follows (fun d _ => d + 1 < buf.length ∧ True) (fun _ _ => false) (fun _ _ => ())
      (entryStep networkDescriptor buf) stop (fun _ => ()) (nextEntry buf) :=
  entryStep_follows (fun _ _ _ _ => rfl) (fun d s hd => by
    unfold networkDescriptor
    rw [exists_bind_pure, read_isSome, iff_true, List.length_drop]
    omega) stop

/-- The loop over the descriptors of the network. -/
def networkWalk (buf : Str) : Option (Nat × Unit) :=
  walk (entryStep networkDescriptor buf) (loopLengthAt buf 8 + 10) 10 ()

theorem networkWalk_iff : (∃ r, networkWalk buf = some r) ↔
    ∀ d ∈ places (nextEntry buf) (loopLengthAt buf 8 + 10) 10, d + 1 < buf.length := by
  unfold networkWalk
  rw [(network_follows _).ends_iff, passes_iff_forall]
  exact forall₂_congr fun d _ => and_iff_left trivial

theorem networkWalk_stop {r : Nat × Unit} (h : networkWalk buf = some r) :
    r.1 = networkStop buf :=
  (network_follows _).place_eq (fun _ _ => rfl) h

/-- A section of the right network, with its header read. -/
theorem takeNit_eq (h10 : 10 ≤ buf.length) : takeNit ctx buf s =
    (networkWalk buf).bind fun network =>
      (takeTransports ctx buf (loopLengthAt buf 1) network.1 s).map fun s =>
        if s.returned then .ret (-2, s) else NitRun.flow ⟨buf.getD 6 0, buf.getD 7 0, s⟩ := by
  have hlength : loopLength buf 1 = some (loopLengthAt buf 1) := loopLength_some (by omega)
  have hnumber : Buffer.read buf 6 = some (buf.getD 6 0) := read_some (by omega)
  have hlast : Buffer.read buf 7 = some (buf.getD 7 0) := read_some (by omega)
  have hnetwork : loopLength buf 8 = some (loopLengthAt buf 8) := loopLength_some (by omega)
  unfold takeNit
  rw [bind_of_some hlength, bind_of_some hnumber, bind_of_some hlast, bind_of_some hnetwork]
  simp only [Option.map_eq_bind]
  rfl

theorem takeTransports_iff (stop pos : Nat) :
    (∃ s', takeTransports ctx buf stop pos s = some s') ↔ pos + 1 < buf.length ∧
      (loopLengthAt buf pos ≠ 0 → Passes (TransportFits ctx buf) (transportLeaves ctx buf)
        (transportNote ctx buf) (places (nextTransport buf) (stop - 3) (pos + 2)) s.notes) := by
  unfold takeTransports
  rcases Nat.lt_or_ge (pos + 1) buf.length with hpos | hpos
  · have hlength : loopLength buf pos = some (loopLengthAt buf pos) := loopLength_some hpos
    rw [and_iff_right hpos, bind_of_some hlength]
    split
    · rename_i hzero
      exact iff_of_true ⟨_, rfl⟩ fun h => absurd hzero h
    · rename_i hloop
      rw [forall_prop_of_true hloop, exists_bind_pure, (transports_follow _).ends_iff]
  · refine iff_of_false (fun h => ?_) fun h => absurd h.1 (Nat.not_lt.mpr hpos)
    obtain ⟨n, hn, -⟩ := exists_bind.mp h
    exact absurd (loopLength_isSome.mp ⟨n, hn⟩) (Nat.not_lt.mpr hpos)

theorem takeTransports_notes
    (h : takeTransports ctx buf (loopLengthAt buf 1) (networkStop buf) s = some s') :
    s'.notes = networkNote ctx buf s.notes := by
  unfold takeTransports at h
  obtain ⟨n, hn, h⟩ := Option.bind_eq_some_iff.mp h
  have hpos := loopLength_isSome.mp ⟨n, hn⟩
  rw [loopLength_some hpos] at hn
  unfold networkNote
  rw [Option.some_inj.mp hn]
  split at h
  · rename_i hzero
    rw [if_pos hzero, ← Option.some_inj.mp h]
  · rename_i hloop
    obtain ⟨r, hr, h⟩ := Option.bind_eq_some_iff.mp h
    rw [if_neg hloop, ← Option.some_inj.mp h]
    exact (transports_follow _).view_eq hr

theorem takeNit_iff (h10 : 10 ≤ buf.length) :
    (∃ f, takeNit ctx buf s = some f) ↔ NetworkFits ctx buf s.notes := by
  rw [takeNit_eq h10]
  constructor
  · rintro ⟨f, h⟩
    obtain ⟨network, hnetwork, h⟩ := Option.bind_eq_some_iff.mp h
    obtain ⟨s', hs', -⟩ := Option.map_eq_some_iff.mp h
    rw [networkWalk_stop hnetwork] at hs'
    obtain ⟨hsecond, htransports⟩ := (takeTransports_iff _ _).mp ⟨s', hs'⟩
    exact ⟨networkWalk_iff.mp ⟨network, hnetwork⟩, hsecond, htransports⟩
  · intro h
    obtain ⟨network, hnetwork⟩ := networkWalk_iff.mpr h.network
    obtain ⟨s', hs'⟩ := (takeTransports_iff (loopLengthAt buf 1) _).mpr ⟨h.second, h.transports⟩
    rw [hnetwork, Option.bind_some, networkWalk_stop hnetwork, hs']
    exact ⟨_, rfl⟩

/-- What becomes of a section of the right network. -/
theorem takeNit_some (h10 : 10 ≤ buf.length) {f : Flow NitRun (Int × NitState)}
    (h : takeNit ctx buf s = some f) : ∃ s' : NitState, s'.notes = networkNote ctx buf s.notes ∧
      f = if s'.returned then .ret (-2, s') else NitRun.flow ⟨buf.getD 6 0, buf.getD 7 0, s'⟩ := by
  rw [takeNit_eq h10] at h
  obtain ⟨network, hnetwork, h⟩ := Option.bind_eq_some_iff.mp h
  obtain ⟨s', hs', rfl⟩ := Option.map_eq_some_iff.mp h
  rw [networkWalk_stop hnetwork] at hs'
  exact ⟨s', takeTransports_notes hs', rfl⟩

theorem flow_again {r r' : NitRun} (h : r.flow = .again r') :
    r.sectionNumber ≠ r.lastSectionNumber ∧ r' = r := by
  unfold NitRun.flow at h
  split at h
  · cases h
  · rename_i hne
    cases h
    exact ⟨hne, rfl⟩

theorem flow_ret {r : NitRun} {q : Int × NitState} (h : r.flow = .ret q) :
    r.sectionNumber = r.lastSectionNumber := by
  unfold NitRun.flow at h
  split at h
  · assumption
  · cases h

theorem parseNitSection_eq (h10 : 10 ≤ buf.length) (r : NitRun) : parseNitSection ctx buf r =
    if isOther ctx (wordAt buf 3) then some r.flow else takeNit ctx buf r.state := by
  have hid : word buf 3 = some (wordAt buf 3) := word_some (by omega)
  unfold parseNitSection
  rw [bind_of_some hid]
  rfl

theorem parseNitSection_handles : Handles (parseNitSection ctx) 1024 NitRun.view
    (nitSectionNote ctx) (NitFits ctx) (NitLast ctx) where
  ends := fun buf r hbuf => by
    rw [parseNitSection_eq (by omega)]
    unfold NitFits
    split
    · rename_i hother
      exact iff_of_true ⟨_, rfl⟩ fun h => absurd hother (Bool.eq_false_iff.mp h)
    · rename_i hours
      rw [takeNit_iff (by omega), forall_prop_of_true (Bool.eq_false_iff.mpr hours)]
      rfl
  again := fun buf r r' hbuf h => by
    rw [parseNitSection_eq (by omega)] at h
    unfold NitLast nitSectionNote
    split at h
    · rename_i hother
      obtain ⟨hne, rfl⟩ := flow_again (Option.some_inj.mp h)
      rw [if_pos hother, hother]
      exact ⟨(fun hlast => hlast.elim hne fun h => nomatch h.1), rfl⟩
    · rename_i hours
      obtain ⟨s', hnotes, hf⟩ := takeNit_some (by omega) h
      have hview : r.view.notes = r.state.notes := rfl
      rw [if_neg hours, hview, ← hnotes]
      split at hf
      · cases hf
      · rename_i hstayed
        obtain ⟨hne, rfl⟩ := flow_again hf.symm
        exact ⟨fun hlast => hlast.elim hne fun h => hstayed h.2, rfl⟩
  ret := fun buf r q hbuf h => by
    rw [parseNitSection_eq (by omega)] at h
    unfold NitLast nitSectionNote
    split at h
    · rename_i hother
      rw [if_pos hother]
      exact .inl (flow_ret (Option.some_inj.mp h))
    · rename_i hours
      obtain ⟨s', hnotes, hf⟩ := takeNit_some (by omega) h
      have hview : r.view.notes = r.state.notes := rfl
      rw [if_neg hours, hview, ← hnotes]
      split at hf
      · rename_i hleft
        exact .inr ⟨Bool.eq_false_iff.mpr hours, hleft⟩
      · exact .inl (flow_ret hf.symm)

/-- The scan of a network ends, and reads nothing outside its buffer, if and only if its sections
let it. -/
theorem parseNit_iff {answers : Answers} {buffer : Str} (hbuf : buffer.length = 1024)
    (ctx : NitContext) (serviceTypes : OrdMap Nat Byte)
    (transponders : OrdMap Nat ScannedTransponder) :
    (∃ fuel r, parseNit ctx answers fuel buffer serviceTypes transponders = some r) ↔
      Finishes (nitSectionNote ctx) answers (NitFits ctx) (NitLast ctx) buffer
        ⟨0, 1, transponders.contains, false⟩ :=
  readFor_ends_iff parseNitSection_handles hbuf ⟨0, 1, serviceTypes, transponders, false⟩

end

/-! ## All parsers -/

/-- Whatever comes, the parsers end and read nothing outside their buffers if and only if every
section they take fits, and one of the sections is the last. -/
theorem parsers_end_iff {es pmt sdt nit : Str} (hpmt : pmt.length = 1024)
    (hsdt : sdt.length = 1026) (hnit : nit.length = 1024) (channel : ChannelPids) (caPmt : CCaPmt)
    (answer : Option Str) (answers : Answers) (scan : ScanContext) (allchans : Tallchans)
    (network : NitContext) (serviceTypes : OrdMap Nat Byte)
    (transponders : OrdMap Nat ScannedTransponder) :
    ((∃ r, parseESInfo es channel caPmt = some r) ↔ EsFits es) ∧
    ((∃ r, parsePmt answer pmt channel = some r) ↔
      (channel.pmtPid ≠ 0 → ∀ sec, answer = some sec → PmtFits (fill pmt sec))) ∧
    ((∃ fuel r, parseSdt scan answers fuel sdt allchans = some r) ↔
      Finishes (sdtSectionNote scan) answers (SdtFits scan) SdtLast sdt
        (0, ⟨allchans.known, 99⟩)) ∧
    ((∃ fuel r, parseNit network answers fuel nit serviceTypes transponders = some r) ↔
      Finishes (nitSectionNote network) answers (NitFits network) (NitLast network) nit
        ⟨0, 1, transponders.contains, false⟩) :=
  ⟨parseESInfo_iff, parsePmt_iff hpmt, parseSdt_iff hsdt scan allchans,
    parseNit_iff hnit network serviceTypes transponders⟩

/-- A channel that only its program map is known of. -/
def tuned : ChannelPids := ⟨0x21, 0, 0, 0, 0, [], [], 0, 0, false, false, none⟩

/-- A scrambled audio stream in German. -/
def audioStream : Str :=
  [0x03, 0xE1, 0x01, 0xF0, 12, 0x0A, 4, 0x64, 0x65, 0x75, 0, 0x09, 4, 0x17, 0x02, 0xE1, 0x23]

/-- A video stream in front of it. -/
def programMap : Str :=
  [0x02, 0xB0, 35, 0, 1, 0xC1, 0, 0, 0xE1, 0x00, 0xF0, 0, 0x02, 0xE1, 0x00, 0xF0, 0] ++
    audioStream ++ [0, 0, 0, 0]

/-- The service `News` of the provider `ARD`. -/
def serviceDescription : Str :=
  [0x42, 0xF0, 29, 0x04, 0x4D, 0xC1, 0, 0, 0, 1, 0xFF, 0, 0x64, 0xFC, 0x80, 12, 0x48, 10, 1, 3] ++
    chars "ARD" ++ 4 :: chars "News" ++ [0, 0, 0, 0]

/-- A transport stream with its satellite delivery descriptor. -/
def networkInformation : Str :=
  [0x40, 0xF0, 32, 0, 1, 0xC1, 0, 0, 0xF0, 0, 0xF0, 19, 0x04, 0x4D, 0, 1, 0xF0, 13, 0x43, 11, 1,
    0x18, 0x36, 0, 1, 0x92, 0x81, 2, 0x75, 0, 3, 0, 0, 0, 0]

/-- A stream, a program map, a service description and a network whose parsers end. -/
theorem parsers_end_iff_sample :
    EsFits audioStream ∧ PmtFits (fill (.replicate 1024 0) programMap) ∧
    Finishes (sdtSectionNote ⟨192, 0, 12544, false, .empty⟩) (fun _ => some serviceDescription)
      (SdtFits ⟨192, 0, 12544, false, .empty⟩) SdtLast (.replicate 1026 0)
      (0, ⟨fun _ => false, 99⟩) ∧
    Finishes (nitSectionNote ⟨192, 0, 1, .qpsk⟩) (fun _ => some networkInformation)
      (NitFits ⟨192, 0, 1, .qpsk⟩) (NitLast ⟨192, 0, 1, .qpsk⟩) (.replicate 1024 0)
      ⟨0, 1, ⟨fun _ => false, false⟩⟩ := by
  have hends (answers : Answers) := @parsers_end_iff audioStream (.replicate 1024 0)
    (.replicate 1026 0) (.replicate 1024 0) List.length_replicate List.length_replicate
    List.length_replicate tuned ⟨.create 0, 0, 0, 0, 0, 0, []⟩ (some programMap) answers
    ⟨192, 0, 12544, false, .empty⟩ ⟨.empty, fun _ _ h => nomatch h⟩ ⟨192, 0, 1, .qpsk⟩ .empty
    .empty
  obtain ⟨hes, hpmt, hsdt, -⟩ := hends fun _ => some serviceDescription
  obtain ⟨-, -, -, hnit⟩ := hends fun _ => some networkInformation
  have hstream : ((parseESInfo audioStream tuned ⟨.create 0, 0, 0, 0, 0, 0, []⟩).map fun r =>
      (r.1, r.2.1.audioChannels.map (·.description))) = some (12, [chars "deu"]) := by
    decide +kernel
  have hmap : ((parsePmt (some programMap) (.replicate 1024 0) tuned).map fun r =>
      (r.1, r.2.videoPid, r.2.audioChannels.map (·.pid))) = some (0, 0x100, [0x101]) := by
    decide +kernel
  have hservices : ((parseSdt ⟨192, 0, 12544, false, .empty⟩ (fun _ => some serviceDescription) 1
      (.replicate 1026 0) ⟨.empty, fun _ _ h => nomatch h⟩).map fun r =>
        (r.1, r.2.allchans.map.entries.map (·.2.name))) = some (0, [chars "News"]) := by
    decide +kernel
  have hnetwork : ((parseNit ⟨192, 0, 1, .qpsk⟩ (fun _ => some networkInformation) 1
      (.replicate 1024 0) .empty .empty).map fun r =>
        (r.1, r.2.transponders.entries.map (·.2.frequency))) = some (0, [11836000]) := by
    decide +kernel
  obtain ⟨_, hstream, -⟩ := Option.map_eq_some_iff.mp hstream
  obtain ⟨_, hmap, -⟩ := Option.map_eq_some_iff.mp hmap
  obtain ⟨_, hservices, -⟩ := Option.map_eq_some_iff.mp hservices
  obtain ⟨_, hnetwork, -⟩ := Option.map_eq_some_iff.mp hnetwork
  exact ⟨hes.mp ⟨_, hstream⟩, hpmt.mp ⟨_, hmap⟩ (by decide) _ rfl, hsdt.mp ⟨1, _, hservices⟩,
    hnit.mp ⟨1, _, hnetwork⟩⟩

/-- A program map of 1026 bytes is written into its file from a buffer of 1024. -/
theorem pmt_read_behind : ¬ ∀ (answer : Option Str) (buffer : Str) (channel : ChannelPids),
    buffer.length = 1024 → ∃ r, parsePmt answer buffer channel = some r := by
  intro h
  have hbuf : (List.replicate 1024 (0 : Byte)).length = 1024 := List.length_replicate
  have hfits := (parsePmt_iff hbuf).mp
    (h (some (2 :: 0xB3 :: 0xFF :: .replicate 1023 0)) _ tuned hbuf) (by decide) _ rfl
  have hcopied := hfits.copied
  have hlength : ∀ t : Str, loopLengthAt (2 :: 0xB3 :: 0xFF :: t) 1 = 1023 := fun _ => by
    unfold loopLengthAt
    rw [List.getD_cons_succ, List.getD_cons_zero, List.getD_cons_succ, List.getD_cons_succ,
      List.getD_cons_zero]
    decide
  rw [fill_length, hbuf, fill, hbuf, List.take_succ_cons, List.take_succ_cons,
    List.take_succ_cons, List.cons_append, List.cons_append, List.cons_append, hlength] at hcopied
  exact absurd hcopied (by decide)

end Tuxbox.Zapit
