import Tuxbox.Lib.Run
import Tuxbox.Dvbsi.CaProgramMap

/-!
# What the CA-PMT of libdvbsi++ says
-/

namespace Tuxbox.Dvbsi

open Connection

/-! ## The grammar -/

/-- A number, most significant byte first. -/
def bigEndianValue (bs : List Byte) : Nat := bs.foldl (fun v b => v * 256 + b.toNat) 0

/-- `length_field()` -/
def decodeLength : List Byte → Option (Nat × List Byte)
  | [] => none
  | b :: rest =>
    if b.toNat < 128 then some (b.toNat, rest)
    else
      let size := b.toNat - 128
      if rest.length < size then none
      else some (bigEndianValue (rest.take size), rest.drop size)

def decodeDescriptor : List Byte → Option (Descriptor × List Byte)
  | tag :: len :: rest =>
    if len.toNat ≤ rest.length then
      let d : Descriptor := ⟨tag, rest.take len.toNat, by
        have hlen := len.toNat_lt
        rw [List.length_take]
        omega⟩
      some (d, rest.drop len.toNat)
    else none
  | _ => none

/-- The command id and the descriptors, if there are any. -/
abbrev Info := Option (Byte × List Descriptor)

/-- An info length and that many bytes. -/
def decodeInfo : List Byte → Option (Info × List Byte)
  | b1 :: b0 :: rest =>
    let infoLength := (b1.toNat &&& 0x0F) <<< 8 ||| b0.toNat
    if rest.length < infoLength then none
    else
      match rest.take infoLength with
      | [] => some (none, rest)
      | cmdId :: body =>
        (decodeAll decodeDescriptor body.length body).map fun ds =>
          (some (cmdId, ds), rest.drop infoLength)
  | _ => none

structure CaEs where
  streamType : Byte
  elementaryPid : Nat
  info : Info
  deriving DecidableEq

def decodeEs : List Byte → Option (CaEs × List Byte)
  | streamType :: b1 :: b0 :: rest =>
    let elementaryPid := (b1.toNat &&& 0x1F) <<< 8 ||| b0.toNat
    (decodeInfo rest).map fun out => (⟨streamType, elementaryPid, out.1⟩, out.2)
  | _ => none

structure CaPmt where
  listManagement : Byte
  programNumber : Nat
  versionNumber : Nat
  currentNextIndicator : Nat
  info : Info
  es : List CaEs
  deriving DecidableEq

def decodeBody : List Byte → Option CaPmt
  | listManagement :: n1 :: n0 :: v :: rest =>
    match decodeInfo rest with
    | none => none
    | some (info, rest) =>
      (decodeAll decodeEs rest.length rest).map fun es =>
        { listManagement := listManagement
          programNumber := n1.toNat <<< 8 ||| n0.toNat
          versionNumber := v.toNat >>> 1 &&& 0x1F
          currentNextIndicator := v.toNat &&& 0x01
          info := info
          es := es }
  | _ => none

/-- The body has exactly the length the length field gives. -/
def decodeCaPmt : List Byte → Option CaPmt
  | t2 :: t1 :: t0 :: rest =>
    if [t2, t1, t0] ≠ [0x9F, 0x80, 0x32] then none
    else
      match decodeLength rest with
      | none => none
      | some (n, body) => if body.length = n then decodeBody body else none
  | _ => none

/-! ## What is to be said -/

structure Stream where
  streamType : Byte
  elementaryPid : BitVec 13
  descriptors : List Descriptor

/-- A CA-PMT as its user means it. -/
structure Message where
  listManagement : Byte
  programNumber : BitVec 16
  versionNumber : BitVec 5
  currentNextIndicator : BitVec 1
  cmdId : Byte
  caids : List Nat
  descriptors : List Descriptor
  streams : List Stream

/-- A CA descriptor of one of the systems, of any system if none is named. -/
def Selects (caids : List Nat) (d : Descriptor) : Prop :=
  d.descriptorTag = caDescriptorTag ∧ (caids = [] ∨ d.caSystemId ∈ caids)

instance (caids : List Nat) : DecidablePred (Selects caids) :=
  fun _ => inferInstanceAs (Decidable (_ ∧ _))

namespace Message

/-- The section is of the program and version of the message. -/
def Matches (m : Message) (pmt : ProgramMapSection) : Prop :=
  pmt.tableIdExtension = m.programNumber ∧ pmt.versionNumber = m.versionNumber ∧
    pmt.currentNextIndicator = m.currentNextIndicator

instance (m : Message) : DecidablePred m.Matches := fun _ => inferInstanceAs (Decidable (_ ∧ _))

/-- The descriptors and streams of a section are added. -/
def extend (m : Message) (pmt : ProgramMapSection) : Message :=
  let selected (ds : List Descriptor) := ds.filter fun d => Selects m.caids d
  { m with
    descriptors := m.descriptors ++ selected pmt.descriptors
    streams := m.streams ++
      pmt.esInfo.map fun e => ⟨e.streamType, e.elementaryPid, selected e.descriptors⟩ }

/-- The message of one section. -/
def ofPmt (pmt : ProgramMapSection) (listManagement cmdId : Byte) (caids : List Nat) : Message :=
  extend
    { listManagement := listManagement
      programNumber := pmt.tableIdExtension
      versionNumber := pmt.versionNumber
      currentNextIndicator := pmt.currentNextIndicator
      cmdId := cmdId
      caids := caids
      descriptors := []
      streams := [] } pmt

/-- What a call adds: nothing if the section or the descriptor is not to be used. -/
def step (other : Byte → List Byte → Bool) (m : Message) : Call → Message
  | .append pmt => if m.Matches pmt then m.extend pmt else m
  | .injectDescriptor d back =>
    if d.isValid other then
      { m with descriptors := if back then m.descriptors ++ [d] else d :: m.descriptors }
    else m
  | .setListManagement listManagement => { m with listManagement := listManagement }

end Message

/-- Descriptors come with a command id. -/
def infoOf (cmdId : Byte) (ds : List Descriptor) : Info :=
  if ds = [] then none else some (cmdId, ds)

/-- The message as the grammar has it. -/
def Message.caPmt (m : Message) : CaPmt where
  listManagement := m.listManagement
  programNumber := m.programNumber.toNat
  versionNumber := m.versionNumber.toNat
  currentNextIndicator := m.currentNextIndicator.toNat
  info := infoOf m.cmdId m.descriptors
  es := m.streams.map fun s =>
    ⟨s.streamType, s.elementaryPid.toNat, infoOf m.cmdId s.descriptors⟩

/-- The bytes of the descriptors. -/
def infoSize (ds : List Descriptor) : Nat := (ds.map fun d => d.getLength + 2).sum

/-- The same with the command id. -/
def infoLength (ds : List Descriptor) : Nat := if ds = [] then 0 else infoSize ds + 1

/-- The bytes after the length field. -/
def Message.length (m : Message) : Nat :=
  6 + infoLength m.descriptors + (m.streams.map fun s => infoLength s.descriptors + 5).sum

/-- The lengths fit the 12 bits of the info lengths and the 32 of the counter. -/
structure Message.Fits (m : Message) : Prop where
  program : infoLength m.descriptors < 2 ^ 12
  streams : ∀ s ∈ m.streams, infoLength s.descriptors < 2 ^ 12
  length : m.length < 2 ^ 32

/-! ## Reading back -/

section
variable {ds : List Descriptor} {cmdId : Byte} {n k : Nat}

theorem bigEndianValue_fold (v n k : Nat) :
    (bigEndian n k).foldl (fun v b => v * 256 + b.toNat) v = v * 256 ^ k + n % 256 ^ k := by
  induction k generalizing v with
  | zero => simp [bigEndian, Nat.mod_one]
  | succ k ih =>
    have hbyte : ((n >>> (8 * k)).toUInt8).toNat = n / 256 ^ k % 256 := by
      rw [Nat.shiftRight_eq_div_pow, Nat.pow_mul]
      simp
    rw [bigEndian, List.foldl_cons, ih, hbyte, Nat.mod_pow_succ]
    ring

/-- The bytes counted are enough for the length. -/
theorem sizeLoop_spec {left size : Nat} (hlen : n < 256 ^ (size + left)) (hsize : size + left ≤ 4) :
    n < 256 ^ sizeLoop n left size (256 ^ size - 1) ∧
      sizeLoop n left size (256 ^ size - 1) ≤ 4 := by
  induction left generalizing size with
  | zero => exact ⟨hlen, hsize⟩
  | succ left ih =>
    have hmask : n &&& (256 ^ size - 1) = n % 256 ^ size := by
      have hpow : 256 ^ size = 2 ^ (8 * size) := by rw [Nat.pow_mul]
      rw [hpow]
      exact Nat.and_two_pow_sub_one_eq_mod n (8 * size)
    have hnext : (256 ^ size - 1) <<< 8 ||| 0xff = 256 ^ (size + 1) - 1 := by
      have hpos : 0 < 256 ^ size := Nat.pow_pos (by decide)
      rw [or_shift _ (by decide), Nat.pow_succ]
      omega
    simp only [sizeLoop, hmask, hnext]
    split
    · rw [← Nat.add_assoc, Nat.add_right_comm] at hlen
      exact ih hlen (by omega)
    · rename_i hfit
      rw [not_not] at hfit
      refine ⟨?_, by omega⟩
      rw [← hfit]
      exact Nat.mod_lt _ (Nat.pow_pos (by decide))

theorem decodeLength_caLengthField (h : n < 2 ^ 32) (rest : List Byte) :
    decodeLength (caLengthField n ++ rest) = some (n, rest) := by
  unfold caLengthField
  split
  · rename_i hsmall
    have hbyte : n.toUInt8.toNat = n := toNat_toUInt8 (by omega)
    simp only [List.cons_append, List.nil_append, decodeLength, hbyte]
    rw [if_pos hsmall]
  · obtain ⟨hfit, hsize⟩ := @sizeLoop_spec n 3 1 (by simpa using h) (by decide)
    have hmask : 256 ^ 1 - 1 = 0xff := rfl
    rw [hmask] at hfit hsize
    simp only [List.cons_append]
    generalize sizeLoop n 3 1 0xff = size at hfit hsize
    have hbyte : (1 <<< 7 ||| size).toUInt8.toNat = 128 + size := by
      rw [or_shift _ (by omega), toNat_toUInt8 (by omega)]
      omega
    have hlen : (bigEndian n size ++ rest).length = size + rest.length := by simp
    have hvalue : bigEndianValue (bigEndian n size) = n := by
      rw [bigEndianValue, bigEndianValue_fold, Nat.zero_mul, Nat.zero_add, Nat.mod_eq_of_lt hfit]
    simp only [decodeLength, hbyte, Nat.add_sub_cancel_left]
    rw [if_neg (by omega), if_neg (by omega), List.take_left' (bigEndian_length n size),
      List.drop_left' (bigEndian_length n size), hvalue]

theorem decodeDescriptor_write (d : Descriptor) (rest : List Byte) :
    decodeDescriptor (d.writeToBuffer ++ rest) = some (d, rest) := by
  have hlen : d.getLength.toUInt8.toNat = d.dataBytes.length := toNat_toUInt8 d.length_lt
  simp only [Descriptor.writeToBuffer, List.cons_append, decodeDescriptor, hlen, List.take_left,
    List.drop_left]
  rw [if_pos (by simp)]

theorem writeToBuffer_ne_nil (d : Descriptor) : d.writeToBuffer ≠ [] := by
  simp [Descriptor.writeToBuffer]

theorem infoSize_eq (ds : List Descriptor) :
    (ds.flatMap Descriptor.writeToBuffer).length = infoSize ds := by
  induction ds with
  | nil => rfl
  | cons d ds ih =>
    rw [List.flatMap_cons, List.length_append, ih]
    simp [infoSize, Descriptor.writeToBuffer, Descriptor.getLength]

/-- The info bytes of descriptors: nothing, or the command id and these. -/
def infoBytes (cmdId : Byte) (ds : List Descriptor) : List Byte :=
  if ds = [] then [] else cmdId :: ds.flatMap Descriptor.writeToBuffer

theorem infoBytes_length (cmdId : Byte) (ds : List Descriptor) :
    (infoBytes cmdId ds).length = infoLength ds := by
  unfold infoBytes infoLength
  split
  · rfl
  · rw [List.length_cons, infoSize_eq]

theorem decodeInfo_write (h : infoLength ds < 2 ^ 12) (rest : List Byte) :
    decodeInfo ((infoLength ds >>> 8).toUInt8 :: (infoLength ds).toUInt8 ::
      (infoBytes cmdId ds ++ rest)) = some (infoOf cmdId ds, rest) := by
  have hvalue := @fieldValue 4 (by decide) 0 (by decide) (infoLength ds) h
  rw [Nat.zero_shiftLeft, Nat.zero_or, show 2 ^ 4 - 1 = 0x0F from rfl] at hvalue
  have hlen := infoBytes_length cmdId ds
  simp only [decodeInfo, hvalue]
  rw [if_neg (by rw [List.length_append]; omega), List.take_left' hlen, List.drop_left' hlen]
  by_cases hnil : ds = []
  · simp [infoBytes, infoOf, hnil]
  · have hall : decodeAll decodeDescriptor (ds.flatMap Descriptor.writeToBuffer).length
        (ds.flatMap Descriptor.writeToBuffer) = some (ds.map id) :=
      decodeAll_flatMap (fun d _ => writeToBuffer_ne_nil d)
        (fun d _ rest => decodeDescriptor_write d rest) (Nat.le_refl _)
    simp only [infoBytes, infoOf, hnil, if_false, hall, List.map_id, Option.map_some]

/-- A stream of the message as the section has it. -/
def Stream.info (cmdId : Byte) (s : Stream) : CaElementaryStreamInfo :=
  ⟨s.streamType, s.elementaryPid, .ofNat 12 (infoLength s.descriptors), cmdId, s.descriptors⟩

/-- A section has the descriptors and streams of a message, and its counters the
bytes of these. -/
structure Carries (c : CaProgramMapSection) (m : Message) : Prop where
  listManagement : c.caPmtListManagement = m.listManagement
  programNumber : c.programNumber = m.programNumber
  versionNumber : c.versionNumber = m.versionNumber
  currentNextIndicator : c.currentNextIndicator = m.currentNextIndicator
  cmdId : c.caPmtCmdId = m.cmdId
  caids : c.caids = m.caids.mergeSort
  descriptors : c.descriptorList = m.descriptors
  programInfoLength : c.programInfoLength = .ofNat 12 (infoSize m.descriptors)
  streams : c.esInfo = m.streams.map (Stream.info m.cmdId)
  length : c.length = .ofNat 32 (6 + infoSize m.descriptors +
    (m.streams.map fun s => infoLength s.descriptors + 5).sum)

theorem infoSize_pos (h : ds ≠ []) : 0 < infoSize ds := by
  cases ds with
  | nil => exact absurd rfl h
  | cons d ds => simp [infoSize]

theorem infoLength_eq_zero : infoLength ds = 0 ↔ ds = [] := by
  unfold infoLength
  split
  · simp [*]
  · simp [*]

/-- What is written of one stream. -/
theorem stream_writeToBuffer (s : Stream) (h : infoLength s.descriptors < 2 ^ 12) :
    (Stream.info cmdId s).writeToBuffer =
    s.streamType :: (s.elementaryPid.toNat >>> 8).toUInt8 :: s.elementaryPid.toNat.toUInt8 ::
      (infoLength s.descriptors >>> 8).toUInt8 :: (infoLength s.descriptors).toUInt8 ::
      infoBytes cmdId s.descriptors := by
  have hnat : (BitVec.ofNat 12 (infoLength s.descriptors)).toNat = infoLength s.descriptors := by
    rw [BitVec.toNat_ofNat, Nat.mod_eq_of_lt h]
  have hzero : BitVec.ofNat 12 (infoLength s.descriptors) ≠ 0 ↔ s.descriptors ≠ [] := by
    rw [ne_eq, ne_eq, ← BitVec.toNat_inj, hnat]
    exact not_congr infoLength_eq_zero
  simp only [Stream.info, CaElementaryStreamInfo.writeToBuffer, hnat, hzero, infoBytes,
    List.cons_append, List.nil_append, ite_not]

theorem decodeEs_stream (s : Stream) (h : infoLength s.descriptors < 2 ^ 12) (rest : List Byte) :
    decodeEs ((Stream.info cmdId s).writeToBuffer ++ rest) =
    some (⟨s.streamType, s.elementaryPid.toNat, infoOf cmdId s.descriptors⟩, rest) := by
  have hpid := @fieldValue 5 (by decide) 0 (by decide) s.elementaryPid.toNat s.elementaryPid.isLt
  rw [Nat.zero_shiftLeft, Nat.zero_or, show 2 ^ 5 - 1 = 0x1F from rfl] at hpid
  rw [stream_writeToBuffer s h]
  simp only [List.cons_append, decodeEs, decodeInfo_write h, Option.map_some, hpid]

/-- Version and indicator share a byte. -/
theorem versionByte (v : BitVec 5) (i : BitVec 1) :
    let b := (v.toNat <<< 1 ||| i.toNat).toUInt8
    b.toNat >>> 1 &&& 0x1F = v.toNat ∧ b.toNat &&& 0x01 = i.toNat := by
  have hv := v.isLt
  have hi := i.isLt
  intro b
  have hb : b.toNat = v.toNat * 2 + i.toNat := by
    simp only [b]
    rw [or_shift _ hi, toNat_toUInt8 (by omega), Nat.pow_one]
  rw [hb, Nat.shiftRight_eq_div_pow, Nat.and_two_pow_sub_one_eq_mod _ 5,
    Nat.and_two_pow_sub_one_eq_mod _ 1]
  omega

variable {c : CaProgramMapSection} {m : Message}

/-- The bytes after the length field. -/
def Message.body (m : Message) : List Byte :=
  m.listManagement :: (m.programNumber.toNat >>> 8).toUInt8 :: m.programNumber.toNat.toUInt8 ::
    (m.versionNumber.toNat <<< 1 ||| m.currentNextIndicator.toNat).toUInt8 ::
    (infoLength m.descriptors >>> 8).toUInt8 :: (infoLength m.descriptors).toUInt8 ::
    (infoBytes m.cmdId m.descriptors ++
      (m.streams.map (Stream.info m.cmdId)).flatMap CaElementaryStreamInfo.writeToBuffer)

theorem streams_length {streams : List Stream}
    (h : ∀ s ∈ streams, infoLength s.descriptors < 2 ^ 12) :
    ((streams.map (Stream.info cmdId)).flatMap CaElementaryStreamInfo.writeToBuffer).length =
      (streams.map fun s => infoLength s.descriptors + 5).sum := by
  induction streams with
  | nil => rfl
  | cons s streams ih =>
    have hrest := ih fun s' hs' => h s' (List.mem_cons_of_mem s hs')
    rw [List.map_cons, List.flatMap_cons, List.length_append, hrest,
      stream_writeToBuffer s (h s List.mem_cons_self)]
    simp only [List.length_cons, infoBytes_length, List.map_cons, List.sum_cons]

theorem body_length (h : m.Fits) : m.body.length = m.length := by
  simp only [Message.body, List.length_cons, List.length_append, infoBytes_length,
    streams_length h.streams, Message.length]
  omega

theorem Carries.writeToBuffer (h : Carries c m) (hfits : m.Fits) :
    c.writeToBuffer = ([0x9f, 0x80, 0x32] : List Byte) ++ caLengthField m.length ++ m.body := by
  have hprogram := hfits.program
  have hlength := hfits.length
  have hinfo : (if c.programInfoLength ≠ 0 then c.programInfoLength.toNat + 1 else 0) =
      infoLength m.descriptors ∧
      (if c.programInfoLength ≠ 0 then c.length + 1 else c.length).toNat = m.length := by
    rw [h.programInfoLength, h.length]
    by_cases hnil : m.descriptors = []
    · have hzero : BitVec.ofNat 12 (infoSize m.descriptors) = 0 := by rw [hnil]; rfl
      simp only [Message.length, infoLength, infoSize, hnil, if_true] at hlength ⊢
      refine ⟨by simp, ?_⟩
      simp only [List.map_nil, List.sum_nil] at hlength ⊢
      rw [if_neg (by simp), BitVec.toNat_ofNat, Nat.mod_eq_of_lt hlength]
    · have hpos := infoSize_pos hnil
      have hsize : infoLength m.descriptors = infoSize m.descriptors + 1 := if_neg hnil
      have hnat : (BitVec.ofNat 12 (infoSize m.descriptors)).toNat = infoSize m.descriptors := by
        rw [BitVec.toNat_ofNat, Nat.mod_eq_of_lt (by omega)]
      have hne : BitVec.ofNat 12 (infoSize m.descriptors) ≠ 0 := by
        intro heq
        rw [← BitVec.toNat_inj, hnat] at heq
        exact hpos.ne' heq
      simp only [Message.length, hsize] at hlength ⊢
      rw [if_pos hne, if_pos hne, hnat]
      refine ⟨rfl, ?_⟩
      rw [show (1 : BitVec 32) = .ofNat 32 1 from rfl, ← BitVec.ofNat_add, BitVec.toNat_ofNat,
        Nat.mod_eq_of_lt (by omega)]
      omega
  have hcmd : (if infoLength m.descriptors ≠ 0 then
      m.cmdId :: m.descriptors.flatMap Descriptor.writeToBuffer else []) =
      infoBytes m.cmdId m.descriptors := by
    simp only [infoBytes, ne_eq, infoLength_eq_zero, ite_not]
  simp only [CaProgramMapSection.writeToBuffer]
  rw [hinfo.1, hinfo.2, h.listManagement, h.programNumber, h.versionNumber,
    h.currentNextIndicator, h.cmdId, h.descriptors, h.streams, hcmd]
  simp only [Message.body, List.append_assoc, List.cons_append, List.nil_append]

theorem decodeBody_body (h : m.Fits) : decodeBody m.body = some m.caPmt := by
  have hall : decodeAll decodeEs
      ((m.streams.map (Stream.info m.cmdId)).flatMap CaElementaryStreamInfo.writeToBuffer).length
      ((m.streams.map (Stream.info m.cmdId)).flatMap CaElementaryStreamInfo.writeToBuffer) =
        some (m.streams.map fun s =>
          ⟨s.streamType, s.elementaryPid.toNat, infoOf m.cmdId s.descriptors⟩) := by
    rw [List.flatMap_map]
    exact decodeAll_flatMap (fun s _ => by simp [CaElementaryStreamInfo.writeToBuffer])
      (fun s hs => decodeEs_stream s (h.streams s hs)) (Nat.le_refl _)
  obtain ⟨hversion, hcurrent⟩ := versionByte m.versionNumber m.currentNextIndicator
  have hnumber := @fieldValue 8 (by decide) 0 (by decide) m.programNumber.toNat
    m.programNumber.isLt
  have hbyte : (m.programNumber.toNat >>> 8).toUInt8.toNat &&& 2 ^ 8 - 1 =
      (m.programNumber.toNat >>> 8).toUInt8.toNat := by
    rw [Nat.and_two_pow_sub_one_eq_mod, Nat.mod_eq_of_lt (UInt8.toNat_lt _)]
  rw [Nat.zero_shiftLeft, Nat.zero_or, hbyte] at hnumber
  simp only [Message.body, decodeBody, decodeInfo_write h.program, hall, Option.map_some,
    hversion, hcurrent, hnumber, Message.caPmt]

/-- A section whose counters are right is written as its message. -/
theorem Carries.decode (h : Carries c m) (hfits : m.Fits) :
    decodeCaPmt c.writeToBuffer = some m.caPmt := by
  rw [h.writeToBuffer hfits]
  simp only [List.cons_append, List.nil_append, decodeCaPmt]
  rw [if_neg (by decide), decodeLength_caLengthField hfits.length]
  simp only [body_length hfits, if_true, decodeBody_body hfits]

/-! ## Calls -/

theorem infoSize_append (xs ys : List Descriptor) :
    infoSize (xs ++ ys) = infoSize xs + infoSize ys := by
  simp [infoSize]

theorem infoSize_cons (d : Descriptor) (ds : List Descriptor) :
    infoSize (d :: ds) = d.getLength + 2 + infoSize ds := by
  simp [infoSize]

theorem lowerBound_eq_some {caids : List Nat} (h : caids.Pairwise (· ≤ ·)) (caid : Nat) :
    lowerBound caids caid = some caid ↔ caid ∈ caids := by
  induction caids with
  | nil => simp [lowerBound]
  | cons x xs ih =>
    obtain ⟨hx, hxs⟩ := List.pairwise_cons.mp h
    by_cases hlt : x < caid
    · have hskip : lowerBound (x :: xs) caid = lowerBound xs caid := by
        simp [lowerBound, hlt]
      rw [hskip, ih hxs, List.mem_cons]
      constructor
      · exact Or.inr
      · rintro (rfl | hmem)
        · omega
        · exact hmem
    · have hstop : lowerBound (x :: xs) caid = some x := by
        simp [lowerBound, hlt]
      rw [hstop, Option.some_inj, List.mem_cons]
      constructor
      · rintro rfl
        exact Or.inl rfl
      · rintro (rfl | hmem)
        · rfl
        · have hle := hx caid hmem
          omega

/-- The search in the sorted ids finds the ids of the list. -/
theorem isWanted_mergeSort (caids : List Nat) (d : Descriptor) :
    isWanted caids.mergeSort d = decide (Selects caids d) := by
  have hsorted : caids.mergeSort.Pairwise (· ≤ ·) := by
    have h := List.pairwise_mergeSort' (· ≤ ·) caids
    simpa using h
  have hfound := lowerBound_eq_some hsorted d.caSystemId
  have hempty : caids.mergeSort = [] ↔ caids = [] := by
    rw [← List.length_eq_zero_iff, List.length_mergeSort, List.length_eq_zero_iff]
  rw [Bool.eq_iff_iff, decide_eq_true_iff]
  simp only [isWanted, Bool.and_eq_true, beq_iff_eq, Bool.or_eq_true, List.isEmpty_iff, hempty,
    hfound, List.mem_mergeSort, Selects]

/-- The loop over the descriptors of a section. -/
theorem foldl_addDescriptor (c : CaProgramMapSection) (ds : List Descriptor) :
    ds.foldl CaProgramMapSection.addDescriptor c =
      { c with
        descriptorList := c.descriptorList ++ ds.filter (isWanted c.caids)
        programInfoLength := c.programInfoLength + .ofNat 12 (infoSize (ds.filter (isWanted c.caids)))
        length := c.length + .ofNat 32 (infoSize (ds.filter (isWanted c.caids))) } := by
  induction ds generalizing c with
  | nil => simp [infoSize]
  | cons d ds ih =>
    rw [List.foldl_cons, ih]
    by_cases hd : isWanted c.caids d = true
    · simp only [CaProgramMapSection.addDescriptor, CaProgramMapSection.count, hd, if_true,
        List.filter_cons, infoSize_cons, BitVec.ofNat_add, List.append_assoc, List.singleton_append,
        BitVec.add_assoc]
    · simp only [CaProgramMapSection.addDescriptor, hd, if_false, List.filter_cons,
        Bool.false_eq_true]

theorem foldl_stream_addDescriptor (caids : List Nat) (info : CaElementaryStreamInfo)
    (ds : List Descriptor) :
    ds.foldl (CaElementaryStreamInfo.addDescriptor caids) info =
      { info with
        descriptors := info.descriptors ++ ds.filter (isWanted caids)
        esInfoLength := info.esInfoLength + .ofNat 12 (infoSize (ds.filter (isWanted caids))) } := by
  induction ds generalizing info with
  | nil => simp [infoSize]
  | cons d ds ih =>
    rw [List.foldl_cons, ih]
    by_cases hd : isWanted caids d = true
    · simp only [CaElementaryStreamInfo.addDescriptor, hd, if_true, List.filter_cons, infoSize_cons,
        BitVec.ofNat_add, List.append_assoc, List.singleton_append, BitVec.add_assoc]
    · simp only [CaElementaryStreamInfo.addDescriptor, hd, if_false, List.filter_cons,
        Bool.false_eq_true]

/-- The stream of a section as the message has it. -/
def streamOf (caids : List Nat) (e : ElementaryStreamInfo) : Stream :=
  ⟨e.streamType, e.elementaryPid, e.descriptors.filter (isWanted caids)⟩

theorem create_eq {caids : List Nat} (e : ElementaryStreamInfo)
    (h : infoLength (streamOf caids e).descriptors < 2 ^ 12) :
    CaElementaryStreamInfo.create e cmdId caids = Stream.info cmdId (streamOf caids e) := by
  simp only [CaElementaryStreamInfo.create, foldl_stream_addDescriptor, List.nil_append]
  simp only [streamOf] at h
  generalize hds : e.descriptors.filter (isWanted caids) = ds at h
  by_cases hnil : ds = []
  · simp [Stream.info, streamOf, hds, hnil, infoSize, infoLength]
  · have hpos := infoSize_pos hnil
    have hsize : infoLength ds = infoSize ds + 1 := if_neg hnil
    have hzero : (0 : BitVec 12) + BitVec.ofNat 12 (infoSize ds) = .ofNat 12 (infoSize ds) :=
      BitVec.zero_add _
    have hne : BitVec.ofNat 12 (infoSize ds) ≠ 0 := by
      intro heq
      rw [← BitVec.toNat_inj, BitVec.toNat_ofNat, Nat.mod_eq_of_lt (by omega)] at heq
      exact hpos.ne' heq
    rw [hzero, if_pos hne]
    simp only [Stream.info, streamOf, hds, hsize, BitVec.ofNat_add]
    rfl

theorem foldl_addStream {es : List ElementaryStreamInfo} (c : CaProgramMapSection)
    (h : ∀ e ∈ es, infoLength (streamOf c.caids e).descriptors < 2 ^ 12) :
    es.foldl CaProgramMapSection.addStream c =
      { c with
        esInfo := c.esInfo ++ (es.map (streamOf c.caids)).map (Stream.info c.caPmtCmdId)
        length := c.length + .ofNat 32
          ((es.map (streamOf c.caids)).map fun s => infoLength s.descriptors + 5).sum } := by
  induction es generalizing c with
  | nil => simp
  | cons e es ih =>
    have he := h e List.mem_cons_self
    have hcreate := @create_eq c.caPmtCmdId c.caids e he
    have hnat : (Stream.info c.caPmtCmdId (streamOf c.caids e)).getLength =
        infoLength (streamOf c.caids e).descriptors + 5 := by
      simp only [CaElementaryStreamInfo.getLength, Stream.info, BitVec.toNat_ofNat]
      rw [Nat.mod_eq_of_lt he]
    have hstep : c.addStream e =
        { c with
          esInfo := c.esInfo ++ [Stream.info c.caPmtCmdId (streamOf c.caids e)]
          length := c.length + .ofNat 32 (infoLength (streamOf c.caids e).descriptors + 5) } := by
      simp only [CaProgramMapSection.addStream, hcreate, hnat]
    rw [List.foldl_cons, ih]
    · rw [hstep]
      simp only [List.map_cons, List.sum_cons, BitVec.ofNat_add, List.append_assoc,
        List.singleton_append, BitVec.add_assoc]
    · intro e' he'
      rw [hstep]
      exact h e' (List.mem_cons_of_mem e he')

/-- The sections that are of the same program and version. -/
theorem Carries.accepts (h : Carries c m) (pmt : ProgramMapSection) :
    c.accepts pmt = decide (m.Matches pmt) := by
  rw [Bool.eq_iff_iff, decide_eq_true_iff]
  simp only [CaProgramMapSection.accepts, h.programNumber, h.versionNumber,
    h.currentNextIndicator, Bool.and_eq_true, beq_iff_eq, Message.Matches, and_assoc]
  exact and_congr_right fun _ => and_congr_right fun _ => eq_comm

/-- A section is appended descriptor by descriptor and stream by stream. -/
theorem Carries.extend {pmt : ProgramMapSection} (h : Carries c m) (hfits : (m.extend pmt).Fits) :
    Carries (pmt.esInfo.foldl CaProgramMapSection.addStream
      (pmt.descriptors.foldl CaProgramMapSection.addDescriptor c)) (m.extend pmt) := by
  have hwanted : isWanted c.caids = fun d => decide (Selects m.caids d) := by
    funext d
    rw [h.caids, isWanted_mergeSort]
  have hstreams : ∀ e ∈ pmt.esInfo, infoLength (streamOf c.caids e).descriptors < 2 ^ 12 := by
    intro e he
    rw [streamOf, hwanted]
    apply hfits.streams
    apply List.mem_append_right
    exact List.mem_map_of_mem he
  have hmap : (pmt.esInfo.map fun e => (⟨e.streamType, e.elementaryPid,
      e.descriptors.filter fun d => Selects m.caids d⟩ : Stream)) =
      pmt.esInfo.map (streamOf c.caids) := by
    apply List.map_congr_left
    intro e _
    rw [streamOf, hwanted]
  have hdescriptors := foldl_addDescriptor c pmt.descriptors
  generalize pmt.descriptors.foldl CaProgramMapSection.addDescriptor c = c' at hdescriptors ⊢
  have hcaids : c'.caids = c.caids := by rw [hdescriptors]
  rw [foldl_addStream c' (by rw [hcaids]; exact hstreams), hdescriptors]
  refine { h with
    descriptors := ?descriptors, programInfoLength := ?programInfoLength
    streams := ?streams, length := ?length }
  case descriptors => simp only [Message.extend, h.descriptors, hwanted]
  case programInfoLength =>
    simp only [Message.extend, h.programInfoLength, hwanted, infoSize_append, BitVec.ofNat_add]
  case streams =>
    simp only [Message.extend, hmap, h.streams, h.cmdId, List.map_append]
  case length =>
    simp only [Message.extend, hmap, h.length, hwanted, infoSize_append, List.map_append,
      List.sum_append, ← BitVec.ofNat_add]
    congr 1
    omega

variable {other : Byte → List Byte → Bool}

theorem Carries.append {pmt : ProgramMapSection} (h : Carries c m)
    (hfits : (m.step other (.append pmt)).Fits) :
    Carries (c.append pmt).2 (m.step other (.append pmt)) := by
  have haccepts := h.accepts pmt
  by_cases hmatch : m.Matches pmt
  · simp only [Message.step, hmatch, if_true] at hfits ⊢
    simp only [CaProgramMapSection.append, haccepts, hmatch, decide_true, if_true]
    exact h.extend hfits
  · simp only [Message.step, hmatch, if_false]
    simp only [CaProgramMapSection.append, haccepts, hmatch, decide_false, Bool.false_eq_true,
      if_false]
    exact h

/-- The descriptor counted is the one injected, if it is valid. -/
theorem Carries.injectDescriptor {d : Descriptor} (h : Carries c m) (hvalid : d.isValid other = true)
    (back : Bool) :
    ∃ c', c.injectDescriptor other d back = some c' ∧
      Carries c' (m.step other (.injectDescriptor d back)) := by
  have hlist : c.descriptor other d back = { c with descriptorList :=
      if back then c.descriptorList ++ [d] else d :: c.descriptorList } := if_pos hvalid
  have hstep : m.step other (.injectDescriptor d back) =
      { m with descriptors := if back then m.descriptors ++ [d] else d :: m.descriptors } :=
    if_pos hvalid
  have hsize : infoSize (if back then m.descriptors ++ [d] else d :: m.descriptors) =
      infoSize m.descriptors + (d.getLength + 2) := by
    cases back with
    | true => simp only [if_true, infoSize_append, infoSize_cons]; rfl
    | false => simp only [Bool.false_eq_true, if_false, infoSize_cons]; omega
  have hinject : c.injectDescriptor other d back = some (CaProgramMapSection.count
      { c with descriptorList := if back then c.descriptorList ++ [d] else d :: c.descriptorList }
      (d.getLength + 2)) := by
    simp only [CaProgramMapSection.injectDescriptor, hlist]
    cases back with
    | true => simp
    | false => simp
  rw [hstep]
  refine ⟨_, hinject, { h with
    descriptors := ?descriptors, programInfoLength := ?programInfoLength, length := ?length }⟩
  case descriptors => simp only [CaProgramMapSection.count, h.descriptors]
  case programInfoLength =>
    simp only [CaProgramMapSection.count, h.programInfoLength, hsize, BitVec.ofNat_add]
  case length =>
    simp only [CaProgramMapSection.count, h.length, hsize, ← BitVec.ofNat_add]
    congr 1
    omega

/-- A call the counters survive: what is injected is valid, and what the message
becomes fits its length fields. -/
def Meets (other : Byte → List Byte → Bool) (m : Message) (call : Call) : Prop :=
  (∀ d back, call = .injectDescriptor d back → d.isValid other = true) ∧ (m.step other call).Fits

theorem Carries.step {call : Call} (h : Carries c m) (hmeets : Meets other m call) :
    ∃ c', c.step other call = some c' ∧ Carries c' (m.step other call) := by
  obtain ⟨hvalid, hfits⟩ := hmeets
  cases call with
  | append pmt => exact ⟨_, rfl, h.append hfits⟩
  | injectDescriptor d back => exact h.injectDescriptor (hvalid d back rfl) back
  | setListManagement listManagement =>
    refine ⟨_, rfl, ?_⟩
    exact { h with listManagement := rfl }

theorem carries_create {pmt : ProgramMapSection} {listManagement cmdId : Byte} {caids : List Nat}
    (h : (Message.ofPmt pmt listManagement cmdId caids).Fits) :
    Carries (CaProgramMapSection.create pmt listManagement cmdId caids)
      (Message.ofPmt pmt listManagement cmdId caids) := by
  simp only [CaProgramMapSection.create, CaProgramMapSection.append, CaProgramMapSection.accepts,
    beq_self_eq_true, Bool.and_self, if_true]
  apply Carries.extend ?_ h
  exact ⟨rfl, rfl, rfl, rfl, rfl, rfl, rfl, rfl, rfl, rfl⟩

end

/-- A section and the message it stands for, call by call. -/
def stepBoth (other : Byte → List Byte → Bool) (s : CaProgramMapSection × Message) (call : Call) :
    Option (CaProgramMapSection × Message) :=
  (s.1.step other call).map fun c => (c, s.2.step other call)

/-- In a run of calls that inject valid descriptors only and do not outgrow the
length fields, every call returns, the bytes read back as the message, and
sections of other programs or versions are refused. -/
theorem ca_pmt_consistent (other : Byte → List Byte → Bool) (pmt : ProgramMapSection)
    (listManagement cmdId : Byte) (caids : List Nat)
    (hfits : (Message.ofPmt pmt listManagement cmdId caids).Fits)
    {c : CaProgramMapSection} {m : Message}
    (hrun : Runs (stepBoth other) (fun s call => Meets other s.2 call)
      (CaProgramMapSection.create pmt listManagement cmdId caids,
        Message.ofPmt pmt listManagement cmdId caids) (c, m)) :
    decodeCaPmt c.writeToBuffer = some m.caPmt ∧
      (∀ call, Meets other m call → c.step other call ≠ none) ∧
      ∀ pmt', c.append pmt' = (true, (c.append pmt').2) ∧ m.Matches pmt' ∨
        c.append pmt' = (false, c) ∧ ¬m.Matches pmt' := by
  have hinv : Carries c m ∧ m.Fits := by
    refine Runs.invariant (I := fun s => Carries s.1 s.2 ∧ s.2.Fits) ?_ hrun
      ⟨carries_create hfits, hfits⟩
    rintro ⟨c, m⟩ call s ⟨hc, -⟩ hmeets hstep
    obtain ⟨c', hc', hcarries⟩ := hc.step hmeets
    simp only [stepBoth, hc', Option.map_some, Option.some_inj] at hstep
    rw [← hstep]
    exact ⟨hcarries, hmeets.2⟩
  obtain ⟨hc, hm⟩ := hinv
  refine ⟨hc.decode hm, ?_, ?_⟩
  · intro call hmeets
    obtain ⟨c', hc', -⟩ := hc.step hmeets
    simp [hc']
  · intro pmt'
    have haccepts := hc.accepts pmt'
    by_cases hmatch : m.Matches pmt'
    · left
      simp [CaProgramMapSection.append, haccepts, hmatch]
    · right
      simp [CaProgramMapSection.append, haccepts, hmatch]

/-- A CA descriptor of system 1702. -/
def sampleDescriptor : Descriptor := ⟨0x09, [0x17, 0x02, 0xE6, 0x01], by decide⟩

/-- A program with one descriptor, and a stream with one of another system. -/
def samplePmt : ProgramMapSection where
  tableIdExtension := 0x2B66
  versionNumber := 17
  currentNextIndicator := 1
  descriptors := [sampleDescriptor]
  esInfo := [⟨2, 0x0AFF, [⟨0x09, [0x05, 0x00, 0xE6, 0x02], by decide⟩]⟩]

/-- A descriptor of a class without a check, which is always valid. -/
def privateDescriptor : Descriptor := ⟨0x81, [0x08], by decide⟩

theorem ca_pmt_consistent_sample :
    ∃ c m, Runs (stepBoth fun _ _ => true) (fun s call => Meets (fun _ _ => true) s.2 call)
      (CaProgramMapSection.create samplePmt 3 1 [0x1702], Message.ofPmt samplePmt 3 1 [0x1702])
      (c, m) ∧
      decodeCaPmt c.writeToBuffer = some
        ⟨3, 0x2B66, 17, 1, some (1, [privateDescriptor, sampleDescriptor]), [⟨2, 0x0AFF, none⟩]⟩ := by
  have hfits : (Message.ofPmt samplePmt 3 1 [0x1702]).Fits := ⟨by decide, by decide, by decide⟩
  have hmeets : Meets (fun _ _ => true) (Message.ofPmt samplePmt 3 1 [0x1702])
      (.injectDescriptor privateDescriptor false) := by
    refine ⟨?_, ⟨by decide, by decide, by decide⟩⟩
    rintro d back heq
    cases heq
    rfl
  obtain ⟨c, hc, -⟩ := (carries_create hfits).step hmeets
  have hrun : Runs (stepBoth fun _ _ => true) (fun s call => Meets (fun _ _ => true) s.2 call)
      (CaProgramMapSection.create samplePmt 3 1 [0x1702], Message.ofPmt samplePmt 3 1 [0x1702])
      (c, (Message.ofPmt samplePmt 3 1 [0x1702]).step (fun _ _ => true)
        (.injectDescriptor privateDescriptor false)) := by
    refine .tail (.injectDescriptor privateDescriptor false) .refl hmeets ?_
    simp only [stepBoth, hc, Option.map_some]
  refine ⟨c, _, hrun, ?_⟩
  rw [(ca_pmt_consistent _ samplePmt 3 1 [0x1702] hfits hrun).1]
  decide

/-- A CA descriptor that is too short is not added, but the length of the last
descriptor is counted again. -/
theorem invalid_descriptor_counted :
    ∃ c, (CaProgramMapSection.create samplePmt 3 1 []).step (fun _ _ => true)
        (.injectDescriptor ⟨0x09, [], by decide⟩ true) = some c ∧
      decodeCaPmt c.writeToBuffer = none ∧
      decodeCaPmt (CaProgramMapSection.create samplePmt 3 1 []).writeToBuffer ≠ none := by
  have hcreate : CaProgramMapSection.create samplePmt 3 1 [] =
      { length := 24, caPmtListManagement := 3, programNumber := 0x2B66, versionNumber := 17,
        currentNextIndicator := 1, programInfoLength := 6, caPmtCmdId := 1,
        descriptorList := [sampleDescriptor],
        esInfo := [⟨2, 0x0AFF, 7, 1, [⟨0x09, [0x05, 0x00, 0xE6, 0x02], by decide⟩]⟩],
        caids := [] } := by
    simp only [CaProgramMapSection.create, List.mergeSort_nil]
    rfl
  rw [hcreate]
  refine ⟨_, rfl, ?_, ?_⟩
  · decide
  · decide

end Tuxbox.Dvbsi
