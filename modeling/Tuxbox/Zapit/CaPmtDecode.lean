import Tuxbox.Zapit.CaPmtEncoding

/-! The `ca_pmt` object of EN 50221 read from bytes, and what zapit's CA-PMT
reads back as. -/
namespace Tuxbox.Zapit

open Connection

/-! ## The grammar -/

/-- `CA_descriptor()`: tag, length, system id and pid, private data. The value
is the descriptor's bytes. -/
def decodeDescriptor : List Byte → Option (List Byte × List Byte)
  | tag :: len :: rest =>
    if 4 ≤ len.toNat ∧ len.toNat ≤ rest.length then
      some (tag :: len :: rest.take len.toNat, rest.drop len.toNat)
    else none
  | _ => none

/-- An info length and, unless it is zero, that many bytes of a command id and
descriptors. -/
def decodeInfo : List Byte → Option (List (List Byte) × List Byte)
  | b1 :: b0 :: rest =>
    let infoLength := (b1.toNat &&& 0x0F) <<< 8 ||| b0.toNat
    if rest.length < infoLength then none
    else
      match rest.take infoLength with
      | [] => some ([], rest)
      | _ :: body => (decodeAll decodeDescriptor body.length body).map (·, rest.drop infoLength)
  | _ => none

structure EsEntry where
  streamType : Nat
  elementaryPID : Nat
  descriptors : List (List Byte)
  deriving DecidableEq

def decodeEs : List Byte → Option (EsEntry × List Byte)
  | streamType :: b1 :: b0 :: rest =>
    let elementaryPID := (b1.toNat &&& 0x1F) <<< 8 ||| b0.toNat
    (decodeInfo rest).map fun out => (⟨streamType.toNat, elementaryPID, out.1⟩, out.2)
  | _ => none

structure CaPmtMessage where
  caPmtListManagement : Nat
  programNumber : Nat
  versionNumber : Nat
  currentNextIndicator : Nat
  descriptors : List (List Byte)
  es : List EsEntry
  deriving DecidableEq

def decodeBody : List Byte → Option CaPmtMessage
  | listManagement :: n1 :: n0 :: v :: rest =>
    match decodeInfo rest with
    | none => none
    | some (descriptors, rest) =>
      (decodeAll decodeEs rest.length rest).map fun es =>
        { caPmtListManagement := listManagement.toNat
          programNumber := n1.toNat <<< 8 ||| n0.toNat
          versionNumber := v.toNat >>> 1 &&& 0x1F
          currentNextIndicator := v.toNat &&& 0x01
          descriptors := descriptors
          es := es }
  | _ => none

/-- `length_field()`: one byte, or the number of length bytes and these. -/
def decodeLength : List Byte → Option (Nat × List Byte)
  | [] => none
  | b :: rest =>
    (parseLengthField (fun j => (b :: rest)[j]?) 0).map fun n =>
      (n, if b.toNat < 128 then rest else rest.drop (b.toNat - 128))

/-- The body has exactly the length the length field gives. -/
def decodeCaPmt : List Byte → Option CaPmtMessage
  | t2 :: t1 :: t0 :: rest =>
    if [t2, t1, t0] ≠ [0x9F, 0x80, 0x32] then none
    else
      match decodeLength rest with
      | none => none
      | some (n, body) => if body.length = n then decodeBody body else none
  | _ => none

/-! ## What a source stands for -/

def EsSource.entry (e : EsSource) : EsEntry :=
  ⟨e.streamType.toNat, e.elementaryPID.toNat, e.descriptors.map CaBuffer.descriptor⟩

def PmtSource.message (s : PmtSource) : CaPmtMessage where
  caPmtListManagement := s.caPmtListManagement.toNat
  programNumber := s.programNumber.toNat
  versionNumber := s.versionNumber.toNat
  currentNextIndicator := s.currentNextIndicator.toNat
  descriptors := s.descriptors.map CaBuffer.descriptor
  es := s.es.map EsSource.entry

/-! ## Reading back -/

theorem descriptor_ne_nil (b : CaBuffer) : b.descriptor ≠ [] := by
  intro h
  have hlen := descriptor_length b
  rw [h, List.length_nil] at hlen
  omega

theorem decodeDescriptor_descriptor (b : CaBuffer) (rest : List Byte) :
    decodeDescriptor (b.descriptor ++ rest) = some (b.descriptor, rest) := by
  obtain ⟨bytes, fixed, complete⟩ := b
  rcases bytes with _ | ⟨b0, _ | ⟨b1, bs⟩⟩ <;>
    simp only [List.getD_cons_zero, List.getD_cons_succ, List.getD_nil, List.length_cons,
      List.length_nil, UInt8.toNat_zero] at fixed complete <;> try omega
  have hlen : b1.toNat ≤ bs.length := by omega
  have htake : (bs.take b1.toNat ++ rest).take b1.toNat = bs.take b1.toNat := by
    rw [List.take_append_of_le_length (by rw [List.length_take]; omega), List.take_take,
      Nat.min_self]
  have hdrop : (bs.take b1.toNat ++ rest).drop b1.toNat = rest := by
    apply List.drop_left'
    rw [List.length_take]
    omega
  have hroom : 4 ≤ b1.toNat ∧ b1.toNat ≤ (bs.take b1.toNat ++ rest).length := by
    rw [List.length_append, List.length_take]
    omega
  simp only [CaBuffer.descriptor, List.getD_cons_zero, List.getD_cons_succ, List.take_succ_cons,
    List.cons_append, decodeDescriptor, if_pos hroom, htake, hdrop]

theorem decodeInfo_tableBytes {bs : List CaBuffer} (h : (infoBytes bs).length < 4096)
    (r : BitVec 4) (rest : List Byte) :
    decodeInfo (tableBytes r bs ++ rest) = some (bs.map CaBuffer.descriptor, rest) := by
  have hvalue := fieldValue (w := 4) (by decide) r.isLt h
  simp only [tableBytes, List.cons_append, decodeInfo]
  rw [show (0x0F : Nat) = 2 ^ 4 - 1 from rfl, hvalue, if_neg (by simp), List.take_left,
    List.drop_left]
  by_cases hnil : bs = []
  · subst hnil
    rfl
  · have hall : decodeAll decodeDescriptor (bs.flatMap CaBuffer.descriptor).length
        (bs.flatMap CaBuffer.descriptor) = some (bs.map CaBuffer.descriptor) :=
      decodeAll_flatMap (fun b _ => descriptor_ne_nil b)
        (fun b _ => decodeDescriptor_descriptor b) (Nat.le_refl _)
    simp only [infoBytes, if_neg hnil, hall, Option.map_some]

theorem decodeEs_esBytes {e : EsSource} (h : (infoBytes e.descriptors).length < 4096)
    (rest : List Byte) : decodeEs (esBytes e ++ rest) = some (e.entry, rest) := by
  have hpid := fieldValue (w := 5) (by decide) e.reserved1.isLt e.elementaryPID.isLt
  simp only [esBytes, List.cons_append, decodeEs, decodeInfo_tableBytes h, Option.map_some,
    EsSource.entry]
  rw [show (0x1F : Nat) = 2 ^ 5 - 1 from rfl, hpid, toNat_toUInt8 e.streamType.isLt]

/-- Version and indicator share a byte. -/
theorem versionByte (r : BitVec 2) (v : BitVec 5) (c : BitVec 1) :
    let b := (r.toNat <<< 6 ||| v.toNat <<< 1 ||| c.toNat).toUInt8
    b.toNat >>> 1 &&& 0x1F = v.toNat ∧ b.toNat &&& 0x01 = c.toNat := by
  have hr := r.isLt
  have hv := v.isLt
  have hc := c.isLt
  have hvc : v.toNat <<< 1 ||| c.toNat = v.toNat * 2 + c.toNat := or_shift _ hc
  have hall : r.toNat <<< 6 ||| (v.toNat * 2 + c.toNat) = r.toNat * 64 + (v.toNat * 2 + c.toNat) :=
    or_shift _ (by omega)
  intro b
  have hb : b.toNat = r.toNat * 64 + (v.toNat * 2 + c.toNat) := by
    simp only [b]
    rw [Nat.or_assoc, hvc, hall, toNat_toUInt8 (by omega)]
  rw [hb, Nat.shiftRight_eq_div_pow, Nat.and_two_pow_sub_one_eq_mod _ 5,
    Nat.and_two_pow_sub_one_eq_mod _ 1]
  omega

theorem esBytes_ne_nil (e : EsSource) : esBytes e ≠ [] := by simp [esBytes]

theorem decodeBody_bodyBytes {s : PmtSource} (h : s.length < 4096) :
    decodeBody (bodyBytes s) = some s.message := by
  obtain ⟨hp, hes⟩ := info_lt h
  have hall : decodeAll decodeEs (s.es.flatMap esBytes).length (s.es.flatMap esBytes) =
      some (s.es.map EsSource.entry) :=
    decodeAll_flatMap (fun e _ => esBytes_ne_nil e) (fun e he => decodeEs_esBytes (hes e he))
      (Nat.le_refl _)
  obtain ⟨hversion, hcurrent⟩ := versionByte s.reserved1 s.versionNumber s.currentNextIndicator
  have hnumber := fieldValue (w := 8) (Nat.le_refl 8) (show 0 < 2 ^ (8 - 8) by decide)
    s.programNumber.isLt
  rw [Nat.zero_shiftLeft, Nat.zero_or] at hnumber
  have hbyte : (s.programNumber.toNat >>> 8).toUInt8.toNat &&& 2 ^ 8 - 1 =
      (s.programNumber.toNat >>> 8).toUInt8.toNat := by
    rw [Nat.and_two_pow_sub_one_eq_mod, Nat.mod_eq_of_lt (UInt8.toNat_lt _)]
  rw [hbyte] at hnumber
  simp only [bodyBytes, decodeBody, decodeInfo_tableBytes hp, hall, Option.map_some, hversion,
    hcurrent, hnumber, toNat_toUInt8 s.caPmtListManagement.isLt, PmtSource.message]

theorem decodeLength_lengthField {n : Nat} (hn : n < 2 ^ 24) (rest : List Byte) :
    decodeLength (lengthField n ++ rest) = some (n, rest) := by
  have hparse : parseLengthField (fun j => (lengthField n ++ rest)[j]?) 0 = some n := by
    apply parseLengthField_lengthField hn
    intro j hj
    rw [Nat.zero_add, List.getElem?_append_left (by rw [lengthField_length]; exact hj)]
  unfold lengthField at hparse ⊢
  by_cases h : n < 128
  · rw [if_pos h] at hparse ⊢
    simp only [List.cons_append, List.nil_append] at hparse ⊢
    rw [decodeLength, hparse, Option.map_some, toNat_toUInt8 (by omega), if_pos h]
  · rw [if_neg h] at hparse ⊢
    simp only [List.cons_append] at hparse ⊢
    have hsize : getLengthFieldSize n ≤ 4 := by
      unfold getLengthFieldSize
      split_ifs <;> omega
    have hb : (1 <<< 7 ||| (getLengthFieldSize n - 1)).toUInt8.toNat =
        128 + (getLengthFieldSize n - 1) := by
      rw [or_shift 1 (by omega), toNat_toUInt8 (by omega)]
      omega
    rw [decodeLength, hparse, Option.map_some, hb, if_neg (by omega), Nat.add_sub_cancel_left,
      List.drop_left' (bigEndian_length n _)]

theorem decodeCaPmt_pmtBytes {s : PmtSource} (h : s.length < 4096) :
    decodeCaPmt (pmtBytes s) = some s.message := by
  simp only [pmtBytes, decodeCaPmt]
  rw [if_neg (by decide), decodeLength_lengthField (by omega)]
  simp only [bodyBytes_length, decodeBody_bodyBytes h, if_true]

theorem infoLengths {s : PmtSource} (h : s.length < 4096) :
    (CCaPmt.build s).infoLength.toNat = (infoBytes s.descriptors).length ∧
      (CCaPmt.build s).esInfo.map (fun e => e.infoLength.toNat) =
        s.es.map (fun e => (infoBytes e.descriptors).length) := by
  obtain ⟨hp, hes⟩ := info_lt h
  constructor
  · exact infoLength_build hp s.reserved2
  · rw [CCaPmt.build, List.map_map]
    exact List.map_congr_left fun e he => infoLength_build (hes e he) e.reserved2

theorem parse_written {n : Nat} (h : n < 2 ^ 24) (m : Mem) (p : Nat) :
    ∃ m', writeLengthField m p n = some (m', getLengthFieldSize n) ∧
      parseLengthField m' p = some n := by
  refine ⟨_, writeLengthField_eq m p h, parseLengthField_lengthField h ?_⟩
  intro j hj
  rw [Mem.put_get, if_pos ⟨Nat.le_add_right p j, by rw [lengthField_length]; omega⟩,
    Nat.add_sub_cancel_left]

/-- The buffer of `setCaPmt` is filled from its first to its last byte and not
beyond, and its contents are the CA-PMT. -/
theorem ca_pmt_encoding (s : PmtSource) (h : s.length < 4096) :
    let c := CCaPmt.build s
    let size := 3 + getLengthFieldSize c.getLength + c.getLength
    c.getLength = s.length ∧
      (∃ m, setCaPmt c = (size, some (m, size)) ∧
        (∀ j, (m j).isSome = true ↔ j < size) ∧
        parseLengthField m 3 = some c.getLength ∧
        decodeCaPmt (m.contents 0 size) = some s.message) ∧
      (∀ m p, ∃ m', writeLengthField m p c.getLength = some (m', getLengthFieldSize c.getLength) ∧
        parseLengthField m' p = some c.getLength) ∧
      c.infoLength.toNat = (infoBytes s.descriptors).length ∧
      c.esInfo.map (fun e => e.infoLength.toNat) =
        s.es.map (fun e => (infoBytes e.descriptors).length) := by
  intro c size
  have hlen : c.getLength = s.length := pmt_getLength h
  have hsize : (pmtBytes s).length = size := by
    rw [pmtBytes_length, ← hlen]
  have hwrite := pmt_writeToBuffer h .unset 0
  rw [hsize] at hwrite
  refine ⟨hlen, ⟨Mem.unset.put 0 (pmtBytes s), ?_, ?_, ?_, ?_⟩, ?_, infoLengths h⟩
  · simp only [setCaPmt]
    rw [hwrite]
  · intro j
    rw [Mem.put_unset_isSome, hsize]
  · rw [hlen]
    apply parseLengthField_lengthField (by omega)
    intro j hj
    rw [Mem.put_get, if_pos ⟨Nat.zero_le _, by rw [pmtBytes_length]; omega⟩, pmtBytes, Nat.sub_zero,
      Nat.add_comm 3]
    simp only [List.getElem?_cons_succ]
    rw [List.getElem?_append_left (by rw [lengthField_length]; exact hj)]
  · rw [← hsize, Mem.contents_put, decodeCaPmt_pmtBytes h]
  · intro m p
    exact parse_written (by omega) m p

/-- A program with one descriptor and a stream without one. -/
def sampleSource : PmtSource where
  caPmtListManagement := 3
  programNumber := 0x2B66
  reserved1 := 3
  versionNumber := 17
  currentNextIndicator := 1
  reserved2 := 15
  descriptors := [⟨[0x09, 0x04, 0x17, 0x02, 0xE6, 0x01, 0xFF], by decide, by decide⟩]
  es := [⟨2, 7, 0x0AFF, 15, []⟩]

theorem ca_pmt_encoding_sample :
    sampleSource.length < 4096 ∧
      ∃ m, setCaPmt (CCaPmt.build sampleSource) = (22, some (m, 22)) ∧
        (∀ j, (m j).isSome = true ↔ j < 22) ∧
        decodeCaPmt (m.contents 0 22) =
          some ⟨3, 0x2B66, 17, 1, [[0x09, 0x04, 0x17, 0x02, 0xE6, 0x01]], [⟨2, 0x0AFF, []⟩]⟩ := by
  have h : sampleSource.length < 4096 := by decide
  have hlen : (CCaPmt.build sampleSource).getLength = 18 := by decide
  obtain ⟨-, ⟨m, hset, hfilled, -, hdecode⟩, -⟩ := ca_pmt_encoding sampleSource h
  rw [hlen] at hset hfilled hdecode
  exact ⟨h, m, hset, hfilled, hdecode⟩

end Tuxbox.Zapit
