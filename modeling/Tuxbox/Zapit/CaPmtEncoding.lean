import Tuxbox.Zapit.CaPmt
import Mathlib.Algebra.Order.BigOperators.Group.List

/-! The encoding of the CA-PMT: what `writeToBuffer` stores at each of the three
levels, and a decoder for the `ca_pmt` grammar of EN 50221 that reads it back. -/
namespace Tuxbox.Zapit

open Connection

/-! ## Descriptors -/

/-- The two bytes of a field of `lo + 8` bits under one of `8 - lo` bits. -/
theorem fieldBytes (b4 b5 : Byte) :
    let reserved := BitVec.ofNat 3 (b4.toNat >>> 5)
    let pid := BitVec.ofNat 13 ((b4.toNat &&& 0x1F) <<< 8 ||| b5.toNat)
    (reserved.toNat <<< 5 ||| pid.toNat >>> 8).toUInt8 = b4 ∧ pid.toNat.toUInt8 = b5 := by
  have h4 := b4.toNat_lt
  have h5 := b5.toNat_lt
  have hand : b4.toNat &&& 0x1F = b4.toNat % 32 := Nat.and_two_pow_sub_one_eq_mod b4.toNat 5
  have hor : (b4.toNat % 32) <<< 8 ||| b5.toNat = b4.toNat % 32 * 256 + b5.toNat := or_shift _ h5
  have hpid : (b4.toNat % 32 * 256 + b5.toNat) % 8192 = b4.toNat % 32 * 256 + b5.toNat := by omega
  have hres : b4.toNat / 32 % 8 = b4.toNat / 32 := by omega
  have hhigh : (b4.toNat % 32 * 256 + b5.toNat) / 256 = b4.toNat % 32 := by omega
  have hjoin : (b4.toNat / 32) <<< 5 ||| b4.toNat % 32 = b4.toNat := by
    rw [or_shift _ (by omega)]
    omega
  simp only [BitVec.toNat_ofNat, hand, hor, Nat.shiftRight_eq_div_pow, Nat.reducePow, hpid, hres,
    hhigh, hjoin]
  constructor
  · exact UInt8.toNat_inj.mp (toNat_toUInt8 h4)
  · apply UInt8.toNat_inj.mp
    simp

theorem systemBytes (b2 b3 : Byte) :
    let system := BitVec.ofNat 16 (b2.toNat <<< 8 ||| b3.toNat)
    (system.toNat >>> 8).toUInt8 = b2 ∧ system.toNat.toUInt8 = b3 := by
  have h2 := b2.toNat_lt
  have h3 := b3.toNat_lt
  have hor : b2.toNat <<< 8 ||| b3.toNat = b2.toNat * 256 + b3.toNat := or_shift _ h3
  have hfit : (b2.toNat * 256 + b3.toNat) % 65536 = b2.toNat * 256 + b3.toNat := by omega
  have hhigh : (b2.toNat * 256 + b3.toNat) / 256 = b2.toNat := by omega
  simp only [BitVec.toNat_ofNat, hor, Nat.shiftRight_eq_div_pow, Nat.reducePow, hfit, hhigh]
  constructor
  · exact UInt8.toNat_inj.mp (toNat_toUInt8 h2)
  · apply UInt8.toNat_inj.mp
    simp

theorem byteField (b : Byte) : (BitVec.ofNat 8 b.toNat).toNat = b.toNat := by
  have h := b.toNat_lt
  simp

theorem descriptor_length (b : CaBuffer) :
    b.descriptor.length = (b.bytes.getD 1 0).toNat + 2 := by
  rw [CaBuffer.descriptor, List.length_take, Nat.min_eq_left b.complete]

theorem getLength_ofBuffer (b : CaBuffer) :
    (CCaDescriptor.ofBuffer b).getLength = b.descriptor.length := by
  rw [descriptor_length, CCaDescriptor.getLength, CCaDescriptor.ofBuffer]
  simp only [byteField]

/-- A descriptor is written as it was read. -/
theorem descriptor_writeToBuffer (b : CaBuffer) (m : Mem) (p : Nat) :
    (CCaDescriptor.ofBuffer b).writeToBuffer m p =
      (m.put p b.descriptor, b.descriptor.length) := by
  obtain ⟨bytes, fixed, complete⟩ := b
  rw [descriptor_length]
  -- six bytes are there: the fixed part
  rcases bytes with _ | ⟨b0, _ | ⟨b1, _ | ⟨b2, _ | ⟨b3, _ | ⟨b4, _ | ⟨b5, rest⟩⟩⟩⟩⟩⟩ <;>
    simp only [List.getD_cons_zero, List.getD_cons_succ, List.getD_nil, List.length_cons,
      List.length_nil, UInt8.toNat_zero] at fixed complete <;> try omega
  obtain ⟨n, hn⟩ : ∃ n, b1.toNat = n + 4 := ⟨b1.toNat - 4, by omega⟩
  have htake : (b0 :: b1 :: b2 :: b3 :: b4 :: b5 :: rest).take (b1.toNat + 2) =
      b0 :: b1 :: b2 :: b3 :: b4 :: b5 :: rest.take n := by
    rw [hn]
    rfl
  obtain ⟨hpid1, hpid0⟩ := fieldBytes b4 b5
  obtain ⟨hsys1, hsys0⟩ := systemBytes b2 b3
  have hbyte : ∀ b : Byte, b.toNat.toUInt8 = b := fun b => UInt8.ofNat_toNat
  simp only [CCaDescriptor.writeToBuffer, CCaDescriptor.ofBuffer, CaBuffer.descriptor,
    List.getD_cons_zero, List.getD_cons_succ, byteField, hpid1, hpid0, hsys1, hsys0, hbyte, htake,
    List.drop_succ_cons, List.drop_zero, Mem.put]

/-! ## Tables -/

theorem infoBytes_length_append (bs : List CaBuffer) (b : CaBuffer) :
    (infoBytes (bs ++ [b])).length =
      (if bs = [] then 1 else (infoBytes bs).length) + b.descriptor.length := by
  unfold infoBytes
  rw [if_neg (by simp)]
  by_cases h : bs = []
  · simp [h]
    omega
  · simp [h]
    omega

/-- The length counter is zero exactly while there is no descriptor. -/
theorem infoCounter_eq_zero {bs : List CaBuffer} (h : (infoBytes bs).length < 4096) :
    BitVec.ofNat 12 (infoBytes bs).length = 0 ↔ bs = [] := by
  constructor
  · intro hz
    have hn := congrArg BitVec.toNat hz
    rw [BitVec.toNat_ofNat, Nat.mod_eq_of_lt h] at hn
    by_contra hnil
    simp [infoBytes, hnil] at hn
  · intro hnil
    rw [hnil]
    rfl

/-- What a table holds after its descriptors were added. -/
theorem build_eq {bs : List CaBuffer} (h : (infoBytes bs).length < 4096) (r : BitVec 4) :
    CCaTable.build r bs =
      ⟨bs.map CCaDescriptor.ofBuffer, r, .ofNat 12 (infoBytes bs).length⟩ := by
  induction bs using List.reverseRecOn with
  | nil => rfl
  | append_singleton bs b ih =>
    rw [infoBytes_length_append] at h
    have hbs : (infoBytes bs).length < 4096 := by
      by_cases hnil : bs = []
      · simp [hnil, infoBytes]
      · rw [if_neg hnil] at h
        omega
    have hb : CCaTable.build r (bs ++ [b]) = (CCaTable.build r bs).addCaDescriptor b := by
      simp [CCaTable.build]
    rw [hb, ih hbs, CCaTable.addCaDescriptor, infoBytes_length_append]
    have hinfo : (if BitVec.ofNat 12 (infoBytes bs).length = 0 then (1 : BitVec 12)
        else .ofNat 12 (infoBytes bs).length) =
        .ofNat 12 (if bs = [] then 1 else (infoBytes bs).length) := by
      by_cases hnil : bs = []
      · simp [hnil, infoBytes]
      · rw [if_neg (mt (infoCounter_eq_zero hbs).mp hnil), if_neg hnil]
    simp only [hinfo, getLength_ofBuffer, List.map_append, List.map_cons, List.map_nil,
      BitVec.ofNat_add]

theorem writeDescriptors_eq (p : Nat) (bs : List CaBuffer) (m : Mem) (pos : Nat) :
    CCaTable.writeDescriptors p (bs.map CCaDescriptor.ofBuffer) (m, pos) =
      (m.put (p + pos) (bs.flatMap CaBuffer.descriptor),
        pos + (bs.flatMap CaBuffer.descriptor).length) := by
  induction bs generalizing m pos with
  | nil => rfl
  | cons b bs ih =>
    rw [List.map_cons, CCaTable.writeDescriptors]
    simp only [descriptor_writeToBuffer]
    rw [ih, Mem.put_put (by omega), List.flatMap_cons, List.length_append, Nat.add_assoc]

/-- The two bytes before the descriptors, and the descriptors. -/
def tableBytes (r : BitVec 4) (bs : List CaBuffer) : List Byte :=
  let info := (infoBytes bs).length
  (r.toNat <<< 4 ||| info >>> 8).toUInt8 :: info.toUInt8 :: infoBytes bs

theorem tableBytes_length (r : BitVec 4) (bs : List CaBuffer) :
    (tableBytes r bs).length = 2 + (infoBytes bs).length := by
  simp only [tableBytes, List.length_cons]
  omega

theorem infoLength_build {bs : List CaBuffer} (h : (infoBytes bs).length < 4096) (r : BitVec 4) :
    (CCaTable.build r bs).infoLength.toNat = (infoBytes bs).length := by
  rw [build_eq h, BitVec.toNat_ofNat, Nat.mod_eq_of_lt h]

theorem table_getLength {bs : List CaBuffer} (h : (infoBytes bs).length < 4096) (r : BitVec 4) :
    (CCaTable.build r bs).getLength = 2 + (infoBytes bs).length := by
  rw [CCaTable.getLength, infoLength_build h, Nat.add_comm]

theorem table_writeToBuffer {bs : List CaBuffer} (h : (infoBytes bs).length < 4096) (r : BitVec 4)
    (m : Mem) (p : Nat) :
    (CCaTable.build r bs).writeToBuffer m p =
      (m.put p (tableBytes r bs), (tableBytes r bs).length) := by
  have hinfo : (BitVec.ofNat 12 (infoBytes bs).length).toNat = (infoBytes bs).length := by
    rw [BitVec.toNat_ofNat, Nat.mod_eq_of_lt h]
  rw [build_eq h, CCaTable.writeToBuffer, tableBytes_length]
  simp only [hinfo, tableBytes]
  by_cases hnil : bs = []
  · rw [if_pos ((infoCounter_eq_zero h).mpr hnil), hnil]
    rfl
  · rw [if_neg (mt (infoCounter_eq_zero h).mp hnil), writeDescriptors_eq]
    simp only [infoBytes, if_neg hnil, Mem.put, List.length_cons]
    congr 1
    omega

/-! ## Elementary streams and the message -/

def esBytes (e : EsSource) : List Byte :=
  e.streamType.toNat.toUInt8 ::
    (e.reserved1.toNat <<< 5 ||| e.elementaryPID.toNat >>> 8).toUInt8 ::
    e.elementaryPID.toNat.toUInt8 :: tableBytes e.reserved2 e.descriptors

theorem esBytes_length (e : EsSource) : (esBytes e).length = e.length := by
  simp only [esBytes, List.length_cons, tableBytes_length, EsSource.length]
  omega

theorem es_getLength {e : EsSource} (h : (infoBytes e.descriptors).length < 4096) :
    (CEsInfo.build e).getLength = e.length := by
  have ht := table_getLength h e.reserved2
  simp only [CEsInfo.getLength, CEsInfo.build, ht, EsSource.length]
  omega

theorem es_writeToBuffer {e : EsSource} (h : (infoBytes e.descriptors).length < 4096) (m : Mem)
    (p : Nat) :
    (CEsInfo.build e).writeToBuffer m p = (m.put p (esBytes e), (esBytes e).length) := by
  rw [CEsInfo.writeToBuffer, CEsInfo.build]
  simp only [table_writeToBuffer h, esBytes, Mem.put, List.length_cons]
  congr 1
  omega

theorem writeEsInfo_eq (p : Nat) {es : List EsSource}
    (h : ∀ e ∈ es, (infoBytes e.descriptors).length < 4096) (m : Mem) (pos : Nat) :
    CCaPmt.writeEsInfo p (es.map CEsInfo.build) (m, pos) =
      (m.put (p + pos) (es.flatMap esBytes), pos + (es.flatMap esBytes).length) := by
  induction es generalizing m pos with
  | nil => rfl
  | cons e es ih =>
    have he := h e List.mem_cons_self
    have hes := fun x hx => h x (List.mem_cons_of_mem e hx)
    rw [List.map_cons, CCaPmt.writeEsInfo]
    simp only [es_writeToBuffer he]
    rw [ih hes, Mem.put_put (by omega), List.flatMap_cons, List.length_append, Nat.add_assoc]

/-- A message below the limit has no table above it. -/
theorem info_lt {s : PmtSource} (h : s.length < 4096) :
    (infoBytes s.descriptors).length < 4096 ∧
      ∀ e ∈ s.es, (infoBytes e.descriptors).length < 4096 := by
  unfold PmtSource.length at h
  constructor
  · omega
  · intro e he
    have hle := List.le_sum_of_mem (List.mem_map_of_mem (f := EsSource.length) he)
    rw [EsSource.length] at hle
    omega

theorem getLength_loop {es : List EsSource}
    (h : ∀ e ∈ es, (infoBytes e.descriptors).length < 4096) (size : Nat)
    (hfit : size + (es.map EsSource.length).sum < 2 ^ 32) :
    (es.map CEsInfo.build).foldl (fun size e => (size + e.getLength) % 2 ^ 32) size =
      size + (es.map EsSource.length).sum := by
  induction es generalizing size with
  | nil => rfl
  | cons e es ih =>
    rw [List.map_cons, List.sum_cons] at hfit
    rw [List.map_cons, List.foldl_cons, es_getLength (h e List.mem_cons_self),
      Nat.mod_eq_of_lt (by omega), ih (fun x hx => h x (List.mem_cons_of_mem e hx)) _ (by omega),
      List.map_cons, List.sum_cons, Nat.add_assoc]

theorem pmt_getLength {s : PmtSource} (h : s.length < 4096) :
    (CCaPmt.build s).getLength = s.length := by
  obtain ⟨hp, hes⟩ := info_lt h
  have ht := table_getLength hp s.reserved2
  unfold PmtSource.length at h
  simp only [CCaPmt.getLength, CCaPmt.build, ht]
  rw [getLength_loop hes _ (by omega), PmtSource.length]

/-- The message behind its length field. -/
def bodyBytes (s : PmtSource) : List Byte :=
  s.caPmtListManagement.toNat.toUInt8 :: (s.programNumber.toNat >>> 8).toUInt8 ::
    s.programNumber.toNat.toUInt8 ::
    (s.reserved1.toNat <<< 6 ||| s.versionNumber.toNat <<< 1 |||
      s.currentNextIndicator.toNat).toUInt8 ::
    (tableBytes s.reserved2 s.descriptors ++ s.es.flatMap esBytes)

theorem bodyBytes_length (s : PmtSource) : (bodyBytes s).length = s.length := by
  have hes : s.es.map (fun e => (esBytes e).length) = s.es.map EsSource.length :=
    List.map_congr_left fun e _ => esBytes_length e
  simp only [bodyBytes, List.length_cons, List.length_append, tableBytes_length, List.length_flatMap,
    hes, PmtSource.length]
  omega

def pmtBytes (s : PmtSource) : List Byte :=
  0x9F :: 0x80 :: 0x32 :: (lengthField s.length ++ bodyBytes s)

theorem pmtBytes_length (s : PmtSource) :
    (pmtBytes s).length = 3 + getLengthFieldSize s.length + s.length := by
  simp only [pmtBytes, List.length_cons, List.length_append, lengthField_length, bodyBytes_length]
  omega

/-- The four bytes, the table and the streams are one run. -/
theorem body_put (s : PmtSource) (m0 : Mem) (q : Nat) :
    let m := m0.write q s.caPmtListManagement.toNat.toUInt8
    let m := m.write (q + 1) (s.programNumber.toNat >>> 8).toUInt8
    let m := m.write (q + 2) s.programNumber.toNat.toUInt8
    let m := m.write (q + 3) (s.reserved1.toNat <<< 6 ||| s.versionNumber.toNat <<< 1 |||
      s.currentNextIndicator.toNat).toUInt8
    let table := tableBytes s.reserved2 s.descriptors
    (m.put (q + 4) table).put (q + (4 + table.length)) (s.es.flatMap esBytes) =
      m0.put q (bodyBytes s) := by
  intro m1 m2 m3 m4 table
  rw [Mem.put_put (by omega)]
  rfl

/-- The whole message is stored, and its length returned. -/
theorem pmt_writeToBuffer {s : PmtSource} (h : s.length < 4096) (m : Mem) (p : Nat) :
    (CCaPmt.build s).writeToBuffer m p = some (m.put p (pmtBytes s), (pmtBytes s).length) := by
  obtain ⟨hp, hes⟩ := info_lt h
  have hlen := pmt_getLength h
  rw [CCaPmt.writeToBuffer, hlen, writeLengthField_eq _ _ (by omega), CCaPmt.build]
  simp only [table_writeToBuffer hp, writeEsInfo_eq _ hes]
  congr 2
  · let front := ((m.write p 0x9F).write (p + 1) 0x80).write (p + 2) 0x32
    have hbody := body_put s (front.put (p + 3) (lengthField s.length))
      (p + (3 + getLengthFieldSize s.length))
    have hfront : (front.put (p + 3) (lengthField s.length)).put
        (p + (3 + getLengthFieldSize s.length)) (bodyBytes s) =
        front.put (p + 3) (lengthField s.length ++ bodyBytes s) :=
      Mem.put_put (by rw [lengthField_length]; omega) _
    simp only [Nat.add_assoc] at hbody hfront ⊢
    exact hbody.trans hfront
  · rw [pmtBytes_length, ← bodyBytes_length s]
    simp only [bodyBytes, List.length_cons, List.length_append]
    omega

end Tuxbox.Zapit
