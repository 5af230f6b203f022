import Tuxbox.Lib.Ber
import Tuxbox.Enigma.CiQueue
import Mathlib.Data.Nat.Bitwise

/-!
# TPDUs of the common interface

What `sendTPDU` and `create_sessionobject` put around their data, and what `incoming`
makes of the LPDUs of a module.
-/

namespace Tuxbox.Enigma

/-- The SPDU that `create_sessionobject` hands to `sendTPDU`, for the three bytes of a tag. -/
def sessionObject (tag data : Str) (session : Byte) : Str :=
  let len := data.length
  [0x90, 0x02, 0x00, session] ++ tag.take 3 ++
    (if len < 128 then [UInt8.ofNat (len &&& 0x7f)]
      else if len > 255 then
        [0x82, UInt8.ofNat ((len &&& 0xff00) >>> 8), UInt8.ofNat (len &&& 0xff)]
      else [0x81, UInt8.ofNat (len &&& 0xff)]) ++
    data

structure LpduQueueElem where
  lpduLen : Byte
  lpdu : Str
  deriving DecidableEq

def LpduQueueElem.isMore (e : LpduQueueElem) : Bool := e.lpdu.getD 1 0 &&& 0x80 ≠ 0

/-- What is copied behind the header of two bytes. -/
def LpduQueueElem.payload (e : LpduQueueElem) : Str := (e.lpdu.take e.lpduLen.toNat).drop 2

abbrev LpduQueues := Byte → List LpduQueueElem

/-- A call of `receiveTPDU`; `data` is what lies behind its pointer. -/
structure ReceivedTpdu where
  tag : Byte
  len : Int
  tcId : Byte
  data : Str
  deriving DecidableEq

/-- `cl`, an `int`, and `lenfield`. -/
def lengthField (payload : Str) : Int × Nat :=
  let first := payload.getD 1 0
  if first &&& 0x80 ≠ 0 then
    let lenfield := (first &&& 0x7f).toNat
    ((orShifted (fun i => (payload.getD (2 + i) 0).toNat) lenfield lenfield : Int).bmod (2 ^ 32),
      lenfield + 1)
  else ((first &&& 0x7f).toNat, 1)

/-- The end of `incoming`, for the payload of all LPDUs. -/
def assembled (tcId : Byte) (payload : Str) : Option ReceivedTpdu :=
  let length : Int := payload.length - 4
  let (cl, lenfield) := lengthField payload
  if length > 1 then some ⟨payload.getD 0 0, cl, tcId, payload.drop (2 + lenfield)⟩ else none

/-- What `incoming` does with one LPDU: the queues, the connection that is asked for
more data, and the TPDU that is received. -/
def incoming (queues : LpduQueues) (buffer : Str) :
    LpduQueues × Option Byte × Option ReceivedTpdu :=
  let elem : LpduQueueElem := ⟨UInt8.ofNat buffer.length, buffer⟩
  let tcId := buffer.getD 0 0
  let queue := queues tcId ++ [elem]
  if elem.isMore then (Function.update queues tcId queue, none, none)
  else
    let payload := queue.flatMap (·.payload)
    let polled :=
      if payload.getD (payload.length - 1) 0 = 0x80 then some (payload.getD (payload.length - 2) 0)
      else none
    (Function.update queues tcId [], polled, assembled tcId payload)

/-- The TPDUs received from LPDUs one after the other. -/
def receives (queues : LpduQueues) : List Str → List ReceivedTpdu
  | [] => []
  | buffer :: buffers =>
    let r := incoming queues buffer
    r.2.2.toList ++ receives r.1 buffers

/-- The LPDUs that carry the pieces of a message. -/
def lpdus (tcId : Byte) : List Str → List Str
  | [] => []
  | p :: ps => ([tcId, if ps = [] then 0x00 else 0x80] ++ p) :: lpdus tcId ps

/-! ## What is meant -/

/-- Tag, length of connection id and data, connection id, data. -/
def IsTpdu (tag tcId : Byte) (data bytes : Str) : Prop :=
  ∃ field, BerLength field (data.length + 1) ∧ bytes = tag :: field ++ tcId :: data

/-- The session number, and an APDU behind it. -/
def IsSessionObject (tag data : Str) (session : Byte) (bytes : Str) : Prop :=
  ∃ field, BerLength field data.length ∧
    bytes = [0x90, 0x02, 0x00, session] ++ tag.take 3 ++ field ++ data

/-- Status byte `sb`, of the connection. -/
def statusObject (tcId sb : Byte) : Str := [0x80, 0x02, tcId, sb]

/-- `receiveTPDU` is called once, with the tag, the data and its length. -/
def Delivered (tag : Byte) (data : Str) (calls : List ReceivedTpdu) : Prop :=
  ∃ r, calls = [r] ∧ r.tag = tag ∧ r.len = data.length ∧ r.data.take data.length = data

/-! ## Sending -/

theorem berLength_indefinite {bs field rest : Str} {n : Nat} (h : BerLength field n) :
    field ++ rest ≠ 0x80 :: bs := by
  intro heq
  obtain ⟨b, cs, rfl, hb⟩ := h.head
  obtain ⟨rfl, -⟩ := List.cons.inj heq
  have hb128 : (0x80 : Byte).toNat = 128 := rfl
  omega

/-- When a TPDU is sent with a valid length field. -/
theorem tpduBytes_iff (tag tcId : Byte) {data : Str} (h : data.length < 65535) :
    IsTpdu tag tcId data (tpduBytes tag tcId data) ↔ data.length ≠ 127 := by
  unfold tpduBytes
  dsimp only
  split
  · rename_i hlong
    apply iff_of_true
    · exact ⟨_, berLength_word (n := data.length + 1) (by omega), by simp⟩
    · omega
  · rename_i hshort
    constructor
    · rintro ⟨field, hfield, heq⟩ hlen
      rw [hlen] at heq
      exact berLength_indefinite hfield (List.cons.inj heq).2.symm
    · intro hlen
      exact ⟨_, BerLength.short (by omega), rfl⟩

theorem sessionObject_valid (tag : Str) {data : Str} (session : Byte) (h : data.length < 65536) :
    IsSessionObject tag data session (sessionObject tag data session) := by
  have hlow : data.length &&& 0x7f = data.length % 128 := Nat.and_two_pow_sub_one_eq_mod _ 7
  have hbyte : data.length &&& 0xff = data.length % 256 := Nat.and_two_pow_sub_one_eq_mod _ 8
  unfold IsSessionObject sessionObject
  dsimp only
  split
  · rename_i hshort
    refine ⟨_, BerLength.short hshort, ?_⟩
    rw [hlow, Nat.mod_eq_of_lt hshort]
  split
  · have hhigh : (data.length &&& 0xff00) >>> 8 = data.length >>> 8 := by
      have hmask : 0xff00 >>> 8 = 2 ^ 8 - 1 := rfl
      rw [Nat.shiftRight_and_distrib, hmask, Nat.and_two_pow_sub_one_eq_mod,
        Nat.shiftRight_eq_div_pow]
      omega
    refine ⟨_, berLength_word h, ?_⟩
    rw [hhigh]
  · rename_i hbyte'
    refine ⟨_, berLength_byte (n := data.length) (by omega), ?_⟩
    rw [hbyte, Nat.mod_eq_of_lt (by omega)]

/-! ## Receiving -/

theorem highBit_iff (b : Byte) : b &&& 0x80 = 0 ↔ b.toNat < 128 := by
  have hbit : b.toNat &&& 2 ^ 7 = (b.toNat.testBit 7).toNat * 2 ^ 7 := Nat.and_two_pow _ 7
  have hlt := b.toNat_lt
  rw [← UInt8.toNat_inj, UInt8.toNat_and]
  have h80 : (0x80 : Byte).toNat = 2 ^ 7 := rfl
  have h0 : (0 : Byte).toNat = 0 := rfl
  rw [h80, h0, hbit, Nat.testBit_eq_decide_div_mod_eq]
  by_cases hb : b.toNat / 2 ^ 7 % 2 = 1
  · simp only [hb, decide_true, Bool.toNat_true]
    omega
  · simp only [hb, decide_false, Bool.toNat_false]
    omega

theorem low_toNat (b : Byte) : (b &&& 0x7f).toNat = b.toNat % 128 := by
  rw [UInt8.toNat_and]
  exact Nat.and_two_pow_sub_one_eq_mod _ 7

section
variable {tcId : Byte} {queues : LpduQueues} {ps : List Str}

/-- The whole value of the length field is passed on, which counts the connection id. -/
theorem lengthField_ber {field : Str} {n : Nat} (h : BerLength field n) (tag : Byte) (rest : Str) :
    lengthField (tag :: field ++ rest) = ((n : Int).bmod (2 ^ 32), field.length) := by
  obtain ⟨b, bs, rfl, hb⟩ := h.head
  have hfirst : (tag :: (b :: bs) ++ rest).getD 1 0 = b := rfl
  unfold lengthField
  rw [hfirst]
  rcases hb with ⟨rfl, hn, rfl⟩ | ⟨hlen, hpos, hlt, rfl⟩
  · have hbit := (highBit_iff b).mpr hn
    have hvalue : (b.toNat : Int).bmod (2 ^ 32) = b.toNat := by
      apply Int.bmod_eq_of_le <;> omega
    simp only [ne_eq, hbit, not_true_eq_false, if_false, low_toNat, hvalue, Nat.mod_eq_of_lt hn]
    rfl
  · have hbit := mt (highBit_iff b).mp (by omega)
    have hlow : (b &&& 0x7f).toNat = bs.length := by
      rw [low_toNat]
      omega
    simp only [ne_eq, hbit, not_false_eq_true, if_true, hlow]
    rw [orShifted_eq]
    · rfl
    · intro i hi
      have hbyte : (tag :: (b :: bs) ++ rest).getD (2 + i) 0 = (bs ++ rest).getD i 0 := by
        rw [Nat.add_comm]
        rfl
      rw [hbyte, List.getD_append _ _ _ _ hi, List.getD_eq_getElem _ _ hi]

theorem payload_lpdu (flag : Byte) {p : Str} (hp : p.length ≤ 253) :
    LpduQueueElem.payload ⟨UInt8.ofNat ([tcId, flag] ++ p).length, [tcId, flag] ++ p⟩ = p := by
  have hlen : (UInt8.ofNat ([tcId, flag] ++ p).length).toNat = p.length + 2 := by
    rw [UInt8.toNat_ofNat', List.length_append]
    simp
    omega
  rw [LpduQueueElem.payload, hlen]
  simp

/-- The pieces are put together behind what is queued for the connection. -/
theorem receives_lpdus (hps : ps ≠ []) (hlen : ∀ p ∈ ps, p.length ≤ 253) :
    receives queues (lpdus tcId ps) =
      (assembled tcId ((queues tcId).flatMap (·.payload) ++ ps.flatten)).toList := by
  induction ps generalizing queues with
  | nil => exact absurd rfl hps
  | cons p ps ih =>
    have hp := hlen p List.mem_cons_self
    by_cases hlast : ps = []
    · subst hlast
      have hpayload := @payload_lpdu tcId 0x00 p hp
      simp only [List.cons_append, List.nil_append] at hpayload
      simp only [lpdus, receives, incoming, LpduQueueElem.isMore, if_true, List.cons_append,
        List.nil_append, List.getD_cons_zero, List.getD_cons_succ, List.flatMap_append,
        List.flatMap_singleton, hpayload, List.flatten_singleton]
      simp
    · have hpayload := @payload_lpdu tcId 0x80 p hp
      have ih := @ih (Function.update queues tcId
        (queues tcId ++ [⟨UInt8.ofNat ([tcId, 0x80] ++ p).length, [tcId, 0x80] ++ p⟩])) hlast
        fun q hq => hlen q (List.mem_cons_of_mem p hq)
      rw [Function.update_self, List.flatMap_append, List.flatMap_singleton, hpayload,
        List.append_assoc] at ih
      rw [List.flatten_cons, ← ih]
      simp [lpdus, receives, incoming, LpduQueueElem.isMore, hlast]

/-- The length that is passed on is that of the length field, one more than the data has. -/
theorem assembled_tpdu {field : Str} {n : Nat} (h : BerLength field n) (tag sb : Byte)
    (data : Str) :
    assembled tcId (tag :: field ++ tcId :: data ++ statusObject tcId sb) =
      some ⟨tag, (n : Int).bmod (2 ^ 32), tcId, data ++ statusObject tcId sb⟩ := by
  have hlength := lengthField_ber h tag (tcId :: data ++ statusObject tcId sb)
  have hpos : 0 < field.length := by
    obtain ⟨b, bs, rfl, -⟩ := h.head
    exact Nat.succ_pos _
  have hdrop : (tag :: field ++ (tcId :: data ++ statusObject tcId sb)).drop (2 + field.length) =
      data ++ statusObject tcId sb := by
    have hsplit : tag :: field ++ (tcId :: data ++ statusObject tcId sb) =
        (tag :: field ++ [tcId]) ++ (data ++ statusObject tcId sb) := by simp
    rw [hsplit]
    apply List.drop_left'
    rw [List.length_append, List.length_cons, List.length_singleton]
    omega
  rw [List.append_assoc (tag :: field)]
  unfold assembled
  dsimp only
  rw [hlength, if_pos, hdrop, List.cons_append, List.getD_cons_zero]
  simp only [statusObject, List.length_append, List.length_cons, List.length_nil]
  omega

theorem not_delivered {field : Str} {tag sb : Byte} {data : Str} (hempty : queues tcId = [])
    (hps : ps ≠ []) (hlen : ∀ p ∈ ps, p.length ≤ 253) (hfield : BerLength field (data.length + 1))
    (hflatten : ps.flatten = tag :: field ++ tcId :: data ++ statusObject tcId sb) :
    ¬ Delivered tag data (receives queues (lpdus tcId ps)) := by
  rw [receives_lpdus hps hlen, hempty, hflatten, List.flatMap_nil, List.nil_append,
    assembled_tpdu hfield]
  rintro ⟨r, hr, -, hcount, -⟩
  obtain rfl := (List.cons.inj hr).1
  have hmod := Int.bmod_emod (x := ((data.length + 1 : Nat) : Int)) (m := 2 ^ 32)
  dsimp only at hcount
  rw [hcount] at hmod
  omega

end

/-- Framing is exact where a TPDU that is sent has not 127 bytes of data, and in every
APDU; no TPDU is received with the number of its data bytes. -/
theorem framing_iff (queues : LpduQueues) (tag tcId session sb : Byte) (apdu data field : Str)
    (ps : List Str) :
    (data.length < 65535 →
      (IsTpdu tag tcId data (tpduBytes tag tcId data) ↔ data.length ≠ 127)) ∧
    (data.length < 65535 →
      IsSessionObject apdu data session (sessionObject apdu data session)) ∧
    (queues tcId = [] → ps ≠ [] → (∀ p ∈ ps, p.length ≤ 253) →
      BerLength field (data.length + 1) →
      ps.flatten = tag :: field ++ tcId :: data ++ statusObject tcId sb →
      ¬ Delivered tag data (receives queues (lpdus tcId ps))) := by
  refine ⟨?_, ?_, ?_⟩
  · exact fun h => tpduBytes_iff tag tcId h
  · exact fun h => sessionObject_valid apdu session (Nat.lt_succ_of_lt h)
  · intro hempty hps hlen hfield hflatten
    exact not_delivered hempty hps hlen hfield hflatten

/-- A data byte that is sent, an APDU of one byte, and the byte received in two pieces. -/
theorem framing_iff_small :
    IsTpdu 0xa0 1 [7] (tpduBytes 0xa0 1 [7]) ∧
      IsSessionObject [0x9f, 0x80, 0x30] [7] 1 (sessionObject [0x9f, 0x80, 0x30] [7] 1) ∧
      ¬ Delivered 0xa0 [7] (receives (fun _ => []) (lpdus 1 [[0xa0, 2], [1, 7, 0x80, 2, 1, 0]])) := by
  obtain ⟨hsent, hobject, hreceived⟩ := framing_iff (fun _ => []) 0xa0 1 1 0 [0x9f, 0x80, 0x30] [7]
    [2] [[0xa0, 2], [1, 7, 0x80, 2, 1, 0]]
  exact ⟨(hsent (by decide)).mpr (by decide), hobject (by decide),
    hreceived rfl (by decide) (by decide) (.short (by decide)) rfl⟩

/-- 127 bytes are sent with the length byte of the indefinite form, and a TPDU with the one
data byte 0x07 is received with a length of 2. -/
theorem framing_not_exact :
    ¬ IsTpdu 0xa0 1 (List.replicate 127 0) (tpduBytes 0xa0 1 (List.replicate 127 0)) ∧
      receives (fun _ => []) (lpdus 1 [[0xa0, 2], [1, 7, 0x80, 2, 1, 0]]) =
        [⟨0xa0, 2, 1, [7, 0x80, 2, 1, 0]⟩] := by
  constructor
  · rw [tpduBytes_iff 0xa0 1 (by simp)]
    simp
  · decide

end Tuxbox.Enigma
