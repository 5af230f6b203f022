import Tuxbox.Lib.Codec
import Mathlib.Tactic.Ring

/-! The length field of libconnection: one byte below 128, otherwise the number
of length bytes and the length itself, most significant byte first. -/
namespace Tuxbox.Connection

/-- The search for a shift that leaves nothing of `length`, as
`(length_field_size, shiftby)`. Shifting an `unsigned int` by 32 is undefined;
`left` counts the shifts below that. -/
def shiftLoop (length : Nat) : (left : Nat) → Nat × Nat → Option (Nat × Nat)
  | 0, _ => none
  | left + 1, (lengthFieldSize, shiftby) =>
    if length >>> shiftby ≠ 0 then shiftLoop length left (lengthFieldSize + 1, shiftby + 8)
    else some (lengthFieldSize, shiftby)

/-- `buffer[pos++] = length >> shiftby` for `shiftby = 8 * k` down to zero. -/
def bytesLoop (length : Nat) : Nat → Mem → Nat → Mem × Nat
  | 0, m, pos => (m, pos)
  | k + 1, m, pos => bytesLoop length k (m.write pos (length >>> (8 * k)).toUInt8) (pos + 1)

/-- Stores at `p` and returns the number of bytes stored. -/
def writeLengthField (m : Mem) (p length : Nat) : Option (Mem × Nat) :=
  if length < 128 then some (m.write p length.toUInt8, 1)
  else
    match shiftLoop length 3 (1, 8) with
    | none => none
    | some (lengthFieldSize, shiftby) =>
      let head := m.write p (1 <<< 7 ||| lengthFieldSize).toUInt8
      let out := bytesLoop length (shiftby / 8) head (p + 1)
      some (out.1, out.2 - p)

def parseLoop (m : Mem) (p : Nat) : Nat → Nat → Nat → Option Nat
  | 0, _, lengthValue => some lengthValue
  | k + 1, i, lengthValue =>
    match m (p + (i + 1)) with
    | none => none
    | some b => parseLoop m p k (i + 1) ((lengthValue <<< 8 ||| b.toNat) % 2 ^ 32)

/-- `none` is a read of a byte nothing was stored in. -/
def parseLengthField (m : Mem) (p : Nat) : Option Nat :=
  match m p with
  | none => none
  | some b =>
    let sizeIndicator := b.toNat >>> 7 &&& 0x01
    if sizeIndicator = 0 then some (b.toNat &&& 0x7F)
    else parseLoop m p (b.toNat &&& 0x7F) 0 0

def getLengthFieldSize (length : Nat) : Nat :=
  if length < 0x80 then 0x01
  else if length < 0x100 then 0x02
  else if length < 0x10000 then 0x03
  else if length < 0x1000000 then 0x04
  else 0x05

/-! ## The bytes of the field -/

/-- The `k` low bytes, most significant first. -/
def bigEndian (length : Nat) : Nat → List Byte
  | 0 => []
  | k + 1 => (length >>> (8 * k)).toUInt8 :: bigEndian length k

@[simp] theorem bigEndian_length (length k : Nat) : (bigEndian length k).length = k := by
  induction k with
  | zero => rfl
  | succ k ih => rw [bigEndian, List.length_cons, ih]

def lengthField (length : Nat) : List Byte :=
  if length < 128 then [length.toUInt8]
  else
    let size := getLengthFieldSize length - 1
    (1 <<< 7 ||| size).toUInt8 :: bigEndian length size

theorem getLengthFieldSize_pos (length : Nat) : 0 < getLengthFieldSize length := by
  unfold getLengthFieldSize
  split_ifs <;> omega

@[simp] theorem lengthField_length (length : Nat) :
    (lengthField length).length = getLengthFieldSize length := by
  have hpos := getLengthFieldSize_pos length
  unfold lengthField
  split_ifs with h
  · simp [getLengthFieldSize, h]
  · rw [List.length_cons, bigEndian_length]
    omega

theorem bytesLoop_eq (length k : Nat) (m : Mem) (pos : Nat) :
    bytesLoop length k m pos = (m.put pos (bigEndian length k), pos + k) := by
  induction k generalizing m pos with
  | zero => rfl
  | succ k ih => rw [bytesLoop, ih, bigEndian, Mem.put, Nat.add_assoc, Nat.add_comm 1]

/-- The number of bytes found is the one `get_length_field_size` counts. -/
theorem shiftLoop_eq {length : Nat} (lo : 128 ≤ length) (hi : length < 2 ^ 24) :
    let size := getLengthFieldSize length - 1
    shiftLoop length 3 (1, 8) = some (size, 8 * size) := by
  have h1 : ¬ length < 0x80 := by omega
  simp only [shiftLoop, getLengthFieldSize, Nat.shiftRight_eq_div_pow, if_neg h1]
  by_cases h2 : length < 0x100
  · simp [h2]
  · have d : length / 2 ^ 8 ≠ 0 := by omega
    by_cases h3 : length < 0x10000
    · rw [if_pos d]
      simp [h2, h3]
    · have e : length / 2 ^ 16 ≠ 0 := by omega
      have h4 : length < 0x1000000 := hi
      rw [if_pos d, if_pos e]
      simp [h2, h3, h4]

theorem writeLengthField_eq (m : Mem) (p : Nat) {length : Nat} (hi : length < 2 ^ 24) :
    writeLengthField m p length =
      some (m.put p (lengthField length), getLengthFieldSize length) := by
  unfold writeLengthField lengthField
  split_ifs with h
  · simp [getLengthFieldSize, h, Mem.write_eq_put]
  · have hpos := getLengthFieldSize_pos length
    have hloop := shiftLoop_eq (Nat.le_of_not_lt h) hi
    simp only at hloop
    rw [hloop]
    simp only [bytesLoop_eq, Nat.mul_div_cancel_left _ (Nat.zero_lt_succ 7), Mem.put]
    congr 2
    omega

/-! ## Reading it back -/

theorem parseLoop_bigEndian {m : Mem} {p : Nat} (length k i lengthValue : Nat)
    (hread : ∀ j, j < k → m (p + (i + j + 1)) = (bigEndian length k)[j]?)
    (hfit : lengthValue * 256 ^ k + length % 256 ^ k < 2 ^ 32) :
    parseLoop m p k i lengthValue = some (lengthValue * 256 ^ k + length % 256 ^ k) := by
  induction k generalizing i lengthValue with
  | zero => simp [parseLoop, Nat.mod_one]
  | succ k ih =>
    have hhead := hread 0 (by omega)
    rw [Nat.add_zero, bigEndian, List.getElem?_cons_zero] at hhead
    rw [parseLoop, hhead]
    -- the byte read is the next base 256 digit
    have hbyte : ((length >>> (8 * k)).toUInt8).toNat = length / 256 ^ k % 256 := by
      rw [Nat.shiftRight_eq_div_pow, Nat.pow_mul]
      simp
    have hdigit : length / 256 ^ k % 256 < 2 ^ 8 := Nat.mod_lt _ (by decide)
    have hvalue : (lengthValue * 2 ^ 8 + length / 256 ^ k % 256) * 256 ^ k + length % 256 ^ k =
        lengthValue * 256 ^ (k + 1) + length % 256 ^ (k + 1) := by
      rw [Nat.mod_pow_succ]
      ring
    have hsmall : lengthValue * 2 ^ 8 + length / 256 ^ k % 256 < 2 ^ 32 := by
      have hle := Nat.le_mul_of_pos_right
        (lengthValue * 2 ^ 8 + length / 256 ^ k % 256) (Nat.pow_pos (n := k) (a := 256) (by decide))
      omega
    simp only [hbyte, or_shift _ hdigit, Nat.mod_eq_of_lt hsmall]
    rw [ih (i + 1) (lengthValue * 2 ^ 8 + length / 256 ^ k % 256) ?_ (by omega), hvalue]
    intro j hj
    have hnext := hread (j + 1) (by omega)
    rw [bigEndian, List.getElem?_cons_succ] at hnext
    rw [← hnext]
    congr 1
    omega

theorem lt_lengthBytes {length : Nat} (lo : 128 ≤ length) (hi : length < 2 ^ 24) :
    length < 256 ^ (getLengthFieldSize length - 1) := by
  unfold getLengthFieldSize
  split_ifs <;> simp <;> omega

/-- `parse_length_field` undoes `write_length_field`, whatever follows the
field. -/
theorem parseLengthField_lengthField {m : Mem} {p length : Nat} (hi : length < 2 ^ 24)
    (hread : ∀ j, j < getLengthFieldSize length → m (p + j) = (lengthField length)[j]?) :
    parseLengthField m p = some length := by
  have hhead := hread 0 (getLengthFieldSize_pos length)
  rw [Nat.add_zero] at hhead
  unfold lengthField at hhead hread
  unfold parseLengthField
  by_cases h : length < 128
  · rw [if_pos h, List.getElem?_cons_zero] at hhead
    have hb : length.toUInt8.toNat = length := toNat_toUInt8 (by omega)
    have hz : length >>> 7 = 0 := by
      rw [Nat.shiftRight_eq_div_pow, Nat.div_eq_of_lt (by omega)]
    have hm : length &&& 127 = length := by
      rw [Nat.and_two_pow_sub_one_eq_mod length 7, Nat.mod_eq_of_lt (by omega)]
    simp only [hhead, hb, hz, hm, Nat.zero_and, if_true]
  · rw [if_neg h, List.getElem?_cons_zero] at hhead
    rw [if_neg h] at hread
    have hlt := lt_lengthBytes (Nat.le_of_not_lt h) hi
    have hsize : getLengthFieldSize length ≤ 4 := by
      unfold getLengthFieldSize
      split_ifs <;> omega
    -- the first byte keeps the number of length bytes below its top bit
    have hsz : 1 <<< 7 ||| (getLengthFieldSize length - 1) =
        128 + (getLengthFieldSize length - 1) := by
      rw [or_shift 1 (by omega)]
      omega
    have hb : (1 <<< 7 ||| (getLengthFieldSize length - 1)).toUInt8.toNat =
        128 + (getLengthFieldSize length - 1) := by
      rw [toNat_toUInt8 (by omega), hsz]
    have htop : (128 + (getLengthFieldSize length - 1)) >>> 7 &&& 1 = 1 := by
      rw [Nat.shiftRight_eq_div_pow, Nat.and_one_is_mod]
      omega
    have hlow : (128 + (getLengthFieldSize length - 1)) &&& 127 =
        getLengthFieldSize length - 1 := by
      rw [Nat.and_two_pow_sub_one_eq_mod _ 7]
      omega
    simp only [hhead, hb, htop, hlow]
    have hval : 0 * 256 ^ (getLengthFieldSize length - 1) +
        length % 256 ^ (getLengthFieldSize length - 1) = length := by
      rw [Nat.zero_mul, Nat.zero_add, Nat.mod_eq_of_lt hlt]
    rw [if_neg (by decide), parseLoop_bigEndian length _ 0 0 ?_ (by omega), hval]
    intro j hj
    have hnext := hread (j + 1) (by omega)
    rw [List.getElem?_cons_succ] at hnext
    rw [← hnext, Nat.zero_add]

end Tuxbox.Connection
