import Tuxbox.Lib.Walk

/-! The strings of the DVB standard: `CDVBString`, which is given a pointer and a
length, and turns the characters into UTF-8. For every character it reads the one
behind it as well. Main result: `dvbString_isSome`. -/
namespace Tuxbox.Sectionsd

open Buffer
open Parse (Starts)

inductive Encoding where
  | unknown
  | iso8859_5
  | iso8859_6
  | iso8859_7
  | iso8859_8
  | iso8859_9
  | iso6937
  deriving DecidableEq

def Encoding.ofByte (c : Byte) : Encoding :=
  if c = 1 then .iso8859_5
  else if c = 2 then .iso8859_6
  else if c = 3 then .iso8859_7
  else if c = 4 then .iso8859_8
  else if c = 5 then .iso8859_9
  else if c ≥ 0x20 then .iso6937
  else .unknown

/-- From 0xA8 on. -/
def iso6937Mapping : List Nat :=
  [0x00A4, 0x2018, 0x201C, 0x00AB, 0x2190, 0x2191, 0x2192, 0x2193, 0x00B0, 0x00B1, 0x00B2, 0x00B3,
    0x00D7, 0x00B5, 0x00B6, 0x00B7, 0x00F7, 0x2019, 0x201D]

/-- From 0xD0 on. -/
def iso6937Mapping2 : List Nat :=
  [0x2014, 0x00B9, 0x00AE, 0x00A9, 0x2122, 0x266A, 0x00AC, 0x00A6]

/-- From 0xDC on. -/
def iso6937Mapping3 : List Nat :=
  [0x215B, 0x215C, 0x215D, 0x215E, 0x2126, 0x00C6, 0x00D0, 0x00AA, 0x0126, 0x00E5, 0x0132, 0x013F,
    0x0141, 0x00D8, 0x0152, 0x00BA, 0x00DE, 0x0166, 0x014A, 0x0149, 0x0138, 0x00E6, 0x0111, 0x00F0,
    0x0127, 0x0131, 0x0133, 0x0140, 0x0142, 0x00F8, 0x0153, 0x00DF, 0x00FE, 0x0167, 0x014B, 0x00AD]

def iso8859_5Value (c : Byte) : Nat :=
  if c ≥ 0xA1 ∧ c ≠ 0xAD then
    if c = 0xF0 then 0x2116 else if c = 0xFD then 0x00A7 else c.toNat + (0x0401 - 0xA1)
  else c.toNat

def iso8859_9Value (c : Byte) : Nat :=
  if c = 0xD0 then 0x011E
  else if c = 0xDD then 0x0130
  else if c = 0xDE then 0x015E
  else if c = 0xF0 then 0x011F
  else if c = 0xFD then 0x0131
  else if c = 0xFE then 0x015F
  else c.toNat

/-- A letter with one of the accents 0xC1, 0xC2 and 0xC3. -/
def accented (accent letter : Byte) : Nat :=
  let adjust := (accent - 0xC1).toNat + (letter &&& 0x20).toNat
  let capital := letter &&& 0xDF
  if capital = 0x41 then 0x00C0 + adjust
  else if capital = 0x45 then 0x00C8 + adjust
  else if capital = 0x49 then 0x00CC + adjust
  else if capital = 0x4f then 0x00D2 + adjust
  else if capital = 0x55 then 0x00D9 + adjust
  else letter.toNat

/-- A byte that is the first of two. -/
def Doubled (encoding : Encoding) (c next : Byte) : Prop :=
  encoding = .iso6937 ∧ 0xC0 ≤ c ∧ c ≤ 0xCF ∧ next ≠ 0

instance (encoding : Encoding) (c next : Byte) : Decidable (Doubled encoding c next) :=
  inferInstanceAs (Decidable (_ ∧ _))

def iso6937Value (c next : Byte) : Nat :=
  if c ≥ 0xA8 ∧ c ≤ 0xBA then iso6937Mapping.getD (c - 0xA8).toNat 0
  else if c ≥ 0xD0 ∧ c ≤ 0xD7 then iso6937Mapping2.getD (c - 0xD0).toNat 0
  else if c ≥ 0xDC then iso6937Mapping3.getD (c - 0xDC).toNat 0
  else if Doubled .iso6937 c next then
    if c = 0xC1 ∨ c = 0xC2 ∨ c = 0xC3 then accented c next else next.toNat
  else c.toNat

def characterValue (encoding : Encoding) (c next : Byte) : Nat :=
  match encoding with
  | .iso8859_5 => iso8859_5Value c
  | .iso8859_9 => iso8859_9Value c
  | .iso6937 => iso6937Value c next
  | _ => c.toNat

/-- `XmlUtf8Encode` of a value below 0x10000. -/
def utf8 (value : Nat) : Str :=
  if value < 0x80 then [UInt8.ofNat value]
  else if value < 0x800 then
    [UInt8.ofNat (value >>> 6 ||| 0xc0), UInt8.ofNat (value &&& 0x3f ||| 0x80)]
  else [UInt8.ofNat (value >>> 12 ||| 0xe0), UInt8.ofNat (value >>> 6 &&& 0x3f ||| 0x80),
    UInt8.ofNat (value &&& 0x3f ||| 0x80)]

/-- 0x00 to 0x1F and 0x80 to 0x9F are skipped. -/
def Printed (c : Byte) : Prop := c &&& 0x60 ≠ 0

instance (c : Byte) : Decidable (Printed c) := inferInstanceAs (Decidable (_ ≠ _))

/-- Where the encoding information ends; `n` bytes are left. -/
def skipEncoding (buf : Str) : (n i : Nat) → Option Nat
  | 0, i => some i
  | n + 1, i => do
    let c ← read buf i
    if c ≥ 0x20 then pure i else skipEncoding buf n (i + 1)

def characterStep (encoding : Encoding) (buf : Str) (i : Nat) (content : Str) :
    Option (Nat × Str) := do
  let c ← read buf i
  if Printed c then
    let next ← read buf (i + 1)
    pure (if Doubled encoding c next then i + 2 else i + 1,
      content ++ utf8 (characterValue encoding c next))
  else pure (i + 1, content)

/-- `CDVBString(buf + i, n).getContent()`. -/
def dvbString (buf : Str) (i n : Nat) : Option Str :=
  if n = 0 then some []
  else do
    let first ← read buf i
    let start ← skipEncoding buf n i
    let r ← walk (characterStep (Encoding.ofByte first) buf) (i + n) start []
    pure r.2

/-! ## What is read -/

section
variable (buf : Str) (i n : Nat)

def startOf : (n i : Nat) → Nat
  | 0, i => i
  | n + 1, i => if buf.getD i 0 ≥ 0x20 then i else startOf n (i + 1)

def nextCharacter (encoding : Encoding) (j : Nat) : Nat :=
  if Printed (buf.getD j 0) ∧ Doubled encoding (buf.getD j 0) (buf.getD (j + 1) 0) then j + 2
  else j + 1

/-- The last byte is taken as a character of its own. -/
def EndsInCharacter : Prop :=
  Printed (buf.getD (i + n - 1) 0) ∧
    Starts (nextCharacter buf (Encoding.ofByte (buf.getD i 0))) (i + n) (startOf buf n i) (i + n - 1)

/-- A string is in the buffer, and so is the byte behind it where it ends in a character. -/
def StringFits : Prop := i + n ≤ buf.length ∧ (EndsInCharacter buf i n → i + n < buf.length)

variable {buf i n}

theorem startOf_range : i ≤ startOf buf n i ∧ startOf buf n i ≤ i + n := by
  induction n generalizing i with
  | zero => exact ⟨Nat.le_refl i, Nat.le_refl i⟩
  | succ n ih =>
    unfold startOf
    split
    · omega
    · have := ih (i := i + 1)
      omega

theorem skipEncoding_eq {k : Nat} : skipEncoding buf n i = some k ↔
    k = startOf buf n i ∧ ∀ j, i ≤ j → j < i + n → j ≤ startOf buf n i → j < buf.length := by
  induction n generalizing i with
  | zero =>
    unfold skipEncoding startOf
    rw [Option.some_inj, eq_comm]
    exact (and_iff_left fun j _ _ _ => by omega).symm
  | succ n ih =>
    unfold skipEncoding startOf
    rw [read_bind]
    split
    · constructor
      · rintro ⟨hi, hk⟩
        exact ⟨(Option.some_inj.mp hk).symm, fun j _ _ _ => by omega⟩
      · rintro ⟨rfl, hall⟩
        exact ⟨hall k (Nat.le_refl k) (by omega) (Nat.le_refl k), rfl⟩
    · rw [ih]
      have hrange : i + 1 ≤ startOf buf n (i + 1) ∧ startOf buf n (i + 1) ≤ i + 1 + n := startOf_range
      constructor
      · rintro ⟨hi, hk, hall⟩
        refine ⟨hk, fun j hij hj hle => ?_⟩
        rcases Nat.eq_or_lt_of_le hij with rfl | hlt
        · exact hi
        · exact hall j hlt (by omega) hle
      · rintro ⟨hk, hall⟩
        exact ⟨hall i (Nat.le_refl i) (by omega) (by omega), hk,
          fun j hij hj hle => hall j (by omega) (by omega) hle⟩

theorem lt_nextCharacter (encoding : Encoding) (j : Nat) : j < nextCharacter buf encoding j := by
  unfold nextCharacter
  split <;> omega

theorem characterStep_next {encoding : Encoding} {j : Nat} {content : Str} {r : Nat × Str}
    (h : characterStep encoding buf j content = some r) : r.1 = nextCharacter buf encoding j := by
  unfold characterStep at h
  obtain ⟨-, h⟩ := read_bind.mp h
  unfold nextCharacter
  split at h
  · rename_i hprinted
    obtain ⟨-, h⟩ := read_bind.mp h
    rw [← Option.some_inj.mp h]
    simp only [hprinted, true_and]
  · rename_i hskipped
    rw [← Option.some_inj.mp h]
    simp only [hskipped, false_and, if_false]

theorem characterStep_moves (encoding : Encoding) (buf : Str) (stop : Nat) :
    Moves (characterStep encoding buf) stop :=
  fun j content r _ h => by
    rw [characterStep_next h]
    exact lt_nextCharacter encoding j

theorem characterStep_isSome {encoding : Encoding} {j : Nat} {content : Str} :
    (∃ r, characterStep encoding buf j content = some r) ↔
      j < buf.length ∧ (Printed (buf.getD j 0) → j + 1 < buf.length) := by
  unfold characterStep
  rw [exists_read]
  apply and_congr_right
  intro _
  split
  · rename_i hprinted
    rw [exists_read]
    exact ⟨fun h _ => h.1, fun h => ⟨h hprinted, _, rfl⟩⟩
  · rename_i hskipped
    exact iff_of_true ⟨_, rfl⟩ fun h => absurd h hskipped

/-- Every byte belongs to a character that the loop comes to. -/
theorem starts_covers {next : Nat → Nat} {stop pos k : Nat} (hnext : ∀ j, j < next j) (hpos : pos ≤ k)
    (hk : k < stop) : ∃ j, Starts next stop pos j ∧ j ≤ k ∧ k < next j := by
  induction hm : stop - pos using Nat.strong_induction_on generalizing pos with
  | _ m ih =>
    have hmoved := hnext pos
    rcases Nat.lt_or_ge k (next pos) with hlt | hge
    · exact ⟨pos, .refl pos, hpos, hlt⟩
    · obtain ⟨j, hj, hjk, hkj⟩ := ih (stop - next pos) (by omega) hge rfl
      exact ⟨j, .head (by omega) hj, hjk, hkj⟩

/-- A string of some bytes can be built if and only if it is in the buffer, and the byte
behind it as well where that is read. -/
theorem dvbString_isSome (hn : n ≠ 0) :
    (∃ s, dvbString buf i n = some s) ↔ StringFits buf i n := by
  unfold dvbString
  rw [if_neg hn, exists_read, exists_bind]
  have hrange : i ≤ startOf buf n i ∧ startOf buf n i ≤ i + n := startOf_range
  have hwalk := walk_ends_iff (nextCharacter buf (Encoding.ofByte (buf.getD i 0)))
    (fun j => j < buf.length ∧ (Printed (buf.getD j 0) → j + 1 < buf.length))
    (characterStep_moves (Encoding.ofByte (buf.getD i 0)) buf (i + n))
    (fun j s r _ h => characterStep_next h) (fun j s _ => characterStep_isSome) (startOf buf n i) []
  constructor
  · rintro ⟨hfirst, k, hk, s, hs⟩
    obtain ⟨rfl, hskipped⟩ := skipEncoding_eq.mp hk
    obtain ⟨r, hr, -⟩ := Option.bind_eq_some_iff.mp hs
    have hall := hwalk.mp ⟨r, hr⟩
    constructor
    · rcases Nat.lt_or_ge (i + n - 1) (startOf buf n i) with hlt | hge
      · have := hskipped (i + n - 1) (by omega) (by omega) (by omega)
        omega
      · have hnext : ∀ j, j < nextCharacter buf (Encoding.ofByte (buf.getD i 0)) j :=
          lt_nextCharacter (Encoding.ofByte (buf.getD i 0))
        obtain ⟨j, hj, hjk, hkj⟩ := starts_covers hnext hge (show i + n - 1 < i + n by omega)
        obtain ⟨hlt, hbehind⟩ := hall j hj (by omega)
        unfold nextCharacter at hkj
        split at hkj
        · rename_i hdoubled
          have := hbehind hdoubled.1
          omega
        · omega
    · rintro ⟨hprinted, hlast⟩
      have := (hall _ hlast (by omega)).2 hprinted
      omega
  · rintro ⟨hfit, hlast⟩
    refine ⟨by omega, _, skipEncoding_eq.mpr ⟨rfl, fun j _ _ _ => by omega⟩, ?_⟩
    obtain ⟨r, hr⟩ := hwalk.mpr fun j hj hjs => by
      refine ⟨by omega, fun hprinted => ?_⟩
      rcases Nat.lt_or_ge (j + 1) (i + n) with hlt | hge
      · omega
      · obtain rfl : j = i + n - 1 := by omega
        have := hlast ⟨hprinted, hj⟩
        omega
    exact ⟨r.2, by rw [bind_of_some hr]; rfl⟩

/-! ## Copies -/

/-- `std::string(buf + i)`: up to the first zero byte. -/
def terminated (buf : Str) (i : Nat) : Option Str :=
  if 0 ∈ buf.drop i then some (cString (buf.drop i)) else none

/-- `CDVBString(("\x05" + std::string(buf + i)).c_str(), n + 1).getContent()`. -/
def copiedString (buf : Str) (i n : Nat) : Option Str := do
  let copy ← terminated buf i
  dvbString (0x05 :: (copy ++ [0])) 0 (n + 1)

/-- The text ends with a zero byte in the buffer, its last byte or one behind it. -/
def CopyFits (buf : Str) (i n : Nat) : Prop :=
  0 ∈ buf.drop i ∧ n ≤ (cString (buf.drop i)).length + 1

theorem copiedString_isSome {buf : Str} {i n : Nat} :
    (∃ s, copiedString buf i n = some s) ↔ CopyFits buf i n := by
  unfold copiedString terminated CopyFits
  split
  · rename_i hzero
    rw [bind_of_some rfl, dvbString_isSome (Nat.succ_ne_zero n), and_iff_right hzero]
    unfold StringFits
    simp only [List.length_cons, List.length_append, List.length_nil, Nat.zero_add]
    constructor
    · rintro ⟨h, -⟩
      omega
    · intro h
      refine ⟨by omega, ?_⟩
      rintro ⟨hprinted, -⟩
      -- a zero byte is no character
      by_contra hge
      have hn : n = (cString (buf.drop i)).length + 1 := by omega
      have hlast : (0x05 :: (cString (buf.drop i) ++ [0])).getD (0 + (n + 1) - 1) 0 = (0 : Byte) := by
        rw [hn]
        simp [List.getD]
      rw [hlast] at hprinted
      exact hprinted rfl
  · rename_i hzero
    exact iff_of_false (fun ⟨_, h⟩ => nomatch h) fun h => hzero h.1

end

end Tuxbox.Sectionsd
