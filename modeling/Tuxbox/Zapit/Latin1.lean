import Tuxbox.Lib.Bytes
import Tuxbox.Lib.Codec

/-! The conversion between Latin-1 and UTF-8 of zapit's tools. A pointer is the memory from
there on, in which a string ends with a zero byte. What is behind the memory cannot be read.

Main results: `utf8ToLatin1_encode`, what becomes of each character, and `converts_iff`. -/
namespace Tuxbox.ZapitTools

/-- `UTF8_to_Latin1`. -/
def utf8ToLatin1 : Str → Option Str
  | [] => none
  | c :: s =>
    if c = 0 then some []
    else if c &&& 0xf0 = 0xf0 then
      match s with
      | [] => none
      | d :: s =>
        if d = 0 then some []
        else match s with
          | [] => none
          | d :: s =>
            if d = 0 then some []
            else match s with
              | [] => none
              | d :: s => if d = 0 then some [] else utf8ToLatin1 s
    else if c &&& 0xe0 = 0xe0 then
      match s with
      | [] => none
      | d :: s =>
        if d = 0 then some []
        else match s with
          | [] => none
          | d :: s => if d = 0 then some [] else utf8ToLatin1 s
    else if c &&& 0xc0 = 0xc0 then
      match s with
      | [] => none
      | d :: s =>
        if d = 0 then some []
        else (utf8ToLatin1 s).map (((c &&& 3) <<< 6 ||| d &&& 0x3f) :: ·)
    else (utf8ToLatin1 s).map (c :: ·)

/-- `Latin1_to_UTF8`. -/
def latin1ToUtf8 : Str → Option Str
  | [] => none
  | c :: s =>
    if c = 0 then some []
    else if c < 0x80 then (latin1ToUtf8 s).map (c :: ·)
    else
      (latin1ToUtf8 s).map fun r => ((0xc0 : Byte) ||| c >>> 6) :: ((0x80 : Byte) ||| c &&& 0x3f) :: r

def terminated (s : Str) : Str := s ++ [0]

def encode (cs : List Char) : Str := cs.flatMap String.utf8EncodeChar

def ValidUtf8 (s : Str) : Prop := ∃ cs, s = encode cs

/-- The characters that Latin-1 has. -/
def latin1Part (cs : List Char) : Str :=
  (cs.filter fun c => c.toNat ≤ 0xff).map fun c => c.toNat.toUInt8

/-! ## Bytes -/

section
variable {c d e f : Byte} {s : Str}

theorem byte_masks : ∀ m ∈ [0xf0, 0xe0, 0xc0], ∀ n < 256, n &&& m = m ↔ m ≤ n := by
  decide +kernel

theorem mask_iff {m : Nat} (hm : m ∈ [0xf0, 0xe0, 0xc0]) (hlt : m < 256) (c : Byte) :
    c &&& m.toUInt8 = m.toUInt8 ↔ m ≤ c.toNat := by
  rw [← UInt8.toNat_inj, UInt8.toNat_and, toNat_toUInt8 hlt]
  exact byte_masks m hm _ c.toNat_lt

theorem four_iff (c : Byte) : c &&& 0xf0 = 0xf0 ↔ 0xf0 ≤ c.toNat :=
  mask_iff (m := 0xf0) (by decide) (by decide) c

theorem three_iff (c : Byte) : c &&& 0xe0 = 0xe0 ↔ 0xe0 ≤ c.toNat :=
  mask_iff (m := 0xe0) (by decide) (by decide) c

theorem two_iff (c : Byte) : c &&& 0xc0 = 0xc0 ↔ 0xc0 ≤ c.toNat :=
  mask_iff (m := 0xc0) (by decide) (by decide) c

theorem ne_zero_of_pos (h : 0 < c.toNat) : c ≠ 0 := by
  rintro rfl
  exact absurd h (by decide)

theorem one_byte (hc : 0 < c.toNat) (hlt : c.toNat < 0xc0) :
    utf8ToLatin1 (c :: s) = (utf8ToLatin1 s).map (c :: ·) := by
  have h4 : ¬ 0xf0 ≤ c.toNat := by omega
  have h3 : ¬ 0xe0 ≤ c.toNat := by omega
  have h2 : ¬ 0xc0 ≤ c.toNat := by omega
  rw [utf8ToLatin1.eq_def]
  simp only [ne_zero_of_pos hc, four_iff, three_iff, two_iff, h4, h3, h2, if_false]

theorem two_bytes (hc : 0xc0 ≤ c.toNat) (hlt : c.toNat < 0xe0) (hd : 0 < d.toNat) :
    utf8ToLatin1 (c :: d :: s) =
      (utf8ToLatin1 s).map (((c &&& 3) <<< 6 ||| d &&& 0x3f) :: ·) := by
  have h4 : ¬ 0xf0 ≤ c.toNat := by omega
  have h3 : ¬ 0xe0 ≤ c.toNat := by omega
  have h0 : c ≠ 0 := ne_zero_of_pos (by omega)
  rw [utf8ToLatin1.eq_def]
  simp only [h0, ne_zero_of_pos hd, four_iff, three_iff, two_iff, h4, h3, hc, if_false, if_true]

theorem three_bytes (hc : 0xe0 ≤ c.toNat) (hlt : c.toNat < 0xf0) (hd : 0 < d.toNat)
    (he : 0 < e.toNat) : utf8ToLatin1 (c :: d :: e :: s) = utf8ToLatin1 s := by
  have h4 : ¬ 0xf0 ≤ c.toNat := by omega
  have h0 : c ≠ 0 := ne_zero_of_pos (by omega)
  rw [utf8ToLatin1.eq_def]
  simp only [h0, ne_zero_of_pos hd, ne_zero_of_pos he, four_iff, three_iff, h4, hc, if_false,
    if_true]

theorem four_bytes (hc : 0xf0 ≤ c.toNat) (hd : 0 < d.toNat) (he : 0 < e.toNat) (hf : 0 < f.toNat) :
    utf8ToLatin1 (c :: d :: e :: f :: s) = utf8ToLatin1 s := by
  have h0 : c ≠ 0 := ne_zero_of_pos (by omega)
  rw [utf8ToLatin1.eq_def]
  simp only [h0, ne_zero_of_pos hd, ne_zero_of_pos he, ne_zero_of_pos hf, four_iff, hc, if_false,
    if_true]

/-- The two low bits of the first byte and the six of the second. -/
theorem joined_bits (c d : Byte) :
    ((c &&& 3) <<< 6 ||| d &&& 0x3f).toNat = c.toNat % 4 * 64 + d.toNat % 64 := by
  have h3 : (3 : UInt8).toNat = 2 ^ 2 - 1 := rfl
  have h6 : (6 : UInt8).toNat % 8 = 6 := rfl
  have h63 : (0x3f : UInt8).toNat = 2 ^ 6 - 1 := rfl
  rw [UInt8.toNat_or, UInt8.toNat_shiftLeft, UInt8.toNat_and, UInt8.toNat_and, h3, h6, h63,
    Nat.and_two_pow_sub_one_eq_mod, Nat.and_two_pow_sub_one_eq_mod,
    Nat.mod_eq_of_lt (by rw [Nat.shiftLeft_eq]; omega), or_shift _ (by omega)]
  rfl

end

/-! ## Characters -/

/-- What becomes of a character: those of two bytes lose the high bits. -/
def converted (c : Char) : Str := if c.toNat ≤ 0x7ff then [c.toNat.toUInt8] else []

theorem utf8ToLatin1_char {c : Char} (hc : c ≠ '\x00') (s : Str) :
    utf8ToLatin1 (String.utf8EncodeChar c ++ s) = (utf8ToLatin1 s).map (converted c ++ ·) := by
  have hpos : 0 < c.toNat := by
    refine Nat.pos_of_ne_zero fun h0 => hc ?_
    exact Char.toNat_inj.mp h0
  have hbyte : ∀ {n : Nat}, n < 256 → (UInt8.ofNat n).toNat = n := fun h => toNat_toUInt8 h
  have hnext : ∀ n : Nat, 0 < (UInt8.ofNat (n % 64 + 0x80)).toNat := by
    intro n
    rw [hbyte (by omega)]
    omega
  unfold String.utf8EncodeChar converted
  simp only [Char.toNat_val]
  split
  · rename_i h1
    have hc := hbyte (n := c.toNat) (by omega)
    rw [if_pos (by omega)]
    exact one_byte (by omega) (by omega)
  split
  · have hc := hbyte (n := c.toNat / 64 % 32 + 0xc0) (by omega)
    have hd := hbyte (n := c.toNat % 64 + 0x80) (by omega)
    refine (two_bytes (by omega) (by omega) (hnext _)).trans ?_
    have hjoined : ((UInt8.ofNat (c.toNat / 64 % 32 + 0xc0) &&& 3) <<< 6 |||
        UInt8.ofNat (c.toNat % 64 + 0x80) &&& 0x3f) = c.toNat.toUInt8 := by
      rw [← UInt8.toNat_inj, joined_bits, hc, hd, Nat.toUInt8, UInt8.toNat_ofNat']
      omega
    rw [hjoined]
    rfl
  split
  · have hc := hbyte (n := c.toNat / 4096 % 16 + 0xe0) (by omega)
    refine (three_bytes (by omega) (by omega) (hnext _) (hnext _)).trans ?_
    exact Option.map_id'.symm
  · have hc := hbyte (n := c.toNat / 262144 % 8 + 0xf0) (by omega)
    refine (four_bytes (by omega) (hnext _) (hnext _) (hnext _)).trans ?_
    exact Option.map_id'.symm

theorem encode_cons (c : Char) (cs : List Char) :
    encode (c :: cs) = String.utf8EncodeChar c ++ encode cs :=
  List.flatMap_cons

/-- Every character on its own. -/
theorem utf8ToLatin1_encode {cs : List Char} (hcs : '\x00' ∉ cs) :
    utf8ToLatin1 (terminated (encode cs)) = some (cs.flatMap converted) := by
  induction cs with
  | nil => rfl
  | cons c cs ih =>
    rw [terminated, encode_cons, List.append_assoc,
      utf8ToLatin1_char fun h => hcs (h ▸ List.mem_cons_self)]
    change (utf8ToLatin1 (terminated (encode cs))).map _ = _
    rw [ih fun h => hcs (List.mem_cons_of_mem c h)]
    rfl

/-- The characters of two bytes that Latin-1 does not have. -/
def mistaken (cs : List Char) : List Char :=
  cs.filter fun c => 0xff < c.toNat ∧ c.toNat ≤ 0x7ff

theorem length_converted (cs : List Char) :
    (cs.flatMap converted).length = (latin1Part cs).length + (mistaken cs).length := by
  induction cs with
  | nil => rfl
  | cons c cs ih =>
    rw [List.flatMap_cons, List.length_append, ih]
    unfold latin1Part mistaken converted
    rw [List.filter_cons, List.filter_cons]
    by_cases h1 : c.toNat ≤ 0xff
    · have h2 : c.toNat ≤ 0x7ff := by omega
      simp [h1, h2, Nat.not_lt.mpr h1]
      omega
    · by_cases h2 : c.toNat ≤ 0x7ff
      · simp [h1, h2, Nat.lt_of_not_le h1]
        omega
      · simp [h1, h2]

theorem flatMap_converted_eq_iff (cs : List Char) :
    cs.flatMap converted = latin1Part cs ↔ ∀ c ∈ cs, c.toNat ≤ 0x7ff → c.toNat ≤ 0xff := by
  constructor
  · intro h c hc h2
    have hlen := length_converted cs
    rw [h, Nat.left_eq_add, List.length_eq_zero_iff, mistaken, List.filter_eq_nil_iff] at hlen
    have hnot := hlen c hc
    rw [decide_eq_true_eq] at hnot
    omega
  · intro h
    induction cs with
    | nil => rfl
    | cons c cs ih =>
      have hc := h c List.mem_cons_self
      rw [List.flatMap_cons, ih fun d hd => h d (List.mem_cons_of_mem c hd)]
      unfold latin1Part converted
      rw [List.filter_cons]
      by_cases h2 : c.toNat ≤ 0x7ff
      · simp [h2, hc h2]
      · have h1 : ¬ c.toNat ≤ 0xff := by omega
        simp [h2, h1]

/-! ## From Latin-1 -/

def fromByte (b : Byte) : Char :=
  ⟨b.toUInt32, .inl (Nat.lt_trans (UInt8.toNat_toUInt32 b ▸ b.toNat_lt) (by decide))⟩

theorem fromByte_toNat (b : Byte) : (fromByte b).toNat = b.toNat := UInt8.toNat_toUInt32 b

theorem first_byte (b : Byte) :
    (0xc0 : Byte) ||| b >>> 6 = UInt8.ofNat (b.toNat / 64 % 32 + 0xc0) := by
  have hlt := b.toNat_lt
  have hhigh : b.toNat / 64 < 2 ^ 6 := by omega
  have hor : 0xc0 + b.toNat / 64 = 0xc0 ||| b.toNat / 64 := Nat.two_pow_add_eq_or_of_lt hhigh 3
  refine UInt8.toNat_inj.mp ?_
  rw [UInt8.toNat_or, UInt8.toNat_shiftRight, UInt8.toNat_ofNat']
  change 0xc0 ||| b.toNat >>> 6 = _
  rw [Nat.shiftRight_eq_div_pow, ← hor]
  omega

theorem second_byte (b : Byte) :
    (0x80 : Byte) ||| b &&& 0x3f = UInt8.ofNat (b.toNat % 64 + 0x80) := by
  have hlow : b.toNat % 64 < 2 ^ 7 := by omega
  have hor : 0x80 + b.toNat % 64 = 0x80 ||| b.toNat % 64 := Nat.two_pow_add_eq_or_of_lt hlow 1
  refine UInt8.toNat_inj.mp ?_
  rw [UInt8.toNat_or, UInt8.toNat_and, UInt8.toNat_ofNat']
  change 0x80 ||| b.toNat &&& (2 ^ 6 - 1) = _
  rw [Nat.and_two_pow_sub_one_eq_mod, ← hor]
  omega

theorem latin1ToUtf8_eq {s : Str} (hs : (0 : Byte) ∉ s) :
    latin1ToUtf8 (terminated s) = some (encode (s.map fromByte)) := by
  induction s with
  | nil => rfl
  | cons b s ih =>
    have hb : b ≠ 0 := fun h => hs (h ▸ List.mem_cons_self)
    have ih := ih fun h => hs (List.mem_cons_of_mem b h)
    rw [List.map_cons, encode_cons]
    change latin1ToUtf8 (b :: terminated s) = _
    rw [latin1ToUtf8, if_neg hb, ih]
    have hlt := b.toNat_lt
    unfold String.utf8EncodeChar
    simp only [Char.toNat_val, fromByte_toNat]
    by_cases h1 : b < 0x80
    · have h1' : b.toNat ≤ 0x7f := Nat.le_of_lt_succ (UInt8.lt_iff_toNat_lt.mp h1)
      rw [if_pos h1, if_pos h1', UInt8.ofNat_toNat]
      rfl
    · have h1' : ¬ b.toNat ≤ 0x7f := fun h => h1 (UInt8.lt_iff_toNat_lt.mpr (Nat.lt_succ_of_le h))
      rw [if_neg h1, if_neg h1', if_pos (by omega), first_byte, second_byte]
      rfl

theorem latin1Part_fromByte (s : Str) : latin1Part (s.map fromByte) = s := by
  induction s with
  | nil => rfl
  | cons b s ih =>
    have hb := b.toNat_lt
    unfold latin1Part at ih ⊢
    rw [List.map_cons, List.filter_cons, fromByte_toNat, decide_eq_true (by omega), if_pos rfl,
      List.map_cons, ih, fromByte_toNat]
    exact congrArg (· :: s) (UInt8.ofNat_toNat)

/-! ## Within the string -/

theorem zero_behind {c : Byte} {s : Str} (hc : ¬ c = 0) (h : (0 : Byte) ∈ c :: s) :
    (0 : Byte) ∈ s :=
  (List.mem_cons.mp h).resolve_left fun h0 => hc h0.symm

/-- No step goes over a zero byte. -/
theorem utf8ToLatin1_inside {m : Str} (hm : (0 : Byte) ∈ m) : ∃ r, utf8ToLatin1 m = some r := by
  fun_induction utf8ToLatin1 m with
  | case1 => exact absurd hm List.not_mem_nil
  | case3 | case10 | case15 => exact absurd (zero_behind ‹_› hm) List.not_mem_nil
  | case5 | case12 => exact absurd (zero_behind ‹_› (zero_behind ‹_› hm)) List.not_mem_nil
  | case7 =>
    exact absurd (zero_behind ‹_› (zero_behind ‹_› (zero_behind ‹_› hm))) List.not_mem_nil
  | case2 | case4 | case6 | case8 | case11 | case13 | case16 => exact ⟨[], rfl⟩
  | case9 =>
    rename_i ih
    exact ih (zero_behind ‹_› (zero_behind ‹_› (zero_behind ‹_› (zero_behind ‹_› hm))))
  | case14 =>
    rename_i ih
    exact ih (zero_behind ‹_› (zero_behind ‹_› (zero_behind ‹_› hm)))
  | case17 =>
    rename_i ih
    obtain ⟨r, hr⟩ := ih (zero_behind ‹_› (zero_behind ‹_› hm))
    exact ⟨_, by rw [hr]; rfl⟩
  | case18 =>
    rename_i ih
    obtain ⟨r, hr⟩ := ih (zero_behind ‹_› hm)
    exact ⟨_, by rw [hr]; rfl⟩

/-! ## The tools -/

/-- A Latin-1 string, a list of characters and any string at all. -/
structure Converts (s : Str) (cs : List Char) (b : Str) : Prop where
  roundTrip : ∃ u, latin1ToUtf8 (terminated s) = some u ∧ ValidUtf8 u ∧
    utf8ToLatin1 (terminated u) = some s
  latin1 : utf8ToLatin1 (terminated (encode cs)) = some (latin1Part cs)
  inside : ∃ r, utf8ToLatin1 (terminated (cString b)) = some r

theorem roundTrip {s : Str} (hs : (0 : Byte) ∉ s) : ∃ u, latin1ToUtf8 (terminated s) = some u ∧
    ValidUtf8 u ∧ utf8ToLatin1 (terminated u) = some s := by
  have hmap : '\x00' ∉ s.map fromByte := by
    intro h
    obtain ⟨b, hb, h0⟩ := List.mem_map.mp h
    have hb0 : b.toNat = (0 : Byte).toNat := (fromByte_toNat b).symm.trans (congrArg Char.toNat h0)
    exact hs (UInt8.toNat_inj.mp hb0 ▸ hb)
  refine ⟨_, latin1ToUtf8_eq hs, ⟨_, rfl⟩, ?_⟩
  rw [utf8ToLatin1_encode hmap, (flatMap_converted_eq_iff _).mpr, latin1Part_fromByte]
  intro c hc _
  obtain ⟨b, -, rfl⟩ := List.mem_map.mp hc
  have := b.toNat_lt
  rw [fromByte_toNat]
  omega

/-- What comes out is right exactly if no character of two bytes is beyond Latin-1. -/
theorem converts_iff {s : Str} {cs : List Char} {b : Str} (hs : (0 : Byte) ∉ s)
    (hcs : '\x00' ∉ cs) :
    Converts s cs b ↔ ∀ c ∈ cs, c.toNat ≤ 0x7ff → c.toNat ≤ 0xff := by
  rw [← flatMap_converted_eq_iff]
  have heq := utf8ToLatin1_encode hcs
  constructor
  · intro h
    exact Option.some_inj.mp (heq.symm.trans h.latin1)
  · intro h
    refine ⟨roundTrip hs, heq.trans (congrArg some h), utf8ToLatin1_inside ?_⟩
    exact List.mem_append_right _ List.mem_cons_self

theorem converts_iff_sample : Converts [0xe4] ['ä'] [0xf0] ↔
    ∀ c ∈ ['ä'], c.toNat ≤ 0x7ff → c.toNat ≤ 0xff :=
  converts_iff (by decide) (by decide)

/-- The letter U+0141 becomes an `A`. -/
theorem latin1_wrong_letter : ¬ ∀ (s : Str) (cs : List Char) (b : Str), (0 : Byte) ∉ s →
    '\x00' ∉ cs → Converts s cs b := by
  intro h
  have hconverts := h [] ['\u0141'] [] (by decide) (by decide)
  have hletter : utf8ToLatin1 (terminated (encode ['\u0141'])) = some [0x41] := by decide
  exact absurd (hletter.symm.trans hconverts.latin1) (by decide)

end Tuxbox.ZapitTools
