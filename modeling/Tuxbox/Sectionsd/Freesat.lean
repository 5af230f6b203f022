import Tuxbox.Lib.BitWindow
import Tuxbox.Lib.Walk

/-! The texts of Freesat: every character has a code that depends on the one before it. The
decoder stops where the next 32 bits are zero.

Main result: `decodes_iff`. -/
namespace Tuxbox.Sectionsd.SIsectionEIT

open Bits

/-! ## The decoder -/

/-- `START` is the character in front of the first one, `STOP` the one behind the last. -/
def START : Byte := 0
def STOP : Byte := 0
def ESCAPE : Byte := 1

structure Hufftab where
  last : Byte
  value : BitVec 32
  bits : Nat
  next : Byte
deriving DecidableEq

/-- The mask of a code, and the bit below it. -/
def maskFor : Nat → BitVec 32 × BitVec 32
  | 0 => (0, 0x80000000)
  | kk + 1 => ((maskFor kk).1 ||| (maskFor kk).2, (maskFor kk).2 >>> 1)

structure Decoder where
  value : BitVec 32
  byte : Nat
  bit : Nat
  lastch : Byte
  uncompressed : Str

/-- The first bytes behind the header, at most `n` of them. -/
def fillValue (src : Str) : (n byte : Nat) → BitVec 32 → BitVec 32 × Nat
  | 0, byte, value => (value, byte)
  | n + 1, byte, value =>
    if h : byte < src.length then
      fillValue src n (byte + 1) (value ||| BitVec.ofNat 32 src[byte].toNat <<< ((5 - byte) * 8))
    else (value, byte)

/-- The bit that comes in, if there is one. -/
def nextBit (src : Str) (s : Decoder) : BitVec 32 :=
  if h : s.byte < src.length then BitVec.ofNat 32 src[s.byte].toNat >>> (7 - s.bit) &&& 1 else 0

/-- One turn of the loop that shifts. -/
def shiftOne (src : Str) (s : Decoder) : Decoder :=
  { s with
    value := s.value <<< 1 &&& 0xfffffffe ||| nextBit src s
    bit := if s.bit = 7 then 0 else s.bit + 1
    byte := if s.bit = 7 then s.byte + 1 else s.byte }

def shift (src : Str) : Nat → Decoder → Decoder
  | 0, s => s
  | b + 1, s => shift src b (shiftOne src s)

/-- The first entry for the last character whose code is next. -/
def findEntry (table : List Hufftab) (s : Decoder) : Option Hufftab :=
  table.find? fun e => e.last = s.lastch ∧ s.value &&& (maskFor e.bits).1 = e.value

/-- One character, with the number of its bits. -/
def decodeStep (table : List Hufftab) (s : Decoder) : Option (Nat × Decoder) :=
  if s.lastch = ESCAPE then
    let nextCh : Byte := UInt8.ofNat (s.value >>> 24).toNat
    -- up to the first ASCII character
    some (8, { s with
      lastch := if nextCh &&& 0x80 = 0 then nextCh else s.lastch
      uncompressed := s.uncompressed ++ [nextCh] })
  else
    (findEntry table s).map fun e =>
      (e.bits, { s with
        lastch := e.next
        uncompressed :=
          if e.next ≠ STOP ∧ e.next ≠ ESCAPE then s.uncompressed ++ [e.next] else s.uncompressed })

def decodeLoop (table : List Hufftab) (src : Str) : (fuel : Nat) → Decoder → Option Str
  | 0, _ => none
  | fuel + 1, s =>
    match decodeStep table s with
    | none => some (s.uncompressed ++ [46, 46, 46])
    | some (bitShift, s) =>
      let s := shift src bitShift s
      if s.lastch ≠ STOP ∧ s.value ≠ 0 then decodeLoop table src fuel s
      else some s.uncompressed

def huffmanTable (fsatHuffman1 fsatHuffman2 : List Hufftab) (selector : Byte) : List Hufftab :=
  if selector = 1 then fsatHuffman1 else fsatHuffman2

/-- Behind the string there is a zero byte. -/
def freesatHuffmanDecode (fsatHuffman1 fsatHuffman2 : List Hufftab) (fuel : Nat) (input : Str) :
    Option Str := do
  let selector ← Buffer.read (input ++ [0]) 1
  if selector = 1 ∨ selector = 2 then
    let start := fillValue input 4 2 0
    decodeLoop (huffmanTable fsatHuffman1 fsatHuffman2 selector) input fuel
      ⟨start.1, start.2, 0, START, []⟩
  else some (input.drop 2)

/-! ## Texts and their codes -/

namespace Hufftab

/-- The bits of the code, the first one first. -/
def code (e : Hufftab) : List Bool := topBits e.value e.bits

/-- A code of one to 32 bits at the upper end of the value. -/
structure Aligned (e : Hufftab) : Prop where
  pos : 0 < e.bits
  le : e.bits ≤ 32
  value : e.value &&& topMask 32 e.bits = e.value

end Hufftab

/-- What a table must be like. -/
structure IsTable (table : List Hufftab) : Prop where
  aligned : ∀ e ∈ table, e.Aligned
  prefixFree : ∀ e ∈ table, ∀ f ∈ table, e.last = f.last → e.code <+: f.code → e = f

/-- `STOP` and `ESCAPE` are no characters. -/
def IsText (text : Str) : Prop := ∀ c ∈ text, c ≠ STOP ∧ c ≠ ESCAPE

section
variable (table : List Hufftab)

/-- The code of a character behind another one. -/
def codeFor (last next : Byte) : Option (List Bool) :=
  (table.find? fun e => e.last = last ∧ e.next = next).map Hufftab.code

def byteBits (c : Byte) : List Bool := (List.range 8).map c.toBitVec.getMsbD

/-- What comes behind a byte that was sent as it is. -/
def afterRaw (c : Byte) : Byte := if c &&& 0x80 = 0 then c else ESCAPE

/-- The bits of a character, and the context of the one behind it. -/
def encodeChar (last c : Byte) : Option (List Bool × Byte) :=
  if last = ESCAPE then some (byteBits c, afterRaw c)
  else
    match codeFor table last c with
    | some code => some (code, c)
    | none => (codeFor table last ESCAPE).map fun code => (code ++ byteBits c, afterRaw c)

/-- A text and `STOP`. -/
def encode : (last : Byte) → Str → Option (List Bool)
  | last, [] => if last = ESCAPE then some (byteBits STOP) else codeFor table last STOP
  | last, c :: text => do
    let (bits, next) ← encodeChar table last c
    let rest ← encode next text
    pure (bits ++ rest)

/-- The bytes have these bits, and zeros up to the last byte's end. -/
structure Padded (bits : List Bool) (data : Str) : Prop where
  length : data.length = (bits.length + 7) / 8
  bits : ∀ i, bitAt data i = ofList bits i

/-- There is no one among the next 32 bits. -/
def Hidden (last : Byte) (text : Str) : Prop :=
  ∀ i < 32, ofList ((encode table last text).getD []) i = false

instance (last : Byte) (text : Str) : Decidable (Hidden table last text) :=
  inferInstanceAs (Decidable (∀ i < 32, _))

/-- Behind each character but the last one something can be seen of the rest. -/
def Visible : (last : Byte) → Str → Prop
  | _, [] => True
  | last, c :: text =>
    match encodeChar table last c with
    | none => True
    | some (_, next) => (text ≠ [] → ¬ Hidden table next text) ∧ Visible next text

/-- What is decoded of a text. -/
def shown : (last : Byte) → Str → Str
  | _, [] => []
  | last, c :: text =>
    match encodeChar table last c with
    | none => c :: text
    | some (_, next) => c :: if text ≠ [] ∧ Hidden table next text then [] else shown next text

end

/-! ## Shifting -/

section
variable {src : Str} {s : Decoder} {stream : Nat → Bool}

/-- The decoder has the stream before it: 32 bits in its word, the others in the input. -/
structure At (src : Str) (s : Decoder) (stream : Nat → Bool) : Prop where
  window : Window s.value stream
  bit : s.bit < 8
  ahead : ∀ i, bitAt src (8 * s.byte + s.bit + i) = stream (32 + i)

theorem ofNat_getMsbD (b : Byte) (i : Nat) :
    (BitVec.ofNat 32 b.toNat).getMsbD i = (decide (24 ≤ i) && b.toBitVec.getMsbD (i - 24)) := by
  have hwide : BitVec.ofNat 32 b.toNat = b.toBitVec.setWidth 32 := by
    apply BitVec.eq_of_toNat_eq
    simp
  rw [hwide, BitVec.getMsbD_setWidth, show i + 8 - 32 = i - 24 by omega]

/-- The bit that comes in. -/
theorem nextBit_eq (h : s.bit < 8) : nextBit src s =
    BitVec.setWidth 32 (BitVec.ofBool (bitAt src (8 * s.byte + s.bit))) := by
  have hdiv : (8 * s.byte + s.bit) / 8 = s.byte := by omega
  have hmod : (8 * s.byte + s.bit) % 8 = s.bit := by omega
  unfold nextBit bitAt
  rw [hdiv, hmod]
  split
  · rename_i hbyte
    have hone : ∀ i, BitVec.getMsbD (1 : BitVec 32) i = decide (i = 31) := fun i => by
      rw [show (1 : BitVec 32) = 1#32 from rfl, BitVec.getMsbD_one]
      simp
    rw [List.getD_eq_getElem _ _ hbyte]
    apply BitVec.eq_of_getMsbD_eq
    intro i hi
    rw [BitVec.getMsbD_and, BitVec.getMsbD_ushiftRight, ofNat_getMsbD, BitVec.getMsbD_setWidth,
      BitVec.getMsbD_ofBool, hone]
    by_cases hlast : i = 31
    · subst hlast
      have hplace : 31 - (7 - s.bit) - 24 = s.bit := by omega
      have hinside : ¬ 31 < 7 - s.bit ∧ 24 ≤ 31 - (7 - s.bit) := by omega
      simp [hplace, hinside]
    · have hbelow : ¬ 32 - 1 ≤ i := by omega
      simp [hlast, hbelow]
  · rename_i hbyte
    rw [List.getD_eq_default _ _ (by omega)]
    simp

theorem At.shiftOne (h : At src s stream) : At src (shiftOne src s) fun i => stream (i + 1) := by
  have hmask : ∀ i < 32, (0xfffffffe : BitVec 32).getLsbD i = decide (0 < i) := by decide
  have hstep : s.value <<< 1 &&& (0xfffffffe : BitVec 32) = s.value <<< 1 := by
    apply BitVec.eq_of_getLsbD_eq
    intro i hi
    rw [BitVec.getLsbD_and, BitVec.getLsbD_shiftLeft, hmask i hi]
    cases i with
    | zero => simp
    | succ i => simp
  have hin : bitAt src (8 * s.byte + s.bit) = stream 32 := h.ahead 0
  refine ⟨?_, ?_, ?_⟩
  · unfold SIsectionEIT.shiftOne
    rw [hstep, nextBit_eq h.bit]
    exact h.window.shift (by decide) hin
  · unfold SIsectionEIT.shiftOne
    have := h.bit
    dsimp only
    split <;> omega
  · intro i
    have hahead := h.ahead (i + 1)
    rw [show 32 + i + 1 = 32 + (i + 1) by omega, ← hahead]
    unfold SIsectionEIT.shiftOne
    dsimp only
    congr 1
    split <;> omega

theorem At.shift (h : At src s stream) (n : Nat) :
    At src (shift src n s) (fun i => stream (n + i)) ∧ (shift src n s).lastch = s.lastch ∧
      (shift src n s).uncompressed = s.uncompressed := by
  induction n generalizing s stream with
  | zero =>
    simp only [Nat.zero_add]
    exact ⟨h, rfl, rfl⟩
  | succ n ih =>
    obtain ⟨hat, hlast, hout⟩ := ih h.shiftOne
    refine ⟨?_, hlast, hout⟩
    change At src (SIsectionEIT.shift src n (SIsectionEIT.shiftOne src s)) _
    simpa only [Nat.add_right_comm] using hat

/-- The bytes that are there when the loop begins. -/
theorem fillValue_spec {n byte : Nat} {value : BitVec 32} (hn : byte + n = 6) (hbyte : 2 ≤ byte)
    (hvalue : ∀ i < 32, value.getMsbD i = (decide (i < 8 * (byte - 2)) && bitAt src (16 + i))) :
    Window (fillValue src n byte value).1 (fun i => bitAt src (16 + i)) ∧
      ((fillValue src n byte value).2 = 6 ∨
        (fillValue src n byte value).2 ≤ 6 ∧ src.length ≤ (fillValue src n byte value).2) := by
  induction n generalizing byte value with
  | zero =>
    obtain rfl : byte = 6 := by omega
    refine ⟨fun i hi => ?_, .inl rfl⟩
    rw [fillValue, hvalue i hi, decide_eq_true (by omega), Bool.true_and]
  | succ n ih =>
    unfold fillValue
    split
    · rename_i hlt
      apply ih (by omega) (by omega)
      intro i hi
      have hbit : 8 * (byte - 2) ≤ i → i < 8 * (byte + 1 - 2) →
          bitAt src (16 + i) = src[byte].toBitVec.getMsbD (i - 8 * (byte - 2)) := by
        intro hlow hhigh
        unfold bitAt
        rw [show (16 + i) / 8 = byte by omega, show (16 + i) % 8 = i - 8 * (byte - 2) by omega,
          List.getD_eq_getElem _ _ hlt]
      rw [BitVec.getMsbD_or, BitVec.getMsbD_shiftLeft, ofNat_getMsbD, hvalue i hi]
      rcases Nat.lt_or_ge i (8 * (byte - 2)) with hbefore | hfrom
      · have hout : ¬ 24 ≤ i + (5 - byte) * 8 := by omega
        rw [decide_eq_true hbefore, decide_eq_false hout, decide_eq_true (by omega)]
        simp
      · rw [decide_eq_false (by omega), decide_eq_true (by omega : 24 ≤ i + (5 - byte) * 8),
          Bool.false_and, Bool.false_or, Bool.true_and,
          show i + (5 - byte) * 8 - 24 = i - 8 * (byte - 2) by omega]
        rcases Nat.lt_or_ge i (8 * (byte + 1 - 2)) with hin | hbehind
        · rw [decide_eq_true hin, hbit hfrom hin, Bool.true_and]
        · rw [decide_eq_false (by omega), BitVec.getMsbD_of_ge _ _ (by omega), Bool.false_and]
    · rename_i hge
      refine ⟨fun i hi => ?_, .inr ⟨by omega, by omega⟩⟩
      rw [hvalue i hi]
      rcases Nat.lt_or_ge i (8 * (byte - 2)) with hin | hbehind
      · rw [decide_eq_true hin, Bool.true_and]
      · rw [decide_eq_false (by omega), Bool.false_and]
        exact (bitAt_of_le (by omega)).symm

theorem at_start (src : Str) : At src
    ⟨(fillValue src 4 2 0).1, (fillValue src 4 2 0).2, 0, START, []⟩
    fun i => bitAt src (16 + i) := by
  obtain ⟨hwindow, hplace⟩ := @fillValue_spec src 4 2 0 rfl (Nat.le_refl 2) fun i _ => by simp
  refine ⟨hwindow, Nat.zero_lt_succ 7, fun i => ?_⟩
  dsimp only
  rcases hplace with h6 | ⟨hle, hend⟩
  · rw [h6]
    congr 1
    omega
  · rw [bitAt_of_le (by omega), bitAt_of_le (by omega)]

end

/-! ## Characters -/

section
variable {table : List Hufftab} {src : Str} {s : Decoder} {last c : Byte} {bits rest : List Bool}

theorem highBit_getMsbD (i : Nat) : (0x80000000#32).getMsbD i = decide (i = 0) := by
  have hall : ∀ j < 32, (0x80000000#32).getMsbD j = decide (j = 0) := by decide
  rcases Nat.lt_or_ge i 32 with hlt | hge
  · exact hall i hlt
  · rw [BitVec.getMsbD_of_ge _ _ hge, decide_eq_false (by omega)]

theorem maskFor_eq {n : Nat} (hn : n ≤ 32) :
    (maskFor n).1 = topMask 32 n ∧ (maskFor n).2 = 0x80000000#32 >>> n := by
  induction n with
  | zero => exact ⟨by decide, by decide⟩
  | succ n ih =>
    obtain ⟨hmask, hbit⟩ := ih (by omega)
    refine ⟨?_, ?_⟩
    · rw [maskFor, hmask, hbit]
      apply BitVec.eq_of_getMsbD_eq
      intro i hi
      rw [BitVec.getMsbD_or, topMask_getMsbD (by omega), topMask_getMsbD hn,
        BitVec.getMsbD_ushiftRight, highBit_getMsbD, decide_eq_true hi, Bool.true_and]
      rcases Nat.lt_trichotomy i n with hlt | rfl | hgt
      · have hsucc : i < n + 1 := by omega
        simp [hlt, hsucc]
      · simp
      · have hbehind : ¬ i < n ∧ ¬ i - n = 0 ∧ ¬ i < n + 1 := by omega
        simp [hbehind]
    · rw [maskFor, hbit, BitVec.shiftRight_add]

theorem code_length (e : Hufftab) : e.code.length = e.bits := topBits_length _ _

/-- An entry matches if and only if its code is next. -/
theorem matches_iff {stream : Nat → Bool} (hat : At src s stream) {e : Hufftab} (he : e.Aligned) :
    s.value &&& (maskFor e.bits).1 = e.value ↔ StartsWith stream e.code := by
  rw [(maskFor_eq he.le).1]
  exact hat.window.starts_iff he.le he.value

/-- Of two codes that are next one is the front of the other. -/
theorem prefix_of_starts {stream : Nat → Bool} {a b : List Bool} (ha : StartsWith stream a)
    (hb : StartsWith stream b) (h : a.length ≤ b.length) : a <+: b := by
  rw [List.prefix_iff_eq_take]
  apply List.ext_getElem
  · rw [List.length_take, Nat.min_eq_left h]
  · intro i hi _
    have heq := (ha i hi).symm.trans (hb i (by omega))
    unfold ofList at heq
    rw [List.getD_eq_getElem _ _ hi, List.getD_eq_getElem _ _ (by omega)] at heq
    rw [heq, List.getElem_take]

/-- The entry whose code is next is found. -/
theorem findEntry_eq (htable : IsTable table) {e : Hufftab} (he : e ∈ table)
    (hat : At src s (ofList (e.code ++ rest))) (hlast : e.last = s.lastch) :
    findEntry table s = some e := by
  have hstarts : StartsWith (ofList (e.code ++ rest)) e.code := startsWith_append _ _
  have hmatch := (matches_iff hat (htable.aligned e he)).mpr hstarts
  cases hfind : findEntry table s with
  | none =>
    have hnone := List.find?_eq_none.mp hfind e he
    exact absurd (decide_eq_true ⟨hlast, hmatch⟩) hnone
  | some f =>
    have hf : f ∈ table := List.mem_of_find?_eq_some hfind
    have hcond := List.find?_some hfind
    obtain ⟨hflast, hfmatch⟩ := of_decide_eq_true hcond
    have hfstarts := (matches_iff hat (htable.aligned f hf)).mp hfmatch
    have hsame : e.last = f.last := hlast.trans hflast.symm
    rcases Nat.le_total e.code.length f.code.length with hle | hle
    · rw [htable.prefixFree e he f hf hsame (prefix_of_starts hstarts hfstarts hle)]
    · rw [htable.prefixFree f hf e he hsame.symm (prefix_of_starts hfstarts hstarts hle)]

theorem codeFor_some {next : Byte} (h : codeFor table last next = some bits) :
    ∃ e ∈ table, e.last = last ∧ e.next = next ∧ e.code = bits := by
  obtain ⟨e, he, hcode⟩ := Option.map_eq_some_iff.mp h
  have hcond := List.find?_some he
  obtain ⟨hlast, hnext⟩ := of_decide_eq_true hcond
  exact ⟨e, List.mem_of_find?_eq_some he, hlast, hnext, hcode⟩

/-- What is before the decoder behind some bits. -/
theorem At.behind (hat : At src s (ofList (bits ++ rest))) :
    At src (SIsectionEIT.shift src bits.length s) (ofList rest) := by
  have h := (hat.shift bits.length).1
  simpa only [ofList_append] using h

theorem byteBits_length (c : Byte) : (byteBits c).length = 8 := by simp [byteBits]

theorem ofList_byteBits {i : Nat} (hi : i < 8) :
    ofList (byteBits c ++ rest) i = c.toBitVec.getMsbD i := by
  have hlen : i < (byteBits c).length := by rwa [byteBits_length]
  rw [startsWith_append (byteBits c) rest i hlen]
  simp [ofList, byteBits, List.getD, hi]

/-- The byte that is next. -/
theorem topByte_eq (hat : At src s (ofList (byteBits c ++ rest))) :
    UInt8.ofNat (s.value >>> 24).toNat = c := by
  have hbits : (s.value >>> 24).setWidth 8 = c.toBitVec := by
    apply BitVec.eq_of_getMsbD_eq
    intro i hi
    rw [BitVec.getMsbD_setWidth, BitVec.getMsbD_ushiftRight, show i + 32 - 8 - 24 = i by omega,
      hat.window i (by omega), ofList_byteBits hi, decide_eq_true (by omega),
      decide_eq_true (by omega), decide_eq_false (by omega)]
    rfl
  have hbyte : UInt8.ofNat (s.value >>> 24).toNat =
      UInt8.ofBitVec ((s.value >>> 24).setWidth 8) := rfl
  rw [hbyte, hbits]

/-- A byte that is sent as it is. -/
theorem decodeStep_raw (hlast : s.lastch = ESCAPE)
    (hat : At src s (ofList (byteBits c ++ rest))) : decodeStep table s =
      some (8, { s with lastch := afterRaw c, uncompressed := s.uncompressed ++ [c] }) := by
  unfold decodeStep afterRaw
  rw [if_pos hlast, topByte_eq hat, hlast]

theorem decodeStep_code (htable : IsTable table) (hlast : s.lastch ≠ ESCAPE)
    (hcode : codeFor table s.lastch c = some bits) (hat : At src s (ofList (bits ++ rest))) :
    decodeStep table s = some (bits.length, { s with
      lastch := c
      uncompressed := if c ≠ STOP ∧ c ≠ ESCAPE then s.uncompressed ++ [c] else s.uncompressed }) := by
  obtain ⟨e, he, hel, rfl, rfl⟩ := codeFor_some hcode
  unfold decodeStep
  rw [if_neg hlast, findEntry_eq htable he hat hel, code_length]
  rfl

/-! ## Texts -/

/-- With enough turns the loop comes to this result. -/
def Ends (table : List Hufftab) (src : Str) (s : Decoder) (r : Str) : Prop :=
  ∃ n, ∀ fuel ≥ n, decodeLoop table src fuel s = some r

theorem ends_of_step {k : Nat} {s' : Decoder} {r : Str} (hstep : decodeStep table s = some (k, s'))
    (h : if (SIsectionEIT.shift src k s').lastch ≠ STOP ∧ (SIsectionEIT.shift src k s').value ≠ 0
      then Ends table src (SIsectionEIT.shift src k s') r
      else (SIsectionEIT.shift src k s').uncompressed = r) : Ends table src s r := by
  split at h
  · rename_i hgoes
    obtain ⟨n, hn⟩ := h
    refine ⟨n + 1, fun fuel hfuel => ?_⟩
    obtain ⟨fuel, rfl⟩ : ∃ m, fuel = m + 1 := ⟨fuel - 1, by omega⟩
    unfold decodeLoop
    simp only [hstep]
    rw [if_pos hgoes]
    exact hn fuel (by omega)
  · rename_i hends
    refine ⟨1, fun fuel hfuel => ?_⟩
    obtain ⟨fuel, rfl⟩ : ∃ m, fuel = m + 1 := ⟨fuel - 1, by omega⟩
    unfold decodeLoop
    simp only [hstep]
    rw [if_neg hends, h]

theorem value_eq_zero_iff {text : Str} (hat : At src s (ofList rest))
    (henc : encode table last text = some rest) : s.value = 0 ↔ Hidden table last text := by
  unfold Hidden
  rw [henc]
  exact hat.window.eq_zero_iff

/-- Behind `ESCAPE` the code of `STOP` cannot be seen. -/
theorem hidden_stop : Hidden table ESCAPE [] := by
  unfold Hidden encode
  rw [if_pos rfl]
  decide

/-- What there is to do behind a character. -/
theorem behind_char {text out : Str} (hat : At src s (ofList rest))
    (henc : encode table s.lastch text = some rest) (hlast : s.lastch ≠ STOP)
    (hout : s.uncompressed = out ++ [c])
    (ih : (text = [] → s.lastch ≠ ESCAPE) →
      Ends table src s (s.uncompressed ++ shown table s.lastch text)) :
    if s.lastch ≠ STOP ∧ s.value ≠ 0 then
      Ends table src s (out ++ c ::
        if text ≠ [] ∧ Hidden table s.lastch text then [] else shown table s.lastch text)
    else s.uncompressed = out ++ c ::
        if text ≠ [] ∧ Hidden table s.lastch text then [] else shown table s.lastch text := by
  have hzero := value_eq_zero_iff hat henc
  split
  · rename_i hgoes
    have hseen : ¬ Hidden table s.lastch text := fun hh => hgoes.2 (hzero.mpr hh)
    have hends := ih fun htext hesc => by
      rw [htext, hesc] at hseen
      exact hseen hidden_stop
    rwa [if_neg fun h => hseen h.2, ← List.singleton_append, ← List.append_assoc, ← hout]
  · rename_i hstops
    have hhidden : Hidden table s.lastch text := by
      by_contra hseen
      exact hstops ⟨hlast, fun hv => hseen (hzero.mp hv)⟩
    rw [hout]
    cases text with
    | nil => simp [shown]
    | cons d text => simp [hhidden]

theorem afterRaw_ne_stop (hc : c ≠ STOP) : afterRaw c ≠ STOP := by
  unfold afterRaw
  split
  · exact hc
  · decide

theorem At.of_same {s' : Decoder} {stream : Nat → Bool} (hat : At src s stream)
    (hvalue : s'.value = s.value) (hbyte : s'.byte = s.byte) (hbit : s'.bit = s.bit) :
    At src s' stream :=
  ⟨hvalue ▸ hat.window, hbit ▸ hat.bit, by rw [hbyte, hbit]; exact hat.ahead⟩

/-- The decoder behind a code. -/
theorem behind_code (s' : Decoder) (hat : At src s (ofList (bits ++ rest)))
    (hvalue : s'.value = s.value) (hbyte : s'.byte = s.byte) (hbit : s'.bit = s.bit) :
    At src (SIsectionEIT.shift src bits.length s') (ofList rest) ∧
      (SIsectionEIT.shift src bits.length s').lastch = s'.lastch ∧
      (SIsectionEIT.shift src bits.length s').uncompressed = s'.uncompressed := by
  have hat' := hat.of_same hvalue hbyte hbit
  exact ⟨hat'.behind, (hat'.shift bits.length).2⟩

/-- What has to be shown for the text behind a character. -/
def Continues (table : List Hufftab) (src text : Str) : Prop :=
  ∀ (s : Decoder) (bits : List Bool), encode table s.lastch text = some bits →
    At src s (ofList bits) → (text = [] → s.lastch ≠ ESCAPE) →
      Ends table src s (s.uncompressed ++ shown table s.lastch text)

/-- A byte that is sent as it is, and the text behind it. -/
theorem ends_raw {text : Str} (hlast : s.lastch = ESCAPE) (hc : c ≠ STOP)
    (hat : At src s (ofList (byteBits c ++ rest)))
    (henc : encode table (afterRaw c) text = some rest) (ih : Continues table src text) :
    Ends table src s (s.uncompressed ++ c ::
      if text ≠ [] ∧ Hidden table (afterRaw c) text then [] else shown table (afterRaw c) text) := by
  obtain ⟨hat', hlast', hout⟩ := behind_code
    { s with lastch := afterRaw c, uncompressed := s.uncompressed ++ [c] } hat rfl rfl rfl
  rw [byteBits_length] at hat' hlast' hout
  refine ends_of_step (decodeStep_raw hlast hat) ?_
  have hnext := behind_char hat' (hlast' ▸ henc) (hlast' ▸ afterRaw_ne_stop hc) hout
    (ih _ _ (hlast' ▸ henc) hat')
  rwa [hlast'] at hnext ⊢

/-- There is a one among the bits of a byte. -/
theorem byteBits_seen (hc : c ≠ STOP) (hat : At src s (ofList (byteBits c ++ rest))) :
    s.value ≠ 0 := by
  intro hzero
  have hbits := hat.window.eq_zero_iff.mp hzero
  apply hc
  apply UInt8.toBitVec_inj.mp
  apply BitVec.eq_of_getMsbD_eq
  intro i hi
  have hbit : ofList (byteBits c ++ rest) i = c.toBitVec.getMsbD i := ofList_byteBits hi
  rw [← hbit, hbits i (by omega)]
  exact BitVec.getMsbD_zero.symm

/-- From each character on, what is shown of the text is decoded. -/
theorem ends_shown (htable : IsTable table) {text : Str} (htext : IsText text) :
    Continues table src text := by
  induction text with
  | nil =>
    intro s bits henc hat hend
    unfold encode at henc
    rw [if_neg (hend rfl)] at henc
    rw [← List.append_nil bits] at hat
    refine ends_of_step (decodeStep_code htable (hend rfl) henc hat) ?_
    obtain ⟨-, hlast, hout⟩ := behind_code
      { s with lastch := STOP, uncompressed := s.uncompressed } hat rfl rfl rfl
    have hstops : ¬ (STOP ≠ STOP ∧ STOP ≠ ESCAPE) := fun h => h.1 rfl
    simp only [hstops, if_false, hlast, hout, shown, List.append_nil]
    simp
  | cons c text ih =>
    obtain ⟨hc, htext⟩ := List.forall_mem_cons.mp htext
    intro s bits henc hat hend
    have hcont := ih htext
    unfold encode at henc
    obtain ⟨⟨cb, next⟩, hchar, henc⟩ := Option.bind_eq_some_iff.mp henc
    obtain ⟨rest, hrest, henc⟩ := Option.bind_eq_some_iff.mp henc
    obtain rfl := Option.some_inj.mp henc
    unfold shown
    rw [hchar]
    dsimp only
    unfold encodeChar at hchar
    split at hchar
    · rename_i hesc
      obtain ⟨rfl, rfl⟩ := Prod.mk.inj (Option.some_inj.mp hchar)
      exact ends_raw hesc hc.1 hat hrest hcont
    · rename_i hlast
      split at hchar
      · rename_i code hcode
        obtain ⟨rfl, rfl⟩ := Prod.mk.inj (Option.some_inj.mp hchar)
        refine ends_of_step (decodeStep_code htable hlast hcode hat) ?_
        rw [if_pos hc]
        obtain ⟨hat', hlast', hout⟩ := behind_code
          { s with lastch := c, uncompressed := s.uncompressed ++ [c] } hat rfl rfl rfl
        have hnext := behind_char hat' (hlast' ▸ hrest) (hlast' ▸ hc.1) hout
          (hcont _ _ (hlast' ▸ hrest) hat')
        rwa [hlast'] at hnext ⊢
      · obtain ⟨code, hcode, heq⟩ := Option.map_eq_some_iff.mp hchar
        obtain ⟨rfl, rfl⟩ := Prod.mk.inj heq
        rw [List.append_assoc] at hat
        refine ends_of_step (decodeStep_code htable hlast hcode hat) ?_
        have hsame : ¬ (ESCAPE ≠ STOP ∧ ESCAPE ≠ ESCAPE) := fun h => h.2 rfl
        simp only [hsame, if_false]
        obtain ⟨hat', hlast', hout⟩ := behind_code
          { s with lastch := ESCAPE, uncompressed := s.uncompressed } hat rfl rfl rfl
        have hgoes : ESCAPE ≠ STOP := by decide
        rw [if_pos ⟨hlast' ▸ hgoes, byteBits_seen hc.1 hat'⟩]
        have hraw := ends_raw hlast' hc.1 hat' hrest hcont
        rwa [hout] at hraw

end

/-! ## The whole string -/

section
variable {table : List Hufftab} {text : Str} {last : Byte}

/-- The whole text is shown if and only if it can be seen. -/
theorem shown_eq_iff : shown table last text = text ↔ Visible table last text := by
  induction text generalizing last with
  | nil => exact iff_of_true rfl trivial
  | cons c text ih =>
    unfold shown Visible
    cases hchar : encodeChar table last c with
    | none => simp
    | some p =>
      obtain ⟨bits, next⟩ := p
      simp only [List.cons.injEq, true_and]
      split
      · rename_i hhidden
        exact iff_of_false (fun h => hhidden.1 h.symm) fun h => h.1 hhidden.1 hhidden.2
      · rename_i hseen
        rw [ih]
        exact ⟨fun h => ⟨fun htext hh => hseen ⟨htext, hh⟩, h⟩, fun h => h.2⟩

end

section
variable {fsatHuffman1 fsatHuffman2 : List Hufftab} {selector : Byte} {text data : Str}
  {bits : List Bool}

theorem huffmanTable_isTable (h1 : IsTable fsatHuffman1) (h2 : IsTable fsatHuffman2) :
    IsTable (huffmanTable fsatHuffman1 fsatHuffman2 selector) := by
  unfold huffmanTable
  split
  · exact h1
  · exact h2

/-- With enough turns what is shown of the text is decoded. -/
theorem decode_ends (h1 : IsTable fsatHuffman1) (h2 : IsTable fsatHuffman2)
    (hselector : selector = 1 ∨ selector = 2) (htext : IsText text)
    (henc : encode (huffmanTable fsatHuffman1 fsatHuffman2 selector) START text = some bits)
    (hdata : Padded bits data) (header : Byte) :
    ∃ n, ∀ fuel ≥ n, freesatHuffmanDecode fsatHuffman1 fsatHuffman2 fuel
      (header :: selector :: data) =
        some (shown (huffmanTable fsatHuffman1 fsatHuffman2 selector) START text) := by
  have hat := at_start (header :: selector :: data)
  have hstream : (fun i => bitAt (header :: selector :: data) (16 + i)) = ofList bits := by
    funext i
    rw [← hdata.bits i]
    unfold bitAt
    rw [show (16 + i) / 8 = i / 8 + 2 by omega, show (16 + i) % 8 = i % 8 by omega]
    rfl
  rw [hstream] at hat
  have hstart : text = [] → START ≠ ESCAPE := fun _ => by decide
  obtain ⟨n, hn⟩ := ends_shown (huffmanTable_isTable h1 h2) htext _ _ henc hat hstart
  refine ⟨n, fun fuel hfuel => ?_⟩
  have hread : Buffer.read ((header :: selector :: data) ++ [0]) 1 = some selector := rfl
  unfold freesatHuffmanDecode
  rw [hread, Option.bind_eq_bind, Option.bind_some, if_pos hselector]
  exact hn fuel hfuel

end

/-- A text is decoded if and only if the rest behind each of its characters can be seen: there is
a one among its first 32 bits. -/
theorem decodes_iff {fsatHuffman1 fsatHuffman2 : List Hufftab} {selector : Byte} {text data : Str}
    {bits : List Bool} (h1 : IsTable fsatHuffman1) (h2 : IsTable fsatHuffman2)
    (hselector : selector = 1 ∨ selector = 2) (htext : IsText text)
    (henc : encode (huffmanTable fsatHuffman1 fsatHuffman2 selector) START text = some bits)
    (hdata : Padded bits data) (header : Byte) :
    (∃ n, ∀ fuel ≥ n, freesatHuffmanDecode fsatHuffman1 fsatHuffman2 fuel
      (header :: selector :: data) = some text) ↔
      Visible (huffmanTable fsatHuffman1 fsatHuffman2 selector) START text := by
  obtain ⟨n, hn⟩ := decode_ends h1 h2 hselector htext henc hdata header
  rw [← shown_eq_iff]
  constructor
  · rintro ⟨m, hm⟩
    have hshown := hn (max n m) (Nat.le_max_left n m)
    rw [hm (max n m) (Nat.le_max_right n m)] at hshown
    exact (Option.some_inj.mp hshown).symm
  · intro hshown
    rw [hshown] at hn
    exact ⟨n, hn⟩

/-- Some of the codes of the first table. -/
def sampleTable : List Hufftab :=
  [⟨START, 0, 2, 84⟩, ⟨84, 0, 1, 104⟩, ⟨104, 0, 1, 101⟩, ⟨101, 0, 3, 115⟩, ⟨115, 0, 4, 115⟩,
    ⟨115, 0xc0000000, 2, STOP⟩]

theorem sampleTable_isTable : IsTable sampleTable := by
  have hpos : ∀ e ∈ sampleTable, 0 < e.bits := by decide
  have hle : ∀ e ∈ sampleTable, e.bits ≤ 32 := by decide
  have hvalue : ∀ e ∈ sampleTable, e.value &&& topMask 32 e.bits = e.value := by decide
  exact ⟨fun e he => ⟨hpos e he, hle e he, hvalue e he⟩, by decide⟩

theorem padded_of_lt {bits : List Bool} {data : Str} (hlen : data.length = (bits.length + 7) / 8)
    (hbits : ∀ i < 8 * data.length, bitAt data i = ofList bits i) : Padded bits data := by
  refine ⟨hlen, fun i => ?_⟩
  rcases Nat.lt_or_ge i (8 * data.length) with hlt | hge
  · exact hbits i hlt
  · rw [bitAt_of_le (by omega), ofList, List.getD_eq_default _ _ (by omega)]

theorem encode_thes :
    encode sampleTable START [84, 104, 101, 115] = some (List.replicate 7 false ++ [true, true]) := by
  decide

/-- "Thes". -/
theorem decodes_iff_sample : (∃ n, ∀ fuel ≥ n, freesatHuffmanDecode sampleTable sampleTable fuel
    [0x1f, 1, 1, 0x80] = some [84, 104, 101, 115]) ↔
      Visible (huffmanTable sampleTable sampleTable 1) START [84, 104, 101, 115] :=
  decodes_iff sampleTable_isTable sampleTable_isTable (.inl rfl) (by simp [IsText, STOP, ESCAPE])
    encode_thes (padded_of_lt (by decide) (by decide)) 0x1f

/-- Behind the "T" of "Thessssssss" there are 32 zeros. -/
theorem decodes_counterexample : ∃ bits : List Bool, IsTable sampleTable ∧
    IsText [84, 104, 101, 115, 115, 115, 115, 115, 115, 115, 115] ∧
    encode sampleTable START [84, 104, 101, 115, 115, 115, 115, 115, 115, 115, 115] = some bits ∧
    Padded bits [0, 0, 0, 0, 0x18] ∧
    ∀ fuel, freesatHuffmanDecode sampleTable sampleTable (fuel + 1)
      [0x1f, 1, 0, 0, 0, 0, 0x18] = some [84] :=
  ⟨List.replicate 35 false ++ [true, true], sampleTable_isTable, by simp [IsText, STOP, ESCAPE],
    by decide, padded_of_lt (by decide) (by decide), fun _ => rfl⟩

end Tuxbox.Sectionsd.SIsectionEIT
