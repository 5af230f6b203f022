import Tuxbox.Enigma.TextTables

/-!
# Conversions of DVB text

`convertDVBUTF8` writes the text of an event as UTF-8, `convertUTF8DVB` goes back,
and `isUTF8` guesses whether a string is UTF-8 already.

* `convert_safe`: what is read, what is written, and that it is UTF-8;
-/

namespace Tuxbox.Enigma.Text

/-! ## From DVB to UTF-8 -/

/-- `TransponderDefaultMapping` and `TransponderUseTwoCharMapping`. -/
structure Transponders where
  defaultMapping : Int → Option Int
  useTwoCharMapping : Int → Bool

/-- What `convertDVBUTF8` is given: `data` with `len` bytes and anything behind them. -/
structure Input where
  data : Nat → Byte
  len : Nat
  table : Int
  tsidonid : Int

/-- The table of the transponder, if it has one. -/
def Input.defaultTable (e : Transponders) (x : Input) : Int :=
  if x.tsidonid ≠ 0 then (e.defaultMapping x.tsidonid).getD x.table else x.table

/-- Where the text starts, the table it is in, and the places that are read for that. -/
def prefixOf (data : Nat → Byte) (table : Int) : Nat × Int × List Nat :=
  let d := data 0
  if 1 ≤ d ∧ d ≤ 12 then (1, d.toNat + 4, [0])
  -- the two bytes are read without asking for `len`
  else if d = 0x10 then (3, ((data 1).toNat <<< 8 ||| (data 2).toNat : Nat), [0, 1, 2])
  else if d < 0x20 then (1, table, [0])
  else (0, table, [0])

/-- Unicode->UTF8 encoding; nothing for 0. -/
def utf8 (code : Nat) : Str :=
  if code = 0 then []
  else if code < 0x80 then [code.toUInt8]
  else if code < 0x800 then [(code >>> 6 ||| 0xC0).toUInt8, (code &&& 0x3F ||| 0x80).toUInt8]
  else if code < 0x10000 then
    [(code >>> 12 ||| 0xE0).toUInt8, ((code >>> 6) &&& 0x3F ||| 0x80).toUInt8,
      (code &&& 0x3F ||| 0x80).toUInt8]
  else
    [(code >>> 18 ||| 0xF0).toUInt8, ((code >>> 12) &&& 0x3F ||| 0x80).toUInt8,
      ((code >>> 6) &&& 0x3F ||| 0x80).toUInt8, (code &&& 0x3F ||| 0x80).toUInt8]

/-- The character at `i`, where the next one starts, and the places that are read. -/
def codeAt (e : Transponders) (x : Input) (table : Int) (i : Nat) : Nat × Nat × List Nat :=
  if i + 1 < x.len ∧ x.tsidonid ≠ 0 ∧ e.useTwoCharMapping x.tsidonid then
    let code := doVideoTexSuppl (x.data i) (x.data (i + 1))
    if code ≠ 0 then (code, i + 2, [i, i + 1])
    else (recode (x.data i) table, i + 1, [i, i + 1, i])
  else (recode (x.data i) table, i + 1, [i])

theorem codeAt_next (e : Transponders) (x : Input) (table : Int) (i : Nat) :
    i < (codeAt e x table i).2.1 := by
  unfold codeAt
  dsimp only
  split_ifs
  · exact Nat.lt_add_of_pos_right (Nat.succ_pos 1)
  · exact Nat.lt_succ_self i
  · exact Nat.lt_succ_self i

/-- The loop. `res` is written from its start on: its length is `t`. -/
def convertLoop (e : Transponders) (x : Input) (table : Int) (i : Nat) (res : Str) :
    Str × List Nat :=
  if i < x.len then
    let c := codeAt e x table i
    let res' := res ++ utf8 c.1
    if c.1 ≠ 0 ∧ 2047 < res'.length + 4 then (res', c.2.2)
    else
      let rest := convertLoop e x table c.2.1 res'
      (rest.1, c.2.2 ++ rest.2)
  else (res, [])
termination_by x.len - i
decreasing_by
  have := codeAt_next e x table i
  omega

/-- The result and the places of `data` that are read. -/
def convertDVBUTF8 (e : Transponders) (x : Input) : Str × List Nat :=
  if x.len = 0 then ([], [])
  else
    let p := prefixOf x.data (x.defaultTable e)
    let r := convertLoop e x p.2.1 p.1 []
    (r.1, p.2.2 ++ r.2)

/-! ## From UTF-8 to DVB -/

/-- A byte from 0x80 on and the one behind it; `none` is `eFatal`. -/
def decodePair (table : Int) (c1 c2 : Byte) : Option Byte :=
  let c := (c1 &&& 0x3F).toNat <<< 6 + (c2 &&& 0x3F).toNat
  if table = 0 ∨ table = 1 ∨ c1 < 0xA0 then some c.toUInt8
  else
    match codingTable table with
    | none => none
    | some t =>
      match t.findIdx? (· = c) with
      | some j => some (0xA0 + j).toUInt8
      | none => some c.toUInt8

def convertUTF8DVB (table : Int) : Str → Option Str
  | [] => some []
  | [c1] =>
    -- behind the last character there is a NUL
    if c1 < 0x80 then some [c1] else (decodePair table c1 0).map ([·])
  | c1 :: c2 :: s =>
    if c1 < 0x80 then (convertUTF8DVB table (c2 :: s)).map (c1 :: ·)
    else (decodePair table c1 c2).bind fun c => (convertUTF8DVB table s).map (c :: ·)

/-! ## The guess -/

def isContinuation (c : Byte) : Bool := c &&& 0xC0 = 0x80

/-- The result from `i` on, and the places that are read. A string has a NUL at its length. -/
def isUTF8From (s : Str) (i : Nat) : Bool × List Nat :=
  if i < s.length then
    let c := s.getD i 0
    if c &&& 0x80 = 0 then
      let rest := isUTF8From s (i + 1)
      (rest.1, i :: rest.2)
    else if c &&& 0xE0 = 0xC0 then
      if s.length ≤ i + 1 then (false, [i])
      else if isContinuation (s.getD (i + 1) 0) then
        let rest := isUTF8From s (i + 2)
        (rest.1, i :: (i + 1) :: rest.2)
      else (false, [i, i + 1])
    else if c &&& 0xF0 = 0xE0 then
      if s.length ≤ i + 1 then (false, [i])
      else if isContinuation (s.getD (i + 1) 0) then
        if isContinuation (s.getD (i + 2) 0) then
          let rest := isUTF8From s (i + 3)
          (rest.1, i :: (i + 1) :: (i + 2) :: rest.2)
        else (false, [i, i + 1, i + 2])
      else (false, [i, i + 1])
    else
      let rest := isUTF8From s (i + 1)
      (rest.1, i :: rest.2)
  else (true, [])
termination_by s.length - i

def isUTF8 (s : Str) : Bool := (isUTF8From s 0).1

/-! ## UTF-8 as it is defined -/

/-- The encoding of some characters. -/
def IsUtf8 (s : Str) : Prop := ∃ cs : List Char, s = cs.flatMap String.utf8EncodeChar

theorem isUtf8_nil : IsUtf8 [] := ⟨[], rfl⟩

theorem IsUtf8.append {s t : Str} (hs : IsUtf8 s) (ht : IsUtf8 t) : IsUtf8 (s ++ t) := by
  obtain ⟨cs, rfl⟩ := hs
  obtain ⟨ds, rfl⟩ := ht
  exact ⟨cs ++ ds, List.flatMap_append.symm⟩

theorem low_bits (n : Nat) : n &&& 0x3F = n % 64 := Nat.and_two_pow_sub_one_eq_mod n 6

theorem or_continuation (n : Nat) : n % 64 ||| 0x80 = n % 64 + 0x80 := by
  have hall : ∀ x < 64, x ||| 0x80 = x + 0x80 := by decide
  exact hall _ (Nat.mod_lt _ (by decide))

theorem utf8_two {code : Nat} (hlow : 0x80 ≤ code) (hhigh : code < 0x800) :
    utf8 code = [(code / 64 + 0xC0).toUInt8, (code % 64 + 0x80).toUInt8] := by
  have hall : ∀ x < 32, x ||| 0xC0 = x + 0xC0 := by decide
  have hlead : code >>> 6 ||| 0xC0 = code / 64 + 0xC0 := by
    rw [Nat.shiftRight_eq_div_pow]
    exact hall _ (by omega)
  rw [utf8, if_neg (by omega), if_neg (by omega), if_pos hhigh, hlead, low_bits, or_continuation]

theorem utf8_three {code : Nat} (hlow : 0x800 ≤ code) (hhigh : code < 0x10000) :
    utf8 code = [(code / 4096 + 0xE0).toUInt8, (code / 64 % 64 + 0x80).toUInt8,
      (code % 64 + 0x80).toUInt8] := by
  have hall : ∀ x < 16, x ||| 0xE0 = x + 0xE0 := by decide
  have hlead : code >>> 12 ||| 0xE0 = code / 4096 + 0xE0 := by
    rw [Nat.shiftRight_eq_div_pow]
    exact hall _ (by omega)
  rw [utf8, if_neg (by omega), if_neg (by omega), if_neg (by omega), if_pos hhigh, hlead, low_bits,
    low_bits, or_continuation, or_continuation, Nat.shiftRight_eq_div_pow]

/-- What is written for a character is its encoding. -/
theorem utf8_isUtf8 {code : Nat} (h : code < 0xD800 ∨ 0xDFFF < code ∧ code < 0x10000) :
    IsUtf8 (utf8 code) := by
  rcases Nat.eq_zero_or_pos code with rfl | hpos
  · exact isUtf8_nil
  have hvalid : code.isValidChar := by
    unfold Nat.isValidChar
    omega
  let c := Char.ofNatAux code hvalid
  have hval : c.val.toNat = code := rfl
  refine ⟨[c], ?_⟩
  rw [List.flatMap_cons, List.flatMap_nil, List.append_nil, String.utf8EncodeChar]
  simp only [hval]
  by_cases h1 : code < 0x80
  · rw [utf8, if_neg (by omega), if_pos h1, if_pos (by omega)]
  rw [if_neg (by omega)]
  by_cases h2 : code < 0x800
  · rw [utf8_two (by omega) h2, if_pos (by omega), Nat.mod_eq_of_lt (show code / 64 < 32 by omega)]
  · rw [utf8_three (by omega) (by omega), if_neg (by omega), if_pos (by omega),
      Nat.mod_eq_of_lt (show code / 4096 < 16 by omega)]

theorem length_utf8 (code : Nat) : (utf8 code).length ≤ 4 := by
  unfold utf8
  split_ifs <;> simp

/-! ## What is read and written -/

theorem codeAt_spec (e : Transponders) (x : Input) (table : Int) {i : Nat} (hi : i < x.len) :
    ((codeAt e x table i).1 < 0xD800 ∨
      0xDFFF < (codeAt e x table i).1 ∧ (codeAt e x table i).1 < 0x10000) ∧
    ∀ k ∈ (codeAt e x table i).2.2, k < x.len := by
  have hrecode := recode_scalar (x.data i) table
  have hsuppl := doVideoTexSuppl_lt (x.data i) (x.data (i + 1))
  unfold codeAt
  dsimp only
  split
  · rename_i hnext
    split
    · exact ⟨.inl (by omega), by simp; omega⟩
    · exact ⟨hrecode, by simp; omega⟩
  · exact ⟨hrecode, by simpa using hi⟩

theorem convertLoop_safe (e : Transponders) (x : Input) (table : Int) (i : Nat) (res : Str)
    (hres : IsUtf8 res) (hroom : res.length + 4 ≤ 2047) :
    IsUtf8 (convertLoop e x table i res).1 ∧ (convertLoop e x table i res).1.length ≤ 2048 ∧
      ∀ k ∈ (convertLoop e x table i res).2, k < x.len := by
  induction i, res using convertLoop.induct e x table with
  | case1 i res hi c res' hfull =>
    obtain ⟨hcode, hreads⟩ := codeAt_spec e x table hi
    have hlen : (res ++ utf8 c.1).length ≤ 2048 := by
      have := length_utf8 c.1
      rw [List.length_append]
      omega
    rw [convertLoop, if_pos hi]
    simp only
    rw [if_pos hfull]
    exact ⟨hres.append (utf8_isUtf8 hcode), hlen, hreads⟩
  | case2 i res hi c res' hroom' ih =>
    obtain ⟨hcode, hreads⟩ := codeAt_spec e x table hi
    have hres' : IsUtf8 res' := hres.append (utf8_isUtf8 hcode)
    have hroom'' : res'.length + 4 ≤ 2047 := by
      by_cases hzero : c.1 = 0
      · have hnil : utf8 c.1 = [] := by rw [hzero]; rfl
        simp only [res', hnil, List.append_nil]
        exact hroom
      · by_contra hlong
        exact hroom' ⟨hzero, by omega⟩
    obtain ⟨hutf8, hlength, hlater⟩ := ih hres' hroom''
    rw [convertLoop, if_pos hi]
    simp only
    rw [if_neg hroom']
    refine ⟨hutf8, hlength, fun k hk => ?_⟩
    rcases List.mem_append.mp hk with hk | hk
    · exact hreads k hk
    · exact hlater k hk
  | case3 i res hi =>
    have hlen : res.length ≤ 2048 := by omega
    rw [convertLoop, if_neg hi]
    exact ⟨hres, hlen, by simp⟩

/-- Reading stays inside the text, but for the long prefix of a text that ends within it. -/
theorem convertDVBUTF8_safe (e : Transponders) (x : Input) :
    ((∀ k ∈ (convertDVBUTF8 e x).2, k < x.len) ↔
      ¬ (x.data 0 = 0x10 ∧ (x.len = 1 ∨ x.len = 2))) ∧
    (convertDVBUTF8 e x).1.length ≤ 2048 ∧ IsUtf8 (convertDVBUTF8 e x).1 := by
  unfold convertDVBUTF8
  by_cases hlen : x.len = 0
  · rw [if_pos hlen]
    exact ⟨by simp [hlen], by simp, isUtf8_nil⟩
  · rw [if_neg hlen]
    simp only
    obtain ⟨hutf8, hlength, hreads⟩ := convertLoop_safe e x
      (prefixOf x.data (x.defaultTable e)).2.1 (prefixOf x.data (x.defaultTable e)).1 []
      isUtf8_nil (by decide)
    refine ⟨?_, hlength, hutf8⟩
    have hprefix : (∀ k ∈ (prefixOf x.data (x.defaultTable e)).2.2, k < x.len) ↔
        ¬ (x.data 0 = 0x10 ∧ (x.len = 1 ∨ x.len = 2)) := by
      unfold prefixOf
      by_cases hlong : x.data 0 = 0x10
      · rw [hlong]
        simp
        omega
      · simp only [hlong, false_and, not_false_eq_true, iff_true, if_false]
        split_ifs <;> simp <;> omega
    rw [← hprefix]
    constructor
    · exact fun h k hk => h k (List.mem_append_left _ hk)
    · intro h k hk
      rcases List.mem_append.mp hk with hk | hk
      · exact h k hk
      · exact hreads k hk

/-! ## What the guess looks at -/

/-- The length of the sequence a lead byte announces. -/
def sequenceLength (c : Byte) : Option Nat :=
  if c &&& 0xE0 = 0xC0 then some 2
  else if c &&& 0xF0 = 0xE0 then some 3
  else if c &&& 0xF8 = 0xF0 then some 4
  else none

/-- The byte at `k` belongs to a lead byte with all its continuation bytes. -/
def InSequence (s : Str) (k : Nat) : Prop :=
  ∃ p n, p ≤ k ∧ k < p + n ∧ p + n ≤ s.length ∧ sequenceLength (s.getD p 0) = some n ∧
    ∀ j, p < j → j < p + n → isContinuation (s.getD j 0) = true

/-- Every byte with its top bit set belongs to a sequence. -/
def Structured (s : Str) : Prop :=
  ∀ k < s.length, s.getD k 0 &&& 0x80 ≠ 0 → InSequence s k

/-- The lead bytes `isUTF8` knows. -/
def KnownLead (c : Byte) : Prop := c &&& 0xE0 = 0xC0 ∨ c &&& 0xF0 = 0xE0

/-- What `isUTF8` asks of the bytes behind a lead byte. -/
def Followed (s : Str) (k : Nat) : Prop :=
  (s.getD k 0 &&& 0xE0 = 0xC0 → isContinuation (s.getD (k + 1) 0) = true) ∧
  (s.getD k 0 &&& 0xF0 = 0xE0 →
    isContinuation (s.getD (k + 1) 0) = true ∧ isContinuation (s.getD (k + 2) 0) = true)

theorem byte_cases :
    ∀ c : Byte, (isContinuation c = true → ¬ KnownLead c) ∧
      (KnownLead c → c &&& 0x80 ≠ 0) ∧ (c &&& 0xE0 = 0xC0 → ¬ c &&& 0xF0 = 0xE0) := by
  have hall : ∀ n < 256, (isContinuation (UInt8.ofNat n) = true → ¬ KnownLead (UInt8.ofNat n)) ∧
      (KnownLead (UInt8.ofNat n) → UInt8.ofNat n &&& 0x80 ≠ 0) ∧
      (UInt8.ofNat n &&& 0xE0 = 0xC0 → ¬ UInt8.ofNat n &&& 0xF0 = 0xE0) := by
    unfold KnownLead
    decide +kernel
  intro c
  have hc := hall c.toNat c.toNat_lt
  rwa [UInt8.ofNat_toNat] at hc

theorem not_knownLead {c : Byte} (h : isContinuation c = true) : ¬ KnownLead c :=
  (byte_cases c).1 h

theorem continuation_lt {s : Str} {j : Nat} (h : isContinuation (s.getD j 0) = true) :
    j < s.length := by
  by_contra hj
  rw [List.getD_eq_getElem?_getD, List.getElem?_eq_none (by omega)] at h
  exact absurd h (by decide)

theorem inSequence_iff {s : Str} {k : Nat} (hlead : KnownLead (s.getD k 0)) :
    InSequence s k ↔ Followed s k := by
  constructor
  · rintro ⟨p, n, hp, hk, -, hn, hcont⟩
    obtain rfl : p = k := by
      by_contra hne
      exact not_knownLead (hcont k (by omega) hk) hlead
    unfold sequenceLength at hn
    constructor
    · intro h2
      rw [if_pos h2] at hn
      obtain rfl := Option.some.inj hn
      exact hcont (p + 1) (by omega) (by omega)
    · intro h3
      rw [if_neg fun h2 => (byte_cases _).2.2 h2 h3, if_pos h3] at hn
      obtain rfl := Option.some.inj hn
      exact ⟨hcont (p + 1) (by omega) (by omega), hcont (p + 2) (by omega) (by omega)⟩
  · rintro ⟨htwo, hthree⟩
    rcases hlead with h2 | h3
    · have hnext := htwo h2
      have hlt := continuation_lt hnext
      refine ⟨k, 2, le_rfl, by omega, by omega, if_pos h2, fun j hj hj' => ?_⟩
      obtain rfl : j = k + 1 := by omega
      exact hnext
    · obtain ⟨hnext, hlast⟩ := hthree h3
      have hlt := continuation_lt hlast
      refine ⟨k, 3, le_rfl, by omega, by omega, ?_, fun j hj hj' => ?_⟩
      · rw [sequenceLength, if_neg fun h2 => (byte_cases _).2.2 h2 h3, if_pos h3]
      · obtain rfl | rfl : j = k + 1 ∨ j = k + 2 := by omega
        · exact hnext
        · exact hlast

/-- Every known lead byte from `i` on is followed as it should be. -/
def FollowedFrom (s : Str) (i : Nat) : Prop :=
  ∀ k, i ≤ k → k < s.length → KnownLead (s.getD k 0) → Followed s k

theorem followedFrom_skip {s : Str} {i n : Nat}
    (hbytes : ∀ k, i < k → k < i + n → isContinuation (s.getD k 0) = true)
    (hhead : KnownLead (s.getD i 0) → Followed s i) :
    FollowedFrom s (i + n) ↔ FollowedFrom s i := by
  constructor
  · intro h k hk hlen hlead
    rcases Nat.lt_or_ge k (i + n) with hlt | hge
    · rcases Nat.eq_or_lt_of_le hk with rfl | hgt
      · exact hhead hlead
      · exact absurd hlead (not_knownLead (hbytes k hgt hlt))
    · exact h k hge hlen hlead
  · exact fun h k hk => h k (by omega)

theorem followedFrom_stop {s : Str} {i : Nat} (hi : i < s.length)
    (hlead : KnownLead (s.getD i 0)) (hnot : ¬ Followed s i) :
    false = true ↔ FollowedFrom s i :=
  ⟨fun h => absurd h (by decide), fun h => absurd (h i le_rfl hi hlead) hnot⟩

theorem followed_two {s : Str} {i : Nat} (h2 : s.getD i 0 &&& 0xE0 = 0xC0) :
    Followed s i ↔ isContinuation (s.getD (i + 1) 0) = true :=
  ⟨fun h => h.1 h2, fun h => ⟨fun _ => h, fun h3 => absurd h3 ((byte_cases _).2.2 h2)⟩⟩

theorem followed_three {s : Str} {i : Nat} (h3 : s.getD i 0 &&& 0xF0 = 0xE0) :
    Followed s i ↔ isContinuation (s.getD (i + 1) 0) = true ∧
      isContinuation (s.getD (i + 2) 0) = true :=
  ⟨fun h => h.2 h3, fun h => ⟨fun h2 => absurd h3 ((byte_cases _).2.2 h2), fun _ => h⟩⟩

theorem isUTF8From_iff (s : Str) (i : Nat) :
    ((isUTF8From s i).1 = true ↔ FollowedFrom s i) ∧
      ∀ k ∈ (isUTF8From s i).2, k ≤ s.length := by
  have hshort {j : Nat} (hj : s.length ≤ j) : ¬ isContinuation (s.getD j 0) = true :=
    fun h => absurd (continuation_lt h) (by omega)
  fun_induction isUTF8From s i with
  | case1 i hi c hascii rest ih =>
    refine ⟨ih.1.trans (followedFrom_skip (fun k hk hk' => by omega) fun hlead => ?_), ?_⟩
    · exact absurd hascii ((byte_cases _).2.1 hlead)
    · exact List.forall_mem_cons.mpr ⟨hi.le, ih.2⟩
  | case2 i hi c _ h2 hend =>
    refine ⟨followedFrom_stop hi (.inl h2) ?_, by simpa using hi.le⟩
    rw [followed_two h2]
    exact hshort hend
  | case3 i hi c _ h2 hend hnext rest ih =>
    refine ⟨ih.1.trans (followedFrom_skip (fun k hk hk' => ?_) fun _ => ?_), ?_⟩
    · obtain rfl : k = i + 1 := by omega
      exact hnext
    · exact (followed_two h2).mpr hnext
    · exact List.forall_mem_cons.mpr ⟨hi.le, List.forall_mem_cons.mpr ⟨by omega, ih.2⟩⟩
  | case4 i hi c _ h2 hend hnext =>
    refine ⟨followedFrom_stop hi (.inl h2) ?_, by simp; omega⟩
    rw [followed_two h2]
    exact hnext
  | case5 i hi c _ _ h3 hend =>
    refine ⟨followedFrom_stop hi (.inr h3) ?_, by simpa using hi.le⟩
    rw [followed_three h3]
    exact fun h => hshort hend h.1
  | case6 i hi c _ _ h3 hend hnext hlast rest ih =>
    refine ⟨ih.1.trans (followedFrom_skip (fun k hk hk' => ?_) fun _ => ?_), ?_⟩
    · obtain rfl | rfl : k = i + 1 ∨ k = i + 2 := by omega
      · exact hnext
      · exact hlast
    · exact (followed_three h3).mpr ⟨hnext, hlast⟩
    · exact List.forall_mem_cons.mpr ⟨hi.le, List.forall_mem_cons.mpr ⟨by omega,
        List.forall_mem_cons.mpr ⟨by omega, ih.2⟩⟩⟩
  | case7 i hi c _ _ h3 hend hnext hlast =>
    refine ⟨followedFrom_stop hi (.inr h3) ?_, by simp; omega⟩
    rw [followed_three h3]
    exact fun h => hlast h.2
  | case8 i hi c _ _ h3 hend hnext =>
    refine ⟨followedFrom_stop hi (.inr h3) ?_, by simp; omega⟩
    rw [followed_three h3]
    exact fun h => hnext h.1
  | case9 i hi c _ h2 h3 rest ih =>
    refine ⟨ih.1.trans (followedFrom_skip (fun k hk hk' => by omega) fun hlead => ?_), ?_⟩
    · exact absurd hlead (not_or.mpr ⟨h2, h3⟩)
    · exact List.forall_mem_cons.mpr ⟨hi.le, ih.2⟩
  | case10 i hi =>
    exact ⟨⟨fun _ k hk hlen => absurd hlen (by omega), fun _ => rfl⟩, by simp⟩

/-- The guess is yes when every lead byte of two or three has its sequence. -/
theorem isUTF8_iff (s : Str) :
    isUTF8 s = true ↔ ∀ k < s.length, KnownLead (s.getD k 0) → InSequence s k := by
  rw [isUTF8, (isUTF8From_iff s 0).1]
  constructor
  · exact fun h k hk hlead => (inSequence_iff hlead).mpr (h k (Nat.zero_le k) hk hlead)
  · exact fun h k _ hk hlead => (inSequence_iff hlead).mp (h k hk hlead)

/-- Reading and writing stay within bounds, and UTF-8 is written. The guess is right when
a lead byte it knows is alone, or all the other bytes with a top bit belong to sequences. -/
theorem text_decoding (e : Transponders) (x : Input) (s : Str) :
    (((∀ k ∈ (convertDVBUTF8 e x).2, k < x.len) ↔
        ¬ (x.data 0 = 0x10 ∧ (x.len = 1 ∨ x.len = 2))) ∧
      (convertDVBUTF8 e x).1.length ≤ 2048 ∧ IsUtf8 (convertDVBUTF8 e x).1) ∧
    ((isUTF8 s = true ↔ Structured s) ↔
      (∃ k < s.length, KnownLead (s.getD k 0) ∧ ¬ InSequence s k) ∨
        ∀ k < s.length, s.getD k 0 &&& 0x80 ≠ 0 → ¬ KnownLead (s.getD k 0) → InSequence s k) ∧
    ∀ k ∈ (isUTF8From s 0).2, k ≤ s.length := by
  refine ⟨convertDVBUTF8_safe e x, ?_, (isUTF8From_iff s 0).2⟩
  rw [isUTF8_iff]
  constructor
  · intro h
    by_cases hknown : ∀ k < s.length, KnownLead (s.getD k 0) → InSequence s k
    · exact .inr fun k hk hhigh _ => h.mp hknown k hk hhigh
    · push Not at hknown
      exact .inl hknown
  · rintro (⟨k, hk, hlead, hnot⟩ | hothers)
    · constructor
      · exact fun h => absurd (h k hk hlead) hnot
      · exact fun h => absurd (h k hk ((byte_cases _).2.1 hlead)) hnot
    · constructor
      · intro h k hk hhigh
        by_cases hlead : KnownLead (s.getD k 0)
        · exact h k hk hlead
        · exact hothers k hk hhigh hlead
      · exact fun h k hk hlead => h k hk ((byte_cases _).2.1 hlead)

def noTransponders : Transponders := ⟨fun _ => none, fun _ => false⟩

/-- The text of one byte that announces a long prefix, and a stray continuation byte. -/
theorem prefix_read_past_end :
    (¬ ∀ (e : Transponders) (x : Input), ∀ k ∈ (convertDVBUTF8 e x).2, k < x.len) ∧
      ¬ ∀ s : Str, isUTF8 s = true ↔ Structured s := by
  constructor
  · intro h
    have hread := h noTransponders ⟨fun _ => 0x10, 1, 0, 0⟩
    exact (convertDVBUTF8_safe noTransponders ⟨fun _ => 0x10, 1, 0, 0⟩).1.mp hread
      ⟨rfl, .inl rfl⟩
  · intro h
    have hyes : isUTF8 [0x80] = true := by
      apply (isUTF8_iff _).mpr
      intro k hk hlead
      obtain rfl : k = 0 := by simpa using hk
      exact absurd hlead (not_knownLead (by decide))
    obtain ⟨p, n, hp, -, -, hn, -⟩ := (h [0x80]).mp hyes 0 (by decide) (by decide)
    obtain rfl : p = 0 := by omega
    have hnone : sequenceLength (([0x80] : Str).getD 0 0) = none := by decide
    rw [hnone] at hn
    contradiction

/-! ## There and back -/

/-- The tables of the conversions. -/
def KnownTable (table : Int) : Prop := table = 0 ∨ table = 1 ∨ (codingTable table).isSome = true

theorem knownTable_of_range {table : Int} (hlow : 0 ≤ table) (hhigh : table ≤ 16)
    (h12 : table ≠ 12) : KnownTable table := by
  unfold KnownTable
  interval_cases table <;> simp_all [codingTable]

theorem convertUTF8DVB_ascii (table : Int) {c : Byte} (hc : c < 0x80) (s : Str) :
    convertUTF8DVB table (c :: s) = (convertUTF8DVB table s).map (c :: ·) := by
  cases s with
  | nil => simp [convertUTF8DVB, hc]
  | cons d s => rw [convertUTF8DVB, if_pos hc]

theorem convertUTF8DVB_pair (table : Int) {c1 : Byte} (hc : ¬ c1 < 0x80) (c2 : Byte) (s : Str) :
    convertUTF8DVB table (c1 :: c2 :: s) =
      (decodePair table c1 c2).bind fun c => (convertUTF8DVB table s).map (c :: ·) := by
  rw [convertUTF8DVB, if_neg hc]

/-- The six low bits of each of two bytes. -/
theorem pair_value {a b : Nat} (ha : a < 256) (hb : b < 256) :
    (a.toUInt8 &&& 0x3F).toNat <<< 6 + (b.toUInt8 &&& 0x3F).toNat = a % 64 * 64 + b % 64 := by
  have hlow {n : Nat} (hn : n < 256) : (n.toUInt8 &&& 0x3F).toNat = n % 64 := by
    rw [UInt8.toNat_and]
    have htwo : (0x3F : Byte).toNat = 0x3F := rfl
    rw [htwo, UInt8.toNat_ofNat_of_lt' hn, low_bits]
  rw [hlow ha, hlow hb, Nat.shiftLeft_eq]

theorem recode_low {c : Byte} (hc : c < 0xA0) (table : Int) : recode c table = c.toNat := if_pos hc

theorem recodeTable_eq {table : Int} (ht : KnownTable table) :
    recodeTable table = codingTable table := by
  have h64 : table ≠ 64 := by
    rintro rfl
    simp [KnownTable, codingTable] at ht
  exact if_neg h64

theorem recode_latin {table : Int} (ht : recodeTable table = none) (c : Byte) :
    recode c table = c.toNat := by
  rw [recode, ht]
  exact ite_self _

/-- A character of a table comes from the table, and from nothing before. -/
theorem recode_high {table : Int} {t : List Nat} (ht : codingTable table = some t)
    (h64 : recodeTable table = codingTable table) {c : Byte} (hc : ¬ c < 0xA0) :
    recode c table = t.getD (c.toNat - 0xA0) 0 := by
  rw [recode, if_neg hc, h64, ht]

theorem table_index {c : Byte} (hc : ¬ c < 0xA0) : 0xA0 ≤ c.toNat ∧ c.toNat - 0xA0 < 96 := by
  have hlt := c.toNat_lt
  rw [UInt8.lt_iff_toNat_lt, Nat.not_lt] at hc
  have hle : 0xA0 ≤ c.toNat := hc
  omega

theorem recode_mem {table : Int} {t : List Nat} (htable : codingTable table = some t)
    (h64 : recodeTable table = codingTable table) {c : Byte} (hc : ¬ c < 0xA0) :
    recode c table ∈ t := by
  have hj := (table_index hc).2
  have hlen := codingTable_length htable
  rw [recode_high htable h64 hc, List.getD_eq_getElem?_getD, List.getElem?_eq_getElem (by omega),
    Option.getD_some]
  exact List.getElem_mem _

/-- The first byte of a longer character. -/
theorem lead_high {n : Nat} (hlow : 0xA0 ≤ n) (hn : n < 256) :
    ¬ n.toUInt8 < 0xA0 ∧ ¬ n.toUInt8 < 0x80 := by
  have h1 : (0xA0 : Byte).toNat = 0xA0 := rfl
  have h2 : (0x80 : Byte).toNat = 0x80 := rfl
  rw [UInt8.lt_iff_toNat_lt, UInt8.lt_iff_toNat_lt, UInt8.toNat_ofNat_of_lt' hn]
  omega

/-- A character that took two bytes comes back as its byte. -/
theorem decodePair_two {table : Int} (ht : KnownTable table) {c : Byte}
    (hlow : 0x80 ≤ recode c table) (hhigh : recode c table < 0x800) :
    decodePair table (recode c table / 64 + 0xC0).toUInt8 (recode c table % 64 + 0x80).toUInt8 =
      some c := by
  have hvalue := pair_value (show recode c table / 64 + 0xC0 < 256 by omega)
    (show recode c table % 64 + 0x80 < 256 by omega)
  have hcode : (recode c table / 64 + 0xC0) % 64 * 64 + (recode c table % 64 + 0x80) % 64 =
      recode c table := by omega
  have hbyte : c.toNat.toUInt8 = c := UInt8.ofNat_toNat
  unfold decodePair
  simp only [hvalue, hcode]
  have hlead := (lead_high (show 0xA0 ≤ recode c table / 64 + 0xC0 by omega) (by omega)).1
  cases htable : codingTable table with
  | none =>
    have hlatin : table = 0 ∨ table = 1 := by simpa [KnownTable, htable] using ht
    have hnone : recodeTable table = none := (recodeTable_eq ht).trans htable
    rw [if_pos (by omega), recode_latin hnone, hbyte]
  | some t =>
    have hother : ¬ (table = 0 ∨ table = 1 ∨
        (recode c table / 64 + 0xC0).toUInt8 < 0xA0) := by
      rintro (rfl | rfl | h)
      · simp [codingTable] at htable
      · simp [codingTable] at htable
      · exact hlead h
    rw [if_neg hother]
    obtain ⟨hfirst, hentries⟩ := codingTable_first htable
    by_cases hc : c < 0xA0
    · have hc' : c.toNat < 0xA0 := hc
      rw [recode_low hc] at hlow ⊢
      have hnot : t.findIdx? (· = c.toNat) = none := by
        rw [List.findIdx?_eq_none_iff]
        intro entry hentry
        have := hentries entry hentry
        simp only [decide_eq_false_iff_not]
        omega
      simp only [hnot, hbyte]
    · obtain ⟨hle, hj⟩ := table_index hc
      have hrecode := recode_high htable (recodeTable_eq ht) hc
      rw [hrecode] at hlow ⊢
      have hidx := hfirst _ hj (by omega)
      simp only [hidx, Nat.add_sub_cancel' hle, hbyte]

/-- A character that took three bytes comes back as something else. -/
theorem decodePair_three {table : Int} (ht : KnownTable table) {c : Byte}
    (hhigh : 0x800 ≤ recode c table) :
    ∃ d, d ≠ c ∧ decodePair table (recode c table / 4096 + 0xE0).toUInt8
      (recode c table / 64 % 64 + 0x80).toUInt8 = some d := by
  have hlt := c.toNat_lt
  have hcode : recode c table < 0x10000 := by
    have := recode_scalar c table
    omega
  have hc : ¬ c < 0xA0 := by
    intro h
    rw [recode_low h] at hhigh
    omega
  obtain ⟨t, htable⟩ : ∃ t, codingTable table = some t := by
    cases htable : codingTable table with
    | none =>
      rw [recode_latin ((recodeTable_eq ht).trans htable)] at hhigh
      omega
    | some t => exact ⟨t, rfl⟩
  obtain ⟨hle, -⟩ := table_index hc
  obtain ⟨hnot, hlow⟩ := codingTable_high htable (recode_mem htable (recodeTable_eq ht) hc) hhigh
  have hvalue := pair_value (show recode c table / 4096 + 0xE0 < 256 by omega)
    (show recode c table / 64 % 64 + 0x80 < 256 by omega)
  have hsum : (recode c table / 4096 + 0xE0) % 64 * 64 + (recode c table / 64 % 64 + 0x80) % 64 =
      0x800 + recode c table / 64 := by omega
  have hlead := (lead_high (show 0xA0 ≤ recode c table / 4096 + 0xE0 by omega) (by omega)).1
  have hother : ¬ (table = 0 ∨ table = 1 ∨
      (recode c table / 4096 + 0xE0).toUInt8 < 0xA0) := by
    rintro (rfl | rfl | h)
    · simp [codingTable] at htable
    · simp [codingTable] at htable
    · exact hlead h
  refine ⟨(0x800 + recode c table / 64).toUInt8, ?_, ?_⟩
  · intro heq
    have hnat := congrArg UInt8.toNat heq
    rw [UInt8.toNat_ofNat'] at hnat
    omega
  · have hfind : t.findIdx? (· = 0x800 + recode c table / 64) = none := by
      rw [List.findIdx?_eq_none_iff]
      intro entry hentry
      simp only [decide_eq_false_iff_not]
      rintro rfl
      exact hnot hentry
    unfold decodePair
    simp only [hvalue, hsum]
    rw [if_neg hother, htable]
    simp only [hfind]

/-- No table has ASCII characters. -/
theorem recode_ascii {table : Int} (ht : KnownTable table) {c : Byte} (hne : recode c table ≠ 0)
    (h : recode c table < 0x80) : c < 0x80 ∧ (recode c table).toUInt8 = c := by
  have hc : c < 0xA0 := by
    by_contra hc
    obtain ⟨hle, -⟩ := table_index hc
    cases htable : codingTable table with
    | none =>
      rw [recode_latin ((recodeTable_eq ht).trans htable)] at h
      omega
    | some t =>
      have := (codingTable_first htable).2 _ (recode_mem htable (recodeTable_eq ht) hc)
      omega
  rw [recode_low hc] at h ⊢
  exact ⟨h, UInt8.ofNat_toNat⟩

/-- A string of characters comes back when none of them takes three bytes. -/
theorem decode_iff {table : Int} (ht : KnownTable table) {s : Str}
    (hs : ∀ c ∈ s, recode c table ≠ 0) :
    convertUTF8DVB table (s.flatMap fun c => utf8 (recode c table)) = some s ↔
      ∀ c ∈ s, recode c table < 0x800 := by
  induction s with
  | nil => simp [convertUTF8DVB]
  | cons c s ih =>
    have hrest := ih fun d hd => hs d (List.mem_cons_of_mem c hd)
    have hne := hs c List.mem_cons_self
    have hcode := recode_scalar c table
    have hc := c.toNat_lt
    rw [List.flatMap_cons, List.forall_mem_cons, ← hrest]
    have hmap (o : Option Str) : o.map (c :: ·) = some (c :: s) ↔ o = some s := by
      cases o <;> simp
    by_cases h1 : recode c table < 0x80
    · have hlow := recode_ascii ht hne h1
      rw [utf8, if_neg hne, if_pos h1, hlow.2, List.singleton_append,
        convertUTF8DVB_ascii table hlow.1, hmap]
      exact ⟨fun h => ⟨by omega, h⟩, fun h => h.2⟩
    · by_cases h2 : recode c table < 0x800
      · have hlead := (lead_high (show 0xA0 ≤ recode c table / 64 + 0xC0 by omega) (by omega)).2
        rw [utf8_two (by omega) h2, List.cons_append, List.cons_append, List.nil_append,
          convertUTF8DVB_pair table hlead, decodePair_two ht (by omega) h2, Option.bind_some, hmap]
        exact ⟨fun h => ⟨h2, h⟩, fun h => h.2⟩
      · obtain ⟨d, hd, hpair⟩ := decodePair_three ht (show 0x800 ≤ recode c table by omega)
        have hlead := (lead_high (show 0xA0 ≤ recode c table / 4096 + 0xE0 by omega) (by omega)).2
        rw [utf8_three (by omega) (by omega), List.cons_append, List.cons_append,
          convertUTF8DVB_pair table hlead, hpair, Option.bind_some]
        constructor
        · intro h
          obtain ⟨_, -, hcons⟩ := Option.map_eq_some_iff.mp h
          exact absurd (List.cons.inj hcons).1 hd
        · exact fun h => absurd h.1 h2

/-- A string given as its bytes, without a transponder. -/
def inputOf (s : Str) (table : Int) : Input := ⟨fun i => s.getD i 0, s.length, table, 0⟩

theorem convertLoop_string (e : Transponders) {s : Str} (hlen : s.length ≤ 500) (table : Int)
    (i : Nat) (res : Str) (hi : i ≤ s.length) (hres : res.length ≤ 3 * i) :
    (convertLoop e (inputOf s table) table i res).1 =
      res ++ (s.drop i).flatMap fun c => utf8 (recode c table) := by
  induction hn : s.length - i generalizing i res with
  | zero =>
    have hend : ¬ i < (inputOf s table).len := show ¬ i < s.length by omega
    rw [convertLoop, if_neg hend, List.drop_eq_nil_of_le (by omega), List.flatMap_nil,
      List.append_nil]
  | succ n ih =>
    have hlt : i < s.length := by omega
    have hcode := recode_scalar (s.getD i 0) table
    have hat : codeAt e (inputOf s table) table i = (recode (s.getD i 0) table, i + 1, [i]) :=
      if_neg (by simp [inputOf])
    have hshort : (utf8 (recode (s.getD i 0) table)).length ≤ 3 := by
      unfold utf8
      split_ifs <;> simp
      omega
    have hres' : (res ++ utf8 (recode (s.getD i 0) table)).length ≤ 3 * (i + 1) := by
      rw [List.length_append]
      omega
    have hgo : i < (inputOf s table).len := hlt
    rw [convertLoop, if_pos hgo]
    simp only [hat]
    rw [if_neg (by omega)]
    simp only
    rw [ih (i + 1) _ hlt hres' (by omega), List.drop_eq_getElem_cons hlt, List.flatMap_cons,
      List.append_assoc, List.getD_eq_getElem?_getD, List.getElem?_eq_getElem hlt,
      Option.getD_some]

theorem convertDVBUTF8_string (e : Transponders) {s : Str} (hlen : s.length ≤ 500)
    (hfirst : ∀ c ∈ s.head?, 0x20 ≤ c) (table : Int) :
    (convertDVBUTF8 e (inputOf s table)).1 = s.flatMap fun c => utf8 (recode c table) := by
  cases s with
  | nil => rfl
  | cons c s =>
    have hc : 0x20 ≤ c := hfirst c rfl
    have hprefix : prefixOf (inputOf (c :: s) table).data
        ((inputOf (c :: s) table).defaultTable e) = (0, table, [0]) := by
      have hdata : (inputOf (c :: s) table).data 0 = c := rfl
      have hdefault : (inputOf (c :: s) table).defaultTable e = table := if_neg fun h => h rfl
      have hnat : 32 ≤ c.toNat := hc
      unfold prefixOf
      simp only [hdata, hdefault]
      rw [if_neg, if_neg, if_neg]
      · exact fun h => absurd (show c.toNat < 32 from h) (by omega)
      · rintro rfl
        exact absurd hnat (by decide)
      · exact fun h => absurd (show c.toNat ≤ 12 from h.2) (by omega)
    have hne : (inputOf (c :: s) table).len ≠ 0 := Nat.succ_ne_zero _
    rw [convertDVBUTF8, if_neg hne, hprefix]
    exact convertLoop_string e hlen table 0 [] (Nat.zero_le _) le_rfl

/-- A string comes back when all its characters take two bytes at most. -/
theorem round_trip_iff (e : Transponders) {table : Int} (hlow : 0 ≤ table) (hhigh : table ≤ 16)
    (h12 : table ≠ 12) {s : Str} (hlen : s.length ≤ 500) (hfirst : ∀ c ∈ s.head?, 0x20 ≤ c)
    (hs : ∀ c ∈ s, recode c table ≠ 0) :
    convertUTF8DVB table (convertDVBUTF8 e (inputOf s table)).1 = some s ↔
      ∀ c ∈ s, recode c table < 0x800 := by
  rw [convertDVBUTF8_string e hlen hfirst]
  exact decode_iff (knownTable_of_range hlow hhigh h12) hs

/-- A Cyrillic string. -/
theorem cyrillic_round_trip :
    convertUTF8DVB 5 (convertDVBUTF8 noTransponders (inputOf [0xBC, 0xD8, 0xE0] 5)).1 =
      some [0xBC, 0xD8, 0xE0] := by
  have hcodes : recode 0xBC 5 = 0x41C ∧ recode 0xD8 5 = 0x438 ∧ recode 0xE0 5 = 0x440 := by
    decide +kernel
  apply (round_trip_iff noTransponders (by decide) (by decide) (by decide) (by decide)
    (by simp) _).mpr
  · simp [hcodes]
  · simp [hcodes]

/-- The numero sign of the same table takes three bytes. -/
theorem numero_lost :
    ¬ ∀ (e : Transponders) (table : Int) (s : Str), 0 ≤ table → table ≤ 16 → table ≠ 12 →
      s.length ≤ 500 → (∀ c ∈ s.head?, 0x20 ≤ c) → (∀ c ∈ s, recode c table ≠ 0) →
        convertUTF8DVB table (convertDVBUTF8 e (inputOf s table)).1 = some s := by
  intro h
  have hcode : recode 0xF0 5 = 0x2116 := by decide +kernel
  have hnonzero : ∀ c ∈ ([0xF0] : Str), recode c 5 ≠ 0 := by simp [hcode]
  have hfirst : ∀ c ∈ ([0xF0] : Str).head?, 0x20 ≤ c := by simp
  have hlost := h noTransponders 5 [0xF0] (by decide) (by decide) (by decide) (by decide)
    hfirst hnonzero
  rw [convertDVBUTF8_string noTransponders (by decide) hfirst] at hlost
  have hknown : KnownTable 5 := knownTable_of_range (by decide) (by decide) (by decide)
  have hshort := (decode_iff hknown hnonzero).mp hlost 0xF0 List.mem_cons_self
  rw [hcode] at hshort
  exact absurd hshort (by decide)

end Tuxbox.Enigma.Text
