import Tuxbox.Tuxtxt.PageLinks

/-! The colours of level 2.5, packets 28/0 and 29/0.

* `extensions_iff`: when the links and the colours are those that were sent. -/
namespace Tuxbox.Tuxtxt

open Packed

/-! ## The fields -/

/-- What `tstExtData` has of packet 28/0. -/
structure TstExtData where
  bgr : Fin 16 → Nat
  DefaultCharset : Nat
  LSP : Bool
  SecondCharset : Nat
  RSP : Bool
  DefScreenColor : Nat
  ColorTableRemapping : Nat
  DefRowColor : Nat
  BlackBgSubst : Bool
  SPL25 : Bool
  p28Received : Bool
  LSPColumns : Nat

/-- As `calloc` leaves it. -/
def TstExtData.zero : TstExtData where
  bgr _ := 0
  DefaultCharset := 0
  LSP := false
  SecondCharset := 0
  RSP := false
  DefScreenColor := 0
  ColorTableRemapping := 0
  DefRowColor := 0
  BlackBgSubst := false
  SPL25 := false
  p28Received := false
  LSPColumns := 0

/-- `t2` with the bits of it that are not evaluated yet, and the next triplet. -/
structure Bits where
  t2 : Nat
  bitsleft : Nat
  p : Nat
  deriving DecidableEq

namespace Row

section
variable (r : Row)

/-- Another triplet if there is no colour left; `none` for a hamming error. -/
def refill (s : Bits) : Option Bits :=
  if s.bitsleft < 12 then
    (r.deh24 s.p).map fun d => ⟨s.t2 ||| d <<< s.bitsleft, s.bitsleft + 18, s.p + 3⟩
  else some s

/-- The colours up to an error, and what is left after them all. -/
def readColors : (colors : List (Fin 16)) → Bits → (Fin 16 → Nat) → (Fin 16 → Nat) × Option Bits
  | [], s, bgr => (bgr, some s)
  | c :: cs, s, bgr =>
    match r.refill s with
    | none => (bgr, none)
    | some s =>
      readColors cs { s with t2 := s.t2 >>> 12, bitsleft := s.bitsleft - 12 }
        (Function.update bgr c (s.t2 &&& 0xfff))

/-- `tuxtxt_decode_p2829`. `none` is a page without extensions. -/
def decodeP2829 (ext : Option TstExtData) : Option TstExtData :=
  match r.deh24 3, r.deh24 6 with
  | some t1, some t2 =>
    let ext := ext.getD TstExtData.zero
    let (bgr, bits) := r.readColors (List.finRange 16) ⟨t2 >>> 10, 8, 9⟩ ext.bgr
    let ext :=
      { ext with
        p28Received := true
        DefaultCharset := t1 >>> 7 &&& 0x7f
        SecondCharset := (t1 >>> 14 &&& 0x0f) ||| (t2 <<< 4 &&& 0x70)
        LSP := t2 &&& 0x08 ≠ 0
        RSP := t2 &&& 0x10 ≠ 0
        SPL25 := t2 &&& 0x20 ≠ 0
        LSPColumns := t2 >>> 6 &&& 0x0f
        bgr := bgr }
    match bits with
    | none => some { ext with p28Received := false }
    | some s =>
      if s.bitsleft ≠ 14 then some { ext with p28Received := false }
      else
        some { ext with
          DefScreenColor := s.t2 &&& 0x1f
          DefRowColor := s.t2 >>> 5 &&& 0x1f
          BlackBgSubst := s.t2 >>> 5 &&& 0x20 ≠ 0
          ColorTableRemapping := s.t2 >>> 11 &&& 0x07 }
  | _, _ => ext

end

end Row

/-! ### The colours that were sent -/

namespace TstExtData

/-- The values are those that their fields have room for. -/
structure Fits (e : TstExtData) : Prop where
  bgr : ∀ c, e.bgr c < 2 ^ 12
  DefaultCharset : e.DefaultCharset < 2 ^ 7
  SecondCharset : e.SecondCharset < 2 ^ 7
  LSPColumns : e.LSPColumns < 2 ^ 4
  DefScreenColor : e.DefScreenColor < 2 ^ 5
  DefRowColor : e.DefRowColor < 2 ^ 5
  ColorTableRemapping : e.ColorTableRemapping < 2 ^ 3

section
variable (e : TstExtData)

/-- The fields behind the colours. -/
def trailing : Nat :=
  e.DefScreenColor + 2 ^ 5 * e.DefRowColor + 2 ^ 10 * e.BlackBgSubst.toNat +
    2 ^ 11 * e.ColorTableRemapping

/-- The bits from the first colour on. -/
def stream : Nat := pack 12 ((List.finRange 16).map e.bgr) e.trailing

/-- The triplets of the packet, `first` the seven bits in front of the character sets. -/
def triplet (first : Nat) : Nat → Nat
  | 0 => first + 2 ^ 7 * e.DefaultCharset + 2 ^ 14 * (e.SecondCharset % 2 ^ 4)
  | 1 => e.SecondCharset / 2 ^ 4 + 2 ^ 3 * e.LSP.toNat + 2 ^ 4 * e.RSP.toNat +
      2 ^ 5 * e.SPL25.toNat + 2 ^ 6 * e.LSPColumns + 2 ^ 10 * (e.stream % 2 ^ 8)
  | j + 2 => e.stream / 2 ^ (8 + 18 * j) % 2 ^ 18

end

end TstExtData

def isReceived (ext : Option TstExtData) : Bool := ext.any TstExtData.p28Received

namespace Row

/-- The row was built from these fields, and its errors can be corrected. -/
def Carries (r : Row) (e : TstExtData) : Prop :=
  ∃ first < 2 ^ 7, ∀ j < 13, r.deh24 (3 + 3 * j) = some (e.triplet first j)

/-- One of the triplets with colours cannot be corrected. The second triplet has the first eight
bits of them. -/
def ColorDamaged (r : Row) : Prop := ∃ j, 1 ≤ j ∧ j < 13 ∧ r.deh24 (3 + 3 * j) = none

section
variable {r : Row}

/-- The triplets from `j` on continue the bits from `b` on. -/
def Continues (r : Row) (stream b j : Nat) : Prop :=
  ∀ k, j + k < 11 → r.deh24 (9 + 3 * (j + k)) = some (stream / 2 ^ (b + 18 * k) % 2 ^ 18)

theorem refill_continues {stream b j : Nat} (h : r.Continues stream b j) (hj : b < 12 → j < 11)
    (hb : b < 18) :
    ∃ b' j', r.refill ⟨stream % 2 ^ b, b, 9 + 3 * j⟩ = some ⟨stream % 2 ^ b', b', 9 + 3 * j'⟩ ∧
      12 ≤ b' ∧ b' < 30 ∧ b' + 18 * j = b + 18 * j' ∧ r.Continues stream b' j' := by
  by_cases hlt : b < 12
  · have hnext := h 0 (hj hlt)
    simp only [Nat.add_zero, Nat.mul_zero] at hnext
    refine ⟨b + 18, j + 1, ?_, by omega, by omega, by omega, fun k hk => ?_⟩
    · rw [refill, if_pos hlt, hnext, Option.map_some, mod_or_shiftLeft]
      rfl
    · have hnext := h (k + 1) (by omega)
      rw [show j + 1 + k = j + (k + 1) by omega, hnext,
        show b + 18 * (k + 1) = b + 18 + 18 * k by omega]
  · exact ⟨b, j, if_neg hlt, by omega, by omega, rfl, h⟩

/-- All of the colours, or those that were right before. -/
theorem foldl_update {color : Fin 16 → Nat} {d : Fin 16} (cs : List (Fin 16)) {bgr : Fin 16 → Nat}
    (h : d ∈ cs ∨ bgr d = color d) :
    cs.foldl (fun bgr c => Function.update bgr c (color c)) bgr d = color d := by
  induction cs generalizing bgr with
  | nil => exact h.resolve_left List.not_mem_nil
  | cons c cs ih =>
    rw [List.foldl_cons]
    apply ih
    by_cases hdc : d = c
    · right
      rw [hdc, Function.update_self]
    · rw [Function.update_of_ne hdc]
      exact h.imp_left fun hd => (List.mem_cons.mp hd).resolve_left hdc

/-- The colours are read, and what follows them is left. -/
theorem readColors_pack {rest : Nat} {color : Fin 16 → Nat} (hcolor : ∀ c, color c < 2 ^ 12)
    (hrest : rest < 2 ^ 14) (cs : List (Fin 16)) {b j : Nat} {bgr : Fin 16 → Nat}
    (hcs : cs.length ≤ 16) (hb : b < 18) (hbits : b + 12 * (16 - cs.length) = 8 + 18 * j)
    (h : r.Continues (pack 12 (cs.map color) rest) b j) :
    r.readColors cs ⟨pack 12 (cs.map color) rest % 2 ^ b, b, 9 + 3 * j⟩ bgr =
      (cs.foldl (fun bgr c => Function.update bgr c (color c)) bgr, some ⟨rest, 14, 42⟩) := by
  induction cs generalizing b j bgr with
  | nil =>
    rw [List.length_nil] at hbits
    obtain rfl : j = 11 := by omega
    obtain rfl : b = 14 := by omega
    rw [readColors, List.map_nil, pack, Nat.mod_eq_of_lt hrest]
    simp
  | cons c cs ih =>
    rw [List.length_cons] at hcs hbits
    obtain ⟨b', j', hrefill, hle, hlt, hj, hnext⟩ := refill_continues h (by omega) hb
    obtain ⟨n, rfl⟩ := Nat.exists_eq_add_of_le hle
    have hstream : pack 12 (color c :: cs.map color) rest / 2 ^ 12 = pack 12 (cs.map color) rest :=
      pack_cons_div (hcolor c)
    have hcont : r.Continues (pack 12 (cs.map color) rest) n j' := by
      intro k hk
      rw [hnext k hk, List.map_cons, ← hstream, div_div_pow,
        show 12 + (n + 18 * k) = 12 + n + 18 * k by omega]
    have hfirst : pack 12 ((c :: cs).map color) rest % 2 ^ (12 + n) &&& 0xfff = color c := by
      rw [Nat.and_two_pow_sub_one_eq_mod _ 12, mod_mod_pow_of_le _ _ _ (Nat.le_add_right 12 n)]
      exact pack_cons_mod (hcolor c)
    have hothers : (pack 12 ((c :: cs).map color) rest % 2 ^ (12 + n)) >>> 12 =
        pack 12 (cs.map color) rest % 2 ^ n := by
      rw [mod_shiftRight, List.map_cons, hstream]
    rw [readColors, hrefill]
    dsimp only
    rw [hfirst, hothers, Nat.add_sub_cancel_left, ih (by omega) (by omega) (by omega) hcont]
    rfl

/-- The colours are read only if there are no errors in the triplets. -/
theorem readColors_some (cs : List (Fin 16)) {b j t2 : Nat} {bgr bgr' : Fin 16 → Nat} {s : Bits}
    (hcs : cs.length ≤ 16) (hb : b < 18) (hbits : b + 12 * (16 - cs.length) = 8 + 18 * j)
    (h : r.readColors cs ⟨t2, b, 9 + 3 * j⟩ bgr = (bgr', some s)) :
    ∀ k, j ≤ k → k < 11 → r.deh24 (9 + 3 * k) ≠ none := by
  induction cs generalizing b j t2 bgr with
  | nil =>
    rw [List.length_nil] at hbits
    intro k hjk hk
    omega
  | cons c cs ih =>
    rw [List.length_cons] at hcs hbits
    rw [readColors, refill] at h
    by_cases hlt : b < 12
    · rw [if_pos hlt] at h
      cases hd : r.deh24 (9 + 3 * j) with
      | none =>
        rw [hd] at h
        cases h
      | some d =>
        rw [hd] at h
        have hrest := ih (b := b + 18 - 12) (j := j + 1) (by omega) (by omega) (by omega) h
        intro k hjk hk
        rcases Nat.eq_or_lt_of_le hjk with rfl | hjk
        · rw [hd]
          exact Option.some_ne_none d
        · exact hrest k hjk hk
    · rw [if_neg hlt] at h
      exact ih (b := b - 12) (by omega) (by omega) (by omega) h

theorem decodeP2829_eq_none (ext : Option TstExtData) (h : r.deh24 3 = none ∨ r.deh24 6 = none) :
    r.decodeP2829 ext = ext := by
  unfold decodeP2829
  rcases h with h | h
  · rw [h]
  · rw [h]
    cases r.deh24 3 <;> rfl

theorem decodeP2829_damaged (ext : Option TstExtData) {t1 t2 : Nat} (h1 : r.deh24 3 = some t1)
    (h2 : r.deh24 6 = some t2) (h : ∃ k < 11, r.deh24 (9 + 3 * k) = none) :
    isReceived (r.decodeP2829 ext) = false := by
  have hfails (bgr : Fin 16 → Nat) :
      (r.readColors (List.finRange 16) ⟨t2 >>> 10, 8, 9⟩ bgr).2 = none := by
    obtain ⟨k, hk, hnone⟩ := h
    by_contra hsome
    obtain ⟨s, hs⟩ := Option.ne_none_iff_exists'.mp hsome
    exact readColors_some (List.finRange 16) (b := 8) (j := 0) (by decide) (by decide) (by decide)
      (Prod.ext rfl hs) k (Nat.zero_le k) hk hnone
  unfold decodeP2829
  rw [h1, h2]
  dsimp only
  rw [hfails]
  rfl

theorem isReceived_damaged_iff (ext : Option TstExtData) (h : r.ColorDamaged) :
    isReceived (r.decodeP2829 ext) = false ↔
      (r.deh24 3 ≠ none ∧ r.deh24 6 ≠ none) ∨ isReceived ext = false := by
  obtain ⟨j, hj, hlt, hnone⟩ := h
  by_cases hearly : r.deh24 3 = none ∨ r.deh24 6 = none
  · rw [decodeP2829_eq_none ext hearly]
    tauto
  · rw [not_or] at hearly
    obtain ⟨t1, h1⟩ := Option.ne_none_iff_exists'.mp hearly.1
    obtain ⟨t2, h2⟩ := Option.ne_none_iff_exists'.mp hearly.2
    have hlater : ∃ k < 11, r.deh24 (9 + 3 * k) = none := by
      rcases Nat.eq_or_lt_of_le hj with rfl | hj
      · exact absurd hnone hearly.2
      · refine ⟨j - 2, by omega, ?_⟩
        rw [show 9 + 3 * (j - 2) = 3 + 3 * j by omega]
        exact hnone
    exact iff_of_true (decodeP2829_damaged ext h1 h2 hlater) (.inl hearly)

/-! ### The fields around the colours -/

theorem and_bit {t i : Nat} {b : Bool} (h : t / 2 ^ i % 2 = b.toNat) :
    decide (t &&& 2 ^ i ≠ 0) = b := by
  have htest : t.testBit i = b := by
    rw [Nat.testBit_eq_decide_div_mod_eq, h]
    cases b <;> rfl
  rw [Nat.and_two_pow, htest]
  cases b <;> simp

section
variable {e : TstExtData} (h : e.Fits) (first : Nat)
include h

theorem charsets_triplet {first : Nat} (hfirst : first < 2 ^ 7) :
    e.triplet first 0 / 2 ^ 7 % 2 ^ 7 = e.DefaultCharset ∧
      e.triplet first 0 / 2 ^ 14 % 2 ^ 4 = e.SecondCharset % 2 ^ 4 := by
  have hdefault := h.DefaultCharset
  simp only [TstExtData.triplet]
  omega

theorem panels_triplet :
    e.triplet first 1 % 2 ^ 3 = e.SecondCharset / 2 ^ 4 ∧
      e.triplet first 1 / 2 ^ 3 % 2 = e.LSP.toNat ∧ e.triplet first 1 / 2 ^ 4 % 2 = e.RSP.toNat ∧
      e.triplet first 1 / 2 ^ 5 % 2 = e.SPL25.toNat ∧
      e.triplet first 1 / 2 ^ 6 % 2 ^ 4 = e.LSPColumns ∧
      e.triplet first 1 / 2 ^ 10 = e.stream % 2 ^ 8 := by
  have hsecond := h.SecondCharset
  have hcolumns := h.LSPColumns
  have hlsp := e.LSP.toNat_lt
  have hrsp := e.RSP.toNat_lt
  have hspl := e.SPL25.toNat_lt
  simp only [TstExtData.triplet]
  omega

theorem trailing_fields :
    e.trailing % 2 ^ 5 = e.DefScreenColor ∧ e.trailing / 2 ^ 5 % 2 ^ 5 = e.DefRowColor ∧
      e.trailing / 2 ^ 5 / 2 ^ 5 % 2 = e.BlackBgSubst.toNat ∧
      e.trailing / 2 ^ 11 % 2 ^ 3 = e.ColorTableRemapping ∧ e.trailing < 2 ^ 14 := by
  have hscreen := h.DefScreenColor
  have hrow := h.DefRowColor
  have hmapping := h.ColorTableRemapping
  have hsubst := e.BlackBgSubst.toNat_lt
  unfold TstExtData.trailing
  omega

theorem secondCharset_eq {first : Nat} (hfirst : first < 2 ^ 7) :
    (e.triplet first 0 >>> 14 &&& 0x0f) ||| (e.triplet first 1 <<< 4 &&& 0x70) =
      e.SecondCharset := by
  have hlow : e.triplet first 0 >>> 14 &&& 0x0f = e.SecondCharset % 2 ^ 4 := by
    rw [Nat.and_two_pow_sub_one_eq_mod _ 4, Nat.shiftRight_eq_div_pow]
    exact (charsets_triplet h hfirst).2
  have hhigh : e.triplet first 1 <<< 4 &&& 0x70 = (e.SecondCharset / 2 ^ 4) <<< 4 := by
    rw [← (panels_triplet h first).1, ← Nat.and_two_pow_sub_one_eq_mod _ 3,
      Nat.shiftLeft_and_distrib]
    rfl
  calc (e.triplet first 0 >>> 14 &&& 0x0f) ||| (e.triplet first 1 <<< 4 &&& 0x70)
      = (e.SecondCharset / 2 ^ 4) <<< 4 ||| e.SecondCharset % 2 ^ 4 := by
        rw [hlow, hhigh, Nat.or_comm]
    _ = (e.SecondCharset / 2 ^ 4) <<< 4 + e.SecondCharset % 2 ^ 4 :=
        (Nat.shiftLeft_add_eq_or_of_lt (Nat.mod_lt _ (Nat.two_pow_pos 4)) _).symm
    _ = e.SecondCharset := by
        rw [Nat.shiftLeft_eq]
        omega

end

theorem readColors_carries {e : TstExtData} (h : e.Fits) {first : Nat}
    (htriplets : ∀ j < 13, r.deh24 (3 + 3 * j) = some (e.triplet first j)) (bgr : Fin 16 → Nat) :
    r.readColors (List.finRange 16) ⟨e.triplet first 1 >>> 10, 8, 9⟩ bgr =
      (e.bgr, some ⟨e.trailing, 14, 42⟩) := by
  obtain ⟨-, -, -, -, -, hstream⟩ := panels_triplet h first
  obtain ⟨-, -, -, -, htrailing⟩ := trailing_fields h
  have hcont : r.Continues e.stream 8 0 := by
    intro k hk
    rw [show 9 + 3 * (0 + k) = 3 + 3 * (k + 2) by omega, htriplets (k + 2) (by omega)]
    rfl
  have hread : r.readColors _ ⟨_ % 2 ^ 8, 8, 9 + 3 * 0⟩ bgr = _ :=
    readColors_pack h.bgr htrailing (List.finRange 16) (by decide) (by decide) (by decide) hcont
  have hall : (List.finRange 16).foldl (fun bgr c => Function.update bgr c (e.bgr c)) bgr = e.bgr :=
    funext fun d => foldl_update _ (.inl (List.mem_finRange d))
  rw [hall] at hread
  rw [Nat.shiftRight_eq_div_pow, hstream]
  exact hread

/-- All fields come back. -/
theorem decodeP2829_carries {e : TstExtData} (hfits : e.Fits) (he : e.p28Received = true)
    (h : r.Carries e) (ext : Option TstExtData) : r.decodeP2829 ext = some e := by
  obtain ⟨first, hfirst, htriplets⟩ := h
  have h0 : r.deh24 3 = some (e.triplet first 0) := htriplets 0 (by decide)
  have h1 : r.deh24 6 = some (e.triplet first 1) := htriplets 1 (by decide)
  obtain ⟨hdefault, -⟩ := charsets_triplet hfits hfirst
  obtain ⟨-, hlsp, hrsp, hspl, hcolumns, -⟩ := panels_triplet hfits first
  obtain ⟨hscreen, hrow, hsubst, hmapping, -⟩ := trailing_fields hfits
  have hDefaultCharset : e.triplet first 0 >>> 7 &&& 0x7f = e.DefaultCharset := by
    rw [Nat.and_two_pow_sub_one_eq_mod _ 7, Nat.shiftRight_eq_div_pow, hdefault]
  have hLSP : decide (e.triplet first 1 &&& 0x08 ≠ 0) = e.LSP := and_bit hlsp
  have hRSP : decide (e.triplet first 1 &&& 0x10 ≠ 0) = e.RSP := and_bit hrsp
  have hSPL25 : decide (e.triplet first 1 &&& 0x20 ≠ 0) = e.SPL25 := and_bit hspl
  have hLSPColumns : e.triplet first 1 >>> 6 &&& 0x0f = e.LSPColumns := by
    rw [Nat.and_two_pow_sub_one_eq_mod _ 4, Nat.shiftRight_eq_div_pow, hcolumns]
  have hDefScreenColor : e.trailing &&& 0x1f = e.DefScreenColor := by
    rw [Nat.and_two_pow_sub_one_eq_mod _ 5, hscreen]
  have hDefRowColor : e.trailing >>> 5 &&& 0x1f = e.DefRowColor := by
    rw [Nat.and_two_pow_sub_one_eq_mod _ 5, Nat.shiftRight_eq_div_pow, hrow]
  have hBlackBgSubst : decide (e.trailing >>> 5 &&& 0x20 ≠ 0) = e.BlackBgSubst := by
    rw [Nat.shiftRight_eq_div_pow]
    exact and_bit hsubst
  have hColorTableRemapping : e.trailing >>> 11 &&& 0x07 = e.ColorTableRemapping := by
    rw [Nat.and_two_pow_sub_one_eq_mod _ 3, Nat.shiftRight_eq_div_pow, hmapping]
  unfold decodeP2829
  rw [h0, h1]
  dsimp only
  rw [readColors_carries hfits htriplets]
  dsimp only
  rw [if_neg (by decide), hDefaultCharset, secondCharset_eq hfits hfirst, hLSP, hRSP, hSPL25,
    hLSPColumns,
    hDefScreenColor, hDefRowColor, hBlackBgSubst, hColorTableRemapping, ← he]

end

end Row

/-! ## Both packets -/

/-- The links of packet 27/4 are stored as they were sent if and only if they are in place. The
colours come back, and an error in them is noticed unless the packet is left alone. -/
theorem extensions_iff (r : Row) :
    (r.IsLinkPacket →
      ((∀ cached former function,
          r.LinksRight former (r.decodeLinks cached former function).p27) ↔ r.LinksInPlace)) ∧
    (∀ e : TstExtData, e.Fits → e.p28Received = true → r.Carries e →
      ∀ ext, r.decodeP2829 ext = some e) ∧
    (r.ColorDamaged → ∀ ext, (isReceived (r.decodeP2829 ext) = false ↔
      (r.deh24 3 ≠ none ∧ r.deh24 6 ≠ none) ∨ isReceived ext = false)) := by
  refine ⟨fun hr => ⟨fun h => ?_, fun h cached former function => ?_⟩, ?_, ?_⟩
  · exact Row.inPlace_of_right hr (fun _ => rfl)
      (h (fun _ => false) (fun _ => ⟨0, 0, false, false, false, false⟩) fun _ => 0)
  · exact Row.linksRight_of_inPlace hr h
  · exact fun e hfits he hr ext => Row.decodeP2829_carries hfits he hr ext
  · exact fun hr ext => Row.isReceived_damaged_iff ext hr

/-- 273 for each step from black to white. -/
def greyLevels : TstExtData where
  bgr c := 273 * c
  DefaultCharset := 0x24
  LSP := true
  SecondCharset := 0x35
  RSP := false
  DefScreenColor := 8
  ColorTableRemapping := 3
  DefRowColor := 9
  BlackBgSubst := true
  SPL25 := true
  p28Received := true
  LSPColumns := 5

theorem greyLevels_fits : greyLevels.Fits where
  bgr c := by
    have := c.isLt
    change 273 * c.val < 2 ^ 12
    omega
  DefaultCharset := by decide
  SecondCharset := by decide
  LSPColumns := by decide
  DefScreenColor := by decide
  DefRowColor := by decide
  ColorTableRemapping := by decide

def greyRow : Row where
  bytes := [11, 191, 168, 128, 4, 84, 106, 105, 1, 81, 137, 67, 195, 18, 152, 249, 35, 20, 180, 169,
    205, 157, 238, 113, 136, 70, 51, 178, 84, 175, 15, 117, 102, 214, 186, 218, 187, 222, 254, 255,
    21, 92]
  length_eq := rfl

/-- Links to the pages 810, 899 and 8F0, and one that is damaged. -/
def linkRow : Row where
  bytes := [11, 109, 38, 149, 0, 16, 133, 1, 1, 213, 37, 19, 133, 1, 1, 133, 1, 31, 133, 1, 1] ++
    List.replicate 21 0
  length_eq := rfl

theorem linkRow_isLinkPacket : linkRow.IsLinkPacket where
  b1 := by decide
  b2 := by decide
  packetNumber := by decide
  descode := by decide

/-- The third triplet is damaged. -/
def damagedRow : Row where
  bytes := greyRow.bytes.set 9 1
  length_eq := rfl

theorem extensions_iff_samples :
    ((∀ cached former function,
      linkRow.LinksRight former (linkRow.decodeLinks cached former function).p27) ↔
        linkRow.LinksInPlace) ∧
      greyRow.decodeP2829 none = some greyLevels ∧
      isReceived (damagedRow.decodeP2829 (some greyLevels)) = false :=
  ⟨(extensions_iff linkRow).1 linkRow_isLinkPacket,
    (extensions_iff greyRow).2.1 greyLevels greyLevels_fits rfl
      ⟨0, by decide, by decide⟩ none,
    ((extensions_iff damagedRow).2.2 ⟨2, by decide, by decide, by decide⟩ (some greyLevels)).mpr
      (.inl ⟨by decide, by decide⟩)⟩

/-- A link from page 1 of magazine 1 to page 110. -/
def ownLinkRow : Row where
  bytes := [227, 109, 38, 149, 0, 16, 133, 1, 1, 1] ++ List.replicate 32 0
  length_eq := rfl

theorem extensions_counterexample : ∃ r : Row, r.IsLinkPacket ∧ r.magazineBits = 1 ∧
    r.link 0 = some (0x4004, 4) ∧ linkPage 0x4004 1 = 0x110 ∧
    ∀ cached former function, ((r.decodeLinks cached former function).p27 0).page = 0x910 := by
  have hr : ownLinkRow.IsLinkPacket := ⟨by decide, by decide, by decide, by decide⟩
  have hlink : ownLinkRow.link 0 = some (0x4004, 4) := by decide
  have hlater : ∀ j, 0 + 1 ≤ j → j < 4 → ownLinkRow.link j = none := by
    have hdamaged : ∀ j < 4, j ≠ 0 → ownLinkRow.link j = none := by decide
    exact fun j hj hlt => hdamaged j hlt (by omega)
  refine ⟨ownLinkRow, hr, by decide, hlink, by decide, fun cached former function => ?_⟩
  exact Row.stored_page hr rfl (by decide) (fun m hm => absurd hm (Nat.not_lt_zero m)) hlink
    (.inr hlater)

end Tuxbox.Tuxtxt
