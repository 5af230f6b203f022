import Tuxbox.Lib.Bytes

/-!
# Numerals in any base

What `printf` writes for `%x` and `%u`, and what `strtoul` reads.
-/

namespace Tuxbox

def zero : Byte := 48

/-- The value of a digit, in bases up to 36. -/
def digitVal (c : Byte) : Option Nat :=
  if 48 ≤ c ∧ c ≤ 57 then some (c.toNat - 48)
  else if 97 ≤ c ∧ c ≤ 122 then some (c.toNat - 87)
  else if 65 ≤ c ∧ c ≤ 90 then some (c.toNat - 55)
  else none

def digitIn (b : Nat) (c : Byte) : Bool :=
  match digitVal c with
  | some d => d < b
  | none => false

/-- The digit `d` as `%x` and `%u` write it. -/
def digit (d : Nat) : Byte := (if d < 10 then 48 + d else 87 + d).toUInt8

/-- The digits of `n` in base `b`. -/
def numeral (b n : Nat) : Str := (Nat.toDigits b n).map fun c => c.toNat.toUInt8

/-- Zeros in front, up to `w` characters in all. -/
def pad (w : Nat) (s : Str) : Str := List.replicate (w - s.length) zero ++ s

/-- The number that a string of digits stands for. -/
def value (b : Nat) (s : Str) : Nat := s.foldl (fun n c => b * n + (digitVal c).getD 0) 0

/-- `0x` and a hexadecimal digit. -/
def hexMarked : Str → Bool
  | z :: x :: d :: _ => z = zero && (x = 120 || x = 88) && digitIn 16 d
  | _ => false

/-- The base the digits are in and where they start. Base 0 lets the digits say. -/
def radix (base : Nat) (s : Str) : Nat × Str :=
  if hexMarked s && (base = 16 || base = 0) then (16, s.drop 2)
  else if base ≠ 0 then (base, s)
  else if s.head? = some zero then (8, s)
  else (10, s)

/-- `ULONG_MAX` of the 32-bit target. -/
def ulongMax : Nat := 2 ^ 32 - 1

/-- Blanks, a sign, the marker of the base, digits. -/
def strtoul (base : Nat) (s : Str) : Nat :=
  let t := s.dropWhile isSpace
  let negative := t.head? = some minus
  let u := if t.head? = some minus ∨ t.head? = some plus then t.tail else t
  let r := radix base u
  let n := value r.1 (r.2.takeWhile (digitIn r.1))
  if ulongMax < n then ulongMax
  else if negative then (2 ^ 32 - n) % 2 ^ 32
  else n

theorem digitVal_digit {d : Nat} (h : d < 16) : digitVal (digit d) = some d := by
  interval_cases d <;> decide

theorem digitIn_digit {b d : Nat} (hb : b ≤ 16) (h : d < b) : digitIn b (digit d) = true := by
  simp only [digitIn, digitVal_digit (Nat.lt_of_lt_of_le h hb), decide_eq_true_eq]
  exact h

/-- A digit is neither a blank nor a sign. -/
theorem digitIn_not_blank {b : Nat} {c : Byte} (h : digitIn b c = true) :
    isSpace c = false ∧ c ≠ minus ∧ c ≠ plus := by
  have h48 : 48 ≤ c.toNat := by
    unfold digitIn digitVal at h
    by_contra hlt
    have h1 : ¬ (48 : Byte) ≤ c := fun hc => hlt hc
    have h2 : ¬ (97 : Byte) ≤ c := fun hc => by
      have : 97 ≤ c.toNat := hc
      omega
    have h3 : ¬ (65 : Byte) ≤ c := fun hc => by
      have : 65 ≤ c.toNat := hc
      omega
    simp [h1, h2, h3] at h
  exact not_blank h48

section
variable {b : Nat}

/-- The last digit comes off the end. -/
theorem numeral_eq (h2 : 2 ≤ b) (h16 : b ≤ 16) (n : Nat) :
    numeral b n = if n < b then [digit n] else numeral b (n / b) ++ [digit (n % b)] := by
  have hdigit (d : Nat) (hd : d < b) : (Nat.digitChar d).toNat.toUInt8 = digit d := by
    have : d < 16 := by omega
    interval_cases d <;> rfl
  unfold numeral
  rw [Nat.toDigits_eq_if (by omega)]
  split
  · rename_i h
    simp [hdigit n h]
  · simp [hdigit (n % b) (Nat.mod_lt n (by omega))]

theorem numeral_digits (h2 : 2 ≤ b) (h16 : b ≤ 16) (n : Nat) :
    ∀ c ∈ numeral b n, digitIn b c = true := by
  induction n using Nat.strongRecOn with
  | ind n ih =>
    intro c hc
    rw [numeral_eq h2 h16] at hc
    split at hc
    · rename_i h
      rw [List.mem_singleton.mp hc]
      exact digitIn_digit h16 h
    · rcases List.mem_append.mp hc with hc | hc
      · exact ih (n / b) (Nat.div_lt_self (by omega) (by omega)) c hc
      · rw [List.mem_singleton.mp hc]
        exact digitIn_digit h16 (Nat.mod_lt n (by omega))

theorem value_numeral (h2 : 2 ≤ b) (h16 : b ≤ 16) (n : Nat) : value b (numeral b n) = n := by
  induction n using Nat.strongRecOn with
  | ind n ih =>
    rw [numeral_eq h2 h16]
    split
    · rename_i h
      have hn : n < 16 := by omega
      simp [value, digitVal_digit hn]
    · have hq := ih (n / b) (Nat.div_lt_self (by omega) (by omega))
      have hm : n % b < 16 := Nat.lt_of_lt_of_le (Nat.mod_lt n (by omega)) h16
      unfold value at hq ⊢
      rw [List.foldl_append, hq]
      simp only [List.foldl_cons, List.foldl_nil, digitVal_digit hm, Option.getD_some]
      exact Nat.div_add_mod n b

theorem numeral_ne_nil (h2 : 2 ≤ b) (h16 : b ≤ 16) (n : Nat) : numeral b n ≠ [] := by
  rw [numeral_eq h2 h16]
  split <;> simp

theorem value_pad (w : Nat) (s : Str) : value b (pad w s) = value b s := by
  unfold value pad
  rw [List.foldl_append]
  congr 1
  induction w - s.length with
  | zero => rfl
  | succ k ih => simpa [List.replicate_succ, digitVal, zero] using ih

theorem pad_digits (h : 0 < b) {w : Nat} {s : Str} (hs : ∀ c ∈ s, digitIn b c = true) :
    ∀ c ∈ pad w s, digitIn b c = true := by
  intro c hc
  rcases List.mem_append.mp hc with hc | hc
  · rw [List.eq_of_mem_replicate hc]
    simpa [digitIn, digitVal, zero] using h
  · exact hs c hc

theorem pad_ne_nil {w : Nat} {s : Str} (h : s ≠ []) : pad w s ≠ [] := by
  simp [pad, h]

end

/-- Digits alone cannot hold the hexadecimal marker. -/
theorem not_hexMarked {s : Str} (h : ∀ c ∈ s, digitIn 16 c = true) : hexMarked s = false := by
  unfold hexMarked
  split
  · rename_i z x d rest
    have hx : digitIn 16 x = true := h x (by simp)
    have h1 : x ≠ 120 := by rintro rfl; exact absurd hx (by decide)
    have h2 : x ≠ 88 := by rintro rfl; exact absurd hx (by decide)
    simp [h1, h2]
  · rfl

/-- A string of digits, in the base that `base` makes of it, reads as its value. -/
theorem strtoul_digits {base b : Nat} {s : Str} (hn : s ≠ []) (hr : radix base s = (b, s))
    (h : ∀ c ∈ s, digitIn b c = true) (hv : value b s ≤ ulongMax) :
    strtoul base s = value b s := by
  have ht : s.takeWhile (digitIn b) = s := List.takeWhile_eq_self_iff.mpr h
  cases s with
  | nil => exact absurd rfl hn
  | cons c cs =>
    obtain ⟨hs, hm, hp⟩ := digitIn_not_blank (h c List.mem_cons_self)
    have hd : (c :: cs).dropWhile isSpace = c :: cs := by simp [hs]
    unfold strtoul
    simp only [hd, List.head?_cons, Option.some.injEq, hm, hp, or_self, if_false, hr, ht]
    rw [if_neg (by omega)]

/-- A padded hexadecimal numeral reads as its number in base 16. -/
theorem strtoul_hex (w : Nat) {n : Nat} (h : n ≤ ulongMax) :
    strtoul 16 (pad w (numeral 16 n)) = n := by
  have hd : ∀ c ∈ pad w (numeral 16 n), digitIn 16 c = true :=
    pad_digits (by omega) (numeral_digits (by omega) (by omega) n)
  have hv : value 16 (pad w (numeral 16 n)) = n := by
    rw [value_pad, value_numeral (by omega) (by omega)]
  have hr : radix 16 (pad w (numeral 16 n)) = (16, pad w (numeral 16 n)) := by
    simp [radix, not_hexMarked hd]
  rw [strtoul_digits (pad_ne_nil (numeral_ne_nil (by omega) (by omega) n)) hr hd (by omega), hv]

end Tuxbox
