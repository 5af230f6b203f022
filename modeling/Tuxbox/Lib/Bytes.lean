import Mathlib.Data.List.Lex
import Mathlib.Data.List.TakeWhile
import Mathlib.Tactic.IntervalCases

/-!
# Byte strings

A C++ `std::string` is a list of bytes. This module has the operations the
programs share.
-/

namespace Tuxbox

instance byteLinearOrder : LinearOrder UInt8 where
  le_refl := UInt8.le_refl
  le_trans _ _ _ := UInt8.le_trans
  le_antisymm _ _ := UInt8.le_antisymm
  le_total := UInt8.le_total
  lt_iff_le_not_ge a b := by
    rw [UInt8.not_le]
    exact ⟨fun h => ⟨UInt8.le_of_lt h, h⟩, fun h => h.2⟩
  toDecidableLE := inferInstance
  toDecidableLT := inferInstance
  toDecidableEq := inferInstance

abbrev Byte := UInt8

abbrev Str := List Byte

instance byteLawfulBEq : LawfulBEq Byte := inferInstance

instance strLawfulBEq : LawfulBEq Str := inferInstance

/-- The bytes of an ASCII literal. -/
def chars (s : String) : Str := s.toList.map fun c => c.toNat.toUInt8

/-- A `char` array up to its end. -/
def cString (s : Str) : Str := s.takeWhile (· ≠ 0)

/-- `tolower` in the C locale. -/
def toLower (c : Byte) : Byte := if 65 ≤ c ∧ c ≤ 90 then c + 32 else c

def newline : Byte := 10

/-- The strings `getline` delivers until it fails. The end of the input ends a
last line only if that line has a character. -/
def lines : Str → List Str
  | [] => []
  | c :: cs =>
    if c = newline then [] :: lines cs
    else
      match lines cs with
      | [] => [[c]]
      | l :: ls => (c :: l) :: ls

theorem lines_append (l rest : Str) (h : newline ∉ l) :
    lines (l ++ newline :: rest) = l :: lines rest := by
  induction l with
  | nil => simp [lines]
  | cons c l ih =>
    simp only [List.mem_cons, not_or] at h
    have hc : c ≠ newline := Ne.symm h.1
    simp only [List.cons_append, lines, hc, if_false, ih h.2]

theorem newline_notMem_lines {s l : Str} (h : l ∈ lines s) : newline ∉ l := by
  induction s generalizing l with
  | nil => simp [lines] at h
  | cons c s ih =>
    simp only [lines] at h
    split at h
    · rcases List.mem_cons.mp h with rfl | h
      · simp
      · exact ih h
    · rename_i hc
      have hc' : newline ≠ c := Ne.symm hc
      split at h
      · simp only [List.mem_singleton] at h
        simpa [h] using hc'
      · rename_i l' ls hl
        rcases List.mem_cons.mp h with rfl | h
        · have := ih (hl ▸ List.mem_cons_self)
          simp [hc', this]
        · exact ih (hl ▸ List.mem_cons_of_mem l' h)

/-! ## Decimal numbers -/

def isSpace (c : Byte) : Bool := c = 32 || (9 ≤ c && c ≤ 13)

def isDigit (c : Byte) : Bool := 48 ≤ c && c ≤ 57

def minus : Byte := 45

def plus : Byte := 43

/-- A number as `<<` prints it. -/
def decNat (n : Nat) : Str := (Nat.toDigits 10 n).map fun c => c.toNat.toUInt8

/-- What `<<` prints for an integer. -/
def decInt (z : Int) : Str := if z < 0 then minus :: decNat z.natAbs else decNat z.natAbs

/-- The value of the digits at the front. -/
def readNat (s : Str) : Nat :=
  (s.takeWhile isDigit).foldl (fun n c => 10 * n + (c.toNat - 48)) 0

/-- Blanks, an optional sign, digits; what follows them is ignored. -/
def readInt (s : Str) : Int :=
  let t := s.dropWhile isSpace
  if t.head? = some minus then -(readNat t.tail : Int)
  else if t.head? = some plus then readNat t.tail
  else readNat t

/-- The last digit comes off the end. -/
theorem decNat_eq (n : Nat) :
    decNat n = (if n < 10 then [] else decNat (n / 10)) ++ [(48 + n % 10).toUInt8] := by
  have digit (d : Nat) (hd : d < 10) : (Nat.digitChar d).toNat.toUInt8 = (48 + d).toUInt8 := by
    interval_cases d <;> rfl
  unfold decNat
  rw [Nat.toDigits_eq_if (by omega)]
  split
  · rename_i h
    simp [digit n h, Nat.mod_eq_of_lt h]
  · simp [digit (n % 10) (Nat.mod_lt _ (by omega))]

theorem isDigit_digit (n : Nat) : isDigit (48 + n % 10).toUInt8 = true := by
  have h : n % 10 < 10 := Nat.mod_lt _ (by omega)
  generalize n % 10 = d at h
  interval_cases d <;> rfl

theorem toNat_digit (n : Nat) : (48 + n % 10).toUInt8.toNat - 48 = n % 10 := by
  have h : n % 10 < 10 := Nat.mod_lt _ (by omega)
  generalize n % 10 = d at h
  interval_cases d <;> rfl

theorem isDigit_of_mem_decNat (n : Nat) {c : Byte} (h : c ∈ decNat n) : isDigit c = true := by
  induction n using Nat.strongRecOn with
  | ind n ih =>
    rw [decNat_eq, List.mem_append, List.mem_singleton] at h
    rcases h with h | rfl
    · split at h
      · simp at h
      · exact ih (n / 10) (by omega) h
    · exact isDigit_digit n

theorem decNat_ne_nil (n : Nat) : decNat n ≠ [] := by
  rw [decNat_eq]; simp

/-- A larger number takes no fewer digits. -/
theorem decNat_length_le {a b : Nat} (h : a ≤ b) : (decNat a).length ≤ (decNat b).length := by
  simp only [decNat, List.length_map]
  rw [Nat.length_toDigits_le_iff (by decide) Nat.length_toDigits_pos]
  have hb := (Nat.length_toDigits_le_iff (b := 10) (n := b) (by decide) Nat.length_toDigits_pos).mp
    (Nat.le_refl _)
  exact Nat.lt_of_le_of_lt h hb

theorem foldl_decNat (n : Nat) :
    (decNat n).foldl (fun n c => 10 * n + (c.toNat - 48)) 0 = n := by
  induction n using Nat.strongRecOn with
  | ind n ih =>
    rw [decNat_eq, List.foldl_append]
    simp only [List.foldl_cons, List.foldl_nil, toNat_digit]
    split
    · simp; omega
    · rw [ih (n / 10) (by omega)]; omega

theorem readNat_decNat (n : Nat) : readNat (decNat n) = n := by
  have h : (decNat n).takeWhile isDigit = decNat n :=
    List.takeWhile_eq_self_iff.mpr fun c hc => isDigit_of_mem_decNat n hc
  rw [readNat, h, foldl_decNat]

theorem not_blank {c : Byte} (h : 48 ≤ c.toNat) :
    isSpace c = false ∧ c ≠ minus ∧ c ≠ plus := by
  have ne (d : Byte) (hd : d.toNat < 48) : c ≠ d := by rintro rfl; omega
  have hi : ¬ c ≤ 13 := fun hc => by
    have : c.toNat ≤ 13 := hc
    omega
  exact ⟨by simp [isSpace, ne 32 (by decide), hi], ne minus (by decide), ne plus (by decide)⟩

theorem digit_not_blank {c : Byte} (h : isDigit c = true) :
    isSpace c = false ∧ c ≠ minus ∧ c ≠ plus := by
  simp only [isDigit, Bool.and_eq_true, decide_eq_true_eq] at h
  exact not_blank h.1

/-- Reading undoes printing. -/
theorem readInt_decInt (z : Int) : readInt (decInt z) = z := by
  unfold decInt
  split
  · have hb : isSpace minus = false := by decide
    simp only [readInt, List.dropWhile_cons, hb, List.head?_cons, if_true, List.tail_cons,
      readNat_decNat, Bool.false_eq_true, if_false]
    omega
  · cases hd : decNat z.natAbs with
    | nil => exact absurd hd (decNat_ne_nil _)
    | cons c cs =>
      have hc : isDigit c = true := isDigit_of_mem_decNat z.natAbs (hd ▸ List.mem_cons_self)
      obtain ⟨hs, hm, hp⟩ := digit_not_blank hc
      simp only [readInt, List.dropWhile_cons, hs, List.head?_cons, Option.some.injEq, hm, hp,
        if_false, Bool.false_eq_true]
      rw [← hd, readNat_decNat]
      omega

theorem decInt_ne_nil (z : Int) : decInt z ≠ [] := by
  unfold decInt
  split
  · simp
  · exact decNat_ne_nil _

theorem mem_decInt {z : Int} {c : Byte} (h : c ∈ decInt z) : isDigit c = true ∨ c = minus := by
  unfold decInt at h
  split at h
  · rcases List.mem_cons.mp h with h | h
    · exact Or.inr h
    · exact Or.inl (isDigit_of_mem_decNat _ h)
  · exact Or.inl (isDigit_of_mem_decNat _ h)

/-- `v` moved into the range `lo`, …, `hi`. -/
def clamp (lo hi v : Int) : Int := max lo (min hi v)

/-- `atoi`. `long` has 32 bits on the target, and `strtol` stops at its ends. -/
def atoi (s : Str) : Int32 :=
  Int32.ofInt (clamp Int32.minValue.toInt Int32.maxValue.toInt (readInt s))

/-- The C conversion, which stops at the range of its type. -/
def atoll (s : Str) : Int64 :=
  Int64.ofInt (clamp Int64.minValue.toInt Int64.maxValue.toInt (readInt s))

theorem atoi_decInt (v : Int32) : atoi (decInt v.toInt) = v := by
  have hl := v.le_toInt
  have hu := v.toInt_lt
  have h : clamp Int32.minValue.toInt Int32.maxValue.toInt v.toInt = v.toInt := by
    simp only [clamp, Int32.toInt_minValue, Int32.toInt_maxValue]
    omega
  rw [atoi, readInt_decInt, h, Int32.ofInt_toInt]

theorem atoll_decInt (v : Int64) : atoll (decInt v.toInt) = v := by
  have hl := v.le_toInt
  have hu := v.toInt_lt
  have h : clamp Int64.minValue.toInt Int64.maxValue.toInt v.toInt = v.toInt := by
    simp only [clamp, Int64.toInt_minValue, Int64.toInt_maxValue]
    omega
  rw [atoll, readInt_decInt, h, Int64.ofInt_toInt]

end Tuxbox
