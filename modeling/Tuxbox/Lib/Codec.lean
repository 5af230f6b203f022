import Tuxbox.Lib.Bytes

/-!
# Buffers and byte formats
-/

namespace Tuxbox

/-- Offsets to bytes; `none` is a byte nothing was stored in. -/
abbrev Mem := Nat → Option Byte

namespace Mem

def unset : Mem := fun _ => none

def write (m : Mem) (i : Nat) (b : Byte) : Mem := fun j => if j = i then some b else m j

/-- Store `bs` from offset `i` on. -/
def put (m : Mem) (i : Nat) : List Byte → Mem
  | [] => m
  | b :: bs => put (m.write i b) (i + 1) bs

theorem write_eq_put (m : Mem) (i : Nat) (b : Byte) : m.write i b = m.put i [b] := rfl

theorem put_append (m : Mem) (i : Nat) (xs ys : List Byte) :
    (m.put i xs).put (i + xs.length) ys = m.put i (xs ++ ys) := by
  induction xs generalizing m i with
  | nil => rfl
  | cons x xs ih =>
    have h := ih (m.write i x) (i + 1)
    rw [List.cons_append, put, put, ← h, List.length_cons, Nat.add_assoc, Nat.add_comm 1]

/-- `put_append` with the second offset given in another form. -/
theorem put_put {m : Mem} {i j : Nat} {xs : List Byte} (h : j = i + xs.length) (ys : List Byte) :
    (m.put i xs).put j ys = m.put i (xs ++ ys) := by
  rw [h, put_append]

/-- Exactly the offsets of the run are changed. -/
theorem put_get (m : Mem) (i : Nat) (bs : List Byte) (j : Nat) :
    m.put i bs j = if i ≤ j ∧ j < i + bs.length then bs[j - i]? else m j := by
  induction bs generalizing m i with
  | nil =>
    have h : ¬ (i ≤ j ∧ j < i + ([] : List Byte).length) := by simp
    rw [if_neg h, put]
  | cons b bs ih =>
    rw [put, ih, List.length_cons]
    rcases Nat.lt_trichotomy j i with h | h | h
    · rw [if_neg (by omega), if_neg (by omega), write, if_neg (by omega)]
    · rw [if_neg (by omega), if_pos (by omega), write, if_pos h, h, Nat.sub_self]
      rfl
    · have hs : j - i = (j - (i + 1)) + 1 := by omega
      by_cases hb : j < i + (bs.length + 1)
      · rw [if_pos (by omega), if_pos (by omega), hs, List.getElem?_cons_succ]
      · rw [if_neg (by omega), if_neg (by omega), write, if_neg (by omega)]

/-- The bytes from offset `i` on, `n` of them; one nothing was stored in reads
as zero. -/
def contents (m : Mem) (i n : Nat) : List Byte :=
  (List.range n).map fun j => (m (i + j)).getD 0

theorem put_unset_isSome (bs : List Byte) (j : Nat) :
    (unset.put 0 bs j).isSome = true ↔ j < bs.length := by
  rw [put_get]
  by_cases h : j < bs.length
  · simp [h]
  · simp [h, unset]

theorem contents_put (m : Mem) (i : Nat) (bs : List Byte) :
    (m.put i bs).contents i bs.length = bs := by
  apply List.ext_getElem
  · simp [contents]
  · intro j h1 h2
    have hj : j < bs.length := h2
    simp [contents, put_get, hj]

end Mem

/-! ## Sequences of items -/

section
variable {α : Type}

/-- Items read until the bytes run out, at most `fuel` of them. -/
def decodeAll (item : List Byte → Option (α × List Byte)) : Nat → List Byte → Option (List α)
  | _, [] => some []
  | 0, _ :: _ => none
  | fuel + 1, b :: bs =>
    match item (b :: bs) with
    | none => none
    | some (x, rest) => (decodeAll item fuel rest).map (x :: ·)

/-- Reading undoes writing item by item, if it does so for one item with any
bytes after it and no item is empty. -/
theorem decodeAll_flatMap {β : Type} {item : List Byte → Option (α × List Byte)}
    {encode : β → List Byte} {value : β → α} {xs : List β} (hne : ∀ x ∈ xs, encode x ≠ [])
    (hitem : ∀ x ∈ xs, ∀ rest, item (encode x ++ rest) = some (value x, rest)) {fuel : Nat}
    (hfuel : (xs.flatMap encode).length ≤ fuel) :
    decodeAll item fuel (xs.flatMap encode) = some (xs.map value) := by
  induction xs generalizing fuel with
  | nil => cases fuel <;> rfl
  | cons x xs ih =>
    have hx := hne x List.mem_cons_self
    have hread := hitem x List.mem_cons_self (xs.flatMap encode)
    rw [List.flatMap_cons] at hfuel ⊢
    cases he : encode x with
    | nil => exact absurd he hx
    | cons b bs =>
      rw [he, List.cons_append, List.length_cons] at hfuel
      cases fuel with
      | zero => omega
      | succ fuel =>
        rw [he, List.cons_append] at hread
        have hlen : (xs.flatMap encode).length ≤ fuel := by
          rw [List.length_append] at hfuel
          omega
        have hrest := ih (fun y hy => hne y (List.mem_cons_of_mem x hy))
          (fun y hy => hitem y (List.mem_cons_of_mem x hy)) hlen
        simp only [List.cons_append, decodeAll, hread, hrest, Option.map_some, List.map_cons]

end

/-! ## Bit fields as arithmetic -/

/-- Shifts and an `or` as arithmetic. -/
theorem or_shift (a : Nat) {b n : Nat} (h : b < 2 ^ n) : a <<< n ||| b = a * 2 ^ n + b := by
  rw [← Nat.shiftLeft_add_eq_or_of_lt h, Nat.shiftLeft_eq]

theorem toNat_toUInt8 {n : Nat} (h : n < 256) : n.toUInt8.toNat = n := by
  simp [Nat.mod_eq_of_lt h]

/-- A field of 12 or 13 bits in two bytes, the first of which also has the
reserved bits above it. -/
theorem fieldValue {w : Nat} (hw : w ≤ 8) {reserved : Nat} (hr : reserved < 2 ^ (8 - w)) {n : Nat}
    (hn : n < 2 ^ (w + 8)) :
    ((reserved <<< w ||| n >>> 8).toUInt8.toNat &&& 2 ^ w - 1) <<< 8 ||| n.toUInt8.toNat = n := by
  have hhigh : n / 2 ^ 8 < 2 ^ w := by
    rw [Nat.div_lt_iff_lt_mul (by decide), ← Nat.pow_add]
    exact hn
  have hsum : reserved * 2 ^ w + n / 2 ^ 8 < 256 := by
    have hle : (reserved + 1) * 2 ^ w ≤ 2 ^ (8 - w) * 2 ^ w := Nat.mul_le_mul_right _ hr
    rw [← Nat.pow_add, Nat.sub_add_cancel hw] at hle
    rw [Nat.add_mul] at hle
    omega
  have hlow : n.toUInt8.toNat = n % 2 ^ 8 := by simp
  rw [Nat.shiftRight_eq_div_pow, or_shift _ hhigh, toNat_toUInt8 hsum,
    Nat.and_two_pow_sub_one_eq_mod, Nat.mul_add_mod_of_lt hhigh, hlow,
    or_shift _ (Nat.mod_lt _ (by decide))]
  omega

end Tuxbox
