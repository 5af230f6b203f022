import Mathlib.Data.Nat.Find
import Tuxbox.Lib.Packed
import Tuxbox.Tuxtxt.Tables

/-! The links of level 2.5, packet 27/4.

* `Row.linksRight_of_inPlace`, `Row.inPlace_of_right`: when these are the links that were sent. -/
namespace Tuxbox.Tuxtxt

open Packed

/-! ## The slots -/

/-- `tstp27`, a link to a page of objects or of characters. -/
structure Tstp27 where
  page : Nat
  subpage : Nat
  l25 : Bool
  l35 : Bool
  drcs : Bool
  local_ : Bool
  deriving DecidableEq

def FUNC_GPOP : Nat := 2
def FUNC_POP : Nat := 3
def FUNC_GDRCS : Nat := 4
def FUNC_DRCS : Nat := 5

/-- The links of a page, `p` the slot that is next, and the functions of the linked pages. -/
structure Links where
  p27 : Nat → Tstp27
  p : Nat
  function : Nat → Nat

def linkFunction (i : Nat) : Nat :=
  if i &&& 1 ≠ 0 then if i &&& 2 ≠ 0 then FUNC_DRCS else FUNC_POP
  else if i &&& 2 ≠ 0 then FUNC_GDRCS else FUNC_GPOP

namespace Row

section
variable (r : Row) (cached : Nat → Bool)

/-- The two triplets of a link, if there is no error in them. -/
def link (i : Nat) : Option (Nat × Nat) :=
  match r.deh24 (6 * i + 3), r.deh24 (6 * i + 6) with
  | some d1, some d2 => some (d1, d2)
  | _, _ => none

def storeLink (s : Links) (i : Nat) : Links :=
  match r.link i with
  | none => s
  | some (d1, d2) =>
    let page := linkedPage d1 (r.dehammed 0)
    let link : Tstp27 :=
      { page := page, subpage := d2 >>> 2, l25 := d1 &&& 4 ≠ 0, l35 := d1 &&& 8 ≠ 0,
        drcs := i &&& 2 ≠ 0, local_ := i &&& 1 ≠ 0 }
    if page &&& 0xff = 0xff then
      { s with p27 := Function.update s.p27 s.p { link with page := 0 }, p := s.p + 1 }
    -- the slot is written and then used for the next link
    else if 0x899 < page then { s with p27 := Function.update s.p27 s.p link }
    else
      { p27 := Function.update s.p27 s.p link
        p := s.p + 1
        function :=
          if cached page then Function.update s.function page (linkFunction i) else s.function }

/-- The links of packet 27/4, in the slots that are there or were just allocated. -/
def decodeLinks (p27 : Nat → Tstp27) (function : Nat → Nat) : Links :=
  (List.range 4).foldl (r.storeLink cached) ⟨p27, 0, function⟩

end

end Row

/-! ### The links that were sent -/

/-- Tens and units. -/
def linkNumber (d1 : Nat) : Nat := d1 >>> 14 % 16 * 16 + d1 >>> 6 % 16

def linkMagazine (d1 magazine : Nat) : Nat := (d1 >>> 11 % 8) ^^^ magazine

/-- The page a link names, when the packet belongs to this magazine. -/
def linkPage (d1 magazine : Nat) : Nat :=
  (if linkMagazine d1 magazine = 0 then 8 else linkMagazine d1 magazine) * 0x100 + linkNumber d1

namespace Row

section
variable (r : Row)

def magazineBits : Nat := r.dehammed 0 &&& 7

/-- Packet 27/4. -/
structure IsLinkPacket : Prop where
  b1 : r.dehammed 0 ≠ 0xFF
  b2 : r.dehammed 1 ≠ 0xFF
  packetNumber : (r.dehammed 0 &&& 8) >>> 3 ||| r.dehammed 1 <<< 1 = 27
  descode : r.dehammed 2 = 4

/-- The links that are correct are in their slots, the other slots are as before. -/
structure LinksRight (former p27 : Nat → Tstp27) : Prop where
  correct : ∀ i < 4, ∀ d1 d2, r.link i = some (d1, d2) → (p27 i).page = linkPage d1 r.magazineBits
  damaged : ∀ i < 4, r.link i = none → p27 i = former i

/-- No correct link comes after a damaged one, and all lead to magazine 8. -/
def LinksInPlace : Prop :=
  ∀ i < 4, ∀ d1 d2, r.link i = some (d1, d2) →
    linkMagazine d1 r.magazineBits = 0 ∧ linkNumber d1 ≠ 0xff ∧
      ∀ m < i, ∃ d1 d2, r.link m = some (d1, d2) ∧ linkNumber d1 ≤ 0x99

end

end Row

theorem linkNumber_lt (d1 : Nat) : linkNumber d1 < 0x100 := by
  unfold linkNumber
  omega

theorem linkMagazine_lt {magazine : Nat} (d1 : Nat) (h : magazine < 8) :
    linkMagazine d1 magazine < 8 :=
  Nat.xor_lt_two_pow (n := 3) (Nat.mod_lt _ (by decide)) h

/-- The lowest bit of the packet number stays in the page number. -/
theorem linkedPage_eq {magazine : Nat} (d1 : Nat) (h : magazine < 8) :
    linkedPage d1 (8 + magazine) = 0x800 + linkMagazine d1 magazine * 0x100 + linkNumber d1 := by
  have hunits : (d1 &&& 0x3c0) >>> 6 = d1 >>> 6 % 16 := mask_shiftRight d1 4 6 0
  have htens : (d1 &&& 0x3c000) >>> 10 = (d1 >>> 14 % 16) <<< 4 := mask_shiftRight d1 4 10 4
  have hmagazine : (d1 &&& 0x3800) >>> 3 = (d1 >>> 11 % 8) <<< 8 := mask_shiftRight d1 3 3 8
  have hnumber : d1 >>> 6 % 16 ||| (d1 >>> 14 % 16) <<< 4 = linkNumber d1 := by
    rw [Nat.or_comm, ← Nat.shiftLeft_add_eq_or_of_lt (Nat.mod_lt _ (by decide)),
      Nat.shiftLeft_eq, linkNumber]
  have hxor : ∀ a < 8, ∀ m < 8, a ^^^ (8 + m) = 8 + (a ^^^ m) := by decide
  have hpage : ((d1 &&& 0x3c0) >>> 6 ||| (d1 &&& 0x3c000) >>> 10 ||| (d1 &&& 0x3800) >>> 3) ^^^
      (8 + magazine) <<< 8 = 0x800 + linkMagazine d1 magazine * 0x100 + linkNumber d1 := by
    rw [hunits, htens, hmagazine, hnumber, or_shiftLeft_xor _ _ _ _ (linkNumber_lt d1),
      hxor _ (Nat.mod_lt _ (by decide)) _ h, Nat.shiftLeft_eq]
    change (8 + linkMagazine d1 magazine) * 2 ^ 8 + linkNumber d1 = _
    omega
  unfold linkedPage
  simp only [hpage]
  exact if_neg (by omega)

namespace Row

/-- The pointer goes on to the next slot. -/
def Advances (r : Row) (i : Nat) : Prop :=
  ∃ d1 d2, r.link i = some (d1, d2) ∧
    (linkNumber d1 = 0xff ∨ linkMagazine d1 r.magazineBits = 0 ∧ linkNumber d1 ≤ 0x99)

section
variable {r : Row} {cached : Nat → Bool} {s : Links} {d1 d2 i j n : Nat}

theorem magazineBits_lt : r.magazineBits < 8 := Nat.lt_of_le_of_lt Nat.and_le_right (by decide)

theorem IsLinkPacket.dehammed_eq (h : r.IsLinkPacket) : r.dehammed 0 = 8 + r.magazineBits := by
  have hbits : ∀ x < 16, (x &&& 8) >>> 3 = 0 ∨ x = 8 + (x &&& 7) := by decide
  rcases hbits _ ((r.dehammed_cases 0).resolve_right h.b1) with hbit | hbit
  · have hnumber := h.packetNumber
    rw [hbit, Nat.zero_or, Nat.shiftLeft_eq] at hnumber
    omega
  · exact hbit

theorem IsLinkPacket.linkedPage_eq (h : r.IsLinkPacket) (d1 : Nat) :
    linkedPage d1 (r.dehammed 0) =
      0x800 + linkMagazine d1 r.magazineBits * 0x100 + linkNumber d1 := by
  rw [h.dehammed_eq]
  exact Tuxtxt.linkedPage_eq d1 magazineBits_lt

/-! ### One link -/

theorem storeLink_damaged (h : r.link i = none) : r.storeLink cached s i = s := by
  unfold storeLink
  rw [h]

theorem storeLink_other (h : j ≠ s.p) : (r.storeLink cached s i).p27 j = s.p27 j := by
  unfold storeLink
  cases r.link i with
  | none => rfl
  | some d =>
    dsimp only
    split_ifs <;> exact Function.update_of_ne h _ _

theorem storeLink_correct (hr : r.IsLinkPacket) (h : r.link i = some (d1, d2)) :
    ((r.storeLink cached s i).p27 s.p).page =
        (if linkNumber d1 = 0xff then 0
          else 0x800 + linkMagazine d1 r.magazineBits * 0x100 + linkNumber d1) ∧
      (r.storeLink cached s i).p =
        if linkNumber d1 = 0xff ∨ linkMagazine d1 r.magazineBits = 0 ∧
          linkNumber d1 ≤ 0x99 then s.p + 1
        else s.p := by
  have hlt := linkNumber_lt d1
  have hpage := hr.linkedPage_eq d1
  have hand : linkedPage d1 (r.dehammed 0) &&& 0xff = linkNumber d1 := by
    rw [hpage, Nat.and_two_pow_sub_one_eq_mod _ 8]
    omega
  unfold storeLink
  rw [h]
  dsimp only
  rw [hand, hpage]
  by_cases hff : linkNumber d1 = 0xff
  · simp [hff]
  · by_cases hbig : 0x899 < 0x800 + linkMagazine d1 r.magazineBits * 0x100 + linkNumber d1
    · have hnot : ¬ (linkMagazine d1 r.magazineBits = 0 ∧ linkNumber d1 ≤ 0x99) := by omega
      simp [hff, hbig, hnot]
    · have hin : linkMagazine d1 r.magazineBits = 0 ∧ linkNumber d1 ≤ 0x99 := by omega
      rw [if_neg hff, if_neg hbig, if_neg hff]
      exact ⟨congrArg Tstp27.page (Function.update_self s.p _ s.p27), (if_pos (.inr hin)).symm⟩

theorem storeLink_advances (hr : r.IsLinkPacket) (h : r.Advances i) :
    (r.storeLink cached s i).p = s.p + 1 := by
  obtain ⟨d1, d2, hlink, hadv⟩ := h
  rw [(storeLink_correct hr hlink).2, if_pos hadv]

theorem storeLink_stays (hr : r.IsLinkPacket) (h : ¬ r.Advances i) :
    (r.storeLink cached s i).p = s.p := by
  cases hlink : r.link i with
  | none => rw [storeLink_damaged hlink]
  | some d =>
    obtain ⟨d1, d2⟩ := d
    rw [(storeLink_correct hr hlink).2]
    exact if_neg fun hadv => h ⟨d1, d2, hlink, hadv⟩

/-! ### The links up to one -/

def stored (r : Row) (cached : Nat → Bool) (s : Links) (n : Nat) : Links :=
  (List.range n).foldl (r.storeLink cached) s

@[simp] theorem stored_zero : r.stored cached s 0 = s := rfl

theorem stored_succ : r.stored cached s (n + 1) = r.storeLink cached (r.stored cached s n) n := by
  rw [stored, List.range_succ, List.foldl_append]
  rfl

theorem stored_p_le (hr : r.IsLinkPacket) (hs : s.p = 0) : (r.stored cached s n).p ≤ n := by
  induction n with
  | zero => exact hs.le
  | succ n ih =>
    rw [stored_succ]
    by_cases hadv : r.Advances n
    · rw [storeLink_advances hr hadv]
      omega
    · rw [storeLink_stays hr hadv]
      omega

theorem stored_p_eq_iff (hr : r.IsLinkPacket) (hs : s.p = 0) :
    (r.stored cached s n).p = n ↔ ∀ m < n, r.Advances m := by
  induction n with
  | zero => simp [hs]
  | succ n ih =>
    have hle : (r.stored cached s n).p ≤ n := stored_p_le hr hs
    rw [stored_succ, Nat.forall_lt_succ_right, ← ih]
    by_cases hadv : r.Advances n
    · rw [storeLink_advances hr hadv]
      simp [hadv]
    · rw [storeLink_stays hr hadv]
      simp only [hadv, and_false, iff_false]
      omega

theorem stored_untouched (hr : r.IsLinkPacket) (hs : s.p = 0) (h : n ≤ j) :
    (r.stored cached s n).p27 j = s.p27 j := by
  induction n with
  | zero => rfl
  | succ n ih =>
    have hle : (r.stored cached s n).p ≤ n := stored_p_le hr hs
    rw [stored_succ, storeLink_other (by omega)]
    exact ih (by omega)

/-- What is behind the pointer is not written again. -/
theorem stored_kept (hr : r.IsLinkPacket) (h : j < (r.stored cached s i).p) (k : Nat) :
    j < (r.stored cached s (i + k)).p ∧
      (r.stored cached s (i + k)).p27 j = (r.stored cached s i).p27 j := by
  induction k with
  | zero => exact ⟨h, rfl⟩
  | succ k ih =>
    rw [← Nat.add_assoc, stored_succ, storeLink_other (by omega)]
    refine ⟨?_, ih.2⟩
    by_cases hadv : r.Advances (i + k)
    · rw [storeLink_advances hr hadv]
      omega
    · rw [storeLink_stays hr hadv]
      exact ih.1

theorem stored_damaged (h : ∀ j, i ≤ j → j < n → r.link j = none) (hi : i ≤ n) :
    r.stored cached s n = r.stored cached s i := by
  induction n, hi using Nat.le_induction with
  | base => rfl
  | succ n hn ih =>
    rw [stored_succ, storeLink_damaged (h n hn (Nat.lt_succ_self n))]
    exact ih fun j hj hlt => h j hj (by omega)

/-- The slot of a link when all links before it advance. -/
theorem stored_page (hr : r.IsLinkPacket) (hs : s.p = 0) (hi : i < 4)
    (hadv : ∀ m < i, r.Advances m) (hlink : r.link i = some (d1, d2))
    (hlater : r.Advances i ∨ ∀ j, i + 1 ≤ j → j < 4 → r.link j = none) :
    ((r.stored cached s 4).p27 i).page =
      if linkNumber d1 = 0xff then 0
      else 0x800 + linkMagazine d1 r.magazineBits * 0x100 + linkNumber d1 := by
  have hp : (r.stored cached s i).p = i := (stored_p_eq_iff hr hs).mpr hadv
  have hpage : ((r.storeLink cached (r.stored cached s i) i).p27 (r.stored cached s i).p).page = _ :=
    (storeLink_correct hr hlink).1
  rw [hp, ← stored_succ] at hpage
  rw [← hpage]
  rcases hlater with hadv | hlater
  · have hlt : i < (r.stored cached s (i + 1)).p := by
      rw [stored_succ, storeLink_advances hr hadv, hp]
      exact Nat.lt_succ_self i
    have hkept := (stored_kept hr hlt (4 - (i + 1))).2
    rw [Nat.add_sub_cancel' hi] at hkept
    rw [hkept]
  · rw [stored_damaged hlater hi]

end

/-! ### All links -/

section
variable {r : Row} {cached : Nat → Bool} {former : Nat → Tstp27} {function : Nat → Nat}

theorem linksRight_of_inPlace (hr : r.IsLinkPacket) (h : r.LinksInPlace) :
    r.LinksRight former (r.decodeLinks cached former function).p27 := by
  have hadvances : ∀ i < 4, ∀ d1 d2, r.link i = some (d1, d2) → ∀ m < i, r.Advances m := by
    intro i hi d1 d2 hlink m hm
    obtain ⟨-, -, hbefore⟩ := h i hi d1 d2 hlink
    obtain ⟨e1, e2, hm', hnumber⟩ := hbefore m hm
    exact ⟨e1, e2, hm', .inr ⟨(h m (by omega) e1 e2 hm').1, hnumber⟩⟩
  constructor
  · intro i hi d1 d2 hlink
    obtain ⟨hmagazine, hnumber, -⟩ := h i hi d1 d2 hlink
    have hlater : r.Advances i ∨ ∀ j, i + 1 ≤ j → j < 4 → r.link j = none := by
      by_cases hadv : r.Advances i
      · exact .inl hadv
      · right
        intro j hj hlt
        by_contra hsome
        obtain ⟨⟨e1, e2⟩, hj'⟩ := Option.ne_none_iff_exists'.mp hsome
        exact hadv (hadvances j hlt e1 e2 hj' i hj)
    have hpage : ((r.stored cached ⟨former, 0, function⟩ 4).p27 i).page = _ := stored_page hr rfl hi
      (hadvances i hi d1 d2 hlink) hlink hlater
    change ((r.stored cached ⟨former, 0, function⟩ 4).p27 i).page = _
    rw [hpage, if_neg hnumber, linkPage, hmagazine]
    rfl
  · intro i hi hlink
    have hlater : ∀ j, i ≤ j → j < 4 → r.link j = none := by
      intro j hj hlt
      by_contra hsome
      obtain ⟨⟨e1, e2⟩, hj'⟩ := Option.ne_none_iff_exists'.mp hsome
      rcases Nat.eq_or_lt_of_le hj with rfl | hij
      · exact hsome hlink
      · obtain ⟨f1, f2, hi', -⟩ := hadvances j hlt e1 e2 hj' i hij
        rw [hlink] at hi'
        cases hi'
    change (r.stored cached ⟨former, 0, function⟩ 4).p27 i = former i
    rw [stored_damaged hlater hi.le]
    exact stored_untouched hr rfl le_rfl

theorem linkPage_pos (d1 : Nat) : 0 < linkPage d1 r.magazineBits := by
  unfold linkPage
  split_ifs <;> omega

/-- The last correct link is in its slot only if all links before it advance. -/
theorem advances_of_right (hr : r.IsLinkPacket) (hempty : ∀ j, (former j).page = 0)
    (h : r.LinksRight former (r.decodeLinks cached former function).p27) {i d1 d2 : Nat}
    (hi : i < 4) (hlink : r.link i = some (d1, d2))
    (hlater : ∀ j, i + 1 ≤ j → j < 4 → r.link j = none) : ∀ m < i, r.Advances m := by
  apply (stored_p_eq_iff hr rfl : (r.stored cached ⟨former, 0, function⟩ i).p = i ↔ _).mp
  by_contra hne
  have hle : (r.stored cached ⟨former, 0, function⟩ i).p ≤ i := stored_p_le hr rfl
  have hslot : (r.stored cached ⟨former, 0, function⟩ 4).p27 i = former i := by
    rw [stored_damaged hlater hi, stored_succ, storeLink_other (Ne.symm hne)]
    exact stored_untouched hr rfl le_rfl
  have hpage : (former i).page = linkPage d1 r.magazineBits := by
    rw [← hslot]
    exact h.correct i hi d1 d2 hlink
  have hpos := linkPage_pos (r := r) d1
  have hzero := hempty i
  omega

theorem exists_last (p : Nat → Prop) {i : Nat} (hi : i < 4) (h : p i) :
    ∃ l < 4, i ≤ l ∧ p l ∧ ∀ j, l + 1 ≤ j → j < 4 → ¬ p j := by
  classical
  refine ⟨Nat.findGreatest p 3, ?_, Nat.le_findGreatest (by omega) h,
    Nat.findGreatest_spec (by omega : i ≤ 3) h, fun j hj hlt => ?_⟩
  · exact Nat.lt_succ_of_le (Nat.findGreatest_le 3)
  · exact Nat.findGreatest_is_greatest hj (by omega)

theorem inPlace_of_right (hr : r.IsLinkPacket) (hempty : ∀ j, (former j).page = 0)
    (h : r.LinksRight former (r.decodeLinks cached former function).p27) : r.LinksInPlace := by
  intro i hi d1 d2 hlink
  obtain ⟨l, hl, hil, hlast, hnone⟩ :=
    exists_last (fun j => r.link j ≠ none) hi (by rw [hlink]; exact Option.some_ne_none _)
  have hlater : ∀ j, l + 1 ≤ j → j < 4 → r.link j = none := fun j hj hlt =>
    not_not.mp (hnone j hj hlt)
  obtain ⟨⟨l1, l2⟩, hlast⟩ := Option.ne_none_iff_exists'.mp hlast
  have hadv := advances_of_right hr hempty h hl hlast hlater
  have hright : ∀ m ≤ l, ∀ e1 e2, r.link m = some (e1, e2) →
      linkNumber e1 ≠ 0xff ∧ linkMagazine e1 r.magazineBits = 0 := by
    intro m hm e1 e2 hm'
    have hmlater : r.Advances m ∨ ∀ j, m + 1 ≤ j → j < 4 → r.link j = none := by
      rcases Nat.eq_or_lt_of_le hm with rfl | hlt
      · exact .inr hlater
      · exact .inl (hadv m hlt)
    have hpage : ((r.stored cached ⟨former, 0, function⟩ 4).p27 m).page = _ := stored_page hr rfl
      (by omega) (fun k hk => hadv k (by omega)) hm' hmlater
    have hsent := h.correct m (by omega) e1 e2 hm'
    change ((r.stored cached ⟨former, 0, function⟩ 4).p27 m).page = _ at hsent
    rw [hpage] at hsent
    have hlt := linkMagazine_lt e1 (magazineBits_lt (r := r))
    have hpos := linkPage_pos (r := r) e1
    unfold linkPage at hsent hpos
    split_ifs at hsent <;> omega
  obtain ⟨hnumber, hmagazine⟩ := hright i hil d1 d2 hlink
  refine ⟨hmagazine, hnumber, fun m hm => ?_⟩
  obtain ⟨e1, e2, hm', hnext⟩ := hadv m (by omega)
  exact ⟨e1, e2, hm', (hnext.resolve_left (hright m (by omega) e1 e2 hm').1).2⟩

end

end Row

end Tuxbox.Tuxtxt
