import Tuxbox.Lib.Loop
import Tuxbox.Tuxtxt.Cache

/-! Going to the subpage or the hex page that is next in the cache.

* `getSubPage_iff`, `nextHex_iff`: when these come to the neighbour. -/
namespace Tuxbox.Tuxtxt

open Loop

/-! ## The two searches -/

def Cache.isCached (c : Cache) (page subpage : Nat) : Bool :=
  (c.astCachetable (page, subpage)).isSome

/-- A page that `tuxtxt_next_hex` looks for. -/
def Cache.isHexPage (c : Cache) (i : Nat) : Bool := (c.subpagetable i).isSome && !isDec i

def wrap (loop : Int) : Int := if loop < 0 then 0x79 else if loop > 0x79 then 0 else loop

section
variable (c : Cache) (page : Nat)

/-- One turn of the loop over the subpages. -/
def subPageTurn (subpage offset loop : Int) : Int ⊕ Int :=
  if loop = subpage ∨ wrap loop = subpage then .inr subpage
  else if c.isCached page (wrap loop).toNat then .inr (wrap loop)
  else .inl (wrap loop + offset)

def getSubPage (fuel : Nat) (subpage offset : Int) : Option Int :=
  turns (subPageTurn c page subpage offset) fuel (subpage + offset)

def nextHexTurn (startpage i : Nat) : Nat ⊕ Nat :=
  let i := if i + 1 > 0x8FF then 0x100 else i + 1
  if i = startpage then .inr i
  else if c.isHexPage i then .inr i
  else .inl i

def nextHex (fuel i : Nat) : Option Nat :=
  turns (nextHexTurn c (if i < 0x100 then 0x100 else i)) fuel i

/-! ## The neighbours -/

/-- The other subpages, from one on. -/
def subpagesFrom (subpage : Nat) : List Nat :=
  List.range' (subpage + 1) (0x7f - subpage) ++ List.range' 0 subpage

def neighbour (subpage : Nat) (forward : Bool) : Nat :=
  let places := subpagesFrom subpage
  ((if forward then places else places.reverse).find? (c.isCached page)).getD subpage

def offset (forward : Bool) : Int := if forward then 1 else -1

/-- The pages from one on, this one last. -/
def pagesFrom (i : Nat) : List Nat :=
  List.range' (i + 1) (0x8ff - i) ++ List.range' 0x100 (min (i + 1 - 0x100) 0x800)

end

/-- There is one of them among the numbers from `a` to before `b`. -/
def Among (found : Nat → Bool) (a b : Nat) : Prop := ∃ x, a ≤ x ∧ x < b ∧ found x = true

section
variable {found : Nat → Bool} {a b n x : Nat} {l : List Nat}

theorem find?_range'_none : (List.range' a n).find? found = none ↔ ¬ Among found a (a + n) := by
  rw [List.find?_eq_none]
  constructor
  · rintro h ⟨x, ha, hb, hx⟩
    exact h x (List.mem_range'_1.mpr ⟨ha, hb⟩) hx
  · intro h x hx hfound
    obtain ⟨ha, hb⟩ := List.mem_range'_1.mp hx
    exact h ⟨x, ha, hb, hfound⟩

theorem find?_reverse_none : l.reverse.find? found = none ↔ l.find? found = none := by
  simp [List.find?_eq_none]

theorem mem_of_find?_range' (h : (List.range' a n).find? found = some x) :
    a ≤ x ∧ x < a + n ∧ found x = true :=
  ⟨(List.mem_range'_1.mp (List.mem_of_find?_eq_some h)).1,
    (List.mem_range'_1.mp (List.mem_of_find?_eq_some h)).2, List.find?_some h⟩

theorem mem_of_find?_reverse (h : (List.range' a n).reverse.find? found = some x) :
    a ≤ x ∧ x < a + n ∧ found x = true := by
  have hmem := List.mem_reverse.mp (List.mem_of_find?_eq_some h)
  exact ⟨(List.mem_range'_1.mp hmem).1, (List.mem_range'_1.mp hmem).2, List.find?_some h⟩

/-- What is in between is never missed if and only if there is something before it or nothing
in it. -/
theorem skip_iff {A H B : List Nat} {d : Nat} (hd : d ∉ H) (hB : ∀ y ∈ B, y ∉ H) :
    (((A ++ B).find? found).getD d = ((A ++ H ++ B).find? found).getD d) ↔
      A.find? found ≠ none ∨ H.find? found = none := by
  rw [List.find?_append, List.find?_append, List.find?_append]
  cases hA : A.find? found with
  | some x => simp
  | none =>
    cases hH : H.find? found with
    | none => simp
    | some x =>
      have hx := List.mem_of_find?_eq_some hH
      refine iff_of_false ?_ (by simp)
      cases hfB : B.find? found with
      | none =>
        rintro rfl
        exact hd hx
      | some y =>
        rintro rfl
        exact hB _ (List.mem_of_find?_eq_some hfB) hx

end

/-! ## Subpages -/

section
variable {c : Cache} {page a k : Nat} {s o l r : Int}

theorem turn_stop : Ends (subPageTurn c page s o) s r ↔ s = r := by
  apply ends_inr
  exact if_pos (.inl rfl)

theorem wrap_of_le (h0 : 0 ≤ l) (h79 : l ≤ 0x79) : wrap l = l := by
  have hin : ¬ l < 0 ∧ ¬ l > 0x79 := by omega
  unfold wrap
  rw [if_neg hin.1, if_neg hin.2]

theorem wrap_high (h : 0x79 < l) : wrap l = 0 := by
  have hpos : ¬ l < 0 := by omega
  unfold wrap
  rw [if_neg hpos, if_pos h]

/-- Only where the loop goes on matters. -/
theorem turn_wrap (hs : l ≠ s) :
    Ends (subPageTurn c page s o) l r ↔ Ends (subPageTurn c page s o) (wrap l) r := by
  have hidem : wrap (wrap l) = wrap l := by
    unfold wrap
    split_ifs <;> omega
  apply ends_congr
  unfold subPageTurn
  simp only [hidem, hs, false_or, or_self]

/-- A turn at a subpage. -/
theorem turn_at (h0 : 0 ≤ l) (h79 : l ≤ 0x79) (hs : l ≠ s) : subPageTurn c page s o l =
    if c.isCached page l.toNat then .inr l else .inl (l + o) := by
  have hno : ¬ (l = s ∨ l = s) := fun h => h.elim hs hs
  unfold subPageTurn
  rw [wrap_of_le h0 h79, if_neg hno]

/-- Upwards from `a`. -/
theorem scan_up (hk : a + k ≤ 0x7a) (hs : s < a ∨ a + k ≤ s) :
    Ends (subPageTurn c page s 1) a r ↔
      (∃ x, (List.range' a k).find? (c.isCached page) = some x ∧ Int.ofNat x = r) ∨
        ((List.range' a k).find? (c.isCached page) = none ∧
          Ends (subPageTurn c page s 1) (a + k) r) := by
  rw [List.range'_eq_map_range]
  apply ends_scan Int.ofNat (fun i => (a + i : Int)) _ _ (Int.add_zero _) rfl
  intro i hi
  rw [turn_at (by omega) (by omega) (by omega), Int.add_assoc]
  rfl

/-- Downwards to `a`. -/
theorem scan_down (hk : a + k ≤ 0x7a) (hs : s < a ∨ a + k ≤ s) :
    Ends (subPageTurn c page s (-1)) (a + k - 1) r ↔
      (∃ x, (List.range' a k).reverse.find? (c.isCached page) = some x ∧ Int.ofNat x = r) ∨
        ((List.range' a k).reverse.find? (c.isCached page) = none ∧
          Ends (subPageTurn c page s (-1)) (a - 1) r) := by
  rw [List.reverse_range']
  apply ends_scan Int.ofNat (fun i => (a + k - 1 - i : Int)) _ _ (Int.sub_zero _) (by omega)
  intro i hi
  have hplace : (a + k - 1 - i : Int).toNat = a + k - 1 - i := by omega
  have hvalue : (a + k - 1 - i : Int) = Int.ofNat (a + k - 1 - i) := by
    rw [Int.ofNat_eq_natCast]
    omega
  have hnext : (a + k - 1 - i + -1 : Int) = a + k - 1 - (i + 1 : Nat) := by omega
  rw [turn_at (by omega) (by omega) (by omega), hplace, hnext, hvalue]

theorem turn_top (hs : s ≠ 0x7a) :
    Ends (subPageTurn c page s o) 0x7a r ↔ Ends (subPageTurn c page s o) 0 r :=
  turn_wrap hs.symm

theorem turn_bottom (hs : s ≠ -1) :
    Ends (subPageTurn c page s o) (-1) r ↔ Ends (subPageTurn c page s o) 0x79 r :=
  turn_wrap hs.symm

end

section
variable {c : Cache} {page s : Nat} {r : Int}

/-- Upwards from a subpage that the loop comes back to. -/
theorem up_low (hs : s ≤ 0x79) : Ends (subPageTurn c page s 1) (s + 1) r ↔
    Int.ofNat (((List.range' (s + 1) (0x79 - s) ++ List.range' 0 s).find?
      (c.isCached page)).getD s) = r := by
  have hrest := @scan_up c page (s + 1) (0x79 - s) s r (by omega) (by omega)
  have htop : ((s + 1 : Nat) + (0x79 - s : Nat) : Int) = 0x7a := by omega
  rw [htop, turn_top (by omega)] at hrest
  have hfirst := @scan_up c page 0 s s r (by omega) (by omega)
  have hend : ((0 : Nat) + s : Int) = s := by omega
  rw [hend, turn_stop] at hfirst
  rw [List.find?_append]
  refine hrest.trans ?_
  cases (List.range' (s + 1) (0x79 - s)).find? (c.isCached page) with
  | some x => simp
  | none =>
    simp only [Option.none_or, reduceCtorEq, false_and, exists_false, false_or, true_and]
    refine hfirst.trans ?_
    cases (List.range' 0 s).find? (c.isCached page) with
    | some x => simp
    | none => simp

/-- Downwards from a subpage that the loop comes back to. -/
theorem down_low (hs : s ≤ 0x79) : Ends (subPageTurn c page s (-1)) (s - 1) r ↔
    Int.ofNat ((((List.range' 0 s).reverse ++ (List.range' (s + 1) (0x79 - s)).reverse).find?
      (c.isCached page)).getD s) = r := by
  have hfirst := @scan_down c page 0 s s r (by omega) (by omega)
  have hstart : ((0 : Nat) + s - 1 : Int) = s - 1 := by omega
  have hbottom : ((0 : Nat) - 1 : Int) = -1 := by omega
  rw [hstart, hbottom, turn_bottom (by omega)] at hfirst
  have hrest := @scan_down c page (s + 1) (0x79 - s) s r (by omega) (by omega)
  have htop : ((s + 1 : Nat) + (0x79 - s : Nat) - 1 : Int) = 0x79 := by omega
  have hend : ((s + 1 : Nat) - 1 : Int) = s := by omega
  rw [htop, hend, turn_stop] at hrest
  rw [List.find?_append]
  refine hfirst.trans ?_
  cases (List.range' 0 s).reverse.find? (c.isCached page) with
  | some x => simp
  | none =>
    simp only [Option.none_or, reduceCtorEq, false_and, exists_false, false_or, true_and]
    refine hrest.trans ?_
    cases (List.range' (s + 1) (0x79 - s)).reverse.find? (c.isCached page) with
    | some x => simp
    | none => simp

/-- With nothing there the loop does not come back to a subpage above the others. -/
theorem not_ends_turn {o l m : Int} (hs : 0x79 < (s : Int)) (hm : m < s) (ho : 0x79 + o ≤ m)
    (hno : ¬ Among (c.isCached page) 0 0x7a) (hl : l ≤ m) :
    ¬ Ends (subPageTurn c page s o) l r := by
  apply not_ends (I := fun l => l ≤ m) _ hl
  intro l hl
  have hwrap : 0 ≤ wrap l ∧ wrap l ≤ 0x79 := by
    unfold wrap
    split_ifs <;> omega
  have hne : ¬ (l = s ∨ wrap l = s) := by omega
  have hnone : ¬ c.isCached page (wrap l).toNat = true := fun h =>
    hno ⟨(wrap l).toNat, Nat.zero_le _, by omega, h⟩
  refine ⟨wrap l + o, by omega, ?_⟩
  unfold subPageTurn
  rw [if_neg hne, if_neg hnone]

/-- Upwards from a subpage above the others. -/
theorem up_high (hs : 0x79 < s) : Ends (subPageTurn c page s 1) (s + 1) r ↔
    (∃ x, (List.range' 0 0x7a).find? (c.isCached page) = some x ∧ Int.ofNat x = r) ∨
      ((List.range' 0 0x7a).find? (c.isCached page) = none ∧ s = 0x7a ∧ Int.ofNat s = r) := by
  have hscan := @scan_up c page 0 0x7a s r (by omega) (by omega)
  have hwrap : wrap (s + 1) = 0 := wrap_high (by omega)
  rw [turn_wrap (by omega), hwrap]
  refine hscan.trans (or_congr Iff.rfl (and_congr_right fun hnone => ?_))
  by_cases htop : s = 0x7a
  · rw [htop]
    exact turn_stop.trans (by simp)
  · have hno := find?_range'_none.mp hnone
    exact iff_of_false (not_ends_turn (by omega) (by omega) (by omega) hno (Int.le_refl 0x7a))
      fun h => htop h.1

/-- Downwards from a subpage above the others. -/
theorem down_high (hs : 0x79 < s) : Ends (subPageTurn c page s (-1)) (s - 1) r ↔
    if s ≠ 0x7a ∧ c.isCached page 0 = true then (0 : Int) = r
    else ∃ x, (List.range' 0 0x7a).reverse.find? (c.isCached page) = some x ∧ Int.ofNat x = r := by
  have hscan := @scan_down c page 0 0x7a s r (by omega) (by omega)
  have hdown : Ends (subPageTurn c page s (-1)) 0x79 r ↔
      ∃ x, (List.range' 0 0x7a).reverse.find? (c.isCached page) = some x ∧ Int.ofNat x = r := by
    refine hscan.trans (or_iff_left ?_)
    rintro ⟨hnone, hends⟩
    have hno := find?_range'_none.mp (find?_reverse_none.mp hnone)
    exact not_ends_turn (by omega) (by omega) (by omega) hno (by decide : (-1 : Int) ≤ 0x79) hends
  by_cases htop : s = 0x7a
  · rw [if_neg fun h => h.1 htop, ← hdown, htop]
    rfl
  · have hwrap : wrap (s - 1) = 0 := wrap_high (by omega)
    rw [turn_wrap (by omega), hwrap]
    have hturn := @turn_at c page s (-1) 0 (Int.le_refl 0) (by decide) (by omega)
    by_cases hzero : c.isCached page 0 = true
    · rw [if_pos ⟨htop, hzero⟩]
      exact ends_inr (hturn.trans (if_pos hzero))
    · rw [if_neg fun h => hzero h.2, ← hdown, ends_inl (hturn.trans (if_neg hzero))]
      exact turn_bottom (by omega)

end

/-- The way to the neighbour does not lead through the subpages from 0x7a on, or there is nothing
there, and the loop comes back to where it began or finds something before. -/
def Reached (cached : Nat → Bool) (s : Nat) (forward : Bool) : Prop :=
  if s ≤ 0x79 then
    (if forward then Among cached (s + 1) 0x7a else Among cached 0 s) ∨ ¬ Among cached 0x7a 0x80
  else if forward then ¬ Among cached (s + 1) 0x80 ∧ (s = 0x7a ∨ Among cached 0 0x7a)
  else
    ¬ Among cached 0x7a s ∧ Among cached 0 0x7a ∧
      (s = 0x7a ∨ cached 0 = false ∨ ¬ Among cached 1 0x7a)

section
variable {c : Cache} {page s a n : Nat} {found : Nat → Bool}

theorem find?_range'_ne_none : (List.range' a n).find? found ≠ none ↔ Among found a (a + n) := by
  rw [ne_eq, find?_range'_none, not_not]

theorem not_mem_range' {x k : Nat} (h : x < a ∨ a + k ≤ x) : x ∉ List.range' a k := fun hmem => by
  obtain ⟨hge, hlt⟩ := List.mem_range'_1.mp hmem
  omega

/-- A loop that comes back to where it began. -/
theorem neighbour_low (hs : s ≤ 0x79) (forward : Bool) :
    Ends (subPageTurn c page s (offset forward)) (s + offset forward) (neighbour c page s forward) ↔
      Reached (c.isCached page) s forward := by
  have hplaces : subpagesFrom s =
      List.range' (s + 1) (0x79 - s) ++ List.range' 0x7a 6 ++ List.range' 0 s := by
    have happend := @List.range'_append_1 (s + 1) (0x79 - s) 6
    have hmid : s + 1 + (0x79 - s) = 0x7a := by omega
    have hlen : 0x79 - s + 6 = 0x7f - s := by omega
    rw [hmid, hlen] at happend
    unfold subpagesFrom
    rw [happend]
  have hend : s + 1 + (0x79 - s) = 0x7a := by omega
  unfold Reached
  rw [if_pos hs]
  cases forward with
  | true =>
    have hneighbour : neighbour c page s true = ((List.range' (s + 1) (0x79 - s) ++
        List.range' 0x7a 6 ++ List.range' 0 s).find? (c.isCached page)).getD s := by
      rw [← hplaces]
      rfl
    have hskip := @skip_iff (c.isCached page) (List.range' (s + 1) (0x79 - s)) (List.range' 0x7a 6)
      (List.range' 0 s) s (not_mem_range' (by omega))
      fun y hy => not_mem_range' (by have := List.mem_range'_1.mp hy; omega)
    rw [find?_range'_ne_none, find?_range'_none, hend, ← hneighbour] at hskip
    exact (up_low hs).trans (Int.ofNat_inj.trans hskip)
  | false =>
    have hneighbour : neighbour c page s false = (((List.range' 0 s).reverse ++
        (List.range' 0x7a 6).reverse ++ (List.range' (s + 1) (0x79 - s)).reverse).find?
          (c.isCached page)).getD s := by
      rw [List.append_assoc, ← List.reverse_append, ← List.reverse_append, ← hplaces]
      rfl
    have hskip := @skip_iff (c.isCached page) (List.range' 0 s).reverse (List.range' 0x7a 6).reverse
      (List.range' (s + 1) (0x79 - s)).reverse s
      (mt List.mem_reverse.mp (not_mem_range' (by omega)))
      fun y hy => mt List.mem_reverse.mp (not_mem_range' (by
        have := List.mem_range'_1.mp (List.mem_reverse.mp hy)
        omega))
    rw [ne_eq, find?_reverse_none, find?_reverse_none, ← ne_eq, find?_range'_ne_none,
      find?_range'_none, Nat.zero_add, ← hneighbour] at hskip
    exact (down_low hs).trans (Int.ofNat_inj.trans hskip)

/-- From above 0 is found if and only if there is nothing but it. -/
theorem zero_iff {x : Nat} (h : (List.range' 0 0x7a).reverse.find? found = some x) :
    (0 : Int) = x ↔ ¬ Among found 1 0x7a := by
  have hsplit : (List.range' 0 0x7a).reverse = (List.range' 1 0x79).reverse ++ [0] :=
    List.reverse_cons
  rw [hsplit, List.find?_append] at h
  cases habove : (List.range' 1 0x79).reverse.find? found with
  | some y =>
    obtain ⟨hy, hlt, hfound⟩ := mem_of_find?_reverse habove
    rw [habove, Option.some_or, Option.some_inj] at h
    exact iff_of_false (by omega) fun hno => hno ⟨y, hy, hlt, hfound⟩
  | none =>
    rw [habove, Option.none_or] at h
    obtain rfl := List.mem_singleton.mp (List.mem_of_find?_eq_some h)
    exact iff_of_true rfl (find?_range'_none.mp (find?_reverse_none.mp habove))

/-- A loop that begins above the subpages that it goes round. -/
theorem neighbour_high (hs : 0x79 < s) (hlast : s < 0x80) (forward : Bool) :
    Ends (subPageTurn c page s (offset forward)) (s + offset forward) (neighbour c page s forward) ↔
      Reached (c.isCached page) s forward := by
  have hplaces : subpagesFrom s =
      List.range' (s + 1) (0x7f - s) ++ List.range' 0 0x7a ++ List.range' 0x7a (s - 0x7a) := by
    have happend := @List.range'_append_1 0 0x7a (s - 0x7a)
    have hlen : 0x7a + (s - 0x7a) = s := by omega
    rw [Nat.zero_add, hlen] at happend
    unfold subpagesFrom
    rw [List.append_assoc, happend]
  have hlow : ¬ s ≤ 0x79 := by omega
  unfold Reached
  rw [if_neg hlow]
  cases forward with
  | true =>
    have hneighbour : neighbour c page s true = ((List.range' (s + 1) (0x7f - s) ++
        List.range' 0 0x7a ++ List.range' 0x7a (s - 0x7a)).find? (c.isCached page)).getD s := by
      rw [← hplaces]
      rfl
    rw [List.find?_append, List.find?_append] at hneighbour
    refine (up_high hs).trans ?_
    cases habove : (List.range' (s + 1) (0x7f - s)).find? (c.isCached page) with
    | some y =>
      obtain ⟨hy, hy80, hcached⟩ := mem_of_find?_range' habove
      rw [habove, Option.some_or, Option.some_or, Option.getD_some] at hneighbour
      rw [hneighbour]
      refine iff_of_false ?_ fun h => h.1 ⟨y, hy, by omega, hcached⟩
      rintro (⟨x, hx, heq⟩ | ⟨-, -, heq⟩)
      · have hlt := (mem_of_find?_range' hx).2.1
        have := Int.ofNat_inj.mp heq
        omega
      · have := Int.ofNat_inj.mp heq
        omega
    | none =>
      have hno := find?_range'_none.mp habove
      rw [show s + 1 + (0x7f - s) = 0x80 by omega] at hno
      rw [and_iff_right hno]
      rw [habove, Option.none_or] at hneighbour
      cases hfound : (List.range' 0 0x7a).find? (c.isCached page) with
      | some x =>
        rw [hfound, Option.some_or, Option.getD_some] at hneighbour
        rw [hneighbour]
        have hamong := find?_range'_ne_none.mp (hfound ▸ Option.some_ne_none x)
        exact iff_of_true (.inl ⟨x, rfl, rfl⟩) (.inr hamong)
      | none =>
        have hempty := find?_range'_none.mp hfound
        rw [hfound, Option.none_or] at hneighbour
        constructor
        · rintro (⟨x, hx, -⟩ | ⟨-, htop, -⟩)
          · cases hx
          · exact .inl htop
        · rintro (rfl | hamong)
          · rw [hneighbour]
            exact .inr ⟨rfl, rfl, rfl⟩
          · exact absurd hamong hempty
  | false =>
    rw [if_neg Bool.false_ne_true]
    have hneighbour : neighbour c page s false = (((List.range' 0x7a (s - 0x7a)).reverse ++
        ((List.range' 0 0x7a).reverse ++ (List.range' (s + 1) (0x7f - s)).reverse)).find?
          (c.isCached page)).getD s := by
      rw [← List.reverse_append, ← List.reverse_append, ← hplaces]
      rfl
    rw [List.find?_append, List.find?_append] at hneighbour
    refine (down_high hs).trans ?_
    cases hbelow : (List.range' 0x7a (s - 0x7a)).reverse.find? (c.isCached page) with
    | some y =>
      obtain ⟨hy, hys, hcached⟩ := mem_of_find?_reverse hbelow
      rw [hbelow, Option.some_or, Option.getD_some] at hneighbour
      rw [hneighbour]
      refine iff_of_false (fun h => ?_) fun h => h.1 ⟨y, hy, by omega, hcached⟩
      split at h
      · omega
      · obtain ⟨x, hx, heq⟩ := h
        have hlt := (mem_of_find?_reverse hx).2.1
        have := Int.ofNat_inj.mp heq
        omega
    | none =>
      have hno := find?_range'_none.mp (find?_reverse_none.mp hbelow)
      rw [show 0x7a + (s - 0x7a) = s by omega] at hno
      rw [and_iff_right hno]
      rw [hbelow, Option.none_or] at hneighbour
      cases hfound : (List.range' 0 0x7a).reverse.find? (c.isCached page) with
      | none =>
        have hempty := find?_range'_none.mp (find?_reverse_none.mp hfound)
        refine iff_of_false (fun h => ?_) fun h => hempty h.1
        split at h
        · rename_i hzero
          exact hempty ⟨0, Nat.le_refl 0, by decide, hzero.2⟩
        · obtain ⟨x, hx, -⟩ := h
          cases hx
      | some x =>
        have hx := mem_of_find?_reverse hfound
        rw [hfound, Option.some_or, Option.getD_some] at hneighbour
        have hamong : Among (c.isCached page) 0 0x7a := ⟨x, hx⟩
        rw [hneighbour, and_iff_right hamong]
        split
        · rename_i hzero
          rw [or_iff_right hzero.1, or_iff_right (by rw [hzero.2]; decide)]
          exact zero_iff hfound
        · rename_i hzero
          refine iff_of_true ⟨x, rfl, rfl⟩ ?_
          by_cases htop : s = 0x7a
          · exact .inl htop
          · exact .inr (.inl (Bool.eq_false_iff.mpr fun hcached => hzero ⟨htop, hcached⟩))

end

/-! ## Hex pages -/

section
variable {c : Cache} {start q a k i r : Nat}

theorem hex_turn (hq : q + 1 ≤ 0x8FF) (hstart : q + 1 ≠ start) : nextHexTurn c start q =
    if c.isHexPage (q + 1) then .inr (q + 1) else .inl (q + 1) := by
  have hin : ¬ q + 1 > 0x8FF := by omega
  unfold nextHexTurn
  rw [if_neg hin]
  exact if_neg hstart

/-- Behind the last page the first one comes. -/
theorem hex_wrap (hq : 0x8FF ≤ q) :
    Ends (nextHexTurn c start) q r ↔ Ends (nextHexTurn c start) 0xFF r := by
  have hout : q + 1 > 0x8FF := by omega
  apply ends_congr
  unfold nextHexTurn
  rw [if_pos hout]
  rfl

theorem hex_stop (hq : q + 1 ≤ 0x8FF) :
    Ends (nextHexTurn c (q + 1)) q r ↔ q + 1 = r := by
  have hin : ¬ q + 1 > 0x8FF := by omega
  apply ends_inr
  unfold nextHexTurn
  rw [if_neg hin]
  exact if_pos rfl

theorem hex_scan (hk : q + k ≤ 0x8FF) (hstart : start ≤ q ∨ q + k < start) :
    Ends (nextHexTurn c start) q r ↔
      (∃ x, (List.range' (q + 1) k).find? c.isHexPage = some x ∧ x = r) ∨
        ((List.range' (q + 1) k).find? c.isHexPage = none ∧
          Ends (nextHexTurn c start) (q + k) r) := by
  rw [List.range'_eq_map_range]
  apply ends_scan id (fun i => q + i) _ _ rfl rfl
  intro i hi
  rw [hex_turn (by omega) (by omega), Nat.add_right_comm q 1 i]
  rfl

/-- What `tuxtxt_next_hex` is for. -/
def FindsHex (c : Cache) (i : Nat) : Prop :=
  ∃ r, (∃ n, ∀ fuel ≥ n, nextHex c fuel i = some r) ∧
    ∀ x, (pagesFrom i).find? c.isHexPage = some x → r = x

theorem findsHex_page (hi : 0x100 ≤ i) (hlast : i ≤ 0x8FF) : FindsHex c i := by
  have hstart : (if i < 0x100 then 0x100 else i) = i := if_neg (by omega)
  have hpages : pagesFrom i =
      List.range' (i + 1) (0x8FF - i) ++ (List.range' 0x100 (i - 0x100) ++ [i]) := by
    have hmin : min (i + 1 - 0x100) 0x800 = i - 0x100 + 1 := by omega
    have hself : 0x100 + (i - 0x100) = i := by omega
    unfold pagesFrom
    rw [hmin, List.range'_1_concat, hself]
  unfold FindsHex nextHex
  rw [hstart, hpages, List.find?_append, List.find?_append]
  have habove := fun r => @hex_scan c i i (0x8FF - i) r (by omega) (by omega)
  cases hA : (List.range' (i + 1) (0x8FF - i)).find? c.isHexPage with
  | some x =>
    refine ⟨x, (habove x).mpr (.inl ⟨x, hA, rfl⟩), fun y hy => ?_⟩
    exact Option.some_inj.mp hy
  | none =>
    have hend : i + (0x8FF - i) = 0x8FF := by omega
    have hstay := fun r => (habove r).mpr ∘ fun h => .inr ⟨hA, h⟩
    have hbelow := fun r => @hex_scan c i 0xFF (i - 0x100) r (by omega) (by omega)
    simp only [hend, hex_wrap (Nat.le_refl _)] at hstay
    cases hB : (List.range' 0x100 (i - 0x100)).find? c.isHexPage with
    | some x =>
      refine ⟨x, hstay x ((hbelow x).mpr (.inl ⟨x, hB, rfl⟩)), fun y hy => ?_⟩
      exact Option.some_inj.mp hy
    | none =>
      have hlast : 0xFF + (i - 0x100) + 1 = i := by omega
      have hstop := @hex_stop c (0xFF + (i - 0x100)) i (by omega)
      rw [hlast] at hstop
      refine ⟨i, hstay i ((hbelow i).mpr (.inr ⟨hB, hstop.mpr rfl⟩)), fun y hy => ?_⟩
      exact (List.mem_singleton.mp (List.mem_of_find?_eq_some hy)).symm

theorem findsHex_below (hi : i < 0x100) : FindsHex c i ↔
    Among c.isHexPage (i + 1) 0x100 ∨ ¬ Among c.isHexPage 0x100 0x900 := by
  have hstart : (if i < 0x100 then 0x100 else i) = 0x100 := if_pos hi
  have hpages : pagesFrom i = List.range' (i + 1) (0xFF - i) ++ List.range' 0x100 0x800 := by
    have hmin : min (i + 1 - 0x100) 0x800 = 0 := by omega
    have happend := @List.range'_append_1 (i + 1) (0xFF - i) 0x800
    have hmid : i + 1 + (0xFF - i) = 0x100 := by omega
    have hlen : 0xFF - i + 0x800 = 0x8FF - i := by omega
    rw [hmid, hlen] at happend
    unfold pagesFrom
    rw [hmin, happend]
    exact List.append_nil _
  unfold FindsHex nextHex
  rw [hstart, hpages, List.find?_append]
  have hscan := fun r => @hex_scan c 0x100 i (0xFF - i) r (by omega) (by omega)
  have hend : i + (0xFF - i) = 0xFF := by omega
  have hbefore : (List.range' (i + 1) (0xFF - i)).find? c.isHexPage ≠ none ↔
      Among c.isHexPage (i + 1) 0x100 := by
    rw [find?_range'_ne_none, show i + 1 + (0xFF - i) = 0x100 by omega]
  cases hA : (List.range' (i + 1) (0xFF - i)).find? c.isHexPage with
  | some x =>
    refine iff_of_true ⟨x, (hscan x).mpr (.inl ⟨x, hA, rfl⟩), fun y hy => ?_⟩
      (.inl (hbefore.mp (hA ▸ Option.some_ne_none x)))
    exact Option.some_inj.mp hy
  | none =>
    have hstop : ∀ r, Ends (nextHexTurn c 0x100) i r ↔ 0x100 = r := fun r => by
      refine (hscan r).trans ?_
      rw [hA, hend, hex_stop (by decide)]
      simp
    have hdec : c.isHexPage 0x100 = false := by
      unfold Cache.isHexPage
      rw [show isDec 0x100 = true by decide, Bool.not_true, Bool.and_false]
    rw [or_iff_right fun h => hbefore.mpr h hA, Option.none_or]
    constructor
    · rintro ⟨r, hr, hfirst⟩ ⟨x, hx⟩
      obtain rfl := (hstop r).mp hr
      cases hB : (List.range' 0x100 0x800).find? c.isHexPage with
      | none => exact find?_range'_none.mp hB ⟨x, hx⟩
      | some y =>
        obtain rfl := hfirst y hB
        rw [List.find?_some hB] at hdec
        cases hdec
    · intro hno
      refine ⟨0x100, (hstop 0x100).mpr rfl, fun x hx => ?_⟩
      rw [find?_range'_none.mpr hno] at hx
      cases hx

theorem findsHex_above (hi : 0x8FF < i) : FindsHex c i ↔ Among c.isHexPage 0x100 0x900 := by
  have hstart : (if i < 0x100 then 0x100 else i) = i := if_neg (by omega)
  have hpages : pagesFrom i = List.range' 0x100 0x800 := by
    have hmin : min (i + 1 - 0x100) 0x800 = 0x800 := by omega
    have hnone : 0x8FF - i = 0 := by omega
    unfold pagesFrom
    rw [hmin, hnone]
    rfl
  unfold FindsHex nextHex
  rw [hstart, hpages]
  have hscan := fun r => (@hex_wrap c i i r (by omega)).trans
    (@hex_scan c i 0xFF 0x800 r (by omega) (by omega))
  cases hA : (List.range' 0x100 0x800).find? c.isHexPage with
  | some x =>
    refine iff_of_true ⟨x, (hscan x).mpr (.inl ⟨x, hA, rfl⟩), fun y hy => ?_⟩
      (find?_range'_ne_none.mp (hA ▸ Option.some_ne_none x))
    exact Option.some_inj.mp hy
  | none =>
    have hno := find?_range'_none.mp hA
    refine iff_of_false ?_ hno
    rintro ⟨r, hr, -⟩
    refine not_ends (I := fun q => 0xFF ≤ q) (fun q hq => ?_) (by omega) hr
    have hnext : 0x100 ≤ (if q + 1 > 0x8FF then 0x100 else q + 1) ∧
        (if q + 1 > 0x8FF then 0x100 else q + 1) < 0x900 := by
      split <;> omega
    refine ⟨if q + 1 > 0x8FF then 0x100 else q + 1, by omega, ?_⟩
    unfold nextHexTurn
    have hne : (if q + 1 > 0x8FF then 0x100 else q + 1) ≠ i := by omega
    have hhex : ¬ c.isHexPage (if q + 1 > 0x8FF then 0x100 else q + 1) = true := fun h =>
      hno ⟨_, hnext.1, hnext.2, h⟩
    dsimp only
    rw [if_neg hne, if_neg hhex]

end

/-- Of a page number the next hex page is found; the search from below 0x100 does not go on there,
and from a number above all pages it does not end without one. -/
theorem findsHex_iff (c : Cache) (i : Nat) : FindsHex c i ↔
    (i < 0x100 → Among c.isHexPage (i + 1) 0x100 ∨ ¬ Among c.isHexPage 0x100 0x900) ∧
      (0x8FF < i → Among c.isHexPage 0x100 0x900) := by
  rcases Nat.lt_or_ge i 0x100 with hlow | hge
  · rw [findsHex_below hlow]
    exact ⟨fun h => ⟨fun _ => h, fun hgt => by omega⟩, fun h => h.1 hlow⟩
  · rcases Nat.lt_or_ge 0x8FF i with hhigh | hle
    · rw [findsHex_above hhigh]
      exact ⟨fun h => ⟨fun hlt => by omega, fun _ => h⟩, fun h => h.2 hhigh⟩
    · exact iff_of_true (findsHex_page hge hle) ⟨fun hlt => by omega, fun hgt => by omega⟩

/-- When the loops end, and at the neighbour. -/
theorem neighbour_found_iff (c : Cache) (page i : Nat) {s : Nat} (hs : s < 0x80) (forward : Bool) :
    ((∃ n, ∀ fuel ≥ n, getSubPage c page fuel s (offset forward) =
        some ↑(neighbour c page s forward)) ↔
      Reached (c.isCached page) s forward) ∧
    (FindsHex c i ↔
      (i < 0x100 → Among c.isHexPage (i + 1) 0x100 ∨ ¬ Among c.isHexPage 0x100 0x900) ∧
        (0x8FF < i → Among c.isHexPage 0x100 0x900)) := by
  refine ⟨?_, findsHex_iff c i⟩
  rcases Nat.lt_or_ge 0x79 s with hhigh | hlow
  · exact neighbour_high hhigh hs forward
  · exact neighbour_low hlow forward

/-- One subpage of page 100. -/
def onlySubPage (subpage : Nat) : Cache :=
  { Cache.cleared fun _ => PageData.blank with
    astCachetable := fun p => if p = (0x100, subpage) then some TstCachedPage.fresh else none }

theorem neighbour_found_iff_sample :
    ((∃ n, ∀ fuel ≥ n, getSubPage (onlySubPage 3) 0x100 fuel (0 : Nat) (offset true) =
        some ↑(neighbour (onlySubPage 3) 0x100 0 true)) ↔
      Reached ((onlySubPage 3).isCached 0x100) 0 true) ∧
    (FindsHex (onlySubPage 3) 0x100 ↔
      (0x100 < 0x100 → Among (onlySubPage 3).isHexPage 0x101 0x100 ∨
        ¬ Among (onlySubPage 3).isHexPage 0x100 0x900) ∧
      (0x8FF < 0x100 → Among (onlySubPage 3).isHexPage 0x100 0x900)) :=
  neighbour_found_iff (onlySubPage 3) 0x100 0x100 (by decide) true

theorem onlySubPage_isCached (subpage x : Nat) :
    (onlySubPage subpage).isCached 0x100 x = decide (x = subpage) := by
  unfold Cache.isCached onlySubPage
  by_cases h : x = subpage
  · simp [h]
  · simp [h]

/-- From subpage 7b, the only one, the search does not end; from subpage 1 it does not come to
subpage 7f. -/
theorem neighbour_not_found :
    (¬ ∃ r n, ∀ fuel ≥ n, getSubPage (onlySubPage 0x7b) 0x100 fuel (0x7b : Nat) 1 = some r) ∧
      (∃ n, ∀ fuel ≥ n, getSubPage (onlySubPage 0x7f) 0x100 fuel (1 : Nat) 1 = some (1 : Nat)) ∧
      neighbour (onlySubPage 0x7f) 0x100 1 true = 0x7f := by
  refine ⟨?_, (up_low (by decide)).mpr (by decide), by decide⟩
  rintro ⟨r, hends⟩
  rcases (up_high (by decide)).mp hends with ⟨x, hx, -⟩ | ⟨-, htop, -⟩
  · obtain ⟨-, hlt, hcached⟩ := mem_of_find?_range' hx
    rw [onlySubPage_isCached] at hcached
    have := of_decide_eq_true hcached
    omega
  · exact absurd htop (by decide)

end Tuxbox.Tuxtxt
