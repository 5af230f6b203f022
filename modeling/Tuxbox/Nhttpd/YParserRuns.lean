import Tuxbox.Nhttpd.YParser
import Mathlib.Data.List.Infix
import Mathlib.Logic.Relation

/-!
# Where the commands of a template come from

A run of the loop in which every character remembers its place in the template. A
command that starts in the template cannot be a script the template does not
have, and it takes characters of the template away.
-/

namespace Tuxbox.Nhttpd

section
variable {α σ : Type} {byte : α → Byte} {text : Byte → α} {r : Request σ}

/-! ## Characters without what they carry -/

theorem ySplitString_map (c : Byte) (s : List α) :
    ySplitString id c (s.map byte) = ((ySplitString byte c s).1,
      (ySplitString byte c s).2.1.map byte, (ySplitString byte c s).2.2.map byte) := by
  have h : (s.map byte).findIdx? (fun x => id x = c) = s.findIdx? (fun x => byte x = c) := by
    rw [List.findIdx?_map]
    rfl
  unfold ySplitString
  rw [h]
  cases s.findIdx? (fun x => byte x = c) with
  | none => rfl
  | some i => simp [List.map_take, List.map_drop]

theorem ifValue_map (holds : Str → Bool) (name : List α) :
    ifValue id holds (name.map byte) = (ifValue byte holds name).map byte := by
  unfold ifValue
  rw [ySplitString_map]
  rcases ySplitString byte tilde name with ⟨found, value, branches⟩
  cases found with
  | false => rfl
  | true =>
    simp only [ySplitString_map, List.map_id]
    split <;> rfl

theorem ifValues_map (holds : Str → Str → Bool) (name : List α) :
    ifValues id holds (name.map byte) = (ifValues byte holds name).map byte := by
  unfold ifValues
  rw [ySplitString_map]
  rcases ySplitString byte tilde name with ⟨found, left, rest⟩
  cases found with
  | false => rfl
  | true => simp only [List.map_id, ifValue_map]

theorem yWebCgiCmd_map (ht : ∀ b, byte (text b) = b) (s : Session σ) (ycmd : List α) :
    yWebCgiCmd id id r s (ycmd.map byte) =
      ((yWebCgiCmd byte text r s ycmd).1.map byte, (yWebCgiCmd byte text r s ycmd).2) := by
  have hid : ∀ l : Str, (l.map text).map byte = l := by
    intro l
    rw [List.map_map]
    exact (List.map_congr_left fun b _ => ht b).trans (List.map_id l)
  unfold yWebCgiCmd
  rw [ySplitString_map]
  rcases ySplitString byte colon ycmd with ⟨found, ycmdType, ycmdName⟩
  cases found with
  | false =>
    simp only [List.map_id]
    split_ifs <;> simp [hid, ht]
  | true =>
    simp only [List.map_id, ifValue_map, ifValues_map]
    split_ifs <;> try simp [hid]
    split <;> simp

theorem pairAt_map (a b : Byte) (s : List α) (i : Nat) :
    pairAt id a b (s.map byte) i = pairAt byte a b s i := by
  simp [pairAt]

theorem find_map (a b : Byte) (s : List α) : find id a b (s.map byte) = find byte a b s := by
  simp [find, pairAt_map]

theorem rfind_map (a b : Byte) (s : List α) (last : Nat) :
    rfind id a b (s.map byte) last = rfind byte a b s last := by
  simp [rfind, pairAt_map]

theorem nextCommand_map (s : List α) :
    nextCommand id (s.map byte) =
      (nextCommand byte s).map fun c => (c.1.map byte, c.2.1.map byte, c.2.2.map byte) := by
  unfold nextCommand
  rw [find_map]
  cases find byte equalSign braceClose s with
  | none => rfl
  | some last =>
    simp only [rfind_map]
    cases rfind byte braceOpen equalSign s last with
    | none => rfl
    | some start =>
      simp only [Option.map_some, List.map_take, List.map_drop]
      split <;> simp [List.map_take, List.map_drop]

/-- A state as the code sees it. -/
def bytesOf (byte : α → Byte) (x : List α × Session σ) : Str × Session σ := (x.1.map byte, x.2)

theorem parsingStep_map (ht : ∀ b, byte (text b) = b) (x : List α × Session σ) :
    parsingStep id id r (bytesOf byte x) = (parsingStep byte text r x).map (bytesOf byte) := by
  unfold parsingStep bytesOf
  rw [nextCommand_map]
  cases nextCommand byte x.1 with
  | none => rfl
  | some c =>
    obtain ⟨before, ycmd, behind⟩ := c
    simp [yWebCgiCmd_map ht]

/-- The places change nothing about the bytes. -/
theorem cgiCmdParsing_map (ht : ∀ b, byte (text b) = b) (fuel : Nat) (x : List α × Session σ) :
    cgiCmdParsing id id r fuel (bytesOf byte x) =
      (cgiCmdParsing byte text r fuel x).map (bytesOf byte) := by
  induction fuel generalizing x with
  | zero => rfl
  | succ fuel ih =>
    simp only [cgiCmdParsing, parsingStep_map ht]
    cases parsingStep byte text r x with
    | none => rfl
    | some y => exact ih y

end

/-! ## One round -/

section
variable {α σ : Type} {byte : α → Byte} {text : Byte → α} {r : Request σ}

theorem find_pair {a b : Byte} {s : List α} {i : Nat} (h : find byte a b s = some i) :
    pairAt byte a b s i = true := by
  exact List.find?_some h

theorem rfind_pair {a b : Byte} {s : List α} {last i : Nat}
    (h : rfind byte a b s last = some i) : pairAt byte a b s i = true ∧ i ≤ last := by
  refine ⟨List.find?_some h, ?_⟩
  have hmem := List.mem_of_find?_eq_some h
  simp only [List.mem_reverse, List.mem_range] at hmem
  omega

theorem pair_split {a b : Byte} {s : List α} {i : Nat} (h : pairAt byte a b s i = true) :
    ∃ x y, byte x = a ∧ byte y = b ∧ s.drop i = x :: y :: s.drop (i + 2) := by
  simp only [pairAt, Bool.and_eq_true, beq_iff_eq, Option.map_eq_some_iff] at h
  obtain ⟨⟨x, hx, rfl⟩, y, hy, rfl⟩ := h
  obtain ⟨hi, rfl⟩ := List.getElem?_eq_some_iff.mp hx
  obtain ⟨hi', rfl⟩ := List.getElem?_eq_some_iff.mp hy
  refine ⟨_, _, rfl, rfl, ?_⟩
  rw [List.drop_eq_getElem_cons hi, List.drop_eq_getElem_cons hi']

/-- Where a command stands: between its marks, or, for `{=}`, from the end mark on. -/
theorem nextCommand_spec {s before ycmd behind : List α}
    (h : nextCommand byte s = some (before, ycmd, behind)) :
    ∃ x y, byte x = braceOpen ∧ byte y = equalSign ∧
      ((∃ x' y', s = before ++ x :: y :: ycmd ++ x' :: y' :: behind) ∨
        ∃ z, byte z = braceClose ∧ s = before ++ x :: y :: z :: behind ∧ ycmd = z :: behind) := by
  unfold nextCommand at h
  cases hlast : find byte equalSign braceClose s with
  | none => simp [hlast] at h
  | some last =>
    rw [hlast] at h
    dsimp only at h
    cases hstart : rfind byte braceOpen equalSign s last with
    | none => simp [hstart] at h
    | some start =>
      rw [hstart] at h
      injection h with h
      injection h with hbefore h
      injection h with hycmd hbehind
      obtain ⟨hopen, hle⟩ := rfind_pair hstart
      obtain ⟨x, y, hx, hy, hs⟩ := pair_split hopen
      obtain ⟨x', y', hx', hy', hs'⟩ := pair_split (find_pair hlast)
      have hsplit : s = before ++ x :: y :: s.drop (start + 2) := by
        rw [← hbefore, ← hs, List.take_append_drop]
      refine ⟨x, y, hx, hy, ?_⟩
      by_cases hlt : last < start + 2
      · right
        have hne : start ≠ last := by
          rintro rfl
          rw [hs] at hs'
          injection hs' with hxx
          rw [← hxx, hx] at hx'
          exact absurd hx' (by decide)
        have hlast' : last = start + 1 := by omega
        subst hlast'
        have hdrop : s.drop (start + 2) = y' :: s.drop (start + 3) := by
          have := congrArg List.tail hs'
          rwa [List.tail_drop] at this
        rw [if_pos hlt] at hycmd
        refine ⟨y', hy', ?_, ?_⟩
        · rw [← hbehind, ← hdrop]
          exact hsplit
        · rw [← hycmd, ← hbehind, hdrop]
      · left
        rw [if_neg hlt] at hycmd
        refine ⟨x', y', ?_⟩
        have hrest : s.drop (start + 2) = ycmd ++ x' :: y' :: behind := by
          rw [← hycmd, ← hbehind, ← hs']
          have hd : s.drop last = (s.drop (start + 2)).drop (last - (start + 2)) := by
            rw [List.drop_drop]
            congr 1
            omega
          rw [hd, List.take_append_drop]
        rw [hrest] at hsplit
        simpa using hsplit

/-! ## One command -/

theorem ySplitString_true {c : Byte} {s before behind : List α}
    (h : ySplitString byte c s = (true, before, behind)) :
    ∃ x, byte x = c ∧ s = before ++ x :: behind ∧
      s.findIdx? (fun x => byte x = c) = some before.length := by
  unfold ySplitString at h
  cases hi : s.findIdx? (fun x => byte x = c) with
  | none => simp [hi] at h
  | some i =>
    rw [hi] at h
    injection h with _ h
    injection h with hbefore hbehind
    obtain ⟨hlt, hx, -⟩ := List.findIdx?_eq_some_iff_getElem.mp hi
    refine ⟨s[i], by simpa using hx, ?_, ?_⟩
    · rw [← hbefore, ← hbehind, ← List.drop_eq_getElem_cons hlt, List.take_append_drop]
    · rw [← hbefore, List.length_take, min_eq_left hlt.le]

theorem ySplitString_isInfix (c : Byte) (s : List α) :
    (ySplitString byte c s).2.1 <:+: s ∧ (ySplitString byte c s).2.2 <:+: s := by
  unfold ySplitString
  cases s.findIdx? (fun x => byte x = c) with
  | none => exact ⟨List.infix_refl s, List.nil_infix⟩
  | some i => exact ⟨(List.take_prefix i s).isInfix, (List.drop_suffix (i + 1) s).isInfix⟩

theorem ifValue_isInfix (holds : Str → Bool) (name : List α) : ifValue byte holds name <:+: name := by
  unfold ifValue
  have hname := @ySplitString_isInfix _ byte tilde name
  rcases hsplit : ySplitString byte tilde name with ⟨found, value, branches⟩
  rw [hsplit] at hname
  cases found with
  | false => exact List.nil_infix
  | true =>
    have hbranches := @ySplitString_isInfix _ byte tilde branches
    dsimp only
    split
    · exact hbranches.1.trans hname.2
    · exact hbranches.2.trans hname.2

theorem ifValues_isInfix (holds : Str → Str → Bool) (name : List α) :
    ifValues byte holds name <:+: name := by
  unfold ifValues
  have hname := @ySplitString_isInfix _ byte tilde name
  rcases hsplit : ySplitString byte tilde name with ⟨found, left, rest⟩
  rw [hsplit] at hname
  cases found with
  | false => exact List.nil_infix
  | true => exact (ifValue_isInfix _ rest).trans hname.2

/-- The result is a part of the command or comes from outside of the template. -/
theorem yWebCgiCmd_result (s : Session σ) (ycmd : List α) :
    (yWebCgiCmd byte text r s ycmd).1 <:+: ycmd ∨
      ∃ l : Str, (yWebCgiCmd byte text r s ycmd).1 = l.map text := by
  unfold yWebCgiCmd
  have hname := (@ySplitString_isInfix _ byte colon ycmd).2
  rcases hsplit : ySplitString byte colon ycmd with ⟨found, ycmdType, ycmdName⟩
  rw [hsplit] at hname
  cases found with
  | false =>
    right
    dsimp only
    split_ifs
    · exact ⟨[], rfl⟩
    · exact ⟨_, rfl⟩
    · exact ⟨_, rfl⟩
  | true =>
    dsimp only
    split_ifs
    · exact .inr ⟨_, rfl⟩
    · exact .inl ((ifValue_isInfix _ ycmdName).trans hname)
    · exact .inl ((ifValues_isInfix (fun l v => decide (l = v)) ycmdName).trans hname)
    · exact .inl ((ifValues_isInfix (fun l v => decide (l ≠ v)) ycmdName).trans hname)
    · exact .inl ((ifValue_isInfix _ ycmdName).trans hname)
    · exact .inr ⟨_, rfl⟩
    · split <;> exact .inl List.nil_infix
    · exact .inr ⟨_, rfl⟩
    · exact .inr ⟨_, rfl⟩

/-- No type of a command starts with `}`. -/
theorem yWebCgiCmd_braceClose (s : Session σ) {z : α} (hz : byte z = braceClose) (behind : List α) :
    ∃ l : Str, (yWebCgiCmd byte text r s (z :: behind)).1 = l.map text := by
  unfold yWebCgiCmd
  rcases hsplit : ySplitString byte colon (z :: behind) with ⟨found, ycmdType, ycmdName⟩
  cases found with
  | false =>
    dsimp only
    split_ifs
    · exact ⟨[], rfl⟩
    · exact ⟨_, rfl⟩
    · exact ⟨_, rfl⟩
  | true =>
    obtain ⟨x, hx, heq, -⟩ := ySplitString_true hsplit
    have htype : ∃ rest, ycmdType.map byte = braceClose :: rest := by
      cases ycmdType with
      | nil =>
        injection heq with hzx
        rw [hzx, hx] at hz
        exact absurd hz (by decide)
      | cons u rest =>
        injection heq with hzu
        exact ⟨rest.map byte, by rw [← hz, hzu, List.map_cons]⟩
    obtain ⟨rest, htype⟩ := htype
    have hne : ∀ t : Str, t.head? ≠ some braceClose → ycmdType.map byte ≠ t := by
      rintro t ht rfl
      exact ht (by rw [htype, List.head?_cons])
    have hothers : ycmdType.map byte ∉ otherTypes := by
      intro hmem
      have hall : ∀ t ∈ otherTypes, t.head? ≠ some braceClose := by decide
      exact hne _ (hall _ hmem) rfl
    dsimp only
    rw [if_neg (hne _ (by decide)), if_neg (hne _ (by decide)), if_neg (hne _ (by decide)),
      if_neg (hne _ (by decide)), if_neg (hne _ (by decide)), if_neg (hne _ (by decide)),
      if_neg (hne _ (by decide)), if_neg hothers]
    exact ⟨_, rfl⟩

end

/-! ## Places -/

/-- A character and its place in the template, if it was there. -/
abbrev Traced : Type := Byte × Option Nat

def fromOutside (b : Byte) : Traced := (b, none)

def traced (t : Str) : List Traced := t.zipIdx.map fun c => (c.1, some c.2)

/-- The characters stand next to each other in the template, the first at `p`. -/
def Consecutive : Nat → List Traced → Prop
  | _, [] => True
  | p, x :: l => x.2 = some p ∧ Consecutive (p + 1) l

/-- Every character is the one at its place. -/
def Places (t : Str) (l : List Traced) : Prop :=
  ∀ x ∈ l, ∀ p, x.2 = some p → t[p]? = some x.1

/-- The length of the type of a command and the `:`. -/
def typeLength (ycmd : List Traced) : Nat :=
  match ycmd.findIdx? fun x => x.1 = colon with
  | some i => i + 1
  | none => 0

/-- The start mark of the next command and its type stand together in the template. -/
def StartsInTemplate (l : List Traced) : Prop :=
  ∀ before ycmd behind, nextCommand Prod.fst l = some (before, ycmd, behind) →
    ∃ p, Consecutive p ((l.drop before.length).take 2 ++ ycmd.take (typeLength ycmd))

theorem map_traced (t : Str) : (traced t).map Prod.fst = t := by
  unfold traced
  rw [List.map_map]
  exact List.zipIdx_map_fst 0 t

theorem places_traced (t : Str) : Places t (traced t) := by
  intro x hx p hp
  obtain ⟨⟨b, i⟩, hmem, rfl⟩ := List.mem_map.mp hx
  injection hp with hp
  subst hp
  exact List.mem_zipIdx_iff_getElem?.mp hmem

theorem consecutive_prefix {t : Str} {p : Nat} {l : List Traced} (hl : Consecutive p l)
    (ht : Places t l) : l.map Prod.fst <+: t.drop p := by
  induction l generalizing p with
  | nil => exact List.nil_prefix
  | cons x l ih =>
    obtain ⟨hp, hrest⟩ := hl
    have hx := ht x List.mem_cons_self p hp
    obtain ⟨hlt, hget⟩ := List.getElem?_eq_some_iff.mp hx
    have htail := ih hrest fun y hy => ht y (List.mem_cons_of_mem x hy)
    rw [List.map_cons, List.drop_eq_getElem_cons hlt, hget]
    exact (List.prefix_cons_inj x.1).mpr htail

theorem places_fromOutside (t l : Str) : Places t (l.map fromOutside) := by
  intro x hx p hp
  obtain ⟨b, -, rfl⟩ := List.mem_map.mp hx
  exact absurd hp (by simp [fromOutside])

/-- How many characters of the template are left. -/
def left (l : List Traced) : Nat := l.countP fun x => x.2.isSome

theorem left_fromOutside (l : Str) : left (l.map fromOutside) = 0 := by
  simp [left, List.countP_eq_zero, fromOutside]

/-! ## Commands that start in the template -/

section
variable {σ : Type} {r : Request σ} {t : Str}

/-- A script is executed for the type `script` only. -/
theorem yWebCgiCmd_executed (s : Session σ) (ycmd : List Traced) :
    (yWebCgiCmd Prod.fst fromOutside r s ycmd).2.executed = s.executed ∨
      (ycmd.take (typeLength ycmd)).map Prod.fst = chars "script:" := by
  unfold yWebCgiCmd
  rcases hsplit : ySplitString Prod.fst colon ycmd with ⟨found, ycmdType, ycmdName⟩
  cases found with
  | false =>
    left
    dsimp only
    split_ifs <;> rfl
  | true =>
    obtain ⟨x, hx, heq, hfind⟩ := ySplitString_true hsplit
    dsimp only
    by_cases hscript : ycmdType.map Prod.fst = chars "script"
    · right
      have hlen : typeLength ycmd = ycmdType.length + 1 := by
        unfold typeLength
        rw [hfind]
      have htake : ycmd.take (ycmdType.length + 1) = ycmdType ++ [x] := by
        rw [heq]
        simp [List.take_append]
      rw [hlen, htake, List.map_append, hscript, List.map_singleton, hx]
      rfl
    · left
      rw [if_neg hscript]
      split_ifs <;> try rfl
      split <;> rfl

theorem left_append (l l' : List Traced) : left (l ++ l') = left l + left l' := List.countP_append

theorem left_infix {l l' : List Traced} (h : l <:+: l') : left l ≤ left l' :=
  h.sublist.countP_le

theorem parsingStep_spec {x y : List Traced × Session σ}
    (h : parsingStep Prod.fst fromOutside r x = some y) :
    ∃ before ycmd behind, nextCommand Prod.fst x.1 = some (before, ycmd, behind) ∧
      y.1 = before ++ (yWebCgiCmd Prod.fst fromOutside r x.2 ycmd).1 ++ behind ∧
      y.2 = (yWebCgiCmd Prod.fst fromOutside r x.2 ycmd).2 := by
  unfold parsingStep at h
  cases hnext : nextCommand Prod.fst x.1 with
  | none => simp [hnext] at h
  | some c =>
    obtain ⟨before, ycmd, behind⟩ := c
    rw [hnext] at h
    cases h
    exact ⟨before, ycmd, behind, rfl, rfl, rfl⟩

/-- Characters of the result are characters of the template before. -/
theorem places_step {x y : List Traced × Session σ} (hp : Places t x.1)
    (h : parsingStep Prod.fst fromOutside r x = some y) : Places t y.1 := by
  obtain ⟨before, ycmd, behind, hnext, hy, -⟩ := parsingStep_spec h
  obtain ⟨u, v, -, -, hcases⟩ := nextCommand_spec hnext
  have hsub : before ⊆ x.1 ∧ ycmd ⊆ x.1 ∧ behind ⊆ x.1 := by
    rcases hcases with ⟨x', y', hx⟩ | ⟨z, -, hx, rfl⟩ <;> rw [hx] <;>
      refine ⟨?_, ?_, ?_⟩ <;> intro w <;> simp <;> tauto
  obtain ⟨hbefore, hycmd, hbehind⟩ := hsub
  rw [hy]
  intro w hw
  simp only [List.mem_append] at hw
  rcases hw with (hw | hw) | hw
  · exact hp w (hbefore hw)
  · rcases @yWebCgiCmd_result _ _ Prod.fst fromOutside r x.2 ycmd with
      hres | ⟨l, hres⟩
    · exact hp w (hycmd (hres.subset hw))
    · rw [hres] at hw
      exact places_fromOutside t l w hw
  · exact hp w (hbehind hw)

/-- The round takes the two characters of the start mark away. -/
theorem left_step {x y : List Traced × Session σ} (hown : StartsInTemplate x.1)
    (h : parsingStep Prod.fst fromOutside r x = some y) : left y.1 + 2 ≤ left x.1 := by
  obtain ⟨before, ycmd, behind, hnext, hy, -⟩ := parsingStep_spec h
  obtain ⟨p, hcons⟩ := hown before ycmd behind hnext
  obtain ⟨u, v, -, -, hcases⟩ := nextCommand_spec hnext
  have hmark : (x.1.drop before.length).take 2 = [u, v] := by
    rcases hcases with ⟨x', y', hx⟩ | ⟨z, -, hx, -⟩ <;> simp [hx]
  rw [hmark] at hcons
  have htwo : left [u, v] = 2 := by simp [left, hcons.1, hcons.2.1]
  rw [hy, left_append, left_append]
  rcases hcases with ⟨x', y', hx⟩ | ⟨z, hz, hx, rfl⟩
  · have hle : left (yWebCgiCmd Prod.fst fromOutside r x.2 ycmd).1 ≤ left ycmd := by
      rcases @yWebCgiCmd_result _ _ Prod.fst fromOutside r x.2 ycmd with
        hres | ⟨l, hres⟩
      · exact left_infix hres
      · rw [hres, left_fromOutside]
        exact Nat.zero_le _
    have hall : x.1 = before ++ ([u, v] ++ (ycmd ++ ([x', y'] ++ behind))) := by simpa using hx
    rw [hall]
    simp only [left_append]
    omega
  · obtain ⟨l, hres⟩ := @yWebCgiCmd_braceClose _ _ _ fromOutside r x.2 _ hz behind
    have hall : x.1 = before ++ ([u, v] ++ ([z] ++ behind)) := by simpa using hx
    rw [hall, hres, left_fromOutside]
    simp only [left_append]
    omega

/-- A script that the round executes is one of the template. -/
theorem executed_step (ht : ¬ chars "\x7b=script:" <:+: t) {x y : List Traced × Session σ}
    (hp : Places t x.1) (hown : StartsInTemplate x.1)
    (h : parsingStep Prod.fst fromOutside r x = some y) : y.2.executed = x.2.executed := by
  obtain ⟨before, ycmd, behind, hnext, -, hy⟩ := parsingStep_spec h
  rw [hy]
  rcases yWebCgiCmd_executed (r := r) x.2 ycmd with hexecuted | hscript
  · exact hexecuted
  exfalso
  obtain ⟨p, hcons⟩ := hown before ycmd behind hnext
  obtain ⟨u, v, hu, hv, hcases⟩ := nextCommand_spec hnext
  have hmark : (x.1.drop before.length).take 2 = [u, v] := by
    rcases hcases with ⟨x', y', hx⟩ | ⟨z, -, hx, -⟩ <;> simp [hx]
  have hycmd : ycmd ⊆ x.1 := by
    rcases hcases with ⟨x', y', hx⟩ | ⟨z, -, hx, rfl⟩ <;> rw [hx] <;> intro w <;> simp <;> tauto
  have hplaces : Places t ((x.1.drop before.length).take 2 ++ ycmd.take (typeLength ycmd)) := by
    intro w hw
    rcases List.mem_append.mp hw with hw | hw
    · exact hp w (List.mem_of_mem_drop (List.mem_of_mem_take hw))
    · exact hp w (hycmd (List.mem_of_mem_take hw))
  have hfront := consecutive_prefix hcons hplaces
  rw [hmark, List.map_append, hscript, List.map_cons, List.map_singleton, hu, hv] at hfront
  exact ht (hfront.isInfix.trans (List.drop_suffix p t).isInfix)

/-- The states of a run. -/
def Reached (r : Request σ) : List Traced × Session σ → List Traced × Session σ → Prop :=
  Relation.ReflTransGen fun x y => parsingStep Prod.fst fromOutside r x = some y

theorem own_run (ht : ¬ chars "\x7b=script:" <:+: t) {fuel : Nat} {x : List Traced × Session σ}
    (hp : Places t x.1) (hfuel : left x.1 < fuel)
    (hown : ∀ y, Reached r x y → StartsInTemplate y.1) :
    ∃ y, cgiCmdParsing Prod.fst fromOutside r fuel x = some y ∧ y.2.executed = x.2.executed := by
  induction fuel generalizing x with
  | zero => exact absurd hfuel (Nat.not_lt_zero _)
  | succ fuel ih =>
    unfold cgiCmdParsing
    cases hstep : parsingStep Prod.fst fromOutside r x with
    | none => exact ⟨x, rfl, rfl⟩
    | some x' =>
      have hleft := left_step (hown x .refl) hstep
      have hexecuted := executed_step ht hp (hown x .refl) hstep
      obtain ⟨y, hy, hlist⟩ :=
        ih (places_step hp hstep) (by omega) fun y hreach => hown y (.head hstep hreach)
      exact ⟨y, hy, hlist.trans hexecuted⟩

/-- While every command starts in the template, no script is executed and the loop ends. -/
theorem own_commands_end (t : Str) (ht : ¬ chars "\x7b=script:" <:+: t) (r : Request σ)
    (s : Session σ)
    (hown : ∀ y, Reached r (traced t, s) y → StartsInTemplate y.1) :
    ∃ y, cgiCmdParsing id id r (t.length + 1) (t, s) = some y ∧ y.2.executed = s.executed := by
  have hleft : left (traced t) ≤ t.length := by
    have hlen : (traced t).length = t.length := by simp [traced]
    exact hlen ▸ List.countP_le_length
  obtain ⟨y, hy, hexecuted⟩ :=
    own_run ht (places_traced t) (Nat.lt_succ_of_le hleft) hown
  have hmap :=
    @cgiCmdParsing_map _ _ Prod.fst fromOutside r (fun _ => rfl) (t.length + 1) (traced t, s)
  rw [hy] at hmap
  have hbytes : bytesOf Prod.fst (traced t, s) = (t, s) := by rw [bytesOf, map_traced]
  rw [hbytes] at hmap
  exact ⟨bytesOf Prod.fst y, hmap, hexecuted⟩

end

/-- Parameters alone; nothing is outside. -/
def sampleRequest (params : List (Str × Str)) : Request Unit where
  params := OrdMap.ofList params
  fileExists := fun _ _ => false
  other := fun _ _ _ => ([], ())
  script := fun _ _ => ([], ())

def freshSession : Session Unit := ⟨OrdMap.empty, (), []⟩

theorem reached_cases {σ : Type} {r : Request σ} {x x' y : List Traced × Session σ}
    (hstep : parsingStep Prod.fst fromOutside r x = some x') (h : Reached r x y) :
    y = x ∨ Reached r x' y := by
  rcases Relation.ReflTransGen.cases_head h with rfl | ⟨z, hz, hreach⟩
  · exact .inl rfl
  · obtain rfl := Option.some_inj.mp (hstep.symm.trans hz)
    exact .inr hreach

/-- A command in a command: the inner one gives the last letter of the outer one's name. -/
def nestedTemplate : Str := chars "\x7b=a\x7b=b=\x7d=\x7d"

def nestedRequest : Request Unit :=
  sampleRequest [(chars "b", chars "c"), (chars "ac", chars "hello")]

theorem own_commands_end_sample :
    ∃ y, cgiCmdParsing id id nestedRequest 11 (nestedTemplate, freshSession) = some y ∧
      y.2.executed = [] := by
  apply own_commands_end nestedTemplate (by decide) nestedRequest freshSession
  intro y hy
  have hinner : parsingStep Prod.fst fromOutside nestedRequest
      (traced nestedTemplate, freshSession) = some ([(123, some 0), (61, some 1), (97, some 2),
        (99, none), (61, some 8), (125, some 9)], freshSession) := by rfl
  have houter : parsingStep Prod.fst fromOutside nestedRequest ([(123, some 0), (61, some 1),
      (97, some 2), (99, none), (61, some 8), (125, some 9)], freshSession) =
      some ((chars "hello").map fromOutside, freshSession) := by rfl
  rcases reached_cases hinner hy with rfl | hy
  · intro before ycmd behind hnext
    have hcommand : nextCommand Prod.fst (traced nestedTemplate) =
        some ([(123, some 0), (61, some 1), (97, some 2)], [(98, some 5)],
          [(61, some 8), (125, some 9)]) := by decide
    rw [hcommand] at hnext
    cases hnext
    exact ⟨3, rfl, rfl, trivial⟩
  rcases reached_cases houter hy with rfl | hy
  · intro before ycmd behind hnext
    cases hnext
    exact ⟨0, rfl, rfl, trivial⟩
  have hnone : nextCommand Prod.fst ((chars "hello").map fromOutside) = none := by decide
  rcases Relation.ReflTransGen.cases_head hy with rfl | ⟨z, hz, -⟩
  · intro before ycmd behind hnext
    rw [hnone] at hnext
    cases hnext
  · exact absurd hz (by simp [parsingStep, hnone])

theorem cgiCmdParsing_endless {σ : Type} {r : Request σ} {x : Str × Session σ}
    (h : parsingStep id id r x = some x) (fuel : Nat) : cgiCmdParsing id id r fuel x = none := by
  induction fuel with
  | zero => rfl
  | succ fuel ih =>
    unfold cgiCmdParsing
    rw [h]
    exact ih

/-- A parameter that names itself, and one whose end is another parameter. -/
theorem parameters_endless_and_script :
    ¬ chars "\x7b=script:" <:+: chars "\x7b=a=\x7d" ∧
    (∀ fuel, cgiCmdParsing id id (sampleRequest [(chars "a", chars "\x7b=a=\x7d")]) fuel
      (chars "\x7b=a=\x7d", freshSession) = none) ∧
    (cgiCmdParsing id id
      (sampleRequest [(chars "a", chars "\x7b=scr\x7b=b=\x7d=\x7d"), (chars "b", chars "ipt:x")]) 4
      (chars "\x7b=a=\x7d", freshSession)).map (fun y => y.2.executed) = some [chars "x"] := by
  refine ⟨by decide, ?_, ?_⟩
  · exact cgiCmdParsing_endless (by rfl)
  · rfl

end Tuxbox.Nhttpd
