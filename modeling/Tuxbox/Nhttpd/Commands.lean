import Tuxbox.Nhttpd.YParserRuns

/-!
# Commands of a template

A template as it is meant: marks that match, innermost first, and text.
-/

namespace Tuxbox.Nhttpd.Template

/-- The result of a command and the state it leaves. -/
abbrev Command (σ : Type) := σ → Str → Str × σ

section
variable {σ : Type}

/-- One round of the loop; `none` when there is no command. -/
def step (f : Command σ) (x : Str × σ) : Option (Str × σ) :=
  match nextCommand id x.1 with
  | none => none
  | some (before, ycmd, behind) =>
    let (result, s) := f x.2 ycmd
    some (before ++ result ++ behind, s)

/-- The loop, as far as the fuel goes. -/
def run (f : Command σ) : (fuel : Nat) → Str × σ → Option (Str × σ)
  | 0, _ => none
  | fuel + 1, x =>
    match step f x with
    | none => some x
    | some y => run f fuel y

/-- The commands are written down as they are evaluated. -/
def logged (f : Command σ) : Command (σ × List Str) :=
  fun s ycmd => ((f s.1 ycmd).1, (f s.1 ycmd).2, s.2 ++ [ycmd])

/-- No result has a character of the marks. -/
def Plain (f : Command σ) : Prop :=
  ∀ s ycmd, ∀ c ∈ (f s ycmd).1, c ≠ braceOpen ∧ c ≠ equalSign ∧ c ≠ braceClose

end

/-! ## Tokens -/

def openMark : Str := [braceOpen, equalSign]

def closeMark : Str := [equalSign, braceClose]

inductive Token where
  | opening
  | closing
  | char (c : Byte)
  deriving DecidableEq

/-- Marks and text, and what reading them once should give. -/
def tokens : Str → List Token
  | c :: d :: s =>
    if c = braceOpen ∧ d = equalSign then .opening :: tokens s
    else if c = equalSign ∧ d = braceClose then .closing :: tokens s
    else .char c :: tokens (d :: s)
  | [c] => [.char c]
  | [] => []

def Token.text : Token → Str
  | .opening => openMark
  | .closing => closeMark
  | .char c => [c]

def text (ts : List Token) : Str := ts.flatMap Token.text

@[simp] theorem text_nil : text [] = [] := rfl

@[simp] theorem text_cons (t : Token) (ts : List Token) : text (t :: ts) = t.text ++ text ts := rfl

/-- The tokens are the whole template. -/
theorem text_tokens (s : Str) : text (tokens s) = s := by
  induction s using tokens.induct with
  | case1 c d s h ih =>
    obtain ⟨rfl, rfl⟩ := h
    rw [tokens, if_pos ⟨rfl, rfl⟩, text_cons, ih]
    rfl
  | case2 c d s h h' ih =>
    obtain ⟨rfl, rfl⟩ := h'
    rw [tokens, if_neg h, if_pos ⟨rfl, rfl⟩, text_cons, ih]
    rfl
  | case3 c d s h h' ih =>
    rw [tokens, if_neg h, if_neg h', text_cons, ih]
    rfl
  | case4 c => rfl
  | case5 => rfl

/-! ## Reading the tokens once -/

/-- The text of open commands, innermost first, and of what they stand in. -/
def flat : List Str → Str → Str
  | [], top => top
  | below :: outer, top => flat outer (below ++ openMark ++ top)

theorem flat_append (outer : List Str) (a b : Str) : flat outer (a ++ b) = flat outer a ++ b := by
  induction outer generalizing a with
  | nil => rfl
  | cons below outer ih =>
    rw [flat, ← List.append_assoc, ih]
    rfl

theorem flat_cons (below : Str) (outer : List Str) (top : Str) :
    flat (below :: outer) top = flat outer below ++ openMark ++ top := by
  rw [flat, flat_append, flat_append]

section
variable {σ : Type}

/-- A command is evaluated when it is closed. A mark without a partner is text. -/
def scan (f : Command σ) : (outer : List Str) → (top : Str) → σ → List Token → Str × σ
  | outer, top, s, [] => (flat outer top, s)
  | outer, top, s, .opening :: ts => scan f (top :: outer) [] s ts
  | outer, top, s, .char c :: ts => scan f outer (top ++ [c]) s ts
  | [], top, s, .closing :: ts => scan f [] (top ++ closeMark) s ts
  | below :: outer, top, s, .closing :: ts =>
    let (result, s) := f s top
    scan f outer (below ++ result) s ts

variable (f : Command σ) (outer : List Str) (top : Str) (s : σ) (ts : List Token)

@[simp] theorem scan_nil : scan f outer top s [] = (flat outer top, s) := by
  cases outer <;> rfl

@[simp] theorem scan_opening :
    scan f outer top s (.opening :: ts) = scan f (top :: outer) [] s ts := by
  cases outer <;> rfl

@[simp] theorem scan_char (c : Byte) :
    scan f outer top s (.char c :: ts) = scan f outer (top ++ [c]) s ts := by
  cases outer <;> rfl

@[simp] theorem scan_stray :
    scan f [] top s (.closing :: ts) = scan f [] (top ++ closeMark) s ts := rfl

@[simp] theorem scan_closing (below : Str) :
    scan f (below :: outer) top s (.closing :: ts) =
      scan f outer (below ++ (f s top).1) (f s top).2 ts := rfl

end

/-! ## Pairs of characters -/

theorem pair_append {a b : Byte} {s t : Str} :
    [a, b] <:+: s ++ t ↔
      [a, b] <:+: s ∨ [a, b] <:+: t ∨ (s.getLast? = some a ∧ t.head? = some b) := by
  constructor
  · rintro ⟨u, v, h⟩
    rw [List.append_assoc, List.append_eq_append_iff] at h
    rcases h with ⟨w, rfl, hw⟩ | ⟨w, rfl, rfl⟩
    · match w with
      | [] => exact .inr (.inl ⟨[], v, by simpa using hw⟩)
      | [x] =>
        obtain ⟨rfl, rfl⟩ : x = a ∧ t = b :: v := by simpa using hw.symm
        exact .inr (.inr ⟨by simp, rfl⟩)
      | x :: y :: w =>
        obtain ⟨rfl, rfl, rfl⟩ : x = a ∧ y = b ∧ v = w ++ t := by
          simpa [eq_comm] using hw
        exact .inl ⟨u, w, by simp⟩
    · exact .inr (.inl ⟨w, v, by simp⟩)
  · rintro (h | h | ⟨hs, ht⟩)
    · exact h.trans (List.prefix_append s t).isInfix
    · exact h.trans (List.suffix_append s t).isInfix
    · obtain ⟨u, rfl⟩ := List.getLast?_eq_some_iff.mp hs
      obtain ⟨v, rfl⟩ := List.head?_eq_some_iff.mp ht
      exact ⟨u, v, by simp⟩

theorem pairAt_iff {a b : Byte} {s : Str} {i : Nat} :
    pairAt id a b s i = true ↔ [a, b] <+: s.drop i := by
  constructor
  · intro h
    obtain ⟨x, y, rfl, rfl, hs⟩ := pair_split h
    exact ⟨_, hs.symm⟩
  · rintro ⟨v, hv⟩
    have h0 : s[i]? = some a := by
      rw [← List.head?_drop, ← hv]
      rfl
    have h1 : s[i + 1]? = some b := by
      rw [← List.head?_drop, ← List.drop_drop, ← hv]
      rfl
    simp [pairAt, h0, h1]

theorem pairAt_append {a b : Byte} (u v : Str) : pairAt id a b (u ++ a :: b :: v) u.length = true :=
  pairAt_iff.mpr (by simp)

/-- A pair that starts in the front stands in the front, with one character more. -/
theorem pairAt_front {a b c : Byte} {u v : Str} {i : Nat} (hi : i < u.length)
    (h : pairAt id a b (u ++ c :: v) i = true) : [a, b] <:+: u.drop i ++ [c] := by
  have hfront := pairAt_iff.mp h
  rw [List.drop_append_of_le_length hi.le] at hfront
  have hlong : u.drop i ++ [c] <+: u.drop i ++ c :: v := ⟨v, by simp⟩
  apply (List.prefix_of_prefix_length_le hfront hlong _).isInfix
  simp only [List.length_cons, List.length_nil, List.length_append, List.length_drop]
  omega

theorem find_append {a b : Byte} (hab : a ≠ b) {u : Str} (v : Str) (h : ¬ [a, b] <:+: u) :
    find id a b (u ++ a :: b :: v) = some u.length := by
  unfold find
  rw [List.find?_range_eq_some]
  refine ⟨pairAt_append u v, by simp, ?_⟩
  intro i hi
  rw [Bool.not_eq_true', Bool.eq_false_iff]
  intro hpair
  rcases pair_append.mp (pairAt_front hi hpair) with hin | hin | ⟨-, hhead⟩
  · exact h (hin.trans (List.drop_suffix i u).isInfix)
  · exact absurd hin.length_le (by simp)
  · exact hab (by simpa using hhead)

theorem find_missing {a b : Byte} {s : Str} (h : ¬ [a, b] <:+: s) : find id a b s = none := by
  unfold find
  rw [List.find?_eq_none]
  intro i _ hpair
  exact h ((pairAt_iff.mp hpair).isInfix.trans (List.drop_suffix i s).isInfix)

/-- The last place below a bound. -/
theorem find_reverse_range {p : Nat → Bool} {n i : Nat} (hi : i < n) (hp : p i = true)
    (hlater : ∀ j, i < j → j < n → p j = false) :
    (List.range n).reverse.find? p = some i := by
  induction n with
  | zero => omega
  | succ n ih =>
    rw [List.range_succ, List.reverse_append, List.reverse_singleton, List.singleton_append,
      List.find?_cons]
    rcases Nat.lt_succ_iff_lt_or_eq.mp hi with hlt | rfl
    · rw [hlater n hlt (Nat.lt_succ_self n)]
      exact ih hlt fun j hj hjn => hlater j hj (Nat.lt_succ_of_lt hjn)
    · rw [hp]

/-! ## What the loop finds -/

theorem next_missing {s : Str} (h : ¬ closeMark <:+: s) : nextCommand id s = none := by
  unfold nextCommand
  rw [find_missing h]

/-- The last mark that opens. -/
theorem last_open {Q : Str} (h : openMark <:+: Q) :
    ∃ A c, Q = A ++ openMark ++ c ∧ ¬ openMark <:+: c := by
  induction Q with
  | nil => exact absurd h.length_le (by simp [openMark])
  | cons x Q ih =>
    by_cases hQ : openMark <:+: Q
    · obtain ⟨A, c, rfl, hc⟩ := ih hQ
      exact ⟨x :: A, c, rfl, hc⟩
    · rcases List.infix_cons_iff.mp h with ⟨c, hc⟩ | hin
      · refine ⟨[], c, hc.symm, fun hin => hQ ?_⟩
        have htail : [equalSign] ++ c = Q := (List.cons.inj hc).2
        exact hin.trans (htail ▸ (List.suffix_append _ c).isInfix)
      · exact absurd hin hQ

/-- The first mark that closes. -/
theorem first_close {s : Str} (h : closeMark <:+: s) :
    ∃ P R, s = P ++ closeMark ++ R ∧ ¬ closeMark <:+: P := by
  induction s using List.reverseRecOn with
  | nil => exact absurd h.length_le (by simp [closeMark])
  | append_singleton s x ih =>
    by_cases hs : closeMark <:+: s
    · obtain ⟨P, R, rfl, hP⟩ := ih hs
      exact ⟨P, R ++ [x], by simp, hP⟩
    · rcases pair_append.mp h with hin | hin | ⟨hlast, hhead⟩
      · exact absurd hin hs
      · exact absurd hin.length_le (by simp)
      · obtain ⟨P, rfl⟩ := List.getLast?_eq_some_iff.mp hlast
        obtain rfl : x = braceClose := by simpa using hhead
        refine ⟨P, [], by simp [closeMark], fun hin => hs ?_⟩
        exact hin.trans (List.prefix_append P _).isInfix

/-- Before the end of a closing mark, an opening one is all in front of it. -/
theorem open_front {Q R : Str} {j : Nat} (hj : j < Q.length)
    (h : pairAt id braceOpen equalSign (Q ++ braceClose :: R) j = true) :
    openMark <:+: Q.drop j := by
  rcases pair_append.mp (pairAt_front hj h) with hin | hin | ⟨-, hhead⟩
  · exact hin
  · exact absurd hin.length_le (by simp)
  · exact absurd hhead (by decide)

theorem rfind_last {A c R : Str} (h : ¬ openMark <:+: c) :
    rfind id braceOpen equalSign (A ++ openMark ++ c ++ braceClose :: R)
      (A.length + c.length + 1) = some A.length := by
  unfold rfind
  apply find_reverse_range
  · omega
  · have hsplit : A ++ openMark ++ c ++ braceClose :: R =
        A ++ braceOpen :: equalSign :: (c ++ braceClose :: R) := by simp [openMark]
    rw [hsplit]
    exact pairAt_append A _
  · intro j hj hjn
    rw [Bool.eq_false_iff]
    intro hpair
    have hlen : (A ++ openMark ++ c).length = A.length + c.length + 2 := by
      simp [openMark]
      omega
    have hin := open_front (by omega) hpair
    have hdrop : (A ++ openMark ++ c).drop j <:+: [equalSign] ++ c := by
      obtain ⟨k, rfl⟩ := Nat.exists_eq_add_of_lt hj
      have hone : A ++ openMark ++ c = A ++ [braceOpen] ++ ([equalSign] ++ c) := by simp [openMark]
      rw [hone, Nat.add_right_comm, ← List.drop_drop]
      have hfront : (A ++ [braceOpen] ++ ([equalSign] ++ c)).drop (A.length + 1) =
          [equalSign] ++ c := by
        apply List.drop_left'
        simp
      rw [hfront]
      exact (List.drop_suffix k _).isInfix
    rcases pair_append.mp (hin.trans hdrop) with hin | hin | ⟨hhead, -⟩
    · exact absurd hin.length_le (by simp)
    · exact h hin
    · exact absurd hhead (by decide)

theorem rfind_missing {Q R : Str} (h : ¬ openMark <:+: Q) {n : Nat} (hn : n < Q.length) :
    rfind id braceOpen equalSign (Q ++ braceClose :: R) n = none := by
  unfold rfind
  rw [List.find?_eq_none]
  intro j hj hpair
  simp only [List.mem_reverse, List.mem_range] at hj
  exact h ((open_front (by omega) hpair).trans (List.drop_suffix j Q).isInfix)

theorem find_closing {P : Str} (h : ¬ closeMark <:+: P) (R : Str) :
    find id equalSign braceClose (P ++ closeMark ++ R) = some P.length := by
  rw [List.append_assoc]
  exact find_append (by decide) R h

/-- No opening mark is in front of the first closing one. -/
theorem next_unopened {P : Str} (hP : ¬ closeMark <:+: P) (h : ¬ openMark <:+: P ++ [equalSign])
    (R : Str) : nextCommand id (P ++ closeMark ++ R) = none := by
  have hmissing : rfind id braceOpen equalSign (P ++ closeMark ++ R) P.length = none := by
    have hsplit : P ++ closeMark ++ R = P ++ [equalSign] ++ braceClose :: R := by simp [closeMark]
    rw [hsplit]
    exact rfind_missing h (by simp)
  simp only [nextCommand, find_closing hP, hmissing]

/-- The command between the last opening mark and the first closing one. -/
theorem next_matched {A c : Str} (hP : ¬ closeMark <:+: A ++ openMark ++ c)
    (h : ¬ openMark <:+: c ++ [equalSign]) (R : Str) :
    nextCommand id (A ++ openMark ++ c ++ closeMark ++ R) = some (A, c, R) := by
  have hsplit : A ++ openMark ++ c ++ closeMark ++ R =
      A ++ openMark ++ (c ++ [equalSign]) ++ braceClose :: R := by simp [closeMark]
  have hlen : (A ++ openMark ++ c).length = A.length + (c ++ [equalSign]).length + 1 := by
    simp [openMark]
    omega
  have hlast := rfind_last (A := A) (R := R) h
  rw [← hlen, ← hsplit] at hlast
  simp only [nextCommand, find_closing hP, hlast]
  have hnot : ¬ (A ++ openMark ++ c).length < A.length + 2 := by
    rw [hlen]
    simp
  have hA : A.length + 2 = (A ++ openMark).length := by simp [openMark]
  rw [if_neg hnot]
  have hc : (A ++ openMark ++ c).length - (A.length + 2) = c.length := by
    simp [openMark]
    omega
  have hR : (A ++ openMark ++ c).length + 2 = (A ++ openMark ++ c ++ closeMark).length := by
    simp only [List.length_append, closeMark, List.length_cons, List.length_nil]
  rw [hc, hA, hR, List.drop_left]
  simp

/-- The first closing mark shares its first character with the opening one. -/
theorem next_overlap {A : Str} (hP : ¬ closeMark <:+: A ++ [braceOpen]) (R : Str) :
    nextCommand id (A ++ openMark ++ braceClose :: R) = some (A, braceClose :: R, R) := by
  have hsplit : A ++ openMark ++ braceClose :: R = A ++ [braceOpen] ++ closeMark ++ R := by
    simp [openMark, closeMark]
  have hlast := rfind_last (A := A) (c := []) (R := R) (by decide)
  rw [List.append_nil] at hlast
  have hfind := find_closing hP R
  rw [← hsplit] at hfind
  have hlen : (A ++ [braceOpen]).length = A.length + ([] : Str).length + 1 := by simp
  rw [← hlen] at hlast
  simp only [nextCommand, hfind, hlast]
  have hlt : (A ++ [braceOpen]).length < A.length + 2 := by simp
  have hA : A.length + 2 = (A ++ openMark).length := by simp [openMark]
  have hR : (A ++ [braceOpen]).length + 2 = (A ++ openMark).length + 1 := by simp [openMark]
  rw [if_pos hlt, hR, hA, ← List.drop_drop, List.drop_left]
  simp

end Tuxbox.Nhttpd.Template
