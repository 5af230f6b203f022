import Tuxbox.Nhttpd.Commands

/-!
# When the loop reads a template as it is meant

The loop looks for marks in the text as it stands, with the results in it. It
gives what `scan` gives as long as the marks it finds are those of the template.

* `commands_exact_iff`.
-/

namespace Tuxbox.Nhttpd.Template

section
variable {σ : Type} {f : Command σ}

/-! ## The loop -/

theorem run_mono {fuel : Nat} {x y : Str × σ} (h : run f fuel x = some y) {n : Nat}
    (hn : fuel ≤ n) : run f n x = some y := by
  induction fuel generalizing x n with
  | zero => simp [run] at h
  | succ fuel ih =>
    obtain ⟨n, rfl⟩ := Nat.exists_eq_add_of_lt (Nat.lt_of_succ_le hn)
    unfold run at h ⊢
    cases hstep : step f x with
    | none => rwa [hstep] at h
    | some z =>
      rw [hstep] at h
      exact ih h (by omega)

/-- Each round takes an opening mark away and brings none. -/
theorem step_count (hf : Plain f) {x y : Str × σ} (h : step f x = some y) :
    y.1.count braceOpen < x.1.count braceOpen := by
  unfold step at h
  cases hnext : nextCommand id x.1 with
  | none => simp [hnext] at h
  | some next =>
    obtain ⟨before, ycmd, behind⟩ := next
    rw [hnext] at h
    obtain rfl := Option.some.inj h
    have hresult : (f x.2 ycmd).1.count braceOpen = 0 :=
      List.count_eq_zero.mpr fun hmem => (hf x.2 ycmd _ hmem).1 rfl
    obtain ⟨a, b, rfl, -, hs⟩ := nextCommand_spec hnext
    have hle : before.count braceOpen + 1 + behind.count braceOpen ≤ x.1.count braceOpen := by
      rcases hs with ⟨a', b', hs⟩ | ⟨z, -, hs, -⟩
      · rw [hs]
        simp only [List.append_assoc, List.cons_append, List.count_append,
          List.count_cons, beq_self_eq_true, if_true]
        omega
      · rw [hs]
        simp only [List.count_append, List.count_cons, beq_self_eq_true, if_true]
        omega
    simp only [List.count_append, hresult]
    omega

/-- The loop ends. -/
theorem run_ends (hf : Plain f) {fuel : Nat} {x : Str × σ} (h : x.1.count braceOpen < fuel) :
    ∃ y, run f fuel x = some y := by
  induction fuel generalizing x with
  | zero => omega
  | succ fuel ih =>
    unfold run
    cases hstep : step f x with
    | none => exact ⟨x, rfl⟩
    | some y =>
      have hcount := step_count hf hstep
      exact ih (by omega)

/-- It ends when no command is left. -/
theorem run_done {fuel : Nat} {x y : Str × σ} (h : run f fuel x = some y) :
    nextCommand id y.1 = none := by
  induction fuel generalizing x with
  | zero => simp [run] at h
  | succ fuel ih =>
    unfold run at h
    cases hstep : step f x with
    | none =>
      rw [hstep] at h
      obtain rfl := Option.some.inj h
      unfold step at hstep
      cases hnext : nextCommand id x.1 with
      | none => rfl
      | some _ => simp [hnext] at hstep
    | some z =>
      rw [hstep] at h
      exact ih h

theorem run_next {fuel : Nat} {t before ycmd behind : Str} {s : σ} {y : Str × σ}
    (h : run f fuel (t, s) = some y) (hnext : nextCommand id t = some (before, ycmd, behind)) :
    ∃ n, run f n (before ++ (f s ycmd).1 ++ behind, (f s ycmd).2) = some y := by
  cases fuel with
  | zero => simp [run] at h
  | succ fuel =>
    unfold run step at h
    rw [hnext] at h
    exact ⟨fuel, h⟩

theorem run_last {fuel : Nat} {t : Str} {s : σ} {y : Str × σ} (h : run f fuel (t, s) = some y)
    (hnext : nextCommand id t = none) : y = (t, s) := by
  cases fuel with
  | zero => simp [run] at h
  | succ fuel =>
    unfold run step at h
    rw [hnext] at h
    exact (Option.some.inj h).symm

/-- What the loop takes for a command: no closing mark is in it, or half of one in front. -/
def Cut (ycmd : Str) : Prop := ¬ closeMark <:+: ycmd ∨ ycmd.head? = some braceClose

/-- How a template goes on for the loop. -/
theorem next_cases {P : Str} (hP : ¬ closeMark <:+: P) (h : openMark <:+: P ++ [equalSign])
    (R : Str) :
    (∃ A c, P = A ++ openMark ++ c ∧ ¬ openMark <:+: c ++ [equalSign] ∧
      nextCommand id (P ++ closeMark ++ R) = some (A, c, R)) ∨
    ∃ A, P = A ++ [braceOpen] ∧
      nextCommand id (P ++ closeMark ++ R) = some (A, braceClose :: R, R) := by
  obtain ⟨A, c, hQ, hc⟩ := last_open h
  rcases List.eq_nil_or_concat' c with rfl | ⟨c, x, rfl⟩
  · right
    have hQ' : P ++ [equalSign] = A ++ [braceOpen] ++ [equalSign] := by
      rw [hQ]
      simp [openMark]
    have hP' : P = A ++ [braceOpen] := List.append_cancel_right hQ'
    subst hP'
    have hover := next_overlap hP R
    refine ⟨A, rfl, ?_⟩
    rw [← hover]
    simp [openMark, closeMark]
  · left
    rw [← List.append_assoc] at hQ
    obtain ⟨rfl, hx⟩ := List.append_inj' hQ rfl
    obtain rfl : equalSign = x := by simpa using hx
    exact ⟨A, c, rfl, hc, next_matched hP hc R⟩

theorem next_cut {t before ycmd behind : Str}
    (h : nextCommand id t = some (before, ycmd, behind)) : Cut ycmd := by
  by_cases hclose : closeMark <:+: t
  · obtain ⟨P, R, rfl, hP⟩ := first_close hclose
    by_cases hopen : openMark <:+: P ++ [equalSign]
    · rcases next_cases hP hopen R with ⟨A, c, rfl, -, hnext⟩ | ⟨A, -, hnext⟩
      · rw [hnext] at h
        obtain ⟨-, rfl, -⟩ : A = before ∧ c = ycmd ∧ R = behind := by simpa using h
        exact .inl fun hin => hP (hin.trans (List.suffix_append _ c).isInfix)
      · rw [hnext] at h
        obtain ⟨-, rfl, -⟩ : A = before ∧ braceClose :: R = ycmd ∧ R = behind := by simpa using h
        exact .inr rfl
    · rw [next_unopened hP hopen] at h
      contradiction
  · rw [next_missing hclose] at h
    contradiction

/-- What either reading writes down and keeps. -/
theorem run_log {fuel : Nat} {t : Str} {s : σ} {log : List Str} {y : Str × σ × List Str}
    (h : run (logged f) fuel (t, s, log) = some y) :
    ∃ L, y.2.2 = log ++ L ∧ ∀ e ∈ L, Cut e := by
  induction fuel generalizing t s log with
  | zero => simp [run] at h
  | succ fuel ih =>
    cases hnext : nextCommand id t with
    | none =>
      obtain rfl := run_last h hnext
      exact ⟨[], by simp, by simp⟩
    | some next =>
      obtain ⟨before, ycmd, behind⟩ := next
      unfold run step at h
      rw [hnext] at h
      obtain ⟨L, hL, hcut⟩ := ih h
      refine ⟨ycmd :: L, by rw [hL, List.append_assoc]; rfl, ?_⟩
      intro e he
      rcases List.mem_cons.mp he with rfl | he
      · exact next_cut hnext
      · exact hcut e he

/-! ## The template -/

/-- What is written down, and first of all something that is shorter than what is left. -/
theorem scan_log (outer : List Str) (top : Str) (s : σ) (log : List Str) (ts : List Token) :
    ∃ L, (scan (logged f) outer top (s, log) ts).2.2 = log ++ L ∧
      ∀ e ∈ L.head?, e.length < top.length + (text ts).length := by
  induction ts generalizing outer top s log with
  | nil => exact ⟨[], by simp, by simp⟩
  | cons t ts ih =>
    cases t with
    | opening =>
      obtain ⟨L, hL, hlen⟩ := ih (top :: outer) [] s log
      refine ⟨L, hL, fun e he => ?_⟩
      have := hlen e he
      simp only [text_cons, List.length_append, List.length_nil] at this ⊢
      omega
    | char c =>
      obtain ⟨L, hL, hlen⟩ := ih outer (top ++ [c]) s log
      refine ⟨L, by rw [scan_char, hL], fun e he => ?_⟩
      have := hlen e he
      simp only [text_cons, Token.text, List.length_append, List.length_cons,
        List.length_nil] at this ⊢
      omega
    | closing =>
      cases outer with
      | nil =>
        obtain ⟨L, hL, hlen⟩ := ih [] (top ++ closeMark) s log
        refine ⟨L, hL, fun e he => ?_⟩
        have := hlen e he
        simp only [text_cons, Token.text, List.length_append] at this ⊢
        omega
      | cons below outer =>
        obtain ⟨L, hL, -⟩ := ih outer (below ++ (f s top).1) (f s top).2 (log ++ [top])
        refine ⟨top :: L, ?_, ?_⟩
        · rw [scan_closing, logged, hL, List.append_assoc, List.singleton_append]
        · intro e he
          obtain rfl : top = e := by simpa using he
          simp only [text_cons, Token.text, closeMark, List.length_append, List.length_cons]
          omega

/-- The text of a command that is open stays where it is, or goes to the front of the
command when this is closed. -/
theorem scan_frame (inner outer : List Str) (F : Str) {top : Str} {rest : List Str}
    (hstack : top :: rest = inner ++ F :: outer) (s : σ) (log : List Str) (ts : List Token) :
    ∃ L, (scan (logged f) rest top (s, log) ts).2.2 = log ++ L ∧
      (flat outer F <+: (scan (logged f) rest top (s, log) ts).1 ∨
        outer ≠ [] ∧ ∃ e ∈ L, F <+: e) := by
  induction ts generalizing inner F top rest s log with
  | nil =>
    refine ⟨[], by simp, .inl ?_⟩
    rw [scan_nil]
    induction inner generalizing top rest with
    | nil =>
      obtain ⟨rfl, rfl⟩ : top = F ∧ rest = outer := by simpa using hstack
      exact List.prefix_rfl
    | cons i inner ih =>
      obtain ⟨rfl, rfl⟩ : top = i ∧ rest = inner ++ F :: outer := by simpa using hstack
      cases inner with
      | nil =>
        rw [List.nil_append, flat_cons, List.append_assoc]
        exact List.prefix_append _ _
      | cons j inner =>
        have hdeep : flat outer F <+: flat (inner ++ F :: outer) j := ih rfl
        rw [List.cons_append, flat_cons, List.append_assoc]
        exact hdeep.trans (List.prefix_append _ _)
  | cons t ts ih =>
    cases t with
    | opening =>
      rw [scan_opening]
      exact ih ([] :: inner) F (by rw [hstack]; rfl) s log
    | char c =>
      rw [scan_char]
      cases inner with
      | nil =>
        obtain ⟨rfl, rfl⟩ : top = F ∧ rest = outer := by simpa using hstack
        obtain ⟨L, hL, hkept⟩ := ih [] (top ++ [c]) rfl s log
        refine ⟨L, hL, ?_⟩
        rcases hkept with hprefix | ⟨hne, e, he, hprefix⟩
        · left
          rw [flat_append] at hprefix
          exact (List.prefix_append _ _).trans hprefix
        · exact .inr ⟨hne, e, he, (List.prefix_append _ _).trans hprefix⟩
      | cons i inner =>
        obtain ⟨rfl, rfl⟩ : top = i ∧ rest = inner ++ F :: outer := by simpa using hstack
        exact ih ((top ++ [c]) :: inner) F rfl s log
    | closing =>
      cases inner with
      | nil =>
        obtain ⟨rfl, rfl⟩ : top = F ∧ rest = outer := by simpa using hstack
        cases rest with
        | nil =>
          obtain ⟨L, hL, hkept⟩ := ih [] (top ++ closeMark) rfl s log
          refine ⟨L, hL, .inl ?_⟩
          rcases hkept with hprefix | ⟨hne, -⟩
          · exact (List.prefix_append _ _).trans hprefix
          · exact absurd rfl hne
        | cons below outer =>
          obtain ⟨L, hL, -⟩ := scan_log outer (below ++ (f s top).1) (f s top).2 (log ++ [top]) ts
          refine ⟨top :: L, ?_, .inr ⟨by simp, top, List.mem_cons_self, List.prefix_rfl⟩⟩
          rw [scan_closing, logged, hL, List.append_assoc, List.singleton_append]
      | cons i inner =>
        obtain ⟨rfl, rfl⟩ : top = i ∧ rest = inner ++ F :: outer := by simpa using hstack
        cases inner with
        | nil =>
          obtain ⟨L, hL, hkept⟩ := ih [] (F ++ (f s top).1) rfl (f s top).2
            (log ++ [top])
          refine ⟨top :: L, ?_, ?_⟩
          · rw [List.nil_append, scan_closing, logged, hL, List.append_assoc,
              List.singleton_append]
          rcases hkept with hprefix | ⟨hne, e, he, hprefix⟩
          · left
            rw [flat_append] at hprefix
            exact (List.prefix_append _ _).trans hprefix
          · exact .inr ⟨hne, e, List.mem_cons_of_mem top he, (List.prefix_append _ _).trans hprefix⟩
        | cons j inner =>
          obtain ⟨L, hL, hkept⟩ := ih ((j ++ (f s top).1) :: inner) F List.cons_append.symm
            (f s top).2 (log ++ [top])
          refine ⟨top :: L, ?_, ?_⟩
          · rw [List.cons_append, scan_closing, logged, hL, List.append_assoc,
              List.singleton_append]
          rcases hkept with hprefix | ⟨hne, e, he, hprefix⟩
          · exact .inl hprefix
          · exact .inr ⟨hne, e, List.mem_cons_of_mem top he, hprefix⟩

/-! ## Nothing more to evaluate -/

/-- No mark closes behind one that opens. -/
def Quiet (ts : List Token) : Prop := ∀ a b, ts = a ++ Token.opening :: b → Token.closing ∉ b

theorem Quiet.tail {t : Token} {ts : List Token} (h : Quiet (t :: ts)) : Quiet ts :=
  fun a b hab => h (t :: a) b (by rw [hab]; rfl)

theorem quiet_cons {t : Token} (ht : t ≠ .opening) {ts : List Token} (h : Quiet ts) :
    Quiet (t :: ts) := by
  intro a b hab
  rcases List.cons_eq_append_iff.mp hab with ⟨-, hb⟩ | ⟨a', -, hts⟩
  · exact absurd (List.cons.inj hb).1.symm ht
  · exact h a' b hts

theorem scan_unclosed {outer : List Str} {top : Str} {s : σ} {ts : List Token}
    (h : Token.closing ∉ ts) : scan f outer top s ts = (flat outer top ++ text ts, s) := by
  induction ts generalizing outer top with
  | nil => simp
  | cons t ts ih =>
    have htail : Token.closing ∉ ts := fun hmem => h (List.mem_cons_of_mem t hmem)
    cases t with
    | opening =>
      rw [scan_opening, ih htail, flat_cons]
      simp [Token.text]
    | char c =>
      rw [scan_char, ih htail, flat_append]
      simp [Token.text]
    | closing => exact absurd List.mem_cons_self h

theorem scan_quiet {top : Str} {s : σ} {ts : List Token} (h : Quiet ts) :
    scan f [] top s ts = (top ++ text ts, s) := by
  induction ts generalizing top with
  | nil => simp [flat]
  | cons t ts ih =>
    cases t with
    | opening =>
      have hnot : Token.closing ∉ ts := h [] ts rfl
      rw [scan_opening, scan_unclosed hnot]
      simp [flat, Token.text]
    | char c =>
      rw [scan_char, ih h.tail]
      simp [Token.text]
    | closing =>
      rw [scan_stray, ih h.tail]
      simp [Token.text]

/-- A command that is open is evaluated when a closing mark comes. -/
theorem scan_closes {outer : List Str} (hne : outer ≠ []) {ts : List Token}
    (h : Token.closing ∈ ts) (top : Str) (s : σ) (log : List Str) :
    (scan (logged f) outer top (s, log) ts).2.2 ≠ log := by
  induction ts generalizing outer top s with
  | nil => simp at h
  | cons t ts ih =>
    cases t with
    | opening =>
      rw [scan_opening]
      exact ih (by simp) (by simpa using h) [] s
    | char c =>
      rw [scan_char]
      exact ih hne (by simpa using h) (top ++ [c]) s
    | closing =>
      cases outer with
      | nil => exact absurd rfl hne
      | cons below outer =>
        obtain ⟨L, hL, -⟩ := scan_log outer (below ++ (f s top).1) (f s top).2 (log ++ [top]) ts
        rw [scan_closing, logged, hL]
        simp

theorem quiet_of_log {top : Str} {s : σ} {log : List Str} {ts : List Token}
    (h : (scan (logged f) [] top (s, log) ts).2.2 = log) : Quiet ts := by
  induction ts generalizing top with
  | nil => simp [Quiet]
  | cons t ts ih =>
    cases t with
    | opening =>
      have hnot : Token.closing ∉ ts := by
        intro hmem
        rw [scan_opening] at h
        exact scan_closes (List.cons_ne_nil top []) hmem [] s log h
      intro a b hab
      rcases List.cons_eq_append_iff.mp hab with ⟨-, hb⟩ | ⟨a', -, hts⟩
      · obtain ⟨-, rfl⟩ := List.cons.inj hb
        exact hnot
      · exact fun hmem => hnot (by rw [hts]; simp [hmem])
    | char c =>
      rw [scan_char] at h
      exact quiet_cons (by simp) (ih h)
    | closing =>
      rw [scan_stray] at h
      exact quiet_cons (by simp) (ih h)

/-! ## No marks but those of the template -/

/-- Reading with the results in place, no mark comes together that is not one of the template:
at a closing mark there is no opening one behind the innermost that is open, and `=` and `}`
meet nowhere else. Outside of all commands they may, and a closing mark may stand alone, if
nothing is evaluated after it. -/
def Separate (f : Command σ) : (outer : List Str) → (top : Str) → σ → List Token → Prop
  | _, _, _, [] => True
  | outer, top, s, .opening :: ts => Separate f (top :: outer) [] s ts
  | outer, top, s, .char c :: ts =>
    if c = braceClose ∧ (flat outer top).getLast? = some equalSign then
      outer = [] ∧ ¬ openMark <:+: top ∧ Quiet ts
    else Separate f outer (top ++ [c]) s ts
  | [], top, _, .closing :: ts => ¬ openMark <:+: top ++ [equalSign] ∧ Quiet ts
  | below :: outer, top, s, .closing :: ts =>
    ¬ openMark <:+: top ++ [equalSign] ∧
      Separate f outer (below ++ (f s top).1) (f s top).2 ts

variable {outer : List Str} {top : Str} {s : σ} {ts : List Token}

@[simp] theorem separate_opening :
    Separate f outer top s (.opening :: ts) ↔ Separate f (top :: outer) [] s ts := by
  cases outer <;> rfl

@[simp] theorem separate_char {c : Byte} :
    Separate f outer top s (.char c :: ts) ↔
      if c = braceClose ∧ (flat outer top).getLast? = some equalSign then
        outer = [] ∧ ¬ openMark <:+: top ∧ Quiet ts
      else Separate f outer (top ++ [c]) s ts := by
  cases outer <;> rfl

@[simp] theorem separate_closing {below : Str} :
    Separate f (below :: outer) top s (.closing :: ts) ↔
      ¬ openMark <:+: top ++ [equalSign] ∧
        Separate f outer (below ++ (f s top).1) (f s top).2 ts := Iff.rfl

@[simp] theorem separate_nil : Separate f outer top s [] := by
  cases outer <;> exact trivial

theorem separate_plain {c : Byte} (hc : c ≠ braceClose) :
    Separate f outer top s (.char c :: ts) ↔ Separate f outer (top ++ [c]) s ts := by
  rw [separate_char, if_neg fun h => hc h.1]

/-! ## What stays free of closing marks -/

theorem closed_opening (h : ¬ closeMark <:+: flat outer top) :
    ¬ closeMark <:+: flat (top :: outer) [] := by
  rw [flat_cons, List.append_nil]
  intro hin
  rcases pair_append.mp hin with hin | hin | ⟨-, hhead⟩
  · exact h hin
  · exact absurd hin (by decide)
  · exact absurd hhead (by decide)

theorem closed_char {c : Byte} (h : ¬ closeMark <:+: flat outer top)
    (hc : ¬ (c = braceClose ∧ (flat outer top).getLast? = some equalSign)) :
    ¬ closeMark <:+: flat outer (top ++ [c]) := by
  rw [flat_append]
  intro hin
  rcases pair_append.mp hin with hin | hin | ⟨hlast, hhead⟩
  · exact h hin
  · exact absurd hin.length_le (by simp)
  · exact hc ⟨by simpa using hhead, hlast⟩

theorem closed_result (hf : Plain f) {below : Str}
    (h : ¬ closeMark <:+: flat (below :: outer) top) (s : σ) (ycmd : Str) :
    ¬ closeMark <:+: flat outer (below ++ (f s ycmd).1) := by
  rw [flat_append]
  intro hin
  rcases pair_append.mp hin with hin | hin | ⟨-, hhead⟩
  · apply h
    rw [flat_cons, List.append_assoc]
    exact hin.trans (List.prefix_append _ _).isInfix
  · exact (hf s ycmd _ (hin.subset (List.mem_cons_of_mem _ List.mem_cons_self))).2.2 rfl
  · exact (hf s ycmd _ (List.mem_of_head? hhead)).2.2 rfl

theorem text_opening (outer : List Str) (top : Str) (ts : List Token) :
    flat outer top ++ text (.opening :: ts) = flat (top :: outer) [] ++ text ts := by
  simp [flat_cons, Token.text]

theorem text_char (outer : List Str) (top : Str) (c : Byte) (ts : List Token) :
    flat outer top ++ text (.char c :: ts) = flat outer (top ++ [c]) ++ text ts := by
  simp [flat_append, Token.text]

theorem text_closing (outer : List Str) (top : Str) (ts : List Token) :
    flat outer top ++ text (.closing :: ts) = flat outer top ++ closeMark ++ text ts := by
  simp [Token.text]

/-! ## The loop gives what is meant -/

/-- A `}` that comes to stand behind a `=` is a closing mark for the loop. -/
theorem split_straddle {P : Str} (h : P.getLast? = some equalSign) (R : Str) :
    ∃ P', P = P' ++ [equalSign] ∧ P ++ braceClose :: R = P' ++ closeMark ++ R := by
  obtain ⟨P', rfl⟩ := List.getLast?_eq_some_iff.mp h
  exact ⟨P', rfl, by simp [closeMark]⟩

theorem run_of_separate (hf : Plain f) (hclosed : ¬ closeMark <:+: flat outer top)
    (h : Separate f outer top s ts) (log : List Str) :
    ∃ fuel, run (logged f) fuel (flat outer top ++ text ts, s, log) =
      some (scan (logged f) outer top (s, log) ts) := by
  have hstop {x : Str × σ × List Str} (hx : nextCommand id x.1 = none) :
      run (logged f) 1 x = some x := by simp [run, step, hx]
  induction ts generalizing outer top s log with
  | nil =>
    refine ⟨1, ?_⟩
    rw [scan_nil, text_nil, List.append_nil]
    exact hstop (next_missing hclosed)
  | cons t ts ih =>
    cases t with
    | opening =>
      rw [text_opening, scan_opening]
      exact ih (closed_opening hclosed) (separate_opening.mp h) log
    | char c =>
      rw [separate_char] at h
      by_cases hc : c = braceClose ∧ (flat outer top).getLast? = some equalSign
      · rw [if_pos hc] at h
        obtain ⟨rfl, hlast⟩ := hc
        obtain ⟨rfl, hopen, hquiet⟩ := h
        obtain ⟨P, hP, hsplit⟩ := split_straddle hlast (text ts)
        refine ⟨1, ?_⟩
        rw [scan_char, scan_quiet hquiet]
        have hall : flat [] top ++ text (.char braceClose :: ts) =
            top ++ [braceClose] ++ text ts := by simp [flat, Token.text]
        rw [hall]
        apply hstop
        have hfront : top ++ [braceClose] ++ text ts = P ++ closeMark ++ text ts := by
          rw [← hsplit]
          simp [flat]
        change top = P ++ [equalSign] at hP
        rw [hfront]
        subst hP
        have hclosed' : ¬ closeMark <:+: P := fun hin =>
          hclosed (hin.trans (List.prefix_append _ _).isInfix)
        exact next_unopened hclosed' hopen (text ts)
      · rw [if_neg hc] at h
        rw [text_char, scan_char]
        exact ih (closed_char hclosed hc) h log
    | closing =>
      rw [text_closing]
      cases outer with
      | nil =>
        obtain ⟨hopen, hquiet⟩ := h
        refine ⟨1, ?_⟩
        rw [scan_stray, scan_quiet hquiet]
        exact hstop (next_unopened hclosed hopen (text ts))
      | cons below outer =>
        obtain ⟨hopen, hrest⟩ := h
        obtain ⟨fuel, hrun⟩ := ih (closed_result hf hclosed s top) hrest (log ++ [top])
        refine ⟨fuel + 1, ?_⟩
        have hnext : nextCommand id (flat (below :: outer) top ++ closeMark ++ text ts) =
            some (flat outer below, top, text ts) := by
          rw [flat_cons] at hclosed ⊢
          exact next_matched hclosed hopen (text ts)
        rw [flat_append] at hrun
        unfold run step
        rw [hnext, scan_closing]
        exact hrun

/-! ## And only then -/

/-- Text with a command in it is no result of the loop. -/
theorem next_of_prefix {P t : Str} (hP : ¬ closeMark <:+: P)
    (hopen : openMark <:+: P ++ [equalSign]) (h : P ++ closeMark <+: t) :
    nextCommand id t ≠ none := by
  obtain ⟨R, rfl⟩ := h
  rcases next_cases hP hopen R with ⟨A, c, -, -, hnext⟩ | ⟨A, -, hnext⟩
  · rw [hnext]
    exact Option.some_ne_none _
  · rw [hnext]
    exact Option.some_ne_none _

/-- The loop has evaluated what is written down first. -/
theorem run_first {fuel : Nat} {t before ycmd behind : Str} {log : List Str}
    {y : Str × σ × List Str} (h : run (logged f) fuel (t, s, log) = some y)
    (hnext : nextCommand id t = some (before, ycmd, behind)) {L : List Str}
    (hL : y.2.2 = log ++ L) : L.head? = some ycmd := by
  obtain ⟨n, hn⟩ := run_next h hnext
  obtain ⟨L', hL', -⟩ := run_log hn
  have hlog : y.2.2 = log ++ [ycmd] ++ L' := hL'
  rw [hlog, List.append_assoc] at hL
  rw [← List.append_cancel_left hL]
  rfl

theorem openMark_outer {below : Str} : openMark <:+: flat (below :: outer) top :=
  ⟨flat outer below, top, (flat_cons below outer top).symm⟩

/-- The text of an open command does not start with the end of a mark. -/
theorem head_ne {below : Str} (h : ¬ closeMark <:+: flat (below :: outer) top) :
    top.head? ≠ some braceClose := by
  intro hhead
  apply h
  rw [flat_cons]
  exact pair_append.mpr (.inr (.inr ⟨by simp [openMark], hhead⟩))

/-- Where an open command has no text yet, a `}` makes the loop take all that is left. -/
theorem no_overlap {below : Str} (hclosed : ¬ closeMark <:+: flat (below :: outer) [])
    {log : List Str} {fuel : Nat} :
    run (logged f) fuel (flat (below :: outer) [] ++ text (.char braceClose :: ts), s, log) ≠
      some (scan (logged f) (below :: outer) [] (s, log) (.char braceClose :: ts)) := by
  intro h
  obtain ⟨L, hL, hlen⟩ := scan_log (below :: outer) [braceClose] s log ts
  have hnext : nextCommand id (flat (below :: outer) [] ++ text (.char braceClose :: ts)) =
      some (flat outer below, braceClose :: text ts, text ts) := by
    have hclosed' : ¬ closeMark <:+: flat outer below ++ [braceOpen] := by
      intro hin
      apply hclosed
      rw [flat_cons]
      exact hin.trans ⟨[], [equalSign], by simp [openMark]⟩
    rw [← next_overlap hclosed' (text ts), flat_cons]
    simp [Token.text]
  have hhead := run_first h hnext hL
  have hshort := hlen _ hhead
  simp only [List.length_cons, List.length_nil] at hshort
  omega

theorem separate_of_run (hf : Plain f) (hclosed : ¬ closeMark <:+: flat outer top)
    {log : List Str} {fuel : Nat}
    (h : run (logged f) fuel (flat outer top ++ text ts, s, log) =
      some (scan (logged f) outer top (s, log) ts)) :
    Separate f outer top s ts := by
  induction ts generalizing outer top s log fuel with
  | nil => exact separate_nil
  | cons t ts ih =>
    have hdone := run_done h
    cases t with
    | opening =>
      rw [text_opening, scan_opening] at h
      exact separate_opening.mpr (ih (closed_opening hclosed) h)
    | char c =>
      rw [separate_char]
      by_cases hc : c = braceClose ∧ (flat outer top).getLast? = some equalSign
      · rw [if_pos hc]
        obtain ⟨rfl, hlast⟩ := hc
        obtain ⟨P, hP, -⟩ := split_straddle hlast (text ts)
        have hclosed' : ¬ closeMark <:+: P := by
          intro hin
          rw [hP] at hclosed
          exact hclosed (hin.trans (List.prefix_append _ _).isInfix)
        rw [scan_char] at h hdone
        have hmark : flat outer (top ++ [braceClose]) = P ++ closeMark := by
          rw [flat_append, hP]
          simp [closeMark]
        obtain ⟨L, hL, hframe⟩ := scan_frame [] outer (top ++ [braceClose]) rfl s log ts
        cases outer with
        | nil =>
          have hopen : ¬ openMark <:+: top := by
            intro hin
            rcases hframe with hprefix | ⟨hne, -⟩
            · rw [hmark] at hprefix
              have hin' : openMark <:+: P ++ [equalSign] := by
                rw [← hP]
                exact hin
              exact next_of_prefix hclosed' hin' hprefix hdone
            · exact absurd rfl hne
          refine ⟨rfl, hopen, ?_⟩
          have htext : flat [] top ++ text (.char braceClose :: ts) =
              P ++ closeMark ++ text ts := by rw [text_char, hmark]
          have hnone : nextCommand id (flat [] top ++ text (.char braceClose :: ts)) = none := by
            rw [htext]
            apply next_unopened hclosed'
            rw [← hP]
            exact hopen
          have hend := run_last h hnone
          exact quiet_of_log (congrArg (fun y => y.2.2) hend)
        | cons below outer =>
          -- the loop closes here what the template leaves open
          exfalso
          have hopen : openMark <:+: P ++ [equalSign] := hP ▸ openMark_outer
          rcases hframe with hprefix | ⟨-, e, he, hprefix⟩
          · rw [hmark] at hprefix
            exact next_of_prefix hclosed' hopen hprefix hdone
          · obtain ⟨L', hL', hcut⟩ := run_log h
            rw [hL] at hL'
            obtain rfl := List.append_cancel_left hL'
            rcases List.eq_nil_or_concat' top with rfl | ⟨front, x, rfl⟩
            · rw [← scan_char] at h
              exact no_overlap hclosed h
            · rw [flat_append, List.getLast?_concat] at hlast
              obtain rfl := Option.some.inj hlast
              have hin : closeMark <:+: e := by
                apply List.IsInfix.trans _ hprefix.isInfix
                exact ⟨front, [], by simp [closeMark]⟩
              rcases hcut e he with hnot | hhead
              · exact hnot hin
              · obtain ⟨w, rfl⟩ := hprefix
                apply head_ne hclosed
                rw [← hhead]
                cases front <;> simp
      · rw [if_neg hc]
        rw [text_char, scan_char] at h
        exact ih (closed_char hclosed hc) h
    | closing =>
      rw [text_closing] at h
      cases outer with
      | nil =>
        have hopen : ¬ openMark <:+: top ++ [equalSign] := by
          intro hin
          obtain ⟨L, -, hframe⟩ := scan_frame [] [] (top ++ closeMark) rfl s log ts
          rcases hframe with hprefix | ⟨hne, -⟩
          · exact next_of_prefix hclosed hin hprefix hdone
          · exact absurd rfl hne
        have hend := run_last h (next_unopened hclosed hopen (text ts))
        rw [scan_stray] at hend
        exact ⟨hopen, quiet_of_log (congrArg (fun y => y.2.2) hend)⟩
      | cons below outer =>
        have hopen : ¬ openMark <:+: top ++ [equalSign] := by
          intro hin
          obtain ⟨L, hL, -⟩ := scan_log outer (below ++ (f s top).1) (f s top).2 (log ++ [top]) ts
          rw [List.append_assoc] at hL
          have hin' : openMark <:+: flat (below :: outer) top ++ [equalSign] :=
            openMark_outer.trans (List.prefix_append _ _).isInfix
          rcases next_cases hclosed hin' (text ts) with ⟨A, c, -, hc, hnext⟩ | ⟨A, -, hnext⟩
          · have hhead : some top = some c := run_first h hnext hL
            obtain rfl := Option.some.inj hhead
            exact hc hin
          · have hhead : some top = some (braceClose :: text ts) := run_first h hnext hL
            exact head_ne hclosed (by rw [Option.some.inj hhead]; rfl)
        refine ⟨hopen, ?_⟩
        have hnext : nextCommand id (flat (below :: outer) top ++ closeMark ++ text ts) =
            some (flat outer below, top, text ts) := by
          rw [flat_cons] at hclosed ⊢
          exact next_matched hclosed hopen (text ts)
        obtain ⟨n, hn⟩ := run_next h hnext
        have hrest : run (logged f) n
            (flat outer (below ++ (f s top).1) ++ text ts, (f s top).2, log ++ [top]) =
              some (scan (logged f) outer (below ++ (f s top).1) ((f s top).2, log ++ [top])
                ts) := by
          rw [flat_append]
          exact hn
        exact ih (closed_result hf hclosed s top) hrest

/-! ## A whole template -/

/-- The loop ends with the text that is meant, and has evaluated the commands that are meant,
in their order. -/
def Exact (f : Command σ) (s : σ) (template : Str) : Prop :=
  ∀ fuel, template.length < fuel →
    run (logged f) fuel (template, s, []) =
      some (scan (logged f) [] [] (s, []) (tokens template))

/-- The loop always ends, and is exact if and only if the values keep the commands apart. -/
theorem commands_exact_iff (hf : Plain f) (s : σ) (template : Str) :
    (∃ y, ∀ fuel, template.length < fuel → run (logged f) fuel (template, s, []) = some y) ∧
      (Exact f s template ↔ Separate f [] [] s (tokens template)) := by
  have hlogged : Plain (logged f) := fun x ycmd => hf x.1 ycmd
  obtain ⟨y, hy⟩ := run_ends hlogged (x := (template, s, []))
    (Nat.lt_succ_of_le List.count_le_length)
  have hall : ∀ fuel, template.length < fuel → run (logged f) fuel (template, s, []) = some y :=
    fun fuel hfuel => run_mono hy hfuel
  have hclosed : ¬ closeMark <:+: flat [] [] := by decide
  have htext : flat [] [] ++ text (tokens template) = template := text_tokens template
  refine ⟨⟨y, hall⟩, ?_, ?_⟩
  · intro h
    have hrun := h _ (Nat.lt_succ_self _)
    exact separate_of_run hf hclosed (by rw [htext]; exact hrun)
  · intro h fuel hfuel
    obtain ⟨n, hn⟩ := run_of_separate hf hclosed h []
    rw [htext] at hn
    have hmax := run_mono hn (Nat.le_max_left n fuel)
    have hmax' := run_mono (hall fuel hfuel) (Nat.le_max_right n fuel)
    rw [hall fuel hfuel, ← hmax', hmax]

end

/-- Every command gives its own length in `x`. -/
def lengths : Command Unit := fun s ycmd => (List.replicate ycmd.length 120, s)

theorem lengths_plain : Plain lengths := by
  intro s ycmd c hc
  obtain rfl := List.eq_of_mem_replicate hc
  decide

/-- One command in another, and text around them. -/
theorem nested_exact : Exact lengths () (chars "a\x7b=b\x7b=cd=\x7d=\x7d \x7b") := by
  apply (commands_exact_iff lengths_plain () _).2.mpr
  have htokens : tokens (chars "a\x7b=b\x7b=cd=\x7d=\x7d \x7b") =
      [.char 97, .opening, .char 98, .opening, .char 99, .char 100, .closing, .closing,
        .char 32, .char braceOpen] := by decide
  rw [htokens]
  simp (disch := decide) only [separate_plain, separate_opening, separate_closing, separate_nil]
  decide

/-- A closing mark in front keeps the command behind it from being found. -/
theorem stray_hides :
    ¬ ∀ f : Command Unit, Plain f → ∀ s template, Exact f s template := by
  intro h
  have hexact := h lengths lengths_plain () (chars "=\x7d\x7b=a=\x7d") 10 (by decide)
  exact absurd hexact (by decide)

end Tuxbox.Nhttpd.Template
