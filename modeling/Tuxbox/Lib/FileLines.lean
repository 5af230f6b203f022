import Tuxbox.Lib.Words

/-!
# Files read with `fgets`

A loop of `fgets` gets a long line in pieces.
-/

namespace Tuxbox

def carriageReturn : Byte := 13

/-- The pieces of a file, at most `n` bytes each; `acc` is the begin of the first one. -/
def fgetsFrom (n : Nat) (acc : Str) : Str → List Str
  | [] => if acc = [] then [] else [acc]
  | c :: cs =>
    if c = newline ∨ acc.length + 1 = n then (acc ++ [c]) :: fgetsFrom n [] cs
    else fgetsFrom n (acc ++ [c]) cs

/-- The pieces that a text is read in. -/
def fgets (n : Nat) (s : Str) : List Str := fgetsFrom n [] s

def cutLast (c : Byte) (l : Str) : Str := if l.getLast? = some c then l.dropLast else l

/-- A last `\n` is cut off, and then a last `\r`. -/
def chomp (l : Str) : Str := cutLast carriageReturn (cutLast newline l)

/-- The lines a loop sees that goes on at empty ones. -/
def contents (n : Nat) (s : Str) : List Str :=
  ((fgets n s).map fun l => chomp (cString l)).filter (· ≠ [])

/-- Text without line breaks, as a C string. -/
def Clean (l : Str) : Prop := ∀ c ∈ l, c ≠ newline ∧ c ≠ carriageReturn ∧ c ≠ 0

instance (l : Str) : Decidable (Clean l) := List.decidableBAll _ l

section
variable {n : Nat} {l l' acc rest : Str} {c : Byte}

theorem clean_nil : Clean [] := fun _ hc => nomatch hc

theorem clean_append : Clean (l ++ l') ↔ Clean l ∧ Clean l' := List.forall_mem_append

theorem clean_cons : Clean (c :: l) ↔ (c ≠ newline ∧ c ≠ carriageReturn ∧ c ≠ 0) ∧ Clean l :=
  List.forall_mem_cons

theorem cutLast_concat : cutLast c (l ++ [c]) = l := by
  rw [cutLast, List.getLast?_concat, if_pos rfl, List.dropLast_concat]

theorem cutLast_of_notMem (h : c ∉ l) : cutLast c l = l :=
  if_neg fun hl => h (List.mem_of_getLast? hl)

theorem Clean.newline_notMem (h : Clean l) : newline ∉ l := fun hl => (h newline hl).1 rfl

theorem Clean.return_notMem (h : Clean l) : carriageReturn ∉ l :=
  fun hl => (h carriageReturn hl).2.1 rfl

/-- What is cut off a line, with its line break. -/
theorem chomp_eol (h : Clean l) {eol : Str}
    (heol : eol ∈ [[], [carriageReturn], [carriageReturn, newline], [newline]]) :
    chomp (cString (l ++ eol)) = l := by
  have hzero : (0 : Byte) ∉ l ++ eol := by
    rw [List.mem_append, not_or]
    apply And.intro (fun h0 => (h 0 h0).2.2 rfl)
    revert eol
    decide
  have hreturn : cutLast carriageReturn l = l := cutLast_of_notMem h.return_notMem
  rw [cString_eq_self hzero, chomp]
  simp only [List.mem_cons, List.not_mem_nil, or_false] at heol
  rcases heol with rfl | rfl | rfl | rfl
  · rw [List.append_nil, cutLast_of_notMem h.newline_notMem, hreturn]
  · have hnew : newline ∉ l ++ [carriageReturn] := by
      rw [List.mem_append, not_or]
      exact ⟨h.newline_notMem, by decide⟩
    rw [cutLast_of_notMem hnew, cutLast_concat]
  · have hsplit : l ++ [carriageReturn, newline] = (l ++ [carriageReturn]) ++ [newline] := by simp
    rw [hsplit, cutLast_concat, cutLast_concat]
  · rw [cutLast_concat, hreturn]

theorem chomp_clean (h : Clean l) : chomp (cString l) = l := by
  have heol := @chomp_eol l h [] (by decide)
  rwa [List.append_nil] at heol

/-- The lines of the pieces from `acc` on. -/
def contentsFrom (n : Nat) (acc s : Str) : List Str :=
  ((fgetsFrom n acc s).map fun l => chomp (cString l)).filter (· ≠ [])

theorem contentsFrom_cons (p : Str) (ps : List Str) :
    (((p :: ps).map fun l => chomp (cString l)).filter (· ≠ [])) =
      (if chomp (cString p) = [] then [] else [chomp (cString p)]) ++
        ((ps.map fun l => chomp (cString l)).filter (· ≠ [])) := by
  rw [List.map_cons, List.filter_cons]
  split <;> simp_all

theorem contents_break : contents n (newline :: rest) = contents n rest := by
  have hempty : chomp (cString ([] ++ [newline])) = [] := chomp_eol clean_nil (by decide)
  rw [contents, fgets, fgetsFrom, if_pos (.inl rfl), contentsFrom_cons, hempty, if_pos rfl]
  rfl

theorem contentsFrom_end (hacc : Clean acc) :
    contentsFrom n acc (carriageReturn :: newline :: rest) =
      (if acc = [] then [] else [acc]) ++ contents n rest := by
  rw [contentsFrom, fgetsFrom]
  split
  · rw [contentsFrom_cons, chomp_eol hacc (by decide)]
    exact congrArg (_ ++ ·) contents_break
  · have hsplit : acc ++ [carriageReturn] ++ [newline] = acc ++ [carriageReturn, newline] := by simp
    rw [fgetsFrom, if_pos (.inl rfl), contentsFrom_cons, hsplit, chomp_eol hacc (by decide)]
    rfl

theorem contentsFrom_line (hacc : Clean acc) (hl : Clean l) :
    contentsFrom n acc (l ++ carriageReturn :: newline :: rest) =
      fgetsFrom n acc l ++ contents n rest := by
  induction l generalizing acc with
  | nil => exact contentsFrom_end hacc
  | cons c cs ih =>
    obtain ⟨hc, hcs⟩ := clean_cons.mp hl
    have hnext : Clean (acc ++ [c]) := clean_append.mpr ⟨hacc, clean_cons.mpr ⟨hc, clean_nil⟩⟩
    rw [List.cons_append, contentsFrom, fgetsFrom, fgetsFrom]
    split
    · rw [contentsFrom_cons, chomp_clean hnext, if_neg (by simp)]
      exact congrArg ((acc ++ [c]) :: ·) (ih clean_nil hcs)
    · exact ih hnext hcs

/-- A written line is read as its pieces. -/
theorem contents_line (hl : Clean l) :
    contents n (l ++ carriageReturn :: newline :: rest) = fgets n l ++ contents n rest :=
  contentsFrom_line clean_nil hl

/-- A line that ends with `\n` only. -/
theorem contentsFrom_newline (hacc : Clean acc) (hl : Clean l) (hlen : acc.length + l.length < n)
    (hne : acc ++ l ≠ []) :
      contentsFrom n acc (l ++ newline :: rest) = (acc ++ l) :: contents n rest := by
  induction l generalizing acc with
  | nil =>
    rw [List.append_nil] at hne ⊢
    rw [List.nil_append, contentsFrom, fgetsFrom, if_pos (.inl rfl), contentsFrom_cons,
      chomp_eol hacc (by decide), if_neg hne]
    rfl
  | cons c cs ih =>
    obtain ⟨hc, hcs⟩ := clean_cons.mp hl
    rw [List.length_cons] at hlen
    have hinside : ¬ (c = newline ∨ acc.length + 1 = n) := by
      rintro (h | h)
      · exact hc.1 h
      · omega
    have hsplit : acc ++ c :: cs = (acc ++ [c]) ++ cs := by simp
    rw [List.cons_append, contentsFrom, fgetsFrom, if_neg hinside, hsplit]
    apply ih (clean_append.mpr ⟨hacc, clean_cons.mpr ⟨hc, clean_nil⟩⟩) hcs
    · rw [List.length_append, List.length_singleton]
      omega
    · simp

theorem contents_newline (hl : Clean l) (hlen : l.length < n) (hne : l ≠ []) :
    contents n (l ++ newline :: rest) = l :: contents n rest :=
  contentsFrom_newline clean_nil hl (by simpa using hlen) hne

theorem fgetsFrom_cons (hacc : acc.length < n) (hne : acc ++ l ≠ []) (hl : newline ∉ l) :
    fgetsFrom n acc l = (acc ++ l).take n :: fgets n ((acc ++ l).drop n) := by
  induction l generalizing acc with
  | nil =>
    rw [List.append_nil] at hne ⊢
    rw [fgetsFrom, if_neg hne, List.take_of_length_le (Nat.le_of_lt hacc),
      List.drop_eq_nil_of_le (Nat.le_of_lt hacc)]
    rfl
  | cons c cs ih =>
    rw [List.mem_cons, not_or] at hl
    have hsplit : acc ++ c :: cs = (acc ++ [c]) ++ cs := by simp
    rw [fgetsFrom]
    split
    · rename_i h
      have hlen : (acc ++ [c]).length = n := by
        rw [List.length_append, List.length_singleton]
        exact h.resolve_left (Ne.symm hl.1)
      rw [hsplit, ← hlen, List.take_left, List.drop_left, hlen]
      rfl
    · rename_i h
      rw [hsplit]
      apply ih
      · rw [List.length_append, List.length_singleton]
        exact Nat.lt_of_le_of_ne hacc fun h' => h (.inr h')
      · simp
      · exact hl.2

/-- A long line is cut. -/
theorem fgets_cons (hn : 0 < n) (hne : l ≠ []) (hl : newline ∉ l) :
    fgets n l = l.take n :: fgets n (l.drop n) := fgetsFrom_cons hn hne hl

/-- A short line is read as it is. -/
theorem fgets_short (hn : 0 < n) (hne : l ≠ []) (hl : newline ∉ l) (hlen : l.length ≤ n) :
    fgets n l = [l] := by
  rw [fgets_cons hn hne hl, List.take_of_length_le hlen, List.drop_eq_nil_of_le hlen]
  rfl

/-- The first piece of a line with a key. -/
theorem fgets_append {key : Str} (hkey : key ≠ []) (hlen : key.length ≤ n)
    (hl : newline ∉ key ++ l) : fgets n (key ++ l) =
      (key ++ l.take (n - key.length)) :: fgets n (l.drop (n - key.length)) := by
  have hpos := List.length_pos_of_ne_nil hkey
  have hne : key ++ l ≠ [] := fun hnil => hkey (List.append_eq_nil_iff.mp hnil).1
  rw [fgets_cons (Nat.lt_of_lt_of_le hpos hlen) hne hl, List.take_append, List.drop_append,
    List.take_of_length_le hlen, List.drop_eq_nil_of_le hlen, List.nil_append]

theorem flatten_fgetsFrom (s : Str) : (fgetsFrom n acc s).flatten = acc ++ s := by
  induction s generalizing acc with
  | nil =>
    rw [fgetsFrom]
    split <;> simp_all
  | cons c cs ih =>
    rw [fgetsFrom]
    split
    · rw [List.flatten_cons, ih]
      simp
    · rw [ih]
      simp

theorem flatten_fgets (s : Str) : (fgets n s).flatten = s := flatten_fgetsFrom s

theorem ne_nil_of_mem_fgetsFrom {s p : Str} (hp : p ∈ fgetsFrom n acc s) : p ≠ [] := by
  induction s generalizing acc with
  | nil =>
    rw [fgetsFrom] at hp
    split at hp
    · cases hp
    · rename_i hacc
      exact List.mem_singleton.mp hp ▸ hacc
  | cons c cs ih =>
    rw [fgetsFrom] at hp
    split at hp
    · rcases List.mem_cons.mp hp with rfl | hp
      · simp
      · exact ih hp
    · exact ih hp

theorem ne_nil_of_mem_fgets {s p : Str} (hp : p ∈ fgets n s) : p ≠ [] :=
  ne_nil_of_mem_fgetsFrom hp

/-- The pieces of a line begin at the multiples of `n`. -/
theorem head_fgets (hn : 0 < n) (hl : newline ∉ l) :
    (∃ p ∈ fgets n l, p.head? = some c) ↔ ∃ k, l[n * k]? = some c := by
  induction hlen : l.length using Nat.strong_induction_on generalizing l with
  | _ m ih =>
    subst hlen
    by_cases hne : l = []
    · subst hne
      apply iff_of_false
      · exact fun ⟨p, hp, _⟩ => nomatch hp
      · exact fun ⟨k, hk⟩ => nomatch hk
    have hpos := List.length_pos_of_ne_nil hne
    have hdrop : (l.drop n).length < l.length := by rw [List.length_drop]; omega
    have hrest := ih _ hdrop (l := l.drop n) (fun h => hl (List.mem_of_mem_drop h)) rfl
    have hhead : (l.take n).head? = l[n * 0]? := by
      rw [List.head?_take, if_neg (Nat.ne_of_gt hn), Nat.mul_zero, List.head?_eq_getElem?]
    have hnext (k : Nat) : (l.drop n)[n * k]? = l[n * (k + 1)]? := by
      rw [List.getElem?_drop, Nat.mul_succ, Nat.add_comm]
    rw [fgets_cons hn hne hl, List.exists_mem_cons_iff, hhead, hrest]
    simp only [hnext]
    constructor
    · rintro (h | ⟨k, h⟩)
      · exact ⟨0, h⟩
      · exact ⟨k + 1, h⟩
    · rintro ⟨k, h⟩
      cases k with
      | zero => exact .inl h
      | succ k => exact .inr ⟨k, h⟩

end

end Tuxbox
