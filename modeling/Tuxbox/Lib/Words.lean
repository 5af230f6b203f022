import Tuxbox.Lib.Bytes

/-!
# Words of a line

What repeated `in >> s` calls deliver. A line put together from words reads back
as these words (`words_joined`), and every delivered word is one (`isWord_of_mem`).
-/

namespace Tuxbox

def blank : Byte := 32

/-- A string that `>>` delivers as it is: not empty, no blank in it. The end of a
`char` array is not part of a word either. -/
structure IsWord (w : Str) : Prop where
  ne_nil : w ≠ []
  noSpace : ∀ c ∈ w, isSpace c = false
  noEnd : (0 : Byte) ∉ w

instance (w : Str) : Decidable (IsWord w) :=
  haveI : Decidable (∀ c ∈ w, isSpace c = false) := List.decidableBAll _ w
  decidable_of_iff (w ≠ [] ∧ (∀ c ∈ w, isSpace c = false) ∧ (0 : Byte) ∉ w)
    ⟨fun h => ⟨h.1, h.2.1, h.2.2⟩, fun h => ⟨h.1, h.2, h.3⟩⟩

/-- The words from here on, `w` being read. -/
def wordsFrom (w : Str) : Str → List Str
  | [] => if w = [] then [] else [w]
  | c :: cs =>
    if isSpace c then
      if w = [] then wordsFrom [] cs else w :: wordsFrom [] cs
    else wordsFrom (w ++ [c]) cs

def words (s : Str) : List Str := wordsFrom [] s

/-- Words with one blank before each but the first. -/
def joined (w : Str) (ws : List Str) : Str := w ++ ws.flatMap (blank :: ·)

theorem wordsFrom_append {s : Str} (hs : ∀ c ∈ s, isSpace c = false) (w rest : Str) :
    wordsFrom w (s ++ rest) = wordsFrom (w ++ s) rest := by
  induction s generalizing w with
  | nil => simp
  | cons c s ih =>
    have hc := hs c List.mem_cons_self
    have ih := ih (fun d hd => hs d (List.mem_cons_of_mem c hd)) (w ++ [c])
    simpa [wordsFrom, hc] using ih

theorem wordsFrom_blanks (w : Str) {ws : List Str} (hw : w ≠ []) (hws : ∀ x ∈ ws, IsWord x) :
    wordsFrom w (ws.flatMap (blank :: ·)) = w :: ws := by
  induction ws generalizing w with
  | nil => simp [wordsFrom, hw]
  | cons x ws ih =>
    have hx := hws x List.mem_cons_self
    have hb : isSpace blank = true := rfl
    have ih := ih x hx.ne_nil fun y hy => hws y (List.mem_cons_of_mem x hy)
    simp only [List.flatMap_cons, List.cons_append, wordsFrom, hb, hw, if_true, if_false]
    rw [wordsFrom_append hx.noSpace, List.nil_append, ih]

theorem words_joined {w : Str} {ws : List Str} (hw : IsWord w) (hws : ∀ x ∈ ws, IsWord x) :
    words (joined w ws) = w :: ws := by
  rw [words, joined, wordsFrom_append hw.noSpace, List.nil_append, wordsFrom_blanks w hw.ne_nil hws]

theorem words_space {c : Byte} (hc : isSpace c = true) (s : Str) : words (c :: s) = words s := by
  simp [words, wordsFrom, hc]

theorem mem_wordsFrom {w s x : Str} (hw : (∀ c ∈ w, isSpace c = false) ∧ (0 : Byte) ∉ w)
    (hs : (0 : Byte) ∉ s) (hx : x ∈ wordsFrom w s) : IsWord x := by
  induction s generalizing w with
  | nil =>
    simp only [wordsFrom] at hx
    split at hx
    · simp at hx
    · rename_i hne
      obtain rfl := List.mem_singleton.mp hx
      exact ⟨hne, hw.1, hw.2⟩
  | cons c s ih =>
    simp only [List.mem_cons, not_or] at hs
    simp only [wordsFrom] at hx
    split at hx
    · split at hx
      · exact ih ⟨by simp, by simp⟩ hs.2 hx
      · rename_i hne
        rcases List.mem_cons.mp hx with rfl | hx
        · exact ⟨hne, hw.1, hw.2⟩
        · exact ih ⟨by simp, by simp⟩ hs.2 hx
    · rename_i hc
      have hc : isSpace c = false := by simpa using hc
      have hw' : (∀ d ∈ w ++ [c], isSpace d = false) ∧ (0 : Byte) ∉ w ++ [c] := by
        constructor
        · intro d hd
          rcases List.mem_append.mp hd with hd | hd
          · exact hw.1 d hd
          · rw [List.mem_singleton.mp hd, hc]
        · simp [hw.2, hs.1]
      exact ih hw' hs.2 hx

theorem notMem_cString (s : Str) : (0 : Byte) ∉ cString s := by
  intro h
  have := List.mem_takeWhile_imp h
  simp at this

theorem cString_eq_self {s : Str} (h : (0 : Byte) ∉ s) : cString s = s := by
  apply List.takeWhile_eq_self_iff.mpr
  intro c hc
  have : c ≠ 0 := fun h0 => h (h0 ▸ hc)
  simpa using this

theorem isWord_of_mem {s x : Str} (hx : x ∈ words (cString s)) : IsWord x :=
  mem_wordsFrom ⟨by simp, by simp⟩ (notMem_cString s) hx

theorem notMem_joined {w : Str} {ws : List Str} (hw : IsWord w) (hws : ∀ x ∈ ws, IsWord x) {c : Byte}
    (hc : ∀ x, IsWord x → c ∉ x) (hb : c ≠ blank) : c ∉ joined w ws := by
  simp only [joined, List.mem_append, List.mem_flatMap, List.mem_cons, not_or, not_exists, not_and]
  exact ⟨hc w hw, fun x hx => ⟨hb, hc x (hws x hx)⟩⟩

theorem newline_notMem_word {w : Str} (hw : IsWord w) : newline ∉ w := by
  intro h
  have : isSpace newline = false := hw.noSpace newline h
  simp [isSpace, newline] at this

end Tuxbox
