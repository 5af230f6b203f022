import Tuxbox.Nhttpd.Multipart
import Mathlib.Data.List.Forall2

/-!
# What a parameter string holds

A parameter string as a browser writes it, and the entries it makes.
-/

namespace Tuxbox.Nhttpd

/-! ## Splitting at one character -/

theorem split_char {c : Byte} {before : Str} (hc : c ∉ before) (rest : Str) :
    ySplitStringExact (before ++ c :: rest) [c] = (true, before, rest) := by
  have hfirst : ∀ i < before.length, ¬ [c] <+: before.drop i ++ [c] := by
    intro i hi hfront
    rw [List.drop_eq_getElem_cons hi] at hfront
    have hhead : c = before[i] := (List.cons_prefix_cons.mp hfront).1
    exact hc (hhead ▸ List.getElem_mem hi)
  exact split_found rest hfirst

theorem split_char_missing {c : Byte} {s : Str} (hc : c ∉ s) :
    ySplitStringExact s [c] = (false, s, []) := by
  apply split_missing
  intro hin
  exact hc (hin.subset List.mem_cons_self)

/-! ## The encoding -/

inductive Param where
  | bare (name : Str)
  | valued (name value : Str)
  deriving DecidableEq

namespace Param

def name : Param → Str
  | bare name => name
  | valued name _ => name

def Bare : Param → Prop
  | bare _ => True
  | valued _ _ => False

/-- Values are not empty and have no blanks at their ends. -/
def Valid : Param → Prop
  | bare _ => True
  | valued _ value => value ≠ [] ∧ trim value = value

end Param

/-- Letters and digits. -/
def isAlnum (c : Byte) : Bool :=
  isDigit c || (65 ≤ c && c ≤ 90) || (97 ≤ c && c ≤ 122)

/-- `Encoded s t`: `t` is `s` with every byte but letters and digits as `%XX`, or `+` for a
blank. -/
inductive Encoded : Str → Str → Prop
  | nil : Encoded [] []
  | plain {c : Byte} {s t : Str} : isAlnum c = true → Encoded s t → Encoded (c :: s) (c :: t)
  | blank {s t : Str} : Encoded s t → Encoded (32 :: s) (plus :: t)
  | percent {c hi lo : Byte} {s t : Str} : isAlnum c = false →
      digitVal hi = some (c.toNat / 16) → digitVal lo = some (c.toNat % 16) →
      Encoded s t → Encoded (c :: s) (percent :: hi :: lo :: t)

inductive EncodedParam : Param → Str → Prop
  | bare {name t : Str} : Encoded name t → EncodedParam (.bare name) t
  | valued {name value t u : Str} : Encoded name t → Encoded value u →
      EncodedParam (.valued name value) (t ++ chars "=" ++ u)

/-- `paramString` is the parameters `ps`, joined by `&`. -/
def Encodes (ps : List Param) (paramString : Str) : Prop :=
  ∃ ts, List.Forall₂ EncodedParam ps ts ∧ paramString = (chars "&").intercalate ts

theorem digitVal_isDigit {c : Byte} {d : Nat} (h : digitVal c = some d) (hd : d < 16) :
    digitIn 16 c = true := by
  simp only [digitIn, h, decide_eq_true_eq]
  exact hd

/-- Neither of the separators is ever written. -/
theorem Encoded.notMem {s t : Str} (h : Encoded s t) {c : Byte}
    (hc : isAlnum c = false) (hp : c ≠ plus) (hq : c ≠ Nhttpd.percent)
    (hx : digitIn 16 c = false) : c ∉ t := by
  induction h with
  | nil => exact List.not_mem_nil
  | plain ha _ ih =>
    rw [List.mem_cons, not_or]
    refine ⟨?_, ih⟩
    rintro rfl
    rw [ha] at hc
    contradiction
  | blank _ ih => exact fun h => (List.mem_cons.mp h).elim hp ih
  | @percent c' hi lo _ _ _ hhi hlo _ ih =>
    have hb := c'.toNat_lt
    have h1 := digitVal_isDigit hhi (by omega)
    have h2 := digitVal_isDigit hlo (by omega)
    simp only [List.mem_cons, not_or]
    refine ⟨hq, ?_, ?_, ih⟩
    · rintro rfl
      simp [h1] at hx
    · rintro rfl
      simp [h2] at hx

theorem Encoded.no_ampersand {s t : Str} (h : Encoded s t) : (38 : Byte) ∉ t :=
  h.notMem (by decide) (by decide) (by decide) (by decide)

theorem Encoded.no_equals {s t : Str} (h : Encoded s t) : (61 : Byte) ∉ t :=
  h.notMem (by decide) (by decide) (by decide) (by decide)

/-! ## Decoding -/

theorem decodeString_cons {c : Byte} (h : c ≠ percent) (s : Str) :
    decodeString (c :: s) = (if c = plus then 32 else c) :: decodeString s := by
  match s with
  | [] => rfl
  | [_] => rfl
  | _ :: _ :: _ => rw [decodeString, if_neg h]

theorem strtoul_pair {c hi lo : Byte} (hhi : digitVal hi = some (c.toNat / 16))
    (hlo : digitVal lo = some (c.toNat % 16)) : strtoul 16 [hi, lo] = c.toNat := by
  have hb := c.toNat_lt
  have hv : value 16 [hi, lo] = c.toNat := by
    simp only [value, List.foldl_cons, List.foldl_nil, hhi, hlo, Option.getD_some]
    omega
  have hd : ∀ d ∈ [hi, lo], digitIn 16 d = true := by
    intro d hd
    simp only [List.mem_cons, List.not_mem_nil, or_false] at hd
    rcases hd with rfl | rfl
    · exact digitVal_isDigit hhi (by omega)
    · exact digitVal_isDigit hlo (by omega)
  have hr : radix 16 [hi, lo] = (16, [hi, lo]) := by simp [radix, hexMarked]
  rw [strtoul_digits (by simp) hr hd (by rw [hv, ulongMax]; omega), hv]

theorem Encoded.decode {s t : Str} (h : Encoded s t) : decodeString t = s := by
  induction h with
  | nil => rfl
  | @plain c _ _ ha _ ih =>
    have hp : c ≠ Nhttpd.percent := by rintro rfl; exact absurd ha (by decide)
    have hq : c ≠ plus := by rintro rfl; exact absurd ha (by decide)
    rw [decodeString_cons hp, if_neg hq, ih]
  | blank _ ih => rw [decodeString_cons (by decide), if_pos rfl, ih]
  | percent _ hhi hlo _ ih => simp [decodeString, strtoul_pair hhi hlo, ih]

/-! ## One parameter -/

/-- `ParameterList[name]`. -/
def entry (m : OrdMap Str Str) (name : Str) : Str := (m.find name).getD []

/-- What is kept of a value behind the values its name has already. -/
def joinValue (old value : Str) : Str := if old = [] then value else old ++ chars "," ++ value

def addNumber (m : OrdMap Str Str) (name : Str) : OrdMap Str Str :=
  m.set (decNat (m.size + 1)) name

/-- What one parameter does to the list. -/
def takeParam (m : OrdMap Str Str) : Param → OrdMap Str Str
  | .bare name => addNumber m (trim name)
  | .valued name value => addNumber (m.set name (joinValue (entry m name) value)) name

/-- One round of the loop. -/
theorem parseParamsLoop_step {p : Param} {t : Str} (h : EncodedParam p t) (hv : p.Valid)
    (fuel : Nat) (m : OrdMap Str Str) (rest : Str) :
    parseParamsLoop (fuel + 1) m t = takeParam m p ∧
      parseParamsLoop (fuel + 1) m (t ++ chars "&" ++ rest) =
        parseParamsLoop fuel (takeParam m p) rest := by
  have hamp : (38 : Byte) ∉ t := by
    cases h with
    | bare hn => exact hn.no_ampersand
    | valued hn hu => simp [chars, hn.no_ampersand, hu.no_ampersand]
  have hend : ySplitStringExact t (chars "&") = (false, t, []) := split_char_missing hamp
  have hmore : ySplitStringExact (t ++ chars "&" ++ rest) (chars "&") = (true, t, rest) := by
    rw [List.append_assoc]
    exact split_char hamp rest
  cases h with
  | bare hn =>
    have hsplit : ySplitStringExact t (chars "=") = (false, t, []) :=
      split_char_missing hn.no_equals
    simp [-List.append_assoc, parseParamsLoop, hend, hmore, hsplit, hn.decode, takeParam,
      addNumber, OrdMap.size]
  | @valued _ _ t u hn hu =>
    have hsplit : ySplitStringExact (t ++ chars "=" ++ u) (chars "=") = (true, t, u) := by
      rw [List.append_assoc]
      exact split_char hn.no_equals u
    have htrim := hv.2
    simp [-List.append_assoc, parseParamsLoop, hend, hmore, hsplit, hn.decode, hu.decode, htrim,
      takeParam, addNumber, OrdMap.size, joinValue, entry]
    exact ⟨rfl, rfl⟩

/-- An empty string is one bare empty name. -/
def sent : List Param → List Param
  | [] => [.bare []]
  | ps => ps

theorem parseParamsLoop_encodes {ps : List Param} {ts : List Str}
    (h : List.Forall₂ EncodedParam ps ts) (hv : ∀ p ∈ ps, p.Valid) {fuel : Nat}
    (hf : ((chars "&").intercalate ts).length < fuel) (m : OrdMap Str Str) :
    parseParamsLoop fuel m ((chars "&").intercalate ts) = (sent ps).foldl takeParam m := by
  induction h generalizing fuel m with
  | nil =>
    obtain ⟨fuel, rfl⟩ := Nat.exists_eq_succ_of_ne_zero (Nat.ne_of_gt (Nat.zero_lt_of_lt hf))
    exact (parseParamsLoop_step (.bare .nil) trivial fuel m []).1
  | @cons p t ps ts hp hrest ih =>
    obtain ⟨fuel, rfl⟩ := Nat.exists_eq_succ_of_ne_zero (Nat.ne_of_gt (Nat.zero_lt_of_lt hf))
    have hstep := parseParamsLoop_step hp (hv p List.mem_cons_self) fuel m
    cases hrest with
    | nil => simpa [sent] using (hstep []).1
    | @cons q u qs us hq hqs =>
      rw [List.intercalate_cons_cons] at hf ⊢
      rw [List.append_assoc, ← List.append_assoc] at hf ⊢
      rw [(hstep _).2]
      have hlen : ((chars "&").intercalate (u :: us)).length < fuel := by
        have hone : (chars "&").length = 1 := rfl
        simp only [List.length_append, hone] at hf
        omega
      exact ih (fun x hx => hv x (List.mem_cons_of_mem p hx)) hlen (takeParam m p)

/-- The loop ends, and does what the parameters do. -/
theorem parseParams_encodes {ps : List Param} {s : Str} (h : Encodes ps s)
    (hv : ∀ p ∈ ps, p.Valid) (m : OrdMap Str Str) :
    parseParams m s = (sent ps).foldl takeParam m ∧
      ∀ fuel, s.length < fuel → parseParamsLoop fuel m s = parseParams m s := by
  obtain ⟨ts, hts, rfl⟩ := h
  have hrun {fuel : Nat} (hf : ((chars "&").intercalate ts).length < fuel) :=
    parseParamsLoop_encodes hts hv hf m
  have hparse : parseParams m ((chars "&").intercalate ts) = (sent ps).foldl takeParam m :=
    hrun (Nat.lt_succ_self _)
  exact ⟨hparse, fun fuel hf => (hrun hf).trans hparse.symm⟩

end Tuxbox.Nhttpd
