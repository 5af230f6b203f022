import Tuxbox.Sectionsd.DvbString

/-! What a `CDVBString` turns into, and how much of that depends on the byte behind the string.

Main results: `dvbString_text` and `ownBytesOnly_iff`. -/
namespace Tuxbox.Sectionsd

open Buffer

/-- The characters of a text, with the byte behind it. -/
def convert (encoding : Encoding) (behind : Byte) : Str → Str
  | [] => []
  | [c] => if Printed c then utf8 (characterValue encoding c behind) else []
  | c :: d :: s =>
    if Printed c then
      utf8 (characterValue encoding c d) ++
        (if Doubled encoding c d then convert encoding behind s
          else convert encoding behind (d :: s))
    else convert encoding behind (d :: s)

/-- A byte that is the first of two unless a zero byte is behind it. -/
def LeadByte (encoding : Encoding) (c : Byte) : Prop := encoding = .iso6937 ∧ 0xC0 ≤ c ∧ c ≤ 0xCF

instance (encoding : Encoding) (c : Byte) : Decidable (LeadByte encoding c) :=
  inferInstanceAs (Decidable (_ ∧ _))

/-- The last byte is a first one without its second. -/
def EndsInLead (encoding : Encoding) : Str → Prop
  | [] => False
  | [c] => LeadByte encoding c
  | c :: d :: s =>
    if Printed c ∧ Doubled encoding c d then EndsInLead encoding s else EndsInLead encoding (d :: s)

/-- The text without its encoding information. -/
def characters (s : Str) : Str := s.dropWhile fun c => c < 0x20

/-- Whatever is behind the string, it is the same text. -/
def OwnBytesOnly (s : Str) : Prop :=
  ∃ content, ∀ behind : Str, behind ≠ [] → dvbString (s ++ behind) 0 s.length = some content

/-! ## The text -/

section
variable {encoding : Encoding} {buf : Str}

theorem characterStep_eq (pre : Str) (c next : Byte) (u content : Str) :
    characterStep encoding (pre ++ c :: next :: u) pre.length content =
      some (if Printed c then
        (if Doubled encoding c next then pre.length + 2 else pre.length + 1,
          content ++ utf8 (characterValue encoding c next))
        else (pre.length + 1, content)) := by
  have hread : Buffer.read (pre ++ c :: next :: u) pre.length = some c := by
    unfold Buffer.read
    rw [List.getElem?_append_right (Nat.le_refl _), Nat.sub_self, List.getElem?_cons_zero]
  have hbehind : Buffer.read (pre ++ c :: next :: u) (pre.length + 1) = some next := by
    unfold Buffer.read
    rw [List.getElem?_append_right (Nat.le_add_right _ _), Nat.add_sub_cancel_left]
    rfl
  unfold characterStep
  rw [bind_of_some hread, bind_of_some hbehind]
  split <;> rfl

/-- The loop over the characters from one of them on. -/
theorem walk_characters (encoding : Encoding) {stop : Nat} (pre t rest : Str) (behind : Byte)
    (content : Str)
    (hstop : stop = pre.length + t.length) :
    ∃ k, walk (characterStep encoding (pre ++ (t ++ behind :: rest))) stop pre.length content =
      some (k, content ++ convert encoding behind t) := by
  have hmoves := characterStep_moves encoding
  fun_induction convert encoding behind t generalizing pre content with
  | case1 =>
    refine ⟨pre.length, ?_⟩
    rw [List.length_nil, Nat.add_zero] at hstop
    rw [walk_end _ (Nat.le_of_eq hstop), List.append_nil]
  | case2 c hprinted =>
    simp only [List.length_singleton] at hstop
    rw [walk_step (hmoves _ _) _ (by omega), List.cons_append, List.nil_append, characterStep_eq,
      if_pos hprinted]
    refine ⟨_, walk_end _ ?_⟩
    split <;> omega
  | case3 c hskipped =>
    simp only [List.length_singleton] at hstop
    rw [walk_step (hmoves _ _) _ (by omega), List.cons_append, List.nil_append, characterStep_eq,
      if_neg hskipped, List.append_nil]
    exact ⟨_, walk_end _ (Nat.le_of_eq hstop)⟩
  | case4 c d s hprinted ih ih' =>
    simp only [List.length_cons] at hstop
    rw [walk_step (hmoves _ _) _ (by omega), List.cons_append, List.cons_append, characterStep_eq,
      if_pos hprinted, Option.bind_some]
    split
    · obtain ⟨k, hk⟩ := ih (pre ++ [c, d]) (content ++ utf8 (characterValue encoding c d))
        (by simp; omega)
      exact ⟨k, by simpa using hk⟩
    · obtain ⟨k, hk⟩ := ih' (pre ++ [c]) (content ++ utf8 (characterValue encoding c d))
        (by simp; omega)
      exact ⟨k, by simpa using hk⟩
  | case5 c d s hskipped ih =>
    simp only [List.length_cons] at hstop
    rw [walk_step (hmoves _ _) _ (by omega), List.cons_append, List.cons_append, characterStep_eq,
      if_neg hskipped, Option.bind_some]
    obtain ⟨k, hk⟩ := ih (pre ++ [c]) content (by simp; omega)
    exact ⟨k, by simpa using hk⟩

/-- What is left behind the encoding information. -/
theorem skipEncoding_characters (pre t rest : Str) :
    ∃ skipped, t = skipped ++ characters t ∧
      skipEncoding (pre ++ (t ++ rest)) t.length pre.length =
        some (pre ++ skipped).length := by
  induction t generalizing pre with
  | nil => exact ⟨[], rfl, by rw [List.append_nil]; rfl⟩
  | cons c t ih =>
    have hread : Buffer.read (pre ++ (c :: t ++ rest)) pre.length = some c := by
      unfold Buffer.read
      rw [List.getElem?_append_right (Nat.le_refl _), Nat.sub_self]
      rfl
    rw [List.length_cons, skipEncoding, bind_of_some hread]
    split
    · rename_i hc
      refine ⟨[], ?_, by rw [List.append_nil]; rfl⟩
      rw [characters, List.dropWhile_cons_of_neg (by simpa using hc)]
      rfl
    · rename_i hc
      obtain ⟨skipped, ht, hskip⟩ := ih (pre ++ [c])
      refine ⟨c :: skipped, ?_, ?_⟩
      · rw [characters, List.dropWhile_cons_of_pos (by simpa using hc), List.cons_append]
        exact congrArg _ ht
      · simpa using hskip

/-- The string is its characters, the last one with the byte behind it. -/
theorem dvbString_text (s rest : Str) (behind : Byte) :
    dvbString (s ++ behind :: rest) 0 s.length =
      some (convert (Encoding.ofByte (s.headD 0)) behind (characters s)) := by
  cases s with
  | nil => rfl
  | cons c t =>
    have hfirst : Buffer.read (c :: t ++ behind :: rest) 0 = some c := rfl
    obtain ⟨skipped, hs, hskip⟩ := skipEncoding_characters [] (c :: t) (behind :: rest)
    obtain ⟨k, hk⟩ := walk_characters (Encoding.ofByte c) skipped (characters (c :: t)) rest behind
      [] ((congrArg List.length hs).trans List.length_append)
    rw [← List.append_assoc, ← hs, List.nil_append] at hk
    have hlength : (c :: t).length ≠ 0 := Nat.succ_ne_zero _
    unfold dvbString
    rw [List.nil_append, List.nil_append, List.length_nil] at hskip
    rw [if_neg hlength, bind_of_some hfirst, bind_of_some hskip, Nat.zero_add, bind_of_some hk]
    rfl

/-! ## What is behind it -/

theorem LeadByte.cases {c : Byte} (h : LeadByte encoding c) :
    ∃ n < 16, c = UInt8.ofNat (0xC0 + n) := by
  obtain ⟨-, hlow, hhigh⟩ := h
  have hlow' : 0xC0 ≤ c.toNat := UInt8.le_iff_toNat_le.mp hlow
  have hhigh' : c.toNat ≤ 0xCF := UInt8.le_iff_toNat_le.mp hhigh
  refine ⟨c.toNat - 0xC0, by omega, ?_⟩
  rw [Nat.add_sub_cancel' hlow', UInt8.ofNat_toNat]

theorem printed_of_lead {c : Byte} (h : LeadByte encoding c) : Printed c := by
  have hall : ∀ n < 16, Printed (UInt8.ofNat (0xC0 + n)) := by decide
  obtain ⟨n, hn, rfl⟩ := h.cases
  exact hall n hn

theorem doubled_iff {c next : Byte} :
    Doubled encoding c next ↔ LeadByte encoding c ∧ next ≠ 0 := by
  unfold Doubled LeadByte
  tauto

/-- Other bytes do not look at what is behind them. -/
theorem characterValue_own {c : Byte} (h : ¬ LeadByte encoding c) (next next' : Byte) :
    characterValue encoding c next = characterValue encoding c next' := by
  cases encoding with
  | iso6937 =>
    have hsingle : ∀ d, ¬ Doubled .iso6937 c d := fun d hd => h (doubled_iff.mp hd).1
    simp only [characterValue, iso6937Value, if_neg (hsingle _)]
  | _ => rfl

/-- A first byte is itself before a zero byte, and goes into the letter before another one. -/
theorem utf8_lead_ne {c : Byte} (h : LeadByte encoding c) :
    utf8 (characterValue encoding c 0) ≠ utf8 (characterValue encoding c 0x5A) := by
  have hall : ∀ n < 16, utf8 (characterValue .iso6937 (UInt8.ofNat (0xC0 + n)) 0) ≠
      utf8 (characterValue .iso6937 (UInt8.ofNat (0xC0 + n)) 0x5A) := by decide
  obtain ⟨n, hn, hc⟩ := h.cases
  rw [h.1, hc]
  exact hall n hn

theorem convert_own {t : Str} (h : ¬ EndsInLead encoding t) (behind behind' : Byte) :
    convert encoding behind t = convert encoding behind' t := by
  fun_induction convert encoding behind t with
  | case1 => rfl
  | case2 c hprinted =>
    rw [convert, if_pos hprinted, characterValue_own h behind behind']
  | case3 c hskipped => rw [convert, if_neg hskipped]
  | case4 c d s hprinted ih ih' =>
    rw [convert, if_pos hprinted]
    unfold EndsInLead at h
    by_cases hdoubled : Doubled encoding c d
    · rw [if_pos ⟨hprinted, hdoubled⟩] at h
      rw [if_pos hdoubled, if_pos hdoubled, ih h]
    · rw [if_neg fun hd => hdoubled hd.2] at h
      rw [if_neg hdoubled, if_neg hdoubled, ih' h]
  | case5 c d s hskipped ih =>
    unfold EndsInLead at h
    rw [if_neg fun hd => hskipped hd.1] at h
    rw [convert, if_neg hskipped, ih h]

theorem convert_ne {t : Str} (h : EndsInLead encoding t) :
    convert encoding 0 t ≠ convert encoding 0x5A t := by
  fun_induction EndsInLead encoding t with
  | case1 => exact absurd h id
  | case2 c =>
    rw [convert, convert, if_pos (printed_of_lead h), if_pos (printed_of_lead h)]
    exact utf8_lead_ne h
  | case3 c d s hpair ih =>
    rw [convert, convert, if_pos hpair.1, if_pos hpair.1, if_pos hpair.2, if_pos hpair.2]
    exact fun heq => ih h (List.append_cancel_left heq)
  | case4 c d s hsingle ih =>
    rw [convert, convert]
    split
    · rename_i hprinted
      have hdoubled : ¬ Doubled encoding c d := fun hd => hsingle ⟨hprinted, hd⟩
      rw [if_neg hdoubled, if_neg hdoubled]
      exact fun heq => ih h (List.append_cancel_left heq)
    · exact ih h

end

/-- The byte behind a string goes into its text if and only if the last one is the first of two
without its second. -/
theorem ownBytesOnly_iff (s : Str) :
    OwnBytesOnly s ↔ ¬ EndsInLead (Encoding.ofByte (s.headD 0)) (characters s) := by
  constructor
  · rintro ⟨content, hall⟩ hlead
    have hzero := hall [0] (List.cons_ne_nil _ _)
    have hletter := hall [0x5A] (List.cons_ne_nil _ _)
    rw [dvbString_text] at hzero hletter
    exact convert_ne hlead ((Option.some_inj.mp hzero).trans (Option.some_inj.mp hletter).symm)
  · intro h
    refine ⟨convert (Encoding.ofByte (s.headD 0)) 0 (characters s), ?_⟩
    rintro (_ | ⟨behind, rest⟩) hbehind
    · exact absurd rfl hbehind
    · rw [dvbString_text, convert_own h behind 0]

/-- An accent at the end takes a letter of the next field. -/
theorem accent_takes_letter : ¬ ∀ s : Str, OwnBytesOnly s := by
  intro h
  obtain ⟨content, hall⟩ := h [0x41, 0xC2]
  have hend := hall [0] (List.cons_ne_nil _ _)
  have hletter := hall [0x65] (List.cons_ne_nil _ _)
  rw [← hletter] at hend
  exact absurd hend (by decide)

end Tuxbox.Sectionsd
