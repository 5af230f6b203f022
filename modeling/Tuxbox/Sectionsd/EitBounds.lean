import Tuxbox.Sectionsd.Eit

/-!
# What the parser of an event information section reads
-/

namespace Tuxbox.Sectionsd.SIsectionEIT

open Buffer
open Parse (Starts)

/-! ## Sections that fit -/

def tableAt (buf : Str) (i : Nat) : Nat := codeTable (buf.getD i 0)

/-- A text is not shorter than its code table, and what is behind the table is in the buffer. -/
def TextFits (buf : Str) (i n : Nat) : Prop :=
  n ≠ 0 → i < buf.length ∧ tableAt buf i ≤ n ∧ (tableAt buf i < n → i + n ≤ buf.length)

/-- A text that is cut off at the end of the loop need not fit if it starts in front of it. -/
def CutFits (buf : Str) (maxlen i n : Nat) : Prop :=
  n ≠ 0 → i < buf.length ∧ (i + tableAt buf i ≤ maxlen ∨
    (tableAt buf i ≤ n ∧ (tableAt buf i < n → i + n ≤ buf.length)))

structure ShortEventFits (buf : Str) : Prop where
  name : TextFits buf 6 (lengthAt buf 5)
  textLength : 6 + lengthAt buf 5 < buf.length
  text : TextFits buf (7 + lengthAt buf 5) (lengthAt buf (6 + lengthAt buf 5))

/-- Where the length of an item's text is. -/
def itemText (buf : Str) (q : Nat) : Nat := q + 1 + lengthAt buf q

def nextItem (buf : Str) (q : Nat) : Nat := itemText buf q + 1 + lengthAt buf (itemText buf q)

structure ItemFits (buf : Str) (maxlen q : Nat) : Prop where
  descriptionLength : q < buf.length
  description : CutFits buf maxlen (q + 1) (lengthAt buf q)
  textLength : itemText buf q < buf.length
  text : lengthAt buf (itemText buf q) ≠ 0 →
    itemText buf q < maxlen ∨ itemText buf q + lengthAt buf (itemText buf q) ≤ buf.length

/-- The loop over the items comes to `q`. -/
def ItemAt (buf : Str) (q : Nat) : Prop := Starts (nextItem buf) (7 + lengthAt buf 6) 7 q

structure ExtendedEventFits (buf : Str) (maxlen : Nat) : Prop where
  items : ∀ q, ItemAt buf q → q < 7 + lengthAt buf 6 → ItemFits buf maxlen q
  text : ∀ q, ItemAt buf q → 7 + lengthAt buf 6 ≤ q →
    q < buf.length ∧ CutFits buf maxlen (q + 1) (lengthAt buf q)

/-- A descriptor of which `maxlen` bytes are in the loop. Ratings and contents always fit. -/
structure DescriptorFits (buf : Str) (maxlen : Nat) : Prop where
  shortEvent : buf.getD 0 0 = 0x4D → lengthAt buf 1 + 2 ≤ maxlen → 4 ≤ lengthAt buf 1 →
    ShortEventFits buf
  extendedEvent : buf.getD 0 0 = 0x4E → lengthAt buf 1 + 2 ≤ maxlen → 5 ≤ lengthAt buf 1 →
    ExtendedEventFits buf maxlen
  component : buf.getD 0 0 = 0x50 → 8 ≤ maxlen → 6 < lengthAt buf 1 →
    lengthAt buf 1 + 2 ≤ buf.length
  linkage : buf.getD 0 0 = 0x4A → 9 ≤ maxlen → 7 < lengthAt buf 1 →
    lengthAt buf 1 + 2 ≤ buf.length

def eventLength (buf : Str) (p : Nat) : Nat := 12 + loopLengthAt buf (p + 10)

def nextEvent (buf : Str) (p : Nat) : Nat := p + eventLength buf p

/-- The bytes of an event that are in the section. -/
def eventTotal (buf : Str) (p : Nat) : Nat := min (buf.length - p) (eventLength buf p)

/-- Every descriptor of the event at `p` that the loop comes to fits. -/
def EventFits (buf : Str) (p : Nat) : Prop :=
  ∀ d, Starts (nextDescriptor (buf.drop p) (eventTotal buf p)) (eventTotal buf p - 1) 12 d →
    d < eventTotal buf p - 1 → DescriptorFits ((buf.drop p).drop d) (eventTotal buf p - d)

/-- What the lengths in a section must be like, descriptor by descriptor. -/
def Fits (buf : Str) : Prop :=
  26 ≤ buf.length → ∀ p, Starts (nextEvent buf) (buf.length - 12) 14 p →
    p < buf.length - 12 → EventFits buf p

/-! ## Texts -/

section
variable {buf : Str}

theorem ne_zero_iff (n : Byte) : n ≠ 0 ↔ n.toNat ≠ 0 := by
  rw [ne_eq, ← UInt8.toNat_inj]
  rfl

theorem tableAt_le (buf : Str) (i : Nat) : tableAt buf i ≤ 3 := by
  unfold tableAt codeTable
  split_ifs <;> omega

theorem plainText_isSome {i n : Nat} (hn : n < 256) :
    (∃ t, plainText buf i n = some t) ↔
      i < buf.length ∧ tableAt buf i ≤ n ∧ (tableAt buf i < n → i + n ≤ buf.length) := by
  unfold plainText
  rw [exists_read, string_isSome]
  apply and_congr_right
  intro _
  have hcode : codeTable (buf.getD i 0) = tableAt buf i := rfl
  have htable := tableAt_le buf i
  rw [hcode]
  rcases Nat.lt_or_ge n (tableAt buf i) with hlt | hle
  · have hwrap := sub32_of_lt hlt (by omega)
    omega
  · rw [sub32_of_le hle (by omega)]
    omega

theorem cutText_isSome {maxlen i n : Nat} (hn : n < 256) (hmax : maxlen ≤ buf.length)
    (hsmall : maxlen < 2 ^ 31) (hi : i < 2 ^ 30) :
    (∃ t, cutText buf maxlen i n = some t) ↔
      i < buf.length ∧ (i + tableAt buf i ≤ maxlen ∨
        (tableAt buf i ≤ n ∧ (tableAt buf i < n → i + n ≤ buf.length))) := by
  unfold cutText
  rw [exists_read, string_isSome]
  apply and_congr_right
  intro _
  have hcode : codeTable (buf.getD i 0) = tableAt buf i := rfl
  have htable := tableAt_le buf i
  rw [hcode]
  rcases Nat.lt_or_ge maxlen (i + tableAt buf i) with hbehind | hfront
  · -- the text starts behind the end, where the bytes that are left have wrapped
    have hleft := sub32_of_lt hbehind (by omega)
    rcases Nat.lt_or_ge n (tableAt buf i) with hlt | hle
    · have hwrap := sub32_of_lt hlt (by omega)
      omega
    · rw [sub32_of_le hle (by omega)]
      omega
  · rw [sub32_of_le hfront (by omega)]
    omega

theorem withText_isSome {n : Byte} {text : Option Str} {take : Str → SIevent} {e : SIevent} :
    (∃ e', withText n text take e = some e') ↔ (n.toNat ≠ 0 → ∃ t, text = some t) := by
  unfold withText
  rw [← ne_zero_iff]
  split
  · rename_i hn
    cases text with
    | none => exact iff_of_false (fun ⟨_, h⟩ => nomatch h) fun h => nomatch h hn
    | some t => exact iff_of_true ⟨_, rfl⟩ fun _ => ⟨t, rfl⟩
  · rename_i hn
    exact iff_of_true ⟨e, rfl⟩ fun h => absurd h hn

theorem languageCode_some {i : Nat} (h : i + 2 < buf.length) : ∃ l, languageCode buf i = some l := by
  unfold languageCode
  simp only [exists_read]
  exact ⟨by omega, by omega, h, _, rfl⟩

/-! ## Descriptors -/

variable {maxlen : Nat} (e : SIevent)

theorem parseShortEventDescriptor_iff (settings : Settings) (hmax : maxlen ≤ buf.length)
    (htwo : 2 ≤ maxlen) :
    (∃ e', parseShortEventDescriptor settings buf maxlen e = some e') ↔
      (lengthAt buf 1 + 2 ≤ maxlen → 4 ≤ lengthAt buf 1 → ShortEventFits buf) := by
  unfold parseShortEventDescriptor
  rw [exists_read]
  change _ ∧ (∃ e', (if lengthAt buf 1 + 2 > maxlen ∨ lengthAt buf 1 < 4 then _ else _) = some e') ↔ _
  split
  · exact iff_of_true ⟨by omega, e, rfl⟩ fun h1 h4 => by omega
  · rename_i hlong
    obtain ⟨l, hl⟩ : ∃ l, languageCode buf 2 = some l := languageCode_some (by omega)
    rw [bind_of_some hl, exists_read]
    change _ ∧ _ ∧ (∃ e', (withText _ (plainText buf 6 (lengthAt buf 5)) _ e >>= _) = some e') ↔ _
    rw [exists_bind_iff fun e' => by rw [exists_read, withText_isSome], withText_isSome,
      plainText_isSome (lengthAt_lt buf 5)]
    change _ ∧ _ ∧ _ ∧ _ ∧ (_ → ∃ t, plainText buf (7 + lengthAt buf 5)
      (lengthAt buf (6 + lengthAt buf 5)) = some t) ↔ _
    rw [plainText_isSome (lengthAt_lt buf _)]
    constructor
    · rintro ⟨-, -, hname, hlength, htext⟩ - -
      exact ⟨hname, hlength, htext⟩
    · intro h
      obtain ⟨hname, hlength, htext⟩ := h (by omega) (by omega)
      exact ⟨by omega, by omega, hname, hlength, htext⟩

theorem contentStep_next {i : Nat} {r : Nat × SIevent} (h : contentStep buf i e = some r) :
    r.1 = i + 2 := by
  unfold contentStep at h
  obtain ⟨-, h⟩ := read_bind.mp (read_bind.mp h).2
  rw [← Option.some_inj.mp h]

theorem contentStep_moves (buf : Str) (stop : Nat) : Moves (contentStep buf) stop :=
  fun i e r _ h => by rw [contentStep_next e h]; omega

theorem parseContentDescriptor_ends (hmax : maxlen ≤ buf.length) (htwo : 2 ≤ maxlen) :
    ∃ e', parseContentDescriptor buf maxlen e = some e' := by
  unfold parseContentDescriptor
  rw [exists_read]
  refine ⟨by omega, ?_⟩
  change ∃ e', (if lengthAt buf 1 + 2 > maxlen then _ else _) = some e'
  split
  · exact ⟨e, rfl⟩
  · rename_i hlong
    have hends := (walk_ends_iff (fun i => i + 2) (fun i => i + 1 < buf.length)
      (contentStep_moves buf (lengthAt buf 1 + 1))
      (fun i e r _ h => contentStep_next e h)
      (fun i e hi => by
        unfold contentStep
        simp only [exists_read]
        exact ⟨fun h => h.2.1, fun h => ⟨by omega, h, _, rfl⟩⟩) 2 e).mpr fun j _ hj => by omega
    obtain ⟨r, hr⟩ := hends
    exact ⟨r.2, by rw [lengthAt] at hr; rw [hr]; rfl⟩

theorem ratingStep_next {i : Nat} {r : Nat × SIevent} (h : ratingStep buf i e = some r) :
    r.1 = i + 4 := by
  unfold ratingStep at h
  obtain ⟨c, -, h⟩ := Option.bind_eq_some_iff.mp h
  obtain ⟨-, h⟩ := read_bind.mp h
  rw [← Option.some_inj.mp h]

theorem ratingStep_moves (buf : Str) (stop : Nat) : Moves (ratingStep buf) stop :=
  fun i e r _ h => by rw [ratingStep_next e h]; omega

theorem parseParentalRatingDescriptor_ends (hmax : maxlen ≤ buf.length) (htwo : 2 ≤ maxlen) :
    ∃ e', parseParentalRatingDescriptor buf maxlen e = some e' := by
  unfold parseParentalRatingDescriptor
  rw [exists_read]
  refine ⟨by omega, ?_⟩
  change ∃ e', (if lengthAt buf 1 + 2 > maxlen then _ else _) = some e'
  split
  · exact ⟨e, rfl⟩
  · rename_i hlong
    have hends := (walk_ends_iff (fun i => i + 4) (fun i => i + 3 < buf.length)
      (ratingStep_moves buf (lengthAt buf 1 - 2))
      (fun i e r _ h => ratingStep_next e h)
      (fun i e hi => by
        unfold ratingStep
        rw [exists_bind_iff (P := i + 3 < buf.length) fun c => by
          rw [exists_read]
          exact and_iff_left ⟨_, rfl⟩, string_isSome]
        exact ⟨fun h => h.2, fun h => ⟨.inr ⟨by decide, by omega⟩, h⟩⟩) 2 e).mpr
      fun j _ hj => by omega
    obtain ⟨r, hr⟩ := hends
    exact ⟨r.2, by rw [lengthAt] at hr; rw [hr]; rfl⟩

theorem componentOfDescriptor_iff (h : 8 ≤ buf.length) :
    (∃ c, SIcomponent.ofDescriptor buf = some c) ↔
      (6 < lengthAt buf 1 → lengthAt buf 1 + 2 ≤ buf.length) := by
  unfold SIcomponent.ofDescriptor
  have hbyte : (buf.getD 1 0).toNat = lengthAt buf 1 := rfl
  have hlength := lengthAt_lt buf 1
  simp only [exists_read, hbyte]
  split
  · rw [exists_bind_pure, string_isSome]
    omega
  · simp only [Option.bind_eq_bind, Option.bind_some, pure, Option.some.injEq, exists_eq', and_true]
    omega

theorem linkageOfDescriptor_iff (h : 9 ≤ buf.length) :
    (∃ l, SIlinkage.ofDescriptor buf = some l) ↔
      (7 < lengthAt buf 1 → lengthAt buf 1 + 2 ≤ buf.length) := by
  unfold SIlinkage.ofDescriptor word
  have hbyte : (buf.getD 1 0).toNat = lengthAt buf 1 := rfl
  have hlength := lengthAt_lt buf 1
  simp only [bind_assoc, pure_bind, exists_read, hbyte]
  split
  · rw [exists_bind_pure, string_isSome]
    omega
  · simp only [Option.bind_eq_bind, Option.bind_some, pure, Option.some.injEq, exists_eq', and_true]
    omega

theorem parseComponentDescriptor_iff (hmax : maxlen ≤ buf.length) :
    (∃ e', parseComponentDescriptor buf maxlen e = some e') ↔
      (8 ≤ maxlen → 6 < lengthAt buf 1 → lengthAt buf 1 + 2 ≤ buf.length) := by
  unfold parseComponentDescriptor
  split
  · rename_i hheader
    rw [exists_bind_pure, componentOfDescriptor_iff (by omega)]
    exact ⟨fun h _ => h, fun h => h hheader⟩
  · rename_i hheader
    exact iff_of_true ⟨e, rfl⟩ fun h => absurd h hheader

theorem parseLinkageDescriptor_iff (hmax : maxlen ≤ buf.length) :
    (∃ e', parseLinkageDescriptor buf maxlen e = some e') ↔
      (9 ≤ maxlen → 7 < lengthAt buf 1 → lengthAt buf 1 + 2 ≤ buf.length) := by
  unfold parseLinkageDescriptor
  split
  · rename_i hheader
    rw [exists_bind_pure, linkageOfDescriptor_iff (by omega)]
    exact ⟨fun h _ => h, fun h => h hheader⟩
  · rename_i hheader
    exact iff_of_true ⟨e, rfl⟩ fun h => absurd h hheader

/-! ## Items -/

theorem itemStep_next {q : Nat} {r : Nat × SIevent} (h : itemStep buf maxlen q e = some r) :
    r.1 = nextItem buf q := by
  unfold itemStep at h
  obtain ⟨-, h⟩ := read_bind.mp h
  obtain ⟨e', -, h⟩ := Option.bind_eq_some_iff.mp h
  obtain ⟨-, h⟩ := read_bind.mp h
  obtain ⟨e'', -, h⟩ := Option.bind_eq_some_iff.mp h
  rw [← Option.some_inj.mp h]
  rfl

theorem lt_nextItem (buf : Str) (q : Nat) : q < nextItem buf q := by
  unfold nextItem itemText
  omega

theorem itemStep_moves (buf : Str) (maxlen stop : Nat) : Moves (itemStep buf maxlen) stop :=
  fun q e r _ h => by
    rw [itemStep_next e h]
    exact lt_nextItem buf q

theorem itemStep_iff {q : Nat} (hmax : maxlen ≤ buf.length) (hsmall : maxlen < 2 ^ 31)
    (hq : q < 2 ^ 29) :
    (∃ r, itemStep buf maxlen q e = some r) ↔ ItemFits buf maxlen q := by
  unfold itemStep
  have hn := lengthAt_lt buf q
  have ht := lengthAt_lt buf (itemText buf q)
  have hitem : itemText buf q = q + 1 + lengthAt buf q := rfl
  rw [exists_read, exists_bind_iff fun e' => by
    rw [exists_read, exists_bind_pure, withText_isSome],
    withText_isSome]
  change _ ∧ (_ → ∃ t, cutText buf maxlen (q + 1) (lengthAt buf q) = some t) ∧
    itemText buf q < _ ∧ (lengthAt buf (itemText buf q) ≠ 0 → ∃ t, string buf (itemText buf q)
      (min (sub32 maxlen (itemText buf q + 1)) (lengthAt buf (itemText buf q))) = some t) ↔ _
  rw [cutText_isSome hn hmax hsmall (by omega), string_isSome]
  have htext : (lengthAt buf (itemText buf q) ≠ 0 →
        min (sub32 maxlen (itemText buf q + 1)) (lengthAt buf (itemText buf q)) = 0 ∨
          (min (sub32 maxlen (itemText buf q + 1)) (lengthAt buf (itemText buf q)) < 2 ^ 31 ∧
            itemText buf q + min (sub32 maxlen (itemText buf q + 1))
              (lengthAt buf (itemText buf q)) ≤ buf.length)) ↔
      (lengthAt buf (itemText buf q) ≠ 0 → itemText buf q < maxlen ∨
        itemText buf q + lengthAt buf (itemText buf q) ≤ buf.length) := by
    apply imp_congr_right
    intro _
    rcases Nat.lt_or_ge maxlen (itemText buf q + 1) with hbehind | hfront
    · have hleft := sub32_of_lt hbehind (by omega)
      omega
    · rw [sub32_of_le hfront (by omega)]
      omega
  rw [htext]
  exact ⟨fun ⟨h1, h2, h3, h4⟩ => ⟨h1, h2, h3, h4⟩, fun ⟨h1, h2, h3, h4⟩ => ⟨h1, h2, h3, h4⟩⟩

theorem nextItem_le (buf : Str) (q : Nat) : nextItem buf q ≤ q + 512 := by
  have hn := lengthAt_lt buf q
  have ht := lengthAt_lt buf (itemText buf q)
  unfold nextItem itemText at *
  omega

/-- The loop over the items ends early, as its length is one byte. -/
theorem itemAt_lt {q : Nat} (h : ItemAt buf q) : q < 1024 := by
  have hstarts {i j : Nat} (h : Starts (nextItem buf) (7 + lengthAt buf 6) i j) :
      i < 1024 → j < 1024 := by
    induction h with
    | refl => exact id
    | head hlt _ ih =>
      rename_i i j _
      have hn := lengthAt_lt buf 6
      have hnext := nextItem_le buf i
      exact fun _ => ih (by omega)
  exact hstarts h (by decide)

theorem parseExtendedEventDescriptor_iff (settings : Settings) (hmax : maxlen ≤ buf.length)
    (htwo : 2 ≤ maxlen) (hsmall : maxlen < 2 ^ 31) :
    (∃ e', parseExtendedEventDescriptor settings buf maxlen e = some e') ↔
      (lengthAt buf 1 + 2 ≤ maxlen → 5 ≤ lengthAt buf 1 → ExtendedEventFits buf maxlen) := by
  unfold parseExtendedEventDescriptor
  have hbyte (i : Nat) : (buf.getD i 0).toNat = lengthAt buf i := rfl
  rw [exists_read, hbyte]
  split
  · exact iff_of_true ⟨by omega, e, rfl⟩ fun h1 h5 => by omega
  · rename_i hlong
    obtain ⟨l, hl⟩ : ∃ l, languageCode buf 3 = some l := languageCode_some (by omega)
    rw [bind_of_some hl, exists_read, hbyte]
    have hn := lengthAt_lt buf 6
    have hmove := itemStep_moves buf maxlen (7 + lengthAt buf 6)
    have hitems :=
      walk_ends_iff (nextItem buf) (ItemFits buf maxlen) hmove (fun q e r _ h => itemStep_next e h)
      (fun q e hq => itemStep_iff e hmax hsmall (by omega)) 7 e
    have htext (r : Nat × SIevent) (hr : ItemAt buf r.1) :
        (∃ e', (read buf r.1 >>= fun n => withText n (cutText buf maxlen (r.1 + 1) n.toNat)
          (fun text => r.2.appendExtendedText settings l text) r.2) = some e') ↔
        r.1 < buf.length ∧ CutFits buf maxlen (r.1 + 1) (lengthAt buf r.1) := by
      have hsoon := itemAt_lt hr
      rw [exists_read, withText_isSome, hbyte,
        cutText_isSome (lengthAt_lt buf _) hmax hsmall (by omega)]
      rfl
    rw [exists_bind]
    constructor
    · rintro ⟨-, -, r, hr, hrest⟩ - -
      obtain ⟨hat, hend⟩ := walk_result hmove (fun q e r _ h => itemStep_next e h) hr
      refine ⟨hitems.mp ⟨r, hr⟩, fun q hq hqe => ?_⟩
      rw [starts_end_unique hq hat hqe hend]
      exact (htext r hat).mp hrest
    · intro h
      have hfits := h (by omega) (by omega)
      obtain ⟨r, hr⟩ := hitems.mpr hfits.items
      obtain ⟨hat, hend⟩ := walk_result hmove (fun q e r _ h => itemStep_next e h) hr
      exact ⟨by omega, by omega, r, hr, (htext r hat).mpr (hfits.text r.1 hat hend)⟩

/-! ## Events -/

theorem parseDescriptor_iff (settings : Settings) (hmax : maxlen ≤ buf.length) (htwo : 2 ≤ maxlen)
    (hsmall : maxlen < 2 ^ 31) :
    (∃ e', parseDescriptor settings buf maxlen e = some e') ↔ DescriptorFits buf maxlen := by
  unfold parseDescriptor
  rw [exists_read, and_iff_right (by omega)]
  split_ifs with h4D h4E h54 h50 h55 h4A
  · rw [parseShortEventDescriptor_iff e settings hmax htwo]
    exact ⟨fun h => ⟨fun _ => h, other_tag h4D (by decide), other_tag h4D (by decide),
      other_tag h4D (by decide)⟩, fun h => h.shortEvent h4D⟩
  · rw [parseExtendedEventDescriptor_iff e settings hmax htwo hsmall]
    exact ⟨fun h => ⟨fun h' => absurd h' h4D, fun _ => h, other_tag h4E (by decide),
      other_tag h4E (by decide)⟩, fun h => h.extendedEvent h4E⟩
  · exact iff_of_true (parseContentDescriptor_ends e hmax htwo)
      ⟨other_tag h54 (by decide), other_tag h54 (by decide), other_tag h54 (by decide),
        other_tag h54 (by decide)⟩
  · rw [parseComponentDescriptor_iff e hmax]
    exact ⟨fun h => ⟨other_tag h50 (by decide), other_tag h50 (by decide), fun _ => h,
      other_tag h50 (by decide)⟩, fun h => h.component h50⟩
  · exact iff_of_true (parseParentalRatingDescriptor_ends e hmax htwo)
      ⟨other_tag h55 (by decide), other_tag h55 (by decide), other_tag h55 (by decide),
        other_tag h55 (by decide)⟩
  · rw [parseLinkageDescriptor_iff e hmax]
    exact ⟨fun h => ⟨other_tag h4A (by decide), other_tag h4A (by decide), other_tag h4A (by decide),
      fun _ => h⟩, fun h => h.linkage h4A⟩
  · exact iff_of_true ⟨e, rfl⟩ ⟨fun h => absurd h h4D, fun h => absurd h h4E,
      fun h => absurd h h50, fun h => absurd h h4A⟩

theorem parseDescriptors_iff (settings : Settings) {total : Nat} (htotal : total ≤ buf.length)
    (hsmall : total < 2 ^ 31) :
    (∃ e', parseDescriptors settings buf total e = some e') ↔
      ∀ d, Starts (nextDescriptor buf total) (total - 1) 12 d → d < total - 1 →
        DescriptorFits (buf.drop d) (total - d) := by
  unfold parseDescriptors
  rw [exists_bind_pure]
  exact checked_ends_iff (fun _ => ()) (fun d _ => DescriptorFits (buf.drop d) (total - d)) htotal
    (fun _ _ _ _ => rfl)
    (fun d e hd => parseDescriptor_iff e settings (by rw [List.length_drop]; omega) (by omega)
      (by omega)) 12 e

theorem ofEitEvent_some (settings : Settings) (h : 12 ≤ buf.length) :
    ∃ e, SIevent.ofEitEvent settings buf = some e := by
  unfold SIevent.ofEitEvent
  have hw : word buf 0 = some (wordAt buf 0) := word_some (by omega)
  obtain ⟨s, hs⟩ : ∃ s, string buf 2 5 = some s := string_isSome.mpr (.inr ⟨by decide, by omega⟩)
  rw [bind_of_some hw, bind_of_some hs]
  simp only [exists_read]
  exact ⟨by omega, by omega, by omega, by omega, _, rfl⟩

theorem eventTotal_lt (p : Nat) : eventTotal buf p < 2 ^ 31 := by
  unfold eventTotal eventLength loopLengthAt
  have hhigh := (buf.getD (p + 10) 0 &&& 0x0F).toNat_lt
  have hlow := (buf.getD (p + 10 + 1) 0).toNat_lt
  omega

/-- What one round does, with the header of the event read. -/
theorem eventStep_eq (settings : Settings) {p : Nat} (h26 : 26 ≤ buf.length)
    (hp : p < buf.length - 12) (evts : OrdMap Nat SIevent) :
    ∃ e, eventStep settings buf p evts =
      (parseDescriptors settings (buf.drop p) (eventTotal buf p) e).map fun e =>
        (nextEvent buf p, evts.insertNew e.uniqueKey e) := by
  have hlen : (buf.drop p).length = buf.length - p := List.length_drop
  obtain ⟨e, he⟩ : ∃ e, SIevent.ofEitEvent settings (buf.drop p) = some e :=
    ofEitEvent_some settings (by omega)
  have hsid : word buf 3 = some (wordAt buf 3) := word_some (by omega)
  have honid : word buf 10 = some (wordAt buf 10) := word_some (by omega)
  have htsid : word buf 8 = some (wordAt buf 8) := word_some (by omega)
  have htable : Buffer.read buf 0 = some (buf.getD 0 0) := read_some (by omega)
  have hloop : loopLength (buf.drop p) 10 = some (loopLengthAt buf (p + 10)) := by
    rw [loopLength_some (by omega), loopLengthAt_drop]
  refine ⟨{ e with
    serviceId := wordAt buf 3, originalNetworkId := wordAt buf 10
    transportStreamId := wordAt buf 8, tableId := (buf.getD 0 0).toNat }, ?_⟩
  unfold eventStep
  simp only [bind_of_some he, bind_of_some hsid, bind_of_some honid, bind_of_some htsid,
    bind_of_some htable, bind_of_some hloop]
  rw [Option.map_eq_bind]
  rfl

theorem eventStep_iff (settings : Settings) {p : Nat} (h26 : 26 ≤ buf.length)
    (hp : p < buf.length - 12) (evts : OrdMap Nat SIevent) :
    (∃ r, eventStep settings buf p evts = some r) ↔ EventFits buf p := by
  obtain ⟨e, heq⟩ := eventStep_eq settings h26 hp evts
  have htotal : eventTotal buf p ≤ (buf.drop p).length := by
    rw [List.length_drop]
    exact Nat.min_le_left _ _
  rw [heq, ← Option.isSome_iff_exists, Option.isSome_map, Option.isSome_iff_exists,
    parseDescriptors_iff e settings htotal (eventTotal_lt p)]
  rfl

theorem eventStep_next {settings : Settings} {p : Nat} {evts : OrdMap Nat SIevent}
    {r : Nat × OrdMap Nat SIevent} (h26 : 26 ≤ buf.length) (hp : p < buf.length - 12)
    (h : eventStep settings buf p evts = some r) : r.1 = nextEvent buf p := by
  obtain ⟨e, heq⟩ := eventStep_eq settings h26 hp evts
  obtain ⟨e', -, rfl⟩ := Option.map_eq_some_iff.mp (heq ▸ h)
  rfl

theorem eventStep_moves (settings : Settings) (h26 : 26 ≤ buf.length) :
    Moves (eventStep settings buf) (buf.length - 12) :=
  fun p evts r hp h => by
    rw [eventStep_next h26 hp h]
    unfold nextEvent eventLength
    omega

/-- The parser ends, without a read behind the section or a text of a negative length, if
and only if every descriptor fits. -/
theorem parse_ends_iff (settings : Settings) (buf : Str) :
    (∃ evts, parse settings buf = some evts) ↔ Fits buf := by
  unfold parse Fits
  split
  · rename_i hshort
    exact iff_of_true ⟨_, rfl⟩ fun h => absurd h (Nat.not_le.mpr hshort)
  · rename_i hlong
    have h26 : 26 ≤ buf.length := Nat.not_lt.mp hlong
    rw [exists_bind_pure, forall_prop_of_true h26]
    exact walk_ends_iff (nextEvent buf) _
      (eventStep_moves settings h26)
      (fun p evts r hp h => eventStep_next h26 hp h)
      (fun p evts hp => eventStep_iff settings h26 hp evts) 14 .empty

/-- A short event whose name is shorter than the code table it begins with. -/
def shortName : Str :=
  [0x4E, 0xF0, 36, 0, 1, 0xC1, 0, 0, 0, 2, 0, 3, 0, 0x4E,
    0, 4, 0xE0, 0, 0x12, 0, 0, 1, 0, 0, 0x80, 9,
    0x4D, 7, 100, 101, 117, 2, 0x10, 0x41, 0, 0, 0, 0, 0]

theorem negative_length : ¬ ∀ settings buf, ∃ evts, parse settings buf = some evts := by
  intro h
  obtain ⟨evts, hevts⟩ := h ⟨true, fun _ => 0, ⟨0, 0⟩⟩ shortName
  have hnone : (parse ⟨true, fun _ => 0, ⟨0, 0⟩⟩ shortName).isNone := by decide
  rw [hevts] at hnone
  cases hnone

end

end Tuxbox.Sectionsd.SIsectionEIT
