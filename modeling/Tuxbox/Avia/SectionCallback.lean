import Tuxbox.Avia.SectionFilter
import Tuxbox.Avia.Unread

/-!
# The callback for sections

`avia_gt_napi_queue_callback_section` without the CRC, which is an option of the feed.
-/

namespace Tuxbox.Avia

open QueueData

/-! ## The comparison -/

section
variable (f : DmxSectionFilter)

/-- The byte of `maskandmode`, and behind the array that of `maskandnotmode`, which follows it. -/
def maskAndModeAt (i : Nat) : U8 :=
  if h : i < 18 then f.maskAndMode ⟨i, h⟩
  else if h : i - 18 < 18 then f.maskAndNotMode ⟨i - 18, h⟩ else 0

def maskAndNotModeAt (i : Nat) : U8 := if h : i < 18 then f.maskAndNotMode ⟨i, h⟩ else 0

/-- The bits in which a byte of the section differs. -/
def xorAt (sec : Str) (i : Nat) : U8 :=
  (if h : i < 18 then f.filterValue ⟨i, h⟩ else 0) ^^^ (sec.getD i 0).toBitVec

structure Compared where
  i : Nat
  xor : U8
  neq : U8

/-- The loop over `todo` more bytes. -/
def compareLoop (sec : Str) : (todo : Nat) → Compared → Compared
  | 0, c => c
  | todo + 1, c =>
    let xor := xorAt f sec c.i
    if maskAndModeAt f c.i &&& xor ≠ 0 then { c with xor := xor }
    else compareLoop sec todo ⟨c.i + 1, xor, c.neq ||| maskAndNotModeAt f c.i &&& xor⟩

/-- The result of the loop is tested again behind it. -/
def matchesFilter (sec : Str) (compareLen : Nat) : Bool :=
  let c := compareLoop f sec compareLen ⟨0, 0, 0⟩
  !(maskAndModeAt f c.i &&& c.xor ≠ 0 ∨ f.doneq ∧ c.neq = 0)

end

/-! ## The callback -/

/-- One call of a filter's callback, with its two buffers. -/
structure Delivery where
  filter : DmxSectionFilter
  first : Str
  second : Str

def DVB_DEMUX_MASK_MAX : Nat := 18

/-- The length of a section from its first three bytes. -/
def sectionLength (head : Str) : Nat :=
  ((head.getD 1 0).toNat * 256 + (head.getD 2 0).toNat) % 0x1000 + 3

/-- `avia_gt_dmx_queue_reset` -/
def queueReset (q : QueueData) : QueueData :=
  { q with register := 0, hwWritePos := 0, writePos := 0, readPos := 0 }

section
variable (size : Nat)

/-- The padding in front of a section. -/
def removePadding : (bytesAvail : Nat) → QueueData → Nat × QueueData
  | 0, q => (0, q)
  | bytesAvail + 1, q =>
    if (q.dataGet size 1 true).1 = [0xFF] then
      removePadding bytesAvail (q.dataGet size 1 false).2
    else (bytesAvail + 1, q)

/-- A section is read at once when it is wanted more than once or is short. -/
def isCopied (next : List DmxSectionFilter) (length : Nat) : Bool :=
  !next.isEmpty || min length DVB_DEMUX_MASK_MAX = length

/-- The buffers that a filter's callback gets. -/
def deliver (q : QueueData) (copied : Bool) (sec : Str) (length : Nat)
    (f : DmxSectionFilter) : Delivery :=
  if copied then ⟨f, sec, []⟩
  else if length ≤ q.getBuf1Size size then ⟨f, Ring.slice q.mem q.readPos length, []⟩
  else
    ⟨f, Ring.slice q.mem q.readPos (q.getBuf1Size size),
      Ring.slice q.mem 0 (length - q.getBuf1Size size)⟩

variable (filter : DmxSectionFilter) (next : List DmxSectionFilter)

/-- A section that is there completely. -/
def handleSection (length : Nat) (q : QueueData) : List Delivery × QueueData :=
  let compareLen := min length DVB_DEMUX_MASK_MAX
  let copied := isCopied next length
  let got := if copied then q.dataGet size length false else q.dataGet size compareLen true
  let interested := (filter :: next).filter fun f => matchesFilter f got.1 compareLen
  (interested.map (deliver size q copied got.1 length),
    if copied then got.2 else (got.2.dataGet size length false).2)

def sectionLoop : (fuel bytesAvail : Nat) → QueueData → List Delivery × QueueData
  | 0, _, q => ([], q)
  | fuel + 1, bytesAvail, q =>
    if bytesAvail < 3 then ([], q)
    else
      let (bytesAvail, q) := removePadding size bytesAvail q
      if bytesAvail < 3 then ([], q)
      else
        let length := sectionLength (q.dataGet size 3 true).1
        if length > 4096 then ([], queueReset q)
        else if length > bytesAvail then ([], q)
        else
          let handled := handleSection size filter next length q
          let rest := sectionLoop fuel (bytesAvail - length) handled.2
          (handled.1 ++ rest.1, rest.2)

/-- Each turn of the loop takes three bytes at least. -/
def callbackSection (q : QueueData) : List Delivery × QueueData :=
  sectionLoop size filter next (q.getBytesAvail size + 1) (q.getBytesAvail size) q

end

/-! ## What the comparison decides -/

/-- The filter matches by the DVB rule over the bytes that it can look at. -/
def DvbMatches (f : DmxSectionFilter) (sec : Str) : Prop :=
  (∀ i < min sec.length DVB_DEMUX_MASK_MAX, maskAndModeAt f i &&& xorAt f sec i = 0) ∧
  (f.doneq → ∃ i < min sec.length DVB_DEMUX_MASK_MAX,
    maskAndNotModeAt f i &&& xorAt f sec i ≠ 0)

/-- The last byte that is compared is compared again, under the mask of the byte behind it. -/
def PassesAgain (f : DmxSectionFilter) (sec : Str) : Prop :=
  maskAndModeAt f (min sec.length DVB_DEMUX_MASK_MAX) &&&
    xorAt f sec (min sec.length DVB_DEMUX_MASK_MAX - 1) = 0

instance (f : DmxSectionFilter) (sec : Str) : Decidable (DvbMatches f sec) :=
  inferInstanceAs (Decidable (_ ∧ _))

instance (f : DmxSectionFilter) (sec : Str) : Decidable (PassesAgain f sec) :=
  inferInstanceAs (Decidable (_ = _))

section
variable {f : DmxSectionFilter} {sec : Str} {n : Nat}

theorem or_eq_zero_iff {a b : U8} : a ||| b = 0 ↔ a = 0 ∧ b = 0 := by
  constructor
  · intro h
    have hbit : ∀ i, a.getLsbD i = false ∧ b.getLsbD i = false := fun i => by
      have := congrArg (BitVec.getLsbD · i) h
      simpa using this
    exact ⟨BitVec.eq_of_getLsbD_eq fun i _ => by simp [(hbit i).1],
      BitVec.eq_of_getLsbD_eq fun i _ => by simp [(hbit i).2]⟩
  · rintro ⟨rfl, rfl⟩
    rfl

/-- A byte that differs ends the loop. -/
theorem compareLoop_differs {todo : Nat} {c : Compared}
    (h : ¬ ∀ i, c.i ≤ i → i < c.i + todo → maskAndModeAt f i &&& xorAt f sec i = 0) :
    maskAndModeAt f (compareLoop f sec todo c).i &&& (compareLoop f sec todo c).xor ≠ 0 := by
  induction todo generalizing c with
  | zero => exact absurd (fun i h1 h2 => by omega) h
  | succ todo ih =>
    unfold compareLoop
    dsimp only
    split
    · rename_i hne
      exact hne
    · rename_i heq
      apply ih
      intro hall
      apply h
      intro i h1 h2
      rcases Nat.eq_or_lt_of_le h1 with rfl | hlt
      · exact not_not.mp heq
      · exact hall i hlt (by dsimp only; omega)

theorem compareLoop_agrees {todo : Nat} {c : Compared}
    (h : ∀ i, c.i ≤ i → i < c.i + todo → maskAndModeAt f i &&& xorAt f sec i = 0) :
    (compareLoop f sec todo c).i = c.i + todo ∧
      (0 < todo → (compareLoop f sec todo c).xor = xorAt f sec (c.i + todo - 1)) ∧
      ((compareLoop f sec todo c).neq = 0 ↔ c.neq = 0 ∧
        ∀ i, c.i ≤ i → i < c.i + todo → maskAndNotModeAt f i &&& xorAt f sec i = 0) := by
  induction todo generalizing c with
  | zero => exact ⟨rfl, fun h => absurd h (Nat.lt_irrefl 0), by simp [compareLoop]; omega⟩
  | succ todo ih =>
    have hfirst := h c.i (Nat.le_refl _) (by omega)
    obtain ⟨hi, hxor, hneq⟩ :=
      @ih ⟨c.i + 1, xorAt f sec c.i, c.neq ||| maskAndNotModeAt f c.i &&& xorAt f sec c.i⟩
        fun i h1 h2 => h i (by dsimp only at h1; omega) (by dsimp only at h2; omega)
    unfold compareLoop
    rw [if_neg (not_not.mpr hfirst)]
    refine ⟨by rw [hi]; dsimp only; omega, fun _ => ?_, ?_⟩
    · cases todo with
      | zero => rfl
      | succ todo =>
        rw [hxor (Nat.zero_lt_succ _)]
        congr 1
        dsimp only
        omega
    · rw [hneq, or_eq_zero_iff, and_assoc]
      apply and_congr_right
      intro _
      constructor
      · rintro ⟨h0, hrest⟩ i h1 h2
        rcases Nat.eq_or_lt_of_le h1 with rfl | hlt
        · exact h0
        · exact hrest i hlt (by dsimp only; omega)
      · intro hall
        exact ⟨hall _ (Nat.le_refl _) (by omega), fun i h1 h2 =>
          hall i (by dsimp only at h1; omega) (by dsimp only at h2; omega)⟩

/-- The byte is one of those that are there. -/
theorem xorAt_take {i : Nat} (h : i < n) : xorAt f (sec.take n) i = xorAt f sec i := by
  unfold xorAt
  rw [List.getD_eq_getElem?_getD, List.getD_eq_getElem?_getD, List.getElem?_take_of_lt h]

theorem compareLoop_take {todo : Nat} {c : Compared} (h : c.i + todo ≤ n) :
    compareLoop f (sec.take n) todo c = compareLoop f sec todo c := by
  induction todo generalizing c with
  | zero => rfl
  | succ todo ih =>
    unfold compareLoop
    rw [xorAt_take (by omega)]
    dsimp only
    rw [ih (by dsimp only; omega)]

/-- A filter gets a section if and only if it matches and the last byte passes again. -/
theorem matchesFilter_iff (hlen : 0 < sec.length) :
    matchesFilter f sec (min sec.length DVB_DEMUX_MASK_MAX) = true ↔
      DvbMatches f sec ∧ PassesAgain f sec := by
  have hn : 0 < min sec.length DVB_DEMUX_MASK_MAX := by
    unfold DVB_DEMUX_MASK_MAX
    omega
  unfold matchesFilter DvbMatches PassesAgain
  generalize min sec.length DVB_DEMUX_MASK_MAX = n at hn
  rw [Bool.not_eq_true', decide_eq_false_iff_not, not_or]
  by_cases hall : ∀ i < n, maskAndModeAt f i &&& xorAt f sec i = 0
  · obtain ⟨hi, hxor, hneq⟩ := @compareLoop_agrees f sec n ⟨0, 0, 0⟩ fun i _ h2 =>
      hall i (by simpa using h2)
    dsimp only at hi hxor hneq ⊢
    rw [hi, hxor hn, Nat.zero_add, hneq]
    simp only [not_not, true_and, not_and, Nat.zero_le, Nat.zero_add, forall_true_left]
    rw [and_comm]
    apply and_congr_left
    intro _
    constructor
    · intro h
      exact ⟨hall, fun hdoneq => by simpa using h hdoneq⟩
    · rintro ⟨-, h⟩ hdoneq
      simpa using h hdoneq
  · have hdiffers := @compareLoop_differs f sec n ⟨0, 0, 0⟩ fun h => hall fun i hi =>
      h i (Nat.zero_le i) (by simpa using hi)
    exact iff_of_false (fun h => h.1 hdiffers) fun h => hall h.1.1

end

end Tuxbox.Avia
