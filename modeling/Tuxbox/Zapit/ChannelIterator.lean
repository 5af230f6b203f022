import Tuxbox.Zapit.BouquetReload

/-! The numbers of the channels. The bouquets' lists of a mode make one list, and a
`ChannelIterator` is a place in it: a bouquet and an index that is signed and compared as
unsigned.

Main results: `agrees`, all that reads the numbers reads the same list,
`renumServices_complete`, every channel has a number, and both of them in
`channel_numbering`. -/
namespace Tuxbox.Zapit

/-- `(unsigned int)` of an `int`. -/
def asUnsigned (i : Int) : Nat := (i % 2 ^ 32).toNat

/-- What an `int` holds when it is set to `i`. -/
def asInt (i : Int) : Int := i.bmod (2 ^ 32)

namespace CBouquetManager

def lists (owner : CBouquetManager) (tv : Bool) : List (List Nat) :=
  owner.bouquets.map fun b => b.2.channels tv

/-- The lists of a mode, one behind the other. -/
def numbered (owner : CBouquetManager) (tv : Bool) : List Nat := (owner.lists tv).flatten

/-- Pointers of four bytes each fill the address space at most. -/
def Addressable (owner : CBouquetManager) : Prop :=
  ∀ tv, (owner.numbered tv).length ≤ 2 ^ 30

end CBouquetManager

/-- At the end `c` is -2. -/
structure ChannelIterator where
  tv : Bool
  b : Nat
  c : Int
  deriving DecidableEq

namespace ChannelIterator

variable (owner : CBouquetManager)

def getBouquet (it : ChannelIterator) : Option (List Nat) := (owner.lists it.tv)[it.b]?

def endOfChannels (it : ChannelIterator) : Prop := it.c = -2

instance (it : ChannelIterator) : Decidable it.endOfChannels :=
  inferInstanceAs (Decidable (it.c = -2))

/-- The loop of `operator ++` over the bouquets behind. -/
def skipEmpty (tv : Bool) : List (List Nat) → Nat → ChannelIterator
  | [], b => ⟨tv, b, -2⟩
  | l :: rest, b => if l.isEmpty then skipEmpty tv rest (b + 1) else ⟨tv, b, 0⟩

/-- `operator ++`. -/
def next (it : ChannelIterator) : Option ChannelIterator :=
  if it.endOfChannels then some it
  else
    let c := it.c + 1
    match it.getBouquet owner with
    | none => none
    | some l =>
      if asUnsigned c ≥ l.length then
        some (skipEmpty it.tv ((owner.lists it.tv).drop (it.b + 1)) (it.b + 1))
      else some { it with c := c }

/-- The constructor. Without bouquets `b` is not set. -/
def new (tv : Bool) : Option ChannelIterator :=
  if owner.bouquets.isEmpty then some ⟨tv, 0, -2⟩ else next owner ⟨tv, 0, -1⟩

/-- `operator *`. -/
def deref (it : ChannelIterator) : Option Nat :=
  match it.getBouquet owner with
  | none => none
  | some l => l[asUnsigned it.c]?

/-- The channels from an iterator to the end. -/
def visit : Nat → ChannelIterator → Option (List Nat)
  | 0, it => if it.endOfChannels then some [] else none
  | fuel + 1, it =>
    if it.endOfChannels then some []
    else
      match it.deref owner, it.next owner with
      | some x, some it => (visit fuel it).map (x :: ·)
      | _, _ => none

def findFrom (tv : Bool) : List (List Nat) → Nat → Int → ChannelIterator
  | [], b, _ => ⟨tv, b, -2⟩
  | l :: rest, b, c =>
    if l.length > asUnsigned c then ⟨tv, b, c⟩ else findFrom tv rest (b + 1) (asInt (c - l.length))

def findChannelNr (tv : Bool) (channel : UInt32) : ChannelIterator :=
  findFrom tv (owner.lists tv) 0 (asInt channel.toNat)

/-- The inner loop, and whether it has found the channel. -/
def lowestInBouquet (channelId : Nat) : List Nat → Int → Bool × Int
  | [], i => (false, i)
  | x :: xs, i => if x = channelId then (true, i) else lowestInBouquet channelId xs (i + 1)

def lowestFrom (channelId : Nat) : List (List Nat) → Int → Int
  | [], _ => -1
  | l :: rest, i =>
    let r := lowestInBouquet channelId l i
    if r.1 then r.2 else lowestFrom channelId rest r.2

def getLowestChannelNumberWithChannelID (tv : Bool) (channelId : Nat) : Int :=
  lowestFrom channelId (owner.lists tv) 0

def getNrofFirstChannelofBouquet (tv : Bool) (bouquetNr : Nat) : Int :=
  if bouquetNr ≥ owner.bouquets.length then -1
  else ((owner.lists tv).take bouquetNr).foldl (fun i l => asInt (i + l.length)) 0

/-- All of them number the channels of `numbered`. -/
structure Agrees (tv : Bool) : Prop where
  visits : ∃ it, new owner tv = some it ∧
    ∀ fuel, (owner.numbered tv).length ≤ fuel → visit owner fuel it = some (owner.numbered tv)
  finds : ∀ channel : UInt32, channel.toNat < (owner.numbered tv).length →
    ¬ (findChannelNr owner tv channel).endOfChannels ∧
      (findChannelNr owner tv channel).deref owner = (owner.numbered tv)[channel.toNat]?
  findsEnd : ∀ channel : UInt32, (owner.numbered tv).length ≤ channel.toNat →
    (findChannelNr owner tv channel).endOfChannels
  lowest : ∀ channelId, getLowestChannelNumberWithChannelID owner tv channelId =
    match (owner.numbered tv).findIdx? (· = channelId) with
    | some i => (i : Int)
    | none => -1
  first : ∀ bouquetNr < owner.bouquets.length,
    getNrofFirstChannelofBouquet owner tv bouquetNr =
      (((owner.lists tv).take bouquetNr).flatten.length : Int)

/-! ## Signed and unsigned -/

theorem asUnsigned_asInt (i : Int) : asUnsigned (asInt i) = asUnsigned i := by
  have h : i.bmod (2 ^ 32) % ((2 ^ 32 : Nat) : Int) = i % ((2 ^ 32 : Nat) : Int) := Int.bmod_emod
  exact congrArg Int.toNat h

theorem asUnsigned_natCast {n : Nat} (h : n < 2 ^ 32) : asUnsigned n = n := by
  unfold asUnsigned
  omega

theorem asUnsigned_sub {i : Int} {n : Nat} (h : n ≤ asUnsigned i) :
    asUnsigned (i - n) = asUnsigned i - n := by
  unfold asUnsigned at h ⊢
  omega

theorem asInt_natCast {n : Nat} (h : n < 2 ^ 31) : asInt n = n := by
  unfold asInt
  rw [Int.bmod_def]
  omega

/-! ## Forward -/

section
variable {owner : CBouquetManager} {tv : Bool} {it : ChannelIterator} {l rest : List Nat}
  {ls : List (List Nat)} {b : Nat}

theorem length_le_numbered (h : l ∈ owner.lists tv) : l.length ≤ (owner.numbered tv).length :=
  (List.sublist_flatten_of_mem h).length_le

theorem drop_cons {α : Type} {xs ys : List α} {x : α} {n : Nat} (h : xs.drop n = x :: ys) :
    xs[n]? = some x ∧ xs.drop (n + 1) = ys := by
  constructor
  · rw [← List.head?_drop, h]
    rfl
  · rw [← List.drop_drop, h]
    rfl

/-- What an iterator has before it. -/
def Before (owner : CBouquetManager) (it : ChannelIterator) (rest : List Nat) : Prop :=
  (it.endOfChannels ∧ rest = []) ∨
    ∃ l, ∃ i < l.length, it.getBouquet owner = some l ∧ it.c = (i : Nat) ∧
      rest = l.drop i ++ ((owner.lists it.tv).drop (it.b + 1)).flatten

theorem skipEmpty_before (h : (owner.lists tv).drop b = ls) :
    Before owner (skipEmpty tv ls b) ls.flatten := by
  induction ls generalizing b with
  | nil => exact .inl ⟨rfl, rfl⟩
  | cons l ls ih =>
    obtain ⟨hget, hdrop⟩ := drop_cons h
    unfold skipEmpty
    cases l with
    | nil => exact ih hdrop
    | cons x xs =>
      refine .inr ⟨x :: xs, 0, Nat.zero_lt_succ _, hget, rfl, ?_⟩
      rw [List.flatten_cons, ← hdrop]
      rfl

/-- One bouquet further on there is what the present one does not have any more. -/
theorem next_before (hfit : owner.Addressable) (hbouquet : it.getBouquet owner = some l) {i : Nat}
    (hc : it.c + 1 = (i : Nat)) (hi : i ≤ l.length) :
    ∃ it', it.next owner = some it' ∧
      Before owner it' (l.drop i ++ ((owner.lists it.tv).drop (it.b + 1)).flatten) := by
  have hmem : l ∈ owner.lists it.tv := List.mem_of_getElem? hbouquet
  have hle := (length_le_numbered hmem).trans (hfit it.tv)
  have hunsigned : asUnsigned (it.c + 1) = i := by
    rw [hc]
    exact asUnsigned_natCast (by omega)
  have hnot : ¬ it.endOfChannels := by
    unfold endOfChannels
    omega
  unfold next
  rw [if_neg hnot, hbouquet]
  dsimp only
  rw [hunsigned]
  by_cases hend : i ≥ l.length
  · rw [if_pos hend]
    refine ⟨_, rfl, ?_⟩
    rw [List.drop_of_length_le hend]
    exact skipEmpty_before rfl
  · rw [if_neg hend]
    exact ⟨_, rfl, .inr ⟨l, i, Nat.lt_of_not_le hend, hbouquet, hc, rfl⟩⟩

theorem new_before (hfit : owner.Addressable) :
    ∃ it, new owner tv = some it ∧ Before owner it (owner.numbered tv) := by
  unfold new
  cases hb : owner.bouquets with
  | nil =>
    refine ⟨_, rfl, .inl ⟨rfl, ?_⟩⟩
    rw [CBouquetManager.numbered, CBouquetManager.lists, hb]
    rfl
  | cons first others =>
    have hlists : owner.lists tv = first.2.channels tv :: others.map fun b => b.2.channels tv := by
      rw [CBouquetManager.lists, hb]
      rfl
    have hbouquet : (⟨tv, 0, -1⟩ : ChannelIterator).getBouquet owner =
        some (first.2.channels tv) := by
      rw [getBouquet, hlists]
      rfl
    obtain ⟨it, hnext, hbefore⟩ := next_before hfit hbouquet (i := 0) rfl (Nat.zero_le _)
    refine ⟨it, hnext, ?_⟩
    rw [CBouquetManager.numbered, hlists]
    rw [hlists] at hbefore
    exact hbefore

theorem before_step (hfit : owner.Addressable) (h : Before owner it rest)
    (hnot : ¬ it.endOfChannels) : ∃ x rest' it', rest = x :: rest' ∧ it.deref owner = some x ∧
      it.next owner = some it' ∧ Before owner it' rest' := by
  rcases h with ⟨hend, -⟩ | ⟨l, i, hi, hbouquet, hc, rfl⟩
  · exact absurd hend hnot
  · have hle := (length_le_numbered (List.mem_of_getElem? hbouquet)).trans (hfit it.tv)
    have hunsigned : asUnsigned it.c = i := by
      rw [hc]
      exact asUnsigned_natCast (by omega)
    obtain ⟨it', hnext, hbefore⟩ := next_before hfit hbouquet (i := i + 1) (by rw [hc]; rfl) hi
    refine ⟨l[i], _, it', ?_, ?_, hnext, hbefore⟩
    · rw [List.drop_eq_getElem_cons hi, List.cons_append]
    · rw [deref, hbouquet]
      dsimp only
      rw [hunsigned, List.getElem?_eq_getElem hi]

theorem rest_nil (h : Before owner it rest) (hend : it.endOfChannels) : rest = [] := by
  rcases h with ⟨-, hrest⟩ | ⟨l, i, -, -, hc, -⟩
  · exact hrest
  · unfold endOfChannels at hend
    omega

theorem visit_before (hfit : owner.Addressable) {fuel : Nat} (h : Before owner it rest)
    (hfuel : rest.length ≤ fuel) : visit owner fuel it = some rest := by
  induction fuel generalizing it rest with
  | zero =>
    by_cases hend : it.endOfChannels
    · rw [rest_nil h hend, visit, if_pos hend]
    · obtain ⟨x, rest', -, rfl, -⟩ := before_step hfit h hend
      cases hfuel
  | succ fuel ih =>
    by_cases hend : it.endOfChannels
    · rw [rest_nil h hend, visit, if_pos hend]
    · obtain ⟨x, rest', it', rfl, hderef, hnext, hbefore⟩ := before_step hfit h hend
      rw [visit, if_neg hend, hderef, hnext]
      dsimp only
      rw [ih hbefore (Nat.le_of_succ_le_succ hfuel)]
      rfl

/-! ## By number -/

theorem findFrom_found (h : (owner.lists tv).drop b = ls) {c : Int}
    (hc : asUnsigned c < ls.flatten.length) :
    ∃ l, (findFrom tv ls b c).getBouquet owner = some l ∧
      asUnsigned (findFrom tv ls b c).c < l.length ∧
      l[asUnsigned (findFrom tv ls b c).c]? = ls.flatten[asUnsigned c]? := by
  induction ls generalizing b c with
  | nil => cases hc
  | cons l ls ih =>
    obtain ⟨hget, hdrop⟩ := drop_cons h
    unfold findFrom
    by_cases hhere : l.length > asUnsigned c
    · rw [if_pos hhere]
      exact ⟨l, hget, hhere, by rw [List.flatten_cons, List.getElem?_append_left hhere]⟩
    · have hle := Nat.le_of_not_lt hhere
      have hrest : asUnsigned (asInt (c - l.length)) = asUnsigned c - l.length := by
        rw [asUnsigned_asInt, asUnsigned_sub hle]
      rw [if_neg hhere]
      rw [List.flatten_cons, List.length_append] at hc
      obtain ⟨l', hl', hlt, heq⟩ := ih (c := asInt (c - l.length)) hdrop (by rw [hrest]; omega)
      refine ⟨l', hl', hlt, ?_⟩
      rw [heq, hrest, List.flatten_cons, List.getElem?_append_right hle]

theorem findFrom_end {c : Int} (hc : ls.flatten.length ≤ asUnsigned c) :
    (findFrom tv ls b c).endOfChannels := by
  induction ls generalizing b c with
  | nil => rfl
  | cons l ls ih =>
    rw [List.flatten_cons, List.length_append] at hc
    have hle : l.length ≤ asUnsigned c := by omega
    unfold findFrom
    rw [if_neg (Nat.not_lt_of_le hle)]
    refine ih ?_
    rw [asUnsigned_asInt, asUnsigned_sub hle]
    omega

theorem findFrom_tv {c : Int} : (findFrom tv ls b c).tv = tv := by
  induction ls generalizing b c with
  | nil => rfl
  | cons l ls ih =>
    unfold findFrom
    split
    · rfl
    · exact ih

theorem asUnsigned_channel (channel : UInt32) :
    asUnsigned (asInt channel.toNat) = channel.toNat := by
  rw [asUnsigned_asInt, asUnsigned_natCast channel.toNat_lt]

theorem findChannelNr_found (hfit : owner.Addressable) {channel : UInt32}
    (h : channel.toNat < (owner.numbered tv).length) :
    ¬ (findChannelNr owner tv channel).endOfChannels ∧
      (findChannelNr owner tv channel).deref owner = (owner.numbered tv)[channel.toNat]? := by
  have hc : asUnsigned (asInt channel.toNat) < (owner.lists tv).flatten.length := by
    rw [asUnsigned_channel]
    exact h
  have hstart : (owner.lists tv).drop 0 = owner.lists tv := rfl
  obtain ⟨l, hl, hlt, heq⟩ := findFrom_found hstart hc
  constructor
  · have hmem := List.mem_of_getElem? hl
    rw [findFrom_tv] at hmem
    have hle := (length_le_numbered hmem).trans (hfit tv)
    intro hend
    unfold endOfChannels findChannelNr at hend
    rw [hend] at hlt
    have hmax : asUnsigned (-2) = 2 ^ 32 - 2 := rfl
    omega
  · rw [deref, findChannelNr, hl]
    dsimp only
    rw [heq, asUnsigned_channel]
    rfl

/-! ## By id and by bouquet -/

theorem lowestInBouquet_eq (channelId : Nat) (l : List Nat) (i : Int) :
    lowestInBouquet channelId l i = match l.findIdx? (· = channelId) with
      | some n => (true, i + n)
      | none => (false, i + l.length) := by
  induction l generalizing i with
  | nil => simp [lowestInBouquet]
  | cons x xs ih =>
    unfold lowestInBouquet
    rw [List.findIdx?_cons]
    by_cases hx : x = channelId
    · simp [hx]
    · rw [if_neg hx, ih]
      cases xs.findIdx? (· = channelId) with
      | none => simp [hx]; omega
      | some n => simp [hx]; omega

theorem lowestFrom_eq (channelId : Nat) (ls : List (List Nat)) (i : Int) :
    lowestFrom channelId ls i = match ls.flatten.findIdx? (· = channelId) with
      | some n => i + n
      | none => -1 := by
  induction ls generalizing i with
  | nil => rfl
  | cons l ls ih =>
    unfold lowestFrom
    rw [lowestInBouquet_eq, List.flatten_cons, List.findIdx?_append]
    cases l.findIdx? (· = channelId) with
    | some n => simp
    | none =>
      simp only [Bool.false_eq_true, if_false, ih, Option.none_or]
      cases ls.flatten.findIdx? (· = channelId) with
      | some n =>
        change i + l.length + n = i + ((n + l.length : Nat) : Int)
        omega
      | none => rfl

theorem offset_eq {i : Nat} (h : i + ls.flatten.length < 2 ^ 31) :
    ls.foldl (fun (i : Int) l => asInt (i + l.length)) i = (i + ls.flatten.length : Nat) := by
  induction ls generalizing i with
  | nil => rfl
  | cons l ls ih =>
    rw [List.flatten_cons, List.length_append] at h ⊢
    have hstep : asInt ((i : Int) + l.length) = (i + l.length : Nat) :=
      asInt_natCast (n := i + l.length) (by omega)
    rw [List.foldl_cons, hstep, ih (by omega), Nat.add_assoc]

theorem agrees (hfit : owner.Addressable) (tv : Bool) : Agrees owner tv where
  visits := by
    have hstart : ∃ it, new owner tv = some it ∧ Before owner it (owner.numbered tv) :=
      new_before hfit
    obtain ⟨it, hnew, hbefore⟩ := hstart
    exact ⟨it, hnew, fun fuel hfuel => visit_before hfit hbefore hfuel⟩
  finds channel h := findChannelNr_found hfit h
  findsEnd channel h := findFrom_end (by rw [asUnsigned_channel]; exact h)
  lowest channelId := by
    rw [getLowestChannelNumberWithChannelID, lowestFrom_eq]
    simp only [Int.zero_add]
    rfl
  first bouquetNr h := by
    have hall := congrArg List.flatten (List.take_append_drop bouquetNr (owner.lists tv))
    have hprefix : ((owner.lists tv).take bouquetNr).flatten.length ≤
        (owner.numbered tv).length := by
      rw [CBouquetManager.numbered, ← hall, List.flatten_append, List.length_append]
      exact Nat.le_add_right _ _
    have hle := hprefix.trans (hfit tv)
    rw [getNrofFirstChannelofBouquet, if_neg (Nat.not_le_of_lt h)]
    have hbound : 0 + ((owner.lists tv).take bouquetNr).flatten.length < 2 ^ 31 := by omega
    have hoffset := offset_eq hbound
    rw [Nat.zero_add] at hoffset
    exact hoffset

end

end ChannelIterator

/-! ## Every channel has a number -/

/-- Every channel of a type with a list is in that list. -/
def Complete (allchans : Tallchans) (m : CBouquetManager) : Prop :=
  ∀ id c, allchans.find id = some c →
    (isTv c.serviceType = true → id ∈ m.numbered true) ∧
      (isRadio c.serviceType = true → id ∈ m.numbered false)

/-- What the requests keep: the lists are in order, and the bouquets have addresses that `new`
has given out. -/
structure Kept (allchans : Tallchans) (m : CBouquetManager) : Prop where
  listed : AllListed allchans m
  addresses : ∀ b ∈ m.bouquets, b.1 < m.fresh

section
variable {allchans : Tallchans} {m : CBouquetManager} {tv : Bool} {id : Nat} {c : CZapitChannel}

theorem mem_numbered : id ∈ m.numbered tv ↔ ∃ b ∈ m.bouquets, id ∈ b.2.channels tv := by
  simp [CBouquetManager.numbered, CBouquetManager.lists]

theorem mem_addService {b : CBouquet} {x : Nat} {serviceType : UInt8} :
    x ∈ (b.addService id serviceType).channels tv ↔
      x ∈ b.channels tv ∨ (x = id ∧ inMode tv serviceType = true) := by
  unfold CBouquet.addService CBouquet.channels inMode
  by_cases ht : isTv serviceType = true
  · cases tv <;> simp [ht, not_radio_of_tv ht]
  · by_cases hr : isRadio serviceType = true
    · cases tv <;> simp [ht, hr]
    · cases tv <;> simp [ht, hr]

theorem mem_foldl_addService {types : Nat → UInt8} {ids : List Nat} {b : CBouquet} {x : Nat} :
    x ∈ (ids.foldl (fun b id => b.addService id (types id)) b).channels tv ↔
      x ∈ b.channels tv ∨ (x ∈ ids ∧ inMode tv (types x) = true) := by
  induction ids generalizing b with
  | nil => simp
  | cons id ids ih =>
    rw [List.foldl_cons, ih, mem_addService, List.mem_cons]
    constructor
    · rintro ((hx | ⟨rfl, hx⟩) | ⟨hmem, hx⟩)
      · exact .inl hx
      · exact .inr ⟨.inl rfl, hx⟩
      · exact .inr ⟨.inr hmem, hx⟩
    · rintro (hx | ⟨rfl | hmem, hx⟩)
      · exact .inl (.inl hx)
      · exact .inl (.inr ⟨rfl, hx⟩)
      · exact .inr ⟨hmem, hx⟩

theorem mem_unusedChannels_of_not_listed (hc : allchans.find id = some c)
    (htv : id ∉ m.numbered true) (hradio : id ∉ m.numbered false) :
    id ∈ unusedChannels allchans m := by
  have hunused : id ∉ m.bouquets.flatMap fun b => b.2.tvChannels ++ b.2.radioChannels := by
    intro hmem
    obtain ⟨b, hb, hmem⟩ := List.mem_flatMap.mp hmem
    rcases List.mem_append.mp hmem with hmem | hmem
    · exact htv (mem_numbered.mpr ⟨b, hb, hmem⟩)
    · exact hradio (mem_numbered.mpr ⟨b, hb, hmem⟩)
  have hentry : (id, c) ∈ allchans.map.entries := (OrdMap.find_eq_some _ _ _).mp hc
  refine List.mem_map.mpr ⟨(id, c), List.mem_mergeSort.mpr ?_, rfl⟩
  exact List.mem_filter.mpr ⟨hentry, decide_eq_true hunused⟩

theorem AllListed.inMode (h : AllListed allchans m) (hc : allchans.find id = some c)
    (hid : id ∈ m.numbered tv) : inMode tv c.serviceType = true := by
  obtain ⟨b, hb, hmem⟩ := mem_numbered.mp hid
  cases tv with
  | true =>
    obtain ⟨d, hd, htype⟩ := (h b hb).tv id hmem
    rw [hc] at hd
    cases hd
    exact htype
  | false =>
    obtain ⟨d, hd, htype⟩ := (h b hb).radio id hmem
    rw [hc] at hd
    cases hd
    exact htype

/-- The generated bouquet takes in what no other one has. -/
theorem makeRemaining_complete (h : Kept allchans m) (hc : allchans.find id = some c)
    (hmode : inMode tv c.serviceType = true) :
    id ∈ (makeRemainingChannelsBouquet allchans m).numbered tv := by
  have hremain : id ∉ m.numbered tv → id ∈ (remainBouquet allchans m).channels tv := by
    intro hnew
    have hnot : ∀ tv', id ∉ m.numbered tv' := by
      intro tv' hmem
      obtain rfl := inMode_unique hmode (h.listed.inMode hc hmem)
      exact hnew hmem
    have hunused := mem_unusedChannels_of_not_listed hc (hnot true) (hnot false)
    refine mem_foldl_addService.mpr (.inr ⟨hunused, ?_⟩)
    rw [serviceTypeOf, hc]
    exact hmode
  unfold makeRemainingChannelsBouquet
  dsimp only
  split
  · rename_i hempty
    have hold : id ∈ m.numbered tv := by
      by_contra hnew
      obtain ⟨htv, hradio⟩ := Bool.and_eq_true_iff.mp hempty
      have hmem := hremain hnew
      unfold CBouquet.channels at hmem
      rw [List.isEmpty_iff.mp htv, List.isEmpty_iff.mp hradio, ite_self] at hmem
      cases hmem
    obtain ⟨b, hb, hmem⟩ := mem_numbered.mp hold
    refine mem_numbered.mpr ⟨b, ?_, hmem⟩
    change b ∈ ((m.addBouquet (remainBouquet allchans m)).deleteAddress (some m.fresh)).bouquets
    rw [deleteAddress_last h.addresses]
    exact hb
  · by_cases hold : id ∈ m.numbered tv
    · obtain ⟨b, hb, hmem⟩ := mem_numbered.mp hold
      exact mem_numbered.mpr ⟨b, List.mem_append_left _ hb, hmem⟩
    · exact mem_numbered.mpr ⟨_, List.mem_append_right _ List.mem_cons_self, hremain hold⟩

theorem addresses_deleteAddress (h : ∀ b ∈ m.bouquets, b.1 < m.fresh) (address : Option Nat) :
    ∀ b ∈ (m.deleteAddress address).bouquets, b.1 < (m.deleteAddress address).fresh := by
  cases address with
  | none => exact h
  | some a => exact fun b hb => h b (List.mem_of_mem_eraseP hb)

theorem addresses_addBouquet (h : ∀ b ∈ m.bouquets, b.1 < m.fresh) (b : CBouquet) :
    ∀ x ∈ (m.addBouquet b).bouquets, x.1 < (m.addBouquet b).fresh := by
  intro x hx
  rcases List.mem_append.mp hx with hx | hx
  · exact Nat.lt_succ_of_lt (h x hx)
  · rw [List.mem_singleton.mp hx]
    exact Nat.lt_succ_self _

theorem renumServices_complete (h : Kept allchans m) (hon : m.remainingChannelsBouquet = true) :
    Complete allchans (renumServices allchans m) := by
  have hcleared : Kept allchans { m.deleteAddress m.remainChannels with remainChannels := none } :=
    ⟨h.listed.deleteAddress m.remainChannels, addresses_deleteAddress h.addresses _⟩
  intro id c hc
  unfold renumServices
  rw [if_pos hon]
  exact ⟨fun htv => makeRemaining_complete hcleared hc htv,
    fun hradio => makeRemaining_complete hcleared hc hradio⟩

theorem addresses_makeRemaining (h : ∀ b ∈ m.bouquets, b.1 < m.fresh) :
    ∀ b ∈ (makeRemainingChannelsBouquet allchans m).bouquets,
      b.1 < (makeRemainingChannelsBouquet allchans m).fresh := by
  have hadded := addresses_addBouquet h (remainBouquet allchans m)
  unfold makeRemainingChannelsBouquet
  dsimp only
  split
  · exact fun b hb => hadded b (List.mem_of_mem_eraseP hb)
  · exact hadded

theorem addresses_renumServices (h : ∀ b ∈ m.bouquets, b.1 < m.fresh) :
    ∀ b ∈ (renumServices allchans m).bouquets, b.1 < (renumServices allchans m).fresh := by
  have hcleared := addresses_deleteAddress h m.remainChannels
  unfold renumServices
  split
  · exact addresses_makeRemaining hcleared
  · exact hcleared

theorem Kept.exec (h : Kept allchans m) (r : Request) : Kept allchans (exec allchans m r) := by
  refine ⟨h.listed.exec r, ?_⟩
  have haddresses := h.addresses
  cases r with
  | addBouquet name => exact addresses_addBouquet haddresses _
  | deleteBouquet bouquet =>
    simp only [Zapit.exec, CBouquetManager.deleteBouquet]
    split
    · exact haddresses
    · split
      · exact haddresses
      · exact addresses_deleteAddress haddresses _
  | renameBouquet bouquet name | removeChannelFromBouquet bouquet channelId
  | moveChannel bouquet oldPos newPos serviceType | setLockstate bouquet state
  | setHiddenstate bouquet state | setTypeAndId bouquet type bouquetId =>
    exact addresses_modify haddresses bouquet _
  | moveBouquet bouquet newPos => exact fun b hb => haddresses b (mem_moveItem hb)
  | addChannelToBouquet bouquet channelId =>
    simp only [Zapit.exec]
    split
    · exact haddresses
    · exact addresses_modify haddresses bouquet _
  | renumChannellist => exact addresses_renumServices haddresses

theorem reachable_kept (h : Reachable allchans m) : Kept allchans m := by
  obtain ⟨remaining, rs, rfl⟩ := h
  have hempty : Kept allchans (CBouquetManager.empty remaining) := by
    constructor <;> intro b hb <;> cases hb
  have hrun : ∀ (rs : List Request) (m : CBouquetManager), Kept allchans m →
      Kept allchans (rs.foldl (Zapit.exec allchans) m) := by
    intro rs
    induction rs with
    | nil => exact fun m hm => hm
    | cons r rs ih => exact fun m hm => ih _ (hm.exec r)
  exact hrun rs _ hempty

/-- The iterators agree on the numbers, and renumbering leaves no channel out. -/
theorem channel_numbering (allchans : Tallchans) (hfit : m.Addressable) :
    (∀ tv, ChannelIterator.Agrees m tv) ∧
      (Kept allchans m → m.remainingChannelsBouquet = true →
        Complete allchans (renumServices allchans m)) :=
  ⟨ChannelIterator.agrees hfit, renumServices_complete⟩

end

/-- The first bouquet has no channels, and the last one none for the radio. -/
def numberedRequests : List Request :=
  [.addBouquet (chars "A"), .addBouquet (chars "B"),
    .addChannelToBouquet 1 sampleChannel.getChannelID, .addBouquet (chars "C"),
    .addChannelToBouquet 2 sampleChannel.getChannelID]

theorem channel_numbering_sample :
    (∀ tv, ChannelIterator.Agrees (sampleManager numberedRequests) tv) ∧
      Complete sampleChannels (renumServices sampleChannels (sampleManager numberedRequests)) := by
  have hfit : (sampleManager numberedRequests).Addressable := by
    intro tv
    cases tv <;> decide
  have hnumbering := channel_numbering sampleChannels hfit
  exact ⟨hnumbering.1, hnumbering.2 (reachable_kept ⟨true, numberedRequests, rfl⟩) rfl⟩

end Tuxbox.Zapit
