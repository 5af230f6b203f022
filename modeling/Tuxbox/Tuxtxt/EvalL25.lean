import Tuxbox.Tuxtxt.ObjectCalls

/-! The objects of a page of level 2.5.

* `evalL25_terminates_iff`: when it ends. -/
namespace Tuxbox.Tuxtxt

open Prog Calls Relation

/-! ## Where the objects are -/

/-- A default object of the magazine organization table. -/
structure DefaultObject where
  triplet : Nat
  packet : Nat
  subp : Nat
  high : Bool

/-- The page of a link of this table, 0 for none. -/
def motPage (p : Nat → Nat) (link : Nat) : Nat :=
  let page := (p link <<< 8 ||| p (link + 1) <<< 4 ||| p (link + 2)) &&& 0x7ff
  if page &&& 0xff = 0xff then 0 else if page < 0x100 then page + 0x800 else page

/-- The default object `ct` of a link, if it has this type. -/
def motObject (p : Nat → Nat) (link mask type ct : Nat) : Option DefaultObject :=
  if p (link + 5) >>> (2 * ct) &&& 0x03 = type then
    some
      { triplet := 3 * (p (link + 7 + ct * 2) >>> 1 &&& 0x03) + type
        packet := (p (link + 7 + ct * 2) &&& 0x08) >>> 3 + 1
        subp := p (link + 6 + ct * 2) &&& mask
        high := p (link + 7 + ct * 2) &&& 0x01 ≠ 0 }
  else none

/-- What the evaluation of a page reads of `tuxtxt_cache`; `p27` belongs to the page that is
shown. -/
structure L25 where
  page : Nat
  subpage : Nat
  astCachetable : Nat → Nat → Option ObjectPage
  p27 : Option (Nat → Tstp27)

/-- The object pages, and the default objects with their pages. -/
structure Pops where
  pop : Nat
  gpop : Nat
  defaults : List (Nat × DefaultObject)

namespace L25

section
variable (l : L25)

/-- The page of a link of packet 27/4, if it is required. -/
def link (i : Nat) : Nat :=
  match l.p27 with
  | some p27 => if (p27 i).l25 then (p27 i).page else 0
  | none => 0

/-- The links of packet 27/4 and of the magazine organization table, which has default objects for
a page without packet 26. -/
def pops (p26Received : Bool) : Pops :=
  match l.astCachetable (l.page &&& 0xf00 ||| 0xfe) 0 with
  | none => ⟨l.link 1, l.link 0, []⟩
  | some mot =>
    let p := fun i => (mot.pagedata.getD i 0).toNat
    let o := 2 * ((l.page &&& 0xf0) >>> 4 * 10 + (l.page &&& 0x0f))
    let gpopLink := 18 * 40
    let popLink := 18 * 40 + 10 * (p o &&& 0x07)
    let gpopUsed : Bool := p o &&& 0x08 ≠ 0 ∧ (l.link 0 = 0 ∨ p gpopLink &&& 0x08 = 0)
    let popUsed : Bool := p o &&& 0x07 ≠ 0 ∧ (l.link 1 = 0 ∨ p popLink &&& 0x08 = 0)
    let gpop := if gpopUsed then motPage p gpopLink else l.link 0
    let pop := if popUsed then motPage p popLink else l.link 1
    let objects := fun used page link mask type =>
      if used && page != 0 && !p26Received then
        ([0, 1].filterMap (motObject p link mask type)).map fun d => (page, d)
      else []
    ⟨pop, gpop, [1, 2, 3].flatMap fun type =>
      objects gpopUsed gpop gpopLink 0x0f type ++ objects popUsed pop popLink 0xff type⟩

/-- The objects are those of this page and of its object pages. -/
def sources (shown : ObjectPage) : Sources :=
  let pops := l.pops (shown.p26 0).isSome
  ⟨shown, pops.pop, pops.gpop, l.astCachetable⟩

/-- The default objects, then those of packet 26. -/
def starts (shown : ObjectPage) : List Obj :=
  let pops := l.pops (shown.p26 0).isSome
  (pops.defaults.filterMap fun d =>
      (l.sources shown).numberedObject d.1 d.2.subp d.2.packet d.2.triplet d.2.high) ++
    if (shown.p26 0).isSome then [⟨.shown, 13 * (23 - 2 + 2), .OBJ_ACTIVE⟩] else []

end

end L25

/-- Objects one after the other, from the upper left corner. -/
def evalStarts (c : Sources) (depth : Nat) : List Obj → Eval Unit
  | [] => pure ()
  | b :: bs => do
    modify fun s => { s with tAPx := 0, tAPy := 0 }
    evalObject c depth b ⟨0, 0⟩
    evalStarts c depth bs

/-- `tuxtxt_eval_l25`, as far as it evaluates objects. -/
def L25.evalL25 (l : L25) (depth : Nat) : Eval Unit :=
  match l.astCachetable l.page l.subpage with
  | none => pure ()
  | some shown =>
    if isDec l.page then evalStarts (l.sources shown) depth (l.starts shown) else pure ()

/-! ## Termination -/

/-- An object of the page leads to an object that is invoked by itself, at the same column. -/
def L25.Cyclic (l : L25) : Prop :=
  ∃ shown, l.astCachetable l.page l.subpage = some shown ∧ isDec l.page = true ∧
    ∃ b ∈ l.starts shown, ∃ k,
      ReflTransGen (Invokes (l.sources shown).calls) ⟨b, 0, 0⟩ k ∧
        TransGen (Invokes (l.sources shown).calls) k k

section
variable {l : L25} {c : Sources} {shown : ObjectPage} {s : Drawing}

theorem evalStarts_terminates_iff (depth : Nat) (bs : List Obj) :
    Terminates (evalStarts c depth bs) s ↔ ∀ b ∈ bs, Returns c.calls depth ⟨b, 0, 0⟩ := by
  induction bs generalizing s with
  | nil => simp [evalStarts, terminates_pure]
  | cons b bs ih =>
    have hfirst : Terminates (evalObject c depth b ⟨0, 0⟩) { s with tAPx := 0, tAPy := 0 } ↔
        Returns c.calls depth ⟨b, 0, 0⟩ := evalObject_terminates_iff depth b ⟨0, 0⟩ _
    rw [List.forall_mem_cons, ← hfirst, evalStarts]
    simp only [terminates_bind, ends_modify, ih]
    constructor
    · rintro ⟨_, _, rfl, _, t, hend, hrest⟩
      exact ⟨⟨_, t, hend⟩, hrest⟩
    · rintro ⟨⟨_, t, hend⟩, hrest⟩
      exact ⟨(), _, rfl, _, t, hend, hrest⟩

theorem starts_iONr_lt {b : Obj} (h : b ∈ l.starts shown) : b.iONr < 512 := by
  rcases List.mem_append.mp h with h | h
  · obtain ⟨d, -, hd⟩ := List.mem_filterMap.mp h
    exact (numberedObject_page hd).2
  · split_ifs at h
    · obtain rfl := List.mem_singleton.mp h
      decide
    · exact absurd h List.not_mem_nil

/-- The drawing of a page ends exactly if no object invokes itself. -/
theorem evalL25_terminates_iff (l : L25) (s : Drawing) :
    (∃ n, ∀ depth ≥ n, Terminates (l.evalL25 depth) s) ↔ ¬ l.Cyclic := by
  unfold L25.evalL25 L25.Cyclic
  cases l.astCachetable l.page l.subpage with
  | none => simp [terminates_pure]
  | some shown =>
    by_cases hdec : isDec l.page = true
    · have hreturns : ∀ b ∈ l.starts shown,
          ((∃ n, Returns (l.sources shown).calls n ⟨b, 0, 0⟩) ↔
            ∀ k, ReflTransGen (Invokes (l.sources shown).calls) ⟨b, 0, 0⟩ k →
              ¬ TransGen (Invokes (l.sources shown).calls) k k) := by
        intro b hb
        have hpossible : (l.sources shown).Possible b.page ⟨b, 0, 0⟩ :=
          ⟨.inl rfl, starts_iONr_lt hb, Nat.zero_lt_succ 39, Nat.zero_lt_succ 127⟩
        exact exists_returns_iff (reachable_finite hpossible)
      have hall : (∃ n, ∀ depth ≥ n, Terminates (evalStarts (l.sources shown) depth
          (l.starts shown)) s) ↔
            ∀ b ∈ l.starts shown, ∃ n, Returns (l.sources shown).calls n ⟨b, 0, 0⟩ := by
        simp only [evalStarts_terminates_iff]
        constructor
        · rintro ⟨n, hn⟩ b hb
          exact ⟨n, hn n le_rfl b hb⟩
        · intro h
          have hreturn : ∀ k ∈ (l.starts shown).map fun b => (⟨b, 0, 0⟩ : Invocation),
              ∃ n, Returns (l.sources shown).calls n k := by simpa using h
          obtain ⟨n, hn⟩ := exists_returns_list hreturn
          refine ⟨n, fun depth hdepth b hb => ?_⟩
          exact (hn _ (List.mem_map_of_mem hb)).mono hdepth
      simp only [hdec, if_true, hall]
      constructor
      · rintro h ⟨_, heq, -, b, hb, k, hreach, hcycle⟩
        cases heq
        exact (hreturns b hb).mp (h b hb) k hreach hcycle
      · intro h b hb
        apply (hreturns b hb).mpr
        exact fun k hreach hcycle => h ⟨shown, rfl, trivial, b, hb, k, hreach, hcycle⟩
    · simp [hdec, terminates_pure]

end

/-- The first triplet of packet 26/0 invokes the local object that begins with it. -/
def selfPage : ObjectPage where
  pagedata := List.replicate 920 0x20
  p24 := none
  p26 i := if i = 0 then some ([74, 198, 0] ++ List.replicate 36 0) else none

def selfInvoking : L25 where
  page := 0x100
  subpage := 0
  astCachetable p s := if p = 0x100 ∧ s = 0 then some selfPage else none
  p27 := none

theorem selfInvoking_endless : ¬ ∃ s depth, Terminates (selfInvoking.evalL25 depth) s := by
  rintro ⟨s, depth, h⟩
  have hstarts : ⟨.shown, 299, .OBJ_ACTIVE⟩ ∈ selfInvoking.starts selfPage := by decide
  have hagain : ∀ type, (⟨⟨.shown, 299, .OBJ_PASSIVE⟩, 0, 0⟩ : Invocation) ∈
      (selfInvoking.sources selfPage).calls ⟨⟨.shown, 299, type⟩, 0, 0⟩ := by
    intro type
    cases type <;> decide
  have hnever : ∀ depth type,
      ¬ Returns (selfInvoking.sources selfPage).calls depth ⟨⟨.shown, 299, type⟩, 0, 0⟩ := by
    intro depth
    induction depth with
    | zero => exact fun _ h => h
    | succ depth ih => exact fun type h => ih .OBJ_PASSIVE (h _ (hagain type))
  have hends : Terminates (evalStarts (selfInvoking.sources selfPage) depth
      (selfInvoking.starts selfPage)) s := h
  exact hnever depth _ ((evalStarts_terminates_iff depth _).mp hends _ hstarts)

end Tuxbox.Tuxtxt
