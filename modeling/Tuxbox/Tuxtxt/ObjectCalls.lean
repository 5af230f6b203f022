import Mathlib.Data.Finite.Prod
import Mathlib.Order.Interval.Finset.Nat
import Tuxbox.Lib.Calls
import Tuxbox.Tuxtxt.Objects
import Tuxbox.Tuxtxt.PageLinks

/-! Which objects invoke which.

* `evalL25_terminates_iff`: that no object is invoked by itself. -/
namespace Tuxbox.Tuxtxt

open Prog Calls Relation

/-! ## Invocations -/

/-- An object that is evaluated, its column, and the offset that is not used up yet. -/
structure Invocation where
  obj : Obj
  APx0 : Nat
  tAPx : Nat
  deriving DecidableEq

namespace Triplet

section
variable (t : Triplet)

/-- The active column after a triplet. -/
def nextAPx (APx : Nat) : Nat :=
  if t.iAddress < 40 then if t.iMode ≠ 0x06 then t.iAddress else APx
  else if t.iMode = 0x04 then if t.iData < 40 then t.iData else APx
  else if t.iMode = 0x07 then if t.iAddress = 0x3f then 0 else APx
  else APx

def nextTAPx : Nat := if 40 ≤ t.iAddress ∧ t.iMode = 0x10 then t.iData else 0

end

end Triplet

namespace Sources

section
variable (c : Sources)

def called (pg : PageRef) (APx0 APx tAPx : Nat) (t : Triplet) : Option Invocation :=
  if 40 ≤ t.iAddress ∧ 0x11 ≤ t.iMode ∧ t.iMode ≤ 0x13 then
    if (APx0 + APx + tAPx) % 256 < 40 then
      (c.namedObject pg t).map fun b => ⟨b, (APx0 + APx + tAPx) % 256, tAPx⟩
    else none
  else none

def callsFrom (pg : PageRef) (APx0 : Nat) :
    (numbers : List Nat) → (first : Bool) → (APx tAPx : Nat) → List Invocation
  | [], _, _, _ => []
  | iONr :: numbers, first, APx, tAPx =>
    match c.data pg iONr with
    | none => []
    | some iOData =>
      let t := triplet iOData
      (c.called pg APx0 APx tAPx t).toList ++
        if t.terminates && !first then []
        else callsFrom pg APx0 numbers false (t.nextAPx APx) t.nextTAPx

/-- The objects that an object invokes, with their columns. -/
def calls (k : Invocation) : List Invocation :=
  c.callsFrom k.obj.page k.APx0 (List.range' k.obj.iONr (507 - k.obj.iONr)) true 0 k.tAPx

end

end Sources

/-! ## What does not depend on the drawing -/

section
variable {c : Sources} {g : Origin} {o : ObjectState} {s : Drawing} {t : Triplet}

@[simp] theorem write_tAPx (w : Write) : (s.write w).tAPx = s.tAPx := by cases w <;> rfl

@[simp] theorem writes_tAPx (ws : List Write) : (ws.foldl Drawing.write s).tAPx = s.tAPx := by
  induction ws generalizing s with
  | nil => rfl
  | cons w ws ih => rw [List.foldl_cons, ih, write_tAPx]

theorem setColor_APx (attr : TstPageAttr → Nat) (passive change : TstPageAttr → TstPageAttr) :
    (setColor g o s attr passive change).1.APx = o.APx := by
  unfold setColor
  split_ifs <;> rfl

theorem setAttr_APx (change : TstPageAttr → TstPageAttr) :
    (setAttr g o s change).1.APx = o.APx := by
  unfold setAttr
  split_ifs <;> rfl

theorem setChar_APx (char : Nat) (change : TstPageAttr → TstPageAttr) :
    (setChar g o s char change).1.APx = o.APx := setAttr_APx change

theorem drawColumn_APx : (drawColumn g o s t).1.APx = o.APx := by
  unfold drawColumn
  split <;> try split_ifs
  all_goals first | rfl | exact setColor_APx _ _ _ | exact setChar_APx _ _ | exact setAttr_APx _

theorem rowTriplet_APx (h : 40 ≤ t.iAddress) : (rowTriplet g o t).1.APx = t.nextAPx o.APx := by
  have hrow : ¬ t.iAddress < 40 := by omega
  unfold rowTriplet Triplet.nextAPx
  rw [if_neg hrow]
  split <;> simp_all <;> split_ifs <;> simp_all

theorem drawTriplet_APx : (drawTriplet g o s t).1.APx = t.nextAPx o.APx := by
  unfold drawTriplet
  split_ifs with h
  · rw [columnTriplet, drawColumn_APx, Triplet.nextAPx, if_pos h]
    split_ifs <;> rfl
  · exact rowTriplet_APx (by omega)

theorem findEndcol_APx (b : Obj) (numbers : List Nat) : (c.findEndcol b numbers o).APx = o.APx := by
  unfold Sources.findEndcol
  split_ifs
  · cases b.type <;> rfl
  · rfl

theorem called_eq (pg : PageRef) (tAPy : Nat) :
    c.called pg g.APx0 o.APx s.tAPx t =
      (c.invoked pg g o s.tAPx tAPy t).map fun i => ⟨i.1, i.2.APx0, s.tAPx⟩ := by
  unfold Sources.called Sources.invoked
  dsimp only
  split_ifs
  · rw [Option.map_map]
    rfl
  · rfl
  · rfl

end

/-! ## One object -/

section
variable {c : Sources} {invoke : Obj → Origin → Eval Unit} {b : Obj} {g : Origin} {t : Triplet}
  {o o' : ObjectState} {s s' : Drawing}

/-- The page as a triplet left it, before what it invokes. -/
def drawn (g : Origin) (o : ObjectState) (s : Drawing) (t : Triplet) : Drawing :=
  (drawTriplet g o s t).2.foldl Drawing.write s

theorem evalTriplet_ends :
    Ends (fun _ => True) (evalTriplet c invoke b g t o) s o' s' ↔
      o' = (drawTriplet g o s t).1 ∧
        ∃ s₁, (c.invoked b.page g o s.tAPx s.tAPy t = none ∧ s₁ = drawn g o s t ∨
            ∃ b' g', c.invoked b.page g o s.tAPx s.tAPy t = some (b', g') ∧
              Ends (fun _ => True) (invoke b' g') (drawn g o s t) () s₁) ∧
          s' = s₁.after t := by
  unfold evalTriplet drawn
  simp only [ends_bind, ends_get, ends_log, ends_modify, true_and, and_assoc, exists_and_left,
    exists_eq_left, exists_const]
  cases c.invoked b.page g o s.tAPx s.tAPy t with
  | none => simp
  | some i =>
    simp only [ends_bind, ends_modify, ends_pure]
    constructor
    · rintro ⟨_, s₁, hinvoke, _, s₂, rfl, rfl, rfl⟩
      exact ⟨rfl, s₁, .inr ⟨i.1, i.2, rfl, hinvoke⟩, rfl⟩
    · rintro ⟨rfl, s₁, ⟨hnone, -⟩ | ⟨b', g', hsome, hinvoke⟩, rfl⟩
      · cases hnone
      · cases hsome
        exact ⟨(), s₁, hinvoke, (), _, rfl, rfl, rfl⟩

variable {returns : Invocation → Prop} {Q : Prop}

/-- A triplet and what follows it, which starts from the active column that the triplet left. -/
theorem evalTriplet_bind_terminates_iff {f : ObjectState → Eval Unit}
    (hinvoke : ∀ b g s, Terminates (invoke b g) s ↔ returns ⟨b, g.APx0, s.tAPx⟩)
    (hf : ∀ s', s'.tAPx = t.nextTAPx → (Terminates (f (drawTriplet g o s t).1) s' ↔ Q)) :
    Terminates (evalTriplet c invoke b g t o >>= f) s ↔
      (∀ k ∈ (c.called b.page g.APx0 o.APx s.tAPx t).toList, returns k) ∧ Q := by
  have hdrawn : (drawn g o s t).tAPx = s.tAPx := writes_tAPx _
  rw [terminates_bind, called_eq b.page s.tAPy]
  simp only [evalTriplet_ends]
  cases c.invoked b.page g o s.tAPx s.tAPy t with
  | none =>
    constructor
    · rintro ⟨_, _, ⟨rfl, s₁, -, rfl⟩, hrest⟩
      exact ⟨fun k hk => absurd hk List.not_mem_nil, (hf _ rfl).mp hrest⟩
    · rintro ⟨-, hQ⟩
      exact ⟨_, _, ⟨rfl, _, .inl ⟨rfl, rfl⟩, rfl⟩, (hf _ rfl).mpr hQ⟩
  | some i =>
    obtain ⟨b', g'⟩ := i
    have hone : (∀ k ∈ ((some (b', g')).map fun i : Obj × Origin =>
        (⟨i.1, i.2.APx0, s.tAPx⟩ : Invocation)).toList, returns k) ↔
          Terminates (invoke b' g') (drawn g o s t) := by
      rw [hinvoke, hdrawn]
      simp
    rw [hone]
    constructor
    · rintro ⟨_, _, ⟨rfl, s₁, ⟨hnone, -⟩ | ⟨b₁, g₁, hsome, hend⟩, rfl⟩, hrest⟩
      · cases hnone
      · cases hsome
        exact ⟨⟨(), s₁, hend⟩, (hf _ rfl).mp hrest⟩
    · rintro ⟨⟨_, s₁, hend⟩, hQ⟩
      exact ⟨_, _, ⟨rfl, s₁, .inr ⟨b', g', rfl, hend⟩, rfl⟩, (hf _ rfl).mpr hQ⟩

/-- The triplets of an object end as what they invoke ends. -/
theorem evalTriplets_terminates_iff
    (hinvoke : ∀ b g s, Terminates (invoke b g) s ↔ returns ⟨b, g.APx0, s.tAPx⟩)
    (numbers : List Nat) (first : Bool) :
    Terminates (evalTriplets c invoke b g numbers first o) s ↔
      ∀ k ∈ c.callsFrom b.page g.APx0 numbers first o.APx s.tAPx, returns k := by
  induction numbers generalizing first o s with
  | nil => simp [evalTriplets, Sources.callsFrom, terminates_pure]
  | cons iONr numbers ih =>
    rw [evalTriplets, Sources.callsFrom]
    cases c.data b.page iONr with
    | none => simp [terminates_pure]
    | some iOData =>
      have hAPx : (c.findEndcol b (iONr :: numbers) o).APx = o.APx := findEndcol_APx b _
      simp only [List.mem_append, or_imp, forall_and]
      rw [← hAPx]
      apply evalTriplet_bind_terminates_iff hinvoke
      intro s' hs'
      split_ifs
      · simp [terminates_pure]
      · rw [ih, drawTriplet_APx, hs']

/-- The evaluation ends as the calls return. -/
theorem evalObject_terminates_iff (depth : Nat) (b : Obj) (g : Origin) (s : Drawing) :
    Terminates (evalObject c depth b g) s ↔ Returns c.calls depth ⟨b, g.APx0, s.tAPx⟩ := by
  induction depth generalizing b g s with
  | zero => exact iff_of_false not_terminates_endless id
  | succ depth ih => exact evalTriplets_terminates_iff ih _ true

end

/-! ## Finitely many invocations -/

section
variable {c : Sources} {pg : PageRef} {k k' : Invocation}

/-- The invocations that there can be, from one page. -/
structure Sources.Possible (c : Sources) (pg : PageRef) (k : Invocation) : Prop where
  page : k.obj.page = pg ∨ ∃ s < 16, k.obj.page = .cached c.pop s ∨ k.obj.page = .cached c.gpop s
  iONr : k.obj.iONr < 512
  APx0 : k.APx0 < 40
  tAPx : k.tAPx < 128

theorem triplet_iData_lt (iOData : Nat) : (triplet iOData).iData < 128 :=
  Nat.lt_of_le_of_lt Nat.and_le_right (by decide)

theorem nextTAPx_lt (iOData : Nat) : (triplet iOData).nextTAPx < 128 := by
  unfold Triplet.nextTAPx
  split_ifs
  · exact triplet_iData_lt iOData
  · decide

theorem mem_callsFrom {APx0 : Nat} {numbers : List Nat} {first : Bool} {APx tAPx : Nat}
    (htAPx : tAPx < 128) (h : k ∈ c.callsFrom pg APx0 numbers first APx tAPx) :
    ∃ iOData APx' tAPx', tAPx' < 128 ∧
      c.called pg APx0 APx' tAPx' (triplet iOData) = some k := by
  induction numbers generalizing first APx tAPx with
  | nil => exact absurd h List.not_mem_nil
  | cons iONr numbers ih =>
    rw [Sources.callsFrom] at h
    cases hdata : c.data pg iONr with
    | none =>
      rw [hdata] at h
      exact absurd h List.not_mem_nil
    | some iOData =>
      rw [hdata] at h
      rcases List.mem_append.mp h with h | h
      · exact ⟨iOData, APx, tAPx, htAPx, Option.mem_toList.mp h⟩
      · split_ifs at h
        · exact absurd h List.not_mem_nil
        · exact ih (nextTAPx_lt iOData) h

theorem numberedObject_page {p s packet n : Nat} {high : Bool} {b : Obj}
    (h : c.numberedObject p s packet n high = some b) : b.page = .cached p s ∧ b.iONr < 512 := by
  unfold Sources.numberedObject at h
  by_cases hpacket : packet = 0
  · rw [if_pos hpacket] at h
    cases h
  rw [if_neg hpacket] at h
  cases hp : c.astCachetable p s with
  | none =>
    rw [hp] at h
    cases h
  | some page =>
    rw [hp] at h
    cases hd : deh24 page.pagedata (40 * (packet - 1) + 1 + 3 * n) with
    | none =>
      simp only [hd] at h
      cases h
    | some idata =>
      simp only [hd, Option.ite_none_right_eq_some, Option.some.injEq] at h
      obtain ⟨hle, rfl⟩ := h
      exact ⟨rfl, by dsimp only; omega⟩

theorem namedObject_possible {t : Triplet} {b : Obj} (ht : t.iData < 128)
    (h : c.namedObject pg t = some b) :
    b.iONr < 512 ∧ (b.page = pg ∨
      ∃ s < 16, b.page = .cached c.pop s ∨ b.page = .cached c.gpop s) := by
  unfold Sources.namedObject at h
  by_cases hpop : t.iAddress &&& 0x10 ≠ 0
  · rw [if_pos hpop] at h
    obtain ⟨hpage, hnumber⟩ := numberedObject_page h
    refine ⟨hnumber, .inr ⟨t.iData &&& 0x0f, Nat.lt_of_le_of_lt Nat.and_le_right (by decide), ?_⟩⟩
    split_ifs at hpage
    · exact .inr hpage
    · exact .inl hpage
  · rw [if_neg hpop] at h
    obtain ⟨-, hb⟩ := Option.ite_none_right_eq_some.mp h
    cases hb
    have hdescode : (t.iAddress &&& 0x01) <<< 3 ||| t.iData >>> 4 < 16 := by
      apply Nat.or_lt_two_pow (n := 4)
      · have := Nat.and_le_right (n := t.iAddress) (m := 0x01)
        rw [Nat.shiftLeft_eq]
        omega
      · rw [Nat.shiftRight_eq_div_pow]
        omega
    have htriplet : t.iData &&& 0x0f ≤ 0x0f := Nat.and_le_right
    exact ⟨by dsimp only; omega, .inl rfl⟩

theorem calls_possible (h : c.Possible pg k) (hk : k' ∈ c.calls k) : c.Possible pg k' := by
  obtain ⟨iOData, APx, tAPx, htAPx, hcalled⟩ := mem_callsFrom h.tAPx hk
  unfold Sources.called at hcalled
  split_ifs at hcalled with hmode hcolumn
  obtain ⟨b, hb, rfl⟩ := Option.map_eq_some_iff.mp hcalled
  obtain ⟨hnumber, hpage⟩ := namedObject_possible (triplet_iData_lt iOData) hb
  refine ⟨?_, hnumber, hcolumn, htAPx⟩
  rcases hpage with hpage | hpage
  · rw [hpage]
    exact h.page
  · exact .inr hpage

theorem possible_finite (c : Sources) (pg : PageRef) : {k | c.Possible pg k}.Finite := by
  let pages : Set PageRef := insert pg
    ((fun s => .cached c.pop s) '' Set.Iio 16 ∪ (fun s => .cached c.gpop s) '' Set.Iio 16)
  have hpages : pages.Finite :=
    (((Set.finite_Iio 16).image _).union ((Set.finite_Iio 16).image _)).insert pg
  let types : Set TObjType := {.OBJ_PASSIVE, .OBJ_ACTIVE, .OBJ_ADAPTIVE}
  have htypes : types.Finite := Set.toFinite types
  have hall := (((hpages.prod (Set.finite_Iio 512)).prod htypes).prod
    ((Set.finite_Iio 40).prod (Set.finite_Iio 128))).image
      fun i : ((PageRef × Nat) × TObjType) × Nat × Nat =>
        (⟨⟨i.1.1.1, i.1.1.2, i.1.2⟩, i.2.1, i.2.2⟩ : Invocation)
  refine hall.subset fun k hk => ⟨⟨⟨⟨k.obj.page, k.obj.iONr⟩, k.obj.type⟩, k.APx0, k.tAPx⟩, ?_, rfl⟩
  refine ⟨⟨⟨?_, hk.iONr⟩, ?_⟩, hk.APx0, hk.tAPx⟩
  · rcases hk.page with hpage | ⟨s, hs, hpage | hpage⟩
    · exact .inl hpage
    · exact .inr (.inl ⟨s, hs, hpage.symm⟩)
    · exact .inr (.inr ⟨s, hs, hpage.symm⟩)
  · cases k.obj.type <;> simp [types]

theorem reachable_finite (h : c.Possible pg k) :
    {k' | ReflTransGen (Invokes c.calls) k k'}.Finite := by
  refine (possible_finite c pg).subset fun k' hk' => ?_
  induction hk' with
  | refl => exact h
  | tail _ hcall ih => exact calls_possible ih hcall

end

end Tuxbox.Tuxtxt
