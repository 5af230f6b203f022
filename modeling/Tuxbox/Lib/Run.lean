import Mathlib.Logic.Basic

/-!
# Runs

A component is a partial step function: `step s a = none` says that from `s`
the call `a` does not return. `Runs step ok s t` says that `t` is reached from
`s` by calls that each meet the condition `ok` in the state they are made in.
-/

namespace Tuxbox

section
variable {σ α : Type} {step : σ → α → Option σ} {ok ok' : σ → α → Prop}

inductive Runs (step : σ → α → Option σ) (ok : σ → α → Prop) (s : σ) : σ → Prop
  | refl : Runs step ok s s
  | tail {t u : σ} (a : α) : Runs step ok s t → ok t a → step t a = some u → Runs step ok s u

/-- What every permitted step keeps, every run keeps. -/
theorem Runs.invariant {I : σ → Prop}
    (keep : ∀ s a t, I s → ok s a → step s a = some t → I t) {s t : σ}
    (h : Runs step ok s t) (hs : I s) : I t := by
  induction h with
  | refl => exact hs
  | tail a _ hok hstep ih => exact keep _ a _ ih hok hstep

/-- Runs are joined. -/
theorem Runs.trans {s t u : σ} (h : Runs step ok s t) (h' : Runs step ok t u) :
    Runs step ok s u := by
  induction h' with
  | refl => exact h
  | tail a _ hok hstep ih => exact .tail a ih hok hstep

/-- Calls one after the other; the run ends at the first that does not return. -/
def runList (step : σ → α → Option σ) : σ → List α → Option σ
  | s, [] => some s
  | s, a :: as =>
    match step s a with
    | none => none
    | some t => runList step t as

theorem runList_cons {s t : σ} {a : α} {as : List α} (h : runList step s (a :: as) = some t) :
    ∃ u, step s a = some u ∧ runList step u as = some t := by
  simp only [runList] at h
  cases hs : step s a with
  | none => simp [hs] at h
  | some u =>
    rw [hs] at h
    exact ⟨u, rfl, h⟩

/-- A list of calls as a run. -/
theorem Runs.ofList {s t : σ} {as : List α} (hok : ∀ s, ∀ a ∈ as, ok s a)
    (h : runList step s as = some t) : Runs step ok s t := by
  induction as generalizing s with
  | nil => cases h; exact .refl
  | cons a as ih =>
    obtain ⟨u, hs, h⟩ := runList_cons h
    have hrest := ih (fun s b hb => hok s b (List.mem_cons_of_mem a hb)) h
    exact (Runs.refl.tail a (hok s a List.mem_cons_self) hs).trans hrest

/-- The same, with a first call that is permitted in the first state. -/
theorem Runs.ofList_cons {s t : σ} {a : α} {as : List α} (hs : ok s a) (hok : ∀ s, ∀ b ∈ as, ok s b)
    (h : runList step s (a :: as) = some t) : Runs step ok s t := by
  obtain ⟨u, hu, h⟩ := runList_cons h
  exact (Runs.refl.tail a hs hu).trans (Runs.ofList hok h)

/-- Every call returns, and every state on the way has the property. -/
def Keeps (step : σ → α → Option σ) (P : σ → Prop) : σ → List α → Prop
  | s, [] => P s
  | s, a :: as => P s ∧ ∃ t, step s a = some t ∧ Keeps step P t as

/-- Every call meets the condition in the state it is made in. -/
def Permits (step : σ → α → Option σ) (ok : σ → α → Prop) : σ → List α → Prop
  | _, [] => True
  | s, a :: as => ok s a ∧ ∀ t, step s a = some t → Permits step ok t as

def decidePermits {ok : σ → α → Prop} [∀ s a, Decidable (ok s a)] :
    ∀ s as, Decidable (Permits step ok s as)
  | _, [] => isTrue trivial
  | s, a :: as =>
    match h : step s a with
    | none => decidable_of_iff (ok s a) <| by simp [Permits, h]
    | some t =>
      haveI := @decidePermits ok _ t as
      decidable_of_iff (ok s a ∧ Permits step ok t as) <| by simp [Permits, h]

instance {ok : σ → α → Prop} [∀ s a, Decidable (ok s a)] (s : σ) (as : List α) :
    Decidable (Permits step ok s as) := decidePermits s as

theorem Keeps.head {P : σ → Prop} {s : σ} {as : List α} (h : Keeps step P s as) : P s := by
  cases as with
  | nil => exact h
  | cons a as => exact h.1

theorem Keeps.run {P : σ → Prop} {s t : σ} {as : List α} (h : Keeps step P s as)
    (ht : runList step s as = some t) : P t := by
  induction as generalizing s with
  | nil => exact Option.some_inj.mp ht ▸ h
  | cons a as ih =>
    obtain ⟨-, u, hu, h⟩ := h
    rw [runList, hu] at ht
    exact ih h ht

/-- Calls that return, and keep an invariant the property follows from. -/
theorem keeps_of_invariant {I P : σ → Prop} {ok : α → Prop}
    (hstep : ∀ s a, I s → ok a → ∃ t, step s a = some t ∧ I t) (hP : ∀ s, I s → P s) {s : σ}
    (hs : I s) {as : List α} (hok : ∀ a ∈ as, ok a) : Keeps step P s as := by
  induction as generalizing s with
  | nil => exact hP s hs
  | cons a as ih =>
    obtain ⟨t, ht, hI⟩ := hstep s a hs (hok a List.mem_cons_self)
    exact ⟨hP s hs, t, ht, ih hI fun b hb => hok b (List.mem_cons_of_mem a hb)⟩

/-- For calls of a domain, of which each keeps `I`. -/
theorem keeps_iff_permits_within {I P : σ → Prop} {dom : α → Prop}
    (hinv : ∀ s a t, I s → P s → dom a → step s a = some t → I t)
    (hstep : ∀ s a, I s → P s → dom a → ((∃ t, step s a = some t ∧ P t) ↔ ok s a)) {s : σ}
    (hI : I s) (hs : P s) {as : List α} (hdom : ∀ a ∈ as, dom a) :
    Keeps step P s as ↔ Permits step ok s as := by
  induction as generalizing s with
  | nil => exact iff_of_true hs trivial
  | cons a as ih =>
    have ha := hdom a List.mem_cons_self
    have hrest := fun b hb => hdom b (List.mem_cons_of_mem a hb)
    constructor
    · rintro ⟨-, t, ht, h⟩
      apply And.intro ((hstep s a hI hs ha).mp ⟨t, ht, h.head⟩)
      intro u hu
      obtain rfl := Option.some_inj.mp (ht.symm.trans hu)
      exact (ih (hinv s a t hI hs ha ht) h.head hrest).mp h
    · rintro ⟨hok, h⟩
      obtain ⟨t, ht, hP⟩ := (hstep s a hI hs ha).mpr hok
      exact ⟨hs, t, ht, (ih (hinv s a t hI hs ha ht) hP hrest).mpr (h t ht)⟩

/-- `I` is kept by every step, whether the condition is met or not. -/
theorem keeps_iff_permits {I P : σ → Prop} (hinv : ∀ s a t, I s → step s a = some t → I t)
    (hstep : ∀ s a, I s → P s → ((∃ t, step s a = some t ∧ P t) ↔ ok s a)) {s : σ} (hI : I s)
    (hs : P s) (as : List α) : Keeps step P s as ↔ Permits step ok s as :=
  keeps_iff_permits_within (fun s a t h _ _ => hinv s a t h) (fun s a h h' _ => hstep s a h h')
    hI hs fun _ _ => trivial

/-- For steps that always return. -/
theorem keeps_iff_permits_total {I P : σ → Prop} {f : σ → α → σ} (hinv : ∀ s a, I s → I (f s a))
    (hstep : ∀ s a, I s → P s → (P (f s a) ↔ ok s a)) {s : σ} (hI : I s) (hs : P s)
    (as : List α) :
    Keeps (fun s a => some (f s a)) P s as ↔ Permits (fun s a => some (f s a)) ok s as := by
  apply keeps_iff_permits _ _ hI hs
  · intro s a t hI ht
    exact Option.some_inj.mp ht ▸ hinv s a hI
  · intro s a hI hs
    rw [← hstep s a hI hs]
    constructor
    · rintro ⟨t, ht, hP⟩
      exact Option.some_inj.mp ht ▸ hP
    · exact fun hP => ⟨f s a, rfl, hP⟩

/-- Every state on the way has the property; the run ends at the first call that
does not return. -/
def Sustains (step : σ → α → Option σ) (P : σ → Prop) : σ → List α → Prop
  | s, [] => P s
  | s, a :: as => P s ∧ ∀ t, step s a = some t → Sustains step P t as

/-- Every call that returns meets the condition in the state it is made in. -/
def Admits (step : σ → α → Option σ) (ok : σ → α → Prop) : σ → List α → Prop
  | _, [] => True
  | s, a :: as => ∀ t, step s a = some t → ok s a ∧ Admits step ok t as

def decideAdmits [∀ s a, Decidable (ok s a)] : ∀ s as, Decidable (Admits step ok s as)
  | _, [] => isTrue trivial
  | s, a :: as =>
    match h : step s a with
    | none => isTrue fun t ht => nomatch h.symm.trans ht
    | some t =>
      haveI := decideAdmits t as
      decidable_of_iff (ok s a ∧ Admits step ok t as) <| by simp [Admits, h]

instance [∀ s a, Decidable (ok s a)] (s : σ) (as : List α) : Decidable (Admits step ok s as) :=
  decideAdmits s as

def decideSustains {P : σ → Prop} [DecidablePred P] : ∀ s as, Decidable (Sustains step P s as)
  | s, [] => inferInstanceAs (Decidable (P s))
  | s, a :: as =>
    match h : step s a with
    | none => decidable_of_iff (P s) <| by simp [Sustains, h]
    | some t =>
      haveI := @decideSustains P _ t as
      decidable_of_iff (P s ∧ Sustains step P t as) <| by simp [Sustains, h]

instance {P : σ → Prop} [DecidablePred P] (s : σ) (as : List α) :
    Decidable (Sustains step P s as) := decideSustains s as

theorem Sustains.head {P : σ → Prop} {s : σ} {as : List α} (h : Sustains step P s as) : P s := by
  cases as with
  | nil => exact h
  | cons a as => exact h.1

theorem Sustains.run {P : σ → Prop} {s t : σ} {as : List α} (h : Sustains step P s as)
    (ht : runList step s as = some t) : P t := by
  induction as generalizing s with
  | nil => exact Option.some_inj.mp ht ▸ h
  | cons a as ih =>
    obtain ⟨u, hs, ht⟩ := runList_cons ht
    exact ih (h.2 u hs) ht

theorem Sustains.mono {P Q : σ → Prop} {s : σ} {as : List α} (h : Sustains step P s as)
    (himp : ∀ s, P s → Q s) : Sustains step Q s as := by
  induction as generalizing s with
  | nil => exact himp s h
  | cons a as ih => exact ⟨himp s h.1, fun t ht => ih (h.2 t ht)⟩

theorem admits_of_forall (hok : ∀ s a, ok s a) (s : σ) (as : List α) : Admits step ok s as := by
  induction as generalizing s with
  | nil => trivial
  | cons a as ih => exact fun t _ => ⟨hok s a, ih t⟩

/-- Of two lists of calls, the first and what follows it. -/
theorem Admits.append {s : σ} {as bs : List α} (h : Admits step ok s (as ++ bs)) :
    Admits step ok s as ∧ ∀ t, runList step s as = some t → Admits step ok t bs := by
  induction as generalizing s with
  | nil => exact ⟨trivial, fun t ht => Option.some_inj.mp ht ▸ h⟩
  | cons a as ih =>
    refine ⟨fun t ht => ⟨(h t ht).1, (ih (h t ht).2).1⟩, fun t ht => ?_⟩
    obtain ⟨u, hs, ht⟩ := runList_cons ht
    exact (ih (h u hs).2).2 t ht

theorem Runs.ofAdmits {s t : σ} {as : List α} (hok : Admits step ok s as)
    (h : runList step s as = some t) : Runs step ok s t := by
  induction as generalizing s with
  | nil => cases h; exact .refl
  | cons a as ih =>
    obtain ⟨u, hs, h⟩ := runList_cons h
    obtain ⟨hfirst, hrest⟩ := hok u hs
    exact (Runs.refl.tail a hfirst hs).trans (ih hrest h)

/-- What every step that meets the condition keeps. -/
theorem Admits.sustains {P : σ → Prop} {s : σ} {as : List α} (h : Admits step ok s as)
    (keep : ∀ s a t, P s → ok s a → step s a = some t → P t) (hs : P s) :
    Sustains step P s as := by
  induction as generalizing s with
  | nil => exact hs
  | cons a as ih =>
    apply And.intro hs
    intro t ht
    obtain ⟨hok, h⟩ := h t ht
    exact ih h (keep s a t hs hok ht)

/-- The same as `keeps_iff_permits`, for steps that may not return. -/
theorem sustains_iff_admits {I P : σ → Prop} (hinv : ∀ s a t, I s → step s a = some t → I t)
    (hstep : ∀ s a t, I s → P s → step s a = some t → (P t ↔ ok s a)) {s : σ} (hI : I s)
    (hs : P s) (as : List α) : Sustains step P s as ↔ Admits step ok s as := by
  induction as generalizing s with
  | nil => exact iff_of_true hs trivial
  | cons a as ih =>
    constructor
    · rintro ⟨-, h⟩ t ht
      have hP := (h t ht).head
      exact ⟨(hstep s a t hI hs ht).mp hP, (ih (hinv s a t hI ht) hP).mp (h t ht)⟩
    · intro h
      apply And.intro hs
      intro t ht
      obtain ⟨hok, h⟩ := h t ht
      have hP := (hstep s a t hI hs ht).mpr hok
      exact (ih (hinv s a t hI ht) hP).mpr h

/-- Elements that do nothing, before and after the only one that acts. -/
theorem foldl_of_only {f : σ → α → σ} {l : List α} {s : σ} {a : α} (ha : a ∈ l) (hl : l.Nodup)
    (before : ∀ b, b ≠ a → f s b = s) (after : ∀ b, b ≠ a → f (f s a) b = f s a) :
    l.foldl f s = f s a := by
  have idle : ∀ (t : σ) (r : List α), (∀ b ∈ r, f t b = t) → r.foldl f t = t := by
    intro t r hr
    induction r with
    | nil => rfl
    | cons b r ih =>
      rw [List.foldl_cons, hr b List.mem_cons_self]
      exact ih fun c hc => hr c (List.mem_cons_of_mem b hc)
  obtain ⟨l₁, l₂, rfl⟩ := List.append_of_mem ha
  obtain ⟨-, htail, happ⟩ := List.nodup_append.mp hl
  have hne₁ : ∀ b ∈ l₁, b ≠ a := fun b hb => happ b hb a List.mem_cons_self
  have hne₂ : ∀ b ∈ l₂, b ≠ a := by
    rintro b hb rfl
    exact (List.nodup_cons.mp htail).1 hb
  rw [List.foldl_append, idle s l₁ fun b hb => before b (hne₁ b hb), List.foldl_cons]
  exact idle (f s a) l₂ fun b hb => after b (hne₂ b hb)

end

end Tuxbox
