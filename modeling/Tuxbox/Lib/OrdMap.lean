import Mathlib.Data.List.Sort

/-!
# Ordered maps

Finite maps that are walked in ascending key order, as `std::map` is. The
balanced tree behind a `std::map` cannot be seen from outside, so a map is its
list of entries, and the order of the keys is part of the type.
-/

namespace Tuxbox

/-- A finite map as its entries in strictly ascending key order. -/
structure OrdMap (κ υ : Type) [LinearOrder κ] where
  entries : List (κ × υ)
  sorted : entries.Pairwise (fun a b => a.1 < b.1)
  deriving DecidableEq

namespace OrdMap

section
variable {κ υ : Type} [LinearOrder κ]

def empty : OrdMap κ υ := ⟨[], .nil⟩

/-- The value of the first entry with key `k`. -/
def lookup (k : κ) : List (κ × υ) → Option υ
  | [] => none
  | e :: es => if k = e.1 then some e.2 else lookup k es

def find (m : OrdMap κ υ) (k : κ) : Option υ := lookup k m.entries

def contains (m : OrdMap κ υ) (k : κ) : Bool := (m.find k).isSome

def size (m : OrdMap κ υ) : Nat := m.entries.length

def keys (m : OrdMap κ υ) : List κ := m.entries.map Prod.fst

/-- Put `v` under `k` in a sorted entry list, replacing what was there. -/
def putEntry (k : κ) (v : υ) : List (κ × υ) → List (κ × υ)
  | [] => [(k, v)]
  | e :: es =>
    if k < e.1 then (k, v) :: e :: es
    else if k = e.1 then (k, v) :: es
    else e :: putEntry k v es

theorem mem_putEntry {k : κ} {v : υ} {es : List (κ × υ)} {x : κ × υ}
    (h : x ∈ putEntry k v es) : x = (k, v) ∨ x ∈ es := by
  induction es with
  | nil => simpa [putEntry] using h
  | cons e es ih =>
    simp only [putEntry] at h
    split at h
    · exact List.mem_cons.mp h
    · split at h
      · rcases List.mem_cons.mp h with h | h
        · exact Or.inl h
        · exact Or.inr (List.mem_cons_of_mem e h)
      · rcases List.mem_cons.mp h with h | h
        · exact Or.inr (h ▸ List.mem_cons_self)
        · exact (ih h).imp_right (List.mem_cons_of_mem e)

theorem putEntry_sorted (k : κ) (v : υ) {es : List (κ × υ)}
    (hs : es.Pairwise (fun a b => a.1 < b.1)) :
    (putEntry k v es).Pairwise (fun a b => a.1 < b.1) := by
  induction es with
  | nil => simp [putEntry]
  | cons e es ih =>
    obtain ⟨he, hs'⟩ := List.pairwise_cons.mp hs
    simp only [putEntry]
    split
    · rename_i hlt
      refine List.pairwise_cons.mpr ⟨fun x hx => ?_, hs⟩
      rcases List.mem_cons.mp hx with rfl | hx
      · exact hlt
      · exact lt_trans hlt (he x hx)
    · split
      · rename_i heq
        exact List.pairwise_cons.mpr ⟨fun x hx => heq ▸ he x hx, hs'⟩
      · rename_i hlt heq
        refine List.pairwise_cons.mpr ⟨fun x hx => ?_, ih hs'⟩
        rcases mem_putEntry hx with rfl | hx
        · exact lt_of_le_of_ne (not_lt.mp hlt) (Ne.symm heq)
        · exact he x hx

def set (m : OrdMap κ υ) (k : κ) (v : υ) : OrdMap κ υ :=
  ⟨putEntry k v m.entries, putEntry_sorted k v m.sorted⟩

/-- `map::insert`: an existing entry wins. -/
def insertNew (m : OrdMap κ υ) (k : κ) (v : υ) : OrdMap κ υ :=
  if m.contains k then m else m.set k v

def erase (m : OrdMap κ υ) (k : κ) : OrdMap κ υ :=
  ⟨m.entries.filter (fun e => e.1 ≠ k), m.sorted.filter _⟩

/-- Apply `f` to the value under `k`, if there is one. -/
def adjust (m : OrdMap κ υ) (k : κ) (f : υ → υ) : OrdMap κ υ :=
  match m.find k with
  | none => m
  | some v => m.set k (f v)

@[simp] theorem find_empty (k : κ) : (empty : OrdMap κ υ).find k = none := rfl

theorem lookup_putEntry (k : κ) (v : υ) (k' : κ) (es : List (κ × υ)) :
    lookup k' (putEntry k v es) = if k' = k then some v else lookup k' es := by
  induction es with
  | nil => simp [putEntry, lookup]
  | cons e es ih =>
    simp only [putEntry]
    split
    · simp [lookup]
    · split
      · rename_i heq
        by_cases h : k' = k
        · simp [lookup, h]
        · simp [lookup, h, ← heq]
      · rename_i heq
        by_cases h : k' = e.1
        · simp [lookup, h, Ne.symm heq]
        · simp [lookup, h, ih]

@[simp] theorem find_set (m : OrdMap κ υ) (k : κ) (v : υ) (k' : κ) :
    (m.set k v).find k' = if k' = k then some v else m.find k' :=
  lookup_putEntry k v k' m.entries

theorem find_set_self (m : OrdMap κ υ) (k : κ) (v : υ) : (m.set k v).find k = some v := by simp

theorem find_set_ne (m : OrdMap κ υ) {k k' : κ} (v : υ) (h : k' ≠ k) :
    (m.set k v).find k' = m.find k' := by simp [h]

@[simp] theorem find_insertNew (m : OrdMap κ υ) (k : κ) (v : υ) (k' : κ) :
    (m.insertNew k v).find k' = if k' = k then some ((m.find k).getD v) else m.find k' := by
  unfold insertNew contains
  cases h : m.find k with
  | none => simp
  | some u =>
    by_cases hk : k' = k
    · simp [hk, h]
    · simp [hk]

theorem find_eq_some (m : OrdMap κ υ) (k : κ) (v : υ) :
    m.find k = some v ↔ (k, v) ∈ m.entries := by
  obtain ⟨es, hs⟩ := m
  simp only [find]
  induction es with
  | nil => simp [lookup]
  | cons e es ih =>
    obtain ⟨he, hs'⟩ := List.pairwise_cons.mp hs
    obtain ⟨a, b⟩ := e
    by_cases hk : k = a
    · subst hk
      have hn : (k, v) ∉ es := fun hm => lt_irrefl k (he (k, v) hm)
      simp [lookup, hn, eq_comm]
    · simp [lookup, hk, ih hs']

/-- A map is determined by its lookups. -/
theorem ext_find {m m' : OrdMap κ υ} (h : ∀ k, m.find k = m'.find k) : m = m' := by
  have hm : m.entries = m'.entries := by
    have : Std.Irrefl (fun a b : κ × υ => a.1 < b.1) := ⟨fun a => lt_irrefl a.1⟩
    have : Std.Antisymm (fun a b : κ × υ => a.1 < b.1) :=
      ⟨fun a b hab hba => absurd hba (lt_asymm hab)⟩
    apply m.sorted.eq_of_mem_iff m'.sorted
    rintro ⟨k, v⟩
    rw [← find_eq_some, ← find_eq_some, h k]
  obtain ⟨es, hs⟩ := m
  obtain ⟨es', hs'⟩ := m'
  cases hm
  rfl

/-- The last value counts. -/
theorem set_set (m : OrdMap κ υ) (k : κ) (v v' : υ) : (m.set k v).set k v' = m.set k v' := by
  apply ext_find
  intro k'
  by_cases h : k' = k <;> simp [h]

theorem set_eq_self {m : OrdMap κ υ} {k : κ} {v : υ} (h : m.find k = some v) : m.set k v = m := by
  apply ext_find
  intro k'
  by_cases hk : k' = k
  · simp [hk, h]
  · simp [hk]

@[simp] theorem find_erase (m : OrdMap κ υ) (k k' : κ) :
    (m.erase k).find k' = if k' = k then none else m.find k' := by
  apply Option.ext
  intro v
  rw [find_eq_some]
  by_cases h : k' = k
  · simp [erase, h]
  · simp [erase, h, find_eq_some]

@[simp] theorem find_adjust (m : OrdMap κ υ) (k : κ) (f : υ → υ) (k' : κ) :
    (m.adjust k f).find k' = if k' = k then (m.find k).map f else m.find k' := by
  unfold adjust
  cases h : m.find k with
  | none => by_cases hk : k' = k <;> simp [hk, h]
  | some v => by_cases hk : k' = k <;> simp [hk]

theorem putEntry_last {k : κ} {v : υ} {es : List (κ × υ)} (h : ∀ e ∈ es, e.1 < k) :
    putEntry k v es = es ++ [(k, v)] := by
  induction es with
  | nil => rfl
  | cons e es ih =>
    have he : e.1 < k := h e List.mem_cons_self
    rw [putEntry, if_neg (lt_asymm he), if_neg (ne_of_gt he), ih fun x hx =>
      h x (List.mem_cons_of_mem e hx)]
    rfl

/-- A key above all others goes to the end. -/
theorem set_last (m : OrdMap κ υ) {k : κ} (v : υ) (h : ∀ k' ∈ m.keys, k' < k) :
    (m.set k v).entries = m.entries ++ [(k, v)] :=
  putEntry_last fun e he => h e.1 (List.mem_map_of_mem he)

/-- Store the entries one after the other. -/
def ofList (es : List (κ × υ)) : OrdMap κ υ := es.foldl (fun m e => m.set e.1 e.2) empty

theorem find_foldl_set {es : List (κ × υ)} {m : OrdMap κ υ} {k : κ} {v : υ}
    (h : (es.foldl (fun m e => m.set e.1 e.2) m).find k = some v) :
    (k, v) ∈ es ∨ m.find k = some v := by
  induction es generalizing m with
  | nil => exact Or.inr h
  | cons e es ih =>
    rcases ih h with h | h
    · exact Or.inl (List.mem_cons_of_mem e h)
    · rw [find_set] at h
      split at h
      · rename_i hk
        cases h
        exact Or.inl (by simp [hk])
      · exact Or.inr h

theorem find_foldl_set_notMem {es : List (κ × υ)} {m : OrdMap κ υ} {k : κ}
    (h : k ∉ es.map Prod.fst) : (es.foldl (fun m e => m.set e.1 e.2) m).find k = m.find k := by
  induction es generalizing m with
  | nil => rfl
  | cons e es ih =>
    simp only [List.map_cons, List.mem_cons, not_or] at h
    rw [List.foldl_cons, ih h.2, find_set_ne _ _ h.1]

theorem mem_of_find_ofList {es : List (κ × υ)} {k : κ} {v : υ}
    (h : (ofList es).find k = some v) : (k, v) ∈ es := by
  rcases find_foldl_set h with h | h
  · exact h
  · simp at h

/-- With distinct keys nothing is overwritten. -/
theorem find_foldl_set_mem {es : List (κ × υ)} {m : OrdMap κ υ} (hn : (es.map Prod.fst).Nodup)
    {k : κ} {v : υ} (h : (k, v) ∈ es) :
    (es.foldl (fun m e => m.set e.1 e.2) m).find k = some v := by
  induction es generalizing m with
  | nil => simp at h
  | cons e es ih =>
    obtain ⟨he, hn⟩ := List.nodup_cons.mp hn
    rw [List.foldl_cons]
    rcases List.mem_cons.mp h with rfl | h
    · rw [find_foldl_set_notMem he, find_set_self]
    · exact ih hn h

theorem find_ofList_of_mem {es : List (κ × υ)} (hn : (es.map Prod.fst).Nodup) {k : κ} {v : υ}
    (h : (k, v) ∈ es) : (ofList es).find k = some v := find_foldl_set_mem hn h

theorem keys_nodup (m : OrdMap κ υ) : m.keys.Nodup := by
  have h : m.keys.Pairwise (· < ·) := List.pairwise_map.mpr m.sorted
  exact h.imp fun hab => ne_of_lt hab

theorem ofList_entries (m : OrdMap κ υ) : ofList m.entries = m := by
  apply ext_find
  intro k
  apply Option.ext
  intro v
  constructor
  · exact fun h => (m.find_eq_some k v).mpr (mem_of_find_ofList h)
  · exact fun h => find_ofList_of_mem m.keys_nodup ((m.find_eq_some k v).mp h)

theorem foldl_set_self {es : List (κ × υ)} {m : OrdMap κ υ} (h : ∀ e ∈ es, m.find e.1 = some e.2) :
    es.foldl (fun m e => m.set e.1 e.2) m = m := by
  induction es with
  | nil => rfl
  | cons e es ih =>
    rw [List.foldl_cons, set_eq_self (h e List.mem_cons_self)]
    exact ih fun x hx => h x (List.mem_cons_of_mem e hx)

theorem foldl_set_entries (m : OrdMap κ υ) : m.entries.foldl (fun m e => m.set e.1 e.2) m = m :=
  foldl_set_self fun e he => (m.find_eq_some e.1 e.2).mpr he

/-! ## Sums over the values -/

def worth (f : υ → Nat) (v : Option υ) : Nat := (v.map f).getD 0

/-- A sum over the values. -/
def total (f : υ → Nat) (m : OrdMap κ υ) : Nat := m.entries.foldr (fun e n => f e.2 + n) 0

theorem lookup_of_lt {k : κ} {es : List (κ × υ)} (h : ∀ e ∈ es, k < e.1) : lookup k es = none := by
  induction es with
  | nil => rfl
  | cons e es ih =>
    rw [lookup, if_neg (ne_of_lt (h e List.mem_cons_self))]
    exact ih fun x hx => h x (List.mem_cons_of_mem e hx)

theorem total_set (f : υ → Nat) (m : OrdMap κ υ) (k : κ) (v : υ) :
    (m.set k v).total f + worth f (m.find k) = m.total f + f v := by
  obtain ⟨es, hs⟩ := m
  unfold total set find
  induction es with
  | nil => exact Nat.add_comm (f v) 0
  | cons e es ih =>
    obtain ⟨he, hs'⟩ := List.pairwise_cons.mp hs
    have hrest := ih hs'
    simp only [putEntry, lookup]
    split
    · rename_i hlt
      rw [if_neg (ne_of_lt hlt), lookup_of_lt fun x hx => lt_trans hlt (he x hx)]
      simp only [List.foldr_cons, worth, Option.map_none, Option.getD_none]
      omega
    · split
      · simp only [List.foldr_cons, worth, Option.map_some, Option.getD_some]
        omega
      · simp only [List.foldr_cons] at hrest ⊢
        omega

/-- A new key makes the map larger by one. -/
theorem size_set (m : OrdMap κ υ) (k : κ) (v : υ) :
    (m.set k v).size = if m.contains k then m.size else m.size + 1 := by
  have hsize (n : OrdMap κ υ) : n.total (fun _ => 1) = n.size := by
    unfold total size
    induction n.entries with
    | nil => rfl
    | cons e es ih => rw [List.foldr_cons, ih, List.length_cons, Nat.add_comm]
  have htotal := total_set (fun _ => 1) m k v
  rw [hsize, hsize] at htotal
  unfold contains
  cases hk : m.find k <;> simp [hk, worth] at htotal ⊢ <;> omega

theorem total_erase (f : υ → Nat) (m : OrdMap κ υ) (k : κ) :
    (m.erase k).total f + worth f (m.find k) = m.total f := by
  obtain ⟨es, hs⟩ := m
  unfold total erase find
  induction es with
  | nil => rfl
  | cons e es ih =>
    obtain ⟨he, hs'⟩ := List.pairwise_cons.mp hs
    have hrest := ih hs'
    simp only [lookup]
    split
    · rename_i heq
      have hother : es.filter (fun x => decide (x.1 ≠ k)) = es :=
        List.filter_eq_self.mpr fun x hx => by
          have := he x hx
          simp [heq, ne_of_gt this]
      rw [List.filter_cons_of_neg (by simp [heq]), hother]
      simp only [List.foldr_cons, worth, Option.map_some, Option.getD_some]
      omega
    · rename_i hne
      rw [List.filter_cons_of_pos (by simp [Ne.symm hne])]
      simp only [List.foldr_cons] at hrest ⊢
      omega

end

end OrdMap
end Tuxbox
