import Tuxbox.Sectionsd.Index

/-! What `addEvent` does with the events that overlap the new one. It walks back
from the new event through the stored ones and ends at the first that is over
when the new one starts; what it does not reach is neither deleted nor does it
keep the new event out.

Main results: `noOverlaps_iff`, `keepsPriority_iff`. -/
namespace Tuxbox.Sectionsd

/-! ## One event of the walk -/

def SIevent.Overlaps (a b : SIevent) : Prop :=
  a.first.startzeit < b.first.ende ∧ b.first.startzeit < a.first.ende

/-- The walk ends at `old`. -/
def Stops (e old : SIevent) : Prop :=
  old.channelId ≠ e.channelId ∨
    (old.uniqueKey ≠ e.uniqueKey ∧ old.first.startzeit < e.first.ende ∧
      old.first.ende ≤ e.first.startzeit)

/-- `old` is kept instead of `e`. -/
def Overrules (e old : SIevent) : Prop :=
  old.tableId < e.tableId ∧ (old.uniqueKey = e.uniqueKey ∨ old.Overlaps e)

/-- Two present or following events with one start time are both kept. -/
def Exempt (e old : SIevent) : Prop :=
  old.tableId = e.tableId ∧ e.tableId &&& 0xFE = 0x4e ∧ old.first.startzeit = e.first.startzeit

def Displaced (e old : SIevent) : Prop :=
  old.uniqueKey ≠ e.uniqueKey ∧ old.Overlaps e ∧ ¬ Exempt e old

/-- The walk over `xs` comes to `x` and does not end there. -/
def Reaches (heap : Nat → SIevent) (e : SIevent) (xs : List Nat) (x : Nat) : Prop :=
  ∃ passed rest, xs = passed ++ x :: rest ∧ ∀ z ∈ passed ++ [x], ¬ Stops e (heap z)

section
variable {heap : Nat → SIevent} {e : SIevent}

theorem reaches_nil (x : Nat) : ¬ Reaches heap e [] x := by
  rintro ⟨passed, rest, heq, -⟩
  cases passed <;> cases heq

theorem reaches_cons (y x : Nat) (ys : List Nat) :
    Reaches heap e (y :: ys) x ↔ ¬ Stops e (heap y) ∧ (x = y ∨ Reaches heap e ys x) := by
  constructor
  · rintro ⟨passed, rest, heq, hgo⟩
    cases passed with
    | nil =>
      obtain ⟨rfl, rfl⟩ := List.cons.inj heq
      exact ⟨hgo y (by simp), .inl rfl⟩
    | cons z passed =>
      obtain ⟨rfl, rfl⟩ := List.cons.inj heq
      refine ⟨hgo y (by simp), .inr ⟨passed, rest, rfl, fun w hw => hgo w ?_⟩⟩
      simp only [List.cons_append, List.mem_cons]
      exact .inr hw
  · rintro ⟨hy, rfl | ⟨passed, rest, rfl, hgo⟩⟩
    · exact ⟨[], ys, rfl, by simpa using hy⟩
    · refine ⟨y :: passed, rest, rfl, fun w hw => ?_⟩
      simp only [List.cons_append, List.mem_cons] at hw
      rcases hw with rfl | hw
      · exact hy
      · exact hgo w hw

theorem Reaches.mem {xs : List Nat} {x : Nat} (h : Reaches heap e xs x) : x ∈ xs := by
  obtain ⟨passed, rest, rfl, -⟩ := h
  simp

instance (e old : SIevent) : Decidable (old.Overlaps e) := inferInstanceAs (Decidable (_ ∧ _))

instance (e old : SIevent) : Decidable (Stops e old) := inferInstanceAs (Decidable (_ ∨ _))

instance (e old : SIevent) : Decidable (Overrules e old) := inferInstanceAs (Decidable (_ ∧ _))

instance (e old : SIevent) : Decidable (Exempt e old) := inferInstanceAs (Decidable (_ ∧ _))

instance (e old : SIevent) : Decidable (Displaced e old) := inferInstanceAs (Decidable (_ ∧ _))

/-- One round of the walk: it ends, gives up the new event, or goes on with the
stored one to be deleted or not. -/
theorem overlaps_cons (x : Nat) (xs toDelete : List Nat) :
    Store.overlaps heap e (x :: xs) toDelete =
      if Stops e (heap x) then some toDelete
      else if Overrules e (heap x) then none
      else if Displaced e (heap x) then
        Store.overlaps heap e xs (toDelete ++ [(heap x).uniqueKey])
      else Store.overlaps heap e xs toDelete := by
  simp only [Store.overlaps]
  by_cases hchannel : (heap x).channelId = e.channelId
  · rw [if_neg (not_not.mpr hchannel)]
    by_cases hkey : (heap x).uniqueKey = e.uniqueKey
    · have hstop : ¬ Stops e (heap x) := by
        rintro (hne | ⟨hne, -⟩)
        · exact hne hchannel
        · exact hne hkey
      have hdis : ¬ Displaced e (heap x) := fun h => h.1 hkey
      rw [if_pos hkey, if_neg hstop, if_neg hdis]
      by_cases htable : (heap x).tableId ≥ e.tableId
      · rw [if_pos htable, if_neg fun h => absurd h.1 (Nat.not_lt.mpr htable)]
      · rw [if_neg htable, if_pos ⟨Nat.lt_of_not_le htable, .inl hkey⟩]
    · rw [if_neg hkey]
      by_cases hstart : (heap x).first.startzeit ≥ e.first.ende
      · -- it starts when the new one is over
        have hlater : ¬ (heap x).first.startzeit < e.first.ende := not_lt.mpr hstart
        have hstop : ¬ Stops e (heap x) := by
          rintro (hne | ⟨-, hlt, -⟩)
          · exact hne hchannel
          · exact hlater hlt
        have hover : ¬ Overrules e (heap x) := by
          rintro ⟨-, heq | hoverlap⟩
          · exact hkey heq
          · exact hlater hoverlap.1
        rw [if_pos hstart, if_neg hstop, if_neg hover, if_neg fun h => hlater h.2.1.1]
      · have hlt : (heap x).first.startzeit < e.first.ende := not_le.mp hstart
        rw [if_neg hstart]
        by_cases hend : (heap x).first.ende ≤ e.first.startzeit
        · rw [if_pos hend, if_pos (.inr ⟨hkey, hlt, hend⟩)]
        · have hoverlap : (heap x).Overlaps e := ⟨hlt, not_le.mp hend⟩
          have hstop : ¬ Stops e (heap x) := by
            rintro (hne | ⟨-, -, hle⟩)
            · exact hne hchannel
            · exact hend hle
          rw [if_neg hend, if_neg hstop]
          by_cases htable : (heap x).tableId < e.tableId
          · rw [if_pos htable, if_pos ⟨htable, .inr hoverlap⟩]
          · have hover : ¬ Overrules e (heap x) := fun h => htable h.1
            rw [if_neg htable, if_neg hover]
            by_cases hex : (heap x).tableId = e.tableId ∧ e.tableId &&& 0xFE = 0x4e ∧
                (heap x).first.startzeit = e.first.startzeit
            · have hdis : ¬ Displaced e (heap x) := fun h => h.2.2 hex
              rw [if_pos hex, if_neg hdis]
            · have hdis : Displaced e (heap x) := ⟨hkey, hoverlap, hex⟩
              rw [if_neg hex, if_pos hdis]
  · rw [if_pos hchannel, if_pos (.inl hchannel)]

theorem overlaps_none_iff {xs toDelete : List Nat} :
    Store.overlaps heap e xs toDelete = none ↔ ∃ x, Reaches heap e xs x ∧ Overrules e (heap x) := by
  induction xs generalizing toDelete with
  | nil =>
    simp only [Store.overlaps, reduceCtorEq, false_iff]
    rintro ⟨x, hx, -⟩
    exact reaches_nil x hx
  | cons y ys ih =>
    rw [overlaps_cons]
    by_cases hstop : Stops e (heap y)
    · simp [reaches_cons, hstop]
    · by_cases hover : Overrules e (heap y)
      · simp only [hstop, hover, if_true, if_false, true_iff]
        exact ⟨y, (reaches_cons y y ys).mpr ⟨hstop, .inl rfl⟩, hover⟩
      · have hsame : (∃ x, Reaches heap e (y :: ys) x ∧ Overrules e (heap x)) ↔
            ∃ x, Reaches heap e ys x ∧ Overrules e (heap x) := by
          constructor
          · rintro ⟨x, hx, hox⟩
            rcases (reaches_cons y x ys).mp hx with ⟨-, rfl | hx⟩
            · exact absurd hox hover
            · exact ⟨x, hx, hox⟩
          · rintro ⟨x, hx, hox⟩
            exact ⟨x, (reaches_cons y x ys).mpr ⟨hstop, .inr hx⟩, hox⟩
        rw [hsame]
        simp only [hstop, hover, if_false]
        split <;> exact ih

/-- What is deleted is what the walk reaches and the new event displaces. -/
theorem overlaps_some {xs toDelete keys : List Nat}
    (h : Store.overlaps heap e xs toDelete = some keys) (k : Nat) :
    k ∈ keys ↔ k ∈ toDelete ∨
      ∃ x, Reaches heap e xs x ∧ Displaced e (heap x) ∧ (heap x).uniqueKey = k := by
  induction xs generalizing toDelete with
  | nil =>
    cases h
    simp [reaches_nil]
  | cons y ys ih =>
    rw [overlaps_cons] at h
    split at h
    · rename_i hstop
      cases h
      simp [reaches_cons, hstop]
    rename_i hstop
    split at h
    · cases h
    split at h <;> rename_i hdis <;> rw [ih h] <;> simp only [reaches_cons]
    · simp only [List.mem_append, List.mem_singleton, or_assoc]
      apply or_congr_right
      constructor
      · rintro (rfl | ⟨x, hx, hd, hk⟩)
        · exact ⟨y, ⟨hstop, .inl rfl⟩, hdis, rfl⟩
        · exact ⟨x, ⟨hstop, .inr hx⟩, hd, hk⟩
      · rintro ⟨x, ⟨-, rfl | hx⟩, hd, hk⟩
        · exact .inl hk.symm
        · exact .inr ⟨x, hx, hd, hk⟩
    · apply or_congr_right
      constructor
      · rintro ⟨x, hx, hd, hk⟩
        exact ⟨x, ⟨hstop, .inr hx⟩, hd, hk⟩
      · rintro ⟨x, ⟨-, rfl | hx⟩, hd, hk⟩
        · exact absurd hd hdis
        · exact ⟨x, hx, hd, hk⟩

end

/-! ## One call -/

namespace Store

/-- The event under a key. -/
def event (s : Store) (k : Nat) : Option SIevent := (s.orderUniqueKey.find k).map s.heap

/-- The walk of `addEvent` for `e` comes to the object `x`. -/
def Reached (s : Store) (e : SIevent) (x : Nat) : Prop := Reaches s.heap e (s.notBehind e) x

/-- Some event that the walk reaches is kept instead of `e`. -/
def Overruled (s : Store) (e : SIevent) : Prop := ∃ x, s.Reached e x ∧ Overrules e (s.heap x)

section
variable {s : Store}

theorem deleteEvent_heap (s : Store) (k : Nat) : (s.deleteEvent k).heap = s.heap := by
  unfold deleteEvent
  split
  · rfl
  · exact (takeOut_same _).1

theorem deleteEvent_event (s : Store) (k k' : Nat) :
    (s.deleteEvent k).event k' = if k' = k then none else s.event k' := by
  unfold event
  rw [deleteEvent_find, deleteEvent_heap]
  split <;> rfl

theorem deleteAll_event (s : Store) (keys : List Nat) (k : Nat) :
    (keys.foldl deleteEvent s).event k = if k ∈ keys then none else s.event k := by
  induction keys generalizing s with
  | nil => simp
  | cons k' ks ih =>
    rw [List.foldl_cons, ih, deleteEvent_event]
    by_cases h1 : k ∈ ks
    · simp [h1]
    · by_cases h2 : k = k' <;> simp [h1, h2]

theorem stripped_frame (env : Env) (zeit : Int) (evt : SIevent) :
    ∃ texts, stripped env zeit evt = { evt with langExtendedText := texts } := by
  unfold stripped
  split
  · exact ⟨_, rfl⟩
  · exact ⟨_, rfl⟩

theorem cleared_none_iff (env : Env) (zeit : Int) (evt : SIevent) :
    s.cleared env (stripped env zeit evt) = none ↔ s.Overruled evt := by
  obtain ⟨texts, heq⟩ := stripped_frame env zeit evt
  rw [heq]
  have hiff : Store.overlaps s.heap { evt with langExtendedText := texts }
      (s.notBehind { evt with langExtendedText := texts }) [] = none ↔ _ := overlaps_none_iff
  unfold cleared
  split
  · rename_i hnone
    exact ⟨fun _ => hiff.mp hnone, fun _ => rfl⟩
  · rename_i hsome
    simp only [reduceCtorEq, false_iff]
    intro hover
    rw [hiff.mpr hover] at hsome
    cases hsome

/-- What is left of the stored events when there is no limit to their number. -/
theorem cleared_event {env : Env} (hmax : env.maxEvents = 0) {zeit : Int} {evt : SIevent} {t : Store}
    (h : s.cleared env (stripped env zeit evt) = some t) (k : Nat) :
    ((k = evt.uniqueKey ∨ ∃ x, s.Reached evt x ∧ Displaced evt (s.heap x) ∧
        (s.heap x).uniqueKey = k) → t.event k = none) ∧
    (¬ (k = evt.uniqueKey ∨ ∃ x, s.Reached evt x ∧ Displaced evt (s.heap x) ∧
        (s.heap x).uniqueKey = k) → t.event k = s.event k) := by
  obtain ⟨texts, heq⟩ := stripped_frame env zeit evt
  rw [heq] at h
  unfold cleared at h
  cases hw : overlaps s.heap { evt with langExtendedText := texts }
      (s.notBehind { evt with langExtendedText := texts }) [] with
  | none =>
    rw [hw] at h
    cases h
  | some keys =>
    rw [hw] at h
    have hkeys := overlaps_some hw k
    simp only [List.not_mem_nil, false_or] at hkeys
    have hroom (u : Store) : u.makeRoom env = u := by simp [makeRoom, isFull, hmax]
    simp only [hroom, Option.some.injEq] at h
    subst h
    simp only [deleteEvent_event, deleteAll_event, List.mem_reverse]
    have hsame : k ∈ keys ↔ ∃ x, s.Reached evt x ∧ Displaced evt (s.heap x) ∧
        (s.heap x).uniqueKey = k := hkeys
    have hkey : ({ evt with langExtendedText := texts } : SIevent).uniqueKey = evt.uniqueKey := rfl
    simp only [hkey]
    constructor
    · rintro (rfl | hd)
      · rw [if_pos rfl]
      · split
        · rfl
        · rw [if_pos (hsame.mpr hd)]
    · intro hnot
      rw [not_or] at hnot
      rw [if_neg hnot.1, if_neg fun hmem => hnot.2 (hsame.mp hmem)]

theorem insertEvent_frame (s : Store) (e : SIevent) :
    (s.insertEvent e).heap = (fun p => if p = s.next then e else s.heap p) ∧
      (s.insertEvent e).orderUniqueKey = s.orderUniqueKey.insertNew e.uniqueKey s.next := by
  unfold insertEvent
  dsimp only
  split <;> exact ⟨rfl, rfl⟩

theorem insertEvent_event_self {e : SIevent} (h : s.orderUniqueKey.find e.uniqueKey = none) :
    (s.insertEvent e).event e.uniqueKey = some e := by
  have hframe := s.insertEvent_frame e
  rw [event, hframe.1, hframe.2, OrdMap.find_insertNew]
  simp [h]

theorem insertEvent_event_ne {e : SIevent} {k : Nat}
    (hnext : ∀ o, s.orderUniqueKey.find k = some o → o < s.next) (hk : k ≠ e.uniqueKey) :
    (s.insertEvent e).event k = s.event k := by
  have hframe := s.insertEvent_frame e
  rw [event, event, hframe.1, hframe.2, OrdMap.find_insertNew, if_neg hk]
  cases hf : s.orderUniqueKey.find k with
  | none => rfl
  | some o =>
    have hlt := hnext o hf
    simp [Nat.ne_of_lt hlt]

end
end Store

/-! ## Calls -/

/-- A call of `addEvent`. -/
structure AddCall where
  env : Env
  evt : SIevent
  zeit : Int
  cn : Bool

namespace AddCall
open Store

def run (s : Store) (c : AddCall) : Store := s.addEvent c.env c.evt c.zeit c.cn

/-- The event becomes a new entry: it is not filtered out, it does not only bring
the texts of a stored one up to date, and no stored one overrules it. -/
def Inserts (s : Store) (c : AddCall) : Prop :=
  epgRejected c.env c.evt = false ∧ s.refreshed c.env c.evt = none ∧ ¬ s.Overruled c.evt

end AddCall

/-- Events that differ in their texts at most. -/
def TextsOnly (a b : SIevent) : Prop :=
  ∃ name text extended description item content user, b =
    { a with
      langName := name, langText := text, langExtendedText := extended
      itemDescription := description, item := item
      contentClassification := content, userClassification := user }

theorem TextsOnly.refl (a : SIevent) : TextsOnly a a := ⟨_, _, _, _, _, _, _, rfl⟩

theorem TextsOnly.fields {a b : SIevent} (h : TextsOnly a b) :
    b.tableId = a.tableId ∧ b.times = a.times ∧ b.channelId = a.channelId ∧ b.first = a.first ∧
      b.timed = a.timed := by
  obtain ⟨_, _, _, _, _, _, _, rfl⟩ := h
  exact ⟨rfl, rfl, rfl, rfl, rfl⟩

namespace Store

section
variable {s : Store}

theorem updateCN_same (s : Store) (env : Env) (evt : SIevent) :
    (s.updateCN env evt).heap = s.heap ∧ (s.updateCN env evt).orderUniqueKey = s.orderUniqueKey ∧
      (s.updateCN env evt).startSet = s.startSet ∧ (s.updateCN env evt).next = s.next := by
  obtain ⟨current, next, got, heq⟩ := updateCN_eq s env evt
  rw [heq]
  exact ⟨rfl, rfl, rfl, rfl⟩

/-- The store the rest of the call works on. -/
def beforeSearch (s : Store) (c : AddCall) : Store := if c.cn then s.updateCN c.env c.evt else s

theorem beforeSearch_same (s : Store) (c : AddCall) :
    (s.beforeSearch c).heap = s.heap ∧ (s.beforeSearch c).orderUniqueKey = s.orderUniqueKey ∧
      (s.beforeSearch c).startSet = s.startSet ∧ (s.beforeSearch c).next = s.next := by
  unfold beforeSearch
  split
  · exact updateCN_same s c.env c.evt
  · exact ⟨rfl, rfl, rfl, rfl⟩

theorem beforeSearch_event (s : Store) (c : AddCall) (k : Nat) :
    (s.beforeSearch c).event k = s.event k := by
  obtain ⟨hheap, hmap, -, -⟩ := beforeSearch_same s c
  rw [event, event, hheap, hmap]

theorem beforeSearch_reached (s : Store) (c : AddCall) (e : SIevent) (x : Nat) :
    (s.beforeSearch c).Reached e x ↔ s.Reached e x := by
  obtain ⟨hheap, -, hset, -⟩ := beforeSearch_same s c
  rw [Reached, Reached, notBehind, notBehind, hheap, hset]

theorem beforeSearch_overruled (s : Store) (c : AddCall) (e : SIevent) :
    (s.beforeSearch c).Overruled e ↔ s.Overruled e := by
  simp only [Overruled, beforeSearch_reached, (beforeSearch_same s c).1]

theorem beforeSearch_refreshed (s : Store) (c : AddCall) :
    (s.beforeSearch c).refreshed c.env c.evt = s.refreshed c.env c.evt := by
  obtain ⟨hheap, hmap, -, -⟩ := beforeSearch_same s c
  rw [refreshed, refreshed, hheap, hmap]

theorem run_eq (c : AddCall) : c.run s = if epgRejected c.env c.evt then s else
    match (s.beforeSearch c).refreshed c.env c.evt with
    | some o => (s.beforeSearch c).modify o (refreshTexts c.env c.zeit c.evt)
    | none =>
      match (s.beforeSearch c).cleared c.env (stripped c.env c.zeit c.evt) with
      | none => s.beforeSearch c
      | some t => (t.mergeMeta c.env (stripped c.env c.zeit c.evt)).insertEvent
          (stripped c.env c.zeit c.evt) := rfl

/-- A call that does not insert changes texts at most. -/
theorem run_keeps {c : AddCall} (h : ¬ c.Inserts s) (k : Nat) :
    Option.Rel TextsOnly (s.event k) ((c.run s).event k) := by
  have hsame (t : Store) (ht : t.event k = s.event k) :
      Option.Rel TextsOnly (s.event k) (t.event k) := by
    rw [ht]
    cases s.event k with
    | none => exact .none
    | some a => exact .some (.refl a)
  rw [run_eq]
  by_cases hrej : epgRejected c.env c.evt = true
  · rw [if_pos hrej]
    exact hsame s rfl
  rw [if_neg hrej]
  cases href : (s.beforeSearch c).refreshed c.env c.evt with
  | some o =>
    obtain ⟨hheap, hmap, -, -⟩ := beforeSearch_same s c
    simp only [event, modify, hheap, hmap]
    cases hf : s.orderUniqueKey.find k with
    | none => exact .none
    | some p =>
      simp only [Option.map_some]
      apply Option.Rel.some
      split
      · obtain ⟨name, text, extended, description, item, content, user, heq⟩ :=
          refreshTexts_eq c.env c.zeit c.evt (s.heap p)
        exact ⟨name, text, extended, description, item, content, user, heq⟩
      · exact .refl _
  | none =>
    rw [beforeSearch_refreshed] at href
    have hover : s.Overruled c.evt := by
      by_contra hnot
      exact h ⟨by simpa using hrej, href, hnot⟩
    have hnone := (cleared_none_iff (s := s.beforeSearch c) c.env c.zeit c.evt).mpr
      ((beforeSearch_overruled s c c.evt).mpr hover)
    simp only [hnone]
    exact hsame _ (beforeSearch_event s c k)

/-- A call that inserts: the deletions, and the new object. -/
theorem run_inserts {c : AddCall} (h : c.Inserts s) :
    ∃ t, (s.beforeSearch c).cleared c.env (stripped c.env c.zeit c.evt) = some t ∧
      c.run s = (t.mergeMeta c.env (stripped c.env c.zeit c.evt)).insertEvent
        (stripped c.env c.zeit c.evt) := by
  obtain ⟨hrej, href, hover⟩ := h
  rw [← beforeSearch_refreshed] at href
  rw [← beforeSearch_overruled s c, ← cleared_none_iff c.env c.zeit] at hover
  obtain ⟨t, ht⟩ := Option.ne_none_iff_exists'.mp hover
  refine ⟨t, ht, ?_⟩
  rw [run_eq, hrej, href, ht]
  rfl

theorem cleared_find {env : Env} {e : SIevent} {t : Store} (h : s.cleared env e = some t) :
    t.orderUniqueKey.find e.uniqueKey = none := by
  unfold cleared at h
  split at h
  · cases h
  · cases h
    apply makeRoom_find
    rw [deleteEvent_find, if_pos rfl]

theorem run_inserts_event {c : AddCall} (h : c.Inserts s) :
    (c.run s).event c.evt.uniqueKey = some (stripped c.env c.zeit c.evt) := by
  obtain ⟨t, ht, hrun⟩ := run_inserts h
  obtain ⟨texts, heq⟩ := stripped_frame c.env c.zeit c.evt
  have hfind := cleared_find ht
  rw [hrun]
  have hself := insertEvent_event_self (s := t.mergeMeta c.env (stripped c.env c.zeit c.evt))
    (e := stripped c.env c.zeit c.evt) (by rw [mergeMeta_find]; exact hfind)
  have hkey : (stripped c.env c.zeit c.evt).uniqueKey = c.evt.uniqueKey := by
    rw [heq]
    rfl
  rw [← hkey]
  exact hself

end

/-! ## Table ids -/

/-- A stored event with a smaller table id is not replaced. -/
def KeepsPriority (s : Store) (c : AddCall) : Prop :=
  ∀ old, s.event c.evt.uniqueKey = some old → old.tableId < c.evt.tableId →
    ∃ new, (c.run s).event c.evt.uniqueKey = some new ∧ new.tableId = old.tableId ∧
      new.times = old.times

/-- Where an event with a smaller table id is stored, the new one is filtered
out, it only brings texts up to date, or the walk reaches an event that
overrules it: one with a smaller table id that has its key or overlaps it. -/
def SeesPriority (s : Store) (c : AddCall) : Prop :=
  ∀ old, s.event c.evt.uniqueKey = some old → old.tableId < c.evt.tableId →
    epgRejected c.env c.evt = true ∨
    (alreadyExists c.evt old = true ∧ c.env.languageModeOff = true) ∨ s.Overruled c.evt

theorem refreshed_some_iff {s : Store} {env : Env} {evt old : SIevent}
    (h : s.event evt.uniqueKey = some old) :
    s.refreshed env evt = none ↔ ¬ (alreadyExists evt old = true ∧ env.languageModeOff = true) := by
  obtain ⟨o, hfind, rfl⟩ := Option.map_eq_some_iff.mp h
  simp [refreshed, hfind]

theorem keepsPriority_iff_sees (s : Store) (c : AddCall) : KeepsPriority s c ↔ SeesPriority s c := by
  constructor
  · intro h old hold hlt
    by_contra hnone
    simp only [not_or, Bool.not_eq_true] at hnone
    obtain ⟨hrej, href, hover⟩ := hnone
    have hins : c.Inserts s := ⟨hrej, (refreshed_some_iff hold).mpr href, hover⟩
    obtain ⟨new, hnew, htable, -⟩ := h old hold hlt
    rw [run_inserts_event hins, Option.some.injEq] at hnew
    obtain ⟨texts, heq⟩ := stripped_frame c.env c.zeit c.evt
    subst hnew
    rw [heq] at htable
    exact absurd htable (Nat.ne_of_gt hlt)
  · intro h old hold hlt
    have hnot : ¬ c.Inserts s := by
      rintro ⟨hrej, href, hover⟩
      rcases h old hold hlt with hr | hr | hr
      · rw [hrej] at hr
        cases hr
      · exact (refreshed_some_iff hold).mp href hr
      · exact hover hr
    have hrel := run_keeps hnot c.evt.uniqueKey
    rw [hold] at hrel
    generalize (c.run s).event c.evt.uniqueKey = found at hrel
    cases hrel with
    | some htexts => exact ⟨_, rfl, htexts.fields.1, htexts.fields.2.1⟩

/-! ## Overlaps -/

/-- Two events of one channel do not overlap, or they are present or following
events with one start time. -/
def Compatible (a b : SIevent) : Prop :=
  a.channelId = b.channelId →
    (a.first.ende ≤ b.first.startzeit ∨ b.first.ende ≤ a.first.startzeit) ∨
    (a.first.startzeit = b.first.startzeit ∧ a.tableId = b.tableId ∧
      (a.tableId = 0x4e ∨ a.tableId = 0x4f))

theorem Compatible.symm {a b : SIevent} (h : Compatible a b) : Compatible b a := by
  intro hchannel
  rcases h hchannel.symm with (h | h) | ⟨h1, h2, h3⟩
  · exact .inl (.inr h)
  · exact .inl (.inl h)
  · exact .inr ⟨h1.symm, h2.symm, h2 ▸ h3⟩

/-- Table ids have eight bits. -/
theorem presentFollowing_iff {n : Nat} (h : n < 256) : n &&& 0xFE = 0x4e ↔ n = 0x4e ∨ n = 0x4f := by
  have hall : ∀ n < 256, n &&& 0xFE = 0x4e ↔ n = 0x4e ∨ n = 0x4f := by decide +kernel
  exact hall n h

/-- What the new event displaces is what it is not compatible with. -/
theorem compatible_iff {e old : SIevent} (hbyte : e.tableId < 256)
    (hkey : old.uniqueKey ≠ e.uniqueKey) :
    Compatible old e ↔ (old.channelId = e.channelId → ¬ Displaced e old) := by
  have hpf := presentFollowing_iff hbyte
  constructor
  · rintro h hchannel ⟨-, ⟨hlt, hgt⟩, hex⟩
    rcases h hchannel with (h | h) | ⟨h1, h2, h3⟩
    · omega
    · omega
    · exact hex ⟨h2, hpf.mpr (h2 ▸ h3), h1⟩
  · intro h hchannel
    by_cases hoverlap : old.Overlaps e
    · by_cases hex : Exempt e old
      · obtain ⟨htable, hcode, hstart⟩ := hex
        exact .inr ⟨hstart, htable, htable ▸ hpf.mp hcode⟩
      · exact absurd ⟨hkey, hoverlap, hex⟩ (h hchannel)
    · left
      unfold SIevent.Overlaps at hoverlap
      omega

theorem compatible_stripped {env : Env} {zeit : Int} {a evt : SIevent} :
    Compatible a (stripped env zeit evt) ↔ Compatible a evt := by
  obtain ⟨texts, heq⟩ := stripped_frame env zeit evt
  rw [heq]
  exact Iff.rfl

def NoOverlaps (s : Store) : Prop :=
  ∀ k k' a b, k ≠ k' → s.event k = some a → s.event k' = some b → Compatible a b

/-- Every stored event of the channel that the new one displaces is reached by
the walk, if it comes to an insertion. -/
def SeesOverlaps (s : Store) (c : AddCall) : Prop :=
  c.Inserts s → ∀ x, s.Stored x → (s.heap x).channelId = c.evt.channelId →
    Displaced c.evt (s.heap x) → s.Reached c.evt x

/-- A call without filter, limit and NVOD services, for an event with one time. -/
structure PlainCall extends AddCall where
  noFilter : env.epgFilter = []
  noLimit : env.maxEvents = 0
  noMeta : env.metaOrderServiceUniqueKey = .empty
  oneTime : evt.times.size = 1
  lasts : 0 < evt.first.dauer
  tableByte : evt.tableId < 256

structure Plain (s : Store) : Prop where
  indexed : Indexed s
  timed : ∀ k x, s.event k = some x → x.timed = true

theorem event_stored {s : Store} (h : Indexed s) {k : Nat} {a : SIevent} (ha : s.event k = some a) :
    ∃ x, s.Stored x ∧ s.heap x = a ∧ a.uniqueKey = k := by
  obtain ⟨x, hfind, rfl⟩ := Option.map_eq_some_iff.mp ha
  exact ⟨x, h.stored hfind, rfl, (h.mapped k x hfind).1⟩

theorem stored_event {s : Store} {x : Nat} (h : s.Stored x) :
    s.event (s.heap x).uniqueKey = some (s.heap x) := by
  unfold Stored at h
  simp [event, h]

theorem Reached.stored {s : Store} (h : Indexed s) {e : SIevent} {x : Nat} (hx : s.Reached e x) :
    s.Stored x := by
  have hmem := Reaches.mem hx
  simp only [notBehind, List.mem_reverse] at hmem
  exact ((h.sets.startMem x).mp ((List.takeWhile_sublist _).subset hmem)).1

section
variable {s : Store}

/-- What a plain insertion does to the other entries. -/
theorem run_others (h : Plain s) (c : PlainCall) (hins : c.Inserts s) {k : Nat}
    (hk : k ≠ c.evt.uniqueKey) :
    ((∃ x, s.Reached c.evt x ∧ Displaced c.evt (s.heap x) ∧ (s.heap x).uniqueKey = k) →
      (c.run s).event k = none) ∧
    (¬ (∃ x, s.Reached c.evt x ∧ Displaced c.evt (s.heap x) ∧ (s.heap x).uniqueKey = k) →
      (c.run s).event k = s.event k) := by
  obtain ⟨t, ht, hrun⟩ := run_inserts hins
  obtain ⟨texts, heq⟩ := stripped_frame c.env c.zeit c.evt
  have hbefore : Indexed (s.beforeSearch c.toAddCall) := by
    unfold beforeSearch
    split
    · exact updateCN_indexed h.indexed c.env c.evt
    · exact h.indexed
  obtain ⟨hdeleted, hkept⟩ := cleared_event c.noLimit ht k
  have hmerge : t.mergeMeta c.env (stripped c.env c.zeit c.evt) = t := by
    simp [mergeMeta, c.noMeta]
  have hother : (c.run s).event k = t.event k := by
    rw [hrun, hmerge]
    apply insertEvent_event_ne
    · intro o ho
      exact ((cleared_indexed hbefore ht).1.mapped k o ho).2
    · rw [heq]
      exact hk
  simp only [beforeSearch_reached, (beforeSearch_same s c.toAddCall).1, beforeSearch_event, hk,
    false_or] at hdeleted hkept
  rw [hother]
  exact ⟨hdeleted, hkept⟩

theorem run_plain (h : Plain s) (c : PlainCall) : Plain (c.run s) := by
  constructor
  · apply addEvent_indexed h.indexed
    intro _ _ t _ key o hmeta
    rw [c.noMeta] at hmeta
    cases hmeta
  · intro k a ha
    by_cases hins : c.Inserts s
    · by_cases hk : k = c.evt.uniqueKey
      · subst hk
        rw [run_inserts_event hins, Option.some.injEq] at ha
        obtain ⟨texts, heq⟩ := stripped_frame c.env c.zeit c.evt
        subst ha
        rw [heq]
        have hone := c.oneTime
        unfold OrdMap.size at hone
        simp only [SIevent.timed, Bool.not_eq_true', List.isEmpty_eq_false_iff]
        intro hnil
        rw [hnil] at hone
        cases hone
      · obtain ⟨hdeleted, hkept⟩ := run_others h c hins hk
        by_cases hd : ∃ x, s.Reached c.evt x ∧ Displaced c.evt (s.heap x) ∧ (s.heap x).uniqueKey = k
        · rw [hdeleted hd] at ha
          cases ha
        · rw [hkept hd] at ha
          exact h.timed k a ha
    · have hrel := run_keeps hins k
      rw [ha] at hrel
      generalize hs : s.event k = found at hrel
      cases hrel with
      | some htexts =>
        rw [htexts.fields.2.2.2.2]
        exact h.timed k _ hs

/-- If the walk reaches what the new event displaces, the others were there before
and are compatible with it. -/
theorem run_others_compatible (h : Plain s) (c : PlainCall) (hins : c.Inserts s)
    (hsees : ∀ x, s.Stored x → (s.heap x).channelId = c.evt.channelId →
      Displaced c.evt (s.heap x) → s.Reached c.evt x) {k : Nat} {a : SIevent}
    (hk : k ≠ c.evt.uniqueKey) (ha : (c.run s).event k = some a) :
    s.event k = some a ∧ Compatible a (stripped c.env c.zeit c.evt) := by
  obtain ⟨hdeleted, hkept⟩ := run_others h c hins hk
  by_cases hd : ∃ x, s.Reached c.evt x ∧ Displaced c.evt (s.heap x) ∧ (s.heap x).uniqueKey = k
  · rw [hdeleted hd] at ha
    cases ha
  · rw [hkept hd] at ha
    obtain ⟨x, hx, rfl, hkey⟩ := event_stored h.indexed ha
    have hne : (s.heap x).uniqueKey ≠ c.evt.uniqueKey := fun heq => hk (hkey.symm.trans heq)
    rw [compatible_stripped, compatible_iff c.tableByte hne]
    exact ⟨ha, fun hchannel hdis => hd ⟨x, hsees x hx hchannel hdis, hdis, hkey⟩⟩

/-- A plain call keeps the store free of overlaps if and only if the walk
reaches all that the new event displaces. -/
theorem run_noOverlaps_iff (h : Plain s) (hs : NoOverlaps s) (c : PlainCall) :
    NoOverlaps (c.run s) ↔ SeesOverlaps s c.toAddCall := by
  constructor
  · intro hafter hins x hx hchannel hdis
    by_contra hnot
    have hkept : ¬ ∃ y, s.Reached c.evt y ∧ Displaced c.evt (s.heap y) ∧
        (s.heap y).uniqueKey = (s.heap x).uniqueKey := by
      rintro ⟨y, hy, -, hkey⟩
      by_cases hyx : y = x
      · exact hnot (hyx ▸ hy)
      · exact hx.other_key (hy.stored h.indexed) hyx hkey
    have hold := (run_others h c hins hdis.1).2 hkept
    rw [stored_event hx] at hold
    have hcompat := hafter _ _ _ _ hdis.1 hold (run_inserts_event hins)
    rw [compatible_stripped, compatible_iff c.tableByte hdis.1] at hcompat
    exact hcompat hchannel hdis
  · intro hsees
    by_cases hins : c.Inserts s
    · have hnew (k : Nat) (a : SIevent) :=
        run_others_compatible h c hins (hsees hins) (k := k) (a := a)
      intro k k' a b hne ha hb
      by_cases hk : k = c.evt.uniqueKey
      · have hk' : k' ≠ c.evt.uniqueKey := fun hk' => hne (hk.trans hk'.symm)
        subst hk
        rw [run_inserts_event hins, Option.some.injEq] at ha
        subst ha
        exact (hnew k' b hk' hb).2.symm
      · by_cases hk' : k' = c.evt.uniqueKey
        · subst hk'
          rw [run_inserts_event hins, Option.some.injEq] at hb
          subst hb
          exact (hnew k a hk ha).2
        · exact hs k k' a b hne (hnew k a hk ha).1 (hnew k' b hk' hb).1
    · intro k k' a b hne ha hb
      have hrela := run_keeps hins k
      have hrelb := run_keeps hins k'
      rw [ha] at hrela
      rw [hb] at hrelb
      generalize hsa : s.event k = found at hrela
      generalize hsb : s.event k' = found' at hrelb
      cases hrela with
      | some hta =>
        cases hrelb with
        | some htb =>
          have hold := hs k k' _ _ hne hsa hsb
          obtain ⟨ta, -, ca, fa, -⟩ := hta.fields
          obtain ⟨tb, -, cb, fb, -⟩ := htb.fields
          unfold Compatible
          rw [ta, tb, ca, cb, fa, fb]
          exact hold

end

theorem initial_plain (heap : Nat → SIevent) : Plain (initial heap) :=
  ⟨initial_indexed heap, fun _ _ h => by cases h⟩

/-- **When the store is free of overlaps.** A sequence of plain calls never
leaves two overlapping events of one channel if and only if, in every call that
inserts its event, the walk reaches every stored event that overlaps it. -/
theorem noOverlaps_iff (heap : Nat → SIevent) (calls : List PlainCall) :
    Keeps (fun s c => some (AddCall.run s c.toAddCall)) NoOverlaps (initial heap) calls ↔
      Permits (fun s c => some (AddCall.run s c.toAddCall)) (fun s c => SeesOverlaps s c.toAddCall)
        (initial heap) calls := by
  apply keeps_iff_permits_total (I := Plain) (f := fun s (c : PlainCall) => AddCall.run s c.toAddCall)
  · intro s c h
    exact run_plain h c
  · intro s c h hs
    exact run_noOverlaps_iff h hs c
  · exact initial_plain heap
  · intro k k' a b _ ha _
    cases ha

/-- A call for an event of one minute. -/
def sampleCall (eventID : UInt16) (startzeit : Int) : PlainCall where
  env := { sampleEnv with metaOrderServiceUniqueKey := .empty }
  evt := sampleEvent 1 eventID startzeit
  zeit := 0
  cn := false
  noFilter := rfl
  noLimit := rfl
  noMeta := rfl
  oneTime := rfl
  lasts := Nat.zero_lt_succ 59
  tableByte := by
    change 0x50 < 256
    decide

/-- An event that starts half a minute before a stored one ends within it; both
stay. -/
theorem earlier_event_overlaps :
    ¬ NoOverlaps (AddCall.run (AddCall.run sampleStart (sampleCall 1 1000).toAddCall)
      (sampleCall 2 970).toAddCall) := by
  intro h
  have hboth := h (sampleEvent 1 1 1000).uniqueKey (sampleEvent 1 2 970).uniqueKey
    (sampleEvent 1 1 1000) (sampleEvent 1 2 970) (by decide) (by decide) (by decide) (by decide)
  revert hboth
  decide

end Store
end Tuxbox.Sectionsd
