import Tuxbox.Sectionsd.Store
import Tuxbox.Lib.Run
import Mathlib.Data.List.Count

/-! The two ordered sets as an index of the event map. Every call but one takes
an event out of the sets before it changes the event's times; the NVOD branch
of `addEvent` changes them in place. -/
namespace Tuxbox.Sectionsd

namespace Store

/-- The map has this object under the object's key. -/
def Stored (s : Store) (o : Nat) : Prop := s.orderUniqueKey.find (s.heap o).uniqueKey = some o

/-- Both sets are in order and hold the objects of `P`. -/
structure SetsHold (s : Store) (P : Nat → Prop) : Prop where
  startSorted : OrdSet.Sorted (fun o => (s.heap o).startKey) s.startSet
  endSorted : OrdSet.Sorted (fun o => (s.heap o).endKey) s.endSet
  startMem : ∀ o, o ∈ s.startSet ↔ P o
  endMem : ∀ o, o ∈ s.endSet ↔ P o

structure Indexed (s : Store) : Prop where
  mapped : ∀ k o, s.orderUniqueKey.find k = some o → (s.heap o).uniqueKey = k ∧ o < s.next
  sets : SetsHold s fun o => s.Stored o ∧ (s.heap o).timed = true

theorem startOrder_iff (s : Store) (a b : Nat) :
    s.startOrder a b = true ↔ (s.heap a).startKey < (s.heap b).startKey := SIevent.startLt_iff _ _

theorem endOrder_iff (s : Store) (a b : Nat) :
    s.endOrder a b = true ↔ (s.heap a).endKey < (s.heap b).endKey := SIevent.endLt_iff _ _

/-! ## The sets -/

namespace SetsHold

variable {s : Store} {P Q : Nat → Prop}

theorem congr (h : SetsHold s P) (hPQ : ∀ o, P o ↔ Q o) : SetsHold s Q :=
  ⟨h.startSorted, h.endSorted, fun o => (h.startMem o).trans (hPQ o),
    fun o => (h.endMem o).trans (hPQ o)⟩

theorem eraseSets (h : SetsHold s P) {o : Nat} (ho : P o) :
    SetsHold (s.eraseSets o) fun p => P p ∧ p ≠ o where
  startSorted := OrdSet.erase_sorted o h.startSorted
  endSorted := OrdSet.erase_sorted o h.endSorted
  startMem p := by
    rw [← h.startMem]
    exact OrdSet.mem_erase s.startOrder_iff h.startSorted ((h.startMem o).mpr ho) p
  endMem p := by
    rw [← h.endMem]
    exact OrdSet.mem_erase s.endOrder_iff h.endSorted ((h.endMem o).mpr ho) p

/-- Objects with different unique keys have different keys in both orders. -/
theorem insertSets (h : SetsHold s P) {o : Nat}
    (hnew : ∀ p, P p → (s.heap p).uniqueKey ≠ (s.heap o).uniqueKey) :
    SetsHold (s.insertSets o) fun p => p = o ∨ P p where
  startSorted := OrdSet.insert_sorted s.startOrder_iff o h.startSorted
  endSorted := OrdSet.insert_sorted s.endOrder_iff o h.endSorted
  startMem p := by
    rw [← h.startMem]
    refine OrdSet.mem_insert s.startOrder_iff ?_ p
    intro q hq heq
    exact hnew q ((h.startMem q).mp hq) (SIevent.uniqueKey_of_startKey heq)
  endMem p := by
    rw [← h.endMem]
    refine OrdSet.mem_insert s.endOrder_iff ?_ p
    intro q hq heq
    exact hnew q ((h.endMem q).mp hq) (SIevent.uniqueKey_of_endKey heq)

/-- Changes that keep the order of the sets' members. -/
theorem modify (h : SetsHold s P) {o : Nat} {f : SIevent → SIevent}
    (hkey : (f (s.heap o)).uniqueKey = (s.heap o).uniqueKey)
    (hother : ∀ p, P p → p ≠ o → (s.heap p).uniqueKey ≠ (s.heap o).uniqueKey)
    (hkeep : P o → ∀ p, P p → p ≠ o →
      SIevent.startLt (s.heap p) (f (s.heap o)) = SIevent.startLt (s.heap p) (s.heap o) ∧
      SIevent.endLt (s.heap p) (f (s.heap o)) = SIevent.endLt (s.heap p) (s.heap o)) :
    SetsHold (s.modify o f) P where
  startSorted := by
    refine h.startSorted.update (o := o) ?_ ?_ ?_
    · intro a ha
      simp only [Store.modify, if_neg ha]
    · intro a ha hne heq
      simp only [Store.modify, if_true] at heq
      have hkeys := SIevent.uniqueKey_of_startKey heq
      exact hother a ((h.startMem a).mp ha) hne (hkeys.trans hkey)
    · intro ho a ha hne
      have hlt := (hkeep ((h.startMem o).mp ho) a ((h.startMem a).mp ha) hne).1
      simp only [Store.modify, if_true, ← SIevent.startLt_iff, hlt]
  endSorted := by
    refine h.endSorted.update (o := o) ?_ ?_ ?_
    · intro a ha
      simp only [Store.modify, if_neg ha]
    · intro a ha hne heq
      simp only [Store.modify, if_true] at heq
      have hkeys := SIevent.uniqueKey_of_endKey heq
      exact hother a ((h.endMem a).mp ha) hne (hkeys.trans hkey)
    · intro ho a ha hne
      have hlt := (hkeep ((h.endMem o).mp ho) a ((h.endMem a).mp ha) hne).2
      simp only [Store.modify, if_true, ← SIevent.endLt_iff, hlt]
  startMem := h.startMem
  endMem := h.endMem

end SetsHold

/-! ## Deleting -/

section
variable {s : Store}

theorem Stored.other_key {o p : Nat} (ho : s.Stored o) (hp : s.Stored p) (hne : p ≠ o) :
    (s.heap p).uniqueKey ≠ (s.heap o).uniqueKey := by
  intro heq
  unfold Stored at ho hp
  rw [heq, ho] at hp
  exact hne (Option.some.inj hp).symm

theorem Indexed.stored (h : Indexed s) {k o : Nat} (hk : s.orderUniqueKey.find k = some o) :
    s.Stored o := by
  rw [← (h.mapped k o hk).1] at hk
  exact hk

theorem takeOut_same (o : Nat) :
    (s.takeOut o).heap = s.heap ∧ (s.takeOut o).orderUniqueKey = s.orderUniqueKey ∧
      (s.takeOut o).next = s.next := by
  unfold takeOut
  split <;> exact ⟨rfl, rfl, rfl⟩

/-- The sets without an object. -/
theorem takeOut_sets (h : Indexed s) {o : Nat} (ho : s.Stored o) :
    SetsHold (s.takeOut o) fun p => (s.Stored p ∧ (s.heap p).timed = true) ∧ p ≠ o := by
  unfold takeOut
  by_cases ht : (s.heap o).timed = true
  · rw [if_pos ht]
    exact h.sets.eraseSets ⟨ho, ht⟩
  · rw [if_neg ht]
    refine h.sets.congr fun p => ⟨fun hp => ⟨hp, ?_⟩, And.left⟩
    rintro rfl
    exact ht hp.2

theorem deleteEvent_indexed (h : Indexed s) (k : Nat) : Indexed (s.deleteEvent k) := by
  unfold deleteEvent
  cases hk : s.orderUniqueKey.find k with
  | none => exact h
  | some o =>
    have ho := h.stored hk
    have hkey := (h.mapped k o hk).1
    have hsets := takeOut_sets h ho
    obtain ⟨hheap, hmap, hnext⟩ := takeOut_same (s := s) o
    constructor
    · intro k' p hp
      simp only [hmap, hheap, hnext, OrdMap.find_erase] at hp ⊢
      split at hp
      · cases hp
      · exact h.mapped k' p hp
    · have hmem : ∀ p, ((s.Stored p ∧ (s.heap p).timed = true) ∧ p ≠ o) ↔
          (s.orderUniqueKey.erase k).find (s.heap p).uniqueKey = some p ∧
            (s.heap p).timed = true := by
        intro p
        rw [OrdMap.find_erase]
        by_cases hpk : (s.heap p).uniqueKey = k
        · rw [if_pos hpk]
          constructor
          · rintro ⟨⟨hp, -⟩, hne⟩
            exact absurd (hpk.trans hkey.symm) (ho.other_key hp hne)
          · rintro ⟨hp, -⟩
            cases hp
        · rw [if_neg hpk]
          constructor
          · rintro ⟨⟨hp, ht⟩, -⟩
            exact ⟨hp, ht⟩
          · rintro ⟨hp, ht⟩
            refine ⟨⟨hp, ht⟩, ?_⟩
            rintro rfl
            exact hpk hkey
      have hdone := hsets.congr hmem
      refine ⟨hdone.startSorted, hdone.endSorted, ?_, ?_⟩
      · simpa only [Stored, hmap, hheap] using hdone.startMem
      · simpa only [Stored, hmap, hheap] using hdone.endMem

theorem deleteEvent_find (k k' : Nat) :
    (s.deleteEvent k).orderUniqueKey.find k' =
      if k' = k then none else s.orderUniqueKey.find k' := by
  unfold deleteEvent
  cases hk : s.orderUniqueKey.find k with
  | none =>
    dsimp only
    by_cases hkk : k' = k
    · rw [if_pos hkk, hkk, hk]
    · rw [if_neg hkk]
  | some o =>
    dsimp only
    rw [OrdMap.find_erase]
    rw [(takeOut_same o).2.1]

theorem deleteObject_indexed (h : Indexed s) (o : Option Nat) : Indexed (s.deleteObject o) := by
  cases o with
  | none => exact h
  | some o => exact deleteEvent_indexed h _

theorem deleteObject_find {k : Nat} (hk : s.orderUniqueKey.find k = none) (o : Option Nat) :
    (s.deleteObject o).orderUniqueKey.find k = none := by
  cases o with
  | none => exact hk
  | some o =>
    rw [deleteObject, deleteEvent_find, hk]
    split <;> rfl

theorem makeRoom_indexed (h : Indexed s) (env : Env) : Indexed (s.makeRoom env) := by
  unfold makeRoom
  split
  · dsimp only
    split <;> exact deleteObject_indexed h _
  · exact h

theorem makeRoom_find {k : Nat} (hk : s.orderUniqueKey.find k = none) (env : Env) :
    (s.makeRoom env).orderUniqueKey.find k = none := by
  unfold makeRoom
  split
  · dsimp only
    split <;> exact deleteObject_find hk _
  · exact hk

theorem deleteAll_indexed (h : Indexed s) (keys : List Nat) :
    Indexed (keys.foldl deleteEvent s) := by
  induction keys generalizing s with
  | nil => exact h
  | cons k ks ih => exact ih (deleteEvent_indexed h k)

/-- What is left when room was made for `e`: an index without `e`. -/
theorem cleared_indexed (h : Indexed s) {env : Env} {e : SIevent} {s' : Store}
    (hs : s.cleared env e = some s') :
    Indexed s' ∧ s'.orderUniqueKey.find e.uniqueKey = none := by
  unfold cleared at hs
  cases ho : overlaps s.heap e (s.notBehind e) [] with
  | none =>
    rw [ho] at hs
    cases hs
  | some toDelete =>
    rw [ho] at hs
    cases hs
    have hdel := deleteEvent_indexed (deleteAll_indexed h toDelete.reverse) e.uniqueKey
    refine ⟨makeRoom_indexed hdel env, makeRoom_find ?_ env⟩
    rw [deleteEvent_find, if_pos rfl]

/-! ## Changing and inserting -/

theorem modify_uniqueKey {o : Nat} {f : SIevent → SIevent}
    (hkey : (f (s.heap o)).uniqueKey = (s.heap o).uniqueKey) (p : Nat) :
    ((s.modify o f).heap p).uniqueKey = (s.heap p).uniqueKey := by
  simp only [modify]
  split
  · rename_i hp
    rw [hp, hkey]
  · rfl

/-- A change of a stored event that keeps its key and its place. -/
theorem modify_indexed (h : Indexed s) {o : Nat} (ho : s.Stored o) {f : SIevent → SIevent}
    (hkey : (f (s.heap o)).uniqueKey = (s.heap o).uniqueKey)
    (htimed : (f (s.heap o)).timed = (s.heap o).timed)
    (hkeep : (s.heap o).timed = true → ∀ p ∈ s.startSet, p ≠ o →
      SIevent.startLt (s.heap p) (f (s.heap o)) = SIevent.startLt (s.heap p) (s.heap o) ∧
      SIevent.endLt (s.heap p) (f (s.heap o)) = SIevent.endLt (s.heap p) (s.heap o)) :
    Indexed (s.modify o f) := by
  have hsets := h.sets.modify (o := o) hkey (fun p hp hne => ho.other_key hp.1 hne)
    (fun hP p hp hne => hkeep hP.2 p ((h.sets.startMem p).mpr hp) hne)
  have hsame := modify_uniqueKey hkey
  constructor
  · intro k p hk
    rw [hsame]
    exact h.mapped k p hk
  · refine hsets.congr fun p => ?_
    have ht : ((s.modify o f).heap p).timed = (s.heap p).timed := by
      simp only [modify]
      split
      · rename_i hp
        rw [hp, htimed]
      · rfl
    unfold Stored
    rw [hsame, ht]
    rfl

/-- The store with a new object in the map and in no set. -/
def withObject (s : Store) (e : SIevent) : Store :=
  { s with
    heap := fun p => if p = s.next then e else s.heap p
    next := s.next + 1
    orderUniqueKey := s.orderUniqueKey.insertNew e.uniqueKey s.next }

theorem withObject_heap (s : Store) (e : SIevent) {p : Nat} (hp : p ≠ s.next) :
    (s.withObject e).heap p = s.heap p := if_neg hp

theorem withObject_heap_self (s : Store) (e : SIevent) : (s.withObject e).heap s.next = e :=
  if_pos rfl

theorem withObject_find {e : SIevent} (hnew : s.orderUniqueKey.find e.uniqueKey = none) (k : Nat) :
    (s.withObject e).orderUniqueKey.find k =
      if k = e.uniqueKey then some s.next else s.orderUniqueKey.find k := by
  change (s.orderUniqueKey.insertNew e.uniqueKey s.next).find k = _
  rw [OrdMap.find_insertNew]
  by_cases hk : k = e.uniqueKey
  · simp [hk, hnew]
  · simp [hk]

theorem withObject_stored {e : SIevent} (hnew : s.orderUniqueKey.find e.uniqueKey = none) (p : Nat) :
    (s.withObject e).Stored p ↔ p = s.next ∨ s.Stored p := by
  unfold Stored
  rw [withObject_find hnew]
  by_cases hp : p = s.next
  · simp [hp, withObject_heap_self]
  · rw [withObject_heap s e hp]
    by_cases hk : (s.heap p).uniqueKey = e.uniqueKey
    · rw [if_pos hk, hk, hnew]
      simp [hp, eq_comm]
    · simp [hk, hp]

theorem Indexed.stored_lt (h : Indexed s) {p : Nat} (hp : s.Stored p) : p < s.next :=
  (h.mapped _ p hp).2

theorem withObject_mapped
    (h : ∀ k o, s.orderUniqueKey.find k = some o → (s.heap o).uniqueKey = k ∧ o < s.next)
    {e : SIevent} (hnew : s.orderUniqueKey.find e.uniqueKey = none) (k p : Nat)
    (hk : (s.withObject e).orderUniqueKey.find k = some p) :
    ((s.withObject e).heap p).uniqueKey = k ∧ p < (s.withObject e).next := by
  rw [withObject_find hnew] at hk
  split at hk
  · rename_i hke
    cases hk
    exact ⟨by rw [withObject_heap_self, hke], Nat.lt_succ_self _⟩
  · obtain ⟨hkey, hlt⟩ := h k p hk
    exact ⟨by rw [withObject_heap s e (by omega)]; exact hkey, Nat.lt_succ_of_lt hlt⟩

/-- The sets do not notice an object that none of them has. -/
theorem withObject_sets (h : Indexed s) (e : SIevent) :
    SetsHold (s.withObject e) fun p => s.Stored p ∧ (s.heap p).timed = true := by
  have hheap {p : Nat} (hp : s.Stored p ∧ (s.heap p).timed = true) :
    (s.withObject e).heap p = s.heap p :=
    withObject_heap s e (Nat.ne_of_lt (h.stored_lt hp.1))
  refine ⟨h.sets.startSorted.congr ?_, h.sets.endSorted.congr ?_, h.sets.startMem, h.sets.endMem⟩
  · intro a ha b hb hab
    rw [hheap ((h.sets.startMem a).mp ha), hheap ((h.sets.startMem b).mp hb)]
    exact hab
  · intro a ha b hb hab
    rw [hheap ((h.sets.endMem a).mp ha), hheap ((h.sets.endMem b).mp hb)]
    exact hab

theorem insertEvent_indexed (h : Indexed s) {e : SIevent}
    (hnew : s.orderUniqueKey.find e.uniqueKey = none) : Indexed (s.insertEvent e) := by
  have hheap {p : Nat} (hp : s.Stored p) : (s.withObject e).heap p = s.heap p :=
    withObject_heap s e (Nat.ne_of_lt (h.stored_lt hp))
  have hother {p : Nat} (hp : s.Stored p) : (s.heap p).uniqueKey ≠ e.uniqueKey := by
    intro heq
    unfold Stored at hp
    rw [heq, hnew] at hp
    cases hp
  have hsets := withObject_sets h e
  change Indexed (if e.timed then (s.withObject e).insertSets s.next else s.withObject e)
  by_cases het : e.timed = true
  · rw [if_pos het]
    refine ⟨withObject_mapped h.mapped hnew, (hsets.insertSets ?_).congr fun p => ?_⟩
    · intro p hp
      rw [withObject_heap_self, hheap hp.1]
      exact hother hp.1
    · change p = s.next ∨ _ ↔ (s.withObject e).Stored p ∧ ((s.withObject e).heap p).timed = true
      rw [withObject_stored hnew]
      constructor
      · rintro (rfl | ⟨hp, ht⟩)
        · exact ⟨.inl rfl, by rw [withObject_heap_self]; exact het⟩
        · exact ⟨.inr hp, by rw [hheap hp]; exact ht⟩
      · rintro ⟨rfl | hp, ht⟩
        · exact .inl rfl
        · exact .inr ⟨hp, by rw [← hheap hp]; exact ht⟩
  · rw [if_neg het]
    refine ⟨withObject_mapped h.mapped hnew, hsets.congr fun p => ?_⟩
    rw [withObject_stored hnew]
    constructor
    · rintro ⟨hp, ht⟩
      exact ⟨.inr hp, by rw [hheap hp]; exact ht⟩
    · rintro ⟨rfl | hp, ht⟩
      · rw [withObject_heap_self] at ht
        exact absurd ht het
      · exact ⟨hp, by rw [← hheap hp]; exact ht⟩

/-! ## Times -/

theorem foldl_insertNew_keeps (new : List (Int × Nat)) {ts : OrdMap Int Nat} {k : Int}
    (h : (ts.find k).isSome = true) :
    ((new.foldl (fun ts t => ts.insertNew t.1 t.2) ts).find k).isSome = true := by
  induction new generalizing ts with
  | nil => exact h
  | cons t rest ih =>
    apply ih
    rw [OrdMap.find_insertNew]
    split
    · rfl
    · exact h

theorem timed_iff (e : SIevent) : e.timed = true ↔ ∃ k, (e.times.find k).isSome = true := by
  unfold SIevent.timed OrdMap.find
  cases e.times.entries with
  | nil => simp [OrdMap.lookup]
  | cons t rest =>
    simp only [List.isEmpty_cons, Bool.not_false, true_iff]
    exact ⟨t.1, by simp [OrdMap.lookup]⟩

theorem timed_addTimes (old e : SIevent) (h : e.timed = true) :
    (old.addTimes e.times).timed = true := by
  unfold SIevent.timed at h
  cases he : e.times.entries with
  | nil => simp [he] at h
  | cons t rest =>
    refine (timed_iff _).mpr ⟨t.1, ?_⟩
    unfold SIevent.addTimes insertTimes
    rw [he, List.foldl_cons]
    apply foldl_insertNew_keeps
    rw [OrdMap.find_insertNew, if_pos rfl]
    rfl

/-- A stored event that got times, in sets that hold it and the others. -/
theorem retime_indexed (h : Indexed s) {o : Nat} (ho : s.Stored o) {e : SIevent}
    (he : e.timed = true) {u : Store}
    (hheap : u.heap = (s.modify o (·.addTimes e.times)).heap)
    (hmap : u.orderUniqueKey = s.orderUniqueKey) (hnext : u.next = s.next)
    (hsets : SetsHold u fun p => p = o ∨ (s.Stored p ∧ (s.heap p).timed = true)) : Indexed u := by
  have hsame : ∀ p, (u.heap p).uniqueKey = (s.heap p).uniqueKey := by
    intro p
    rw [hheap]
    exact modify_uniqueKey (f := (·.addTimes e.times))
      (SIevent.addTimes_uniqueKey (s.heap o) e.times) p
  constructor
  · intro k p hk
    rw [hmap] at hk
    rw [hsame, hnext]
    exact h.mapped k p hk
  · refine hsets.congr fun p => ?_
    unfold Stored
    rw [hsame, hmap, hheap]
    by_cases hp : p = o
    · subst hp
      have ht : ((s.modify p (·.addTimes e.times)).heap p).timed = true := by
        simp only [modify, if_true]
        exact timed_addTimes _ e he
      rw [ht]
      exact ⟨fun _ => ⟨ho, rfl⟩, fun _ => .inl rfl⟩
    · simp only [modify, hp, false_or, if_false]

theorem addEventTimes_found_indexed (h : Indexed s) {evt : SIevent} (hevt : evt.timed = true)
    {o : Nat} (ho : s.Stored o) :
    Indexed (((s.takeOut o).modify o (·.addTimes evt.times)).insertSets o) := by
  obtain ⟨hheap, hmap, hnext⟩ := takeOut_same (s := s) o
  have hkey := SIevent.addTimes_uniqueKey ((s.takeOut o).heap o) evt.times
  -- while the event is out of the sets its times can change
  have hout := (takeOut_sets h ho).modify (o := o) (f := (·.addTimes evt.times)) hkey
    (by
      intro p hp hne
      rw [hheap]
      exact ho.other_key hp.1.1 hne)
    (fun hself => absurd rfl hself.2)
  have hin := hout.insertSets (o := o)
    (by
      intro p hp
      have hsame := modify_uniqueKey (s := s.takeOut o) (o := o) (f := (·.addTimes evt.times)) hkey
      rw [hsame, hsame, hheap]
      exact ho.other_key hp.1.1 hp.2)
  refine retime_indexed h ho hevt ?_ hmap hnext (hin.congr fun p => ?_)
  · simp only [Store.insertSets, modify, hheap]
  · constructor
    · rintro (hp | ⟨hp, -⟩)
      · exact .inl hp
      · exact .inr hp
    · rintro (hp | hp)
      · exact .inl hp
      · by_cases hpo : p = o
        · exact .inl hpo
        · exact .inr ⟨hp, hpo⟩

/-! ## The NVOD branch -/

/-- The merged times leave the event where it is in both orders. An event that
had no time has no place to lose, but the search for it looks at its first
time, unless there is nothing to compare it with. -/
def MergeKeepsOrder (s : Store) (env : Env) (e : SIevent) : Prop :=
  ∀ key o, env.metaOrderServiceUniqueKey.find e.channelId = some key → e.timed = true →
    s.orderUniqueKey.find key = some o →
    if (s.heap o).timed then
      ∀ p ∈ s.startSet, p ≠ o →
        SIevent.startLt (s.heap p) ((s.heap o).addTimes e.times) =
          SIevent.startLt (s.heap p) (s.heap o) ∧
        SIevent.endLt (s.heap p) ((s.heap o).addTimes e.times) =
          SIevent.endLt (s.heap p) (s.heap o)
    else s.startSet = []

theorem mergeMeta_indexed (h : Indexed s) {env : Env} {e : SIevent}
    (hkeep : MergeKeepsOrder s env e) : Indexed (s.mergeMeta env e) := by
  unfold mergeMeta
  cases hmeta : env.metaOrderServiceUniqueKey.find e.channelId with
  | none => exact h
  | some key =>
    dsimp only
    by_cases he : e.timed = true
    · rw [if_pos he]
      cases hfind : s.orderUniqueKey.find key with
      | none => exact h
      | some o =>
        have ho := h.stored hfind
        have hk := hkeep key o hmeta he hfind
        dsimp only
        by_cases ht : (s.heap o).timed = true
        · rw [if_pos ht] at hk
          have hin := OrdSet.contains_of_mem s.startOrder_iff h.sets.startSorted
            ((h.sets.startMem o).mpr ⟨ho, ht⟩)
          rw [if_pos hin]
          refine modify_indexed h ho (SIevent.addTimes_uniqueKey _ _) ?_ (fun _ => hk)
          rw [ht]
          exact timed_addTimes _ e he
        · rw [if_neg ht] at hk
          have hnone : ∀ p, ¬ (s.Stored p ∧ (s.heap p).timed = true) := by
            intro p hp
            have hmem := (h.sets.startMem p).mpr hp
            rw [hk] at hmem
            cases hmem
          have hout : ¬ OrdSet.contains s.startOrder o s.startSet = true := by
            rw [hk]
            exact Bool.false_ne_true
          rw [if_neg hout]
          have hin := h.sets.insertSets (o := o) (fun p hp => absurd hp (hnone p))
          have hmod := hin.modify (o := o) (f := (·.addTimes e.times))
            (SIevent.addTimes_uniqueKey _ _)
            (fun p hp hne => absurd (hp.resolve_left hne) (hnone p))
            (fun _ p hp hne => absurd (hp.resolve_left hne) (hnone p))
          exact retime_indexed h ho he rfl rfl rfl hmod
    · rw [if_neg he]
      exact h

theorem mergeMeta_find (env : Env) (e : SIevent) :
    (s.mergeMeta env e).orderUniqueKey = s.orderUniqueKey := by
  unfold mergeMeta
  split
  · rfl
  · split
    · split
      · rfl
      · dsimp only
        split <;> rfl
    · rfl

end

/-! ## The calls -/

theorem updateCN_eq (s : Store) (env : Env) (evt : SIevent) :
    ∃ current next got, s.updateCN env evt =
      { s with myCurrentEvent := current, myNextEvent := next, messagingGotCN := got } := by
  unfold updateCN
  dsimp only
  split_ifs <;> exact ⟨_, _, _, rfl⟩

theorem updateCN_indexed {s : Store} (h : Indexed s) (env : Env) (evt : SIevent) :
    Indexed (s.updateCN env evt) := by
  obtain ⟨current, next, got, heq⟩ := updateCN_eq s env evt
  rw [heq]
  exact ⟨h.mapped, h.sets.startSorted, h.sets.endSorted, h.sets.startMem, h.sets.endMem⟩

/-- Texts only. -/
theorem refreshTexts_eq (env : Env) (zeit : Int) (evt old : SIevent) :
    ∃ name text extended description item content user, refreshTexts env zeit evt old =
      { old with
        langName := name, langText := text, langExtendedText := extended
        itemDescription := description, item := item
        contentClassification := content, userClassification := user } := by
  unfold refreshTexts
  dsimp only
  split_ifs <;> exact ⟨_, _, _, _, _, _, _, rfl⟩

/-- What `addEvent` does with the sets it does with the store after the
deletions, if it gets there. -/
def AddKeepsOrder (s : Store) (env : Env) (evt : SIevent) (zeit : Int) : Prop :=
  epgRejected env evt = false → s.refreshed env evt = none →
    ∀ s', s.cleared env (stripped env zeit evt) = some s' →
      MergeKeepsOrder s' env (stripped env zeit evt)

/-- No call moves an event of the sets in place. -/
def KeepsOrder (s : Store) : Act → Prop
  | .addEvent env evt zeit cn => AddKeepsOrder (if cn then s.updateCN env evt else s) env evt zeit
  | .addEventTimes env evt =>
    evt.timed = true → s.orderUniqueKey.find evt.uniqueKey = none → AddKeepsOrder s env evt 0
  | .addNVODevent _ _ | .deleteEvent _ => True

theorem addStored_indexed {s : Store} (h : Indexed s) {env : Env} {evt : SIevent} {zeit : Int}
    (hrej : epgRejected env evt = false) (hkeep : AddKeepsOrder s env evt zeit) :
    Indexed (match s.refreshed env evt with
      | some o => s.modify o (refreshTexts env zeit evt)
      | none =>
        match s.cleared env (stripped env zeit evt) with
        | none => s
        | some s => (s.mergeMeta env (stripped env zeit evt)).insertEvent
            (stripped env zeit evt)) := by
  cases hr : s.refreshed env evt with
  | some o =>
    have ho : s.Stored o := by
      unfold refreshed at hr
      cases hf : s.orderUniqueKey.find evt.uniqueKey with
      | none =>
        rw [hf] at hr
        cases hr
      | some p =>
        rw [hf] at hr
        dsimp only at hr
        split at hr
        · cases hr
          exact h.stored hf
        · cases hr
    obtain ⟨name, text, extended, description, item, content, user, heq⟩ :=
      refreshTexts_eq env zeit evt (s.heap o)
    refine modify_indexed h ho ?_ ?_ ?_
    · rw [heq]
      rfl
    · rw [heq]
      rfl
    · intro _ p _ _
      rw [heq]
      exact ⟨rfl, rfl⟩
  | none =>
    cases hc : s.cleared env (stripped env zeit evt) with
    | none => exact h
    | some s' =>
      obtain ⟨hs', hnew⟩ := cleared_indexed h hc
      have hmerged := mergeMeta_indexed hs' (hkeep hrej hr s' hc)
      refine insertEvent_indexed hmerged ?_
      rw [mergeMeta_find]
      exact hnew

theorem addEvent_indexed {s : Store} (h : Indexed s) {env : Env} {evt : SIevent} {zeit : Int}
    {cn : Bool} (hkeep : AddKeepsOrder (if cn then s.updateCN env evt else s) env evt zeit) :
    Indexed (s.addEvent env evt zeit cn) := by
  unfold addEvent
  cases hrej : epgRejected env evt with
  | true => exact h
  | false =>
    refine addStored_indexed ?_ hrej hkeep
    split
    · exact updateCN_indexed h env evt
    · exact h

theorem nvod_indexed {s : Store} (h : Indexed s) (m : OrdMap Nat Nat) :
    Indexed { s with nvodOrderUniqueKey := m } :=
  ⟨h.mapped, h.sets.startSorted, h.sets.endSorted, h.sets.startMem, h.sets.endMem⟩

theorem addNVODevent_indexed {s : Store} (h : Indexed s) (env : Env) (evt : SIevent) :
    Indexed (s.addNVODevent env evt) := by
  unfold addNVODevent
  dsimp only
  have hdel := deleteEvent_indexed h (s.withStoredTimes evt).uniqueKey
  have hnone : (s.deleteEvent (s.withStoredTimes evt).uniqueKey).orderUniqueKey.find
      (s.withStoredTimes evt).uniqueKey = none := by
    rw [deleteEvent_find, if_pos rfl]
  split
  · exact nvod_indexed (insertEvent_indexed (deleteObject_indexed hdel _)
      (deleteObject_find hnone _)) _
  · exact nvod_indexed (insertEvent_indexed hdel hnone) _

theorem step_indexed (s : Store) (a : Act) (t : Store) (h : Indexed s) (hok : KeepsOrder s a)
    (hstep : s.step a = some t) : Indexed t := by
  cases a with
  | addEvent env evt zeit cn =>
    cases hstep
    exact addEvent_indexed h hok
  | addNVODevent env evt =>
    cases hstep
    exact addNVODevent_indexed h env evt
  | addEventTimes env evt =>
    cases hstep
    unfold addEventTimes
    cases ht : evt.timed with
    | false => exact h
    | true =>
      cases hf : s.orderUniqueKey.find evt.uniqueKey with
      | none => exact addEvent_indexed h (hok ht hf)
      | some o => exact addEventTimes_found_indexed h ht (h.stored hf)
  | deleteEvent key =>
    cases hstep
    exact deleteEvent_indexed h key

theorem initial_indexed (heap : Nat → SIevent) : Indexed (initial heap) := by
  refine ⟨?_, .nil, .nil, ?_, ?_⟩
  · intro k o hk
    cases hk
  · intro o
    constructor
    · intro ho
      cases ho
    · rintro ⟨ho, -⟩
      cases ho
  · intro o
    constructor
    · intro ho
      cases ho
    · rintro ⟨ho, -⟩
      cases ho

/-- The sets in the order of the present times, the timed events of the map in
each of them once, and nothing else. -/
structure IndexConsistent (s : Store) : Prop where
  startSorted : s.startSet.Pairwise fun a b => SIevent.startLt (s.heap a) (s.heap b) = true
  endSorted : s.endSet.Pairwise fun a b => SIevent.endLt (s.heap a) (s.heap b) = true
  timed : ∀ o, (s.heap o).timed = true →
    (s.Stored o ↔ s.startSet.count o = 1 ∧ s.endSet.count o = 1)
  held : ∀ o, o ∈ s.startSet ∨ o ∈ s.endSet → s.Stored o

theorem Indexed.consistent {s : Store} (h : Indexed s) : IndexConsistent s where
  startSorted := h.sets.startSorted.imp fun hab => (SIevent.startLt_iff _ _).mpr hab
  endSorted := h.sets.endSorted.imp fun hab => (SIevent.endLt_iff _ _).mpr hab
  timed := by
    intro o ht
    constructor
    · intro ho
      exact ⟨List.count_eq_one_of_mem h.sets.startSorted.nodup ((h.sets.startMem o).mpr ⟨ho, ht⟩),
        List.count_eq_one_of_mem h.sets.endSorted.nodup ((h.sets.endMem o).mpr ⟨ho, ht⟩)⟩
    · rintro ⟨hcount, -⟩
      have hmem : o ∈ s.startSet := List.count_pos_iff.mp (by omega)
      exact ((h.sets.startMem o).mp hmem).1
  held := by
    rintro o (ho | ho)
    · exact ((h.sets.startMem o).mp ho).1
    · exact ((h.sets.endMem o).mp ho).1

/-- As long as no call moves an event of the sets in place, the sets are an
index of the map in every state. -/
theorem index_consistent {heap : Nat → SIevent} {s : Store}
    (hrun : Runs Store.step KeepsOrder (initial heap) s) : IndexConsistent s :=
  (hrun.invariant step_indexed (initial_indexed heap)).consistent

/-! ## An NVOD event and its repeats -/

def sampleEvent (serviceId eventID : UInt16) (startzeit : Int) : SIevent where
  serviceId := serviceId
  originalNetworkId := 133
  transportStreamId := 4
  eventID := eventID
  langName := .empty
  langText := .empty
  langExtendedText := .empty
  itemDescription := []
  item := []
  contentClassification := []
  userClassification := []
  components := []
  ratings := []
  linkageDescs := []
  times := .set .empty startzeit 60
  noTime := ⟨0, 0⟩
  tableId := 0x50
  running := 0

/-- Service 7 carries the repeats of event 1 of service 1. -/
def sampleEnv : Env where
  epgFilter := []
  epgFilterIsWhitelist := false
  epgFilterExceptCurrentNext := false
  languageModeOff := true
  secondsExtendedTextCache := 0
  oldEventsAre := 0
  maxEvents := 0
  now := 0
  messagingCurrentServicekey := 0
  metaOrderServiceUniqueKey :=
    .set .empty (sampleEvent 7 0 0).channelId (sampleEvent 1 1 0).uniqueKey

def sampleStart : Store := initial fun _ => sampleEvent 0 0 0

/-- The NVOD event starts at 1000, another event of its service at 900. -/
def sampleStored : Store :=
  (sampleStart.addNVODevent sampleEnv (sampleEvent 1 1 1000)).addEvent sampleEnv
    (sampleEvent 1 2 900) 0 false

theorem sampleStored_run (ok : Store → Act → Prop)
    (h1 : ok sampleStart (.addNVODevent sampleEnv (sampleEvent 1 1 1000)))
    (h2 : ok (sampleStart.addNVODevent sampleEnv (sampleEvent 1 1 1000))
      (.addEvent sampleEnv (sampleEvent 1 2 900) 0 false)) :
    Runs Store.step ok sampleStart sampleStored :=
  (Runs.refl.tail (.addNVODevent sampleEnv (sampleEvent 1 1 1000)) h1 rfl).tail
    (.addEvent sampleEnv (sampleEvent 1 2 900) 0 false) h2 rfl

/-- A repeat at 2000 leaves the NVOD event where it is. -/
theorem index_consistent_later_repeat :
    IndexConsistent (sampleStored.addEvent sampleEnv (sampleEvent 7 1 2000) 0 false) := by
  have hfirst : sampleEnv.metaOrderServiceUniqueKey.find
      (stripped sampleEnv 0 (sampleEvent 1 2 900)).channelId = none := by decide
  have h2 : KeepsOrder (sampleStart.addNVODevent sampleEnv (sampleEvent 1 1 1000))
      (.addEvent sampleEnv (sampleEvent 1 2 900) 0 false) := by
    intro _ _ s' _ key o hkey
    rw [hfirst] at hkey
    cases hkey
  have hclear : sampleStored.cleared sampleEnv (stripped sampleEnv 0 (sampleEvent 7 1 2000)) =
      some sampleStored := rfl
  have h3 : KeepsOrder sampleStored (.addEvent sampleEnv (sampleEvent 7 1 2000) 0 false) := by
    intro _ _ s' hs' key o hkey _ ho
    cases hclear.symm.trans hs'
    have hkey' : some (sampleEvent 1 1 0).uniqueKey = some key := hkey
    cases hkey'
    have ho' : some 0 = some o := ho
    cases ho'
    decide
  exact index_consistent ((sampleStored_run KeepsOrder trivial h2).tail
    (.addEvent sampleEnv (sampleEvent 7 1 2000) 0 false) h3 rfl)

/-- A repeat at 500 changes the first time of the NVOD event behind the sets'
back. -/
theorem nvod_repeat_unsorts :
    ∃ s, Runs Store.step (fun _ _ => True) sampleStart s ∧ ¬ IndexConsistent s := by
  refine ⟨_, (sampleStored_run (fun _ _ => True) trivial trivial).tail
    (.addEvent sampleEnv (sampleEvent 7 1 500) 0 false) trivial rfl, ?_⟩
  intro h
  exact absurd h.startSorted (by decide)

end Store

end Tuxbox.Sectionsd
