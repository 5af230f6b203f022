import Tuxbox.Sectionsd.Index

/-! The event map by itself. Whatever becomes of the sets, every call keeps each object under
its own key.

Main result: `keyed_of_runs`. -/
namespace Tuxbox.Sectionsd.Store

/-- Each object is under its own key, and it is one that was made. -/
def Keyed (s : Store) : Prop :=
  ∀ k o, s.orderUniqueKey.find k = some o → (s.heap o).uniqueKey = k ∧ o < s.next

/-- The objects are the same, and some may be in the map no more. -/
structure Shrinks (s t : Store) : Prop where
  heap : t.heap = s.heap
  next : t.next = s.next
  found : ∀ k o, t.orderUniqueKey.find k = some o → s.orderUniqueKey.find k = some o

section
variable {s t u : Store} {env : Env} {e evt : SIevent}

/-! ## Deleting -/

theorem Shrinks.refl : Shrinks s s := ⟨rfl, rfl, fun _ _ h => h⟩

theorem Shrinks.trans (h : Shrinks s t) (h' : Shrinks t u) : Shrinks s u :=
  ⟨h'.heap.trans h.heap, h'.next.trans h.next, fun k o hk => h.found k o (h'.found k o hk)⟩

theorem Keyed.shrinks (h : Keyed s) (hst : Shrinks s t) : Keyed t := by
  intro k o hk
  rw [hst.heap, hst.next]
  exact h k o (hst.found k o hk)

theorem deleteEvent_same (k : Nat) :
    (s.deleteEvent k).heap = s.heap ∧ (s.deleteEvent k).next = s.next := by
  unfold deleteEvent
  cases s.orderUniqueKey.find k with
  | none => exact ⟨rfl, rfl⟩
  | some o =>
    obtain ⟨hheap, -, hnext⟩ := takeOut_same (s := s) o
    exact ⟨hheap, hnext⟩

theorem deleteEvent_shrinks (k : Nat) : Shrinks s (s.deleteEvent k) := by
  refine ⟨(deleteEvent_same k).1, (deleteEvent_same k).2, ?_⟩
  intro k' o hk
  rw [deleteEvent_find] at hk
  split at hk
  · cases hk
  · exact hk

theorem deleteAll_shrinks (keys : List Nat) : Shrinks s (keys.foldl deleteEvent s) := by
  induction keys generalizing s with
  | nil => exact .refl
  | cons k ks ih => exact (deleteEvent_shrinks k).trans ih

theorem deleteObject_shrinks (o : Option Nat) : Shrinks s (s.deleteObject o) := by
  cases o with
  | none => exact .refl
  | some o => exact deleteEvent_shrinks _

theorem makeRoom_shrinks (env : Env) : Shrinks s (s.makeRoom env) := by
  unfold makeRoom
  split
  · dsimp only
    split <;> exact deleteObject_shrinks _
  · exact .refl

theorem cleared_shrinks (h : s.cleared env e = some t) :
    Shrinks s t ∧ t.orderUniqueKey.find e.uniqueKey = none := by
  unfold cleared at h
  cases ho : overlaps s.heap e (s.notBehind e) [] with
  | none =>
    rw [ho] at h
    cases h
  | some toDelete =>
    rw [ho] at h
    cases h
    have hdel := (deleteAll_shrinks (s := s) toDelete.reverse).trans (deleteEvent_shrinks e.uniqueKey)
    refine ⟨hdel.trans (makeRoom_shrinks env), makeRoom_find ?_ env⟩
    rw [deleteEvent_find, if_pos rfl]

/-! ## Changing and inserting -/

theorem Keyed.modify (h : Keyed s) {o : Nat} {f : SIevent → SIevent}
    (hkey : (f (s.heap o)).uniqueKey = (s.heap o).uniqueKey) : Keyed (s.modify o f) := by
  intro k p hk
  rw [modify_uniqueKey hkey]
  exact h k p hk

theorem Keyed.takeOut (h : Keyed s) (o : Nat) : Keyed (s.takeOut o) := by
  obtain ⟨hheap, hmap, hnext⟩ := takeOut_same (s := s) o
  intro k p hk
  rw [hheap, hnext]
  exact h k p (hmap ▸ hk)

theorem Keyed.insertSets (h : Keyed s) (o : Nat) : Keyed (s.insertSets o) := h

theorem Keyed.insertEvent (h : Keyed s) (hnew : s.orderUniqueKey.find e.uniqueKey = none) :
    Keyed (s.insertEvent e) := by
  have hobject : Keyed (s.withObject e) := withObject_mapped h hnew
  unfold Store.insertEvent
  dsimp only
  split
  · exact hobject.insertSets s.next
  · exact hobject

theorem Keyed.mergeMeta (h : Keyed s) (env : Env) (e : SIevent) : Keyed (s.mergeMeta env e) := by
  unfold Store.mergeMeta
  cases env.metaOrderServiceUniqueKey.find e.channelId with
  | none => exact h
  | some key =>
    dsimp only
    split
    · cases s.orderUniqueKey.find key with
      | none => exact h
      | some o =>
        dsimp only
        split
        · exact h.modify (SIevent.addTimes_uniqueKey _ _)
        · exact (h.insertSets o).modify (SIevent.addTimes_uniqueKey _ _)
    · exact h

/-! ## The calls -/

theorem Keyed.updateCN (h : Keyed s) (env : Env) (evt : SIevent) : Keyed (s.updateCN env evt) := by
  obtain ⟨current, next, got, heq⟩ := updateCN_eq s env evt
  rw [heq]
  exact h

theorem Keyed.addStored (h : Keyed s) (zeit : Int) :
    Keyed (match s.refreshed env evt with
      | some o => s.modify o (refreshTexts env zeit evt)
      | none =>
        match s.cleared env (stripped env zeit evt) with
        | none => s
        | some s => (s.mergeMeta env (stripped env zeit evt)).insertEvent
            (stripped env zeit evt)) := by
  cases s.refreshed env evt with
  | some o =>
    obtain ⟨name, text, extended, description, item, content, user, heq⟩ :=
      refreshTexts_eq env zeit evt (s.heap o)
    refine h.modify ?_
    rw [heq]
    rfl
  | none =>
    cases hc : s.cleared env (stripped env zeit evt) with
    | none => exact h
    | some s' =>
      obtain ⟨hs', hnew⟩ := cleared_shrinks hc
      refine ((h.shrinks hs').mergeMeta env _).insertEvent ?_
      rw [mergeMeta_find]
      exact hnew

theorem Keyed.addEvent (h : Keyed s) (env : Env) (evt : SIevent) (zeit : Int) (cn : Bool) :
    Keyed (s.addEvent env evt zeit cn) := by
  unfold Store.addEvent
  cases epgRejected env evt with
  | true => exact h
  | false =>
    refine Keyed.addStored ?_ zeit
    split
    · exact h.updateCN env evt
    · exact h

theorem Keyed.addNVODevent (h : Keyed s) (env : Env) (evt : SIevent) :
    Keyed (s.addNVODevent env evt) := by
  unfold Store.addNVODevent
  dsimp only
  have hdel := h.shrinks (deleteEvent_shrinks (s.withStoredTimes evt).uniqueKey)
  have hnone : (s.deleteEvent (s.withStoredTimes evt).uniqueKey).orderUniqueKey.find
      (s.withStoredTimes evt).uniqueKey = none := by
    rw [deleteEvent_find, if_pos rfl]
  split
  · exact (hdel.shrinks (deleteObject_shrinks _)).insertEvent (deleteObject_find hnone _)
  · exact hdel.insertEvent hnone

theorem Keyed.addEventTimes (h : Keyed s) (env : Env) (evt : SIevent) :
    Keyed (s.addEventTimes env evt) := by
  unfold Store.addEventTimes
  split
  · cases s.orderUniqueKey.find evt.uniqueKey with
    | none => exact h.addEvent env evt 0 false
    | some o =>
      have hmoved : Keyed ((s.takeOut o).modify o (·.addTimes evt.times)) :=
        (h.takeOut o).modify (SIevent.addTimes_uniqueKey _ _)
      exact hmoved.insertSets o
  · exact h

theorem step_keyed (s : Store) (a : Act) (t : Store) (h : Keyed s) (hstep : s.step a = some t) :
    Keyed t := by
  cases a with
  | addEvent env evt zeit cn =>
    cases hstep
    exact h.addEvent env evt zeit cn
  | addNVODevent env evt =>
    cases hstep
    exact h.addNVODevent env evt
  | addEventTimes env evt =>
    cases hstep
    exact h.addEventTimes env evt
  | deleteEvent key =>
    cases hstep
    exact h.shrinks (deleteEvent_shrinks key)

end

theorem keyed_of_runs {heap : Nat → SIevent} {s : Store} {ok : Store → Act → Prop}
    (h : Runs step ok (initial heap) s) : Keyed s := by
  refine h.invariant (fun s a t hs _ hstep => step_keyed s a t hs hstep) ?_
  intro k o hk
  cases hk

end Tuxbox.Sectionsd.Store
