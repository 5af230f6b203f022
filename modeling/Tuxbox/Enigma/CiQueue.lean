import Tuxbox.Lib.Bytes
import Tuxbox.Lib.Run

/-!
# The send queue of the common interface

`sendTPDU` writes a TPDU to the module, or leaves it in a `std::priority_queue`
where the driver is busy or something is waiting already. `dataAvailable` takes one
TPDU out after each read and puts it back with a higher priority if it is busy still.

* `retry_keeps_iff`: when a retry keeps the order, whatever the queue gives;
-/

namespace Tuxbox.Enigma

/-- The bytes `sendTPDU` hands to `sendData`. -/
def tpduBytes (tag tcId : Byte) (data : Str) : Str :=
  let len := data.length
  if len > 127 then
    [tag, 0x82, UInt8.ofNat ((len + 1) >>> 8), UInt8.ofNat ((len + 1) &&& 0xff), tcId] ++ data
  else [tag, UInt8.ofNat (len + 1), tcId] ++ data

structure QueueData where
  prio : Nat
  tcId : Byte
  data : Str
  deriving DecidableEq

/-- The queue, in the order of its `push`es. Beside it: all TPDUs that were written,
and all of the calls of `sendTPDU`. -/
structure CiQueue where
  sendqueue : List QueueData
  written : List Str
  calls : List Str
  deriving DecidableEq

/-- A call of `sendTPDU` and the retry of `dataAvailable`, with whether the driver is
busy. A retry has the place of the element that `top` gives. -/
inductive CiEvent where
  | send (tag tcId : Byte) (data : Str) (busy : Bool)
  | retry (top : Nat) (busy : Bool)
  deriving DecidableEq

namespace CiQueue

def empty : CiQueue := ⟨[], [], []⟩

def sendTPDU (s : CiQueue) (tag tcId : Byte) (data : Str) (busy : Bool) : CiQueue :=
  let buffer := tpduBytes tag tcId data
  let s := { s with calls := s.calls ++ [buffer] }
  if s.sendqueue = [] then
    if busy then { s with sendqueue := [⟨0, tcId, buffer⟩] }
    else { s with written := s.written ++ [buffer] }
  else { s with sendqueue := s.sendqueue ++ [⟨0, tcId, buffer⟩] }

/-- No element has a greater priority. -/
def Highest (s : CiQueue) (d : QueueData) : Prop := ∀ e ∈ s.sendqueue, e.prio ≤ d.prio

instance (s : CiQueue) (d : QueueData) : Decidable (s.Highest d) :=
  inferInstanceAs (Decidable (∀ e ∈ s.sendqueue, e.prio ≤ d.prio))

def retry (s : CiQueue) (d : QueueData) (top : Nat) (busy : Bool) : CiQueue :=
  let s := { s with sendqueue := s.sendqueue.eraseIdx top }
  if busy then { s with sendqueue := s.sendqueue ++ [⟨1, d.tcId, d.data⟩] }
  else { s with written := s.written ++ [d.data] }

/-- `none` where `top` is no place of an element of highest priority. -/
def step (s : CiQueue) : CiEvent → Option CiQueue
  | .send tag tcId data busy => some (s.sendTPDU tag tcId data busy)
  | .retry top busy =>
    match s.sendqueue[top]? with
    | none => if s.sendqueue = [] then some s else none
    | some d => if s.Highest d then some (s.retry d top busy) else none

/-- What waits, in the order the priorities ask for. -/
def waiting (s : CiQueue) : List Str :=
  (s.sendqueue.filter (·.prio = 1) ++ s.sendqueue.filter (·.prio = 0)).map (·.data)

/-- None is lost, duplicated or overtaken. -/
structure Ordered (s : CiQueue) : Prop where
  isFront : s.written <+: s.calls
  whole : (s.written ++ s.sendqueue.map (·.data)).Perm s.calls

/-- The same with what waits: at most one has the higher priority, the oldest. -/
structure InOrder (s : CiQueue) : Prop where
  calls : s.written ++ s.waiting = s.calls
  prio : ∀ d ∈ s.sendqueue, d.prio ≤ 1
  one : (s.sendqueue.filter (·.prio = 1)).length ≤ 1

/-- No two different TPDUs of the highest priority wait. -/
def Alone (s : CiQueue) : Prop :=
  ∀ d ∈ s.sendqueue, ∀ e ∈ s.sendqueue, s.Highest d → s.Highest e → d.data = e.data

def Ok (s : CiQueue) : CiEvent → Prop
  | .send .. => True
  | .retry .. => s.Alone

instance (s : CiQueue) (e : CiEvent) : Decidable (s.Ok e) :=
  match e with
  | .send .. => isTrue trivial
  | .retry .. => inferInstanceAs (Decidable (∀ d ∈ s.sendqueue, ∀ e ∈ s.sendqueue,
      s.Highest d → s.Highest e → d.data = e.data))

section steps
variable {s t : CiQueue} {d : QueueData}

theorem InOrder.ordered (h : s.InOrder) : s.Ordered := by
  constructor
  · exact ⟨s.waiting, h.calls⟩
  · have hzero :
      s.sendqueue.filter (·.prio = 0) = s.sendqueue.filter fun d => !decide (d.prio = 1) := by
      apply List.filter_congr
      intro d hd
      have := h.prio d hd
      rcases Nat.le_one_iff_eq_zero_or_eq_one.mp this with h | h <;> simp [h]
    have hsplit := List.filter_append_perm (fun d => decide (d.prio = 1)) s.sendqueue
    rw [← h.calls, waiting, hzero]
    exact (hsplit.map _).symm.append_left _

theorem send_inOrder (tag tcId : Byte) (data : Str) (busy : Bool) (h : s.InOrder) :
    (s.sendTPDU tag tcId data busy).InOrder := by
  obtain ⟨hcalls, hprio, hone⟩ := h
  unfold sendTPDU
  dsimp only
  split
  · rename_i hnil
    have hcalls : s.written = s.calls := by simpa [waiting, hnil] using hcalls
    cases busy with
    | true => exact ⟨by simp [waiting, hcalls], by simp, by simp⟩
    | false => exact ⟨by simp [waiting, hnil, hcalls], by simp [hnil], by simp [hnil]⟩
  · constructor
    · rw [← hcalls]
      simp [waiting, List.filter_append]
    · intro d hd
      rcases List.mem_append.mp hd with hd | hd
      · exact hprio d hd
      · simp_all
    · simpa [List.filter_append] using hone

/-- What is taken out is the oldest, and no other has the higher priority. -/
theorem waiting_taken {l₁ l₂ : List QueueData} (h : s.InOrder) (hq : s.sendqueue = l₁ ++ d :: l₂)
    (hd : s.Highest d) (halone : s.Alone) :
    s.waiting = d.data :: ((l₁ ++ l₂).filter (·.prio = 0)).map (·.data) ∧
      (l₁ ++ l₂).filter (·.prio = 1) = [] := by
  obtain ⟨-, hprio, hone⟩ := h
  unfold waiting
  unfold Alone Highest at *
  rw [hq] at *
  by_cases hp : d.prio = 1
  · -- the only one with the higher priority
    have hnone : l₁.filter (·.prio = 1) = [] ∧ l₂.filter (·.prio = 1) = [] := by
      simp only [List.filter_append, List.filter_cons, hp, decide_true, if_true,
        List.length_append, List.length_cons] at hone
      exact ⟨List.length_eq_zero_iff.mp (by omega), List.length_eq_zero_iff.mp (by omega)⟩
    simp [List.filter_append, hnone.1, hnone.2, hp]
  · have hmem : d ∈ l₁ ++ d :: l₂ := by simp
    have hd0 : d.prio = 0 := by
      have := hprio d hmem
      omega
    have hzero : ∀ e ∈ l₁ ++ d :: l₂, e.prio = 0 := by
      intro e he
      have := hd e he
      omega
    -- all have the same priority, so all are the same TPDU
    have hsame : ∀ e ∈ l₁ ++ d :: l₂, e.data = d.data := by
      intro e he
      apply halone e he d hmem _ hd
      intro x hx
      rw [hzero x hx]
      exact Nat.zero_le _
    have hrest : ∀ e ∈ l₁ ++ l₂, e ∈ l₁ ++ d :: l₂ := by
      intro e he
      rcases List.mem_append.mp he with he | he <;> simp [he]
    have hfilter {l : List QueueData} (hl : ∀ e ∈ l, e ∈ l₁ ++ d :: l₂) :
        l.filter (·.prio = 1) = [] ∧ l.filter (·.prio = 0) = l := by
      constructor
      · simp only [List.filter_eq_nil_iff]
        intro e he
        simp [hzero e (hl e he)]
      · simp only [List.filter_eq_self]
        intro e he
        simp [hzero e (hl e he)]
    have hmap {l : List QueueData} (hl : ∀ e ∈ l, e ∈ l₁ ++ d :: l₂) :
        l.map (·.data) = List.replicate l.length d.data := by
      apply List.eq_replicate_iff.mpr
      simp only [List.length_map, true_and, List.forall_mem_map]
      exact fun e he => hsame e (hl e he)
    obtain ⟨hone₁, hzero₁⟩ := hfilter fun e he => he
    obtain ⟨hone₂, hzero₂⟩ := hfilter hrest
    rw [hone₁, hzero₁, hone₂, hzero₂, List.nil_append, hmap fun e he => he, hmap hrest]
    rw [List.length_append, List.length_cons, ← Nat.add_assoc, List.replicate_succ,
      ← List.length_append]
    exact ⟨rfl, rfl⟩

theorem retry_inOrder (top : Nat) (busy : Bool) (h : s.InOrder) (halone : s.Alone)
    (ht : s.step (.retry top busy) = some t) : t.InOrder := by
  simp only [step] at ht
  split at ht
  · split_ifs at ht
    cases ht
    exact h
  · rename_i d hd
    split_ifs at ht with hhigh
    cases ht
    obtain ⟨htop, hget⟩ := List.getElem?_eq_some_iff.mp hd
    have hq : s.sendqueue = s.sendqueue.take top ++ d :: s.sendqueue.drop (top + 1) := by
      rw [← hget, ← List.drop_eq_getElem_cons htop, List.take_append_drop]
    obtain ⟨hwaiting, hone⟩ := waiting_taken h hq hhigh halone
    have hcalls := h.calls
    have hprio := h.prio
    rw [hwaiting] at hcalls
    unfold retry
    rw [List.eraseIdx_eq_take_drop_succ]
    have hrest : ∀ e ∈ s.sendqueue.take top ++ s.sendqueue.drop (top + 1), e.prio ≤ 1 := by
      intro e he
      apply hprio e
      rcases List.mem_append.mp he with he | he
      · exact List.mem_of_mem_take he
      · exact List.mem_of_mem_drop he
    generalize s.sendqueue.take top ++ s.sendqueue.drop (top + 1) = rest at *
    cases busy with
    | true =>
      constructor
      · simpa [waiting, List.filter_append, hone] using hcalls
      · intro e he
        rcases List.mem_append.mp he with he | he
        · exact hrest e he
        · rw [List.mem_singleton.mp he]
      · simp [List.filter_append, hone]
    | false =>
      constructor
      · simpa [waiting, hone] using hcalls
      · exact hrest
      · simp [hone]

/-- Only where all that the queue may give are the same TPDU is the order safe. -/
theorem retry_ordered_iff (h : s.InOrder) :
    (∀ top t, s.step (.retry top false) = some t → t.Ordered) ↔ s.Alone := by
  constructor
  · intro hall
    have hfirst : ∀ d ∈ s.sendqueue, s.Highest d → s.waiting.head? = some d.data := by
      intro d hd hhigh
      obtain ⟨top, htop⟩ := List.mem_iff_getElem?.mp hd
      have hstep : s.step (.retry top false) = some (s.retry d top false) := by
        simp only [step, htop, if_pos hhigh]
      have hfront := (hall top _ hstep).isFront
      have hcalls : (s.retry d top false).calls = s.written ++ s.waiting := h.calls.symm
      have hwritten : (s.retry d top false).written = s.written ++ [d.data] := rfl
      rw [hcalls, hwritten, List.prefix_append_right_inj] at hfront
      obtain ⟨rest, hrest⟩ := hfront
      rw [← hrest]
      rfl
    intro d hd e he hhigh hhigh'
    have heq := (hfirst d hd hhigh).symm.trans (hfirst e he hhigh')
    exact Option.some_inj.mp heq
  · exact fun halone top t ht => (retry_inOrder top false h halone ht).ordered

end steps

theorem step_inOrder {s t : CiQueue} (e : CiEvent) (h : s.InOrder) (hok : s.Ok e)
    (ht : s.step e = some t) : t.InOrder := by
  cases e with
  | send tag tcId data busy =>
    cases ht
    exact send_inOrder tag tcId data busy h
  | retry top busy => exact retry_inOrder top busy h hok ht

/-- No TPDU is lost, duplicated or overtaken in a run whose retries all find one
TPDU, or equal ones, of the highest priority. -/
theorem written_in_order (events : List CiEvent) (h : Admits step Ok empty events) :
    Sustains step Ordered empty events := by
  have hempty : empty.InOrder := ⟨rfl, by simp [empty], by simp [empty]⟩
  exact (h.sustains (fun s e t => step_inOrder e) hempty).mono fun _ h => h.ordered

/-- Two TPDUs, the first of which is retried twice. -/
theorem written_in_order_two :
    Sustains step Ordered empty [.send 0xa0 1 [1] true, .retry 0 true, .send 0xa0 1 [2] false,
      .retry 0 false, .retry 0 false] := by
  apply written_in_order
  decide

/-- Four TPDUs wait. A binary heap that gave the first one gives the third one next. -/
def fourWaiting : List CiEvent :=
  [.send 0xa0 1 [1] true, .send 0xa0 1 [2] true, .send 0xa0 1 [3] true, .send 0xa0 1 [4] true,
    .retry 0 false, .retry 1 false]

theorem fourWaiting_overtaken : ¬ Sustains step Ordered empty fourWaiting := by
  intro h
  have hrun : (runList step empty fourWaiting).map (fun s => decide (s.written <+: s.calls)) =
      some false := by
    decide
  obtain ⟨s, hs, hvalue⟩ := Option.map_eq_some_iff.mp hrun
  exact of_decide_eq_false hvalue (h.run hs).isFront

end CiQueue

end Tuxbox.Enigma
