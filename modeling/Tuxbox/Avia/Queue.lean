import Tuxbox.Avia.Ucode
import Tuxbox.Lib.Run

/-!
# Demux queues

The queue table of `avia_gt_dmx.c` over the microcode's feeds: allocation,
interrupts, start and stop. The positions in a queue's memory are left out
here.

* `Dmx.queueStart_eq`, `Dmx.queueStop_eq`: for a queue with one feed.
-/

namespace Tuxbox.Avia

/-- `-EINVAL`, `-EBUSY`, `-EFAULT` -/
inductive Errno
  | einval
  | ebusy
  | efault
deriving DecidableEq

/-- `AVIA_GT_DMX_QUEUE_TELETEXT` -/
def queueTeletext : Nat := 2

/-- `AVIA_GT_DMX_QUEUE_COUNT` -/
def queueCount : Nat := 32

/-- An entry of `queue_list` without its positions, with what other tables hold
for the queue. -/
structure DmxQueue where
  busy : Bool
  running : Bool
  pid : U16
  mode : FeedMode
  /-- `info.feed_idx`, `none` for 0xff. -/
  feedIdx : Option (Fin 32)
  /-- The entry of the queue's interrupt in `gt_isr_proc_list` is in use. No two
  queues share an interrupt. -/
  irqUsed : Bool
  /-- `queue_client`, for system queues. -/
  client : Option Nat
deriving DecidableEq

namespace DmxQueue

/-- `avia_gt_alloc_irq` -/
def allocIrq (q : DmxQueue) : DmxQueue × Option Errno :=
  if q.irqUsed then (q, some .ebusy) else ({ q with irqUsed := true }, none)

/-- `avia_gt_free_irq` -/
def freeIrq (q : DmxQueue) : DmxQueue := { q with irqUsed := false }

/-- The second loop of `avia_gt_dmx_enable_disable_system_queue_irqs` for one
system queue; on these enabling and disabling calls back nothing. -/
def updateClient (new : Option Nat) (q : DmxQueue) : DmxQueue :=
  let q :=
    if new ≠ none ∧ q.client = none then { q with running := true }.allocIrq.1
    else if new = none ∧ q.client ≠ none then { q with running := false }.freeIrq
    else q
  { q with client := new }

/-- `avia_gt_dmx_init` -/
def init : DmxQueue :=
  { busy := false, running := false, pid := 0xFFFF#16, mode := .ts, feedIdx := some 0,
    irqUsed := false, client := none }

/-- What the handling of interrupts leaves alone. -/
structure Same (q q' : DmxQueue) : Prop where
  busy : q'.busy = q.busy
  pid : q'.pid = q.pid
  mode : q'.mode = q.mode
  feedIdx : q'.feedIdx = q.feedIdx

theorem Same.refl (q : DmxQueue) : Same q q := ⟨rfl, rfl, rfl, rfl⟩

theorem Same.trans {q q' q'' : DmxQueue} (h : Same q q') (h' : Same q' q'') : Same q q'' :=
  ⟨h'.busy.trans h.busy, h'.pid.trans h.pid, h'.mode.trans h.mode, h'.feedIdx.trans h.feedIdx⟩

theorem allocIrq_same (q : DmxQueue) : Same q q.allocIrq.1 := by
  unfold allocIrq
  split <;> exact ⟨rfl, rfl, rfl, rfl⟩

theorem updateClient_same (new : Option Nat) (q : DmxQueue) : Same q (q.updateClient new) := by
  have halloc := allocIrq_same { q with running := true }
  unfold updateClient
  simp only
  split
  · exact ⟨halloc.busy, halloc.pid, halloc.mode, halloc.feedIdx⟩
  · split <;> exact ⟨rfl, rfl, rfl, rfl⟩

/-- The interrupt is taken for a new client and given back with the last. -/
theorem updateClient_irqUsed (new : Option Nat) (q : DmxQueue) :
    (q.updateClient new).irqUsed =
      if new ≠ none ∧ q.client = none then true
      else if new = none ∧ q.client ≠ none then false else q.irqUsed := by
  unfold updateClient allocIrq freeIrq
  simp only
  split
  · split
    · assumption
    · rfl
  · split <;> rfl

end DmxQueue

structure Dmx where
  queueList : Nat → DmxQueue
  ucode : Ucode

namespace Dmx

def init : Dmx := ⟨fun _ => DmxQueue.init, Ucode.init⟩

def setQueue (d : Dmx) (n : Nat) (q : DmxQueue) : Dmx :=
  { d with queueList := Function.update d.queueList n q }

/-- The first user queue that runs on the pid, in the mode, of the system queue. -/
def newQueueClient (d : Dmx) (sys : Nat) : Option Nat :=
  (List.range' queueUserStart (queueCount - queueUserStart)).find? fun n =>
    (d.queueList n).running ∧ (d.queueList sys).pid ≠ 0xFFFF#16 ∧
      (d.queueList sys).pid = (d.queueList n).pid ∧ (d.queueList sys).mode = (d.queueList n).mode

/-- `avia_gt_dmx_enable_disable_system_queue_irqs` -/
def enableDisable (d : Dmx) : Dmx :=
  (List.range queueUserStart).foldl (fun e sys =>
    e.setQueue sys ((e.queueList sys).updateClient (d.newQueueClient sys))) d

/-- The first half of enabling and disabling: with a user queue the system
queues follow. -/
def setRunning (d : Dmx) (n : Nat) (running : Bool) : Dmx :=
  let d := d.setQueue n { d.queueList n with running }
  if n < queueUserStart then d else d.enableDisable

/-- `avia_gt_dmx_queue_irq_enable` -/
def irqEnable (d : Dmx) (n : Nat) : Dmx × Option Errno :=
  let d := d.setRunning n true
  (d.setQueue n (d.queueList n).allocIrq.1, (d.queueList n).allocIrq.2)

/-- `avia_gt_dmx_queue_irq_disable` -/
def irqDisable (d : Dmx) (n : Nat) : Dmx :=
  let d := d.setRunning n false
  d.setQueue n (d.queueList n).freeIrq

/-- `avia_gt_dmx_alloc_queue`, with the number of the queue. -/
def allocQueue (d : Dmx) (n : Nat) : Option (Dmx × Nat) :=
  if queueCount ≤ n then none
  else if (d.queueList n).busy then none
  else some (d.setQueue n { d.queueList n with busy := true }, n)

/-- `avia_gt_dmx_alloc_queue_user`; the last queue is the message queue. -/
def allocQueueUser (d : Dmx) : Option (Dmx × Nat) :=
  match (List.range' queueUserStart 28).find? fun n => ¬ (d.queueList n).busy with
  | none => none
  | some n => d.allocQueue n

/-- `avia_gt_dmx_free_queue` -/
def freeQueue (d : Dmx) (n : Nat) : Dmx × Option Errno :=
  if queueCount ≤ n then (d, some .einval)
  else if ¬ (d.queueList n).busy then (d, some .efault)
  else
    let d := d.irqDisable n
    (d.setQueue n { d.queueList n with busy := false }, none)

/-- `avia_gt_dmx_queue_start`, for a queue of the table. -/
def queueStart (info : UcodeInfo) (d : Dmx) (n : Nat) (mode : FeedMode) (pid : U16) : Dmx :=
  let d := d.setQueue n { d.queueList n with pid, mode }
  let d := if n < queueUserStart then d.enableDisable else d
  { d with ucode := d.ucode.startQueueFeeds info n }

/-- `avia_gt_dmx_queue_stop`, for a queue of the table. -/
def queueStop (d : Dmx) (n : Nat) : Dmx :=
  let d := (d.setQueue n { d.queueList n with pid := 0xFFFF#16 }).irqDisable n
  { d with ucode := d.ucode.stopQueueFeeds n true }

/-- `avia_gt_dmx_tap` -/
def tap (info : UcodeInfo) (d : Dmx) (n : Nat) (start : Bool) : Dmx :=
  match (d.queueList n).feedIdx with
  | none => d
  | some i =>
    { d with ucode := if start then d.ucode.startFeed info i true else d.ucode.stopFeed i false }

/-! ## What the calls do -/

section
variable {info : UcodeInfo} {d : Dmx} {n : Nat}

@[simp] theorem setQueue_ucode (d : Dmx) (n : Nat) (q : DmxQueue) :
    (d.setQueue n q).ucode = d.ucode := rfl

@[simp] theorem setQueue_queueList (d : Dmx) (n : Nat) (q : DmxQueue) :
    (d.setQueue n q).queueList = Function.update d.queueList n q := rfl

/-- What the system queues get from the user queues. -/
theorem enableDisable_queueList (d : Dmx) (n : Nat) :
    d.enableDisable.queueList n =
      if n < queueUserStart then (d.queueList n).updateClient (d.newQueueClient n)
      else d.queueList n := by
  simp only [enableDisable, queueUserStart, List.range_succ, List.range_zero, List.nil_append,
    List.cons_append, List.foldl_cons, List.foldl_nil, setQueue_queueList, Function.update_apply]
  by_cases h0 : n = 0
  · simp [h0]
  · by_cases h1 : n = 1
    · simp [h1]
    · by_cases h2 : n = 2
      · simp [h2]
      · simp [h0, h1, h2, show ¬ n < 3 by omega]

/-- Without a pid a system queue has no client. -/
theorem newQueueClient_of_noPid (h : (d.queueList n).pid = 0xFFFF#16) :
    d.newQueueClient n = none := by
  simp [newQueueClient, h]

/-- A queue that is not busy has no pid and no interrupt. -/
def Idle (d : Dmx) : Prop :=
  ∀ m, (d.queueList m).busy = false →
    (d.queueList m).irqUsed = false ∧ (d.queueList m).pid = 0xFFFF#16

theorem Idle.setQueue (h : d.Idle) {q : DmxQueue}
    (hq : q.busy = false → q.irqUsed = false ∧ q.pid = 0xFFFF#16) : (d.setQueue n q).Idle := by
  intro m
  by_cases hm : m = n
  · simpa [hm] using hq
  · simpa [hm] using h m

theorem enableDisable_same (d : Dmx) (m : Nat) :
    DmxQueue.Same (d.queueList m) (d.enableDisable.queueList m) := by
  rw [enableDisable_queueList]
  split
  · exact DmxQueue.updateClient_same _ _
  · exact DmxQueue.Same.refl _

theorem Idle.enableDisable (h : d.Idle) : d.enableDisable.Idle := by
  intro m hm
  rw [(enableDisable_same d m).busy] at hm
  obtain ⟨hirq, hpid⟩ := h m hm
  refine ⟨?_, by rw [(enableDisable_same d m).pid, hpid]⟩
  rw [enableDisable_queueList]
  split
  · rw [newQueueClient_of_noPid hpid, DmxQueue.updateClient_irqUsed]
    simp [hirq]
  · exact hirq

/-- What the handling of interrupts of a queue leaves alone. -/
structure Same (d e : Dmx) : Prop where
  ucode : e.ucode = d.ucode
  queues : ∀ m, DmxQueue.Same (d.queueList m) (e.queueList m)

theorem Same.trans {d e f : Dmx} (h : Same d e) (h' : Same e f) : Same d f :=
  ⟨h'.ucode.trans h.ucode, fun m => (h.queues m).trans (h'.queues m)⟩

theorem same_setQueue {q : DmxQueue} (h : DmxQueue.Same (d.queueList n) q) :
    Same d (d.setQueue n q) := by
  refine ⟨rfl, ?_⟩
  intro m
  by_cases hm : m = n
  · simpa [hm] using h
  · simpa [hm] using DmxQueue.Same.refl _

theorem same_enableDisable (d : Dmx) : Same d d.enableDisable := ⟨rfl, enableDisable_same d⟩

theorem same_setRunning (d : Dmx) (n : Nat) (on : Bool) : Same d (d.setRunning n on) := by
  have hset : Same d (d.setQueue n { d.queueList n with running := on }) :=
    same_setQueue ⟨rfl, rfl, rfl, rfl⟩
  unfold setRunning
  split
  · exact hset
  · exact hset.trans (same_enableDisable _)

theorem Idle.setRunning (h : d.Idle) (on : Bool) : (d.setRunning n on).Idle := by
  have hset : (d.setQueue n { d.queueList n with running := on }).Idle := h.setQueue (h n)
  unfold Dmx.setRunning
  split
  · exact hset
  · exact hset.enableDisable

/-- The queue itself is only marked. -/
theorem setRunning_irqUsed (d : Dmx) (n : Nat) (on : Bool) :
    ((d.setRunning n on).queueList n).irqUsed = (d.queueList n).irqUsed := by
  unfold setRunning
  split
  · simp
  · rw [enableDisable_queueList, if_neg (by assumption)]
    simp

theorem same_irqDisable (d : Dmx) (n : Nat) : Same d (d.irqDisable n) :=
  (same_setRunning d n false).trans (same_setQueue ⟨rfl, rfl, rfl, rfl⟩)

theorem irqDisable_irqUsed (d : Dmx) (n : Nat) :
    ((d.irqDisable n).queueList n).irqUsed = false := by
  simp [irqDisable, DmxQueue.freeIrq]

theorem Idle.irqDisable (h : d.Idle) : (d.irqDisable n).Idle :=
  (h.setRunning false).setQueue fun hb => ⟨rfl, (h.setRunning false n hb).2⟩

theorem same_irqEnable (d : Dmx) (n : Nat) : Same d (d.irqEnable n).1 :=
  (same_setRunning d n true).trans (same_setQueue (DmxQueue.allocIrq_same _))

theorem Idle.irqEnable (h : d.Idle) (hb : (d.queueList n).busy) : (d.irqEnable n).1.Idle := by
  have hsame := ((same_setRunning d n true).queues n).trans (DmxQueue.allocIrq_same _)
  refine (h.setRunning true).setQueue ?_
  intro hq
  rw [hsame.busy, hb] at hq
  cases hq

/-- Enabling fails where the interrupt is in use. -/
theorem irqEnable_result (d : Dmx) (n : Nat) :
    (d.irqEnable n).2 = if (d.queueList n).irqUsed then some .ebusy else none := by
  simp only [Dmx.irqEnable, DmxQueue.allocIrq, setRunning_irqUsed]
  split <;> rfl

theorem allocQueue_some {e : Dmx} {m : Nat} (h : d.allocQueue n = some (e, m)) :
    m = n ∧ n < queueCount ∧ (d.queueList n).busy = false ∧
    e = d.setQueue n { d.queueList n with busy := true } := by
  simp only [allocQueue] at h
  split at h
  · cases h
  · split at h
    · cases h
    · cases h
      exact ⟨rfl, by omega, by simp_all, rfl⟩

theorem allocQueueUser_some {e : Dmx} (h : d.allocQueueUser = some (e, n)) :
    queueUserStart ≤ n ∧ n ≤ 30 ∧ (d.queueList n).busy = false ∧
    e = d.setQueue n { d.queueList n with busy := true } := by
  simp only [allocQueueUser] at h
  split at h
  · cases h
  · rename_i m hfind
    obtain ⟨rfl, -, hb, he⟩ := allocQueue_some h
    have hmem := List.mem_of_find?_eq_some hfind
    simp only [List.mem_range'_1, queueUserStart] at hmem ⊢
    exact ⟨hmem.1, by omega, hb, he⟩

/-- The queues after a start. -/
theorem queueStart_queues (d : Dmx) (n : Nat) (mode : FeedMode) (pid : U16) (m : Nat) :
    DmxQueue.Same (if m = n then { d.queueList n with pid, mode } else d.queueList m)
      ((d.queueStart info n mode pid).queueList m) := by
  have hset : ∀ m, (d.setQueue n { d.queueList n with pid, mode }).queueList m =
      if m = n then { d.queueList n with pid, mode } else d.queueList m := by
    intro m
    rw [setQueue_queueList, Function.update_apply]
  unfold queueStart
  simp only
  rw [← hset m]
  split
  · exact enableDisable_same _ m
  · exact DmxQueue.Same.refl _

theorem queueStart_ucode {i : Fin 32} {mode : FeedMode} {pid : U16}
    (h : ∀ j, (d.ucode.ucodeFeed j).destQueue = some n ↔ j = i) :
    (d.queueStart info n mode pid).ucode = d.ucode.startFeed info i false := by
  rw [← Ucode.startQueueFeeds_single h]
  unfold queueStart
  simp only
  split <;> rfl

theorem Idle.queueStart (h : d.Idle) (hb : (d.queueList n).busy) (mode : FeedMode) (pid : U16) :
    (d.queueStart info n mode pid).Idle := by
  have hset : (d.setQueue n { d.queueList n with pid, mode }).Idle := by
    refine h.setQueue ?_
    intro hq
    rw [show (d.queueList n).busy = true from hb] at hq
    cases hq
  unfold Dmx.queueStart
  simp only
  split
  · exact hset.enableDisable
  · exact hset

/-- The user queues see nothing of the interrupts of a start. -/
theorem queueStart_irqUsed_user (hn : ¬ n < queueUserStart) (mode : FeedMode) (pid : U16) :
    ((d.queueStart info n mode pid).queueList n).irqUsed = (d.queueList n).irqUsed := by
  simp [queueStart, hn]

theorem queueStop_queues (d : Dmx) (n m : Nat) :
    DmxQueue.Same (if m = n then { d.queueList n with pid := 0xFFFF#16 } else d.queueList m)
      ((d.queueStop n).queueList m) := by
  have h := (same_irqDisable (d.setQueue n { d.queueList n with pid := 0xFFFF#16 }) n).queues m
  rw [setQueue_queueList, Function.update_apply] at h
  exact h

theorem queueStop_ucode {i : Fin 32} (h : ∀ j, (d.ucode.ucodeFeed j).destQueue = some n ↔ j = i) :
    (d.queueStop n).ucode = d.ucode.stopFeed i true := by
  have hsame := (same_irqDisable (d.setQueue n { d.queueList n with pid := 0xFFFF#16 }) n).ucode
  rw [← Ucode.stopQueueFeeds_single h]
  simp only [queueStop, hsame, setQueue_ucode]

theorem Idle.queueStop (h : d.Idle) : (d.queueStop n).Idle :=
  Idle.irqDisable (h.setQueue fun hq => ⟨(h n hq).1, rfl⟩)

theorem freeQueue_busy (hn : n < queueCount) (hb : (d.queueList n).busy) :
    d.freeQueue n =
      ((d.irqDisable n).setQueue n { (d.irqDisable n).queueList n with busy := false }, none) := by
  simp [freeQueue, hb, show ¬ queueCount ≤ n by omega]

end

end Dmx

end Tuxbox.Avia
