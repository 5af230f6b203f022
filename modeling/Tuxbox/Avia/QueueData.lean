import Tuxbox.Lib.Bytes
import Tuxbox.Lib.Ring
import Tuxbox.Lib.Run

/-!
# The data of a demux queue

The positions of a queue in `avia_gt_dmx.c`, the accessors that wrap around its
end, the queue interrupt and the bottom half. The hardware writes behind the
driver's back; the driver learns of it at an interrupt.
-/

namespace Tuxbox.Avia

/-- The positions of `sAviaGtDmxQueue`, relative to the queue's memory. -/
structure QueueData where
  mem : Nat → Byte
  /-- The hardware's write pointer. -/
  register : Nat
  hwWritePos : Nat
  writePos : Nat
  readPos : Nat
  overflowCount : UInt8

namespace QueueData

/-- After `avia_gt_dmx_queue_reset`. -/
def init : QueueData := ⟨fun _ => 0, 0, 0, 0, 0, 0⟩

/-- `avia_gt_dmx_queue_get_buf1_size` -/
def getBuf1Size (size : Nat) (q : QueueData) : Nat :=
  if q.readPos ≤ q.writePos then q.writePos - q.readPos else size - q.readPos

/-- `avia_gt_dmx_queue_get_buf2_size` -/
def getBuf2Size (q : QueueData) : Nat := if q.readPos ≤ q.writePos then 0 else q.writePos

/-- `avia_gt_dmx_queue_get_bytes_avail` -/
def getBytesAvail (size : Nat) (q : QueueData) : Nat := q.getBuf1Size size + q.getBuf2Size

/-- `avia_gt_dmx_queue_data_get`, with what it copies to `dest`. -/
def dataGet (size : Nat) (q : QueueData) (count : Nat) (peek : Bool) : List Byte × QueueData :=
  let bytesAvail := q.getBytesAvail size
  let count := if bytesAvail < count then bytesAvail else count
  let wraps : Bool := q.writePos < q.readPos ∧ size - q.readPos ≤ count
  let done := if wraps then size - q.readPos else 0
  let readPos := if wraps then 0 else q.readPos
  let first := if wraps then Ring.slice q.mem q.readPos done else []
  (first ++ Ring.slice q.mem readPos (count - done),
    if peek then q else { q with readPos := readPos + count - done })

/-- The cases of `avia_gt_dmx_queue_irq`. -/
def overflows (readPos oldHwWritePos hwWritePos : Nat) : Bool :=
  (readPos < oldHwWritePos ∧ readPos ≤ hwWritePos ∧ hwWritePos < oldHwWritePos) ∨
  (oldHwWritePos < readPos ∧ (readPos ≤ hwWritePos ∨ hwWritePos < oldHwWritePos))

/-- `avia_gt_dmx_queue_irq` -/
def irq (q : QueueData) : QueueData :=
  { q with
    hwWritePos := q.register
    overflowCount :=
      if overflows q.readPos q.hwWritePos q.register then q.overflowCount + 1
      else q.overflowCount }

/-- `avia_gt_dmx_bh_task` up to the callback. -/
def bhTask (q : QueueData) : QueueData :=
  if q.overflowCount ≠ 0 then
    { q with writePos := q.hwWritePos, readPos := q.hwWritePos, overflowCount := 0 }
  else { q with writePos := q.hwWritePos }

/-- Bytes from the hardware. -/
def hwWrite (size : Nat) (q : QueueData) (bytes : List Byte) : QueueData :=
  { q with
    mem := Ring.push size q.mem q.register bytes
    register := (q.register + bytes.length) % size }

end QueueData

/-- The memory and the write position of a system queue that is written to. -/
structure SystemQueue where
  mem : Nat → Byte
  writePos : Nat

namespace SystemQueue

/-- `avia_gt_dmx_queue_get_bytes_free`, for the position the hardware reads at. -/
def getBytesFree (size : Nat) (q : SystemQueue) (hwReadPos : Nat) : Nat :=
  if hwReadPos ≤ q.writePos then (size - q.writePos) + hwReadPos - 1
  else hwReadPos - q.writePos - 1

/-- `avia_gt_dmx_queue_data_put` -/
def dataPut (size : Nat) (q : SystemQueue) (hwReadPos : Nat) (src : List Byte) :
    Nat × SystemQueue :=
  let bytesFree := q.getBytesFree size hwReadPos
  let count := if bytesFree < src.length then bytesFree else src.length
  let wraps : Bool := size ≤ q.writePos + count
  let done := if wraps then size - q.writePos else 0
  let mem := if wraps then Ring.copy q.mem q.writePos (src.take done) else q.mem
  let writePos := if wraps then 0 else q.writePos
  let rest := (src.take count).drop done
  (count, ⟨if count - done = 0 then mem else Ring.copy mem writePos rest,
    writePos + (count - done)⟩)

end SystemQueue

/-! ## The accessors -/

section
variable {size : Nat} {q : QueueData}

theorem getBytesAvail_eq (hr : q.readPos < size) (hw : q.writePos < size) :
    q.getBytesAvail size = (q.writePos + size - q.readPos) % size := by
  unfold QueueData.getBytesAvail QueueData.getBuf1Size QueueData.getBuf2Size
  split
  · rw [show q.writePos + size - q.readPos = (q.writePos - q.readPos) + size by omega,
      Nat.add_mod_right, Nat.mod_eq_of_lt (by omega)]
    rfl
  · rw [Nat.mod_eq_of_lt (by omega)]
    omega

theorem getBytesAvail_lt (hr : q.readPos < size) (hw : q.writePos < size) :
    q.getBytesAvail size < size := by
  rw [getBytesAvail_eq hr hw]
  exact Nat.mod_lt _ (by omega)

/-- The bytes are those from the read position on, as many as are asked for and
there; the read position moves behind them. -/
theorem dataGet_spec (hr : q.readPos < size) (hw : q.writePos < size) (count : Nat)
    (peek : Bool) :
    (q.dataGet size count peek).1 =
      Ring.around size q.mem q.readPos (min count (q.getBytesAvail size)) ∧
    (q.dataGet size count peek).2 = if peek then q else
      { q with readPos := (q.readPos + min count (q.getBytesAvail size)) % size } := by
  have hlt := getBytesAvail_lt hr hw
  have hmin : (if q.getBytesAvail size < count then q.getBytesAvail size else count) =
      min count (q.getBytesAvail size) := by
    split <;> omega
  have havail : q.getBytesAvail size = if q.readPos ≤ q.writePos then q.writePos - q.readPos
      else size - q.readPos + q.writePos := by
    unfold QueueData.getBytesAvail QueueData.getBuf1Size QueueData.getBuf2Size
    split <;> rfl
  unfold QueueData.dataGet
  simp only [hmin]
  generalize hn : min count (q.getBytesAvail size) = n
  have hle : n ≤ q.getBytesAvail size := by omega
  rw [havail] at hle
  by_cases hwrap : q.writePos < q.readPos ∧ size - q.readPos ≤ n
  · simp only [hwrap, and_self, decide_true, if_true]
    have hn : n ≤ size := by omega
    have hmod : (q.readPos + n) % size = 0 + n - (size - q.readPos) := by
      rw [Ring.add_mod_cases hr hn, if_neg (by omega)]
      omega
    rw [hmod]
    exact ⟨Ring.slice_append_slice hr (by omega) hn, rfl⟩
  · have hfit : q.readPos + n < size := by
      split at hle <;> omega
    simp only [hwrap, decide_false, Bool.false_eq_true, if_false, List.nil_append, Nat.sub_zero]
    refine ⟨Ring.slice_eq_around (by omega), ?_⟩
    rw [Nat.mod_eq_of_lt hfit]

/-- With `unread` bytes before the old position and `new` behind it, the table of
cases tells whether they fill the queue. -/
theorem overflows_iff {readPos unread new : Nat} (hr : readPos < size) (hu : unread < size)
    (hn : new < size) :
    QueueData.overflows readPos ((readPos + unread) % size) ((readPos + (unread + new)) % size) =
      true ↔ size ≤ unread + new := by
  have hold := Ring.add_mod_cases (d := unread) hr (by omega)
  have hnew : (readPos + (unread + new)) % size =
      if (readPos + unread) % size + new < size then (readPos + unread) % size + new
      else (readPos + unread) % size + new - size := by
    rw [← Nat.add_assoc, ← Nat.mod_add_mod,
      Ring.add_mod_cases (Nat.mod_lt _ (by omega)) (by omega)]
  simp only [QueueData.overflows, decide_eq_true_eq]
  rw [hnew]
  generalize (readPos + unread) % size = old at hold
  split at hold <;> split <;> omega

/-- The cells a put changes. -/
theorem copy_apply (mem : Nat → Byte) (pos : Nat) (xs : List Byte) (i : Nat) :
    Ring.copy mem pos xs i =
      if pos ≤ i ∧ i < pos + xs.length then xs.getD (i - pos) 0 else mem i := by
  unfold Ring.copy
  by_cases hp : pos ≤ i
  · rw [if_pos hp]
    by_cases hi : i < pos + xs.length
    · rw [if_pos ⟨hp, hi⟩, List.getElem?_eq_getElem (by omega), List.getD_eq_getElem?_getD,
        List.getElem?_eq_getElem (by omega)]
      rfl
    · rw [if_neg (by omega), List.getElem?_eq_none (by omega)]
      rfl
  · rw [if_neg hp, if_neg (by omega)]

/-- A copy that the code leaves out when there is nothing to copy. -/
theorem copy_unless_zero (mem : Nat → Byte) (pos n : Nat) (xs : List Byte) (hn : xs.length = n)
    (i : Nat) : (if n = 0 then mem else Ring.copy mem pos xs) i =
      if pos ≤ i ∧ i < pos + n then xs.getD (i - pos) 0 else mem i := by
  split
  · rw [if_neg (by omega)]
  · rw [copy_apply, hn]

theorem getD_part {d n j : Nat} (src : List Byte) (h : d + j < n) :
    ((src.take n).drop d).getD j 0 = src.getD (d + j) 0 := by
  rw [List.getD_eq_getElem?_getD, List.getD_eq_getElem?_getD, List.getElem?_drop,
    List.getElem?_take_of_lt h]

/-- How far the cell is behind the position. -/
def behind (size pos x : Nat) : Nat := if pos ≤ x then x - pos else x + size - pos

theorem getBytesFree_lt {p : SystemQueue} {hwReadPos : Nat} (hw : p.writePos < size)
    (hr : hwReadPos < size) : p.getBytesFree size hwReadPos < size := by
  unfold SystemQueue.getBytesFree
  split <;> omega

/-- A put stores as many bytes as there is space for, from the write position on,
and touches no other cell. -/
theorem dataPut_spec {p : SystemQueue} {hwReadPos : Nat} (hw : p.writePos < size)
    (hr : hwReadPos < size) (src : List Byte) :
    (p.dataPut size hwReadPos src).1 = min src.length (p.getBytesFree size hwReadPos) ∧
    (p.dataPut size hwReadPos src).2.writePos =
      (p.writePos + min src.length (p.getBytesFree size hwReadPos)) % size ∧
    ∀ x, (p.dataPut size hwReadPos src).2.mem x =
      if x < size ∧ behind size p.writePos x < min src.length (p.getBytesFree size hwReadPos)
      then src.getD (behind size p.writePos x) 0 else p.mem x := by
  have hfree := getBytesFree_lt hw hr
  have hmin : (if p.getBytesFree size hwReadPos < src.length then p.getBytesFree size hwReadPos
      else src.length) = min src.length (p.getBytesFree size hwReadPos) := by
    split <;> omega
  unfold SystemQueue.dataPut
  simp only [hmin]
  generalize hn : min src.length (p.getBytesFree size hwReadPos) = n
  have hle : n ≤ src.length := by omega
  have hlt : n < size := by omega
  by_cases hwrap : size ≤ p.writePos + n
  · simp only [hwrap, decide_true, if_true]
    refine ⟨trivial, ?_, ?_⟩
    · rw [Ring.add_mod_cases hw (by omega), if_neg (by omega)]
      omega
    · intro x
      have hrest : ((src.take n).drop (size - p.writePos)).length = n - (size - p.writePos) := by
        rw [List.length_drop, List.length_take]
        omega
      have hfirst : (src.take (size - p.writePos)).length = size - p.writePos := by
        rw [List.length_take]
        omega
      rw [copy_unless_zero _ _ _ _ hrest, copy_apply, hfirst]
      by_cases hlow : 0 ≤ x ∧ x < 0 + (n - (size - p.writePos))
      · have hdist : behind size p.writePos x = size - p.writePos + (x - 0) := by
          unfold behind
          rw [if_neg (by omega)]
          omega
        rw [if_pos hlow, hdist, if_pos (by omega), getD_part src (by omega)]
      · rw [if_neg hlow]
        by_cases hhigh : p.writePos ≤ x ∧ x < p.writePos + (size - p.writePos)
        · have hdist : behind size p.writePos x = x - p.writePos := if_pos hhigh.1
          have hpart := getD_part (d := 0) (n := size - p.writePos) (j := x - p.writePos) src
            (by omega)
          rw [List.drop_zero, Nat.zero_add] at hpart
          rw [if_pos hhigh, hdist, if_pos (by omega), hpart]
        · rw [if_neg hhigh, if_neg]
          unfold behind
          split <;> omega
  · simp only [hwrap, decide_false, Bool.false_eq_true, if_false, Nat.sub_zero, List.drop_zero]
    refine ⟨trivial, ?_, ?_⟩
    · rw [Nat.mod_eq_of_lt (by omega)]
    · intro x
      have hlen : (src.take n).length = n := by
        rw [List.length_take]
        omega
      rw [copy_unless_zero _ _ _ _ hlen]
      by_cases hin : p.writePos ≤ x ∧ x < p.writePos + n
      · have hdist : behind size p.writePos x = x - p.writePos := if_pos hin.1
        have hpart := getD_part (d := 0) (n := n) (j := x - p.writePos) src (by omega)
        rw [List.drop_zero, Nat.zero_add] at hpart
        rw [if_pos hin, hdist, if_pos (by omega), hpart]
      · rw [if_neg hin, if_neg]
        unfold behind
        split <;> omega

/-- The bytes the hardware has still to read are not touched. -/
theorem dataPut_keeps {p : SystemQueue} {hwReadPos : Nat} (hw : p.writePos < size)
    (hr : hwReadPos < size) (src : List Byte) {x : Nat}
    (hbusy : behind size hwReadPos x < behind size hwReadPos p.writePos) :
    (p.dataPut size hwReadPos src).2.mem x = p.mem x := by
  rw [(dataPut_spec hw hr src).2.2 x, if_neg]
  unfold behind at hbusy ⊢
  unfold SystemQueue.getBytesFree
  by_cases h1 : hwReadPos ≤ x <;> by_cases h2 : hwReadPos ≤ p.writePos <;>
    by_cases h3 : p.writePos ≤ x <;> simp only [h1, h2, h3, if_true, if_false] at hbusy ⊢ <;> omega

end

/-! ## The stream through a queue -/

/-- A queue with its history: the bytes the hardware wrote, how many of them were
there at the last interrupt, at the last bottom half and at the read position, what
was read, and the parts of the stream that an overflow was reported for. -/
structure Stream where
  queue : QueueData
  written : List Byte
  irqAt : Nat
  seenAt : Nat
  readAt : Nat
  out : List Byte
  gaps : List (Nat × Nat)

inductive QueueCall
  | hwWrite (bytes : List Byte)
  | irq
  | bhTask
  | dataGet (count : Nat) (peek : Bool)

namespace Stream

def init : Stream := ⟨QueueData.init, [], 0, 0, 0, [], []⟩

def step (size : Nat) (s : Stream) : QueueCall → Option Stream
  | .hwWrite bytes =>
    some { s with queue := s.queue.hwWrite size bytes, written := s.written ++ bytes }
  | .irq => some { s with queue := s.queue.irq, irqAt := s.written.length }
  | .bhTask =>
    let s' := { s with queue := s.queue.bhTask, seenAt := s.irqAt }
    if s.queue.overflowCount ≠ 0 then
      some { s' with readAt := s.irqAt, gaps := s.gaps ++ [(s.readAt, s.irqAt)] }
    else some s'
  | .dataGet count peek =>
    let r := s.queue.dataGet size count peek
    if peek then some { s with queue := r.2 }
    else some { s with queue := r.2, out := s.out ++ r.1, readAt := s.readAt + r.1.length }

/-- The hardware writes less than a queue between two interrupts, the counter of
overflows does not go around, and nothing is read that has been overwritten. -/
def Ok (size : Nat) (s : Stream) : QueueCall → Prop
  | .hwWrite bytes => s.written.length + bytes.length < s.irqAt + size
  | .irq => s.queue.irq.overflowCount = 0 → s.queue.overflowCount = 0
  | .bhTask => True
  | .dataGet _ _ => s.written.length ≤ s.readAt + size

instance (size : Nat) (s : Stream) (call : QueueCall) : Decidable (s.Ok size call) :=
  match call with
  | .hwWrite _ => inferInstanceAs (Decidable (_ < _))
  | .irq => inferInstanceAs (Decidable (_ → _))
  | .bhTask => inferInstanceAs (Decidable True)
  | .dataGet _ _ => inferInstanceAs (Decidable (_ ≤ _))

/-- The position lies in a part that was reported lost. -/
def Lost (gaps : List (Nat × Nat)) (x : Nat) : Prop := ∃ g ∈ gaps, g.1 ≤ x ∧ x < g.2

instance (gaps : List (Nat × Nat)) (x : Nat) : Decidable (Lost gaps x) :=
  inferInstanceAs (Decidable (∃ _ ∈ _, _))

/-- The stream up to a position, without what was reported lost. -/
def delivered (written : List Byte) (gaps : List (Nat × Nat)) (n : Nat) : List Byte :=
  ((List.range n).filter fun x => ¬ Lost gaps x).filterMap fun x => written[x]?

/-- The positions go along the stream, and without a reported overflow less than a
queue lies between the read position and the last interrupt. -/
structure Inv (size : Nat) (s : Stream) : Prop where
  order : s.readAt ≤ s.seenAt ∧ s.seenAt ≤ s.irqAt ∧ s.irqAt ≤ s.written.length
  near : s.seenAt < s.readAt + size
  fresh : s.written.length < s.irqAt + size
  register : s.queue.register = s.written.length % size
  hwWritePos : s.queue.hwWritePos = s.irqAt % size
  writePos : s.queue.writePos = s.seenAt % size
  readPos : s.queue.readPos = s.readAt % size
  window : Ring.Window size s.queue.mem s.written
  quiet : s.queue.overflowCount = 0 → s.irqAt < s.readAt + size
  gaps : ∀ g ∈ s.gaps, g.2 ≤ s.readAt
  out : s.out = delivered s.written s.gaps s.readAt

section
variable {written : List Byte} {gaps : List (Nat × Nat)} {m n : Nat}

/-- Later bytes change nothing. -/
theorem delivered_append (hn : n ≤ written.length) (bytes : List Byte) :
    delivered (written ++ bytes) gaps n = delivered written gaps n := by
  refine List.filterMap_congr ?_
  intro x hx
  have hlt := List.mem_range.mp (List.mem_of_mem_filter hx)
  rw [List.getElem?_append_left (by omega)]

theorem filterMap_range_drop (hm : n + m ≤ written.length) :
    ((List.range m).map (n + ·)).filterMap (fun x => written[x]?) = (written.drop n).take m := by
  induction m with
  | zero => simp
  | succ m ih =>
    rw [List.range_succ, List.map_append, List.filterMap_append, ih (by omega),
      List.take_add_one, List.getElem?_drop]
    congr 1

/-- A read delivers what follows. -/
theorem delivered_read (hg : ∀ g ∈ gaps, g.2 ≤ n) (hm : n + m ≤ written.length) :
    delivered written gaps (n + m) =
      delivered written gaps n ++ (written.drop n).take m := by
  have hkept : ((List.range m).map (n + ·)).filter (fun x => decide (¬ Lost gaps x)) =
      (List.range m).map (n + ·) := by
    rw [List.filter_eq_self]
    intro x hx
    obtain ⟨i, -, rfl⟩ := List.mem_map.mp hx
    simp only [decide_eq_true_eq]
    rintro ⟨g, hmem, -, hlt⟩
    have := hg g hmem
    omega
  unfold delivered
  rw [List.range_add, List.filter_append, List.filterMap_append, hkept, filterMap_range_drop hm]

/-- A reported part is left out. -/
theorem delivered_gap (hnm : n ≤ m) :
    delivered written (gaps ++ [(n, m)]) m = delivered written gaps n := by
  have hsum : m = n + (m - n) := by omega
  have hlost : ((List.range (m - n)).map (n + ·)).filter
      (fun x => decide (¬ Lost (gaps ++ [(n, m)]) x)) = [] := by
    rw [List.filter_eq_nil_iff]
    intro x hx
    obtain ⟨i, hi, rfl⟩ := List.mem_map.mp hx
    have hlt := List.mem_range.mp hi
    simp only [decide_eq_true_eq, not_not]
    exact ⟨(n, m), by simp, by simp, by simp only; omega⟩
  have hbefore : (List.range n).filter (fun x => decide (¬ Lost (gaps ++ [(n, m)]) x)) =
      (List.range n).filter (fun x => decide (¬ Lost gaps x)) := by
    refine List.filter_congr ?_
    intro x hx
    have hlt := List.mem_range.mp hx
    have hiff : Lost (gaps ++ [(n, m)]) x ↔ Lost gaps x := by
      simp only [Lost, List.mem_append, List.mem_singleton]
      constructor
      · rintro ⟨g, hg | rfl, h1, h2⟩
        · exact ⟨g, hg, h1, h2⟩
        · omega
      · rintro ⟨g, hg, h⟩
        exact ⟨g, .inl hg, h⟩
    simp only [hiff]
  unfold delivered
  conv_lhs => rw [hsum]
  rw [List.range_add, ← hsum, List.filter_append, List.filterMap_append, hlost, hbefore]
  simp

end

section
variable {size : Nat} {s t : Stream}

theorem inv_init (hsize : 0 < size) : Inv size init where
  order := ⟨Nat.le_refl _, Nat.le_refl _, Nat.le_refl _⟩
  near := by simpa [init] using hsize
  fresh := by simpa [init] using hsize
  register := by simp [init, QueueData.init]
  hwWritePos := by simp [init, QueueData.init]
  writePos := by simp [init, QueueData.init]
  readPos := by simp [init, QueueData.init]
  window := by
    intro x hx
    simp [init] at hx
  quiet := fun _ => by simpa [init] using hsize
  gaps := by simp [init]
  out := by simp [init, delivered]

theorem Inv.positions (h : Inv size s) : s.queue.readPos < size ∧ s.queue.writePos < size := by
  have hsize : 0 < size := by
    have := h.near
    have := h.order
    omega
  rw [h.readPos, h.writePos]
  exact ⟨Nat.mod_lt _ hsize, Nat.mod_lt _ hsize⟩

theorem Inv.avail (h : Inv size s) : s.queue.getBytesAvail size = s.seenAt - s.readAt := by
  obtain ⟨hr, hw⟩ := h.positions
  have horder := h.order
  have hnear := h.near
  have hseen : s.queue.writePos = (s.queue.readPos + (s.seenAt - s.readAt)) % size := by
    rw [h.writePos, h.readPos, Nat.mod_add_mod]
    congr 1
    omega
  rw [Ring.add_mod_cases hr (by omega)] at hseen
  unfold QueueData.getBytesAvail QueueData.getBuf1Size QueueData.getBuf2Size
  split at hseen <;> split <;> omega

/-- What a read returns is the next part of the stream. -/
theorem Inv.dataGet (h : Inv size s) (count : Nat) (peek : Bool)
    (hintact : s.written.length ≤ s.readAt + size) :
    (s.queue.dataGet size count peek).1 =
      (s.written.drop s.readAt).take (min count (s.queue.getBytesAvail size)) := by
  obtain ⟨hr, hw⟩ := h.positions
  have horder := h.order
  rw [(dataGet_spec hr hw count peek).1, h.readPos]
  refine h.window.around ?_ hintact
  rw [h.avail]
  omega

/-- Without a reported overflow, the interrupt reports one where the hardware has
come up to the read position. -/
theorem Inv.irq_overflows (h : Inv size s) (hq : s.queue.overflowCount = 0) :
    QueueData.overflows s.queue.readPos s.queue.hwWritePos s.queue.register = true ↔
      s.readAt + size ≤ s.written.length := by
  obtain ⟨hr, -⟩ := h.positions
  have horder := h.order
  have hquiet := h.quiet hq
  have hfresh := h.fresh
  have hiff : QueueData.overflows s.queue.readPos
      ((s.queue.readPos + (s.irqAt - s.readAt)) % size)
      ((s.queue.readPos + (s.irqAt - s.readAt + (s.written.length - s.irqAt))) % size) = true ↔
      size ≤ s.irqAt - s.readAt + (s.written.length - s.irqAt) :=
    overflows_iff hr (by omega) (by omega)
  have hold : (s.queue.readPos + (s.irqAt - s.readAt)) % size = s.queue.hwWritePos := by
    rw [h.readPos, h.hwWritePos, Nat.mod_add_mod]
    congr 1
    omega
  have hnew : (s.queue.readPos + (s.irqAt - s.readAt + (s.written.length - s.irqAt))) % size =
      s.queue.register := by
    rw [h.readPos, h.register, Nat.mod_add_mod]
    congr 1
    omega
  rw [hold, hnew] at hiff
  rw [hiff]
  omega

theorem Inv.hwWrite (h : Inv size s) {bytes : List Byte} (hok : s.Ok size (.hwWrite bytes))
    (ht : s.step size (.hwWrite bytes) = some t) : Inv size t := by
  cases ht
  obtain ⟨h1, h2, h3⟩ := h.order
  have hfew : s.written.length + bytes.length < s.irqAt + size := hok
  constructor
  case order => exact ⟨h1, h2, by simp only [List.length_append]; omega⟩
  case near => exact h.near
  case fresh =>
    simp only [List.length_append]
    exact hfew
  case register =>
    simp only [QueueData.hwWrite, h.register, List.length_append, Nat.mod_add_mod]
  case hwWritePos => exact h.hwWritePos
  case writePos => exact h.writePos
  case readPos => exact h.readPos
  case window =>
    simp only [QueueData.hwWrite, h.register]
    exact h.window.push bytes
  case quiet => exact h.quiet
  case gaps => exact h.gaps
  case out =>
    simp only
    rw [h.out, delivered_append (by omega)]

theorem Inv.irq (h : Inv size s) (hok : s.Ok size .irq) (ht : s.step size .irq = some t) :
    Inv size t := by
  cases ht
  obtain ⟨h1, h2, h3⟩ := h.order
  have hnear := h.near
  constructor
  case order => exact ⟨h1, by simp only; omega, Nat.le_refl _⟩
  case near => exact h.near
  case fresh => simp only; omega
  case register => exact h.register
  case hwWritePos => exact h.register
  case writePos => exact h.writePos
  case readPos => exact h.readPos
  case window => exact h.window
  case quiet =>
    intro hzero
    have hbefore := hok hzero
    have hnot : ¬ QueueData.overflows s.queue.readPos s.queue.hwWritePos s.queue.register = true := by
      intro hover
      simp only [QueueData.irq, hover, if_true, hbefore] at hzero
      exact absurd hzero (by decide)
    rw [h.irq_overflows hbefore] at hnot
    simp only
    omega
  case gaps => exact h.gaps
  case out => exact h.out

theorem Inv.bhTask (h : Inv size s) (ht : s.step size .bhTask = some t) : Inv size t := by
  obtain ⟨h1, h2, h3⟩ := h.order
  have hnear := h.near
  simp only [step] at ht
  split at ht
  · rename_i hover
    cases ht
    constructor
    case order => exact ⟨Nat.le_refl _, Nat.le_refl _, h3⟩
    case near => simp only; omega
    case fresh => exact h.fresh
    case register =>
      simp only [QueueData.bhTask, hover, if_true, ne_eq, not_false_eq_true, h.register]
    case hwWritePos =>
      simp only [QueueData.bhTask, hover, if_true, ne_eq, not_false_eq_true, h.hwWritePos]
    case writePos =>
      simp only [QueueData.bhTask, hover, if_true, ne_eq, not_false_eq_true, h.hwWritePos]
    case readPos =>
      simp only [QueueData.bhTask, hover, if_true, ne_eq, not_false_eq_true, h.hwWritePos]
    case window =>
      simp only [QueueData.bhTask, hover, if_true, ne_eq, not_false_eq_true]
      exact h.window
    case quiet => intro _; simp only; omega
    case gaps =>
      intro g hg
      rcases List.mem_append.mp hg with hg | hg
      · have := h.gaps g hg
        simp only
        omega
      · rw [List.mem_singleton.mp hg]
    case out =>
      simp only
      rw [h.out, delivered_gap (by omega)]
  · rename_i hquiet
    cases ht
    have hzero : s.queue.overflowCount = 0 := by simpa using hquiet
    have hclose := h.quiet hzero
    constructor
    case order => exact ⟨by simp only; omega, Nat.le_refl _, h3⟩
    case near => exact hclose
    case fresh => exact h.fresh
    case register =>
      simp only [QueueData.bhTask, hzero, ne_eq, not_true_eq_false, if_false, h.register]
    case hwWritePos =>
      simp only [QueueData.bhTask, hzero, ne_eq, not_true_eq_false, if_false, h.hwWritePos]
    case writePos =>
      simp only [QueueData.bhTask, hzero, ne_eq, not_true_eq_false, if_false, h.hwWritePos]
    case readPos => simp only [QueueData.bhTask, hzero, ne_eq, not_true_eq_false, if_false, h.readPos]
    case window =>
      simp only [QueueData.bhTask, hzero, ne_eq, not_true_eq_false, if_false]
      exact h.window
    case quiet => exact fun _ => hclose
    case gaps => exact h.gaps
    case out => exact h.out

theorem Inv.get (h : Inv size s) {count : Nat} {peek : Bool}
    (hok : s.Ok size (.dataGet count peek)) (ht : s.step size (.dataGet count peek) = some t) :
    Inv size t := by
  obtain ⟨hr, hw⟩ := h.positions
  obtain ⟨h1, h2, h3⟩ := h.order
  have hnear := h.near
  have hbytes := h.dataGet count peek hok
  obtain ⟨-, hafter⟩ := dataGet_spec hr hw count peek
  simp only [step] at ht
  cases peek with
  | true =>
    simp only [if_true] at ht hafter
    rw [hafter] at ht
    cases ht
    exact h
  | false =>
    simp only [Bool.false_eq_true, if_false] at ht hafter
    cases ht
    rw [h.avail] at hbytes hafter
    have hlen : (s.queue.dataGet size count false).1.length =
        min count (s.seenAt - s.readAt) := by
      rw [hbytes, List.length_take, List.length_drop]
      omega
    rw [hafter]
    constructor
    case order => simp only [hlen]; omega
    case near => simp only [hlen]; omega
    case fresh => exact h.fresh
    case register => exact h.register
    case hwWritePos => exact h.hwWritePos
    case writePos => exact h.writePos
    case readPos =>
      simp only [hlen]
      rw [h.readPos, Nat.mod_add_mod]
    case window => exact h.window
    case quiet =>
      intro hzero
      have := h.quiet hzero
      simp only
      omega
    case gaps =>
      intro g hg
      have := h.gaps g hg
      simp only
      omega
    case out =>
      simp only [hlen]
      rw [h.out, hbytes, delivered_read h.gaps (by omega)]

/-- Every call keeps what the positions stand for. -/
theorem step_inv (h : Inv size s) {call : QueueCall} (hok : s.Ok size call)
    (ht : s.step size call = some t) : Inv size t := by
  cases call with
  | hwWrite bytes => exact h.hwWrite hok ht
  | irq => exact h.irq hok ht
  | bhTask => exact h.bhTask ht
  | dataGet count peek => exact h.get hok ht

end

end Stream

/-- While nothing overwritten is read: the positions stay inside the queue, a read
returns the next bytes of the stream, the interrupt reports an overflow where the
hardware has come up to the read position, and all reads together are the stream
without the parts that were reported. A put takes the space there is. -/
theorem queue_is_fifo (size : Nat) (hsize : 0 < size) :
    (∀ s, Runs (Stream.step size) (Stream.Ok size) Stream.init s →
      s.queue.readPos < size ∧ s.queue.writePos < size ∧
      s.queue.getBytesAvail size = s.queue.getBuf1Size size + s.queue.getBuf2Size ∧
      s.queue.getBytesAvail size = (s.queue.writePos + size - s.queue.readPos) % size ∧
      (∀ count peek, s.written.length ≤ s.readAt + size →
        (s.queue.dataGet size count peek).1 =
          (s.written.drop s.readAt).take (min count (s.queue.getBytesAvail size))) ∧
      (∀ count, (s.queue.dataGet size count true).2 = s.queue) ∧
      (s.queue.overflowCount = 0 →
        (s.queue.irq.overflowCount ≠ 0 ↔ s.readAt + size ≤ s.written.length)) ∧
      s.out = Stream.delivered s.written s.gaps s.readAt) ∧
    ∀ (p : SystemQueue) (hwReadPos : Nat) (src : List Byte), p.writePos < size →
      hwReadPos < size →
      (p.dataPut size hwReadPos src).1 = min src.length (p.getBytesFree size hwReadPos) ∧
      (∀ x, (p.dataPut size hwReadPos src).2.mem x =
        if x < size ∧ behind size p.writePos x < min src.length (p.getBytesFree size hwReadPos)
        then src.getD (behind size p.writePos x) 0 else p.mem x) ∧
      (p.dataPut size hwReadPos src).2.writePos < size ∧
      ∀ x, behind size hwReadPos x < behind size hwReadPos p.writePos →
        (p.dataPut size hwReadPos src).2.mem x = p.mem x := by
  constructor
  · intro s h
    have hinv : s.Inv size := h.invariant (fun _ _ _ hs hok ht => Stream.step_inv hs hok ht)
      (Stream.inv_init hsize)
    obtain ⟨hr, hw⟩ := hinv.positions
    refine ⟨hr, hw, rfl, getBytesAvail_eq hr hw,
      fun count peek hintact => hinv.dataGet count peek hintact,
      fun count => (dataGet_spec hr hw count true).2, ?_, hinv.out⟩
    intro hzero
    rw [← hinv.irq_overflows hzero]
    cases hover : QueueData.overflows s.queue.readPos s.queue.hwWritePos s.queue.register with
    | false => simp [QueueData.irq, hover, hzero]
    | true =>
      simp only [QueueData.irq, hover, hzero, if_true, iff_true]
      decide
  · intro p hwReadPos src hw hr
    obtain ⟨hcount, hpos, hmem⟩ := dataPut_spec hw hr src
    refine ⟨hcount, hmem, ?_, fun x hx => dataPut_keeps hw hr src hx⟩
    rw [hpos]
    exact Nat.mod_lt _ hsize

/-- A queue of four bytes: a read around its end, an overflow, and what comes after. -/
def overrunCalls : List QueueCall :=
  [.hwWrite [1, 2, 3], .irq, .bhTask, .dataGet 2 false, .hwWrite [4, 5], .irq, .bhTask,
    .dataGet 3 false, .hwWrite [6, 7, 8], .irq, .hwWrite [9, 10], .irq, .bhTask, .hwWrite [11],
    .irq, .bhTask, .dataGet 1 false]

/-- The reads are the stream without what was lost, and a put takes the two bytes that
are free. -/
theorem queue_is_fifo_two :
    (∃ s, Runs (Stream.step 4) (Stream.Ok 4) Stream.init s ∧ s.out = [1, 2, 3, 4, 5, 11] ∧
      s.out = Stream.delivered s.written s.gaps s.readAt) ∧
    (SystemQueue.dataPut 4 ⟨fun _ => 0, 3⟩ 2 [1, 2, 3]).1 = 2 ∧
      (SystemQueue.dataPut 4 ⟨fun _ => 0, 3⟩ 2 [1, 2, 3]).2.mem 0 = 2 := by
  have hlist : (runList (Stream.step 4) Stream.init overrunCalls).map (·.out) =
      some [1, 2, 3, 4, 5, 11] := by decide +kernel
  obtain ⟨s, hs, hout⟩ := Option.map_eq_some_iff.mp hlist
  have hrun : Runs (Stream.step 4) (Stream.Ok 4) Stream.init s := Runs.ofAdmits (by decide +kernel) hs
  obtain ⟨hreads, hputs⟩ := queue_is_fifo 4 (by decide)
  obtain ⟨hcount, hmem, -⟩ := hputs ⟨fun _ => 0, 3⟩ 2 [1, 2, 3] (by decide) (by decide)
  exact ⟨⟨s, hrun, hout, (hreads s hrun).2.2.2.2.2.2.2⟩, hcount.trans (by decide),
    (hmem 0).trans (by decide)⟩

/-- A queue that is full to the last byte is taken for an overflow, though nothing
has been overwritten. -/
theorem full_queue_reported :
    ∃ s, Runs (Stream.step 64) (Stream.Ok 64) Stream.init s ∧ s.queue.overflowCount = 0 ∧
      s.queue.irq.overflowCount = 1 ∧ s.written.length ≤ s.readAt + 64 := by
  have hrun : Runs (Stream.step 64) (Stream.Ok 64) Stream.init _ :=
    (((Runs.refl.tail (.hwWrite (List.replicate 32 0)) (by simp [Stream.Ok, Stream.init])
      rfl).tail .irq (fun _ => rfl) rfl).tail .bhTask trivial rfl).tail
        (.hwWrite (List.replicate 32 0)) (by simp [Stream.Ok, Stream.init]) rfl
  exact ⟨_, hrun, rfl, by decide, by decide⟩

end Tuxbox.Avia
