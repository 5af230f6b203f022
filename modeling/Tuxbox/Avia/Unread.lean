import Tuxbox.Avia.QueueData

/-!
# What a queue holds for its callback
-/

namespace Tuxbox.Avia.QueueData

/-- The bytes that have not been read. -/
def unread (size : Nat) (q : QueueData) : Str :=
  Ring.around size q.mem q.readPos (q.getBytesAvail size)

structure Placed (size : Nat) (q : QueueData) : Prop where
  read : q.readPos < size
  write : q.writePos < size

def advance (size : Nat) (q : QueueData) (n : Nat) : QueueData :=
  { q with readPos := (q.readPos + n) % size }

section
variable {size n m count : Nat} {q : QueueData}

@[simp] theorem unread_length : (q.unread size).length = q.getBytesAvail size :=
  Ring.around_length

theorem Placed.advance (h : Placed size q) (n : Nat) : Placed size (q.advance size n) :=
  ⟨Nat.mod_lt _ (Nat.zero_lt_of_lt h.read), h.write⟩

theorem Placed.avail_lt (h : Placed size q) : q.getBytesAvail size < size :=
  getBytesAvail_lt h.read h.write

theorem advance_zero (h : Placed size q) : q.advance size 0 = q := by
  unfold QueueData.advance
  rw [Nat.add_zero, Nat.mod_eq_of_lt h.read]

theorem advance_advance (n m : Nat) : (q.advance size n).advance size m = q.advance size (n + m) := by
  unfold QueueData.advance
  rw [Nat.mod_add_mod, Nat.add_assoc]

theorem Placed.readPos_advance (h : Placed size q) (hn : n ≤ q.getBytesAvail size) :
    (q.advance size n).readPos =
      if q.readPos + n < size then q.readPos + n else q.readPos + n - size :=
  Ring.add_mod_cases h.read (Nat.le_of_lt (Nat.lt_of_le_of_lt hn h.avail_lt))

theorem getBytesAvail_advance (h : Placed size q) (hn : n ≤ q.getBytesAvail size) :
    (q.advance size n).getBytesAvail size = q.getBytesAvail size - n := by
  have hread := h.read
  have hwrite := h.write
  have hsame : (q.advance size n).writePos = q.writePos := rfl
  have hpos := h.readPos_advance hn
  unfold getBytesAvail getBuf1Size getBuf2Size at *
  rw [hsame, hpos]
  split_ifs at * <;> omega

theorem unread_advance (h : Placed size q) (hn : n ≤ q.getBytesAvail size) :
    (q.advance size n).unread size = (q.unread size).drop n := by
  have hsum : q.getBytesAvail size = n + (q.getBytesAvail size - n) := by omega
  unfold unread
  rw [getBytesAvail_advance h hn]
  conv_rhs => rw [hsum, Ring.around_add]
  exact (List.drop_left' Ring.around_length).symm

/-- The accessor copies the next bytes. -/
theorem dataGet_take (h : Placed size q) (count : Nat) (peek : Bool) :
    (q.dataGet size count peek).1 = (q.unread size).take count := by
  rw [(dataGet_spec h.read h.write count peek).1]
  exact (Ring.around_take ..).symm

/-- The accessor in terms of the bytes that have not been read. -/
theorem dataGet_advance (h : Placed size q) (hcount : count ≤ q.getBytesAvail size) :
    (q.dataGet size count false).2 = q.advance size count := by
  rw [(dataGet_spec h.read h.write count false).2, Nat.min_eq_left hcount]
  rfl

theorem dataGet_peek (h : Placed size q) (count : Nat) : (q.dataGet size count true).2 = q :=
  (dataGet_spec h.read h.write count true).2

theorem getBuf1Size_le : q.getBuf1Size size ≤ q.getBytesAvail size := Nat.le_add_right _ _

/-- The memory up to its end. -/
theorem slice_take (h : Placed size q) (hn : n ≤ q.getBuf1Size size) :
    Ring.slice q.mem q.readPos n = (q.unread size).take n := by
  have hread := h.read
  have hwrite := h.write
  have hle : n ≤ q.getBytesAvail size := Nat.le_trans hn getBuf1Size_le
  have hfit : q.readPos + n ≤ size := by
    unfold getBuf1Size at hn
    split at hn <;> omega
  unfold unread
  rw [Ring.slice_eq_around hfit, Ring.around_take, Nat.min_eq_left hle]

/-- The memory up to its end and from its beginning. -/
theorem buffers_take (h : Placed size q) (hm : m ≤ q.getBuf2Size) :
    Ring.slice q.mem q.readPos (q.getBuf1Size size) ++ Ring.slice q.mem 0 m =
      (q.unread size).take (q.getBuf1Size size + m) := by
  have hread := h.read
  have hwrite := h.write
  have hle : q.getBuf1Size size + m ≤ q.getBytesAvail size := Nat.add_le_add_left hm _
  unfold unread
  rw [Ring.around_take, Nat.min_eq_left hle]
  by_cases hwraps : q.readPos ≤ q.writePos
  · have hm0 : m = 0 := by
      unfold getBuf2Size at hm
      rw [if_pos hwraps] at hm
      omega
    have hfit : q.readPos + q.getBuf1Size size ≤ size := by
      unfold getBuf1Size
      rw [if_pos hwraps]
      omega
    rw [hm0, Ring.slice_eq_around hfit]
    exact List.append_nil _
  · have hfirst : q.getBuf1Size size = size - q.readPos := if_neg hwraps
    have hsecond : m ≤ q.writePos := by
      unfold getBuf2Size at hm
      rwa [if_neg hwraps] at hm
    have hslices := @Ring.slice_append_slice _ size q.mem q.readPos (size - q.readPos + m) hread
      (by omega) (by omega)
    rwa [Nat.add_sub_cancel_left, ← hfirst] at hslices

/-- Behind the end of the memory what is left is in one piece. -/
theorem getBuf1Size_advance (h : Placed size q) (hn : q.getBuf1Size size ≤ n)
    (hle : n ≤ q.getBytesAvail size) :
    (q.advance size n).getBuf1Size size = q.getBytesAvail size - n := by
  have hread := h.read
  have hwrite := h.write
  have hsame : (q.advance size n).writePos = q.writePos := rfl
  have hpos := h.readPos_advance hle
  unfold getBytesAvail getBuf1Size getBuf2Size at *
  rw [hsame, hpos]
  split_ifs at * <;> omega

end

end Tuxbox.Avia.QueueData
