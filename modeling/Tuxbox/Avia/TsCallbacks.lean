import Tuxbox.Avia.Napi
import Tuxbox.Avia.Unread

/-! The callbacks that hand transport stream packets over from a queue.

* `callbackGeneric_spec`: the packets go to the software filter, one by one;
* `callbackTsPes_spec`, `dvb2ethSend_spec`: the packets go on in two buffers, or to the
  Ethernet. -/
namespace Tuxbox.Avia

open QueueData

/-! ## The callback that filters -/

/-- `dvb_dmx_swfilter_packets`: what goes to `dvb_dmx_swfilter_packet`. -/
def swfilterPackets : (count : Nat) → Str → List Str
  | 0, _ => []
  | count + 1, buf =>
    (if buf.head? = some 0x47 then [buf.take 188] else []) ++ swfilterPackets count (buf.drop 188)

section
variable (size : Nat)

/-- Up to the next sync byte the bytes are lost, at most `n`. -/
def resync : (n : Nat) → QueueData → QueueData
  | 0, q => q
  | n + 1, q =>
    if (q.dataGet size 1 true).1 = [0x47] then q else resync n (q.dataGet size 1 false).2

/-- Packets in one piece of the memory, if there are any. -/
def passPackets (q : QueueData) (bytes : Nat) : List Str × QueueData :=
  if bytes ≠ 0 then
    (swfilterPackets (bytes / 188) (Ring.slice q.mem q.readPos bytes),
      (q.dataGet size bytes false).2)
  else ([], q)

/-- `avia_gt_napi_queue_callback_generic` -/
def callbackGeneric (q : QueueData) : List Str × QueueData :=
  if q.getBytesAvail size < 188 then ([], q)
  else
    let q := resync size (q.getBytesAvail size) q
    if q.getBytesAvail size < 188 then ([], q)
    else
      let bytesAvail := q.getBytesAvail size - q.getBytesAvail size % 188
      let chunk1 := q.getBuf1Size size
      if bytesAvail > chunk1 then
        let chunk1 := chunk1 - chunk1 % 188
        let whole := passPackets size q chunk1
        let wrapped := whole.2.dataGet size 188 false
        let rest := passPackets size wrapped.2 (bytesAvail - chunk1 - 188)
        (whole.1 ++ [wrapped.1] ++ rest.1, rest.2)
      else passPackets size q bytesAvail

end

/-! ## The callback that does not -/

/-- Two buffers, to the Ethernet or to the feed's own callback. -/
inductive Passed
  | dvrSend (first second : Str)
  | ts (first second : Str)

def Passed.bytes : Passed → Str
  | .dvrSend first second => first ++ second
  | .ts first second => first ++ second

/-- `avia_gt_napi_queue_callback_ts_pes`; `dvrSend` tells how many bytes it has sent. -/
def callbackTsPes (size : Nat) (dvrSend : Option (Str → Str → Nat)) (feed : DvbDemuxFeed)
    (q : QueueData) :
    Passed × QueueData :=
  let buf1Len := q.getBuf1Size size
  let buf2Len := q.getBuf2Size
  let len := buf1Len + buf2Len
  if feed.type = .ts ∧ feed.tsType.payloadOnly = false then
    let cutoff := len % 188
    let first := Ring.slice q.mem q.readPos
      (if cutoff > buf2Len then buf1Len - (cutoff - buf2Len) else buf1Len)
    let second := Ring.slice q.mem 0 (if cutoff > buf2Len then 0 else buf2Len - cutoff)
    match dvrSend with
    | some send => (.dvrSend first second, (q.dataGet size (send first second) false).2)
    | none => (.ts first second, (q.dataGet size (len - cutoff) false).2)
  else
    (.ts (Ring.slice q.mem q.readPos buf1Len) (Ring.slice q.mem 0 buf2Len),
      (q.dataGet size len false).2)

/-- `dvb2eth_send`, with the data of the datagrams: seven packets each. -/
def dvb2ethLoop : (fuel : Nat) → Str → Str → List Str
  | 0, _, _ => []
  | fuel + 1, first, second =>
    if first.length + second.length < 1316 then []
    else
      let data := if 1316 ≤ first.length then first.take 1316
        else first ++ second.take (1316 - first.length)
      let second' := if 1316 ≤ first.length then second else second.drop (1316 - first.length)
      let first' := first.drop 1316
      data :: if first' = [] then dvb2ethLoop fuel second' [] else dvb2ethLoop fuel first' second'

def dvb2ethSend (first second : Str) : List Str × Nat :=
  let datagrams := dvb2ethLoop (first.length + second.length) first second
  (datagrams, 1316 * datagrams.length)

/-! ## Packets -/

structure IsPacket (p : Str) : Prop where
  length : p.length = 188
  sync : p.head? = some 0x47

section
variable {packets : List Str} {rest : Str} {j : Nat}

theorem swfilterPackets_flatten (h : ∀ p ∈ packets, IsPacket p) (rest : Str) :
    swfilterPackets packets.length (packets.flatten ++ rest) = packets := by
  induction packets with
  | nil => rfl
  | cons p packets ih =>
    obtain ⟨hp, htail⟩ := List.forall_mem_cons.mp h
    obtain ⟨a, as, rfl⟩ : ∃ a as, p = a :: as := by
      cases p with
      | nil => exact absurd hp.length (by decide)
      | cons a as => exact ⟨a, as, rfl⟩
    have hdrop : (((a :: as) :: packets).flatten ++ rest).drop 188 = packets.flatten ++ rest := by
      rw [List.flatten_cons, List.append_assoc]
      exact List.drop_left' hp.length
    have htake : (((a :: as) :: packets).flatten ++ rest).take 188 = a :: as := by
      rw [List.flatten_cons, List.append_assoc]
      exact List.take_left' hp.length
    have hhead : (((a :: as) :: packets).flatten ++ rest).head? = some 0x47 := hp.sync
    rw [List.length_cons, swfilterPackets, if_pos hhead, htake, hdrop, ih htail]
    rfl

theorem flatten_length (h : ∀ p ∈ packets, IsPacket p) :
    packets.flatten.length = 188 * packets.length := by
  induction packets with
  | nil => rfl
  | cons p packets ih =>
    obtain ⟨hp, htail⟩ := List.forall_mem_cons.mp h
    rw [List.flatten_cons, List.length_append, ih htail, hp.length, List.length_cons]
    omega

theorem flatten_take (h : ∀ p ∈ packets, IsPacket p) (hj : j ≤ packets.length) :
    (packets.flatten ++ rest).take (188 * j) = (packets.take j).flatten := by
  have hlen : (packets.take j).flatten.length = 188 * j := by
    rw [flatten_length fun p hp => h p (List.mem_of_mem_take hp), List.length_take,
      Nat.min_eq_left hj]
  conv_lhs => rw [← List.take_append_drop j packets, List.flatten_append, List.append_assoc]
  exact List.take_left' hlen

theorem flatten_drop (h : ∀ p ∈ packets, IsPacket p) (hj : j ≤ packets.length) :
    (packets.flatten ++ rest).drop (188 * j) = (packets.drop j).flatten ++ rest := by
  have hlen : (packets.take j).flatten.length = 188 * j := by
    rw [flatten_length fun p hp => h p (List.mem_of_mem_take hp), List.length_take,
      Nat.min_eq_left hj]
  conv_lhs => rw [← List.take_append_drop j packets, List.flatten_append, List.append_assoc]
  exact List.drop_left' hlen

end

/-! ## What is handed over -/

section
variable {size : Nat} {q : QueueData} {packets : List Str} {rest : Str}

/-- The unread bytes are packets and a part of one. -/
structure Holds (size : Nat) (q : QueueData) (packets : List Str) (rest : Str) : Prop where
  placed : Placed size q
  unread : q.unread size = packets.flatten ++ rest
  packets : ∀ p ∈ packets, IsPacket p
  rest : rest.length < 188

theorem Holds.avail (h : Holds size q packets rest) :
    q.getBytesAvail size = 188 * packets.length + rest.length := by
  rw [← unread_length, h.unread, List.length_append, flatten_length h.packets]

theorem Holds.advance (h : Holds size q packets rest) {j : Nat} (hj : j ≤ packets.length) :
    Holds size (q.advance size (188 * j)) (packets.drop j) rest where
  placed := h.placed.advance _
  unread := by
    rw [unread_advance h.placed (by rw [h.avail]; omega), h.unread, flatten_drop h.packets hj]
  packets := fun p hp => h.packets p (List.mem_of_mem_drop hp)
  rest := h.rest

/-- Packets in one piece. -/
theorem Holds.passPackets (h : Holds size q packets rest) {j : Nat} (hj : j ≤ packets.length)
    (hpiece : 188 * j ≤ q.getBuf1Size size) :
    passPackets size q (188 * j) = (packets.take j, q.advance size (188 * j)) := by
  unfold Avia.passPackets
  split
  · have hfirst : (packets.take j).length = j := by rw [List.length_take, Nat.min_eq_left hj]
    have hcount : 188 * j / 188 = (packets.take j).length := by
      rw [Nat.mul_div_cancel_left j (by decide), hfirst]
    have htaken : ∀ p ∈ packets.take j, IsPacket p := fun p hp =>
      h.packets p (List.mem_of_mem_take hp)
    have hpassed := swfilterPackets_flatten htaken []
    rw [List.append_nil] at hpassed
    rw [slice_take h.placed hpiece, h.unread, flatten_take h.packets hj, hcount, hpassed,
      dataGet_advance h.placed (by rw [h.avail]; omega)]
  · rename_i hzero
    obtain rfl : j = 0 := by omega
    rw [List.take_zero, advance_zero h.placed]

/-- The sync byte is there. -/
theorem Holds.resync (h : Holds size q packets rest) (hp : packets ≠ []) (n : Nat) :
    resync size n q = q := by
  cases n with
  | zero => rfl
  | succ n =>
    obtain ⟨p, ps, rfl⟩ := List.exists_cons_of_ne_nil hp
    have hsync := (h.packets p List.mem_cons_self).sync
    obtain ⟨a, as, rfl⟩ : ∃ a as, p = a :: as := by
      cases p with
      | nil => cases hsync
      | cons a as => exact ⟨a, as, rfl⟩
    obtain rfl := Option.some_inj.mp hsync
    unfold Avia.resync
    rw [dataGet_take h.placed, h.unread]
    exact if_pos rfl

/-- The packet that goes around the end of the memory. -/
theorem Holds.wrapped (h : Holds size q packets rest) {j : Nat} (hj : j < packets.length) :
    ((q.advance size (188 * j)).dataGet size 188 false) =
      (packets[j], q.advance size (188 * (j + 1))) := by
  have hat := h.advance (Nat.le_of_lt hj)
  have hone : 1 ≤ (packets.drop j).length := by
    rw [List.length_drop]
    omega
  have hnext := hat.avail
  apply Prod.ext
  · have htake := @flatten_take (packets.drop j) rest 1 hat.packets hone
    rw [dataGet_take hat.placed, hat.unread, htake, List.drop_eq_getElem_cons hj]
    exact List.append_nil _
  · rw [dataGet_advance hat.placed (by omega), advance_advance]
    rfl

/-- The packets are handed over, each once and in order, and nothing else is read. -/
theorem callbackGeneric_eq (h : Holds size q packets rest) :
    callbackGeneric size q = (packets, q.advance size (188 * packets.length)) := by
  have havail := h.avail
  have hrest := h.rest
  unfold callbackGeneric
  by_cases hk : packets.length = 0
  · obtain rfl := List.length_eq_zero_iff.mp hk
    rw [if_pos (by rw [havail]; simpa using hrest)]
    exact Prod.ext rfl (advance_zero h.placed).symm
  · have hmany : ¬ q.getBytesAvail size < 188 := by omega
    have haligned : q.getBytesAvail size - q.getBytesAvail size % 188 = 188 * packets.length := by
      omega
    rw [if_neg hmany, h.resync (fun hnil => hk (by rw [hnil]; rfl)), if_neg hmany, haligned]
    dsimp only
    split
    · -- the end of the memory is among the packets
      rename_i hwraps
      generalize hj : q.getBuf1Size size / 188 = j
      have hchunk : q.getBuf1Size size - q.getBuf1Size size % 188 = 188 * j := by omega
      have hlt : j < packets.length := by omega
      have hrounded : 188 * packets.length - 188 * j - 188 = 188 * (packets.length - (j + 1)) := by
        omega
      have hlater := h.advance (j := j + 1) (by omega)
      have hpiece := @getBuf1Size_advance size (188 * (j + 1)) q h.placed (by omega) (by omega)
      have hlast := hlater.passPackets (j := packets.length - (j + 1))
        (by rw [List.length_drop]) (by omega)
      have htotal : 188 * (j + 1) + 188 * (packets.length - (j + 1)) = 188 * packets.length := by
        omega
      rw [advance_advance, htotal, List.take_of_length_le (by rw [List.length_drop])] at hlast
      rw [hchunk, h.passPackets (Nat.le_of_lt hlt) (by omega), hrounded, h.wrapped hlt, hlast,
        List.append_assoc, List.singleton_append, ← List.drop_eq_getElem_cons hlt,
        List.take_append_drop]
    · rename_i hpiece
      rw [h.passPackets (Nat.le_refl _) (by omega), List.take_length]

/-- In front of what is left nothing is left of the packets. -/
theorem Holds.unread_behind (h : Holds size q packets rest) :
    (q.advance size (188 * packets.length)).unread size = rest := by
  rw [(h.advance (Nat.le_refl _)).unread, List.drop_length]
  rfl

/-! ## Two buffers -/

/-- The callback of a full transport stream: the packets are in the two buffers. -/
theorem callbackTsPes_eq (h : Holds size q packets rest) {feed : DvbDemuxFeed}
    (hfeed : feed.type = .ts ∧ feed.tsType.payloadOnly = false)
    (dvrSend : Option (Str → Str → Nat)) : ∃ first second,
      first ++ second = packets.flatten ∧
      callbackTsPes size dvrSend feed q =
        match dvrSend with
        | some send => (.dvrSend first second, (q.dataGet size (send first second) false).2)
        | none => (.ts first second, q.advance size (188 * packets.length)) := by
  have havail := h.avail
  have hrest := h.rest
  have hcut : (q.getBuf1Size size + q.getBuf2Size) % 188 = rest.length := by
    change q.getBytesAvail size % 188 = rest.length
    omega
  have hlen : q.getBuf1Size size + q.getBuf2Size - rest.length = 188 * packets.length := by
    change q.getBytesAvail size - rest.length = 188 * packets.length
    omega
  have hsum : q.getBuf1Size size + q.getBuf2Size = 188 * packets.length + rest.length := havail
  have hall : (q.unread size).take (188 * packets.length) = packets.flatten := by
    rw [h.unread, flatten_take h.packets (Nat.le_refl _), List.take_length]
  unfold callbackTsPes
  rw [if_pos hfeed]
  dsimp only
  rw [hcut, hlen, dataGet_advance h.placed (by omega)]
  refine ⟨_, _, ?_, rfl⟩
  split
  · rename_i hshort
    rw [slice_take h.placed (by omega), show Ring.slice q.mem 0 0 = [] from rfl, List.append_nil,
      ← hall]
    congr 1
    omega
  · rename_i hlong
    rw [buffers_take h.placed (by omega), ← hall]
    congr 1
    omega

end

/-! ## Datagrams -/

section
variable {fuel : Nat} {first second : Str}

theorem dvb2ethLoop_zero (h : first.length + second.length < 1316) :
    dvb2ethLoop fuel first second = [] := by
  cases fuel with
  | zero => rfl
  | succ fuel => exact if_pos h

/-- One datagram: the next seven packets, and what is left of the two buffers. -/
theorem dvb2ethLoop_step (h : 1316 ≤ first.length + second.length) :
    ∃ first' second', first' ++ second' = (first ++ second).drop 1316 ∧
      dvb2ethLoop (fuel + 1) first second =
        (first ++ second).take 1316 :: dvb2ethLoop fuel first' second' := by
  have hlong : ¬ first.length + second.length < 1316 := by omega
  have hdata : (if 1316 ≤ first.length then first.take 1316
      else first ++ second.take (1316 - first.length)) = (first ++ second).take 1316 := by
    rw [List.take_append]
    split
    · rename_i hfits
      rw [Nat.sub_eq_zero_of_le hfits, List.take_zero, List.append_nil]
    · rename_i hshort
      rw [@List.take_of_length_le _ _ first (by omega)]
  have hleft : first.drop 1316 ++ (if 1316 ≤ first.length then second
      else second.drop (1316 - first.length)) = (first ++ second).drop 1316 := by
    rw [List.drop_append]
    split
    · rename_i hfits
      rw [Nat.sub_eq_zero_of_le hfits, List.drop_zero]
    · rfl
  rw [dvb2ethLoop, if_neg hlong]
  dsimp only
  rw [hdata]
  by_cases hnone : first.drop 1316 = []
  · refine ⟨_, [], ?_, by rw [if_pos hnone]⟩
    rw [← hleft, hnone, List.nil_append, List.append_nil]
  · exact ⟨_, _, hleft, by rw [if_neg hnone]⟩

/-- The datagrams have seven packets each, and are what is said to have been sent. -/
theorem dvb2ethLoop_spec (hfuel : first.length + second.length ≤ fuel) :
    (dvb2ethLoop fuel first second).length = (first.length + second.length) / 1316 ∧
      (∀ d ∈ dvb2ethLoop fuel first second, d.length = 1316) ∧
      (dvb2ethLoop fuel first second).flatten =
        (first ++ second).take (1316 * ((first.length + second.length) / 1316)) := by
  induction fuel generalizing first second with
  | zero =>
    have hnone : first.length + second.length = 0 := by omega
    rw [dvb2ethLoop_zero (by omega), hnone]
    exact ⟨rfl, nofun, rfl⟩
  | succ fuel ih =>
    rcases Nat.lt_or_ge (first.length + second.length) 1316 with hshort | hlong
    · rw [dvb2ethLoop_zero hshort, Nat.div_eq_of_lt hshort]
      exact ⟨rfl, nofun, rfl⟩
    · obtain ⟨first', second', hleft, hstep⟩ := @dvb2ethLoop_step fuel first second hlong
      have hsum : first'.length + second'.length = first.length + second.length - 1316 := by
        rw [← List.length_append, hleft, List.length_drop, List.length_append]
      obtain ⟨hcount, heach, hbytes⟩ := @ih first' second' (by omega)
      have hdiv : (first.length + second.length) / 1316 =
          (first.length + second.length - 1316) / 1316 + 1 := by omega
      rw [hsum] at hcount hbytes
      rw [hstep, hdiv]
      refine ⟨by rw [List.length_cons, hcount], ?_, ?_⟩
      · intro d hd
        rcases List.mem_cons.mp hd with rfl | hd
        · rw [List.length_take, List.length_append, Nat.min_eq_left hlong]
        · exact heach d hd
      · rw [List.flatten_cons, hbytes, hleft, Nat.mul_succ, Nat.add_comm (1316 * _), List.take_add]

end

/-! ## The callbacks -/

/-- Of whole packets and a part of one, the packets go to the software filter one by one and in
order, or in two buffers to the feed, and no more is read. The Ethernet gets them in two buffers;
it sends them by sevens, and what is sent is read. -/
theorem packets_handed_over {size : Nat} {q : QueueData} {packets : List Str} {rest : Str}
    (h : Holds size q packets rest) {feed : DvbDemuxFeed}
    (hfeed : feed.type = .ts ∧ feed.tsType.payloadOnly = false) :
    ((callbackGeneric size q).1 = packets ∧ (callbackGeneric size q).2.unread size = rest) ∧
    (∃ first second, first ++ second = packets.flatten ∧
      callbackTsPes size none feed q = (.ts first second, q.advance size (188 * packets.length))) ∧
    ∃ first second, first ++ second = packets.flatten ∧
      callbackTsPes size (some fun a b => (dvb2ethSend a b).2) feed q =
        (.dvrSend first second, q.advance size (1316 * (packets.length / 7))) ∧
      (dvb2ethSend first second).1.flatten =
        packets.flatten.take (1316 * (packets.length / 7)) := by
  refine ⟨?_, callbackTsPes_eq h hfeed none, ?_⟩
  · rw [callbackGeneric_eq h]
    exact ⟨rfl, h.unread_behind⟩
  · obtain ⟨first, second, hbytes, hresult⟩ :=
      callbackTsPes_eq h hfeed (some fun a b => (dvb2ethSend a b).2)
    obtain ⟨hcount, -, hsent⟩ := @dvb2ethLoop_spec _ first second (Nat.le_refl _)
    have havail := h.avail
    have hlen : (first.length + second.length) / 1316 = packets.length / 7 := by
      rw [← List.length_append, hbytes, flatten_length h.packets]
      omega
    have hnumber : (dvb2ethSend first second).2 = 1316 * (packets.length / 7) := by
      rw [← hlen, ← hcount]
      rfl
    refine ⟨first, second, hbytes, ?_, ?_⟩
    · rw [hresult]
      dsimp only
      rw [hnumber, dataGet_advance h.placed (by omega)]
    · rw [← hlen, ← hbytes]
      exact hsent

/-- A queue that holds these bytes from a cell on, around the end of its memory. -/
def sampleQueue (size start : Nat) (bytes : Str) : QueueData where
  mem := fun i => bytes.getD ((i + size - start) % size) 0
  register := (start + bytes.length) % size
  hwWritePos := (start + bytes.length) % size
  writePos := (start + bytes.length) % size
  readPos := start
  overflowCount := 0

def samplePacket (k : Byte) : Str := 0x47 :: List.replicate 187 k

def sampleFeed : DvbDemuxFeed :=
  { type := .ts, tsType := ⟨true, false, false⟩, pesType := .other, pid := 0x100, filter := [],
    priv := none }

theorem samplePacket_isPacket {ks : List Byte} : ∀ p ∈ ks.map samplePacket, IsPacket p := by
  intro p hp
  obtain ⟨k, -, rfl⟩ := List.mem_map.mp hp
  exact ⟨rfl, rfl⟩

theorem sampleQueue_holds {size start : Nat} {packets : List Str} {rest : Str}
    (hsize : (packets.flatten ++ rest).length < size) (hstart : start < size)
    (hpackets : ∀ p ∈ packets, IsPacket p) (hrest : rest.length < 188) :
    Holds size (sampleQueue size start (packets.flatten ++ rest)) packets rest where
  placed := ⟨hstart, Nat.mod_lt _ (by omega)⟩
  unread := by
    have hcell : ∀ j < size, ((start + j) % size + size - start) % size = j := by
      intro j hj
      rcases Nat.lt_or_ge (start + j) size with hlt | hge
      · rw [Nat.mod_eq_of_lt hlt, show start + j + size - start = j + size by omega,
          Nat.add_mod_right, Nat.mod_eq_of_lt hj]
      · have hwrap : (start + j - size) % size = start + j - size := Nat.mod_eq_of_lt (by omega)
        rw [Nat.mod_eq_sub_mod hge, hwrap, show start + j - size + size - start = j by omega,
          Nat.mod_eq_of_lt hj]
    have havail : (sampleQueue size start (packets.flatten ++ rest)).getBytesAvail size =
        (packets.flatten ++ rest).length := by
      have hread : (sampleQueue size start (packets.flatten ++ rest)).readPos = start := rfl
      have hwrite : (sampleQueue size start (packets.flatten ++ rest)).writePos =
          (start + (packets.flatten ++ rest).length) % size := rfl
      rw [getBytesAvail, getBuf1Size, getBuf2Size, hread, hwrite]
      rcases Nat.lt_or_ge (start + (packets.flatten ++ rest).length) size with hlt | hge
      · rw [Nat.mod_eq_of_lt hlt, if_pos (by omega), if_pos (by omega)]
        omega
      · rw [Nat.mod_eq_sub_mod hge, Nat.mod_eq_of_lt (by omega), if_neg (by omega),
          if_neg (by omega)]
        omega
    apply List.ext_getElem
    · rw [unread_length, havail]
    · intro i _ hi
      simp [QueueData.unread, Ring.around, sampleQueue, hcell i (by omega),
        List.getElem?_eq_getElem hi]
  packets := hpackets
  rest := hrest

/-- Eight packets and a byte of the next, around the end of the memory. -/
def wrappedQueue : QueueData :=
  sampleQueue 2048 1000 (([1, 2, 3, 4, 5, 6, 7, 8].map samplePacket).flatten ++ [0x47])

theorem packets_handed_over_sample :
    ((callbackGeneric 2048 wrappedQueue).1 = [1, 2, 3, 4, 5, 6, 7, 8].map samplePacket ∧
      (callbackGeneric 2048 wrappedQueue).2.unread 2048 = [0x47]) ∧
    (∃ first second, first ++ second = ([1, 2, 3, 4, 5, 6, 7, 8].map samplePacket).flatten ∧
      callbackTsPes 2048 none sampleFeed wrappedQueue =
        (.ts first second, wrappedQueue.advance 2048 1504)) ∧
    ∃ first second, first ++ second = ([1, 2, 3, 4, 5, 6, 7, 8].map samplePacket).flatten ∧
      callbackTsPes 2048 (some fun a b => (dvb2ethSend a b).2) sampleFeed wrappedQueue =
        (.dvrSend first second, wrappedQueue.advance 2048 1316) ∧
      (dvb2ethSend first second).1.flatten =
        ([1, 2, 3, 4, 5, 6, 7, 8].map samplePacket).flatten.take 1316 :=
  @packets_handed_over 2048 wrappedQueue ([1, 2, 3, 4, 5, 6, 7, 8].map samplePacket) [0x47]
    (sampleQueue_holds (by decide +kernel) (by decide) samplePacket_isPacket (by decide)) sampleFeed
    ⟨rfl, rfl⟩

/-- Of one packet the Ethernet sends nothing, and nothing is read. -/
theorem packet_not_sent :
    Holds 512 (sampleQueue 512 0 ([samplePacket 0].flatten ++ [])) [samplePacket 0] [] ∧
    (callbackTsPes 512 (some fun a b => (dvb2ethSend a b).2) sampleFeed
      (sampleQueue 512 0 ([samplePacket 0].flatten ++ []))).2.readPos = 0 := by
  have hholds : Holds 512 (sampleQueue 512 0 ([samplePacket 0].flatten ++ [])) [samplePacket 0] [] :=
    @sampleQueue_holds 512 0 [samplePacket 0] [] (by decide +kernel) (by decide)
      (@samplePacket_isPacket [0]) (by decide)
  obtain ⟨first, second, hbytes, hresult⟩ := @callbackTsPes_eq _ _ _ _ hholds sampleFeed ⟨rfl, rfl⟩
    (some fun a b => (dvb2ethSend a b).2)
  have hlen : first.length + second.length = 188 := by
    rw [← List.length_append, hbytes, flatten_length hholds.packets]
    rfl
  have hnone : (dvb2ethSend first second).2 = 0 := by
    unfold dvb2ethSend
    rw [dvb2ethLoop_zero (by omega)]
    rfl
  refine ⟨hholds, ?_⟩
  rw [hresult]
  dsimp only
  rw [hnone, dataGet_advance hholds.placed (Nat.zero_le _), advance_zero hholds.placed]
  rfl

end Tuxbox.Avia
