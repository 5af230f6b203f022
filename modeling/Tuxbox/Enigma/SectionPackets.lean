import Tuxbox.Enigma.Recorder

/-!
# Sections in a recording

`writeSection` cuts PAT and PMT into packets of the transport stream that is recorded.
A player reads the packets back.
-/

namespace Tuxbox.Enigma

/-! ## A demultiplexer -/

/-- A packet without scrambling and adaptation field. -/
structure RecordedPacket where
  unitStart : Bool
  pid : Nat
  counter : Nat
  payload : Str
  deriving DecidableEq

def readPacket (p : Str) : Option RecordedPacket :=
  if p.length = 188 ∧ p.getD 0 0 = 0x47 ∧ p.getD 3 0 &&& 0xf0 = 0x10 then
    some ⟨p.getD 1 0 &&& 0x40 != 0, (p.getD 1 0 &&& 0x1f).toNat <<< 8 ||| (p.getD 2 0).toNat,
      (p.getD 3 0 &&& 0x0f).toNat, p.drop 4⟩
  else none

/-- A stream cut into packets. -/
def readPackets (ts : Str) : Option (List RecordedPacket) :=
  if ts = [] then some []
  else
    match readPacket (ts.take 188), readPackets (ts.drop 188) with
    | some p, some ps => some (p :: ps)
    | _, _ => none
termination_by ts.length
decreasing_by
  have : 0 < ts.length := List.length_pos_iff.mpr ‹_›
  rw [List.length_drop]
  omega

/-- The section that starts with the first packet and ends in the others. -/
def readSection : List RecordedPacket → Option Str
  | [] => none
  | p :: ps =>
    if p.unitStart ∧ ∀ q ∈ ps, q.unitStart = false then
      let payload := (p :: ps).flatMap RecordedPacket.payload
      let buf := payload.drop ((payload.getD 0 0).toNat + 1)
      some (buf.take (sectionLength buf + 3))
    else none

/-! ## Packets and their bytes -/

structure RecordedPacket.Valid (p : RecordedPacket) : Prop where
  pid : p.pid < 8192
  counter : p.counter < 16
  payload : p.payload.length = 184

def RecordedPacket.bytes (p : RecordedPacket) : Str :=
  [0x47, UInt8.ofNat (p.unitStart.toNat <<< 6 ||| p.pid >>> 8), UInt8.ofNat p.pid,
    UInt8.ofNat (0x10 ||| p.counter)] ++ p.payload

theorem RecordedPacket.bytes_length {p : RecordedPacket} (h : p.payload.length = 184) :
    p.bytes.length = 188 := by
  simp [RecordedPacket.bytes, h]

theorem unitStart_bits : ∀ b : Bool, ∀ n < 32,
    (UInt8.ofNat (b.toNat <<< 6 ||| n) &&& 0x40 != 0) = b ∧
      (UInt8.ofNat (b.toNat <<< 6 ||| n) &&& 0x1f).toNat = n := by decide

theorem counter_bits : ∀ n < 16, UInt8.ofNat (0x10 ||| n) &&& 0xf0 = 0x10 ∧
    (UInt8.ofNat (0x10 ||| n) &&& 0x0f).toNat = n := by decide

theorem pid_bits {pid : Nat} : (pid >>> 8) <<< 8 ||| (UInt8.ofNat pid).toNat = pid := by
  rw [UInt8.toNat_ofNat', Nat.shiftLeft_eq, Nat.shiftRight_eq_div_pow, Nat.mul_comm,
    ← Nat.two_pow_add_eq_or_of_lt (Nat.mod_lt _ (by decide))]
  exact Nat.div_add_mod pid (2 ^ 8)

theorem readPacket_bytes {p : RecordedPacket} (h : p.Valid) : readPacket p.bytes = some p := by
  have hshift : p.pid >>> 8 < 32 := by
    rw [Nat.shiftRight_eq_div_pow]
    have := h.pid
    omega
  obtain ⟨hstart, hhigh⟩ := unitStart_bits p.unitStart _ hshift
  obtain ⟨hcontrol, hcounter⟩ := counter_bits _ h.counter
  have hlen := RecordedPacket.bytes_length h.payload
  unfold readPacket
  rw [if_pos ⟨hlen, rfl, hcontrol⟩]
  simp only [RecordedPacket.bytes, List.cons_append, List.nil_append, List.getD_cons_succ,
    List.getD_cons_zero, List.drop_succ_cons, List.drop_zero, hstart, hhigh, hcounter, pid_bits]

theorem readPackets_bytes {ps : List RecordedPacket} (h : ∀ p ∈ ps, p.Valid) :
    readPackets (ps.flatMap RecordedPacket.bytes) = some ps := by
  induction ps with
  | nil => rw [List.flatMap_nil, readPackets, if_pos rfl]
  | cons p ps ih =>
    have hp : p.Valid := h p List.mem_cons_self
    have hlen := RecordedPacket.bytes_length hp.payload
    have hne : p.bytes ++ ps.flatMap RecordedPacket.bytes ≠ [] := by
      intro hnil
      rw [List.append_eq_nil_iff] at hnil
      rw [hnil.1] at hlen
      cases hlen
    rw [List.flatMap_cons, readPackets, if_neg hne, List.take_left' hlen, List.drop_left' hlen,
      readPacket_bytes hp, ih fun q hq => h q (List.mem_cons_of_mem p hq)]

/-! ## What section2ts writes -/

/-- Data in packets, the last one stuffed. -/
def packetsFrom (pusi : Bool) (pid : Nat) (cc : UInt32) (data : Str) : List RecordedPacket :=
  if data = [] then []
  else
    ⟨pusi, pid, cc.toNat % 16,
        data.take 184 ++ List.replicate (184 - (data.take 184).length) 0xff⟩ ::
      packetsFrom false pid (cc + 1) (data.drop 184)
termination_by data.length
decreasing_by
  have : 0 < data.length := List.length_pos_iff.mpr ‹_›
  rw [List.length_drop]
  omega

theorem tsHeader_bytes (pusi : Bool) (pid : Nat) (cc : UInt32) (payload : Str) :
    tsHeader pusi pid 0 1 cc ++ payload =
      RecordedPacket.bytes ⟨pusi, pid, cc.toNat % 16, payload⟩ := by
  have hcc : (cc &&& 0x0f).toNat = cc.toNat % 16 := by
    rw [UInt32.toNat_and]
    exact Nat.and_two_pow_sub_one_eq_mod cc.toNat 4
  unfold tsHeader RecordedPacket.bytes
  rw [hcc]
  rfl

/-- How much stuffing `n` bytes need. -/
def stuffing (n : Nat) : Nat := (184 - n % 184) % 184

theorem stuffing_add (n : Nat) : stuffing (184 + n) = stuffing n := by
  unfold stuffing
  rw [Nat.add_mod_left]

theorem stuffing_of_le {n : Nat} (h0 : 0 < n) (h : n ≤ 184) : stuffing n = 184 - n := by
  unfold stuffing
  rcases Nat.lt_or_eq_of_le h with hlt | rfl
  · rw [Nat.mod_eq_of_lt hlt, Nat.mod_eq_of_lt (by omega)]
  · rfl

theorem packetsFrom_nil (pusi : Bool) (pid : Nat) (cc : UInt32) :
    packetsFrom pusi pid cc [] = [] := by
  rw [packetsFrom, if_pos rfl]

/-- The loop of `section2ts` with the stuffing behind it. -/
theorem sectionPackets_bytes (pusi : Bool) (src : Str) (pid : Nat) (cc : UInt32) (hne : src ≠ []) :
    let data := if pusi then 0 :: src else src
    (sectionPackets pusi src pid cc).1 ++ List.replicate (stuffing data.length) 0xff =
        (packetsFrom pusi pid cc data).flatMap RecordedPacket.bytes ∧
      (sectionPackets pusi src pid cc).2 =
        cc + UInt32.ofNat (packetsFrom pusi pid cc data).length := by
  fun_induction sectionPackets pusi src pid cc with
  | case1 => exact absurd rfl hne
  | case2 pusi src cc hsrc cplen pointerField rest ih =>
    intro data
    have htake : data.take 184 = pointerField ++ src.take cplen := by cases pusi <;> rfl
    have hdrop : data.drop 184 = src.drop cplen := by cases pusi <;> rfl
    have hdata : data ≠ [] := by
      cases pusi
      · exact hsrc
      · exact List.cons_ne_nil 0 src
    have hpos : 0 < data.length := List.length_pos_iff.mpr hdata
    rw [packetsFrom, if_neg hdata, hdrop, htake]
    by_cases hlast : src.drop cplen = []
    · have hshort : data.length ≤ 184 := by
        have := congrArg List.length (hdrop.trans hlast)
        rw [List.length_drop, List.length_nil] at this
        omega
      have hwhole : pointerField ++ src.take cplen = data := by
        rw [← htake]
        exact List.take_of_length_le hshort
      have hrest : rest = ([], cc + 1) := by
        change sectionPackets false (src.drop cplen) pid (cc + 1) = _
        rw [sectionPackets, if_pos hlast]
      rw [hlast, packetsFrom_nil, hwhole, hrest, stuffing_of_le hpos hshort]
      constructor
      · rw [List.flatMap_cons, List.flatMap_nil, List.append_nil, List.append_nil, ← tsHeader_bytes,
          List.append_assoc, List.append_assoc, ← List.append_assoc pointerField, hwhole]
      · rfl
    · obtain ⟨hbytes, hcc⟩ := ih hlast
      have hlong : (data.take 184).length = 184 := by
        have := List.length_pos_iff.mpr (hdrop ▸ hlast)
        rw [List.length_drop] at this
        rw [List.length_take]
        omega
      have hsplit : data.length = 184 + (src.drop cplen).length := by
        rw [← hdrop, List.length_drop]
        rw [List.length_take] at hlong
        omega
      rw [htake] at hlong
      simp only [Bool.false_eq_true, if_false] at hbytes hcc
      constructor
      · rw [List.flatMap_cons, ← hbytes, ← tsHeader_bytes, hlong, hsplit, stuffing_add]
        simp only [Nat.sub_self, List.replicate_zero, List.append_nil, List.append_assoc]
        rfl
      · rw [List.length_cons]
        change rest.2 = _
        rw [hcc, UInt32.ofNat_add, UInt32.add_assoc, UInt32.add_comm 1]
        rfl

/-! ## What packets hold -/

section
variable {pusi : Bool} {pid : Nat} {cc : UInt32} {data : Str}

theorem packetsFrom_length (pusi : Bool) (pid : Nat) (cc : UInt32) (data : Str) :
    (packetsFrom pusi pid cc data).length = (data.length + 183) / 184 := by
  fun_induction packetsFrom pusi pid cc data with
  | case1 => rfl
  | case2 pusi cc data hne ih =>
    have hpos := List.length_pos_iff.mpr hne
    rw [List.length_cons, ih, List.length_drop]
    omega

theorem counter_add (cc : UInt32) (k : Nat) :
    (cc + UInt32.ofNat k).toNat % 16 = (cc.toNat + k) % 16 := by
  rw [UInt32.toNat_add, UInt32.toNat_ofNat']
  omega

theorem packetsFrom_full : ∀ p ∈ packetsFrom pusi pid cc data, p.payload.length = 184 := by
  fun_induction packetsFrom pusi pid cc data with
  | case1 => simp
  | case2 pusi cc data hne ih =>
    intro p hp
    rcases List.mem_cons.mp hp with rfl | hp
    · simp only [List.length_append, List.length_replicate, List.length_take]
      omega
    · exact ih p hp

theorem bytes_length {ps : List RecordedPacket} (h : ∀ p ∈ ps, p.payload.length = 184) :
    (ps.flatMap RecordedPacket.bytes).length = 188 * ps.length := by
  induction ps with
  | nil => rfl
  | cons p ps ih =>
    have hp := RecordedPacket.bytes_length (h p List.mem_cons_self)
    have hps := ih fun q hq => h q (List.mem_cons_of_mem p hq)
    rw [List.flatMap_cons, List.length_append, hp, hps, List.length_cons]
    omega

/-- What the `k`-th of the packets says of itself. -/
theorem packetsFrom_get {k : Nat} {p : RecordedPacket}
    (h : (packetsFrom pusi pid cc data)[k]? = some p) :
    p.pid = pid ∧ p.counter = (cc.toNat + k) % 16 ∧ p.unitStart = (pusi && k == 0) := by
  fun_induction packetsFrom pusi pid cc data generalizing k with
  | case1 => simp at h
  | case2 pusi cc data hne ih =>
    cases k with
    | zero =>
      obtain rfl := Option.some_inj.mp h
      exact ⟨rfl, rfl, by simp⟩
    | succ k =>
      obtain ⟨hpid, hcounter, hstart⟩ := ih h
      have hcc := counter_add cc 1
      have hone : UInt32.ofNat 1 = 1 := rfl
      rw [hone] at hcc
      exact ⟨hpid, by omega, by simpa using hstart⟩

theorem packetsFrom_valid (hpid : pid < 8192) : ∀ p ∈ packetsFrom pusi pid cc data, p.Valid := by
  intro p hp
  obtain ⟨k, hk⟩ := List.mem_iff_getElem?.mp hp
  obtain ⟨hp', hcounter, -⟩ := packetsFrom_get hk
  refine ⟨hp' ▸ hpid, ?_, packetsFrom_full p hp⟩
  rw [hcounter]
  exact Nat.mod_lt _ (by decide)

/-- The data comes back, with stuffing behind it. -/
theorem packetsFrom_payload (pusi : Bool) (pid : Nat) (cc : UInt32) (data : Str) :
    (packetsFrom pusi pid cc data).flatMap RecordedPacket.payload =
      data ++ List.replicate (stuffing data.length) 0xff := by
  fun_induction packetsFrom pusi pid cc data with
  | case1 => rfl
  | case2 pusi cc data hne ih =>
    have hpos := List.length_pos_iff.mpr hne
    rw [List.flatMap_cons, ih, List.length_drop, List.length_take]
    by_cases hshort : data.length ≤ 184
    · rw [List.take_of_length_le hshort, List.drop_of_length_le hshort, stuffing_of_le hpos hshort,
        Nat.min_eq_right hshort, Nat.sub_eq_zero_of_le hshort]
      simp [stuffing]
    · have hmin : min 184 data.length = 184 := by omega
      have hlen : data.length = 184 + (data.length - 184) := by omega
      rw [hmin, Nat.sub_self, List.replicate_zero, List.append_nil, ← List.append_assoc,
        List.take_append_drop]
      conv_rhs => rw [hlen, stuffing_add]

end

/-! ## Sections come back -/

theorem section2ts_bytes (s : RawSection) (pid : Nat) (cc : UInt32) :
    (section2ts s pid cc).1 = (packetsFrom true pid cc (0 :: s.raw)).flatMap RecordedPacket.bytes ∧
      (section2ts s pid cc).2 =
        cc + UInt32.ofNat (packetsFrom true pid cc (0 :: s.raw)).length := by
  have hraw : s.raw ≠ [] := by
    apply List.length_pos_iff.mp
    rw [s.complete]
    exact Nat.succ_pos _
  obtain ⟨hbytes, hcc⟩ := sectionPackets_bytes true s.raw pid cc hraw
  simp only [if_true] at hbytes hcc
  refine ⟨?_, hcc⟩
  have hfull : ∀ p ∈ packetsFrom true pid cc (0 :: s.raw), p.payload.length = 184 :=
    packetsFrom_full
  have hlen := bytes_length hfull
  rw [← hbytes, List.length_append, List.length_replicate] at hlen
  have hstuff : stuffing (0 :: s.raw).length < 184 := Nat.mod_lt _ (by decide)
  rw [← hbytes]
  unfold section2ts
  dsimp only
  split
  · have hzero : stuffing (0 :: s.raw).length = 0 := by omega
    rw [hzero, List.replicate_zero, List.append_nil]
  · have hfill : 188 - (sectionPackets true s.raw pid cc).1.length % 188 =
        stuffing (0 :: s.raw).length := by omega
    rw [hfill]

theorem sectionLength_append (raw fill : Str) (h : raw.length = sectionLength raw + 3) :
    sectionLength (raw ++ fill) = sectionLength raw := by
  have hone : (raw ++ fill).getD 1 0 = raw.getD 1 0 := by
    rw [List.getD_eq_getElem?_getD, List.getElem?_append_left (by omega),
      List.getD_eq_getElem?_getD]
  have htwo : (raw ++ fill).getD 2 0 = raw.getD 2 0 := by
    rw [List.getD_eq_getElem?_getD, List.getElem?_append_left (by omega),
      List.getD_eq_getElem?_getD]
  unfold sectionLength
  rw [hone, htwo]

theorem readSection_packets (s : RawSection) (pid : Nat) (cc : UInt32) :
    readSection (packetsFrom true pid cc (0 :: s.raw)) = some s.raw := by
  have hpayload := packetsFrom_payload true pid cc (0 :: s.raw)
  have hget {k : Nat} {p : RecordedPacket}
      (h : (packetsFrom true pid cc (0 :: s.raw))[k]? = some p) :=
    (packetsFrom_get h).2.2
  have hcount := packetsFrom_length true pid cc (0 :: s.raw)
  rw [List.length_cons] at hcount
  generalize packetsFrom true pid cc (0 :: s.raw) = packets at *
  cases packets with
  | nil =>
    rw [List.length_nil] at hcount
    omega
  | cons p ps =>
    have hfirst : p.unitStart = true := hget (k := 0) rfl
    have hrest : ∀ q ∈ ps, q.unitStart = false := by
      intro q hq
      obtain ⟨k, hk⟩ := List.mem_iff_getElem?.mp hq
      exact hget (k := k + 1) hk
    have hlen := sectionLength_append s.raw (List.replicate (stuffing (s.raw.length + 1)) 0xff)
      s.complete
    rw [readSection, if_pos ⟨hfirst, hrest⟩]
    dsimp only
    rw [hpayload, List.cons_append, List.getD_cons_zero]
    have hdrop (x : Str) : (0 :: x).drop ((0 : Byte).toNat + 1) = x := rfl
    rw [hdrop, List.length_cons, hlen, ← s.complete, List.take_left' rfl]

/-- Every section comes back from its packets, which count on from `cc` and of which only the
first starts a unit. Their bytes fit the buffer for lengths of up to 4044. -/
theorem section_read_back (s : RawSection) {pid : Nat} (hpid : pid < 8192) (cc : UInt32) :
    ∃ ps, readPackets (section2ts s pid cc).1 = some ps ∧
      readSection ps = some s.raw ∧
      (∃ n, ps.flatMap RecordedPacket.payload = 0 :: s.raw ++ List.replicate n 0xff) ∧
      (∀ k p, ps[k]? = some p →
        p.pid = pid ∧ p.counter = (cc.toNat + k) % 16 ∧ p.unitStart = (k == 0)) ∧
      (section2ts s pid cc).2 = cc + UInt32.ofNat ps.length ∧
      (section2ts s pid cc).1.length = 188 * ps.length ∧
      ((section2ts s pid cc).1.length ≤ Recorder.secbufSize ↔ sectionLength s.raw ≤ 4044) := by
  obtain ⟨hbytes, hcc⟩ := section2ts_bytes s pid cc
  have hvalid : ∀ p ∈ packetsFrom true pid cc (0 :: s.raw), p.Valid := packetsFrom_valid hpid
  have hget {k : Nat} {p : RecordedPacket}
      (h : (packetsFrom true pid cc (0 :: s.raw))[k]? = some p) :=
    packetsFrom_get h
  have hpayload := packetsFrom_payload true pid cc (0 :: s.raw)
  have hcount := packetsFrom_length true pid cc (0 :: s.raw)
  have hlen := bytes_length fun p hp => (hvalid p hp).payload
  rw [← hbytes] at hlen
  refine ⟨_, hbytes ▸ readPackets_bytes hvalid, ?_, ⟨_, hpayload⟩, ?_, hcc, hlen, ?_⟩
  · exact readSection_packets s pid cc
  · intro k p h
    simpa using hget h
  · rw [hlen, hcount, List.length_cons, s.complete]
    unfold Recorder.secbufSize
    omega

/-- A section of 200 bytes takes two packets. -/
def RawSection.sample : RawSection := ⟨[2, 0xB0, 197] ++ List.replicate 197 7, by decide +kernel⟩

/-- Its packets, and the counter goes around. -/
theorem sample_read_back :
    ∃ ps, readPackets (section2ts RawSection.sample 18 15).1 = some ps ∧
      readSection ps = some RawSection.sample.raw ∧ ps.map (·.counter) = [15, 0] ∧
      ps.map (·.unitStart) = [true, false] := by
  obtain ⟨ps, hread, hsection, -, hpackets, -, hlen, -⟩ :=
    section_read_back RawSection.sample (show 18 < 8192 by decide) 15
  have htwo : ps.length = 2 := by
    have hbytes : (section2ts RawSection.sample 18 15).1.length = 376 := by decide +kernel
    omega
  obtain ⟨p, q, rfl⟩ := List.length_eq_two.mp htwo
  obtain ⟨-, hcount, hstart⟩ := hpackets 0 p rfl
  obtain ⟨-, hcount', hstart'⟩ := hpackets 1 q rfl
  refine ⟨_, hread, hsection, ?_, ?_⟩
  · simp [hcount, hcount']
  · simp [hstart, hstart']

/-! ## A whole recording -/

namespace Recorder

/-- The packets of a section, if there is one. -/
def sectionsPackets (data : Option RawSection) (pid : Nat) (cc : UInt32) : List RecordedPacket :=
  match data with
  | none => []
  | some data => packetsFrom true pid cc (0 :: data.raw)

/-- The packets of the PAT that a step inserts. -/
def patPackets (s : Recorder) : RecorderStep → List RecordedPacket
  | .insertPat data _ => sectionsPackets data 0 s.patCC
  | _ => []

def pmtPackets (s : Recorder) : RecorderStep → List RecordedPacket
  | .insertPmt data pmtpid _ => sectionsPackets data pmtpid s.pmtCC
  | _ => []

def readData : RecorderStep → Str
  | .read data _ _ => data
  | _ => []

/-- What a step adds to the stream; it is data of one kind. -/
def added (s : Recorder) (a : RecorderStep) : Str :=
  readData a ++ ((patPackets s a).flatMap RecordedPacket.bytes ++
    (pmtPackets s a).flatMap RecordedPacket.bytes)

/-- What the steps of a run come to, in order. -/
def collect {β : Type} (hw : Hardware) (f : Recorder → RecorderStep → List β) :
    Recorder → List RecorderStep → List β
  | _, [] => []
  | s, a :: as =>
    match s.step hw a with
    | none => []
    | some t => f s a ++ collect hw f t as

/-- The pids of the PMTs that are inserted are pids, and nothing is stored past the two
buffers. -/
structure InsertsOk (hw : Hardware) (s : Recorder) (steps : List RecorderStep) : Prop where
  pids : ∀ data pmtpid f, .insertPmt data pmtpid f ∈ steps → pmtpid < 8192
  inside : Sustains (step hw)
    (fun s => s.buf.length ≤ recordBuffersize hw ∧ s.overrun = false) s steps

section
variable {hw : Hardware} {s t : Recorder}

theorem flushBuffer_frame {f : Flush} {b : Bool} (h : s.flushBuffer f = some (t, b)) :
    t.arrived = s.arrived ∧ t.patCC = s.patCC ∧ t.pmtCC = s.pmtCC := by
  cases flushed h <;> exact ⟨rfl, rfl, rfl⟩

theorem writeSection_frame {data : Option RawSection} {pid : Nat} {cc cc' : UInt32} {f : Flush}
    (h : s.writeSection hw data pid cc f = some (t, cc')) :
    t.arrived = s.arrived ++ (sectionsPackets data pid cc).flatMap RecordedPacket.bytes ∧
      cc' = cc + UInt32.ofNat (sectionsPackets data pid cc).length ∧
      t.patCC = s.patCC ∧ t.pmtCC = s.pmtCC := by
  cases data with
  | none =>
    cases h
    exact ⟨(List.append_nil _).symm, (UInt32.add_zero cc).symm, rfl, rfl⟩
  | some data =>
    obtain ⟨hbytes, hcc⟩ := section2ts_bytes data pid cc
    unfold sectionsPackets
    rw [← hbytes, ← hcc]
    simp only [writeSection, section2ts_ne_nil, if_false] at h
    have hfill : (s.fillSecbuf (section2ts data pid cc).1).arrived = s.arrived ∧
        (s.fillSecbuf (section2ts data pid cc).1).patCC = s.patCC ∧
        (s.fillSecbuf (section2ts data pid cc).1).pmtCC = s.pmtCC := by
      unfold fillSecbuf
      split <;> exact ⟨rfl, rfl, rfl⟩
    obtain ⟨hfilled, hfillPat, hfillPmt⟩ := hfill
    split at h
    · obtain ⟨⟨t', b⟩, hflush, heq⟩ := Option.map_eq_some_iff.mp h
      obtain ⟨harrived, hpat, hpmt⟩ := flushBuffer_frame hflush
      cases heq
      refine ⟨?_, rfl, hpat.trans hfillPat, hpmt.trans hfillPmt⟩
      rw [← hfilled, ← harrived]
      rfl
    · cases h
      refine ⟨?_, rfl, hfillPat, hfillPmt⟩
      rw [← hfilled]
      rfl

/-- What a step adds, and how the counters go on. -/
theorem step_added {a : RecorderStep} (h : s.step hw a = some t) :
    t.arrived = s.arrived ++ added s a ∧
      t.patCC = s.patCC + UInt32.ofNat (patPackets s a).length ∧
      t.pmtCC = s.pmtCC + UInt32.ofNat (pmtPackets s a).length := by
  have hzero (cc : UInt32) : cc = cc + UInt32.ofNat 0 := (UInt32.add_zero cc).symm
  have hsame (h : t.arrived = s.arrived ∧ t.patCC = s.patCC ∧ t.pmtCC = s.pmtCC) :
      t.arrived = s.arrived ++ [] ∧ t.patCC = s.patCC + UInt32.ofNat 0 ∧
        t.pmtCC = s.pmtCC + UInt32.ofNat 0 := by
    rw [List.append_nil, ← hzero, ← hzero]
    exact h
  cases a with
  | start =>
    simp only [step, Option.ite_none_left_eq_some] at h
    obtain ⟨-, h⟩ := h
    apply hsame
    split at h <;> cases h <;> exact ⟨rfl, rfl, rfl⟩
  | insertPat data f =>
    simp only [step, Option.ite_none_left_eq_some] at h
    obtain ⟨-, h⟩ := h
    obtain ⟨⟨t', cc⟩, hw', rfl⟩ := Option.map_eq_some_iff.mp h
    obtain ⟨harrived, hcc, -, hpmt⟩ := writeSection_frame hw'
    refine ⟨?_, hcc, hpmt.trans (hzero _)⟩
    simp [harrived, added, readData, patPackets, pmtPackets]
  | insertPmt data pmtpid f =>
    simp only [step, Option.ite_none_left_eq_some] at h
    obtain ⟨-, h⟩ := h
    obtain ⟨⟨t', cc⟩, hw', rfl⟩ := Option.map_eq_some_iff.mp h
    obtain ⟨harrived, hcc, hpat, -⟩ := writeSection_frame hw'
    refine ⟨?_, hpat.trans (hzero _), hcc⟩
    simp [harrived, added, readData, patPackets, pmtPackets]
  | read data writePatPmt f =>
    simp only [step, Option.ite_none_left_eq_some] at h
    obtain ⟨-, -, h⟩ := h
    have hread (h : t.arrived = (s.store data).arrived ∧ t.patCC = s.patCC ∧ t.pmtCC = s.pmtCC) :
        t.arrived = s.arrived ++ added s (.read data writePatPmt f) ∧
          t.patCC = s.patCC + UInt32.ofNat 0 ∧ t.pmtCC = s.pmtCC + UInt32.ofNat 0 := by
      refine ⟨h.1.trans ?_, h.2.1.trans (hzero _), h.2.2.trans (hzero _)⟩
      simp [added, readData, patPackets, pmtPackets, store]
    apply hread
    split at h
    · cases h
      exact ⟨rfl, rfl, rfl⟩
    · split at h
      · obtain ⟨⟨t', b⟩, hflush, rfl⟩ := Option.map_eq_some_iff.mp h
        exact flushBuffer_frame hflush
      · cases h
        exact ⟨rfl, rfl, rfl⟩
  | readError =>
    simp only [step, Option.ite_none_left_eq_some] at h
    obtain ⟨-, h⟩ := h
    cases h
    exact hsame ⟨rfl, rfl, rfl⟩
  | stop f =>
    simp only [step, Option.ite_none_left_eq_some] at h
    obtain ⟨-, h⟩ := h
    apply hsame
    split at h
    · cases h
      exact ⟨rfl, rfl, rfl⟩
    · obtain ⟨⟨t', b⟩, hflush, rfl⟩ := Option.map_eq_some_iff.mp h
      exact flushBuffer_frame (s := { s with state := .stopped }) hflush

/-! ### Counters without a gap -/

/-- Packets that count on from `c`. -/
def Counts (c : Nat) (ps : List RecordedPacket) : Prop :=
  ∀ k p, ps[k]? = some p → p.counter = (c + k) % 16

theorem Counts.append {c : Nat} {ps qs : List RecordedPacket} (hp : Counts c ps)
    (hq : Counts (c + ps.length) qs) : Counts c (ps ++ qs) := by
  intro k p h
  by_cases hk : k < ps.length
  · rw [List.getElem?_append_left hk] at h
    exact hp k p h
  · rw [List.getElem?_append_right (Nat.not_lt.mp hk)] at h
    rw [hq _ p h]
    congr 1
    omega

theorem Counts.congr {c d : Nat} {ps : List RecordedPacket} (h : Counts c ps)
    (hcd : c % 16 = d % 16) :
    Counts d ps := by
  intro k p hp
  rw [h k p hp]
  omega

theorem counts_sections (data : Option RawSection) (pid : Nat) (cc : UInt32) :
    Counts cc.toNat (sectionsPackets data pid cc) := by
  intro k p h
  cases data with
  | none => cases h
  | some data => exact (packetsFrom_get h).2.1

/-- Packets that every step counts on are counted on by a run. -/
theorem collect_counts (cc : Recorder → UInt32) {f : Recorder → RecorderStep → List RecordedPacket}
    (hcounts : ∀ s a, Counts (cc s).toNat (f s a))
    (hstep : ∀ s a t, s.step hw a = some t → cc t = cc s + UInt32.ofNat (f s a).length)
    (s : Recorder) (steps : List RecorderStep) :
    Counts (cc s).toNat (collect hw f s steps) := by
  induction steps generalizing s with
  | nil =>
    intro k p h
    cases h
  | cons a as ih =>
    rw [collect]
    cases h : s.step hw a with
    | none =>
      intro k p hp
      cases hp
    | some t =>
      have hrest := ih t
      rw [hstep s a t h] at hrest
      exact (hcounts s a).append (hrest.congr (counter_add _ _))

theorem run_arrived {steps : List RecorderStep} (h : runList (step hw) s steps = some t) :
    t.arrived = s.arrived ++ collect hw added s steps := by
  induction steps generalizing s with
  | nil =>
    cases h
    exact (List.append_nil _).symm
  | cons a as ih =>
    obtain ⟨u, hs, h⟩ := runList_cons h
    rw [collect, hs]
    dsimp only
    rw [ih h, (step_added hs).1, List.append_assoc]

theorem mem_collect {β : Type} {f : Recorder → RecorderStep → List β} {steps : List RecorderStep}
    {p : β} (h : p ∈ collect hw f s steps) : ∃ r, ∃ a ∈ steps, p ∈ f r a := by
  induction steps generalizing s with
  | nil => cases h
  | cons a as ih =>
    rw [collect] at h
    cases hs : s.step hw a with
    | none =>
      rw [hs] at h
      cases h
    | some t =>
      rw [hs] at h
      rcases List.mem_append.mp h with h | h
      · exact ⟨s, a, List.mem_cons_self, h⟩
      · obtain ⟨r, b, hb, hp⟩ := ih h
        exact ⟨r, b, List.mem_cons_of_mem a hb, hp⟩

theorem mem_sections {data : Option RawSection} {pid : Nat} {cc : UInt32} {p : RecordedPacket}
    (hpid : pid < 8192) (h : p ∈ sectionsPackets data pid cc) : p.Valid ∧ p.pid = pid := by
  cases data with
  | none => cases h
  | some data =>
    obtain ⟨k, hk⟩ := List.mem_iff_getElem?.mp h
    exact ⟨packetsFrom_valid hpid p h, (packetsFrom_get hk).1⟩

theorem patPackets_valid {steps : List RecorderStep} :
    ∀ p ∈ collect hw patPackets s steps, p.Valid ∧ p.pid = 0 := by
  intro p hp
  obtain ⟨r, a, -, hpa⟩ := mem_collect hp
  cases a with
  | insertPat data f => exact mem_sections (by decide) hpa
  | _ => cases hpa

theorem pmtPackets_valid {steps : List RecorderStep}
    (hpids : ∀ data pmtpid f, .insertPmt data pmtpid f ∈ steps → pmtpid < 8192) :
    ∀ p ∈ collect hw pmtPackets s steps, p.Valid := by
  intro p hp
  obtain ⟨r, a, ha, hpa⟩ := mem_collect hp
  cases a with
  | insertPmt data pmtpid f => exact (mem_sections (hpids data pmtpid f ha) hpa).1
  | _ => cases hpa

/-- While nothing is stored past the buffers, the stream of a recording is what was read and
inserted, and the packets of PAT and PMT count on from 0 without a gap, over all the sections
that were inserted. -/
theorem continuity (hw : Hardware) (splitsize : Int) (ok : Bool) {steps : List RecorderStep}
    (hok : InsertsOk hw (opened splitsize ok) steps)
    (h : runList (step hw) (opened splitsize ok) steps = some t) :
    let pat := collect hw patPackets (opened splitsize ok) steps
    let pmt := collect hw pmtPackets (opened splitsize ok) steps
    t.arrived = collect hw added (opened splitsize ok) steps ∧
      readPackets (pat.flatMap RecordedPacket.bytes) = some pat ∧
      readPackets (pmt.flatMap RecordedPacket.bytes) = some pmt ∧
      (∀ k p, pat[k]? = some p → p.pid = 0 ∧ p.counter = k % 16) ∧
      ∀ k p, pmt[k]? = some p → p.counter = k % 16 := by
  intro pat pmt
  have hpat : ∀ p ∈ pat, p.Valid ∧ p.pid = 0 := patPackets_valid
  have hpatCounts : Counts 0 pat := by
    apply collect_counts Recorder.patCC
    · intro s a
      cases a with
      | insertPat data f => exact counts_sections data 0 s.patCC
      | _ => exact fun k p hp => nomatch hp
    · exact fun s a t hs => (step_added hs).2.1
  have hpmtCounts : Counts 0 pmt := by
    apply collect_counts Recorder.pmtCC
    · intro s a
      cases a with
      | insertPmt data pmtpid f => exact counts_sections data pmtpid s.pmtCC
      | _ => exact fun k p hp => nomatch hp
    · exact fun s a t hs => (step_added hs).2.2
  refine ⟨run_arrived h, readPackets_bytes fun p hp => (hpat p hp).1,
    readPackets_bytes (pmtPackets_valid hok.pids), ?_, ?_⟩
  · intro k p hp
    refine ⟨(hpat p (List.mem_of_getElem? hp)).2, ?_⟩
    simpa using hpatCounts k p hp
  · intro k p hp
    simpa using hpmtCounts k p hp

end

theorem map_counter {ps : List RecordedPacket}
    (h : ∀ k p, ps[k]? = some p → p.counter = k % 16) :
    ps.map (·.counter) = (List.range ps.length).map (· % 16) := by
  apply List.ext_getElem
  · simp
  · intro k hk _
    rw [List.length_map] at hk
    simp [h k _ (List.getElem?_eq_getElem hk)]

/-- PAT and PMT twice, a packet of the stream between them. -/
def twiceInserted : List RecorderStep :=
  let idle : Flush := ⟨[], false, false, false, []⟩
  [.start, .insertPat (some .sample) idle, .insertPmt (some .sample) 0x100 idle,
    .read (0x47 :: List.replicate 187 0) true idle, .insertPat (some .sample) idle,
    .insertPmt (some .sample) 0x100 idle]

/-- Each section takes two packets, and the counters go on over the second time. -/
theorem twiceInserted_continuity :
    (collect .dbox patPackets (opened 1880 true) twiceInserted).map (·.counter) = [0, 1, 2, 3] ∧
      (collect .dbox pmtPackets (opened 1880 true) twiceInserted).map (·.counter) =
        [0, 1, 2, 3] := by
  have hlengths : (collect .dbox patPackets (opened 1880 true) twiceInserted).length = 4 ∧
      (collect .dbox pmtPackets (opened 1880 true) twiceInserted).length = 4 := by
    decide +kernel
  have hsome : (runList (step .dbox) (opened 1880 true) twiceInserted).isSome := by
    decide +kernel
  have hok : InsertsOk .dbox (opened 1880 true) twiceInserted := by
    constructor
    · intro data pmtpid f hmem
      simp only [twiceInserted, List.mem_cons, List.not_mem_nil, or_false, reduceCtorEq,
        false_or, RecorderStep.insertPmt.injEq] at hmem
      omega
    · decide +kernel
  obtain ⟨t, ht⟩ := Option.isSome_iff_exists.mp hsome
  obtain ⟨-, -, -, hpat, hpmt⟩ := continuity .dbox 1880 true hok ht
  constructor
  · rw [map_counter fun k p hp => (hpat k p hp).2, hlengths.1]
    rfl
  · rw [map_counter hpmt, hlengths.2]
    rfl

end Recorder

end Tuxbox.Enigma
