import Tuxbox.Lib.Fill
import Tuxbox.Lib.OrdMap
import Tuxbox.Dvbsi.CaPmtMessage
import Tuxbox.Enigma.CiFraming
import Mathlib.Algebra.Order.BigOperators.Group.List

/-!
# The CA-PMTs that enigma sends to a module

`newService` of `dvbci.cpp` fills a buffer from front to back and writes a length once the
next stream begins.
-/

namespace Tuxbox.Enigma.CaBuild

open Buffer Dvbsi

/-- The object and the variables of the loops. -/
structure Builder where
  capmt : Str
  wp : Nat
  lenpos : Nat
  len : Nat
  first : Bool

/-- What the loops go over. -/
inductive Entry where
  | stream (streamType : Byte) (elementaryPid : BitVec 13)
  | descriptor (d : Descriptor)

namespace Builder

def setLength (b : Builder) : Option Builder := do
  let capmt ← write b.capmt b.lenpos ((b.len &&& 0xf00) >>> 8).toUInt8
  let capmt ← write capmt (b.lenpos + 1) (b.len &&& 0xff).toUInt8
  some { b with capmt }

def addStream (b : Builder) (streamType : Byte) (elementaryPid : BitVec 13) : Option Builder := do
  let b ← b.setLength
  let capmt ← writeAll b.capmt b.wp
    [streamType, (elementaryPid.toNat >>> 8).toUInt8, elementaryPid.toNat.toUInt8]
  some ⟨capmt, b.wp + 5, b.wp + 3, 0, true⟩

/-- The command id comes before the first descriptor. -/
def addDescriptor (b : Builder) (d : Descriptor) : Option Builder := do
  let b ←
    if b.first then do
      let capmt ← write b.capmt b.wp 0x01
      some { b with capmt, wp := b.wp + 1, len := b.len + 1, first := false }
    else some b
  let capmt ← writeAll b.capmt b.wp d.writeToBuffer
  some { b with capmt, wp := b.wp + (d.getLength + 2), len := b.len + (d.getLength + 2) }

def add (b : Builder) : Entry → Option Builder
  | .stream streamType elementaryPid => b.addStream streamType elementaryPid
  | .descriptor d => b.addDescriptor d

/-- A loop over entries, and the length of the last stream. -/
def run (b : Builder) (es : List Entry) : Option Builder := es.foldlM add b >>= setLength

end Builder

/-! ## What a run writes -/

/-- Behind the place of the length are the bytes that it counts. -/
structure Holds (b : Builder) (front info rest : Str) : Prop where
  capmt : ∃ x y, b.capmt = front ++ x :: y :: (info ++ rest)
  lenpos : b.lenpos = front.length
  wp : b.wp = front.length + 2 + info.length
  len : b.len = info.length

def lengthBytes (n : Nat) : Str := [((n &&& 0xf00) >>> 8).toUInt8, (n &&& 0xff).toUInt8]

theorem lengthBytes_length (n : Nat) : (lengthBytes n).length = 2 := rfl

/-- The descriptors in front of the first stream, and the streams. -/
def group : List Entry → List Descriptor × List Stream
  | [] => ([], [])
  | .descriptor d :: es => (d :: (group es).1, (group es).2)
  | .stream streamType elementaryPid :: es =>
    ([], ⟨streamType, elementaryPid, (group es).1⟩ :: (group es).2)

/-- What descriptors add: the command id too, if they are the first. -/
def more (first : Bool) (ds : List Descriptor) : Str :=
  if first then infoBytes 0x01 ds else ds.flatMap Descriptor.writeToBuffer

def streamBytes (s : Stream) : Str :=
  [s.streamType, (s.elementaryPid.toNat >>> 8).toUInt8, s.elementaryPid.toNat.toUInt8] ++
    lengthBytes (infoLength s.descriptors) ++ infoBytes 0x01 s.descriptors

/-- What a run adds behind the bytes that are there. -/
def tail (first : Bool) (es : List Entry) : Str :=
  more first (group es).1 ++ (group es).2.flatMap streamBytes

section Builder
variable {b b' : Builder} {front info rest : Str}

theorem setLength_holds (h : Holds b front info rest) :
    b.setLength = some { b with capmt := front ++ lengthBytes info.length ++ info ++ rest } := by
  obtain ⟨⟨x, y, hcapmt⟩, hlenpos, -, hlen⟩ := h
  have hfirst : ∀ c, front ++ c :: y :: (info ++ rest) = (front ++ [c]) ++ y :: (info ++ rest) := by
    simp
  rw [Builder.setLength, hcapmt, write_at hlenpos, Option.bind_eq_bind, Option.bind_some, hfirst,
    write_at (by simp [hlenpos]), Option.bind_some, hlen]
  simp [lengthBytes]

theorem addStream_holds (h : Holds b front info rest) (hrest : 5 ≤ rest.length)
    (streamType : Byte) (pid : BitVec 13) :
    ∃ b', b.addStream streamType pid = some b' ∧ b'.first = true ∧
      Holds b' (front ++ lengthBytes info.length ++ info ++
        [streamType, (pid.toNat >>> 8).toUInt8, pid.toNat.toUInt8]) [] (rest.drop 5) := by
  have hwp : b.wp = (front ++ lengthBytes info.length ++ info).length := by
    rw [h.wp]
    simp only [List.length_append, lengthBytes, List.length_cons, List.length_nil]
  rw [Builder.addStream, setLength_holds h, Option.bind_eq_bind, Option.bind_some]
  simp only
  rw [writeAll_at hwp (by simp; omega), Option.bind_eq_bind, Option.bind_some]
  refine ⟨_, rfl, rfl, ?_, ?_, ?_, rfl⟩
  · match rest, hrest with
    | r0 :: r1 :: r2 :: r3 :: r4 :: rest, _ => exact ⟨r3, r4, by simp⟩
  · simp only [hwp, List.length_append, List.length_cons, List.length_nil]
  · simp only [hwp, List.length_append, List.length_cons, List.length_nil]

theorem more_one (first : Bool) (d : Descriptor) :
    more first [d] = (if first then [0x01] else []) ++ d.writeToBuffer := by
  cases first <;> simp [more, infoBytes]

/-- The command id and the descriptor are written one behind the other. -/
theorem addDescriptor_eq (b : Builder) (d : Descriptor) :
    b.addDescriptor d = (writeAll b.capmt b.wp (more b.first [d])).map fun capmt =>
      ⟨capmt, b.wp + (more b.first [d]).length, b.lenpos, b.len + (more b.first [d]).length,
        false⟩ := by
  have hlen : d.writeToBuffer.length = d.getLength + 2 := by
    simp [Descriptor.writeToBuffer, Descriptor.getLength]
  obtain ⟨capmt, wp, lenpos, len, first⟩ := b
  rw [more_one]
  cases first with
  | false =>
    simp only [Builder.addDescriptor, Bool.false_eq_true, if_false, List.nil_append, hlen,
      Option.bind_eq_bind, Option.bind_some]
    cases writeAll capmt wp d.writeToBuffer <;> rfl
  | true =>
    simp only [Builder.addDescriptor, if_true, List.singleton_append, List.length_cons, hlen]
    rw [writeAll]
    cases write capmt wp 1 with
    | none => rfl
    | some capmt' =>
      simp only [Option.bind_eq_bind, Option.bind_some]
      cases writeAll capmt' (wp + 1) d.writeToBuffer with
      | none => rfl
      | some capmt'' =>
        simp only [Option.bind_some, Option.map_some, Option.some.injEq, Builder.mk.injEq, true_and,
          and_true]
        omega

theorem addDescriptor_holds (h : Holds b front info rest) (d : Descriptor)
    (hrest : (more b.first [d]).length ≤ rest.length) :
    ∃ b', b.addDescriptor d = some b' ∧ b'.first = false ∧
      Holds b' front (info ++ more b.first [d]) (rest.drop (more b.first [d]).length) := by
  obtain ⟨⟨x, y, hcapmt⟩, hlenpos, hwp, hlen⟩ := h
  have hsplit : b.capmt = (front ++ x :: y :: info) ++ rest := by simp [hcapmt]
  have hat : b.wp = (front ++ x :: y :: info).length := by
    simp only [hwp, List.length_append, List.length_cons]
    omega
  rw [addDescriptor_eq, hsplit, writeAll_at hat hrest]
  refine ⟨_, rfl, rfl, ⟨x, y, by simp⟩, hlenpos, ?_, ?_⟩
  · simp only [hwp, List.length_append]
    omega
  · simp only [hlen, List.length_append]

theorem more_nil (first : Bool) : more first [] = [] := by cases first <;> rfl

theorem more_true (ds : List Descriptor) : more true ds = infoBytes 0x01 ds := rfl

theorem more_cons (first : Bool) (d : Descriptor) (ds : List Descriptor) :
    more first (d :: ds) = more first [d] ++ more false ds := by
  cases first <;> simp [more, infoBytes]

theorem tail_descriptor (first : Bool) (d : Descriptor) (es : List Entry) :
    tail first (.descriptor d :: es) = more first [d] ++ tail false es := by
  rw [tail, tail, group, more_cons, List.append_assoc]

theorem tail_stream (first : Bool) (streamType : Byte) (pid : BitVec 13) (es : List Entry) :
    tail first (.stream streamType pid :: es) =
      [streamType, (pid.toNat >>> 8).toUInt8, pid.toNat.toUInt8] ++
        lengthBytes (more true (group es).1).length ++ tail true es := by
  simp only [tail, group, more_nil, List.nil_append, List.flatMap_cons, streamBytes, more_true,
    infoBytes_length, List.append_assoc]

theorem run_cons (b : Builder) (e : Entry) (es : List Entry) :
    b.run (e :: es) = (b.add e).bind fun b => b.run es := by
  simp only [Builder.run, List.foldlM_cons, Option.bind_eq_bind, Option.bind_assoc]

/-- The entries one behind the other, and the length of the last stream. -/
theorem run_writes (es : List Entry) : ∀ {b : Builder} {front info rest : Str},
    Holds b front info rest → (tail b.first es).length ≤ rest.length →
    ∃ b', b.run es = some b' ∧ b'.wp = b.wp + (tail b.first es).length ∧
      b'.capmt = front ++ lengthBytes (info ++ more b.first (group es).1).length ++ info ++
        tail b.first es ++ rest.drop (tail b.first es).length := by
  induction es with
  | nil =>
    intro b front info rest h _
    refine ⟨_, setLength_holds h, ?_, ?_⟩
    · cases b.first <;> rfl
    · cases b.first <;> simp [tail, more, group, infoBytes]
  | cons e es ih =>
    intro b front info rest h hrest
    cases e with
    | descriptor d =>
      rw [tail_descriptor, List.length_append] at hrest
      obtain ⟨mid, hmid, hfirst, hholds⟩ := addDescriptor_holds h d (by omega)
      obtain ⟨b', hrun, hwp, hcapmt⟩ := ih hholds (by rw [hfirst, List.length_drop]; omega)
      have hmidwp := hholds.wp
      have hwp0 := h.wp
      rw [hfirst] at hwp hcapmt
      refine ⟨b', ?_, ?_, ?_⟩
      · rw [run_cons, Builder.add, hmid, Option.bind_some, hrun]
      · rw [tail_descriptor, List.length_append]
        rw [List.length_append] at hmidwp
        omega
      · have hmore := more_cons b.first d (group es).1
        simp only [hcapmt, tail_descriptor, group, hmore, List.drop_drop, List.append_assoc,
          List.length_append]
    | stream streamType pid =>
      have hlen : (tail b.first (.stream streamType pid :: es)).length =
          5 + (tail true es).length := by
        simp only [tail_stream, List.length_append, List.length_cons, List.length_nil,
          lengthBytes_length]
      rw [hlen] at hrest
      obtain ⟨mid, hmid, hfirst, hholds⟩ := addStream_holds h (by omega) streamType pid
      obtain ⟨b', hrun, hwp, hcapmt⟩ := ih hholds (by rw [hfirst, List.length_drop]; omega)
      have hmidwp := hholds.wp
      have hwp0 := h.wp
      rw [hfirst] at hwp hcapmt
      refine ⟨b', ?_, ?_, ?_⟩
      · rw [run_cons, Builder.add, hmid, Option.bind_some, hrun]
      · rw [hlen]
        simp only [List.length_append, List.length_cons, List.length_nil,
          lengthBytes_length] at hmidwp
        omega
      · rw [hlen]
        simp only [hcapmt, tail_stream, group, more_nil, List.drop_drop, List.append_assoc,
          List.append_nil, List.nil_append]

/-- Nothing of the object is behind the buffer, but for the place of a length. -/
def Within (b : Builder) : Prop := b.wp ≤ b.capmt.length ∨ b.lenpos + 2 = b.wp

theorem setLength_within (h : b.setLength = some b') (hb : Within b) :
    b.wp ≤ b.capmt.length ∧ b'.wp = b.wp ∧ b'.capmt.length = b.capmt.length := by
  obtain ⟨c₁, hc₁, hrest⟩ := Option.bind_eq_some_iff.mp h
  obtain ⟨c₂, hc₂, hend⟩ := Option.bind_eq_some_iff.mp hrest
  have hlen₁ := ((region_write _ (Nat.le_refl b.lenpos) (Nat.lt_succ_self _)).keeps hc₁).1
  have hlen₂ := ((region_write _ (Nat.le_refl (b.lenpos + 1)) (Nat.lt_succ_self _)).keeps hc₂).1
  have hin : b.lenpos + 1 < c₁.length := by
    by_contra hout
    rw [write, if_neg hout] at hc₂
    cases hc₂
  cases hend
  refine ⟨?_, rfl, hlen₂.trans hlen₁⟩
  rcases hb with hb | hb
  · exact hb
  · omega

/-- An entry that is written ends in the buffer. -/
theorem add_within {e : Entry} (h : b.add e = some b') (hb : Within b) :
    Within b' ∧ b'.capmt.length = b.capmt.length ∧ ∀ es,
      b'.wp + (tail b'.first es).length = b.wp + (tail b.first (e :: es)).length := by
  cases e with
  | descriptor d =>
    rw [Builder.add, addDescriptor_eq] at h
    obtain ⟨capmt, hcapmt, rfl⟩ := Option.map_eq_some_iff.mp h
    have hne : more b.first [d] ≠ [] := by
      rw [more_one]
      simp [Descriptor.writeToBuffer]
    obtain ⟨hlen, hfit⟩ := writeAll_keeps hcapmt hne
    refine ⟨.inl (by simp only; omega), hlen, fun es => ?_⟩
    rw [tail_descriptor, List.length_append]
    simp only
    omega
  | stream streamType pid =>
    obtain ⟨mid, hmid, hrest⟩ := Option.bind_eq_some_iff.mp h
    obtain ⟨-, hwp, hlen⟩ := setLength_within hmid hb
    obtain ⟨capmt, hcapmt, hend⟩ := Option.bind_eq_some_iff.mp hrest
    have hlen' := (writeAll_keeps hcapmt (by simp)).1
    cases hend
    refine ⟨.inr rfl, hlen'.trans hlen, fun es => ?_⟩
    simp only [tail_stream, List.length_append, List.length_cons, List.length_nil,
      lengthBytes_length]
    omega

/-- A run has a result if and only if all that it adds fits the buffer. -/
theorem run_isSome (es : List Entry) : ∀ {b : Builder} {front info rest : Str},
    Holds b front info rest →
    ((b.run es).isSome = true ↔ b.wp + (tail b.first es).length ≤ b.capmt.length) := by
  intro b front info rest h
  have hlen : b.capmt.length = b.wp + rest.length := by
    obtain ⟨x, y, hcapmt⟩ := h.capmt
    rw [hcapmt, h.wp]
    simp only [List.length_append, List.length_cons]
    omega
  have hwithin : ∀ (es : List Entry) {b b' : Builder}, b.run es = some b' → Within b →
      b.wp + (tail b.first es).length ≤ b.capmt.length := by
    intro es
    induction es with
    | nil =>
      intro b b' hrun hb
      have hfit := (setLength_within hrun hb).1
      simp only [tail, group, more_nil, List.flatMap_nil, List.append_nil, List.length_nil]
      omega
    | cons e es ih =>
      intro b b' hrun hb
      rw [run_cons] at hrun
      obtain ⟨mid, hmid, hrest⟩ := Option.bind_eq_some_iff.mp hrun
      obtain ⟨hb', hcapmt, hsize⟩ := add_within hmid hb
      have := ih hrest hb'
      rw [← hsize, ← hcapmt]
      exact this
  constructor
  · intro hsome
    obtain ⟨b', hrun⟩ := Option.isSome_iff_exists.mp hsome
    exact hwithin es hrun (.inl (by omega))
  · intro hfit
    obtain ⟨b', hrun, -⟩ := run_writes es h (by omega)
    rw [hrun]
    rfl

end Builder

/-! ## The grammar -/

theorem low_byte (n : Nat) : (n &&& 0xff).toUInt8 = n.toUInt8 := by
  rw [show (0xff : Nat) = 2 ^ 8 - 1 by decide, Nat.and_two_pow_sub_one_eq_mod]
  apply UInt8.toNat_inj.mp
  simp

theorem lengthBytes_eq {n : Nat} (h : n < 2 ^ 12) :
    lengthBytes n = [(n >>> 8).toUInt8, n.toUInt8] := by
  have hhigh : (n &&& 0xf00) >>> 8 = n >>> 8 := by
    have hmask : (0xf00 : Nat) >>> 8 = 2 ^ 4 - 1 := by decide
    have hlt : n >>> 8 < 2 ^ 4 := by
      rw [Nat.shiftRight_eq_div_pow]
      omega
    rw [Nat.shiftRight_and_distrib, hmask, Nat.and_two_pow_sub_one_eq_mod, Nat.mod_eq_of_lt hlt]
  rw [lengthBytes, hhigh, low_byte]

/-- A message is read back behind its length field, whatever the byte of the version. -/
theorem decodeBody_entries {m : Dvbsi.Message} (h : m.Fits) (hcmd : m.cmdId = 0x01)
    (version : Byte) :
    decodeBody (m.listManagement :: (m.programNumber.toNat >>> 8).toUInt8 ::
      m.programNumber.toNat.toUInt8 :: version :: (lengthBytes (infoLength m.descriptors) ++
        (infoBytes 0x01 m.descriptors ++ m.streams.flatMap streamBytes))) =
      some { m.caPmt with
        versionNumber := version.toNat >>> 1 &&& 0x1F
        currentNextIndicator := version.toNat &&& 0x01 } := by
  have hstreams : m.streams.flatMap streamBytes =
      (m.streams.map (Stream.info 0x01)).flatMap CaElementaryStreamInfo.writeToBuffer := by
    rw [List.flatMap_map]
    apply List.flatMap_congr
    intro s hs
    rw [stream_writeToBuffer s (h.streams s hs), streamBytes, lengthBytes_eq (h.streams s hs)]
    rfl
  have hbody := decodeBody_body h
  rw [hstreams, lengthBytes_eq h.program]
  simp only [Dvbsi.Message.body, hcmd, List.cons_append, List.nil_append] at hbody ⊢
  simp only [decodeBody, decodeInfo_write h.program] at hbody ⊢
  obtain ⟨es, hes, hpmt⟩ := Option.map_eq_some_iff.mp hbody
  rw [hes, Option.map_some, ← hpmt]

theorem decodeLength_ber {field rest : Str} {n : Nat} (h : BerLength field n) :
    decodeLength (field ++ rest) = some (n, rest) := by
  cases h with
  | short hn =>
    have hbyte : (UInt8.ofNat n).toNat = n := by
      rw [UInt8.toNat_ofNat']
      omega
    simp only [List.singleton_append, decodeLength, hbyte, hn, if_true]
  | @long bs hpos hlen =>
    have hbyte : (UInt8.ofNat (128 + bs.length)).toNat = 128 + bs.length := by
      rw [UInt8.toNat_ofNat']
      omega
    simp only [List.cons_append, decodeLength, hbyte]
    rw [if_neg (by omega), if_neg (by simp), Nat.add_sub_cancel_left, List.take_left,
      List.drop_left]
    rfl

theorem decodeCaPmt_ber {field body : Str} (h : BerLength field body.length) :
    decodeCaPmt (0x9f :: 0x80 :: 0x32 :: (field ++ body)) = decodeBody body := by
  simp only [decodeCaPmt, decodeLength_ber h, ne_eq, not_true, if_false, if_true]

theorem streamBytes_length (s : Stream) :
    (streamBytes s).length = 5 + infoLength s.descriptors := by
  simp only [streamBytes, List.length_append, lengthBytes_length, infoBytes_length,
    List.length_cons, List.length_nil]

theorem flatMap_streamBytes_length (ss : List Stream) :
    (ss.flatMap streamBytes).length = (ss.map fun s => 5 + infoLength s.descriptors).sum := by
  rw [List.length_flatMap]
  congr 1
  exact List.map_congr_left fun s _ => streamBytes_length s

/-! ## The objects for a module -/

inductive TempPmt where
  | version (v : Byte)
  | pid (streamtype : Byte) (pid : BitVec 13)
  | descriptor (d : Descriptor)

/-- The services by their program numbers, and the versions last sent. -/
structure CI where
  services : OrdMap Nat (List TempPmt)
  versions : OrdMap Nat Byte

/-- `front().version`, which is only set in an entry of that type. -/
def front : List TempPmt → Option Byte
  | .version v :: _ => some v
  | _ => none

def PMTsetVersion (ci : CI) (sid : Nat) (version : Byte) : CI :=
  { ci with services := ci.services.set sid [.version version] }

def pushBack (ci : CI) (sid : Nat) (entry : TempPmt) : CI :=
  { ci with services := ci.services.set sid (((ci.services.find sid).getD []) ++ [entry]) }

def PMTaddPID (ci : CI) (sid : Nat) (pid : BitVec 13) (streamtype : Byte) : CI :=
  pushBack ci sid (.pid streamtype pid)

def PMTaddDescriptor (ci : CI) (sid : Nat) (d : Descriptor) : CI := pushBack ci sid (.descriptor d)

/-- The list management, if the service is sent. -/
def listManagement (versions : OrdMap Nat Byte) (sid : Nat) (version : Byte) : Option Byte :=
  if versions.size = 0 then some 0x03
  else
    match versions.find sid with
    | some last => if version ≠ last then some 0x05 else none
    | none => some 0x04

/-- A descriptor is taken if the module has its system. -/
def addTemp (caids : List Nat) (b : Builder) : TempPmt → Option Builder
  | .version _ => some b
  | .pid streamtype pid => b.addStream streamtype pid
  | .descriptor d => if d.caSystemId ∈ caids then b.addDescriptor d else some b

def serviceObject (caids : List Nat) (capmt : Str) (sid : Nat) (management version : Byte)
    (entries : List TempPmt) : Option Builder := do
  let capmt ← writeAll capmt 9
    [management, (sid >>> 8).toUInt8, sid.toUInt8, version, 0x00, 0x00]
  let b ← entries.foldlM (addTemp caids) ⟨capmt, 15, 13, 0, true⟩
  b.setLength

/-- One service: the buffer, the versions and what was sent to the sessions of the module. -/
def sendService (caids : List Nat) (sessions : List Byte) (state : Str × OrdMap Nat Byte × List Str)
    (service : Nat × List TempPmt) : Option (Str × OrdMap Nat Byte × List Str) := do
  let (capmt, versions, out) := state
  let capmt ← write capmt 7 0x81
  let version ← front service.2
  match listManagement versions service.1 version with
  | none => some (capmt, versions, out)
  | some management =>
    let b ← serviceObject caids capmt service.1 management version service.2
    some (b.capmt, versions.set service.1 version, out ++ sessions.map fun session =>
      sessionObject (b.capmt.drop 4) ((b.capmt.drop 9).take (b.wp - 9)) session)

/-- `capmt` is the buffer of 2048 bytes. -/
def newService (caids : List Nat) (sessions : List Byte) (ci : CI) (capmt : Str) :
    Option (CI × List Str) := do
  let capmt ← writeAll capmt 0 [0x90, 0x02, 0x00, 0x03, 0x9f, 0x80, 0x32]
  let (_, versions, out) ← ci.services.entries.foldlM (sendService caids sessions)
    (capmt, ci.versions, [])
  some ({ ci with versions }, out)

/-! ## What a module is told -/

/-- The entries that are not passed over. -/
def taken (caids : List Nat) (l : List TempPmt) : List Entry :=
  l.filterMap fun
    | .version _ => none
    | .pid streamtype pid => some (.stream streamtype pid)
    | .descriptor d => if d.caSystemId ∈ caids then some (.descriptor d) else none

theorem foldlM_addTemp (caids : List Nat) (l : List TempPmt) : ∀ b : Builder,
    l.foldlM (addTemp caids) b = (taken caids l).foldlM Builder.add b := by
  induction l with
  | nil => exact fun _ => rfl
  | cons e l ih =>
    intro b
    cases e with
    | version v => exact ih b
    | pid streamtype pid =>
      simp only [taken, List.filterMap_cons, List.foldlM_cons, addTemp, Builder.add]
      congr 1
      funext b
      exact ih b
    | descriptor d =>
      by_cases hd : d.caSystemId ∈ caids
      · simp only [taken, List.filterMap_cons, List.foldlM_cons, addTemp, if_pos hd, Builder.add]
        congr 1
        funext b
        exact ih b
      · simp only [taken, List.filterMap_cons, List.foldlM_cons, addTemp, if_neg hd]
        exact ih b

/-- The bytes of the buffer that a service needs. -/
def serviceSize (caids : List Nat) (l : List TempPmt) : Nat :=
  15 + infoLength (group (taken caids l)).1 +
    ((group (taken caids l)).2.map fun s => 5 + infoLength s.descriptors).sum

def serviceMessage (caids : List Nat) (sid : Nat) (management : Byte) (l : List TempPmt) :
    Dvbsi.Message where
  listManagement := management
  programNumber := .ofNat 16 sid
  versionNumber := 0
  currentNextIndicator := 0
  cmdId := 0x01
  caids := caids
  descriptors := (group (taken caids l)).1
  streams := (group (taken caids l)).2

/-- The object of a service. -/
def told (caids : List Nat) (sid : Nat) (management version : Byte) (l : List TempPmt) : CaPmt :=
  { (serviceMessage caids sid management l).caPmt with
    versionNumber := version.toNat >>> 1 &&& 0x1F
    currentNextIndicator := version.toNat &&& 0x01 }

/-- Its bytes. -/
def serviceBody (caids : List Nat) (sid : Nat) (management version : Byte) (l : List TempPmt) :
    Str :=
  management :: (sid >>> 8).toUInt8 :: sid.toUInt8 :: version ::
    (lengthBytes (infoLength (group (taken caids l)).1) ++
      (infoBytes 0x01 (group (taken caids l)).1 ++
        (group (taken caids l)).2.flatMap streamBytes))

theorem serviceBody_length (caids : List Nat) (sid : Nat) (management version : Byte)
    (l : List TempPmt) :
    (serviceBody caids sid management version l).length + 9 = serviceSize caids l := by
  simp only [serviceBody, List.length_cons, List.length_append, lengthBytes_length,
    infoBytes_length, flatMap_streamBytes_length, serviceSize]
  omega

theorem tail_taken_length (caids : List Nat) (l : List TempPmt) :
    15 + (tail true (taken caids l)).length = serviceSize caids l := by
  rw [tail, List.length_append, flatMap_streamBytes_length, more_true, infoBytes_length,
    serviceSize, Nat.add_assoc]

theorem decodeBody_service {caids : List Nat} {sid : Nat} (hsid : sid < 65536)
    (management version : Byte) {l : List TempPmt} (h : serviceSize caids l ≤ 2048) :
    decodeBody (serviceBody caids sid management version l) =
      some (told caids sid management version l) := by
  have hfits : (serviceMessage caids sid management l).Fits := by
    simp only [serviceSize] at h
    refine ⟨?_, fun s hs => ?_, ?_⟩
    · simp only [serviceMessage]
      omega
    · have hle := List.le_sum_of_mem
        (List.mem_map_of_mem (f := fun s : Stream => 5 + infoLength s.descriptors) hs)
      simp only [serviceMessage] at hle
      omega
    · simp only [Dvbsi.Message.length, serviceMessage]
      have hcomm : (group (taken caids l)).2.map (fun s => infoLength s.descriptors + 5) =
          (group (taken caids l)).2.map fun s => 5 + infoLength s.descriptors :=
        List.map_congr_left fun s _ => Nat.add_comm _ _
      rw [hcomm]
      omega
  have hdecode := decodeBody_entries hfits rfl version
  have hnumber : (BitVec.ofNat 16 sid).toNat = sid := by
    rw [BitVec.toNat_ofNat, Nat.mod_eq_of_lt hsid]
  simp only [serviceMessage, hnumber] at hdecode
  rw [serviceBody, hdecode, told, serviceMessage]

/-- The object is written behind what is in front of it. -/
theorem serviceObject_spec {capmt : Str} (hcapmt : capmt.length = 2048) (caids : List Nat)
    (sid : Nat) (management version : Byte) (l : List TempPmt) :
    ((serviceObject caids capmt sid management version l).isSome = true ↔
        serviceSize caids l ≤ 2048) ∧
      ∀ b, serviceObject caids capmt sid management version l = some b →
        b.wp = serviceSize caids l ∧ ∃ behind, serviceSize caids l + behind.length = 2048 ∧
          b.capmt = capmt.take 9 ++ (serviceBody caids sid management version l ++ behind) := by
  have hfront : (capmt.take 9).length = 9 := by
    rw [List.length_take, hcapmt]
    rfl
  have hwrite : writeAll capmt 9 [management, (sid >>> 8).toUInt8, sid.toUInt8, version, 0, 0] =
      some (capmt.take 9 ++ [management, (sid >>> 8).toUInt8, sid.toUInt8, version, 0, 0] ++
        capmt.drop 15) := by
    have h := @writeAll_at (capmt.take 9) (capmt.drop 9)
      [management, (sid >>> 8).toUInt8, sid.toUInt8, version, 0, 0] 9 hfront.symm
      (by rw [List.length_drop, hcapmt]; simp)
    rw [List.take_append_drop, List.drop_drop] at h
    exact h
  have hholds : Holds ⟨capmt.take 9 ++
      [management, (sid >>> 8).toUInt8, sid.toUInt8, version, 0, 0] ++ capmt.drop 15,
        15, 13, 0, true⟩
      (capmt.take 9 ++ [management, (sid >>> 8).toUInt8, sid.toUInt8, version]) []
        (capmt.drop 15) := by
    refine ⟨⟨0, 0, by simp⟩, ?_, ?_, rfl⟩
    · rw [List.length_append, hfront]
      rfl
    · rw [List.length_append, hfront]
      rfl
  have hlen : (capmt.take 9 ++ [management, (sid >>> 8).toUInt8, sid.toUInt8, version, 0, 0] ++
      capmt.drop 15).length = 2048 := by
    rw [List.length_append, List.length_append, hfront, List.length_drop, hcapmt]
    rfl
  have hrun : serviceObject caids capmt sid management version l =
      Builder.run ⟨capmt.take 9 ++ [management, (sid >>> 8).toUInt8, sid.toUInt8, version, 0, 0] ++
        capmt.drop 15, 15, 13, 0, true⟩ (taken caids l) := by
    rw [serviceObject, hwrite, Option.bind_eq_bind, Option.bind_some, foldlM_addTemp]
    rfl
  have hsize := tail_taken_length caids l
  have hsome := run_isSome (taken caids l) hholds
  simp only [hlen, hsize] at hsome
  rw [hrun]
  refine ⟨hsome, fun b hb => ?_⟩
  have hfit := hsome.mp (by rw [hb]; rfl)
  have hdrop : (capmt.drop 15).length = 2033 := by
    rw [List.length_drop, hcapmt]
  have hbehind := List.length_drop (l := capmt.drop 15) (i := (tail true (taken caids l)).length)
  obtain ⟨b', hb', hwp, hcapmt'⟩ := run_writes (taken caids l) hholds (by simp only; omega)
  obtain rfl := Option.some_inj.mp (hb'.symm.trans hb)
  simp only at hcapmt'
  generalize (capmt.drop 15).drop (tail true (taken caids l)).length = behind at hcapmt' hbehind
  refine ⟨hwp.trans hsize, behind, by omega, ?_⟩
  rw [hcapmt', tail]
  simp only [more_true, infoBytes_length, List.nil_append, List.append_nil, List.append_assoc,
    List.cons_append, serviceBody]

/-- The list management of a service, `last` being the version sent before; `alone`
if none was sent of any service. -/
def management (alone : Bool) (last : Option Byte) (version : Byte) : Option Byte :=
  if alone then some 0x03
  else
    match last with
    | some last => if version ≠ last then some 0x05 else none
    | none => some 0x04

/-- The objects of the services that are new or changed. -/
def objects (caids : List Nat) (versions : OrdMap Nat Byte) :
    Bool → List (Nat × List TempPmt) → List CaPmt
  | _, [] => []
  | alone, s :: ss =>
    match (front s.2).bind fun version =>
      (management alone (versions.find s.1) version).map (·, version) with
    | none => objects caids versions alone ss
    | some (m, version) => told caids s.1 m version s.2 :: objects caids versions false ss

/-- The session, and what the module reads. -/
def received (sessionObject : Str) : Str × Option CaPmt :=
  (sessionObject.take 4, decodeCaPmt (sessionObject.drop 4))

/-- The buffer still has the tag. -/
structure Tagged (capmt : Str) : Prop where
  length : capmt.length = 2048
  tag : (capmt.drop 4).take 3 = [0x9f, 0x80, 0x32]

theorem received_object {tag data : Str} {c : CaPmt} (htag : tag.take 3 = [0x9f, 0x80, 0x32])
    (hdata : data.length < 65536) (hc : decodeBody data = some c) (session : Byte) :
    received (sessionObject tag data session) = ([0x90, 0x02, 0x00, session], some c) := by
  obtain ⟨field, hfield, hobject⟩ := sessionObject_valid tag session hdata
  rw [hobject, htag, received]
  simp only [List.cons_append, List.nil_append, List.take_succ_cons, List.take_zero,
    List.drop_succ_cons, List.drop_zero, decodeCaPmt_ber hfield, hc]

theorem find_of_size_eq_zero {versions : OrdMap Nat Byte} (h : versions.size = 0) (sid : Nat) :
    versions.find sid = none := by
  rw [OrdMap.find, List.eq_nil_of_length_eq_zero h]
  rfl

theorem listManagement_eq (versions : OrdMap Nat Byte) (sid : Nat) (version : Byte) :
    listManagement versions sid version =
      management (decide (versions.size = 0)) (versions.find sid) version := by
  unfold listManagement management
  by_cases h : versions.size = 0
  · rw [if_pos h, if_pos (by simpa using h)]
  · rw [if_neg h, if_neg (by simpa using h)]

/-- A service is passed over if its version is the one last sent. -/
theorem listManagement_eq_none {versions : OrdMap Nat Byte} {sid : Nat} {version : Byte} :
    listManagement versions sid version = none ↔ versions.find sid = some version := by
  unfold listManagement
  by_cases h : versions.size = 0
  · simp [h, find_of_size_eq_zero h]
  · rw [if_neg h]
    cases hlast : versions.find sid with
    | none => simp
    | some last =>
      by_cases hv : version = last
      · simp [hv]
      · simp [hv, Ne.symm hv]

theorem objects_congr {caids : List Nat} {versions versions' : OrdMap Nat Byte}
    {ss : List (Nat × List TempPmt)} (h : ∀ s ∈ ss, versions'.find s.1 = versions.find s.1) :
    ∀ alone, objects caids versions' alone ss = objects caids versions alone ss := by
  induction ss with
  | nil => exact fun _ => rfl
  | cons s ss ih =>
    intro alone
    have hrest := ih fun s' hs' => h s' (List.mem_cons_of_mem s hs')
    simp only [objects, h s List.mem_cons_self, hrest]

theorem write_tagged {capmt capmt' : Str} {b : Byte} (h : Tagged capmt)
    (hwrite : write capmt 7 b = some capmt') : Tagged capmt' := by
  obtain ⟨hlen, htake, -⟩ := (region_write b (Nat.le_refl 7) (Nat.lt_succ_self 7)).keeps hwrite
  refine ⟨hlen.trans h.length, ?_⟩
  rw [← h.tag, List.take_drop, List.take_drop, htake]

/-- What happens to one service. -/
theorem sendService_spec (caids : List Nat) (sessions : List Byte) {capmt : Str}
    {versions : OrdMap Nat Byte} (out : List Str) {s : Nat × List TempPmt} {version : Byte}
    (hcapmt : Tagged capmt) (hs : s.1 < 65536) (hversion : front s.2 = some version) :
    (listManagement versions s.1 version = none → ∃ capmt', Tagged capmt' ∧
      sendService caids sessions (capmt, versions, out) s = some (capmt', versions, out)) ∧
    ∀ m, listManagement versions s.1 version = some m →
      ((sendService caids sessions (capmt, versions, out) s).isSome = true ↔
        serviceSize caids s.2 ≤ 2048) ∧
      ∀ r, sendService caids sessions (capmt, versions, out) s = some r → ∃ capmt' new,
        Tagged capmt' ∧ r = (capmt', versions.set s.1 version, out ++ new) ∧
        new.map received = sessions.map fun session =>
          ([0x90, 0x02, 0x00, session], some (told caids s.1 m version s.2)) := by
  have hwrite : write capmt 7 0x81 = some (capmt.set 7 0x81) := by
    apply if_pos
    rw [hcapmt.length]
    decide
  have htagged := write_tagged hcapmt hwrite
  generalize capmt.set 7 0x81 = capmt₁ at hwrite htagged
  constructor
  · intro hnone
    refine ⟨capmt₁, htagged, ?_⟩
    simp only [sendService, hwrite, hversion, hnone, Option.bind_eq_bind, Option.bind_some]
  · intro m hm
    obtain ⟨hsome, hspec⟩ := serviceObject_spec htagged.length caids s.1 m version s.2
    have hsend : sendService caids sessions (capmt, versions, out) s =
        (serviceObject caids capmt₁ s.1 m version s.2).map fun b =>
          (b.capmt, versions.set s.1 version, out ++ sessions.map fun session =>
            sessionObject (b.capmt.drop 4) ((b.capmt.drop 9).take (b.wp - 9)) session) := by
      simp only [sendService, hwrite, hversion, hm, Option.bind_eq_bind, Option.bind_some]
      cases serviceObject caids capmt₁ s.1 m version s.2 <;> rfl
    rw [hsend, Option.isSome_map, hsome]
    refine ⟨Iff.rfl, fun r hr => ?_⟩
    obtain ⟨b, hb, rfl⟩ := Option.map_eq_some_iff.mp hr
    obtain ⟨hwp, behind, hbehind, hbuf⟩ := hspec b hb
    have hfit := hsome.mp (by rw [hb]; rfl)
    have hbody := serviceBody_length caids s.1 m version s.2
    have hfront : (capmt₁.take 9).length = 9 := by
      rw [List.length_take, htagged.length]
      rfl
    have hdata : (b.capmt.drop 9).take (b.wp - 9) = serviceBody caids s.1 m version s.2 := by
      rw [hbuf, List.drop_left' hfront, hwp, List.take_left' (by omega)]
    have htag : (b.capmt.drop 4).take 3 = [0x9f, 0x80, 0x32] := by
      rw [← htagged.tag, List.take_drop, List.take_drop, hbuf,
        List.take_append_of_le_length (by rw [hfront]; decide), List.take_take]
      rfl
    refine ⟨b.capmt, _, ⟨?_, htag⟩, rfl, ?_⟩
    · rw [hbuf, List.length_append, List.length_append, hfront]
      omega
    · rw [List.map_map]
      apply List.map_congr_left
      intro session _
      rw [hdata]
      exact received_object htag (by omega) (decodeBody_service hs m version hfit) session

theorem lookup_of_notMem {sid : Nat} {ss : List (Nat × List TempPmt)}
    (h : sid ∉ ss.map Prod.fst) : OrdMap.lookup sid ss = none := by
  induction ss with
  | nil => rfl
  | cons s ss ih =>
    rw [List.map_cons, List.mem_cons, not_or] at h
    rw [OrdMap.lookup, if_neg h.1, ih h.2]

theorem sendServices_spec (caids : List Nat) (sessions : List Byte)
    (ss : List (Nat × List TempPmt)) :
    ∀ {capmt : Str} {versions : OrdMap Nat Byte} {out : List Str},
    Tagged capmt → (ss.map Prod.fst).Nodup →
    (∀ s ∈ ss, s.1 < 65536 ∧ (front s.2).isSome = true) →
    ((ss.foldlM (sendService caids sessions) (capmt, versions, out)).isSome = true ↔
      ∀ s ∈ ss, versions.find s.1 ≠ front s.2 → serviceSize caids s.2 ≤ 2048) ∧
    ∀ r, ss.foldlM (sendService caids sessions) (capmt, versions, out) = some r →
      (∀ sid, r.2.1.find sid = ((OrdMap.lookup sid ss).bind front).or (versions.find sid)) ∧
      r.2.2.map received = out.map received ++
        (objects caids versions (decide (versions.size = 0)) ss).flatMap fun c =>
          sessions.map fun session => ([0x90, 0x02, 0x00, session], some c) := by
  induction ss with
  | nil =>
    intro capmt versions out _ _ _
    refine ⟨by simp, fun r hr => ?_⟩
    cases hr
    exact ⟨fun _ => rfl, by simp [objects]⟩
  | cons s ss ih =>
    intro capmt versions out hcapmt hkeys hss
    obtain ⟨hs, hfront⟩ := hss s List.mem_cons_self
    obtain ⟨version, hversion⟩ := Option.isSome_iff_exists.mp hfront
    obtain ⟨hnotMem, hkeys'⟩ := List.nodup_cons.mp hkeys
    have hss' := fun s' hs' => hss s' (List.mem_cons_of_mem s hs')
    obtain ⟨hpass, hsend⟩ := @sendService_spec caids sessions _ versions out s _ hcapmt hs
      hversion
    have hmanagement := listManagement_eq versions s.1 version
    rw [List.foldlM_cons]
    cases hm : listManagement versions s.1 version with
    | none =>
      have hsame := listManagement_eq_none.mp hm
      obtain ⟨capmt', htagged, hstep⟩ := hpass hm
      obtain ⟨hsome, hspec⟩ := @ih _ versions out htagged hkeys' hss'
      have hobjects : objects caids versions (decide (versions.size = 0)) (s :: ss) =
          objects caids versions (decide (versions.size = 0)) ss := by
        rw [objects, hversion, Option.bind_some, ← hmanagement, hm, Option.map_none]
      rw [hstep, Option.bind_eq_bind, Option.bind_some, hobjects]
      refine ⟨?_, fun r hr => ?_⟩
      · rw [hsome, List.forall_mem_cons]
        exact ⟨fun h => ⟨fun hne => absurd (hsame.trans hversion.symm) hne, h⟩, fun h => h.2⟩
      · obtain ⟨hfind, hout⟩ := hspec r hr
        refine ⟨fun sid => ?_, hout⟩
        rw [hfind, OrdMap.lookup]
        split
        · rename_i heq
          rw [heq, lookup_of_notMem hnotMem, Option.bind_none, Option.none_or, Option.bind_some,
            hversion, hsame, Option.some_or]
        · rfl
    | some m =>
      have hnew : versions.find s.1 ≠ front s.2 := by
        rw [hversion]
        intro heq
        rw [listManagement_eq_none.mpr heq] at hm
        cases hm
      obtain ⟨hsent, hresult⟩ := hsend m hm
      have hobjects : objects caids versions (decide (versions.size = 0)) (s :: ss) =
          told caids s.1 m version s.2 :: objects caids versions false ss := by
        rw [objects, hversion, Option.bind_some, ← hmanagement, hm, Option.map_some]
      rw [hobjects]
      cases hstep : sendService caids sessions (capmt, versions, out) s with
      | none =>
        rw [hstep] at hsent
        refine ⟨?_, fun r hr => by cases hr⟩
        rw [List.forall_mem_cons]
        exact ⟨(fun h => by cases h), fun h => hsent.mpr (h.1 hnew)⟩
      | some r₁ =>
        obtain ⟨capmt', new, htagged, rfl, hnewOut⟩ := hresult r₁ hstep
        rw [hstep] at hsent
        have hfit := hsent.mp rfl
        have hothers : ∀ s' ∈ ss, (versions.set s.1 version).find s'.1 = versions.find s'.1 := by
          intro s' hs'
          apply OrdMap.find_set_ne
          rintro heq
          exact hnotMem (heq ▸ List.mem_map_of_mem hs')
        have halone : decide ((versions.set s.1 version).size = 0) = false := by
          apply decide_eq_false
          intro hzero
          have hfind := find_of_size_eq_zero hzero s.1
          rw [OrdMap.find_set_self] at hfind
          cases hfind
        obtain ⟨hsome, hspec⟩ := @ih _ (versions.set s.1 version) (out ++ new) htagged
          hkeys' hss'
        rw [Option.bind_eq_bind, Option.bind_some]
        refine ⟨?_, fun r hr => ?_⟩
        · rw [hsome, List.forall_mem_cons]
          refine ⟨fun h => ⟨fun _ => hfit, fun s' hs' hne => h s' hs' (by rwa [hothers s' hs'])⟩,
            fun h s' hs' hne => h.2 s' hs' (by rwa [hothers s' hs'] at hne)⟩
        · obtain ⟨hfind, hout⟩ := hspec r hr
          rw [halone, objects_congr hothers] at hout
          refine ⟨fun sid => ?_, ?_⟩
          · rw [hfind, OrdMap.lookup]
            split
            · rename_i heq
              rw [heq, lookup_of_notMem hnotMem, Option.bind_none, Option.none_or,
                OrdMap.find_set_self, Option.bind_some, hversion, Option.some_or]
            · rename_i hne
              rw [OrdMap.find_set_ne _ _ hne]
          · rw [hout, List.map_append, hnewOut, List.flatMap_cons, List.append_assoc]

/-- Services whose version is known, under program numbers of 16 bits. -/
def CI.Known (ci : CI) : Prop := ∀ s ∈ ci.services.entries, s.1 < 65536 ∧ (front s.2).isSome = true

/-- All that is sent fits the 2048 bytes if and only if each new or changed service
does. Then the module reads these services, in the order of their program numbers, and
all versions are the ones last sent. -/
theorem newService_exact (caids : List Nat) (sessions : List Byte) {ci : CI} (h : ci.Known)
    {capmt : Str} (hcapmt : capmt.length = 2048) :
    ((newService caids sessions ci capmt).isSome = true ↔ ∀ s ∈ ci.services.entries,
        ci.versions.find s.1 ≠ front s.2 → serviceSize caids s.2 ≤ 2048) ∧
      ∀ ci' out, newService caids sessions ci capmt = some (ci', out) →
        ci'.services = ci.services ∧
        (∀ sid, ci'.versions.find sid =
          ((ci.services.find sid).bind front).or (ci.versions.find sid)) ∧
        out.map received =
          (objects caids ci.versions (decide (ci.versions.size = 0)) ci.services.entries).flatMap
            fun c => sessions.map fun session => ([0x90, 0x02, 0x00, session], some c) := by
  have hwrite : writeAll capmt 0 [0x90, 0x02, 0x00, 0x03, 0x9f, 0x80, 0x32] =
      some ([0x90, 0x02, 0x00, 0x03, 0x9f, 0x80, 0x32] ++ capmt.drop 7) := by
    exact @writeAll_at [] capmt [0x90, 0x02, 0x00, 0x03, 0x9f, 0x80, 0x32] 0 rfl
      (by rw [hcapmt]; decide)
  have htagged : Tagged (([0x90, 0x02, 0x00, 0x03, 0x9f, 0x80, 0x32] : Str) ++ capmt.drop 7) := by
    refine ⟨?_, rfl⟩
    rw [List.length_append, List.length_drop, hcapmt]
    rfl
  obtain ⟨hsome, hspec⟩ := @sendServices_spec caids sessions ci.services.entries _ ci.versions []
    htagged ci.services.keys_nodup h
  have hnew : newService caids sessions ci capmt =
      (ci.services.entries.foldlM (sendService caids sessions)
        (([0x90, 0x02, 0x00, 0x03, 0x9f, 0x80, 0x32] : Str) ++ capmt.drop 7, ci.versions, [])).map
          fun r => ({ ci with versions := r.2.1 }, r.2.2) := by
    rw [newService, hwrite, Option.bind_eq_bind, Option.bind_some]
    cases ci.services.entries.foldlM (sendService caids sessions)
      (([0x90, 0x02, 0x00, 0x03, 0x9f, 0x80, 0x32] : Str) ++ capmt.drop 7, ci.versions, []) <;> rfl
  rw [hnew, Option.isSome_map, hsome]
  refine ⟨Iff.rfl, fun ci' out hout => ?_⟩
  obtain ⟨r, hr, heq⟩ := Option.map_eq_some_iff.mp hout
  obtain ⟨rfl, rfl⟩ := Prod.mk.inj heq
  obtain ⟨hfind, hreceived⟩ := hspec r hr
  exact ⟨rfl, hfind, hreceived⟩

/-- A service with two streams and a new one of a service that was sent before. -/
def twoServices : CI where
  services := .ofList [
    (1, [.version 0xC1, .descriptor ⟨caDescriptorTag, [0x17, 0x02, 0xE0, 0x40], by decide⟩,
      .pid 2 0x101, .pid 4 0x102,
      .descriptor ⟨caDescriptorTag, [0x06, 0x04, 0xE0, 0x41], by decide⟩]),
    (2, [.version 0xC3, .pid 2 0x201])]
  versions := .ofList [(2, 0xC1)]

theorem two_services_exact :
    ((newService [0x1702] [1] twoServices (List.replicate 2048 0)).isSome = true ↔
        ∀ s ∈ twoServices.services.entries,
          twoServices.versions.find s.1 ≠ front s.2 → serviceSize [0x1702] s.2 ≤ 2048) ∧
      ∀ ci' out, newService [0x1702] [1] twoServices (List.replicate 2048 0) = some (ci', out) →
        ci'.services = twoServices.services ∧
        (∀ sid, ci'.versions.find sid =
          ((twoServices.services.find sid).bind front).or (twoServices.versions.find sid)) ∧
        out.map received = (objects [0x1702] twoServices.versions
          (decide (twoServices.versions.size = 0)) twoServices.services.entries).flatMap
            fun c => [1].map fun session => ([0x90, 0x02, 0x00, session], some c) :=
  newService_exact [0x1702] [1] (fun s hs => by
    rcases List.mem_cons.mp hs with rfl | hs
    · decide
    · rcases List.mem_cons.mp hs with rfl | hs
      · decide
      · cases hs) List.length_replicate

/-! ## From the program map to the module -/

structure PMTEntry where
  stream_type : Byte
  elementary_PID : BitVec 13
  ES_info : List Descriptor

/-- `version` is the byte of the section. -/
structure PMT where
  program_number : BitVec 16
  version : Byte
  pid : BitVec 13
  program_info : List Descriptor
  streams : List PMTEntry

def isCa (d : Descriptor) : Bool := d.descriptorTag = caDescriptorTag

/-- The descriptors that are copied from a stream. -/
def copied (pe : PMTEntry) : List Descriptor :=
  if pe.stream_type ∈ [1, 2, 3, 4, 6] then pe.ES_info.filter isCa else []

theorem group_append (ds : List Descriptor) (es : List Entry) :
    group (ds.map .descriptor ++ es) = (ds ++ (group es).1, (group es).2) := by
  induction ds with
  | nil => rfl
  | cons d ds ih => rw [List.map_cons, List.cons_append, group, ih, List.cons_append]

def addDescriptors (ci : CI) (sid : Nat) (ds : List Descriptor) : CI :=
  ds.foldl (fun ci d =>
    if d.descriptorTag = caDescriptorTag then PMTaddDescriptor ci sid d else ci) ci

/-- The messages of `eDVBServiceController::handlePMT`, but for the last. -/
def handlePMT (ci : CI) (pmt : PMT) : CI :=
  let sid := pmt.program_number.toNat
  let ci := addDescriptors (PMTsetVersion ci sid pmt.version) sid pmt.program_info
  pmt.streams.foldl (fun ci pe =>
    let ci := PMTaddPID ci sid pe.elementary_PID pe.stream_type
    if pe.stream_type ∈ [1, 2, 3, 4, 6] then addDescriptors ci sid pe.ES_info else ci) ci

/-- What the messages leave of a program map. -/
def temps (pmt : PMT) : List TempPmt :=
  .version pmt.version :: ((pmt.program_info.filter isCa).map .descriptor ++
    pmt.streams.flatMap fun pe =>
      .pid pe.stream_type pe.elementary_PID :: (copied pe).map .descriptor)

def CI.put (ci : CI) (sid : Nat) (l : List TempPmt) : CI :=
  { ci with services := ci.services.set sid l }

theorem pushBack_put (ci : CI) (sid : Nat) (l : List TempPmt) (e : TempPmt) :
    pushBack (ci.put sid l) sid e = ci.put sid (l ++ [e]) := by
  simp only [pushBack, CI.put, OrdMap.find_set_self, Option.getD_some, OrdMap.set_set]

theorem addDescriptors_put (ci : CI) (sid : Nat) (ds : List Descriptor) : ∀ l : List TempPmt,
    addDescriptors (ci.put sid l) sid ds = ci.put sid (l ++ (ds.filter isCa).map .descriptor) := by
  induction ds with
  | nil =>
    intro l
    rw [List.filter_nil, List.map_nil, List.append_nil]
    rfl
  | cons d ds ih =>
    intro l
    rw [addDescriptors, List.foldl_cons, ← addDescriptors]
    by_cases hd : d.descriptorTag = caDescriptorTag
    · rw [if_pos hd, PMTaddDescriptor, pushBack_put, ih,
        List.filter_cons_of_pos (by simpa [isCa] using hd), List.map_cons, List.append_assoc]
      rfl
    · rw [if_neg hd, ih, List.filter_cons_of_neg (by simpa [isCa] using hd)]

theorem handlePMT_put (ci : CI) (pmt : PMT) :
    handlePMT ci pmt = ci.put pmt.program_number.toNat (temps pmt) := by
  have hstreams : ∀ (streams : List PMTEntry) (l : List TempPmt),
      streams.foldl (fun ci pe =>
        let ci := PMTaddPID ci pmt.program_number.toNat pe.elementary_PID pe.stream_type
        if pe.stream_type ∈ [1, 2, 3, 4, 6] then
          addDescriptors ci pmt.program_number.toNat pe.ES_info else ci)
        (ci.put pmt.program_number.toNat l) =
      ci.put pmt.program_number.toNat (l ++ streams.flatMap fun pe =>
        .pid pe.stream_type pe.elementary_PID :: (copied pe).map .descriptor) := by
    intro streams
    induction streams with
    | nil =>
      intro l
      rw [List.flatMap_nil, List.append_nil]
      rfl
    | cons pe streams ih =>
      intro l
      have hentry : (if pe.stream_type ∈ [1, 2, 3, 4, 6] then
          addDescriptors (ci.put pmt.program_number.toNat
            (l ++ [.pid pe.stream_type pe.elementary_PID])) pmt.program_number.toNat pe.ES_info
          else ci.put pmt.program_number.toNat (l ++ [.pid pe.stream_type pe.elementary_PID])) =
          ci.put pmt.program_number.toNat (l ++ (.pid pe.stream_type pe.elementary_PID ::
            (copied pe).map .descriptor)) := by
        by_cases hcopy : pe.stream_type ∈ [1, 2, 3, 4, 6]
        · rw [if_pos hcopy, addDescriptors_put, copied, if_pos hcopy, List.append_assoc]
          rfl
        · rw [if_neg hcopy, copied, if_neg hcopy]
          rfl
      simp only [List.foldl_cons, PMTaddPID, pushBack_put] at ih ⊢
      rw [hentry, ih, List.flatMap_cons, List.append_assoc]
  rw [handlePMT, show PMTsetVersion ci pmt.program_number.toNat pmt.version =
    ci.put pmt.program_number.toNat [.version pmt.version] from rfl, addDescriptors_put]
  simp only
  rw [hstreams, List.append_assoc]
  rfl

/-- The CA descriptors that a module understands. -/
def understood (caids : List Nat) (ds : List Descriptor) : List Descriptor :=
  ds.filter fun d => d.caSystemId ∈ caids

theorem taken_descriptors (caids : List Nat) (ds : List Descriptor) (l : List TempPmt) :
    taken caids (ds.map .descriptor ++ l) =
      (understood caids ds).map .descriptor ++ taken caids l := by
  induction ds with
  | nil => rfl
  | cons d ds ih =>
    by_cases hd : d.caSystemId ∈ caids
    · rw [understood, List.filter_cons_of_pos (by simpa using hd), ← understood, List.map_cons,
        List.map_cons, List.cons_append, List.cons_append, ← ih]
      simp only [taken, List.filterMap_cons, if_pos hd]
    · rw [understood, List.filter_cons_of_neg (by simpa using hd), ← understood, List.map_cons,
        List.cons_append, ← ih]
      simp only [taken, List.filterMap_cons, if_neg hd]

theorem group_temps (caids : List Nat) (pmt : PMT) : group (taken caids (temps pmt)) =
    (understood caids (pmt.program_info.filter isCa),
      pmt.streams.map fun pe => ⟨pe.stream_type, pe.elementary_PID,
        understood caids (copied pe)⟩) := by
  have hstreams : group (taken caids (pmt.streams.flatMap fun pe =>
      .pid pe.stream_type pe.elementary_PID :: (copied pe).map .descriptor)) =
      ([], pmt.streams.map fun pe => ⟨pe.stream_type, pe.elementary_PID,
        understood caids (copied pe)⟩) := by
    induction pmt.streams with
    | nil => rfl
    | cons pe streams ih =>
      rw [List.flatMap_cons, List.cons_append, taken, List.filterMap_cons, ← taken,
        taken_descriptors, group, group_append, ih, List.append_nil, List.map_cons]
  rw [temps, taken, List.filterMap_cons, ← taken, taken_descriptors, group_append, hstreams,
    List.append_nil]

/-- What a module is to know of a program map. -/
def understoodPmt (caids : List Nat) (management : Byte) (pmt : PMT) : CaPmt where
  listManagement := management
  programNumber := pmt.program_number.toNat
  versionNumber := pmt.version.toNat >>> 1 &&& 0x1F
  currentNextIndicator := pmt.version.toNat &&& 0x01
  info := infoOf 0x01 (understood caids (pmt.program_info.filter isCa))
  es := pmt.streams.map fun pe => ⟨pe.stream_type, pe.elementary_PID.toNat,
    infoOf 0x01 (understood caids (copied pe))⟩

theorem told_temps (caids : List Nat) (management : Byte) (pmt : PMT) :
    told caids pmt.program_number.toNat management pmt.version (temps pmt) =
      understoodPmt caids management pmt := by
  simp only [told, serviceMessage, group_temps, Dvbsi.Message.caPmt, understoodPmt,
    BitVec.toNat_ofNat, Nat.mod_eq_of_lt pmt.program_number.isLt, List.map_map]
  rfl

theorem mem_objects {caids : List Nat} {versions : OrdMap Nat Byte} {s : Nat × List TempPmt}
    {version : Byte} (hfront : front s.2 = some version)
    (hnew : versions.find s.1 ≠ some version) :
    ∀ {ss : List (Nat × List TempPmt)} {alone : Bool}, s ∈ ss →
      ∃ m ∈ [0x03, 0x04, 0x05], told caids s.1 m version s.2 ∈ objects caids versions alone ss := by
  intro ss
  induction ss with
  | nil =>
    intro alone hs
    cases hs
  | cons s' ss ih =>
    intro alone hs
    have hmanagement : ∃ m ∈ ([0x03, 0x04, 0x05] : List Byte),
        management alone (versions.find s.1) version = some m := by
      unfold management
      cases alone with
      | true => exact ⟨0x03, by simp, rfl⟩
      | false =>
        cases hlast : versions.find s.1 with
        | none => exact ⟨0x04, by simp, rfl⟩
        | some last =>
          have hne : version ≠ last := fun heq => hnew (heq ▸ hlast)
          exact ⟨0x05, by simp, by simp [hne]⟩
    rcases List.mem_cons.mp hs with rfl | hs
    · obtain ⟨m, hm, heq⟩ := hmanagement
      refine ⟨m, hm, ?_⟩
      rw [objects, hfront, Option.bind_some, heq, Option.map_some]
      exact List.mem_cons_self
    · rw [objects]
      split
      · exact ih hs
      · obtain ⟨m, hm, hmem⟩ := @ih false hs
        exact ⟨m, hm, List.mem_cons_of_mem _ hmem⟩

theorem CI.Known.handlePMT {ci : CI} (h : ci.Known) (pmt : PMT) : (handlePMT ci pmt).Known := by
  rw [handlePMT_put]
  intro s hs
  rcases OrdMap.mem_putEntry hs with rfl | hs
  · exact ⟨pmt.program_number.isLt, rfl⟩
  · exact h s hs

/-- A program map that is new to a module, or changed, reaches each of its sessions:
the program, its streams in order, and the CA descriptors of systems that it has. -/
theorem handlePMT_told (caids : List Nat) {sessions : List Byte} {ci ci' : CI} (h : ci.Known)
    {pmt : PMT} {capmt : Str} {out : List Str} (hcapmt : capmt.length = 2048)
    (hnew : ci.versions.find pmt.program_number.toNat ≠ some pmt.version)
    (hgo : newService caids sessions (handlePMT ci pmt) capmt = some (ci', out)) :
    ∃ m ∈ [0x03, 0x04, 0x05], ∀ session ∈ sessions,
      ([0x90, 0x02, 0x00, session], some (understoodPmt caids m pmt)) ∈ out.map received := by
  obtain ⟨-, hspec⟩ := newService_exact caids sessions (h.handlePMT pmt) hcapmt
  obtain ⟨-, -, hout⟩ := hspec ci' out hgo
  rw [handlePMT_put] at hout
  have hmem : (pmt.program_number.toNat, temps pmt) ∈
      (ci.services.set pmt.program_number.toNat (temps pmt)).entries := by
    rw [← OrdMap.find_eq_some]
    exact OrdMap.find_set_self _ _ _
  obtain ⟨m, hm, htold⟩ := @mem_objects caids ci.versions _ pmt.version rfl hnew _
    (decide (ci.versions.size = 0)) hmem
  refine ⟨m, hm, fun session hsession => ?_⟩
  rw [hout, List.mem_flatMap]
  refine ⟨_, htold, List.mem_map.mpr ⟨session, hsession, ?_⟩⟩
  rw [told_temps]

theorem empty_known : CI.Known ⟨.empty, .empty⟩ := fun s hs => by cases hs

/-- A program map of two streams, one of them scrambled by the system and by another. -/
def scrambled : PMT :=
  ⟨1, 0xC1, 0x100, [], [
    ⟨2, 0x101, [⟨caDescriptorTag, [0x17, 0x02, 0xE0, 0x40], by decide⟩,
      ⟨caDescriptorTag, [0x06, 0x04, 0xE0, 0x41], by decide⟩]⟩,
    ⟨4, 0x102, [⟨0x0A, [0x64, 0x65, 0x75, 0], by decide⟩]⟩]⟩

/-- The scrambled program, for a module that has its system and one session. -/
def scrambledGo : Option (CI × List Str) :=
  newService [0x1702] [1] (handlePMT ⟨.empty, .empty⟩ scrambled) (List.replicate 2048 0)

theorem scrambledGo_isSome : scrambledGo.isSome = true := by decide +kernel

theorem scrambledGo_eq : scrambledGo =
    some ((scrambledGo.get scrambledGo_isSome).1, (scrambledGo.get scrambledGo_isSome).2) := by
  rw [Prod.mk.eta, Option.some_get]

theorem scrambled_told : ∃ m ∈ [0x03, 0x04, 0x05], ∀ session ∈ [1],
    ([0x90, 0x02, 0x00, session], some (understoodPmt [0x1702] m scrambled)) ∈
      (scrambledGo.get scrambledGo_isSome).2.map received :=
  handlePMT_told [0x1702] empty_known List.length_replicate (by decide)
    scrambledGo_eq

end Tuxbox.Enigma.CaBuild
