import Tuxbox.Dvbsi.SectionBounds

/-!
# What the section constructors deliver

The bytes of a section that is put together from entries and descriptors, and the
lists that a constructor delivers from them.
-/

namespace Tuxbox.Dvbsi

open Parse

/-- Two bytes, the high one first. -/
def word (n : Nat) : Str := [(n / 256).toUInt8, (n % 256).toUInt8]

/-- The bytes of a list of descriptors. -/
def descriptorsBytes (ds : List Descriptor) : Str := ds.flatMap Descriptor.writeToBuffer

/-- The bytes of a stream, with its reserved bits set. -/
def streamBytes (e : ElementaryStreamInfo) : Str :=
  e.streamType :: word (0xe000 + e.elementaryPid.toNat) ++
    word (0xf000 + (descriptorsBytes e.descriptors).length) ++ descriptorsBytes e.descriptors

def eventBytes (e : Event) : Str :=
  word e.eventId ++ word e.startTimeMjd ++
    (e.startTimeBcd / 65536).toUInt8 :: word (e.startTimeBcd % 65536) ++
    (e.duration / 65536).toUInt8 :: word (e.duration % 65536) ++
    word (e.runningStatus.toNat * 8192 + e.freeCaMode.toNat * 4096 +
      (descriptorsBytes e.descriptors).length) ++ descriptorsBytes e.descriptors

def transportStreamBytes (t : TransportStreamInfo) : Str :=
  word t.transportStreamId ++ word t.originalNetworkId ++
    word (0xf000 + (descriptorsBytes t.descriptors).length) ++ descriptorsBytes t.descriptors

/-- The fields of an event have the widths of the standard. -/
structure Event.Encodable (e : Event) : Prop where
  eventId : e.eventId < 65536
  startTimeMjd : e.startTimeMjd < 65536
  startTimeBcd : e.startTimeBcd < 2 ^ 24
  duration : e.duration < 2 ^ 24
  runningStatus : e.runningStatus.toNat < 8
  freeCaMode : e.freeCaMode.toNat < 2
  length : e.descriptorsLoopLength = (descriptorsBytes e.descriptors).length

structure TransportStreamInfo.Encodable (t : TransportStreamInfo) : Prop where
  transportStreamId : t.transportStreamId < 65536
  originalNetworkId : t.originalNetworkId < 65536

/-- A section around its contents: the fields from the table id extension to the
last section number are `header`, the checksum is `crc`. -/
def sectionBytes (tableId : Byte) (header contents crc : Str) : Str :=
  tableId :: word (0xb000 + (header.length + contents.length + crc.length)) ++
    header ++ contents ++ crc

def pmtContents (pcrPid : BitVec 13) (ds : List Descriptor) (es : List ElementaryStreamInfo) : Str :=
  word (0xe000 + pcrPid.toNat) ++ word (0xf000 + (descriptorsBytes ds).length) ++
    descriptorsBytes ds ++ es.flatMap streamBytes

def eitContents (transportStreamId originalNetworkId : Nat) (segmentLast lastTable : Byte)
    (events : List Event) : Str :=
  word transportStreamId ++ word originalNetworkId ++ [segmentLast, lastTable] ++
    events.flatMap eventBytes

def nitContents (ds : List Descriptor) (ts : List TransportStreamInfo) : Str :=
  word (0xf000 + (descriptorsBytes ds).length) ++ descriptorsBytes ds ++
    word (0xf000 + (ts.flatMap transportStreamBytes).length) ++ ts.flatMap transportStreamBytes

section
variable {m : Memory} (valid : Descriptor → Bool)

def ElementaryStreamInfo.kept (e : ElementaryStreamInfo) : ElementaryStreamInfo :=
  { e with descriptors := e.descriptors.filter valid }

def Event.kept (e : Event) : Event := { e with descriptors := e.descriptors.filter valid }

def TransportStreamInfo.kept (t : TransportStreamInfo) : TransportStreamInfo :=
  { t with descriptors := t.descriptors.filter valid }

/-! ## Fields -/

theorem holds_word {p n : Nat} (h : Holds m p (word n)) (hn : n < 65536) :
    (m p).toNat * 256 + (m (p + 1)).toNat = n := by
  obtain ⟨h0, h1, -⟩ := h
  rw [h0, h1]
  simp only [UInt8.toNat_ofNat', Nat.toUInt8]
  omega

theorem pid_of_holds {p : Nat} {pid : BitVec 13} (h : Holds m p (word (0xe000 + pid.toNat))) :
    dvbPid p m = (.ok pid, p + 2) := by
  have := pid.isLt
  rw [dvbPid_apply, holds_word h (by omega)]
  refine Prod.ext (congrArg Outcome.ok (BitVec.eq_of_toNat_eq ?_)) rfl
  rw [BitVec.toNat_ofNat]
  omega

theorem lengthAt_word {p r n : Nat} (h : Holds m p (word (r * 4096 + n))) (hr : r < 16)
    (hn : n < 4096) : lengthAt m p = n := by
  rw [lengthAt, holds_word h (by omega)]
  omega

theorem descriptor_of_holds {d : Descriptor} {p : Nat} (h : Holds m p d.writeToBuffer) :
    descriptor p m = (.ok d, p + d.writeToBuffer.length) := by
  obtain ⟨tag, data, hlt⟩ := d
  obtain ⟨h0, h1, h2⟩ := h
  have hlen : (m (p + 1)).toNat = data.length := by
    rw [h1]
    simp only [Descriptor.getLength, Nat.toUInt8, UInt8.toNat_ofNat']
    omega
  have hslice : m.slice (p + 2) (m (p + 1)).toNat = data := by
    rw [hlen]
    exact Holds.slice h2
  refine Prod.ext (congrArg Outcome.ok ?_) ?_
  · rw [Descriptor.mk.injEq]
    exact ⟨h0, hslice⟩
  · show p + 2 + (m (p + 1)).toNat = p + (data.length + 1 + 1)
    omega

theorem descriptorLoop_of_holds {ds : List Descriptor} {p first : Nat}
    (h : Holds m (p + first) (descriptorsBytes ds)) :
    ∃ k, descriptorLoop valid p first (descriptorsBytes ds).length m =
      (.ok (ds.filter valid), k) := by
  have hbody : ∀ d ∈ ds, ∀ i, Holds m (p + i) d.writeToBuffer →
      ∃ k, descriptorEntry p i m = (.ok (d, i + d.writeToBuffer.length), k) := by
    intro d _ i hd
    have hdesc := descriptor_of_holds hd
    obtain ⟨-, h1, -⟩ := hd
    have hlen : (m (p + i + 1)).toNat + 2 = d.writeToBuffer.length := by
      have := d.length_lt
      rw [h1]
      simp only [Descriptor.getLength, Nat.toUInt8, UInt8.toNat_ofNat', Descriptor.writeToBuffer,
        List.length_cons]
      omega
    refine ⟨_, Prod.ext ?_ rfl⟩
    simp only [descriptorEntry, bind_apply, hdesc, read_apply, pure_apply, hlen]
  obtain ⟨k, hk⟩ := @loop_values _ _ _ _ _ id _ _ hbody
    (by simp [Descriptor.writeToBuffer]) _ _ h (Nat.lt_succ_self (descriptorsBytes ds).length)
  refine ⟨k, ?_⟩
  simp only [descriptorLoop, bind_apply, descriptorsBytes] at hk ⊢
  rw [hk]
  simp [pure_apply]

/-! ## Entries -/

theorem elementaryStreamInfo_of_holds {e : ElementaryStreamInfo} {p : Nat}
    (h : Holds m p (streamBytes e)) (hl : (descriptorsBytes e.descriptors).length < 4096) :
    ∃ k, elementaryStreamInfo valid p m = (.ok (e.kept valid), k) := by
  simp only [streamBytes, List.cons_append, List.append_assoc, Holds, holds_append] at h
  obtain ⟨h0, h1, h3, h5⟩ := h
  have hpid := pid_of_holds h1
  have hlen : lengthAt m (p + 3) = (descriptorsBytes e.descriptors).length :=
    lengthAt_word (r := 15) h3 (by omega) hl
  obtain ⟨k, hk⟩ := @descriptorLoop_of_holds _ valid _ p 5 h5
  refine ⟨_, Prod.ext ?_ rfl⟩
  simp only [elementaryStreamInfo, bind_apply, read_apply, hpid, dvbLength_apply, hlen, hk,
    pure_apply, h0]
  rfl

theorem r24_of_holds {p n : Nat} (h : Holds m p ((n / 65536).toUInt8 :: word (n % 65536)))
    (hn : n < 2 ^ 24) : r24 p m = (.ok n, p + 3) := by
  obtain ⟨h0, h1⟩ := h
  have hlow := holds_word h1 (Nat.mod_lt _ (by decide))
  have hhigh : (m p).toNat = n / 65536 := by
    rw [h0]
    simp only [Nat.toUInt8, UInt8.toNat_ofNat']
    omega
  have hsplit : n / 65536 * 2 ^ 16 + n % 65536 = n := Nat.div_add_mod' n 65536
  have hlt : n % 65536 < 2 ^ 16 := Nat.mod_lt _ (by decide)
  generalize n / 65536 = high at hhigh hsplit
  generalize n % 65536 = low at hlow hsplit hlt
  have hor : high <<< 16 ||| low = n := by
    rw [← Nat.shiftLeft_add_eq_or_of_lt hlt, Nat.shiftLeft_eq, hsplit]
  simp only [r24, bind_apply, read_apply, r16_apply, pure_apply, hlow, hhigh, hor, Prod.mk.injEq,
    true_and]
  omega

/-- Bits taken out of a byte. -/
theorem toNat_bits {b s mask : Byte} {j k : Nat} (hs : s.toNat = j) (hj : j < 8)
    (hm : mask.toNat = 2 ^ k - 1) : ((b >>> s) &&& mask).toNat = b.toNat / 2 ^ j % 2 ^ k := by
  rw [UInt8.toNat_and, UInt8.toNat_shiftRight, hm, Nat.and_two_pow_sub_one_eq_mod,
    Nat.shiftRight_eq_div_pow, hs, Nat.mod_eq_of_lt hj]

theorem eventLength_of_holds {e : Event} {p : Nat} (he : e.Encodable) (h : Holds m p (eventBytes e))
    (hl : (descriptorsBytes e.descriptors).length < 4096) :
    lengthAt m (p + 10) = (descriptorsBytes e.descriptors).length := by
  simp only [eventBytes, List.append_assoc, holds_append] at h
  obtain ⟨-, -, -, -, h10, -⟩ := h
  have hr := he.runningStatus
  have hf := he.freeCaMode
  have hword : e.runningStatus.toNat * 8192 + e.freeCaMode.toNat * 4096 =
      (e.runningStatus.toNat * 2 + e.freeCaMode.toNat) * 4096 := by omega
  rw [hword] at h10
  exact lengthAt_word h10 (by omega) hl

theorem event_of_holds {e : Event} {p : Nat} (he : e.Encodable) (h : Holds m p (eventBytes e))
    (hl : (descriptorsBytes e.descriptors).length < 4096) :
    ∃ k, event valid p m = (.ok (e.kept valid), k) := by
  have hlen := eventLength_of_holds he h hl
  simp only [eventBytes, List.append_assoc, holds_append] at h
  obtain ⟨h0, h2, h4, h7, h10, h12⟩ := h
  have hr := he.runningStatus
  have hf := he.freeCaMode
  have hb : (m (p + 10)).toNat = e.runningStatus.toNat * 32 + e.freeCaMode.toNat * 16 +
      (descriptorsBytes e.descriptors).length / 256 := by
    have h10 : m (p + 10) = _ := h10.1
    rw [h10]
    simp only [Nat.toUInt8, UInt8.toNat_ofNat']
    omega
  have hstatus : (m (p + 10) >>> 5) &&& 0x07 = e.runningStatus := by
    apply UInt8.toNat_inj.mp
    rw [toNat_bits (j := 5) (k := 3) rfl (by decide) rfl, hb]
    omega
  have hfree : (m (p + 10) >>> 4) &&& 0x01 = e.freeCaMode := by
    apply UInt8.toNat_inj.mp
    rw [toNat_bits (j := 4) (k := 1) rfl (by decide) rfl, hb]
    omega
  have hid := holds_word h0 he.eventId
  have hmjd : (m (p + 2)).toNat * 256 + (m (p + 2 + 1)).toNat = e.startTimeMjd :=
    holds_word h2 he.startTimeMjd
  have hstart : r24 (p + 4) m = (.ok e.startTimeBcd, p + 7) := r24_of_holds h4 he.startTimeBcd
  have hdur : r24 (p + 7) m = (.ok e.duration, p + 10) := r24_of_holds h7 he.duration
  obtain ⟨k, hk⟩ := @descriptorLoop_of_holds _ valid _ p 12 h12
  refine ⟨_, Prod.ext ?_ rfl⟩
  simp only [event, bind_apply, read_apply, r16_apply, dvbLength_apply, hlen, hk, pure_apply, hid,
    hmjd, hstart, hdur, hstatus, hfree]
  rw [Event.kept, ← he.length]

theorem transportStreamInfo_of_holds {t : TransportStreamInfo} {p : Nat} (ht : t.Encodable)
    (h : Holds m p (transportStreamBytes t)) (hl : (descriptorsBytes t.descriptors).length < 4096) :
    ∃ k, transportStreamInfo valid p m = (.ok (t.kept valid), k) := by
  simp only [transportStreamBytes, List.append_assoc, holds_append] at h
  obtain ⟨h0, h2, h4, h6⟩ := h
  have hlen : lengthAt m (p + 4) = (descriptorsBytes t.descriptors).length :=
    lengthAt_word (r := 15) h4 (by omega) hl
  obtain ⟨k, hk⟩ := @descriptorLoop_of_holds _ valid _ p 6 h6
  have htsid := holds_word h0 ht.transportStreamId
  have honid : (m (p + 2)).toNat * 256 + (m (p + 2 + 1)).toNat = t.originalNetworkId :=
    holds_word h2 ht.originalNetworkId
  refine ⟨_, Prod.ext ?_ rfl⟩
  simp only [transportStreamInfo, bind_apply, r16_apply, dvbLength_apply, hlen, hk, pure_apply, htsid,
    honid]
  rfl

/-! ## Sections -/

theorem streamBytes_length (e : ElementaryStreamInfo) :
    (streamBytes e).length = 5 + (descriptorsBytes e.descriptors).length := by
  simp [streamBytes, word]
  omega

theorem eventBytes_length (e : Event) :
    (eventBytes e).length = 12 + (descriptorsBytes e.descriptors).length := by
  simp [eventBytes, word]
  omega

theorem transportStreamBytes_length (t : TransportStreamInfo) :
    (transportStreamBytes t).length = 6 + (descriptorsBytes t.descriptors).length := by
  simp [transportStreamBytes, word]
  omega

/-- An entry is no longer than all of them. -/
theorem length_le_flatMap {α : Type} {enc : α → Str} {x : α} {xs : List α} (h : x ∈ xs) :
    (enc x).length ≤ (xs.flatMap enc).length := by
  obtain ⟨ys, zs, rfl⟩ := List.append_of_mem h
  simp only [List.flatMap_append, List.flatMap_cons, List.length_append]
  omega

theorem counted_info_of_holds {ds : List Descriptor} {pos left : Nat}
    (h : Holds m pos (descriptorsBytes ds)) (hleft : (descriptorsBytes ds).length ≤ left) :
    ∃ k, counted 1 descriptorLoopLength descriptor ((descriptorsBytes ds).length + 1) pos left
        (descriptorsBytes ds).length m =
      (.ok (ds, ⟨pos + (descriptorsBytes ds).length, left - (descriptorsBytes ds).length, 0⟩),
        k) := by
  have hlen : ∀ d ∈ ds, ∀ p, Holds m p d.writeToBuffer →
      ∃ k, descriptorLoopLength p m = (.ok d.writeToBuffer.length, k) := by
    intro d _ p hd
    obtain ⟨-, h1, -⟩ := hd
    have hl : 2 + (m (p + 1)).toNat = d.writeToBuffer.length := by
      have := d.length_lt
      rw [h1]
      simp only [Descriptor.getLength, Nat.toUInt8, UInt8.toNat_ofNat', Descriptor.writeToBuffer,
        List.length_cons]
      omega
    refine ⟨_, Prod.ext ?_ rfl⟩
    simp only [descriptorLoopLength, bind_apply, read_apply, pure_apply, hl]
  obtain ⟨k, hk⟩ := @counted_values _ _ _ _ _ _ _ id _ hlen
    (fun d _ p hd => ⟨_, descriptor_of_holds hd⟩)
      (by simp [Descriptor.writeToBuffer] : ∀ d ∈ ds, 1 < d.writeToBuffer.length)
    _ _ _ h hleft (Nat.lt_succ_self _)
  rw [List.map_id] at hk
  exact ⟨k, hk⟩

theorem esInfoLoop_of_holds {es : List ElementaryStreamInfo} {pos : Nat}
    (h : Holds m pos (es.flatMap streamBytes)) (hl : (es.flatMap streamBytes).length < 4096) :
    ∃ k, esInfoLoop valid ⟨pos, (es.flatMap streamBytes).length, 0⟩ m =
      (.ok (es.map (·.kept valid)), k) := by
  have hfit : ∀ e ∈ es, (descriptorsBytes e.descriptors).length < 4096 := by
    intro e he
    have := @length_le_flatMap _ streamBytes _ _ he
    rw [streamBytes_length] at this
    omega
  have hlen : ∀ e ∈ es, ∀ p, Holds m p (streamBytes e) →
      ∃ k, esLoopLength p m = (.ok (streamBytes e).length, k) := by
    intro e he p hp
    simp only [streamBytes, List.cons_append, List.append_assoc, Holds, holds_append] at hp
    have h3 : lengthAt m (p + 3) = _ := lengthAt_word (r := 15) hp.2.2.1 (by decide) (hfit e he)
    refine ⟨_, Prod.ext ?_ rfl⟩
    simp only [esLoopLength, bind_apply, dvbLength_apply, pure_apply, h3, streamBytes_length]
  obtain ⟨k, hk⟩ := counted_values hlen
    (fun e he p hp => elementaryStreamInfo_of_holds valid hp (hfit e he))
    (by
      intro e _
      rw [streamBytes_length]
      omega : ∀ e ∈ es, 4 < (streamBytes e).length) h (Nat.le_refl _) (Nat.lt_succ_self _)
  refine ⟨_, Prod.ext ?_ rfl⟩
  simp only [esInfoLoop, if_true, bind_apply, hk, pure_apply]

theorem section_of_holds {tableId : Byte} {header contents crc : Str} (hheader : header.length = 5)
    (hcrc : crc.length = 4) (hl : header.length + contents.length + crc.length < 4096)
    (h : Holds m 0 (sectionBytes tableId header contents crc)) :
    sectionLength m = 9 + contents.length ∧ Holds m 8 contents := by
  simp only [sectionBytes, List.cons_append, List.append_assoc, Holds, holds_append] at h
  obtain ⟨-, h1, -, h8, -⟩ := h
  rw [hheader] at h8
  constructor
  · have hlen : lengthAt m 1 = _ := lengthAt_word (r := 11) h1 (by decide) hl
    rw [sectionLength, hlen]
    omega
  · exact h8

/-- A program map section delivers the descriptors and streams it was put together from. -/
theorem programMap_of_holds {tableId : Byte} {header crc : Str} {pcrPid : BitVec 13}
    {ds : List Descriptor} {es : List ElementaryStreamInfo} (hheader : header.length = 5)
    (hcrc : crc.length = 4)
    (hl : header.length + (pmtContents pcrPid ds es).length + crc.length < 4096)
    (h : Holds m 0 (sectionBytes tableId header (pmtContents pcrPid ds es) crc)) :
    ∃ s k, programMapSection valid m = (.ok ⟨s, pcrPid, (descriptorsBytes ds).length,
      ds.filter valid, es.map (·.kept valid)⟩, k) := by
  obtain ⟨hsl, hc⟩ := section_of_holds hheader hcrc hl h
  obtain ⟨s, hs, hsec⟩ := longCrcSection_apply (m := m)
  have hlen : (pmtContents pcrPid ds es).length =
      4 + (descriptorsBytes ds).length + (es.flatMap streamBytes).length := by
    simp only [pmtContents, word, List.length_append, List.length_cons, List.length_nil]
  rw [hlen] at hsl hl
  simp only [pmtContents, List.append_assoc, holds_append] at hc
  obtain ⟨h8, h10, h12, hes⟩ := hc
  have hpil : lengthAt m 10 = (descriptorsBytes ds).length :=
    lengthAt_word (r := 15) h10 (by decide) (by omega)
  have hleft : (if 13 < s.sectionLength then s.sectionLength - 13 else 0) =
      (descriptorsBytes ds).length + (es.flatMap streamBytes).length := by
    rw [hs, bytesLeft_eq, hsl]
    omega
  have hlong : 10 < s.sectionLength ∧ 12 < s.sectionLength := by omega
  obtain ⟨k, hk⟩ := @counted_info_of_holds _ _ 12 _ h12
    (Nat.le_add_right _ (es.flatMap streamBytes).length)
  obtain ⟨k', hk'⟩ := @esInfoLoop_of_holds _ valid _ (12 + (descriptorsBytes ds).length) hes
    (by omega)
  rw [Nat.add_sub_cancel_left] at hk
  refine ⟨s, _, Prod.ext ?_ rfl⟩
  simp only [programMapSection, bind_apply, hsec, ifLonger_apply (pid_of_holds h8),
    ifLonger_apply (dvbLength_apply 10), hlong, if_true, hpil, hleft, hk, hk', pure_apply]

/-- An event information section delivers its events. -/
theorem eventInformation_of_holds {tableId : Byte} {header crc : Str}
    {transportStreamId originalNetworkId : Nat} {segmentLast lastTable : Byte} {events : List Event}
    (hheader : header.length = 5) (hcrc : crc.length = 4) (hts : transportStreamId < 65536)
    (hon : originalNetworkId < 65536) (he : ∀ e ∈ events, e.Encodable)
    (hl : header.length + (eitContents transportStreamId originalNetworkId segmentLast lastTable
      events).length + crc.length < 4096)
    (h : Holds m 0 (sectionBytes tableId header
      (eitContents transportStreamId originalNetworkId segmentLast lastTable events) crc)) :
    ∃ s k, eventInformationSection valid m = (.ok ⟨s, transportStreamId, originalNetworkId,
      segmentLast, lastTable, events.map (·.kept valid)⟩, k) := by
  obtain ⟨hsl, hc⟩ := section_of_holds hheader hcrc hl h
  obtain ⟨s, hs, hsec⟩ := longCrcSection_apply (m := m)
  have hlen : (eitContents transportStreamId originalNetworkId segmentLast lastTable events).length =
      6 + (events.flatMap eventBytes).length := by
    simp only [eitContents, word, List.length_append, List.length_cons, List.length_nil]
  rw [hlen] at hsl hl
  simp only [eitContents, List.append_assoc, holds_append] at hc
  obtain ⟨h8, h10, h12, hev⟩ := hc
  have hev : Holds m 14 (events.flatMap eventBytes) := hev
  have hseg : m 12 = segmentLast := h12.1
  have hlast : m 13 = lastTable := h12.2.1
  have htsid := holds_word h8 hts
  have honid : (m 10).toNat * 256 + (m (10 + 1)).toNat = originalNetworkId := holds_word h10 hon
  have hleft : (if 15 < s.sectionLength then s.sectionLength - 15 else 0) =
      (events.flatMap eventBytes).length := by
    rw [hs, bytesLeft_eq, hsl]
    omega
  have hlong : 10 < s.sectionLength ∧ 12 < s.sectionLength ∧ 13 < s.sectionLength ∧
      14 < s.sectionLength := by omega
  have hfit : ∀ e ∈ events, (descriptorsBytes e.descriptors).length < 4096 := by
    intro e hmem
    have := @length_le_flatMap _ eventBytes _ _ hmem
    rw [eventBytes_length] at this
    omega
  have hloop : ∀ e ∈ events, ∀ p, Holds m p (eventBytes e) →
      ∃ k, eventLoopLength p m = (.ok (eventBytes e).length, k) := by
    intro e hmem p hp
    have hlen := eventLength_of_holds (he e hmem) hp (hfit e hmem)
    refine ⟨_, Prod.ext ?_ rfl⟩
    simp only [eventLoopLength, bind_apply, dvbLength_apply, pure_apply, hlen, eventBytes_length]
  obtain ⟨k, hk⟩ := counted_values hloop
    (fun e hmem p hp => event_of_holds valid (he e hmem) hp (hfit e hmem))
    (by
      intro e _
      rw [eventBytes_length]
      omega : ∀ e ∈ events, 11 < (eventBytes e).length) hev (Nat.le_refl _) (Nat.lt_succ_self _)
  refine ⟨s, _, Prod.ext ?_ rfl⟩
  simp only [eventInformationSection, bind_apply, hsec, ifLonger_apply (r16_apply 8),
    ifLonger_apply (r16_apply 10), ifLonger_apply (read_apply 12), ifLonger_apply (read_apply 13),
    hlong, if_true, hleft, htsid, honid, hseg, hlast, hk, pure_apply]

theorem tsInfoLoop_of_holds {ts : List TransportStreamInfo} {pos : Nat}
    (ht : ∀ t ∈ ts, t.Encodable) (hl : (ts.flatMap transportStreamBytes).length < 4094)
    (h : Holds m pos (word (0xf000 + (ts.flatMap transportStreamBytes).length) ++
      ts.flatMap transportStreamBytes)) :
    ∃ k, tsInfoLoop valid ⟨pos, 2 + (ts.flatMap transportStreamBytes).length, 0⟩ m =
      (.ok (ts.map (·.kept valid)), k) := by
  rw [holds_append] at h
  obtain ⟨h0, h2⟩ := h
  have hlen : lengthAt m pos = (ts.flatMap transportStreamBytes).length :=
    lengthAt_word (r := 15) h0 (by decide) (by omega)
  have hfit : ∀ t ∈ ts, (descriptorsBytes t.descriptors).length < 4096 := by
    intro t hmem
    have := @length_le_flatMap _ transportStreamBytes _ _ hmem
    rw [transportStreamBytes_length] at this
    omega
  have hloop : ∀ t ∈ ts, ∀ p, Holds m p (transportStreamBytes t) →
      ∃ k, transportStreamLoopLength p m = (.ok (transportStreamBytes t).length, k) := by
    intro t hmem p hp
    simp only [transportStreamBytes, List.append_assoc, holds_append] at hp
    have h4 : lengthAt m (p + 4) = _ := lengthAt_word (r := 15) hp.2.2.1 (by decide) (hfit t hmem)
    refine ⟨_, Prod.ext ?_ rfl⟩
    simp only [transportStreamLoopLength, bind_apply, dvbLength_apply, pure_apply, h4,
      transportStreamBytes_length]
  obtain ⟨k, hk⟩ := counted_values hloop
    (fun t hmem p hp => transportStreamInfo_of_holds valid (ht t hmem) hp (hfit t hmem))
    (by
      intro t _
      rw [transportStreamBytes_length]
      omega : ∀ t ∈ ts, 4 < (transportStreamBytes t).length) h2 (Nat.le_refl _) (Nat.lt_succ_self _)
  have hpos : pos + (word (0xf000 + (ts.flatMap transportStreamBytes).length)).length = pos + 2 := rfl
  have hguard : 1 < 2 + (ts.flatMap transportStreamBytes).length := by omega
  rw [hpos] at hk
  refine ⟨_, Prod.ext ?_ rfl⟩
  simp only [tsInfoLoop, hguard, and_self, if_true, bind_apply, dvbLength_apply, hlen,
    subtract_ok (Nat.le_add_right 2 _), Nat.add_sub_cancel_left, hk, pure_apply]

/-- A network information section delivers its descriptors and streams. -/
theorem networkInformation_of_holds {tableId : Byte} {header crc : Str} {ds : List Descriptor}
    {ts : List TransportStreamInfo} (hheader : header.length = 5) (hcrc : crc.length = 4)
    (ht : ∀ t ∈ ts, t.Encodable)
    (hl : header.length + (nitContents ds ts).length + crc.length < 4096)
    (h : Holds m 0 (sectionBytes tableId header (nitContents ds ts) crc)) :
    ∃ s k, networkInformationSection valid m = (.ok ⟨s, (descriptorsBytes ds).length,
      ds.filter valid, ts.map (·.kept valid)⟩, k) := by
  obtain ⟨hsl, hc⟩ := section_of_holds hheader hcrc hl h
  obtain ⟨s, hs, hsec⟩ := longCrcSection_apply (m := m)
  have hlen : (nitContents ds ts).length =
      4 + (descriptorsBytes ds).length + (ts.flatMap transportStreamBytes).length := by
    simp only [nitContents, word, List.length_append, List.length_cons, List.length_nil]
    omega
  rw [hlen] at hsl hl
  simp only [nitContents, List.append_assoc, holds_append] at hc
  obtain ⟨h8, h10, hts⟩ := hc
  have hndl : lengthAt m 8 = (descriptorsBytes ds).length :=
    lengthAt_word (r := 15) h8 (by decide) (by omega)
  have hleft : (if 11 < s.sectionLength then s.sectionLength - 11 else 0) =
      (descriptorsBytes ds).length + (2 + (ts.flatMap transportStreamBytes).length) := by
    rw [hs, bytesLeft_eq, hsl]
    omega
  have hlong : 9 < s.sectionLength := by omega
  obtain ⟨k, hk⟩ := @counted_info_of_holds _ _ 10 _ h10
    (Nat.le_add_right _ (2 + (ts.flatMap transportStreamBytes).length))
  obtain ⟨k', hk'⟩ := @tsInfoLoop_of_holds _ valid _ (10 + (descriptorsBytes ds).length) ht
    (by omega) ((holds_append _ _ _).mpr hts)
  rw [Nat.add_sub_cancel_left] at hk
  refine ⟨s, _, Prod.ext ?_ rfl⟩
  simp only [networkInformationSection, bind_apply, hsec, ifLonger_apply (dvbLength_apply 8), hlong,
    if_true, hndl, hleft, hk, hk', pure_apply]

end

/-! ## All sections -/

/-- The stream of this program map has a descriptor that is longer than the section. -/
def overlongStream : Memory := fun i =>
  ([0x02, 0xb0, 0x14, 0x00, 0x01, 0xc1, 0x00, 0x00, 0xe1, 0x00, 0xf0, 0x00,
    0x1b, 0xe1, 0x01, 0xf0, 0x02, 0x52, 0xff, 0x00, 0x00, 0x00, 0x00] : Str).getD i 0

theorem overlongStream_leaves_section :
    ¬ Within (constructSection (fun _ => true) .programMap) overlongStream
      (3 + sectionLength overlongStream) := by
  rw [section_within_iff]
  rintro ⟨-, h⟩
  have hinfo : InfoEnds overlongStream 12 (programInfoLength overlongStream)
      (sectionLength overlongStream - 13) := by
    have h0 : programInfoLength overlongStream = 0 := by decide
    rw [h0]
    exact ⟨Nat.zero_le _, .refl 12⟩
  have hfit := h hinfo 12 (.refl 12) (by decide) 5 (.refl 5) (by decide)
  revert hfit
  decide

/-- The constructors of the three sections stay inside a section exactly where it
fits, and deliver what a section was put together from. -/
theorem section_constructors (valid : Descriptor → Bool) :
    (∀ t m, Within (constructSection valid t) m (3 + sectionLength m) ↔ SectionFits t m) ∧
    (∀ (m : Memory) (tableId : Byte) (header crc : Str) (pcrPid : BitVec 13) (ds : List Descriptor)
      (es : List ElementaryStreamInfo), header.length = 5 → crc.length = 4 →
      header.length + (pmtContents pcrPid ds es).length + crc.length < 4096 →
      Holds m 0 (sectionBytes tableId header (pmtContents pcrPid ds es) crc) →
      ∃ s k, programMapSection valid m = (.ok ⟨s, pcrPid, (descriptorsBytes ds).length,
        ds.filter valid, es.map (·.kept valid)⟩, k)) ∧
    (∀ (m : Memory) (tableId : Byte) (header crc : Str) (tsid onid : Nat)
      (segmentLast lastTable : Byte) (events : List Event), header.length = 5 → crc.length = 4 →
      tsid < 65536 → onid < 65536 → (∀ e ∈ events, e.Encodable) →
      header.length + (eitContents tsid onid segmentLast lastTable events).length + crc.length <
        4096 →
      Holds m 0
        (sectionBytes tableId header (eitContents tsid onid segmentLast lastTable events) crc) →
      ∃ s k, eventInformationSection valid m =
        (.ok ⟨s, tsid, onid, segmentLast, lastTable, events.map (·.kept valid)⟩, k)) ∧
    (∀ (m : Memory) (tableId : Byte) (header crc : Str) (ds : List Descriptor)
      (ts : List TransportStreamInfo), header.length = 5 → crc.length = 4 →
      (∀ t ∈ ts, t.Encodable) →
      header.length + (nitContents ds ts).length + crc.length < 4096 →
      Holds m 0 (sectionBytes tableId header (nitContents ds ts) crc) →
      ∃ s k, networkInformationSection valid m =
        (.ok ⟨s, (descriptorsBytes ds).length, ds.filter valid, ts.map (·.kept valid)⟩, k)) := by
  refine ⟨fun t m => section_within_iff t, ?_, ?_, ?_⟩
  · intro m tableId header crc pcrPid ds es hheader hcrc hl h
    exact programMap_of_holds valid hheader hcrc hl h
  · intro m tableId header crc tsid onid segmentLast lastTable events hheader hcrc hts hon he hl h
    exact eventInformation_of_holds valid hheader hcrc hts hon he hl h
  · intro m tableId header crc ds ts hheader hcrc ht hl h
    exact networkInformation_of_holds valid hheader hcrc ht hl h

/-- A program with one stream, an event and a transport stream; the descriptors with the tag `0x52`
are not valid. -/
theorem section_constructors_sample :
    let ca : Descriptor := ⟨0x09, [0x17, 0x02, 0xe1, 0x05], by decide⟩
    let id : Descriptor := ⟨0x52, [], by decide⟩
    let valid : Descriptor → Bool := fun d => d.descriptorTag = 0x09
    let event : Event := ⟨7, 0xcc00, 0x120000, 0x003000, 4, 1, 8, [ca, id]⟩
    let memory (contents : Str) : Memory := fun i => (sectionBytes 0x02
      [0x00, 0x01, 0xc1, 0x00, 0x00] contents [0x12, 0x34, 0x56, 0x78]).getD i 0
    (∃ s k, programMapSection valid (memory (pmtContents 0x101 [ca] [⟨0x1b, 0x101, [id, ca]⟩])) =
      (.ok ⟨s, 0x101, 6, [ca], [⟨0x1b, 0x101, [ca]⟩]⟩, k)) ∧
    (∃ s k, eventInformationSection valid (memory (eitContents 1 2 3 0x50 [event])) =
      (.ok ⟨s, 1, 2, 3, 0x50, [{ event with descriptors := [ca] }]⟩, k)) ∧
    ∃ s k, networkInformationSection valid (memory (nitContents [ca, id] [⟨1, 2, [id, ca]⟩])) =
      (.ok ⟨s, 8, [ca], [⟨1, 2, [ca]⟩]⟩, k) := by
  intro ca id valid event memory
  have hevent : ∀ e ∈ [event], e.Encodable := fun e he => by
    rw [List.mem_singleton.mp he]
    exact ⟨by decide, by decide, by decide, by decide, by decide, by decide, by decide⟩
  have hstream : ∀ t ∈ [(⟨1, 2, [id, ca]⟩ : TransportStreamInfo)], t.Encodable := fun t ht => by
    rw [List.mem_singleton.mp ht]
    exact ⟨by decide, by decide⟩
  obtain ⟨-, hpmt, heit, hnit⟩ := section_constructors valid
  refine ⟨hpmt _ 0x02 [0x00, 0x01, 0xc1, 0x00, 0x00] [0x12, 0x34, 0x56, 0x78] 0x101 [ca] _ rfl rfl
    (by decide) (holds_getD [] _), ?_, ?_⟩
  · exact heit _ 0x02 [0x00, 0x01, 0xc1, 0x00, 0x00] [0x12, 0x34, 0x56, 0x78] 1 2 3 0x50 _ rfl rfl
      (by decide) (by decide) hevent (by decide) (holds_getD [] _)
  · exact hnit _ 0x02 [0x00, 0x01, 0xc1, 0x00, 0x00] [0x12, 0x34, 0x56, 0x78] [ca, id] _ rfl rfl
      hstream (by decide) (holds_getD [] _)

end Tuxbox.Dvbsi
