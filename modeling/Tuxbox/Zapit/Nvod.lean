import Tuxbox.Lib.Codec
import Tuxbox.Zapit.Demux

/-! The lookup of the services that an NVOD reference service stands for.

Main results: `nvodServiceIds_eq`, where the lookup ends, and `serves_iff`, when it
returns the entry that was asked for. -/
namespace Tuxbox.Zapit

open Buffer
open Sectionsd (word loopLength)

structure NvodIds where
  tsid : UInt16
  onid : UInt16
  sid : UInt16
  deriving DecidableEq

/-- The shift is one by sixteen. -/
def shiftedWord (buf : Str) (i : Nat) : Option UInt16 := do
  let high ← read buf i
  let low ← read buf (i + 1)
  pure (UInt16.ofNat (high.toNat <<< 16 ||| low.toNat))

def nvodReferenceDescriptor (buf : Str) (num : Nat) (ids : NvodIds) : Option (Int × NvodIds) := do
  let length ← read buf 1
  if length.toNat / 6 + 1 ≥ num then
    let tsid ← shiftedWord buf (2 + 6 * num)
    let onid ← shiftedWord buf (4 + 6 * num)
    let sid ← shiftedWord buf (6 + 6 * num)
    pure (0, ⟨tsid, onid, sid⟩)
  else pure (-1, ids)

/-- One round of the inner loop. The first reference descriptor ends both. -/
def nvodDescriptorStep (buffer : Str) (num : Nat) (ids : NvodIds) (stop pos2 : Nat)
    (found : Option (Int × NvodIds)) : Option (Nat × Option (Int × NvodIds)) := do
  let tag ← read buffer pos2
  if tag = 0x4b then
    let r ← nvodReferenceDescriptor (buffer.drop pos2) num ids
    pure (stop, some r)
  else
    let length ← read buffer (pos2 + 1)
    pure (pos2 + (length.toNat + 2), found)

def nvodServiceStep (buffer : Str) (refSid : UInt16) (num : Nat) (ids : NvodIds) (stop pos : Nat)
    (found : Option (Int × NvodIds)) : Option (Nat × Option (Int × NvodIds)) := do
  let serviceId ← word buffer pos
  let descriptorsLoopLength ← loopLength buffer (pos + 3)
  let next := pos + descriptorsLoopLength + 5
  if serviceId = refSid then
    let r ← walk (nvodDescriptorStep buffer num ids next) next (pos + 5) none
    match r.2 with
    | some result => pure (stop, some result)
    | none => pure (next, found)
  else pure (next, found)

def nvodSection (refSid : UInt16) (num : Nat) (ids : NvodIds) (buffer : Str) (filter4 : Byte) :
    Option (Flow Byte (Int × NvodIds)) := do
  let sectionLength ← loopLength buffer 1
  let stop := sectionLength - 1
  let r ← walk (nvodServiceStep buffer refSid num ids stop) stop 11 none
  match r.2 with
  | some result => pure (.ret result)
  | none => do
    let last ← read buffer 7
    if filter4 = last then pure (.ret (-1, ids)) else pure (.again (filter4 + 1))

def nvodServiceIds (answers : Answers) (fuel : Nat) (buffer : Str) (refSid : UInt16) (num : Nat)
    (ids : NvodIds) : Option (Int × NvodIds) :=
  readFor (nvodSection refSid num ids) (fun _ => (-1, ids)) answers fuel 0 buffer 0

/-! ## Tables -/

structure Descriptor where
  tag : Byte
  data : Str
  short : data.length < 256

def Descriptor.bytes (d : Descriptor) : Str := d.tag :: d.data.length.toUInt8 :: d.data

structure SdtService where
  serviceId : UInt16
  flags : Byte
  status : Fin 16
  descriptors : List Descriptor
  short : (descriptors.flatMap Descriptor.bytes).length < 4096

namespace SdtService

def loopBytes (v : SdtService) : Str := v.descriptors.flatMap Descriptor.bytes

def bytes (v : SdtService) : Str :=
  [(v.serviceId.toNat / 256).toUInt8, v.serviceId.toUInt8, v.flags,
    (v.status.val * 16 + v.loopBytes.length / 256).toUInt8, v.loopBytes.length.toUInt8] ++
    v.loopBytes

/-- The reference descriptor of the service, if it is the one. -/
def reference (v : SdtService) (refSid : UInt16) : Option Descriptor :=
  if v.serviceId = refSid then v.descriptors.find? (·.tag = 0x4b) else none

end SdtService

structure SdtSection where
  services : List SdtService
  crc : Str
  crc_length : crc.length = 4
  short : (services.flatMap SdtService.bytes).length ≤ 1009

structure Sdt where
  flags : Fin 16
  transportStreamId : UInt16
  version : Byte
  originalNetworkId : UInt16
  reserved : Byte
  sections : List SdtSection
  nonempty : sections ≠ []
  numbered : sections.length ≤ 256

namespace Sdt

def loopBytes (s : SdtSection) : Str := s.services.flatMap SdtService.bytes

def sectionLength (s : SdtSection) : Nat := 12 + (loopBytes s).length

def header (sdt : Sdt) (s : SdtSection) (number : Nat) : Str :=
  [0x42, (sdt.flags.val * 16 + sectionLength s / 256).toUInt8, (sectionLength s).toUInt8,
    (sdt.transportStreamId.toNat / 256).toUInt8, sdt.transportStreamId.toUInt8, sdt.version,
    number.toUInt8, (sdt.sections.length - 1).toUInt8, (sdt.originalNetworkId.toNat / 256).toUInt8,
    sdt.originalNetworkId.toUInt8, sdt.reserved]

def bytes (sdt : Sdt) (s : SdtSection) (number : Nat) : Str :=
  sdt.header s number ++ (loopBytes s ++ s.crc)

def answers (sdt : Sdt) : Answers := deliver sdt.bytes sdt.sections

/-- The reference descriptor of a service in the table. -/
def reference (sdt : Sdt) (refSid : UInt16) : Option Descriptor :=
  sdt.sections.findSome? fun s => s.services.findSome? (·.reference refSid)

end Sdt

/-! ## Descriptors -/

section
variable {buf rest : Str} {i stop num : Nat} {ids : NvodIds}

theorem Descriptor.bytes_length (d : Descriptor) : d.bytes.length = d.data.length + 2 := rfl

theorem read_length {d : Descriptor} (h : buf.drop i = d.bytes ++ rest) :
    read buf (i + 1) = some d.data.length.toUInt8 :=
  read_of_drop (drop_behind (s := [_]) h)

theorem length_toNat (d : Descriptor) : d.data.length.toUInt8.toNat = d.data.length := by
  have := d.short
  rw [Nat.toUInt8, UInt8.toNat_ofNat']
  omega

theorem nvodDescriptorStep_other {d : Descriptor} (h : buf.drop i = d.bytes ++ rest)
    (htag : d.tag ≠ 0x4b) (found : Option (Int × NvodIds)) :
    nvodDescriptorStep buf num ids stop i found = some (i + d.bytes.length, found) := by
  have h0 : read buf i = some d.tag := read_of_drop h
  unfold nvodDescriptorStep
  rw [bind_of_some h0, if_neg htag, bind_of_some (read_length h), length_toNat]
  rfl

theorem nvodDescriptorStep_reference {d : Descriptor} (h : buf.drop i = d.bytes ++ rest)
    (htag : d.tag = 0x4b) (found : Option (Int × NvodIds)) :
    nvodDescriptorStep buf num ids stop i found =
      (nvodReferenceDescriptor (buf.drop i) num ids).map fun r => (stop, some r) := by
  have h0 : read buf i = some d.tag := read_of_drop h
  unfold nvodDescriptorStep
  rw [bind_of_some h0, if_pos htag, Option.map_eq_bind]
  rfl

theorem nvodDescriptorStep_moves (buf : Str) (num : Nat) (ids : NvodIds) (stop : Nat) :
    Moves (nvodDescriptorStep buf num ids stop) stop := by
  intro i found r hi h
  unfold nvodDescriptorStep at h
  obtain ⟨-, h⟩ := read_bind.mp h
  split at h
  · obtain ⟨q, -, h⟩ := Option.bind_eq_some_iff.mp h
    rw [← Option.some_inj.mp h]
    exact hi
  · obtain ⟨-, h⟩ := read_bind.mp h
    rw [← Option.some_inj.mp h]
    omega

/-- What a loop does that looks for a descriptor: it comes to `next` without one, and ends
with one. -/
def Searched (buf : Str) (num : Nat) (ids : NvodIds) (stop next : Nat) :
    Option Descriptor → Option (Nat × Option (Int × NvodIds)) → Prop
  | none, r => r = some (next, none)
  | some d, r => ∃ j tail, buf.drop j = d.bytes ++ tail ∧
      r = (nvodReferenceDescriptor (buf.drop j) num ids).map fun r => (stop, some r)

theorem walk_descriptors (num : Nat) (ids : NvodIds) {ds : List Descriptor}
    (h : buf.drop i = ds.flatMap Descriptor.bytes ++ rest)
    (hstop : stop = i + (ds.flatMap Descriptor.bytes).length) :
    Searched buf num ids stop stop (ds.find? (·.tag = 0x4b))
      (walk (nvodDescriptorStep buf num ids stop) stop i none) := by
  have hmove := nvodDescriptorStep_moves buf num ids stop
  have hpass : ∀ ds : List Descriptor, (∀ d ∈ ds, d.tag ≠ 0x4b) → ∀ d ∈ ds, ∀ i rest,
      buf.drop i = d.bytes ++ rest →
        nvodDescriptorStep buf num ids stop i none = some (i + d.bytes.length, none) :=
    fun ds hds d hd i rest hi => nvodDescriptorStep_other hi (hds d hd) none
  have hsize : ∀ ds : List Descriptor, ∀ d ∈ ds, 0 < d.bytes.length :=
    fun ds d _ => by rw [d.bytes_length]; omega
  cases hfind : ds.find? (·.tag = 0x4b) with
  | none =>
    have hnone : ∀ d ∈ ds, d.tag ≠ 0x4b :=
      fun d hd htag => List.find?_eq_none.mp hfind d hd (decide_eq_true htag)
    change walk _ stop i none = _
    rw [walk_skip hmove (hpass ds hnone) (hsize ds) h hstop.ge, ← hstop]
    exact walk_end none (Nat.le_refl stop)
  | some d =>
    obtain ⟨htag, before, after, rfl, hbefore⟩ := List.find?_eq_some_iff_append.mp hfind
    have hbefore' : ∀ e ∈ before, e.tag ≠ 0x4b := fun e he htag => by
      have := hbefore e he
      simp [htag] at this
    rw [List.flatMap_append, List.flatMap_cons, List.append_assoc] at h
    rw [List.flatMap_append, List.flatMap_cons, List.length_append, List.length_append,
      d.bytes_length] at hstop
    have hd := drop_behind h
    rw [List.append_assoc] at hd
    refine ⟨_, _, hd, ?_⟩
    rw [walk_skip hmove (hpass before hbefore') (hsize before) h (by omega),
      walk_step hmove none (by omega), nvodDescriptorStep_reference hd (of_decide_eq_true htag),
      Option.bind_map]
    cases nvodReferenceDescriptor _ num ids with
    | none => rfl
    | some r => exact walk_end (some r) (Nat.le_refl stop)

/-! ## Services -/

theorem SdtService.bytes_length (v : SdtService) : v.bytes.length = v.loopBytes.length + 5 := by
  rw [SdtService.bytes, List.length_append]
  exact Nat.add_comm _ _

theorem nvodServiceStep_service (num : Nat) (ids : NvodIds) (stop : Nat) {v : SdtService}
    (refSid : UInt16) (h : buf.drop i = v.bytes ++ rest) :
    Searched buf num ids stop (i + v.bytes.length) (v.reference refSid)
      (nvodServiceStep buf refSid num ids stop i none) := by
  have hid : word buf i = some v.serviceId := word_of_drop h
  have hloop : loopLength buf (i + 3) = some v.loopBytes.length :=
    loopLength_of_drop v.short (drop_behind (s := [_, _, _]) h)
  have hbody : buf.drop (i + 5) = v.descriptors.flatMap Descriptor.bytes ++ rest :=
    drop_behind (s := [_, _, _, _, _]) h
  have hnext : i + v.loopBytes.length + 5 = i + v.bytes.length := by
    rw [v.bytes_length, Nat.add_assoc]
  have hend : i + v.bytes.length = i + 5 + (v.descriptors.flatMap Descriptor.bytes).length := by
    rw [v.bytes_length, SdtService.loopBytes]
    omega
  have hwalk := walk_descriptors num ids hbody hend
  unfold nvodServiceStep SdtService.reference
  rw [bind_of_some hid, bind_of_some hloop, hnext]
  by_cases hsid : v.serviceId = refSid
  · simp only [hsid, if_true]
    cases hfind : v.descriptors.find? (·.tag = 0x4b) with
    | none =>
      rw [hfind] at hwalk
      exact bind_of_some hwalk _
    | some d =>
      rw [hfind] at hwalk
      obtain ⟨j, tail, hj, hwalk⟩ := hwalk
      refine ⟨j, tail, hj, ?_⟩
      rw [hwalk]
      cases nvodReferenceDescriptor (buf.drop j) num ids <;> rfl
  · simp only [hsid, if_false]
    rfl

theorem nvodServiceStep_moves (buf : Str) (refSid : UInt16) (num : Nat) (ids : NvodIds)
    (stop : Nat) : Moves (nvodServiceStep buf refSid num ids stop) stop := by
  intro i found r hi h
  unfold nvodServiceStep at h
  obtain ⟨id, -, h⟩ := Option.bind_eq_some_iff.mp h
  obtain ⟨n, -, h⟩ := Option.bind_eq_some_iff.mp h
  simp only at h
  split at h
  · obtain ⟨q, -, h⟩ := Option.bind_eq_some_iff.mp h
    split at h
    · rw [← Option.some_inj.mp h]
      exact hi
    · rw [← Option.some_inj.mp h]
      simp only
      omega
  · rw [← Option.some_inj.mp h]
    simp only
    omega

theorem walk_services {vs : List SdtService} {refSid : UInt16}
    (h : buf.drop i = vs.flatMap SdtService.bytes ++ rest)
    (hstop : stop = i + (vs.flatMap SdtService.bytes).length) :
    Searched buf num ids stop stop (vs.findSome? (·.reference refSid))
      (walk (nvodServiceStep buf refSid num ids stop) stop i none) := by
  have hmove := nvodServiceStep_moves buf refSid num ids stop
  have hpass : ∀ vs : List SdtService, (∀ v ∈ vs, v.reference refSid = none) → ∀ v ∈ vs,
      ∀ i rest, buf.drop i = v.bytes ++ rest →
        nvodServiceStep buf refSid num ids stop i none = some (i + v.bytes.length, none) := by
    intro vs hvs v hv i rest hi
    have hstep := nvodServiceStep_service num ids stop refSid hi
    rw [hvs v hv] at hstep
    exact hstep
  have hsize : ∀ vs : List SdtService, ∀ v ∈ vs, 0 < v.bytes.length :=
    fun vs v _ => by rw [v.bytes_length]; omega
  cases hfind : vs.findSome? (·.reference refSid) with
  | none =>
    have hnone : ∀ v ∈ vs, v.reference refSid = none := List.findSome?_eq_none_iff.mp hfind
    change walk _ stop i none = _
    rw [walk_skip hmove (hpass vs hnone) (hsize vs) h hstop.ge, ← hstop]
    exact walk_end none (Nat.le_refl stop)
  | some d =>
    obtain ⟨before, v, after, rfl, hv, hbefore⟩ := List.findSome?_eq_some_iff.mp hfind
    rw [List.flatMap_append, List.flatMap_cons, List.append_assoc] at h
    rw [List.flatMap_append, List.flatMap_cons, List.length_append, List.length_append,
      v.bytes_length] at hstop
    have hat := drop_behind h
    rw [List.append_assoc] at hat
    have hstep := nvodServiceStep_service num ids stop refSid hat
    rw [hv] at hstep
    obtain ⟨j, tail, hj, hstep⟩ := hstep
    refine ⟨j, tail, hj, ?_⟩
    rw [walk_skip hmove (hpass before hbefore) (hsize before) h (by omega),
      walk_step hmove none (by omega), hstep, Option.bind_map]
    cases nvodReferenceDescriptor _ num ids with
    | none => rfl
    | some r => exact walk_end (some r) (Nat.le_refl stop)

end

/-! ## Sections -/

namespace Sdt

variable {sdt : Sdt} {s : SdtSection} {number num : Nat} {buffer : Str} {ids : NvodIds}
  {refSid : UInt16}

theorem bytes_length (sdt : Sdt) (s : SdtSection) (number : Nat) :
    (sdt.bytes s number).length = sectionLength s + 3 := by
  rw [bytes, List.length_append, List.length_append, s.crc_length]
  have : (sdt.header s number).length = 11 := rfl
  unfold sectionLength
  omega

theorem fill_bytes (hbuf : buffer.length = 1026) :
    fill buffer (sdt.bytes s number) =
      sdt.bytes s number ++ buffer.drop (sectionLength s + 3) := by
  have hlen := bytes_length sdt s number
  have hshort := s.short
  unfold fill
  rw [hlen, List.take_of_length_le]
  unfold sectionLength loopBytes at hlen
  omega

/-- What the loop over the services of a section does. -/
theorem walk_section (sdt : Sdt) (s : SdtSection) (number num : Nat) (ids : NvodIds)
    (refSid : UInt16) (hbuf : buffer.length = 1026) :
    let buf := fill buffer (sdt.bytes s number)
    let stop := sectionLength s - 1
    loopLength buf 1 = some (sectionLength s) ∧
      read buf 7 = some (sdt.sections.length - 1).toUInt8 ∧
      Searched buf num ids stop stop (s.services.findSome? (·.reference refSid))
        (walk (nvodServiceStep buf refSid num ids stop) stop 11 none) := by
  have hshort := s.short
  intro buf stop
  have hbytes : buf = sdt.header s number ++
      (loopBytes s ++ (s.crc ++ buffer.drop (sectionLength s + 3))) := by
    change fill buffer (sdt.bytes s number) = _
    rw [fill_bytes hbuf, bytes, List.append_assoc, List.append_assoc]
  have hdrop : buf.drop 11 = s.services.flatMap SdtService.bytes ++
      (s.crc ++ buffer.drop (sectionLength s + 3)) := by
    rw [hbytes]
    rfl
  have hstop : stop = 11 + (s.services.flatMap SdtService.bytes).length := by
    change sectionLength s - 1 = _
    unfold sectionLength loopBytes
    omega
  refine ⟨?_, by rw [hbytes]; rfl, walk_services hdrop hstop⟩
  rw [hbytes]
  refine loopLength_of_drop ?_ rfl
  unfold sectionLength loopBytes
  omega

theorem nvodSection_passed (hbuf : buffer.length = 1026) (filter4 : Byte)
    (h : s.services.findSome? (·.reference refSid) = none) :
    nvodSection refSid num ids (fill buffer (sdt.bytes s number)) filter4 =
      some (if filter4 = (sdt.sections.length - 1).toUInt8 then .ret (-1, ids)
        else .again (filter4 + 1)) := by
  obtain ⟨hlength, hlast, hwalk⟩ := walk_section sdt s number num ids refSid hbuf
  rw [h] at hwalk
  unfold nvodSection
  rw [bind_of_some hlength, bind_of_some hwalk]
  simp only
  rw [bind_of_some hlast]
  split <;> rfl

theorem nvodSection_found (sdt : Sdt) (number num : Nat) (ids : NvodIds)
    (hbuf : buffer.length = 1026) (filter4 : Byte) {d : Descriptor}
    (h : s.services.findSome? (·.reference refSid) = some d) :
    ∃ tail, nvodSection refSid num ids (fill buffer (sdt.bytes s number)) filter4 =
      (nvodReferenceDescriptor (d.bytes ++ tail) num ids).map .ret := by
  obtain ⟨hlength, hlast, hwalk⟩ := walk_section sdt s number num ids refSid hbuf
  rw [h] at hwalk
  obtain ⟨j, tail, hj, hwalk⟩ := hwalk
  refine ⟨tail, ?_⟩
  unfold nvodSection
  rw [bind_of_some hlength]
  simp only
  rw [hwalk, hj]
  cases nvodReferenceDescriptor (d.bytes ++ tail) num ids <;> rfl

/-- The lookup is that of the descriptor, with the bytes behind it. -/
theorem nvodServiceIds_eq (num : Nat) (ids : NvodIds) {fuel : Nat}
    (hfuel : sdt.sections.length ≤ fuel)
    (hbuf : buffer.length = 1026) {d : Descriptor} (h : sdt.reference refSid = some d) :
    ∃ tail, nvodServiceIds sdt.answers fuel buffer refSid num ids =
      nvodReferenceDescriptor (d.bytes ++ tail) num ids := by
  obtain ⟨before, s, after, hsections, hs, hbefore⟩ := List.findSome?_eq_some_iff.mp h
  have hskip : ∀ k < before.length,
      Passed (nvodSection refSid num ids) (-1, ids) sdt.bytes 1026 sdt.sections k := by
    intro k hk hk' b hb
    refine nvodSection_passed hb _ (hbefore _ ?_)
    have hget : sdt.sections[k] = before[k] := by
      simp only [hsections, List.getElem_append_left hk]
    rw [hget]
    exact List.getElem_mem hk
  obtain ⟨b, hb, hstop⟩ := readFor_stops (fun _ => (-1, ids)) hsections sdt.numbered hskip hfuel
    hbuf
  obtain ⟨tail, hfound⟩ := nvodSection_found sdt before.length num ids hb before.length.toUInt8 hs
  exact ⟨tail, hstop _ hfound⟩

end Sdt

/-! ## Entries -/

def NvodIds.bytes (e : NvodIds) : Str :=
  [(e.tsid.toNat / 256).toUInt8, e.tsid.toUInt8, (e.onid.toNat / 256).toUInt8, e.onid.toUInt8,
    (e.sid.toNat / 256).toUInt8, e.sid.toUInt8]

/-- What is left of an entry. -/
def NvodIds.lowBytes (e : NvodIds) : NvodIds :=
  ⟨e.tsid.toUInt8.toUInt16, e.onid.toUInt8.toUInt16, e.sid.toUInt8.toUInt16⟩

section
variable {buf rest : Str} {i num : Nat} {ids : NvodIds} {entries : List NvodIds}

/-- The high byte is shifted out of the sixteen bits. -/
theorem shiftedWord_of_drop {high low : Byte} (h : buf.drop i = high :: low :: rest) :
    shiftedWord buf i = some low.toUInt16 := by
  have h0 : read buf i = some high := read_of_drop h
  have h1 : read buf (i + 1) = some low := read_of_drop (drop_behind (s := [_]) h)
  have hlow := low.toNat_lt
  unfold shiftedWord
  rw [bind_of_some h0, bind_of_some h1, or_shift high.toNat (by omega)]
  refine congrArg some (UInt16.toNat_inj.mp ?_)
  rw [UInt16.toNat_ofNat', UInt8.toNat_toUInt16]
  omega

theorem entries_length (entries : List NvodIds) :
    (entries.flatMap NvodIds.bytes).length = 6 * entries.length := by
  induction entries with
  | nil => rfl
  | cons e entries ih =>
    have : e.bytes.length = 6 := rfl
    rw [List.flatMap_cons, List.length_append, ih, List.length_cons]
    omega

theorem drop_entry {e : NvodIds} (h : entries[num]? = some e) :
    ∃ after, (entries.flatMap NvodIds.bytes).drop (6 * num) = e.bytes ++ after := by
  induction entries generalizing num with
  | nil => cases h
  | cons x entries ih =>
    cases num with
    | zero =>
      obtain rfl := Option.some_inj.mp h
      exact ⟨_, rfl⟩
    | succ num =>
      obtain ⟨after, hafter⟩ := ih h
      refine ⟨after, ?_⟩
      rw [List.flatMap_cons, Nat.mul_succ, Nat.add_comm, ← List.drop_drop]
      exact hafter

theorem nvodReferenceDescriptor_eq {d : Descriptor} {tail : Str}
    (hdata : d.data = entries.flatMap NvodIds.bytes) :
    nvodReferenceDescriptor (d.bytes ++ tail) num ids =
      if entries.length + 1 ≥ num then do
        let tsid ← shiftedWord (d.bytes ++ tail) (2 + 6 * num)
        let onid ← shiftedWord (d.bytes ++ tail) (4 + 6 * num)
        let sid ← shiftedWord (d.bytes ++ tail) (6 + 6 * num)
        pure (0, ⟨tsid, onid, sid⟩)
      else some (-1, ids) := by
  have hread : read (d.bytes ++ tail) 1 = some d.data.length.toUInt8 := rfl
  unfold nvodReferenceDescriptor
  rw [bind_of_some hread, length_toNat, hdata, entries_length,
    Nat.mul_div_cancel_left _ (by decide)]
  rfl

theorem nvodReferenceDescriptor_entry {d : Descriptor} {tail : Str} {e : NvodIds}
    (hdata : d.data = entries.flatMap NvodIds.bytes) (he : entries[num]? = some e) :
    nvodReferenceDescriptor (d.bytes ++ tail) num ids = some (0, e.lowBytes) := by
  obtain ⟨hnum, -⟩ := List.getElem?_eq_some_iff.mp he
  obtain ⟨after, hafter⟩ := drop_entry he
  have hlen := entries_length entries
  have hdrop : (d.bytes ++ tail).drop (2 + 6 * num) = e.bytes ++ (after ++ tail) := by
    rw [← List.drop_drop]
    change (d.data ++ tail).drop (6 * num) = _
    rw [hdata, List.drop_append_of_le_length (by omega), hafter, List.append_assoc]
  have h2 : shiftedWord (d.bytes ++ tail) (2 + 6 * num) = some _ := shiftedWord_of_drop hdrop
  have h4 : shiftedWord (d.bytes ++ tail) (2 + 6 * num + 2) = some _ :=
    shiftedWord_of_drop (drop_behind (s := [_, _]) hdrop)
  have h6 : shiftedWord (d.bytes ++ tail) (2 + 6 * num + 4) = some _ :=
    shiftedWord_of_drop (drop_behind (s := [_, _, _, _]) hdrop)
  rw [nvodReferenceDescriptor_eq hdata, if_pos (by omega), bind_of_some h2,
    show 4 + 6 * num = 2 + 6 * num + 2 by omega, bind_of_some h4,
    show 6 + 6 * num = 2 + 6 * num + 4 by omega, bind_of_some h6]
  rfl

theorem lowBytes_eq_iff (e : NvodIds) :
    e.lowBytes = e ↔ e.tsid < 256 ∧ e.onid < 256 ∧ e.sid < 256 := by
  have hlow : ∀ w : UInt16, w.toUInt8.toUInt16 = w ↔ w < 256 := by
    intro w
    have hw := w.toNat_lt
    rw [← UInt16.toNat_inj, UInt8.toNat_toUInt16, UInt16.toNat_toUInt8, UInt16.lt_iff_toNat_lt,
      show (256 : UInt16).toNat = 256 from rfl]
    omega
  cases e with
  | mk tsid onid sid => simp only [NvodIds.lowBytes, NvodIds.mk.injEq, hlow]

end

namespace Sdt

/-- The entry that was asked for, or a failure. -/
def Serves (sdt : Sdt) (fuel : Nat) (buffer : Str) (refSid : UInt16) (num : Nat) (ids : NvodIds)
    (entries : List NvodIds) : Prop :=
  nvodServiceIds sdt.answers fuel buffer refSid num ids =
    some (match entries[num]? with
      | some e => (0, e)
      | none => (-1, ids))

/-- An entry without high bytes, or a number far enough behind the last. -/
def Readable (entries : List NvodIds) (num : Nat) : Prop :=
  (∃ e ∈ entries[num]?, e.tsid < 256 ∧ e.onid < 256 ∧ e.sid < 256) ∨ entries.length + 2 ≤ num

/-- An entry of the reference is served whole exactly if it is readable. -/
theorem serves_iff {sdt : Sdt} {fuel num : Nat} {buffer : Str} {refSid : UInt16} {ids : NvodIds}
    {d : Descriptor} {entries : List NvodIds} (hfuel : sdt.sections.length ≤ fuel)
    (hbuf : buffer.length = 1026) (h : sdt.reference refSid = some d)
    (hdata : d.data = entries.flatMap NvodIds.bytes) :
    sdt.Serves fuel buffer refSid num ids entries ↔ Readable entries num := by
  obtain ⟨tail, heq⟩ := nvodServiceIds_eq num ids hfuel hbuf h
  unfold Serves Readable
  rw [heq]
  cases hnum : entries[num]? with
  | some e =>
    have hlt := (List.getElem?_eq_some_iff.mp hnum).1
    rw [nvodReferenceDescriptor_entry hdata hnum]
    simp only [Option.some.injEq, Prod.mk.injEq, true_and, lowBytes_eq_iff, Option.mem_some,
      exists_eq_left']
    exact (or_iff_left (by omega)).symm
  | none =>
    have hge := List.getElem?_eq_none_iff.mp hnum
    rw [nvodReferenceDescriptor_eq hdata]
    simp only [Option.not_mem_none, false_and, exists_false, false_or]
    split
    · refine iff_of_false (fun h => ?_) (by omega)
      obtain ⟨tsid, -, h⟩ := Option.bind_eq_some_iff.mp h
      obtain ⟨onid, -, h⟩ := Option.bind_eq_some_iff.mp h
      obtain ⟨sid, -, h⟩ := Option.bind_eq_some_iff.mp h
      cases h
    · exact iff_of_true rfl (by omega)

theorem sample_status : 8 < 16 := by decide

/-- One service that stands for another one. -/
def sample : Sdt where
  flags := Fin.last 15
  transportStreamId := 4
  version := 0xc1
  originalNetworkId := 0x85
  reserved := 0xff
  sections := [{
    services := [⟨0x1d, 0xfc, ⟨8, sample_status⟩, [⟨0x4b, [0, 4, 0, 0x85, 0, 0x8c], by decide⟩],
      by decide⟩]
    crc := [0xf6, 0x59, 0xca, 0x27]
    crc_length := rfl
    short := by decide }]
  nonempty := List.cons_ne_nil _ _
  numbered := by decide

theorem serves_iff_sample :
    sample.Serves 1 (List.replicate 1026 0) 0x1d 0 ⟨0, 0, 0⟩ [⟨4, 0x85, 0x8c⟩] ↔
      Readable [⟨4, 0x85, 0x8c⟩] 0 :=
  serves_iff (by decide) List.length_replicate rfl rfl

/-- Behind the only entry there is the CRC. -/
theorem nvod_behind_last : ¬ ∀ (sdt : Sdt) (fuel num : Nat) (buffer : Str) (refSid : UInt16)
    (ids : NvodIds) (d : Descriptor) (entries : List NvodIds), sdt.sections.length ≤ fuel →
      buffer.length = 1026 → sdt.reference refSid = some d →
      d.data = entries.flatMap NvodIds.bytes → sdt.Serves fuel buffer refSid num ids entries := by
  intro h
  have hserves := h sample 1 1 (List.replicate 1026 0) 0x1d ⟨0, 0, 0⟩ _ [⟨4, 0x85, 0x8c⟩]
    (by decide) List.length_replicate rfl rfl
  have hreturned : nvodServiceIds sample.answers 1 (List.replicate 1026 0) 0x1d 1 ⟨0, 0, 0⟩ =
      some (0, ⟨0x59, 0x27, 0⟩) := by decide +kernel
  exact absurd (hreturned.symm.trans hserves) (by decide)

end Sdt

end Tuxbox.Zapit
