import Mathlib.Tactic.MkIffOfInductiveProp
import Tuxbox.Lib.Places
import Tuxbox.Sectionsd.BatBounds
import Tuxbox.Zapit.CaPmt
import Tuxbox.Zapit.Demux

/-! The program map section: `parse_pmt` and `parse_ES_info`. Every loop goes as far as a length
in the section says.

Main results: `parseESInfo_iff`, `parsePmt_iff`. -/
namespace Tuxbox.Zapit

open Buffer
open Sectionsd (loopLength loopLengthAt loopLength_some loopLength_isSome loopLengthAt_drop)
open Sectionsd.SIsectionBAT (startsWith CompareFits startsWith_isSome)

/-! ## The channel -/

structure CZapitAudioChannel where
  pid : BitVec 13
  isAc3 : Bool
  description : Str
  componentTag : Byte

/-- A teletext page with subtitles, or a stream of them. -/
inductive CZapitAbsSub
  | ttx (pId : BitVec 13) (langCode : Str) (magazineNumber pageNumber : Byte)
      (hearingImpaired : Bool)
  | dvb (pId : BitVec 13) (langCode : Str) (subtitlingType : Byte)
      (compositionPageId ancillaryPageId : UInt16)
  deriving DecidableEq

namespace CZapitAbsSub

def langCode : CZapitAbsSub → Str
  | ttx _ langCode .. => langCode
  | dvb _ langCode .. => langCode

/-- `thisSubType`. -/
def isTtx : CZapitAbsSub → Bool
  | ttx .. => true
  | dvb .. => false

end CZapitAbsSub

/-- What the parser sets in a `CZapitChannel`. -/
structure ChannelPids where
  pmtPid : BitVec 13
  pcrPid : BitVec 13
  videoPid : BitVec 13
  teletextPid : BitVec 13
  privatePid : BitVec 13
  audioChannels : List CZapitAudioChannel
  channelSubs : List CZapitAbsSub
  currentAudioChannel : Byte
  currentSub : Byte
  pidsFlag : Bool
  pidsUpdated : Bool
  caPmt : Option CCaPmt

namespace ChannelPids

/-- A pid that is there keeps its place and its coding. -/
def addAudioChannel (c : ChannelPids) (pid : BitVec 13) (isAc3 : Bool) (description : Str)
    (componentTag : Byte) : ChannelPids :=
  match c.audioChannels.findIdx? fun a => a.pid = pid with
  | some i =>
    { c with
      audioChannels := c.audioChannels.modify i fun a =>
        { a with description := description, componentTag := componentTag } }
  | none => { c with audioChannels := c.audioChannels ++ [⟨pid, isAc3, description, componentTag⟩] }

/-- One entry of a kind for a language. -/
def addSubtitle (c : ChannelPids) (sub : CZapitAbsSub) : ChannelPids :=
  match c.channelSubs.findIdx? fun s => s.isTtx = sub.isTtx ∧ s.langCode = sub.langCode with
  | some i =>
    if c.channelSubs[i]? = some sub then c
    else { c with channelSubs := c.channelSubs.set i sub, pidsUpdated := true }
  | none => { c with channelSubs := c.channelSubs ++ [sub], pidsUpdated := true }

def addTTXSubtitle (c : ChannelPids) (pid : BitVec 13) (langCode : Str)
    (magazineNumber pageNumber : Byte) (impaired : Bool) : ChannelPids :=
  let magNr := if magazineNumber = 0 then 8 else magazineNumber
  c.addSubtitle (.ttx pid langCode magNr pageNumber impaired)

def addDVBSubtitle (c : ChannelPids) (pid : BitVec 13) (langCode : Str) (subtitlingType : Byte)
    (compositionPageId ancillaryPageId : UInt16) : ChannelPids :=
  c.addSubtitle (.dvb pid langCode subtitlingType compositionPageId ancillaryPageId)

/-- The pid of the section itself stays. -/
def resetPids (c : ChannelPids) : ChannelPids :=
  { c with
    pcrPid := 0, videoPid := 0, teletextPid := 0, privatePid := 0, audioChannels := []
    channelSubs := [], currentAudioChannel := 0, currentSub := 0, pidsFlag := false
    pidsUpdated := false }

end ChannelPids

/-! ## An elementary stream -/

/-- `addCaDescriptor` of a pointer. The private data are a vector of a negative length where the
descriptor is shorter than its fixed part. -/
def addCaDescriptor (t : CCaTable) (buf : Str) : Option CCaTable :=
  if h : 4 ≤ (buf.getD 1 0).toNat ∧ (buf.getD 1 0).toNat + 2 ≤ buf.length then
    some (t.addCaDescriptor ⟨buf, h.1, h.2⟩)
  else none

def pidAt (high low : Byte) : BitVec 13 := .ofNat 13 ((high.toNat &&& 0x1F) <<< 8 ||| low.toNat)

structure EsState where
  esInfo : CEsInfo
  channel : ChannelPids
  isAc3 : Bool
  isDts : Bool
  description : Str
  componentTag : Byte

/-- A field of the teletext descriptor. -/
def teletextField (buf : Str) (pid : BitVec 13) (channel : ChannelPids) (fIdx : Nat) :
    Option ChannelPids := do
  let tmpLang ← string buf (5 * fIdx + 2) 3
  let typeAndMagazine ← read buf (5 * fIdx + 5)
  let teletextPageNumber ← read buf (5 * fIdx + 6)
  let teletextType := typeAndMagazine >>> 3
  let add := channel.addTTXSubtitle pid (cString tmpLang) (typeAndMagazine &&& 7) teletextPageNumber
  pure (if teletextType = 0x02 then add false
    else if teletextType = 0x05 then add true
    else channel)

/-- A field of the subtitling descriptor. The processor reads its words like the section has
them. -/
def subtitlingField (buf : Str) (pid : BitVec 13) (channel : ChannelPids) (fIdx : Nat) :
    Option ChannelPids := do
  let tmpLang ← string buf (8 * fIdx + 2) 3
  let subtitlingType ← read buf (8 * fIdx + 5)
  let compositionPageId ← Sectionsd.word buf (8 * fIdx + 6)
  let ancillaryPageId ← Sectionsd.word buf (8 * fIdx + 8)
  pure (channel.addDVBSubtitle pid (cString tmpLang) subtitlingType compositionPageId
    ancillaryPageId)

/-- One descriptor of a stream of the given type. -/
def esDescriptor (streamType : Byte) (buf : Str) (s : EsState) : Option EsState := do
  let tag ← read buf 0
  let length ← read buf 1
  if tag = 0x05 then
    if length.toNat ≥ 3 then
      let isDts ← startsWith buf 2 (chars "DTS")
      pure { s with isDts := s.isDts || isDts }
    else pure s
  else if tag = 0x09 then
    let table ← addCaDescriptor s.esInfo.toCCaTable buf
    pure { s with esInfo.toCCaTable := table }
  else if tag = 0x0A then
    let code ← string buf 2 3
    pure { s with description := s.description ++ code }
  else if tag = 0x52 then
    let componentTag ← read buf 2
    pure { s with componentTag := componentTag }
  else if tag = 0x56 then
    let channel ← (List.range (length.toNat / 5)).foldlM
      (teletextField buf s.esInfo.elementaryPID) s.channel
    pure { s with channel := { channel with teletextPid := s.esInfo.elementaryPID } }
  else if tag = 0x59 then
    if streamType = 0x06 then
      let channel ← (List.range (length.toNat / 8)).foldlM
        (subtitlingField buf s.esInfo.elementaryPID) s.channel
      pure { s with channel := channel }
    else pure s
  else if tag = 0x6A then pure { s with isAc3 := true }
  else if tag = 0xC5 then
    let name ← string buf 3 24
    pure { s with description := s.description ++ name }
  else pure s

/-- The descriptors of a private section, the second time. -/
def privateDescriptor (buf : Str) (tmp : Nat) : Option Nat := do
  let tag ← read buf 0
  let length ← read buf 1
  if tag = 0x5F then
    let specifier ← string buf 2 4
    pure (if specifier = [0, 0, 0, 190] then tmp ||| 1 else tmp)
  else if tag = 0x90 then
    if length.toNat = 4 then
      let found ← startsWith buf 2 [0, 0, 0xFF, 0xFF]
      pure (if found then tmp ||| 2 else tmp)
    else pure tmp
  else pure tmp

def withDefault (description default : Str) : Str :=
  if description.isEmpty then default else description

/-- Where the pid of a stream goes, and whether it has to be descrambled. -/
def takeStream (streamType : Byte) (s : EsState) (tmp : Nat) : ChannelPids × Bool :=
  let pid := s.esInfo.elementaryPID
  if streamType = 0x01 ∨ streamType = 0x02 ∨ streamType = 0x1B then
    ({ s.channel with videoPid := pid }, true)
  else if streamType = 0x03 ∨ streamType = 0x04 then
    (s.channel.addAudioChannel pid false (withDefault s.description (chars "unknown"))
      s.componentTag, true)
  else if streamType = 0x05 then
    (if tmp = 3 then { s.channel with privatePid := pid } else s.channel, false)
  else if streamType = 0x06 ∧ (s.isAc3 ∨ s.isDts) then
    let default := if s.isAc3 then chars "unknown (AC3)" else chars "unknown (DTS)"
    (s.channel.addAudioChannel pid true (withDefault s.description default) s.componentTag, true)
  else (s.channel, false)

/-- The second loop over the descriptors, of a private section only. -/
def takePrivates (streamType : Byte) (buffer : Str) (length : Nat) : Option Nat :=
  if streamType = 0x05 then
    (walk (entryStep privateDescriptor buffer) (length + 5) 5 0).map Prod.snd
  else some 0

/-- The length of the descriptors is what is returned. -/
def parseESInfo (buffer : Str) (channel : ChannelPids) (caPmt : CCaPmt) :
    Option (Nat × ChannelPids × CCaPmt) := do
  let streamType ← read buffer 0
  let b1 ← read buffer 1
  let b2 ← read buffer 2
  let b3 ← read buffer 3
  let length ← loopLength buffer 3
  let esInfo : CEsInfo :=
    { CCaTable.create (.ofNat 4 (b3.toNat >>> 4)) with
      streamType := .ofNat 8 streamType.toNat
      reserved1 := .ofNat 3 (b1.toNat >>> 5)
      elementaryPID := pidAt b1 b2 }
  let r ← walk (entryStep (esDescriptor streamType) buffer) (length + 5) 5
    ⟨esInfo, channel, false, false, [], 0xFF⟩
  let tmp ← takePrivates streamType buffer length
  let taken := takeStream streamType r.2 tmp
  pure (length, taken.1,
    if taken.2 then { caPmt with esInfo := caPmt.esInfo ++ [r.2.esInfo] } else caPmt)

/-! ## The section -/

def programDescriptor (buf : Str) (caPmt : CCaPmt) : Option CCaPmt := do
  let tag ← read buf 0
  if tag = 0x09 then
    let table ← addCaDescriptor caPmt.toCCaTable buf
    pure { caPmt with toCCaTable := table }
  else pure caPmt

def streamStep (buffer : Str) (i : Nat) (s : ChannelPids × CCaPmt) :
    Option (Nat × ChannelPids × CCaPmt) := do
  let (length, s) ← parseESInfo (buffer.drop i) s.1 s.2
  pure (i + (length + 5), s)

/-- A new version starts from nothing. -/
def forVersion (channel : ChannelPids) (version : BitVec 5) : ChannelPids :=
  match channel.caPmt with
  | none => channel
  | some old => if old.versionNumber = version then channel else channel.resetPids

def parsePmtSection (buffer : Str) (channel : ChannelPids) : Option ChannelPids := do
  let sectionLength ← loopLength buffer 1
  -- the section is written into a file
  let _pmt ← string buffer 0 (sectionLength + 3)
  let b3 ← read buffer 3
  let b4 ← read buffer 4
  let b5 ← read buffer 5
  let b8 ← read buffer 8
  let b9 ← read buffer 9
  let b10 ← read buffer 10
  let programInfoLength ← loopLength buffer 10
  let caPmt : CCaPmt :=
    { CCaTable.create (.ofNat 4 (b10.toNat >>> 4)) with
      caPmtListManagement := 0
      programNumber := .ofNat 16 (b3.toNat <<< 8 ||| b4.toNat)
      reserved1 := .ofNat 2 (b5.toNat >>> 6)
      versionNumber := .ofNat 5 (b5.toNat >>> 1)
      currentNextIndicator := .ofNat 1 b5.toNat
      esInfo := [] }
  let channel := { forVersion channel caPmt.versionNumber with pcrPid := pidAt b8 b9 }
  let program ← walk (entryStep programDescriptor buffer) (12 + programInfoLength) 12 caPmt
  let r ← walk (streamStep buffer) (sectionLength - 1) (12 + programInfoLength)
    (channel, program.2)
  pure { r.2.1 with caPmt := some r.2.2, pidsFlag := true, pidsUpdated := false }

/-- `none` for a filter that cannot be set or a read that fails. -/
def parsePmt (answer : Option Str) (buffer : Str) (channel : ChannelPids) :
    Option (Int × ChannelPids) :=
  if channel.pmtPid = 0 then some (-1, channel)
  else
    match answer with
    | none => some (-1, channel)
    | some sec => (parsePmtSection (fill buffer sec) channel).map fun channel => (0, channel)

/-! ## Sections that fit -/

/-- The fixed part is there, and the whole descriptor in the buffer. -/
@[mk_iff] structure CaFits (buf : Str) : Prop where
  fixed : 4 ≤ lengthAt buf 1
  complete : lengthAt buf 1 + 2 ≤ buf.length

@[mk_iff] structure EsDescriptorFits (streamType : Byte) (buf : Str) : Prop where
  registration : buf.getD 0 0 = 0x05 → 3 ≤ lengthAt buf 1 → CompareFits buf 2 (chars "DTS")
  ca : buf.getD 0 0 = 0x09 → CaFits buf
  language : buf.getD 0 0 = 0x0A → 5 ≤ buf.length
  identifier : buf.getD 0 0 = 0x52 → 3 ≤ buf.length
  teletext : buf.getD 0 0 = 0x56 → ∀ k < lengthAt buf 1 / 5, 5 * k + 7 ≤ buf.length
  subtitling : buf.getD 0 0 = 0x59 → streamType = 0x06 →
    ∀ k < lengthAt buf 1 / 8, 8 * k + 10 ≤ buf.length
  radio : buf.getD 0 0 = 0xC5 → 27 ≤ buf.length

@[mk_iff] structure PrivateFits (buf : Str) : Prop where
  specifier : buf.getD 0 0 = 0x5F → 6 ≤ buf.length
  premiere : buf.getD 0 0 = 0x90 → lengthAt buf 1 = 4 → CompareFits buf 2 [0, 0, 0xFF, 0xFF]

/-- The descriptors of a stream. -/
def esPlaces (buf : Str) : List Nat := places (nextEntry buf) (loopLengthAt buf 3 + 5) 5

@[mk_iff] structure EsFits (buf : Str) : Prop where
  header : 5 ≤ buf.length
  descriptors : ∀ d ∈ esPlaces buf,
    d + 1 < buf.length ∧ EsDescriptorFits (buf.getD 0 0) (buf.drop d)
  privates : buf.getD 0 0 = 0x05 → ∀ d ∈ esPlaces buf, PrivateFits (buf.drop d)

def nextStream (buf : Str) (p : Nat) : Nat := p + (loopLengthAt buf (p + 3) + 5)

@[mk_iff] structure PmtFits (buf : Str) : Prop where
  copied : loopLengthAt buf 1 + 3 ≤ buf.length
  program : ∀ d ∈ places (nextEntry buf) (12 + loopLengthAt buf 10) 12,
    d + 1 < buf.length ∧ (buf.getD d 0 = 0x09 → CaFits (buf.drop d))
  streams : ∀ p ∈ places (nextStream buf) (loopLengthAt buf 1 - 1) (12 + loopLengthAt buf 10),
    EsFits (buf.drop p)

/-! ## Descriptors -/

section
variable {buf : Str} {i n : Nat}

theorem string_some_iff (hpos : 0 < n) (hn : n < 2 ^ 31) :
    (∃ s, string buf i n = some s) ↔ i + n ≤ buf.length := by
  rw [string_isSome]
  omega

theorem addCaDescriptor_isSome {t : CCaTable} :
    (∃ t', addCaDescriptor t buf = some t') ↔ CaFits buf := by
  unfold addCaDescriptor
  rw [caFits_iff]
  split
  · rename_i h
    exact iff_of_true ⟨_, rfl⟩ h
  · rename_i h
    exact iff_of_false (fun ⟨_, h⟩ => nomatch h) h

theorem teletextField_isSome {pid : BitVec 13} {channel : ChannelPids} {k : Nat} :
    (∃ c, teletextField buf pid channel k = some c) ↔ 5 * k + 7 ≤ buf.length := by
  unfold teletextField
  rw [exists_bind_iff (P := 5 * k + 7 ≤ buf.length) fun code => ?_,
    string_some_iff (by decide) (by decide)]
  · omega
  · rw [exists_read, exists_bind_pure, read_isSome]
    omega

theorem subtitlingField_isSome {pid : BitVec 13} {channel : ChannelPids} {k : Nat} :
    (∃ c, subtitlingField buf pid channel k = some c) ↔ 8 * k + 10 ≤ buf.length := by
  unfold subtitlingField
  rw [exists_bind_iff (P := 8 * k + 10 ≤ buf.length) fun code => ?_,
    string_some_iff (by decide) (by decide)]
  · omega
  · rw [exists_read, exists_bind_iff fun _ => exists_bind_pure, Sectionsd.word_isSome,
      Sectionsd.word_isSome]
    omega

theorem esDescriptor_iff {streamType : Byte} {s : EsState} (h1 : 1 < buf.length) :
    (∃ s', esDescriptor streamType buf s = some s') ↔ EsDescriptorFits streamType buf := by
  unfold esDescriptor
  rw [exists_read, and_iff_right (by omega), exists_read, and_iff_right h1, esDescriptorFits_iff]
  have hlength : (buf.getD 1 0).toNat = lengthAt buf 1 := rfl
  rw [hlength]
  generalize buf.getD 0 0 = tag
  split_ifs with h05 hdts h09 h0a h52 h56 h59 hprivate h6a hc5
  · rw [exists_bind_pure, startsWith_isSome]
    simp [h05, hdts]
  · refine iff_of_true ⟨_, rfl⟩ ?_
    simp [h05, hdts]
  · rw [exists_bind_pure, addCaDescriptor_isSome]
    simp [h09]
  · rw [exists_bind_pure, string_some_iff (by decide) (by decide)]
    simp [h0a]
  · rw [exists_bind_pure, read_isSome]
    simp [h52, Nat.succ_le_iff]
  · rw [exists_bind_pure, foldlM_ends_iff (fun k => 5 * k + 7 ≤ buf.length)
      fun _ _ => teletextField_isSome]
    simp [h56]
  · rw [exists_bind_pure, foldlM_ends_iff (fun k => 8 * k + 10 ≤ buf.length)
      fun _ _ => subtitlingField_isSome]
    simp [h59, hprivate]
  · refine iff_of_true ⟨_, rfl⟩ ?_
    simp [h59, hprivate]
  · refine iff_of_true ⟨_, rfl⟩ ?_
    simp [h6a]
  · rw [exists_bind_pure, string_some_iff (by decide) (by decide)]
    simp [hc5]
  · refine iff_of_true ⟨_, rfl⟩ ?_
    simp [h05, h09, h0a, h52, h56, h59, hc5]

theorem privateDescriptor_iff {tmp : Nat} (h1 : 1 < buf.length) :
    (∃ tmp', privateDescriptor buf tmp = some tmp') ↔ PrivateFits buf := by
  unfold privateDescriptor
  rw [exists_read, and_iff_right (by omega), exists_read, and_iff_right h1, privateFits_iff]
  have hlength : (buf.getD 1 0).toNat = lengthAt buf 1 := rfl
  rw [hlength]
  generalize buf.getD 0 0 = tag
  split_ifs with h5f h90 h4
  · rw [exists_bind_pure, string_some_iff (by decide) (by decide)]
    simp [h5f]
  · rw [exists_bind_pure, startsWith_isSome]
    simp [h90, h4]
  · refine iff_of_true ⟨_, rfl⟩ ?_
    simp [h90, h4]
  · refine iff_of_true ⟨_, rfl⟩ ?_
    simp [h5f, h90]

theorem programDescriptor_iff {caPmt : CCaPmt} (h0 : 0 < buf.length) :
    (∃ c, programDescriptor buf caPmt = some c) ↔ (buf.getD 0 0 = 0x09 → CaFits buf) := by
  unfold programDescriptor
  rw [exists_read, and_iff_right h0]
  split
  · rename_i h09
    rw [exists_bind_pure, addCaDescriptor_isSome, forall_prop_of_true h09]
  · rename_i h09
    exact iff_of_true ⟨_, rfl⟩ fun h => absurd h h09

/-! ## Streams -/

variable {channel : ChannelPids} {caPmt : CCaPmt}

/-- The header of a stream can be read, and what comes behind it is as long as it says. -/
theorem parseESInfo_length {r : Nat × ChannelPids × CCaPmt}
    (h : parseESInfo buf channel caPmt = some r) : r.1 = loopLengthAt buf 3 := by
  unfold parseESInfo at h
  obtain ⟨-, h⟩ := read_bind.mp h
  obtain ⟨-, h⟩ := read_bind.mp h
  obtain ⟨-, h⟩ := read_bind.mp h
  obtain ⟨-, h⟩ := read_bind.mp h
  obtain ⟨length, hlength, h⟩ := Option.bind_eq_some_iff.mp h
  obtain ⟨q, -, h⟩ := Option.bind_eq_some_iff.mp h
  obtain ⟨tmp, -, h⟩ := Option.bind_eq_some_iff.mp h
  rw [loopLength_some (loopLength_isSome.mp ⟨length, hlength⟩)] at hlength
  rw [← Option.some_inj.mp h, Option.some_inj.mp hlength]

theorem takePrivates_iff (streamType : Byte) (length : Nat) :
    (∃ tmp, takePrivates streamType buf length = some tmp) ↔
      (streamType = 0x05 → ∀ d ∈ places (nextEntry buf) (length + 5) 5,
        d + 1 < buf.length ∧ PrivateFits (buf.drop d)) := by
  unfold takePrivates
  split
  · rename_i h5
    rw [forall_prop_of_true h5, ← Option.isSome_iff_exists, Option.isSome_map,
      Option.isSome_iff_exists, entries_end_iff (fun d => PrivateFits (buf.drop d))]
    intro d tmp hd
    refine privateDescriptor_iff ?_
    rw [List.length_drop]
    omega
  · rename_i h5
    exact iff_of_true ⟨_, rfl⟩ fun h => absurd h h5

/-- A stream can be read if and only if it fits. -/
theorem parseESInfo_iff : (∃ r, parseESInfo buf channel caPmt = some r) ↔ EsFits buf := by
  unfold parseESInfo
  rw [esFits_iff, exists_read, exists_read, exists_read, exists_read]
  rcases Nat.lt_or_ge 4 buf.length with h4 | hshort
  · have hlength : loopLength buf 3 = some (loopLengthAt buf 3) := loopLength_some h4
    have hprivates : ∀ q : Nat × EsState, (∃ r, (do
        let tmp ← takePrivates (buf.getD 0 0) buf (loopLengthAt buf 3)
        let taken := takeStream (buf.getD 0 0) q.2 tmp
        pure (loopLengthAt buf 3, taken.1,
          if taken.2 then { caPmt with esInfo := caPmt.esInfo ++ [q.2.esInfo] } else caPmt)) =
            some r) ↔ (buf.getD 0 0 = 0x05 →
              ∀ d ∈ esPlaces buf, d + 1 < buf.length ∧ PrivateFits (buf.drop d)) :=
      fun _ => exists_bind_pure.trans (takePrivates_iff _ _)
    rw [and_iff_right (by omega), and_iff_right (by omega), and_iff_right (by omega),
      and_iff_right (by omega), and_iff_right (by omega), bind_of_some hlength,
      exists_bind_iff hprivates,
      entries_end_iff (fun d => EsDescriptorFits (buf.getD 0 0) (buf.drop d))
        fun d s hd => esDescriptor_iff (by rw [List.length_drop]; omega)]
    refine and_congr_right fun hall => forall_congr' fun _ => forall₂_congr fun d hd => ?_
    exact and_iff_right (hall d hd).1
  · exact iff_of_false (fun h => by
      obtain ⟨n, hn, -⟩ := exists_bind.mp h.2.2.2.2
      have := loopLength_isSome.mp ⟨n, hn⟩
      omega) fun h => absurd h.1 (by omega)

/-! ## The section -/

theorem streamStep_eq {s : ChannelPids × CCaPmt} {p : Nat} {r : Nat × ChannelPids × CCaPmt}
    (h : streamStep buf p s = some r) : r.1 = nextStream buf p := by
  unfold streamStep at h
  obtain ⟨q, hq, h⟩ := Option.bind_eq_some_iff.mp h
  have hlength : q.1 = loopLengthAt buf (p + 3) :=
    (parseESInfo_length hq).trans (loopLengthAt_drop buf p 3)
  rw [← Option.some_inj.mp h, nextStream, ← hlength]

theorem streams_iff (stop pos : Nat) (s : ChannelPids × CCaPmt) :
    (∃ r, walk (streamStep buf) stop pos s = some r) ↔
      ∀ p ∈ places (nextStream buf) stop pos, EsFits (buf.drop p) := by
  refine walk_ends_iff_forall (fun p => ?_) (fun p s r _ h => streamStep_eq h) (fun p s _ => ?_)
    pos s
  · unfold nextStream
    omega
  · unfold streamStep
    rw [exists_bind_pure, parseESInfo_iff]

/-- A section can be taken if and only if it fits. -/
theorem parsePmtSection_iff (h12 : 12 ≤ buf.length) :
    (∃ c, parsePmtSection buf channel = some c) ↔ PmtFits buf := by
  have hlength : loopLength buf 1 = some (loopLengthAt buf 1) := loopLength_some (by omega)
  have hinfo : loopLength buf 10 = some (loopLengthAt buf 10) := loopLength_some (by omega)
  have hshort : loopLengthAt buf 1 + 3 < 2 ^ 31 := by
    have hhigh := (buf.getD 1 0 &&& 0x0F).toNat_lt
    have hlow := (buf.getD (1 + 1) 0).toNat_lt
    unfold loopLengthAt
    omega
  unfold parsePmtSection
  rw [pmtFits_iff, bind_of_some hlength, exists_bind_iff fun _ => ?_,
    string_some_iff (Nat.succ_pos _) hshort, Nat.zero_add]
  rw [exists_read, and_iff_right (by omega), exists_read, and_iff_right (by omega),
    exists_read, and_iff_right (by omega), exists_read, and_iff_right (by omega),
    exists_read, and_iff_right (by omega), exists_read, and_iff_right (by omega),
    bind_of_some hinfo]
  dsimp only
  rw [exists_bind_iff fun _ => exists_bind_pure.trans (streams_iff _ _ _),
    entries_end_iff (fun d => buf.getD d 0 = 0x09 → CaFits (buf.drop d)) fun d c hd => ?_]
  rw [programDescriptor_iff (by rw [List.length_drop]; omega), getD_drop, Nat.add_zero]

end

/-- The section that the demux delivers, if one is asked for and comes. -/
theorem parsePmt_iff {answer : Option Str} {buffer : Str} {channel : ChannelPids}
    (hbuf : buffer.length = 1024) : (∃ r, parsePmt answer buffer channel = some r) ↔
      (channel.pmtPid ≠ 0 → ∀ sec, answer = some sec → PmtFits (fill buffer sec)) := by
  unfold parsePmt
  split
  · rename_i hzero
    exact iff_of_true ⟨_, rfl⟩ fun h => absurd hzero h
  · rename_i hpid
    rw [forall_prop_of_true hpid]
    cases answer with
    | none => exact iff_of_true ⟨_, rfl⟩ fun sec h => nomatch h
    | some sec =>
      have h12 : 12 ≤ (fill buffer sec).length := by
        rw [fill_length, hbuf]
        decide
      rw [← Option.isSome_iff_exists, Option.isSome_map, Option.isSome_iff_exists,
        parsePmtSection_iff h12]
      simp

end Tuxbox.Zapit
