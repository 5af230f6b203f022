import Tuxbox.Enigma.MhwPut

/-!
# Titles become sections without loss
-/

namespace Tuxbox.Enigma.Mhw

open Buffer
open Epg (HILO)

section
/-! ## The headers -/

theorem region_putFields {base lo hi : Nat} {fields : List Field}
    (h : ∀ f ∈ fields, lo ≤ base + f.offset ∧ base + f.offset < hi) :
    Region lo hi (putFields base fields) := by
  apply Region.foldlM
  intro f hf
  obtain ⟨hlo, hhi⟩ := h f hf
  exact region_writeBits f.mask f.value hlo hhi

theorem region_packetFields (channel : MhwChannel) :
    Region 0 26 (putFields 0 (packetFields channel)) := by
  apply region_putFields
  intro f hf
  refine ⟨Nat.zero_le _, ?_⟩
  revert f
  simp [packetFields]

theorem region_eventFields (clock : Clock) (title_id : Nat) (t : MhwTitle) :
    Region 0 26 (putFields EIT_SIZE (eventFields clock title_id t)) := by
  apply region_putFields
  intro f hf
  refine ⟨Nat.zero_le _, ?_⟩
  have hsize : EIT_SIZE = 14 := rfl
  have hstart : (timeMHW2DVB clock t.day t.hours t.minutes).length = 5 := rfl
  have hduration : (durationMHW2DVB (HILO t.duration_hi t.duration_lo)).length = 3 := rfl
  unfold eventFields at hf
  simp only [List.mem_append, List.mem_mapIdx, hstart, hduration] at hf
  rcases hf with ((hid | ⟨i, hi, rfl⟩) | ⟨i, hi, rfl⟩) | hflags
  · rcases List.mem_cons.mp hid with rfl | hid
    · exact Nat.lt_of_sub_eq_succ rfl
    · rw [List.mem_singleton.mp hid]
      exact Nat.lt_of_sub_eq_succ rfl
  · simp only [hsize]
    omega
  · simp only [hsize]
    omega
  · rcases List.mem_cons.mp hflags with rfl | hflags
    · decide
    · rw [List.mem_singleton.mp hflags]
      decide

/-! ## Lengths of twelve bits -/

theorem region_putLength (i length : Nat) :
    Region i (i + 2) fun data => putLength data i length := by
  apply Region.bind
  · exact region_writeBits _ _ (Nat.le_refl _) (by omega)
  · exact region_write _ (by omega) (by omega)

/-- The high four bits and the low eight. -/
theorem toNat_putLength (length : Nat) :
    HILO (UInt8.ofNat ((length &&& 0xf00) >>> 8) &&& 0xF) (UInt8.ofNat (length &&& 0xff)) =
      length % 4096 := by
  have hlow : length &&& 0xff = length % 256 := Nat.and_two_pow_sub_one_eq_mod length 8
  have hhigh : (length &&& 0xf00) >>> 8 = length / 256 % 16 := by
    rw [Nat.shiftRight_and_distrib, Nat.shiftRight_eq_div_pow]
    exact Nat.and_two_pow_sub_one_eq_mod (length / 256) 4
  have hmask : length / 256 % 16 &&& (15 : Byte).toNat = length / 256 % 16 % 16 :=
    Nat.and_two_pow_sub_one_eq_mod _ 4
  rw [HILO, hlow, hhigh, UInt8.toNat_and,
    UInt8.toNat_ofNat_of_lt' (show length % 256 < 256 by omega),
    UInt8.toNat_ofNat_of_lt' (show length / 256 % 16 < 256 by omega), hmask]
  omega

theorem lengthField_putLength {data data' : Str} {i length : Nat} (hlen : length < 4096)
    (h : putLength data i length = some data') : lengthField data' i = length := by
  obtain ⟨data₁, h₁, h₂⟩ := Option.bind_eq_some_iff.mp h
  obtain ⟨old, -, h₁⟩ := Option.bind_eq_some_iff.mp h₁
  have hhigh := write_getD h₂ i
  have hlow := write_getD h₂ (i + 1)
  rw [if_neg (Nat.ne_of_lt (Nat.lt_succ_self i)), write_getD h₁, if_pos rfl] at hhigh
  rw [if_pos rfl] at hlow
  rw [lengthField, hhigh, hlow, masked_and, toNat_putLength, Nat.mod_eq_of_lt hlen]

theorem lengthField_congr {data data' : Str} {i : Nat} (h : data'.drop i = data.drop i) :
    lengthField data' i = lengthField data i := by
  have hget (k : Nat) : data'.getD (i + k) 0 = data.getD (i + k) 0 := by
    rw [← getD_drop, ← getD_drop, h]
  rw [lengthField, lengthField, hget 1]
  have hzero := hget 0
  rw [Nat.add_zero] at hzero
  rw [hzero]

/-! ## The section of a title -/

variable {clock : Clock} {channels : List MhwChannel} {themes : Byte → Str} {title_id : Nat}
  {t : MhwTitle} {sumText data packet : Str}

/-- The name as it comes into the section. -/
def progTitle (t : MhwTitle) : Str := cString (delimitName t.title)

theorem length_delimitName (t : MhwTitle) : (delimitName t.title).length ≤ 23 :=
  t.title_length ▸ (List.rdropWhile_prefix _ _).length_le

theorem length_progTitle (t : MhwTitle) : (progTitle t).length ≤ 23 :=
  Nat.le_trans (List.takeWhile_prefix _).length_le (length_delimitName t)

/-- The descriptors of the title. -/
def descriptorBytes (themes : Byte → Str) (t : MhwTitle) (sumText : Str) : Str :=
  (descriptorsOf (progTitle t) sumText (length_progTitle t) (contentId (themes t.theme_id))).flatMap
    EventDescriptor.encode

theorem length_descriptorBytes (themes : Byte → Str) (t : MhwTitle) (sumText : Str) :
    26 + (descriptorBytes themes t sumText).length =
    sectionSize (progTitle t).length sumText.length :=
  length_descriptorsOf sumText (length_progTitle t) _

/-- The headers, the descriptors, and the two lengths in the headers. -/
theorem storeTitle_eq_some :
    storeTitle clock channels themes title_id t sumText data = some packet ↔
      ∃ channel, channelOf channels t.channel_id = some channel ∧ ∃ data₁,
        ((putFields 0 (packetFields channel) data).bind
          (putFields EIT_SIZE (eventFields clock title_id t))) = some data₁ ∧ ∃ p : Packet,
        Packet.put ⟨data₁, 26, 0⟩ (descriptorBytes themes t sumText) = some p ∧ ∃ data₂,
          putLength p.data 24 p.descr_ll = some data₂ ∧
            putLength data₂ 1 (p.packet_length - 3) = some packet := by
  have hloop : EIT_SIZE + 10 = 24 := rfl
  unfold storeTitle descriptorBytes
  simp only [← putDescriptors_eq, Option.bind_eq_bind, Option.bind_eq_some_iff, hloop, progTitle]
  constructor
  · rintro ⟨channel, hchannel, a, ha, b, hb, p, hp, q, hq, r, hr, s, hs, hend⟩
    exact ⟨channel, hchannel, b, ⟨a, ha, hb⟩, r, ⟨q, ⟨p, hp, hq⟩, hr⟩, s, hs, hend⟩
  · rintro ⟨channel, hchannel, b, ⟨a, ha, hb⟩, r, ⟨q, ⟨p, hp, hq⟩, hr⟩, s, hs, hend⟩
    exact ⟨channel, hchannel, a, ha, b, hb, p, hp, q, hq, r, hr, s, hs, hend⟩

theorem region_heads (channel : MhwChannel) (clock : Clock) (title_id : Nat) (t : MhwTitle) :
    Region 0 26 fun data => (putFields 0 (packetFields channel) data).bind
      (putFields EIT_SIZE (eventFields clock title_id t)) :=
  (region_packetFields channel).bind (region_eventFields clock title_id t)

theorem descriptorBytes_ne_nil : descriptorBytes themes t sumText ≠ [] := by
  intro h
  have hlen := length_descriptorBytes themes t sumText
  rw [h, List.length_nil] at hlen
  unfold sectionSize at hlen
  split at hlen <;> omega

/-- When there is a section. -/
theorem storeTitle_isSome :
    (∃ packet, storeTitle clock channels themes title_id t sumText data = some packet) ↔
      (∃ channel, channelOf channels t.channel_id = some channel) ∧
        sectionSize (progTitle t).length sumText.length ≤ data.length := by
  have hsize := length_descriptorBytes themes t sumText
  constructor
  · rintro ⟨packet, h⟩
    obtain ⟨channel, hchannel, data₁, hheads, p, hp, -⟩ := storeTitle_eq_some.mp h
    have hlen := ((region_heads channel clock title_id t).keeps hheads).1
    have hfit : 26 + (descriptorBytes themes t sumText).length ≤ data₁.length :=
      (Packet.put_isSome descriptorBytes_ne_nil).mp ⟨p, hp⟩
    exact ⟨⟨channel, hchannel⟩, by omega⟩
  · rintro ⟨⟨channel, hchannel⟩, hfit⟩
    have hheader : 26 ≤ data.length := by omega
    obtain ⟨data₁, hheads⟩ := (region_heads channel clock title_id t).defined hheader
    have hlen := ((region_heads channel clock title_id t).keeps hheads).1
    have hfit₁ : 26 + (descriptorBytes themes t sumText).length ≤ data₁.length := by omega
    obtain ⟨p, hp⟩ := (Packet.put_isSome (p := ⟨data₁, 26, 0⟩) descriptorBytes_ne_nil).mpr hfit₁
    have hplen : p.data.length = data₁.length := by
      obtain ⟨data₂, hdata, hq⟩ := Option.bind_eq_some_iff.mp hp
      rw [← Option.some_inj.mp hq]
      exact (writeAll_keeps hdata descriptorBytes_ne_nil).1
    obtain ⟨data₂, h₂⟩ := (region_putLength 24 p.descr_ll).defined
      (show 24 + 2 ≤ p.data.length by omega)
    have hlen₂ := ((region_putLength 24 p.descr_ll).keeps h₂).1
    obtain ⟨packet, h₃⟩ := (region_putLength 1 (p.packet_length - 3)).defined
      (show 1 + 2 ≤ data₂.length by omega)
    exact ⟨packet, storeTitle_eq_some.mpr ⟨channel, hchannel, data₁, hheads, p, hp, data₂, h₂, h₃⟩⟩

/-- What is to be found. -/
def programmeOf (name summary : Str) : Programme :=
  if name.length + summary.length ≤ 250 then ⟨name, summary, []⟩
  else ⟨name, [], (List.range (summary.length / 247 + 1)).map (piece summary)⟩

theorem programme_descriptorsOf {name summary : Str} (hname : name.length ≤ 23)
    (hsize : sectionSize name.length summary.length ≤ 4098) (c : Byte) :
    programme ((descriptorsOf name summary hname c).map entry) =
      some (programmeOf name summary) := by
  unfold sectionSize at hsize
  unfold descriptorsOf programmeOf
  split
  · rename_i h
    exact programme_short h c
  · rename_i h
    rw [if_neg h] at hsize
    exact programme_extended _ (by omega) c

theorem decode_storeTitle (hbuf : data.length ≤ 4098)
    (h : storeTitle clock channels themes title_id t sumText data = some packet) :
    decode packet = some (programmeOf (progTitle t) sumText) := by
  have hsize := length_descriptorBytes themes t sumText
  have hfit := (storeTitle_isSome.mp ⟨packet, h⟩).2
  obtain ⟨channel, -, data₁, hheads, p, hp, data₂, h₂, h₃⟩ := storeTitle_eq_some.mp h
  have hlen := ((region_heads channel clock title_id t).keeps hheads).1
  obtain ⟨head, rest, rfl, hhead⟩ : ∃ head rest, data₁ = head ++ rest ∧ head.length = 26 :=
    ⟨data₁.take 26, data₁.drop 26, (List.take_append_drop _ _).symm, by
      rw [List.length_take]
      omega⟩
  rw [List.length_append] at hlen
  have hrest : (descriptorBytes themes t sumText).length ≤ rest.length := by omega
  rw [Packet.put_at rfl hhead.symm hrest] at hp
  have hp := Option.some_inj.mp hp
  obtain ⟨hlen₂, -, hdrop₂⟩ := (region_putLength 24 p.descr_ll).keeps h₂
  obtain ⟨hlen₃, -, hdrop₃⟩ := (region_putLength 1 (p.packet_length - 3)).keeps h₃
  have hskip (k : Nat) : packet.drop (3 + k) = data₂.drop (3 + k) := by
    have h3 := congrArg (List.drop k) hdrop₃
    rwa [List.drop_drop, List.drop_drop] at h3
  -- behind the headers nothing is changed
  have hbehind : packet.drop 26 = descriptorBytes themes t sumText ++
      rest.drop (descriptorBytes themes t sumText).length := by
    have hp' : p.data.drop 26 = descriptorBytes themes t sumText ++
        rest.drop (descriptorBytes themes t sumText).length := by
      rw [← hp]
      simp only [List.append_assoc]
      rw [← hhead, List.drop_left]
    rw [← hp']
    exact (hskip 23).trans hdrop₂
  have hdata : packet = packet.take 26 ++ descriptorBytes themes t sumText ++
      rest.drop (descriptorBytes themes t sumText).length := by
    rw [List.append_assoc, ← hbehind, List.take_append_drop]
  have hplace : p.packet_length = 26 + (descriptorBytes themes t sumText).length := by rw [← hp]
  have hloop : p.descr_ll = (descriptorBytes themes t sumText).length := by
    rw [← hp]
    exact Nat.zero_add _
  have hplen : p.data.length = head.length + rest.length := by
    rw [← hp]
    simp only [List.length_append, List.length_drop, hhead]
    omega
  apply decode_section _ hdata
  · rw [lengthField_putLength (by omega) h₃, hplace, descriptorBytes]
    omega
  · rw [lengthField_congr (hskip 21), lengthField_putLength (by omega) h₂, hloop, descriptorBytes]
  · exact programme_descriptorsOf (length_progTitle t) (by omega) _
  · rw [List.length_take]
    omega

/-- The buffer of a section has 4098 bytes, and that of a title without a summary has 65. -/
theorem title_kept_iff (hbuf : data.length ≤ 4098) :
    (∃ packet, storeTitle clock channels themes title_id t sumText data = some packet ∧
        Carries packet (t.title.rdropWhile fun c => c = 0x20) sumText) ↔
      (∃ channel, channelOf channels t.channel_id = some channel) ∧
        (0 : Byte) ∉ t.title.rdropWhile (fun c => c = 0x20) ∧
        sectionSize (t.title.rdropWhile fun c => c = 0x20).length sumText.length ≤
          data.length := by
  have hname : t.title.rdropWhile (fun c => c = 0x20) = delimitName t.title := rfl
  have hcut : progTitle t = delimitName t.title ↔ (0 : Byte) ∉ delimitName t.title := by
    rw [progTitle, cString, List.takeWhile_eq_self_iff]
    constructor
    · intro h h0
      simpa using h 0 h0
    · intro h c hc
      rw [decide_eq_true_eq]
      rintro rfl
      exact h hc
  rw [hname]
  constructor
  · rintro ⟨packet, h, p, hp, hpname, -⟩
    obtain ⟨hchannel, hfit⟩ := storeTitle_isSome.mp ⟨packet, h⟩
    have htitle : progTitle t = delimitName t.title := by
      rw [decode_storeTitle hbuf h] at hp
      rw [← hpname, ← Option.some_inj.mp hp, programmeOf]
      split <;> rfl
    exact ⟨hchannel, hcut.mp htitle, htitle ▸ hfit⟩
  · rintro ⟨hchannel, hzero, hfit⟩
    have htitle := hcut.mpr hzero
    obtain ⟨packet, h⟩ : ∃ packet,
        storeTitle clock channels themes title_id t sumText data = some packet :=
      storeTitle_isSome.mpr ⟨hchannel, by rwa [htitle]⟩
    refine ⟨packet, h, _, decode_storeTitle hbuf h, ?_⟩
    rw [htitle, programmeOf]
    split
    · exact ⟨rfl, .inl ⟨rfl, rfl⟩⟩
    · refine ⟨rfl, .inr ⟨rfl, ?_⟩⟩
      rw [flatten_pieces, List.take_of_length_le (by omega)]

/-- A film of the first channel. -/
def titleA : MhwTitle where
  channel_id := 1
  theme_id := 0
  day := 1
  hours := 20
  minutes := 15
  duration_hi := 0
  duration_lo := 90
  title := 65 :: List.replicate 22 0x20
  title_length := rfl

def clockA : Clock := ⟨0, fun _ => ⟨0, 1, 0, 70, 4⟩, fun _ => ⟨0, 1, 0, 70, 4⟩⟩

theorem summary_kept :
    ∃ packet, storeTitle clockA [⟨0, 1, 0, 2, 0, 3⟩] (fun _ => chars "FILM") 5 titleA
      (List.replicate 300 0x78) (List.replicate 4098 0) = some packet ∧
      Carries packet (titleA.title.rdropWhile fun c => c = 0x20) (List.replicate 300 0x78) :=
  (title_kept_iff (Nat.le_of_eq List.length_replicate)).mpr ⟨⟨_, rfl⟩, by decide, by
    rw [List.length_replicate, List.length_replicate]
    decide⟩

/-- A summary of 4000 bytes, which fits the buffer it came in. -/
theorem long_summary_lost :
    ¬ ∃ packet, storeTitle clockA [⟨0, 1, 0, 2, 0, 3⟩] (fun _ => chars "FILM") 5 titleA
      (List.replicate 4000 0x78) (List.replicate 4098 0) = some packet ∧
      Carries packet (titleA.title.rdropWhile fun c => c = 0x20) (List.replicate 4000 0x78) := by
  rintro ⟨packet, h, -⟩
  have hfit := (storeTitle_isSome.mp ⟨packet, h⟩).2
  rw [List.length_replicate, List.length_replicate] at hfit
  revert hfit
  decide

end

end Tuxbox.Enigma.Mhw
