import Mathlib.Data.List.DropRight
import Mathlib.Data.List.Infix
import Tuxbox.Enigma.EpgMaps
import Tuxbox.Lib.Fill

/-!
# Titles of the MHW tables

A title of the MHW tables and the summary that belongs to it become an EIT section with one
event, which is made in a buffer of the caller.
-/

namespace Tuxbox.Enigma.Mhw

open Buffer
open Epg (HILO)

structure MhwChannel where
  network_id_hi : Byte
  network_id_lo : Byte
  transport_stream_id_hi : Byte
  transport_stream_id_lo : Byte
  channel_id_hi : Byte
  channel_id_lo : Byte

/-- `mhw_title_t`, as far as it is used. -/
structure MhwTitle where
  channel_id : Byte
  theme_id : Byte
  day : Byte
  hours : Byte
  minutes : Byte
  duration_hi : Byte
  duration_lo : Byte
  title : Str
  title_length : title.length = 23

/-- The name that `out` holds before its terminator. -/
def delimitName (name : Str) : Str := name.rdropWhile fun c => c = 0x20

/-! ## Times -/

def toBCD (dec : Nat) : Byte :=
  if dec ≥ 100 then 0xFF else UInt8.ofNat (dec / 10 * 0x10 + dec % 10)

structure Tm where
  tm_hour : Nat
  tm_mday : Int
  tm_mon : Int
  tm_year : Int
  tm_wday : Int

/-- The time, and its date in central Europe and in Greenwich. -/
structure Clock where
  now : Int
  localtime : Int → Tm
  gmtime : Int → Tm

def timeOfDay (hours minutes : Byte) : Str := [toBCD hours.toNat, toBCD minutes.toNat, 0]

/-- A number of minutes. The hours are passed on in a byte. -/
def durationMHW2DVB (minutes : Nat) : Str :=
  timeOfDay (UInt8.ofNat (minutes / 60)) (UInt8.ofNat (minutes % 60))

/-- Date and time of day. The quotients are those of the `double` formulas. -/
def timeMHW2DVB (clock : Clock) (day hours minutes : Byte) : Str :=
  let local_hours := if hours ≥ 16 then hours - 4 else if hours ≥ 8 then hours - 2 else hours
  let localnow := clock.localtime clock.now
  let day := if day = 7 then 0 else day
  -- days that are over are those of the next week
  let day := if (day.toNat + 1 : Int) < localnow.tm_wday then day + 7 else day
  let day := if local_hours ≤ 5 then day + 1 else day
  let dt := clock.now + 3600 * 24 * (day.toNat - localnow.tm_wday)
  let dt := dt + 3600 * (local_hours.toNat - localnow.tm_hour)
  let recdate := clock.gmtime dt
  let l : Int := if recdate.tm_mon ≤ 1 then 1 else 0
  let mjd := 14956 + recdate.tm_mday + Int.tdiv ((recdate.tm_year - l) * 36525) 100 +
    Int.tdiv ((recdate.tm_mon + 2 + l * 12) * 306001) 10000
  [UInt8.ofInt (mjd / 256), UInt8.ofInt mjd] ++ timeOfDay (UInt8.ofNat recdate.tm_hour) minutes

/-! ## The fields of the headers -/

/-- Some bits of a byte, and what is stored in them. -/
structure Field where
  offset : Nat
  mask : Byte
  value : Byte

def putFields (base : Nat) (fields : List Field) (data : Str) : Option Str :=
  fields.foldlM (fun data f => writeBits data (base + f.offset) f.mask f.value) data

def EIT_SIZE : Nat := 14
def EIT_LOOP_SIZE : Nat := 12
def EIT_SHORT_EVENT_DESCRIPTOR : Byte := 0x4d
def EIT_SHORT_EVENT_DESCRIPTOR_SIZE : Nat := 6
def EIT_EXTENDED_EVENT_DESCRIPOR : Byte := 0x4e

/-- `eit_t`. The length of the section comes last, the reserved bits are left. -/
def packetFields (channel : MhwChannel) : List Field :=
  [⟨0, 0xFF, 0x50⟩, ⟨1, 0x80, 0x80⟩,
    ⟨3, 0xFF, channel.channel_id_hi⟩, ⟨4, 0xFF, channel.channel_id_lo⟩,
    ⟨5, 0x3E, 0⟩, ⟨5, 0x01, 0⟩, ⟨6, 0xFF, 0⟩, ⟨7, 0xFF, 0⟩,
    ⟨8, 0xFF, channel.transport_stream_id_hi⟩, ⟨9, 0xFF, channel.transport_stream_id_lo⟩,
    ⟨10, 0xFF, channel.network_id_hi⟩, ⟨11, 0xFF, channel.network_id_lo⟩,
    ⟨12, 0xFF, 0⟩, ⟨13, 0xFF, 0x50⟩]

/-- `eit_event_t`, up to the length of its descriptors. -/
def eventFields (clock : Clock) (title_id : Nat) (t : MhwTitle) : List Field :=
  let start_time := timeMHW2DVB clock t.day t.hours t.minutes
  let duration := durationMHW2DVB (HILO t.duration_hi t.duration_lo)
  [⟨0, 0xFF, UInt8.ofNat (title_id / 256)⟩, ⟨1, 0xFF, UInt8.ofNat title_id⟩] ++
    start_time.mapIdx (fun i b => ⟨2 + i, 0xFF, b⟩) ++
    duration.mapIdx (fun i b => ⟨7 + i, 0xFF, b⟩) ++ [⟨10, 0xE0, 0⟩, ⟨10, 0x10, 0⟩]

/-! ## The section -/

/-- The section as far as it is made, and the lengths that are kept with it. -/
structure Packet where
  data : Str
  packet_length : Nat
  descr_ll : Nat

/-- The short event descriptor, without a text. -/
def putShort (prog_title data : Str) : Option Packet := do
  let prog_title_length := prog_title.length
  let data ← writeAll data (EIT_SIZE + EIT_LOOP_SIZE)
    ([EIT_SHORT_EVENT_DESCRIPTOR,
      UInt8.ofNat (EIT_SHORT_EVENT_DESCRIPTOR_SIZE + prog_title_length - 1)] ++
      chars "eng" ++ [UInt8.ofNat prog_title_length] ++ prog_title ++ [0])
  pure ⟨data, EIT_SIZE + EIT_LOOP_SIZE + EIT_SHORT_EVENT_DESCRIPTOR_SIZE + prog_title_length + 1,
    EIT_SHORT_EVENT_DESCRIPTOR_SIZE + 1 + prog_title_length⟩

/-- The text of the short event descriptor, which is in place. -/
def putText (prog_title_length : Nat) (sumText : Str) (p : Packet) : Option Packet := do
  let short_event_descriptor := EIT_SIZE + EIT_LOOP_SIZE
  let event_name := short_event_descriptor + EIT_SHORT_EVENT_DESCRIPTOR_SIZE
  let sum_length := sumText.length
  let data ← write p.data (event_name + prog_title_length) (UInt8.ofNat sum_length)
  let descriptor_length ← read data (short_event_descriptor + 1)
  let data ← write data (short_event_descriptor + 1) (descriptor_length + UInt8.ofNat sum_length)
  let data ← writeAll data (event_name + prog_title_length + 1) sumText
  pure ⟨data, p.packet_length + sum_length, p.descr_ll + sum_length⟩

/-- One extended event descriptor, and how much of the summary is left. -/
def extendedStep (sumText : Str) (nbr_descr : Nat) (x : Packet × Nat) (i : Nat) :
    Option (Packet × Nat) := do
  let (p, remaining_sum_length) := x
  let sum_length := if remaining_sum_length > 247 then 247 else remaining_sum_length
  let remaining_sum_length := remaining_sum_length - sum_length
  let text := (sumText.drop (sumText.length - sum_length - remaining_sum_length)).take sum_length
  -- the numbers of the descriptors have four bits each
  let data ← writeAll p.data p.packet_length
    ([EIT_EXTENDED_EVENT_DESCRIPOR, UInt8.ofNat (sum_length + 6),
      UInt8.ofNat (i % 16 * 16 + (nbr_descr - 1) % 16)] ++ chars "eng" ++
      [0, UInt8.ofNat sum_length] ++ text)
  pure (⟨data, p.packet_length + (8 + sum_length), p.descr_ll + (8 + sum_length)⟩,
    remaining_sum_length)

def putExtended (sumText : Str) (p : Packet) : Option Packet := do
  let nbr_descr := sumText.length / 247 + 1
  let (p, _) ← (List.range nbr_descr).foldlM (extendedStep sumText nbr_descr) (p, sumText.length)
  pure p

/-- The length of the short event descriptor decides where the summary comes. -/
def putSummary (prog_title_length : Nat) (sumText : Str) (p : Packet) : Option Packet :=
  if sumText.length > 0 then
    if sumText.length + (EIT_SHORT_EVENT_DESCRIPTOR_SIZE + prog_title_length - 1) ≤ 0xff then
      putText prog_title_length sumText p
    else putExtended sumText p
  else some p

def contentId (theme : Str) : Byte :=
  let content_descr := cString (delimitName theme)
  if chars "FILM" <:+: content_descr then 0x10
  else if chars "SPORT" <:+: content_descr then 0x40
  else 0

def putContent (content_id : Byte) (p : Packet) : Option Packet := do
  let data ← writeAll p.data p.packet_length [0x54, 2, content_id, 0]
  pure ⟨data, p.packet_length + 4, p.descr_ll + 4⟩

/-- A length of twelve bits in two bytes. -/
def putLength (data : Str) (i length : Nat) : Option Str := do
  let data ← writeBits data i 0x0F (UInt8.ofNat ((length &&& 0xf00) >>> 8))
  write data (i + 1) (UInt8.ofNat (length &&& 0xff))

/-- The channels are numbered from one. -/
def channelOf (channels : List MhwChannel) (channel_id : Byte) : Option MhwChannel :=
  if channel_id = 0 then none else channels[channel_id.toNat - 1]?

/-- The section of a title. There is none where it does not fit the buffer, or the channel of the
title is not known. -/
def storeTitle (clock : Clock) (channels : List MhwChannel) (themes : Byte → Str)
    (title_id : Nat) (t : MhwTitle) (sumText data : Str) : Option Str := do
  let channel ← channelOf channels t.channel_id
  let prog_title := cString (delimitName t.title)
  let data ← putFields 0 (packetFields channel) data
  let data ← putFields EIT_SIZE (eventFields clock title_id t) data
  let p ← putShort prog_title data
  let p ← putSummary prog_title.length sumText p
  let p ← putContent (contentId (themes t.theme_id)) p
  let data ← putLength p.data (EIT_SIZE + 10) p.descr_ll
  putLength data 1 (p.packet_length - 3)

end Tuxbox.Enigma.Mhw
