import Tuxbox.Lib.Bytes
import Tuxbox.Lib.Pieces

/-!
# Parsers of transport streams

`eMPEGStreamParserTS` and `eTimeStampParserTS` of enigma are given a stream piece by
piece, and carry what is cut. Their `parseData` differ in the search for the sync
byte; `processPacket` looks for the begin of a sequence, or for a time. `none` is the
result of a read behind the bytes that were given, or behind the stored packet.
-/

namespace Tuxbox.Enigma

/-- 188 bytes that begin with the sync byte. -/
structure TsPacket where
  bytes : List Byte
  length : bytes.length = 188
  sync : bytes.head? = some 0x47

def stream (packets : List TsPacket) : List Byte := (packets.map (·.bytes)).flatten

/-- `pkt` as far as it is filled; `pktptr` counts its bytes, or those to skip if it is
negative. `seen` is what was found. -/
structure TsParser (σ : Type) where
  pkt : List Byte
  pktptr : Int
  needNextPacket : Bool
  seen : σ

/-- `read` is what `processPacket` finds in the bytes from a packet's first one on,
`note` what it does with it, for a packet at an offset. -/
structure TsReader (β σ : Type) where
  resync : Bool
  pid : Int
  read : List Byte → Option β
  note : σ → Nat → List Byte → β → σ

def wantPacket (pid : Int) (needNextPacket : Bool) : List Byte → Bool
  | h0 :: h1 :: h2 :: _ =>
    if h0 ≠ 0x47 then false
    else if (((h1 &&& 0x1F).toNat <<< 8 ||| h2.toNat : Nat) : Int) ≠ pid then false
    else needNextPacket || h1 &&& 0x40 ≠ 0
  | _ => false

/-- `memcpy(pkt + pktptr, packet, storelen); pktptr += storelen` -/
def TsParser.store {σ : Type} (p : TsParser σ) (bs : List Byte) : TsParser σ :=
  { p with pkt := p.pkt.take p.pktptr.toNat ++ bs, pktptr := p.pktptr + bs.length }

namespace TsReader

section
variable {β σ : Type} (a : TsReader β σ)

/-- It returns 0 always. -/
def processPacket (p : TsParser σ) (pos : Nat) (bs : List Byte) : Option (TsParser σ) :=
  (a.read bs).map fun r => { p with needNextPacket := false, seen := a.note p.seen pos bs r }

/-- The stored packet is completed, as far as there are bytes. -/
def complete (p : TsParser σ) (pos : Nat) (rest : List Byte) : Option (TsParser σ × Nat) :=
  let storelen := min (188 - p.pktptr).toNat rest.length
  let p := p.store (rest.take storelen)
  if p.pktptr = 188 then
    (a.processPacket p (pos + storelen) p.pkt).map fun p => ({ p with pktptr := 0 }, storelen)
  else some (p, storelen)

/-- One turn of the loop, and by how much `packet` advances. -/
def turn (p : TsParser σ) (pos : Nat) (rest : List Byte) : Option (TsParser σ × Nat) :=
  if p.pktptr < 0 then
    let skiplen := min (-p.pktptr).toNat rest.length
    some ({ p with pktptr := p.pktptr + skiplen }, skiplen)
  else if p.pktptr ≠ 0 then
    if p.pktptr < 4 then
      let storelen := min (4 - p.pktptr).toNat rest.length
      let p := p.store (rest.take storelen)
      if p.pktptr = 4 ∧ wantPacket a.pid p.needNextPacket p.pkt = false then
        -- `len -= 184` wraps around, and what is behind the bytes is read next
        if rest.length < storelen + 184 then none
        else some ({ p with pktptr := 0 }, storelen + 184)
      else
        (a.complete p (pos + storelen) (rest.drop storelen)).map fun r => (r.1, storelen + r.2)
    else a.complete p pos rest
  else if 4 ≤ rest.length then
    let taken :=
      if wantPacket a.pid p.needNextPacket rest then
        if 188 ≤ rest.length then a.processPacket p pos rest
        else some { p with pkt := rest, pktptr := rest.length }
      else some p
    -- `int sk = len`
    let sk := (rest.length : Int).bmod (2 ^ 32)
    taken.map fun p =>
      if 188 ≤ sk then (p, 188)
      else if p.pktptr = 0 then ({ p with pktptr := sk - 188 }, rest.length)
      else (p, rest.length)
  else some ({ p with pkt := rest, pktptr := rest.length }, rest.length)

/-- Bytes that are skipped before a sync byte. -/
def unsynced (p : TsParser σ) (rest : List Byte) : Nat :=
  if a.resync ∧ p.pktptr = 0 then (rest.takeWhile (· ≠ 0x47)).length else 0

/-- `fuel` bounds the turns; every one of them takes a byte at least. -/
def parseLoop : Nat → TsParser σ → Nat → List Byte → Option (TsParser σ)
  | _, p, _, [] => some p
  | 0, _, _, _ :: _ => none
  | fuel + 1, p, pos, b :: bs =>
    let n := a.unsynced p (b :: bs)
    match (b :: bs).drop n with
    | [] => some p
    | rest => (a.turn p (pos + n) rest).bind fun r =>
      parseLoop fuel r.1 (pos + n + r.2) (rest.drop r.2)

/-- Of `type` 1 or 2; type 0 sets the parser back before. -/
def parseData (p : TsParser σ) (offset : Nat) (data : List Byte) : Option (TsParser σ) :=
  a.parseLoop data.length p offset data

/-- `parseData` for one piece after the other. -/
def feed (p : TsParser σ) (offset : Nat) : List (List Byte) → Option (TsParser σ)
  | [] => some p
  | d :: ds => (a.parseData p offset d).bind fun p => feed p (offset + d.length) ds

end

end TsReader

/-! ## The packets -/

/-- The place of the payload, if there is one. -/
def payload (bs : List Byte) : Option (Option Nat) :=
  bs[3]?.bind fun b3 =>
    if b3 &&& 0x10 = 0 then some none
    else if b3 &&& 0x20 ≠ 0 then
      bs[4]?.map fun b4 => if b4.toNat + 4 + 1 > 188 then none else some (b4.toNat + 4 + 1)
    else some (some 4)

/-- `!(pkt[0] || pkt[1] || pkt[2] != 1)` -/
def startcode (bs : List Byte) (i : Nat) : Option Bool :=
  bs[i]?.bind fun b0 =>
    if b0 ≠ 0 then some false
    else bs[i + 1]?.bind fun b1 =>
      if b1 ≠ 0 then some false else bs[i + 2]?.map fun b2 => b2 = 1

/-- The time stamp of 33 bits, if it is present. -/
def pts (bs : List Byte) (i : Nat) : Option (Option Nat) :=
  bs[i + 7]?.bind fun b7 =>
    if b7 &&& 0x80 = 0 then some none
    else bs[i + 9]?.bind fun b9 => bs[i + 10]?.bind fun b10 => bs[i + 11]?.bind fun b11 =>
      bs[i + 12]?.bind fun b12 => bs[i + 13]?.map fun b13 =>
        some ((b9 &&& 0xE).toNat <<< 29 ||| b10.toNat <<< 22 ||| (b11 &&& 0xFE).toNat <<< 14 |||
          b12.toNat <<< 7 ||| (b13 &&& 0xFE).toNat >>> 1)

/-- The time of a sequence header. -/
def accessPoint (bs : List Byte) : Option (Option Nat) :=
  (payload bs).bind fun start =>
    match start with
    | none => some none
    | some i => (startcode bs i).bind fun found =>
      if !found then some none
      else (pts bs i).bind fun pts => bs[i + 8]?.bind fun b8 =>
        (startcode bs (i + (b8.toNat + 9))).bind fun found =>
          if !found then some none
          else bs[i + (b8.toNat + 9) + 3]?.map fun b => if b = 0xb3 then pts else none

/-- The time of any packet that has one. -/
def timeStamp (bs : List Byte) : Option (Option Nat) :=
  (payload bs).bind fun start =>
    match start with
    | none => some none
    | some i => (startcode bs i).bind fun found => if !found then some none else pts bs i

/-- `accessPoints` is a map from offsets. -/
def streamParser (pid : Int) : TsReader (Option Nat) (Nat → Option Nat) :=
  ⟨false, pid, accessPoint, fun accessPoints pos _ r =>
    match r with
    | none => accessPoints
    | some pts => Function.update accessPoints pos (some pts)⟩

/-- The packets that are processed, with their times. -/
def timeStampParser (pid : Int) : TsReader (Option Nat) (List (List Byte × Option Nat)) :=
  ⟨true, pid, timeStamp, fun seen _ bs r => seen ++ [(bs.take 188, r)]⟩

/-- A parser of its pid that has seen nothing. -/
def TsParser.start {σ : Type} (seen : σ) : TsParser σ := ⟨[], 0, false, seen⟩

end Tuxbox.Enigma
