import Tuxbox.Enigma.EventData
import Tuxbox.Lib.Civil
import Mathlib.Logic.Function.Basic

/-!
# The maps of a service

The EPG of a service is a map from event ids and a map from start times. Both hold pointers
to the objects made of the events, so an object is deleted once and found twice.

There is no result where the code uses an object that is deleted, or an iterator of an
element that is erased.
-/

namespace Tuxbox.Enigma.Epg

open Buffer

/-! ## Times -/

def fromBCD (bcd : Byte) : Int :=
  if bcd &&& 0xF0 ≥ 0xA0 then -1
  else if bcd &&& 0xF ≥ 0xA then -1
  else ((bcd &&& 0xF0) >>> 4).toNat * 10 + (bcd &&& 0xF).toNat

/-- The quotients are those of the `double` formulas, which no date comes near to rounding in.
`timegm` counts the seconds, and takes fields that are out of range. -/
def parseDVBtime (t1 t2 t3 t4 t5 : Byte) : Int :=
  let mjd : Int := t1.toNat * 256 + t2.toNat
  let year := Int.tdiv (mjd * 100 - 1507820) 36525
  let days := Int.tdiv (year * 1461) 4
  let mon := Int.tdiv (mjd * 10000 - 149561000 - days * 10000) 306001
  let mday := mjd - 14956 - days - Int.tdiv (mon * 306001) 10000
  let k := if mon = 14 ∨ mon = 15 then 1 else 0
  Civil.dayNumber (1900 + year + k) (mon - 1 - k * 12 - 1) mday * 86400 +
    fromBCD t3 * 3600 + fromBCD t4 * 60 + fromBCD t5

def HILO (hi lo : Byte) : Nat := hi.toNat * 256 + lo.toNat

/-- The id, the start and the duration in the first ten bytes of an event. -/
def headID (head : Str) : Nat := HILO (head.getD 0 0) (head.getD 1 0)

def headStart (head : Str) : Int :=
  parseDVBtime (head.getD 2 0) (head.getD 3 0) (head.getD 4 0) (head.getD 5 0) (head.getD 6 0)

def headDuration (head : Str) : Int :=
  fromBCD (head.getD 7 0) * 3600 + fromBCD (head.getD 8 0) * 60 + fromBCD (head.getD 9 0)

def PRIVATE : Nat := 0
def NOWNEXT : Nat := 1
def SCHEDULE : Nat := 2
def SCHEDULE_OTHER : Nat := 4
def SCHEDULE_MHW : Nat := 8

end Tuxbox.Enigma.Epg

namespace Tuxbox.Enigma.EventData

open Epg

def getEventID (o : EventData) : Nat := headID o.head

def getStartTime (o : EventData) : Int := headStart o.head

def getDuration (o : EventData) : Int := headDuration o.head

end Tuxbox.Enigma.EventData

namespace Tuxbox.Enigma.Epg

open Buffer

/-- An `eventData*`. -/
abbrev EventPtr := Nat

/-- The events of a service: `first` is the `eventMap`, `second` the `timeMap`, `heap` what
their pointers point to. `fresh` is where the next object goes. -/
structure ServiceMap where
  heap : EventPtr → Option EventData
  fresh : EventPtr
  first : OrdMap Nat EventPtr
  second : OrdMap Int EventPtr

/-- The maps while a section is read. An iterator is the key of its element, and `none` is
`end()`. -/
structure Storing where
  store : EventStore
  map : ServiceMap
  prevEventIt : Option Nat
  prevTimeIt : Option Int

namespace ServiceMap

def empty : ServiceMap := ⟨fun _ => none, 0, .empty, .empty⟩

end ServiceMap

namespace Storing

/-- `new eventData`. -/
def create (e : Str) (size source : Nat) (s : Storing) : Option (EventPtr × Storing) := do
  let r ← initEventData e size source s.store
  pure (s.map.fresh, { s with
    store := r.1
    map := { s.map with
      heap := Function.update s.map.heap s.map.fresh (some r.2)
      fresh := s.map.fresh + 1 } })

/-- `delete`. -/
def delete (p : EventPtr) (s : Storing) : Option Storing := do
  let o ← s.map.heap p
  let store ← o.destroy s.store
  pure { s with store := store, map := { s.map with heap := Function.update s.map.heap p none } }

def setFirst (m : OrdMap Nat EventPtr) (s : Storing) : Storing :=
  { s with map := { s.map with first := m } }

def setSecond (m : OrdMap Int EventPtr) (s : Storing) : Storing :=
  { s with map := { s.map with second := m } }

/-- `prevEventIt = end()` and `prevTimeIt = end()`. -/
def forgetIts (s : Storing) : Storing := { s with prevEventIt := none, prevTimeIt := none }

/-- `ev_it = prevEventIt = servicemap.first.insert(prevEventIt, ..)`. -/
def insertFirst (event_id : Nat) (evt : EventPtr) (s : Storing) : Option Storing :=
  if s.prevEventIt.all s.map.first.contains then
    some { s.setFirst (s.map.first.insertNew event_id evt) with prevEventIt := some event_id }
  else none

/-- `tm_it = prevTimeIt = servicemap.second.insert(prevTimeIt, ..)`. -/
def insertSecond (TM : Int) (evt : EventPtr) (s : Storing) : Option Storing :=
  if s.prevTimeIt.all s.map.second.contains then
    some { s.setSecond (s.map.second.insertNew TM evt) with prevTimeIt := some TM }
  else none

/-! ## Overlaps -/

/-- Whether an entry of the `timeMap` may go when an event is stored at `TM`. -/
def erasable (TM first : Int) (o : EventData) : Bool :=
  first ≠ TM && o.type.toNat ≠ PRIVATE && o.type.toNat ≠ SCHEDULE_MHW

/-- An object goes from both maps. -/
def eraseEvent (first : Int) (p : EventPtr) (s : Storing) : Option Storing := do
  let o ← s.map.heap p
  let s ← (s.setFirst (s.map.first.erase o.getEventID)).delete p
  pure (s.setSecond (s.map.second.erase first))

/-- The loop that goes back. The list has the elements from `tmp` to `begin()`. -/
def fixBefore (TM : Int) : List (Int × EventPtr) → Bool → Storing → Option (Bool × Storing)
  | [], ret, s => some (ret, s)
  | (first, p) :: rest, ret, s => do
    let o ← s.map.heap p
    if first + o.getDuration - 300 > TM then
      if erasable TM first o then
        let s ← s.eraseEvent first p
        -- the element at `begin()` ends the loop, and `ret` stays
        if rest = [] then pure (ret, s) else fixBefore TM rest true s
      else if rest = [] then pure (ret, s) else fixBefore TM rest ret s
    else pure (ret, s)

/-- The loop that goes on. The list has the elements from `tmp` on. -/
def fixBehind (TM duration : Int) :
    List (Int × EventPtr) → Bool → Storing → Option (Bool × Storing)
  | [], ret, s => some (ret, s)
  | (first, p) :: rest, ret, s =>
    if first < TM + duration - 300 then do
      let o ← s.map.heap p
      if erasable TM first o then
        let s ← s.eraseEvent first p
        fixBehind TM duration rest true s
      else fixBehind TM duration rest ret s
    else some (ret, s)

/-- The iterator `tm_it` is that of the element at `TM`. -/
def FixOverlapping (TM duration : Int) (s : Storing) : Option (Bool × Storing) := do
  let (ret, s) ← s.fixBefore TM (s.map.second.entries.filter (·.1 ≤ TM)).reverse false
  s.fixBehind TM duration (s.map.second.entries.filter (TM ≤ ·.1)) ret

/-- The iterators are given up where an event was erased. -/
def fixed (TM duration : Int) (s : Storing) : Option Storing := do
  let (ret, s) ← s.FixOverlapping TM duration
  pure (if ret then s.forgetIts else s)

/-! ## Storing -/

/-- The pointer of the element an iterator of the `eventMap` is at, when a new object takes its
place. -/
def replaceFirst (event_id : Nat) (evt : EventPtr) (s : Storing) : Option Storing := do
  let old ← s.map.first.find event_id
  let s ← s.delete old
  pure (s.setFirst (s.map.first.set event_id evt))

def replaceSecond (TM : Int) (evt : EventPtr) (s : Storing) : Option Storing := do
  let old ← s.map.second.find TM
  let s ← s.delete old
  pure (s.setSecond (s.map.second.set TM evt))

/-- The same event at the same time. -/
def renew (e : Str) (size source event_id : Nat) (TM duration : Int) (old : EventPtr)
    (s : Storing) : Option Storing := do
  let (evt, s) ← s.create e size source
  let s := (s.setFirst (s.map.first.set event_id evt)).setSecond (s.map.second.set TM evt)
  let s ← s.fixed TM duration
  s.delete old

/-- The new object takes its places in both maps. What was in its way is erased already:
`ev_erase` the event that was there at its time, `tm_erase` the time this event had before. -/
def place (e : Str) (size source event_id : Nat) (TM duration : Int) (ev_erase tm_erase : Bool)
    (s : Storing) : Option Storing := do
  let (evt, s) ← s.create e size source
  let s ←
    match ev_erase, tm_erase with
    | true, true => do
      let s ← s.replaceFirst event_id evt
      s.replaceSecond TM evt
    | false, true => do
      let s ← s.replaceFirst event_id evt
      s.insertSecond TM evt
    | true, false => do
      let s ← s.insertFirst event_id evt
      s.replaceSecond TM evt
    | false, false => do
      let s ← s.insertFirst event_id evt
      s.insertSecond TM evt
  s.fixed TM duration

/-- Whether the time is taken by another event. An event of a better source stays there,
but for one that was moved. -/
def atTime (e : Str) (size source event_id : Nat) (TM duration : Int) (tm_erase : Bool)
    (s : Storing) : Option Storing :=
  match s.map.second.find TM with
  | none => s.place e size source event_id TM duration false tm_erase
  | some p => do
    let o ← s.map.heap p
    if source > o.type.toNat ∧ tm_erase = false then pure s
    else if s.map.first.contains o.getEventID then
      place e size source event_id TM duration true tm_erase
        { s.setFirst (s.map.first.erase o.getEventID) with prevEventIt := none }
    else s.place e size source event_id TM duration false tm_erase

/-- An event of a better source stays as it is. -/
def storeEvent (e : Str) (size source event_id : Nat) (TM duration : Int) (s : Storing) :
    Option Storing :=
  match s.map.first.find event_id with
  | none => s.atTime e size source event_id TM duration false
  | some p => do
    let o ← s.map.heap p
    if source > o.type.toNat then pure s
    else if s.map.second.contains o.getStartTime then
      if o.getStartTime = TM then s.renew e size source event_id TM duration p
      else
        atTime e size source event_id TM duration true
          { s.setSecond (s.map.second.erase o.getStartTime) with prevTimeIt := none }
    else s.atTime e size source event_id TM duration false

end Storing

end Tuxbox.Enigma.Epg
