import Tuxbox.Sectionsd.Event
import Tuxbox.Lib.OrdSet

/-! The event store of sectionsd: event objects shared by two maps and two
ordered sets, and the calls that change them. An object is known by its number,
as the source knows it by its pointer. -/
namespace Tuxbox.Sectionsd

structure Store where
  heap : Nat → SIevent
  next : Nat
  /-- `mySIeventsOrderUniqueKey`. -/
  orderUniqueKey : OrdMap Nat Nat
  /-- `mySIeventsNVODorderUniqueKey`. -/
  nvodOrderUniqueKey : OrdMap Nat Nat
  /-- `mySIeventsOrderServiceUniqueKeyFirstStartTimeEventUniqueKey`. -/
  startSet : List Nat
  /-- `mySIeventsOrderFirstEndTimeServiceIDEventUniqueKey`. -/
  endSet : List Nat
  myCurrentEvent : Option SIevent
  myNextEvent : Option SIevent
  messagingGotCN : Nat

structure EPGFilter where
  onid : UInt16
  tsid : UInt16
  sid : UInt16

/-- The settings and the other tables that a call reads; they may differ from
call to call. -/
structure Env where
  epgFilter : List EPGFilter
  epgFilterIsWhitelist : Bool
  epgFilterExceptCurrentNext : Bool
  languageModeOff : Bool
  secondsExtendedTextCache : Int
  oldEventsAre : Int
  maxEvents : Nat
  now : Int
  messagingCurrentServicekey : Nat
  /-- `mySIeventUniqueKeysMetaOrderServiceUniqueKey`. -/
  metaOrderServiceUniqueKey : OrdMap Nat Nat

def checkEPGFilter (filters : List EPGFilter) (onid tsid sid : UInt16) : Bool :=
  filters.any fun f =>
    (f.onid == onid || f.onid == 0) && (f.tsid == tsid || f.tsid == 0) &&
      (f.sid == sid || f.sid == 0)

namespace Store

def initial (heap : Nat → SIevent) : Store where
  heap := heap
  next := 0
  orderUniqueKey := .empty
  nvodOrderUniqueKey := .empty
  startSet := []
  endSet := []
  myCurrentEvent := none
  myNextEvent := none
  messagingGotCN := 0

def startOrder (s : Store) (a b : Nat) : Bool := SIevent.startLt (s.heap a) (s.heap b)

def endOrder (s : Store) (a b : Nat) : Bool := SIevent.endLt (s.heap a) (s.heap b)

/-- Changes an object in place. -/
def modify (s : Store) (o : Nat) (f : SIevent → SIevent) : Store :=
  { s with heap := fun p => if p = o then f (s.heap p) else s.heap p }

def insertSets (s : Store) (o : Nat) : Store :=
  { s with
    startSet := OrdSet.insert s.startOrder o s.startSet
    endSet := OrdSet.insert s.endOrder o s.endSet }

def eraseSets (s : Store) (o : Nat) : Store :=
  { s with
    startSet := OrdSet.erase s.startOrder o s.startSet
    endSet := OrdSet.erase s.endOrder o s.endSet }

/-- An object with a time is taken out of the sets. -/
def takeOut (s : Store) (o : Nat) : Store := if (s.heap o).timed then s.eraseSets o else s

def deleteEvent (s : Store) (uniqueKey : Nat) : Store :=
  match s.orderUniqueKey.find uniqueKey with
  | none => s
  | some o =>
    let s := s.takeOut o
    { s with
      orderUniqueKey := s.orderUniqueKey.erase uniqueKey
      nvodOrderUniqueKey := s.nvodOrderUniqueKey.erase uniqueKey }

/-! ## addEvent -/

/-- Filtered out, unless it is a current or next event that must not be. -/
def epgRejected (env : Env) (evt : SIevent) : Bool :=
  let filtered := checkEPGFilter env.epgFilter evt.originalNetworkId evt.transportStreamId
    evt.serviceId
  let exempt := env.epgFilterExceptCurrentNext && (evt.tableId == 0x4e || evt.tableId == 0x4f)
  !exempt && evt.tableId != 0xFF && (env.epgFilterIsWhitelist != filtered)

/-- The current and the next event of the current channel. -/
def updateCN (s : Store) (env : Env) (evt : SIevent) : Store :=
  if evt.channelId = env.messagingCurrentServicekey ∧ s.messagingGotCN ≠ 0x03 then
    let isCurrent := s.myCurrentEvent.any (·.uniqueKey == evt.uniqueKey)
    if evt.running > 2 then
      if isCurrent then { s with messagingGotCN := s.messagingGotCN ||| 0x01 }
      else
        let s := { s with
          myCurrentEvent := some evt
          messagingGotCN := s.messagingGotCN ||| 0x01 }
        -- a next event that became the current one has to be read again
        if s.myNextEvent.any (·.uniqueKey == evt.uniqueKey) then
          { s with myNextEvent := none, messagingGotCN := s.messagingGotCN &&& 0x01 }
        else s
    else
      let later := s.myNextEvent.all fun n =>
        n.uniqueKey != evt.uniqueKey && decide (n.first.startzeit < evt.first.startzeit)
      let s := if later && !isCurrent then { s with myNextEvent := some evt } else s
      { s with messagingGotCN := s.messagingGotCN ||| 0x02 }
  else s

/-- `already_exists`: the stored event is as good as the new one. -/
def alreadyExists (evt old : SIevent) : Bool :=
  !(evt.tableId < old.tableId) &&
    !(!evt.components.isEmpty && evt.components != old.components) &&
    !(!evt.linkageDescs.isEmpty && evt.linkageDescs != old.linkageDescs) &&
    !(!evt.ratings.isEmpty && evt.ratings != old.ratings) &&
    evt.times == old.times

/-- The texts of a stored event brought up to date. -/
def refreshTexts (env : Env) (zeit : Int) (evt old : SIevent) : SIevent :=
  let old := { old with
    contentClassification := evt.contentClassification
    userClassification := evt.userClassification
    itemDescription := evt.itemDescription
    item := evt.item }
  let old :=
    if offText evt.langExtendedText ≠ [] ∧ evt.first.startzeit < zeit + env.secondsExtendedTextCache
    then { old with
      langExtendedText := old.langExtendedText.set languageOFF (offText evt.langExtendedText) }
    else old
  let old :=
    if offText evt.langText ≠ [] then
      { old with langText := old.langText.set languageOFF (offText evt.langText) }
    else old
  if offText evt.langName ≠ [] then
    { old with langName := old.langName.set languageOFF (offText evt.langName) }
  else old

/-- The new object, without an extended text that is too far in the future. -/
def stripped (env : Env) (zeit : Int) (evt : SIevent) : SIevent :=
  if evt.first.startzeit > zeit + env.secondsExtendedTextCache ∧ env.languageModeOff = true ∧
      zeit ≠ 0 then
    { evt with langExtendedText := evt.langExtendedText.set languageOFF [] }
  else evt

/-- The walk back over the stored events that start no later than `e`. `none`:
an event with a lower table id is kept instead of `e`. -/
def overlaps (heap : Nat → SIevent) (e : SIevent) : List Nat → List Nat → Option (List Nat)
  | [], toDelete => some toDelete
  | x :: xs, toDelete =>
    let old := heap x
    if old.channelId ≠ e.channelId then some toDelete
    else if old.uniqueKey = e.uniqueKey then
      if old.tableId ≥ e.tableId then overlaps heap e xs toDelete else none
    else if old.first.startzeit ≥ e.first.ende then overlaps heap e xs toDelete
    else if old.first.ende ≤ e.first.startzeit then some toDelete
    else if old.tableId < e.tableId then none
    else if old.tableId = e.tableId ∧ e.tableId &&& 0xFE = 0x4e ∧
        old.first.startzeit = e.first.startzeit then overlaps heap e xs toDelete
    else overlaps heap e xs (toDelete ++ [old.uniqueKey])

/-- The elements before `upper_bound` of an event behind `e`, the last first. -/
def notBehind (s : Store) (e : SIevent) : List Nat :=
  (s.startSet.takeWhile fun x => !SIevent.startLt { e with eventID := 0xFFFF } (s.heap x)).reverse

/-- The last event that is not of the current channel, or else the first one. -/
def lastForeign (heap : Nat → SIevent) (current : Nat) : List Nat → Option Nat
  | [] => none
  | [x] => some x
  | x :: xs => if (heap x).channelId = current then lastForeign heap current xs else some x

def isFull (s : Store) (env : Env) : Bool :=
  !s.endSet.isEmpty && decide (s.orderUniqueKey.size ≥ env.maxEvents) && env.maxEvents != 0

def deleteObject (s : Store) : Option Nat → Store
  | none => s
  | some o => s.deleteEvent (s.heap o).uniqueKey

/-- Makes room: the first event to end if it is old, else the last one. -/
def makeRoom (s : Store) (env : Env) : Store :=
  if s.isFull env then
    let lastEvent := s.endSet.head?
    let back := lastEvent.any fun o =>
      (s.heap o).times.size == 1 && decide ((s.heap o).first.ende ≥ env.now - env.oldEventsAre)
    if back then
      s.deleteObject (lastForeign s.heap env.messagingCurrentServicekey s.endSet.reverse)
    else s.deleteObject lastEvent
  else s

/-- The times of an NVOD event's time-shifted repeats go into the NVOD event. -/
def mergeMeta (s : Store) (env : Env) (e : SIevent) : Store :=
  match env.metaOrderServiceUniqueKey.find e.channelId with
  | none => s
  | some key =>
    if e.timed then
      match s.orderUniqueKey.find key with
      | none => s
      | some o =>
        let s := if OrdSet.contains s.startOrder o s.startSet then s else s.insertSets o
        s.modify o (·.addTimes e.times)
    else s

/-- A new object in the map and, if it has a time, in the sets. -/
def insertEvent (s : Store) (e : SIevent) : Store :=
  let o := s.next
  let s := { s with heap := fun p => if p = o then e else s.heap p, next := o + 1 }
  let s := { s with orderUniqueKey := s.orderUniqueKey.insertNew e.uniqueKey o }
  if e.timed then s.insertSets o else s

/-- The store after all that `addEvent` deletes for `e`; `none` if it keeps an
old event instead. -/
def cleared (s : Store) (env : Env) (e : SIevent) : Option Store :=
  match overlaps s.heap e (s.notBehind e) [] with
  | none => none
  | some toDelete =>
    let s := toDelete.reverse.foldl deleteEvent s
    some ((s.deleteEvent e.uniqueKey).makeRoom env)

/-- The stored event that only has its texts brought up to date. -/
def refreshed (s : Store) (env : Env) (evt : SIevent) : Option Nat :=
  match s.orderUniqueKey.find evt.uniqueKey with
  | none => none
  | some o => if alreadyExists evt (s.heap o) && env.languageModeOff then some o else none

def addEvent (s : Store) (env : Env) (evt : SIevent) (zeit : Int) (cn : Bool) : Store :=
  if epgRejected env evt then s
  else
    let s := if cn then s.updateCN env evt else s
    match s.refreshed env evt with
    | some o => s.modify o (refreshTexts env zeit evt)
    | none =>
      let e := stripped env zeit evt
      match s.cleared env e with
      | none => s
      | some s => (s.mergeMeta env e).insertEvent e

/-! ## The other calls -/

def addEventTimes (s : Store) (env : Env) (evt : SIevent) : Store :=
  if evt.timed then
    match s.orderUniqueKey.find evt.uniqueKey with
    | none => s.addEvent env evt 0 false
    | some o =>
      let s := s.takeOut o
      let s := s.modify o (·.addTimes evt.times)
      s.insertSets o
  else s

/-- The new object with the times that were stored so far. -/
def withStoredTimes (s : Store) (evt : SIevent) : SIevent :=
  match s.orderUniqueKey.find evt.uniqueKey with
  | none => evt
  | some o => evt.addTimes (s.heap o).times

def addNVODevent (s : Store) (env : Env) (evt : SIevent) : Store :=
  let e := s.withStoredTimes evt
  let s := s.deleteEvent e.uniqueKey
  let s :=
    if s.isFull env then
      s.deleteObject (lastForeign s.heap env.messagingCurrentServicekey s.endSet.reverse)
    else s
  let o := s.next
  let s := s.insertEvent e
  { s with nvodOrderUniqueKey := s.nvodOrderUniqueKey.insertNew e.uniqueKey o }

end Store

inductive Store.Act
  | addEvent (env : Env) (evt : SIevent) (zeit : Int) (cn : Bool)
  | addNVODevent (env : Env) (evt : SIevent)
  | addEventTimes (env : Env) (evt : SIevent)
  | deleteEvent (uniqueKey : Nat)

def Store.step (s : Store) : Store.Act → Option Store
  | .addEvent env evt zeit cn => some (s.addEvent env evt zeit cn)
  | .addNVODevent env evt => some (s.addNVODevent env evt)
  | .addEventTimes env evt => some (s.addEventTimes env evt)
  | .deleteEvent key => some (s.deleteEvent key)

end Tuxbox.Sectionsd
