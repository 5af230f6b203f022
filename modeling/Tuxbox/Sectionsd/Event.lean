import Tuxbox.Lib.OrdMap
import Tuxbox.Lib.Codec
import Tuxbox.Zapit.Channel
import Mathlib.Data.Prod.Lex

/-! The events of sectionsd, their keys, and the two orders in which the timed
ones are kept. -/
namespace Tuxbox.Sectionsd

structure SItime where
  startzeit : Int
  dauer : Nat
  deriving DecidableEq

def SItime.ende (t : SItime) : Int := t.startzeit + t.dauer

structure SIcomponent where
  component : Str
  componentType : Byte
  componentTag : Byte
  streamContent : Byte
  deriving DecidableEq

structure SIparentalRating where
  countryCode : Str
  rating : Byte
  deriving DecidableEq

structure SIlinkage where
  linkageType : Byte
  name : Str
  transportStreamId : UInt16
  originalNetworkId : UInt16
  serviceId : UInt16
  deriving DecidableEq

/-- `times` is a `std::set` ordered by start time; a second time with the same
start is not taken. `noTime` is what `times.begin()` reads where there is no
time. -/
structure SIevent where
  serviceId : UInt16
  originalNetworkId : UInt16
  transportStreamId : UInt16
  eventID : UInt16
  langName : OrdMap Str Str
  langText : OrdMap Str Str
  langExtendedText : OrdMap Str Str
  itemDescription : Str
  item : Str
  contentClassification : Str
  userClassification : Str
  components : List SIcomponent
  ratings : List SIparentalRating
  linkageDescs : List SIlinkage
  times : OrdMap Int Nat
  noTime : SItime
  tableId : Nat
  running : Nat
  deriving DecidableEq

/-- `event_id_t` of a channel and an event number. -/
def createEventId (channelId : Nat) (eventNr : UInt16) : Nat := channelId <<< 16 ||| eventNr.toNat

def languageOFF : Str := chars "OFF"

/-- A text where the language mode is off: the first of them. -/
def offText (texts : OrdMap Str Str) : Str :=
  match texts.entries with
  | [] => []
  | (_, text) :: _ => text

/-- `set::insert` of a range. -/
def insertTimes (times : OrdMap Int Nat) (new : OrdMap Int Nat) : OrdMap Int Nat :=
  new.entries.foldl (fun ts t => ts.insertNew t.1 t.2) times

namespace SIevent

def channelId (e : SIevent) : Nat :=
  createChannelId e.serviceId e.originalNetworkId e.transportStreamId

def uniqueKey (e : SIevent) : Nat := createEventId e.channelId e.eventID

/-- `*times.begin()`. -/
def first (e : SIevent) : SItime :=
  match e.times.entries with
  | [] => e.noTime
  | (s, d) :: _ => ⟨s, d⟩

def timed (e : SIevent) : Bool := !e.times.entries.isEmpty

def addTimes (e : SIevent) (new : OrdMap Int Nat) : SIevent :=
  { e with times := insertTimes e.times new }

theorem addTimes_uniqueKey (e : SIevent) (new : OrdMap Int Nat) :
    (e.addTimes new).uniqueKey = e.uniqueKey := rfl

/-- `OrderServiceUniqueKeyFirstStartTimeEventUniqueKey`. -/
def startLt (a b : SIevent) : Bool :=
  if a.channelId = b.channelId then
    if a.first.startzeit = b.first.startzeit then a.eventID.toNat < b.eventID.toNat
    else a.first.startzeit < b.first.startzeit
  else a.channelId < b.channelId

/-- `OrderFirstEndTimeServiceIDEventUniqueKey`. -/
def endLt (a b : SIevent) : Bool :=
  if a.first.ende = b.first.ende then
    if a.serviceId = b.serviceId then a.uniqueKey > b.uniqueKey
    else a.serviceId.toNat < b.serviceId.toNat
  else a.first.ende < b.first.ende

/-! ## The orders as orders of keys -/

def startKey (e : SIevent) : Nat ×ₗ (Int ×ₗ Nat) :=
  toLex (e.channelId, toLex (e.first.startzeit, e.eventID.toNat))

def endKey (e : SIevent) : Int ×ₗ (Nat ×ₗ Natᵒᵈ) :=
  toLex (e.first.ende, toLex (e.serviceId.toNat, OrderDual.toDual e.uniqueKey))

theorem startLt_iff (a b : SIevent) : startLt a b = true ↔ startKey a < startKey b := by
  unfold startLt startKey
  rw [Prod.Lex.toLex_lt_toLex, Prod.Lex.toLex_lt_toLex]
  split_ifs with h1 h2
  · simp [h1, h2]
  · simp [h1, h2]
  · simp [h1]

theorem endLt_iff (a b : SIevent) : endLt a b = true ↔ endKey a < endKey b := by
  unfold endLt endKey
  rw [Prod.Lex.toLex_lt_toLex, Prod.Lex.toLex_lt_toLex]
  split_ifs with h1 h2
  · simp [h1, h2]
  · have hne : a.serviceId.toNat ≠ b.serviceId.toNat := fun h => h2 (UInt16.toNat_inj.mp h)
    simp [h1, hne]
  · simp [h1]

/-- An event number is below the shift of its channel. -/
theorem uniqueKey_eq (e : SIevent) : e.uniqueKey = e.channelId * 2 ^ 16 + e.eventID.toNat :=
  or_shift e.channelId e.eventID.toNat_lt

theorem uniqueKey_of_startKey {a b : SIevent} (h : startKey a = startKey b) :
    a.uniqueKey = b.uniqueKey := by
  have hp := congrArg ofLex h
  have hq := congrArg ofLex (congrArg Prod.snd hp)
  have hchannel : a.channelId = b.channelId := congrArg Prod.fst hp
  have hevent : a.eventID.toNat = b.eventID.toNat := congrArg Prod.snd hq
  rw [uniqueKey_eq, uniqueKey_eq, hchannel, hevent]

theorem uniqueKey_of_endKey {a b : SIevent} (h : endKey a = endKey b) :
    a.uniqueKey = b.uniqueKey := by
  have hp := congrArg ofLex h
  have hq := congrArg ofLex (congrArg Prod.snd hp)
  exact congrArg Prod.snd hq

end SIevent

end Tuxbox.Sectionsd
