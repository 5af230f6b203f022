import Tuxbox.Lib.Bytes

/-! The timer events of timerd: their states and classes, the calls they make
on sectionsd, and how a repeating event gets its next times. -/
namespace Tuxbox.Timerd

/-- `CTimerEventStates`. A state read from a file can be any number. -/
inductive EventState
  | scheduled
  | preannounce
  | isRunning
  | hasFinished
  | terminated
  | other (code : Int32) (unnamed : code ∉ ([0, 1, 2, 3, 4] : List Int32))
  deriving DecidableEq

namespace EventState

def code : EventState → Int32
  | scheduled => 0
  | preannounce => 1
  | isRunning => 2
  | hasFinished => 3
  | terminated => 4
  | other code _ => code

def ofCode (code : Int32) : EventState :=
  if h : code ∈ ([0, 1, 2, 3, 4] : List Int32) then
    if code = 0 then scheduled
    else if code = 1 then preannounce
    else if code = 2 then isRunning
    else if code = 3 then hasFinished
    else terminated
  else other code h

theorem ofCode_code (s : EventState) : ofCode s.code = s := by
  cases s with
  | other code unnamed =>
    unfold ofCode EventState.code
    rw [dif_neg unnamed]
  | _ => rfl

end EventState

/-! `CTimerEventRepeat`: the weekdays are the bits from bit 9 on. -/

def repeatOnce : Int32 := 0

def repeatDaily : Int32 := 1

def repeatWeekly : Int32 := 2

def repeatBiweekly : Int32 := 3

def repeatFourweekly : Int32 := 4

def repeatMonthly : Int32 := 5

def repeatByEventDescription : Int32 := 6

def repeatWeekdays : Int32 := 0x100

structure EventInfo where
  epgID : UInt64
  epgStarttime : Int
  channelId : UInt64
  apids : UInt8
  deriving DecidableEq

/-- The class of an event with the fields of its own. -/
inductive EventData
  | shutdown
  | nextProgram (eventInfo : EventInfo)
  | zapto (eventInfo : EventInfo) (recordingDir epgTitle : Str)
  | standby (standbyOn : Bool)
  | record (eventInfo : EventInfo) (recordingDir epgTitle : Str)
  | remind (message : Str)
  | sleeptimer
  | execPlugin (name : Str)
  deriving DecidableEq

def EventData.isRecord : EventData → Bool
  | .record .. => true
  | _ => false

def EventData.isZapto : EventData → Bool
  | .zapto .. => true
  | _ => false

/-- `tag` is not in the source: it tells which timer the object is, also after
the timer was saved and loaded under another id. -/
structure CTimerEvent where
  tag : Nat
  eventID : Nat
  data : EventData
  eventState : EventState
  previousState : EventState
  eventRepeat : Int32
  repeatCount : UInt32
  alarmTime : Int
  stopTime : Int
  announceTime : Int
  deriving DecidableEq

/-! ## What timerd gets from elsewhere -/

structure Tm where
  sec : Int
  min : Int
  hour : Int
  mday : Int
  mon : Int
  year : Int
  wday : Int
  yday : Int
  isdst : Int

/-- `localtime_r` and `mktime` of the zone the box is in. -/
structure LibC where
  localtime : Int → Tm
  mktime : Tm → Int

structure ChannelEvent where
  eventID : UInt64
  startTime : Int
  duration : Int

/-- The answers of sectionsd. -/
structure Sectionsd where
  getEventsServiceKey : UInt64 → List ChannelEvent
  getEPGidShort : UInt64 → Option Str

/-- The time of a call and the answers it gets. `rounds` bounds the loop of a
reschedule: a call that needs more does not return. `stray` is where a pass goes
on after `++pos` of an iterator that it has erased, which is not defined. -/
structure Env where
  now : Int
  sectionsd : Sectionsd
  rounds : Nat
  stray : List Nat

namespace CTimerEvent

def setState (e : CTimerEvent) (newstate : EventState) : CTimerEvent :=
  { e with previousState := e.eventState, eventState := newstate }

/-! ## EPG data -/

/-- The first event of the channel that the recording or the zap is for. -/
def lookupEpg (sdc : Sectionsd) (wanted : ChannelEvent → Bool) (info : EventInfo) (epgTitle : Str) :
    EventInfo × Str :=
  let info :=
    match (sdc.getEventsServiceKey info.channelId).find? wanted with
    | some c => { info with epgID := c.eventID, epgStarttime := c.startTime }
    | none => info
  if info.epgID ≠ 0 then (info, (sdc.getEPGidShort info.epgID).getD epgTitle) else (info, epgTitle)

/-- A recording is looked up in its middle, a zap five minutes after it. -/
def getEpgId (e : CTimerEvent) (sdc : Sectionsd) : CTimerEvent :=
  match e.data with
  | .record info dir title =>
    let checkTime := e.alarmTime.tdiv 2 + e.stopTime.tdiv 2
    let out := lookupEpg sdc
      (fun c => c.startTime ≤ checkTime ∧ c.startTime + c.duration ≥ checkTime) info title
    { e with data := .record out.1 dir out.2 }
  | .zapto info dir title =>
    let checkTime := e.alarmTime + 300
    let out := lookupEpg sdc
      (fun c => c.startTime < checkTime ∧ c.startTime + c.duration > checkTime) info title
    { e with data := .zapto out.1 dir out.2 }
  | _ => e

def refresh (e : CTimerEvent) (sdc : Sectionsd) : CTimerEvent :=
  match e.data with
  | .record info _ _ | .zapto info _ _ => if info.epgID = 0 then e.getEpgId sdc else e
  | _ => e

def clearEpgId (e : CTimerEvent) : CTimerEvent :=
  match e.data with
  | .record info dir title =>
    { e with data := .record { info with epgID := 0, epgStarttime := 0 } dir title }
  | .zapto info dir title =>
    { e with data := .zapto { info with epgID := 0, epgStarttime := 0 } dir title }
  | .nextProgram info => { e with data := .nextProgram { info with epgID := 0, epgStarttime := 0 } }
  | _ => e

/-! ## Reschedule -/

/-- The broken-down time of the next alarm. The weekday case only searches for
a set day: the day it finds goes into a second `tm` that nothing reads, and
without a set day the search does not end. -/
def advance (eventRepeat : Int32) (t : Tm) : Option Tm :=
  if eventRepeat = repeatDaily then some { t with mday := t.mday + 1 }
  else if eventRepeat = repeatWeekly then some { t with mday := t.mday + 7 }
  else if eventRepeat = repeatBiweekly then some { t with mday := t.mday + 14 }
  else if eventRepeat = repeatFourweekly then some { t with mday := t.mday + 28 }
  else if eventRepeat = repeatMonthly then some { t with mon := t.mon + 1 }
  else if eventRepeat = repeatOnce ∨ eventRepeat = repeatByEventDescription then some t
  else if repeatWeekdays ≤ eventRepeat then
    let weekdays := eventRepeat.toInt.toNat >>> 9
    if weekdays > 0 ∧ weekdays &&& 0x7F = 0 then none else some t
  else some t

/-- How the clock change between two times is made up for. -/
def dstCorrection (isdst1 isdst2 : Int) : Int :=
  if isdst2 > isdst1 then -3600 else if isdst1 > isdst2 then 3600 else 0

/-- One round of the loop. Announce and stop move with the alarm. -/
def advanceTimes (lc : LibC) (e : CTimerEvent) : Option CTimerEvent :=
  let t := lc.localtime e.alarmTime
  match advance e.eventRepeat t with
  | none => none
  | some t' =>
    let diff := lc.mktime t' - e.alarmTime
    let correction := dstCorrection t.isdst (lc.localtime (e.alarmTime + diff)).isdst
    let diff := diff + correction
    some { e with
      alarmTime := e.alarmTime + diff
      announceTime := if e.announceTime > 0 then e.announceTime + diff else e.announceTime
      stopTime := if e.stopTime > 0 then e.stopTime + diff else e.stopTime }

def rescheduleLoop (lc : LibC) (now : Int) : Nat → CTimerEvent → Option CTimerEvent
  | 0, e => if e.alarmTime ≤ now then none else some e
  | rounds + 1, e =>
    if e.alarmTime ≤ now then
      match advanceTimes lc e with
      | none => none
      | some e => rescheduleLoop lc now rounds e
    else some e

/-- `CTimerEvent::Reschedule`. A forced one makes one round whatever the
time. -/
def rescheduleTimes (lc : LibC) (env : Env) (force : Bool) (e : CTimerEvent) : Option CTimerEvent :=
  if e.eventRepeat = repeatOnce then some { e with eventState := .terminated }
  else
    match if force then advanceTimes lc e else rescheduleLoop lc env.now env.rounds e with
    | none => none
    | some e =>
      some { e with
        eventState := .scheduled
        repeatCount := if e.repeatCount > 0 then e.repeatCount - 1 else e.repeatCount }

/-- `Reschedule` of the event's class; recordings and zaps look up their EPG
data again. -/
def reschedule (lc : LibC) (env : Env) (force : Bool) (e : CTimerEvent) : Option CTimerEvent :=
  (e.clearEpgId.rescheduleTimes lc env force).map (·.getEpgId env.sectionsd)

end CTimerEvent

end Tuxbox.Timerd
