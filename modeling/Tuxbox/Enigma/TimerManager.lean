import Tuxbox.Enigma.TimerOverlap

/-!
# The timer manager of enigma

`eTimerManager` keeps a list of entries and an iterator into it, the event that starts
next or runs. The elements of the list have handles, an iterator is a handle or the
end of the list. `none` is the result of a call that dereferences an iterator which
is not at an element of the list.
-/

namespace Tuxbox.Enigma

open PlaylistEntry

namespace PlaylistEntry

def recTimerEntry : BitVec 32 := 4

def recDVR : BitVec 32 := 8

def recNgrab : BitVec 32 := 131072

def statePaused : BitVec 32 := 128

def errorNoSpaceLeft : BitVec 32 := 1024

def errorUserAborted : BitVec 32 := 2048

def errorZapFailed : BitVec 32 := 4096

def doShutdown : BitVec 32 := 67108864

def doGoSleep : BitVec 32 := 134217728

/-- `Su|Mo|Tue|Wed|Thu|Fr|Sa` -/
def allDays : BitVec 32 := 66584576

/-- `operator==` -/
def same (e e' : PlaylistEntry) : Bool :=
  if e.type = 1 then e'.service = e.service
  else if e.has isRepeating then
    e'.service = e.service && e'.timeBegin = e.timeBegin &&
      e'.type &&& allDays = e.type &&& allDays
  else e'.service = e.service && e'.timeBegin = e.timeBegin

def set (e : PlaylistEntry) (flags : BitVec 32) : PlaylistEntry :=
  { e with type := e.type ||| flags }

def unset (e : PlaylistEntry) (flags : BitVec 32) : PlaylistEntry :=
  { e with type := e.type &&& ~~~flags }

end PlaylistEntry

/-- The time, and what follows from the calendar: `getNextEventStartTime` of begin,
duration, type and last activation, and the date that becomes the last activation. -/
structure Clock where
  now : Int
  getNextEventStartTime : Int → Int → BitVec 32 → Int → Int
  date : Int → Int

def Clock.startTime (c : Clock) (e : PlaylistEntry) : Int :=
  c.getNextEventStartTime e.timeBegin e.duration e.type e.lastActivation

/-- The last activation is set to the day of the event. -/
def Clock.activate (c : Clock) (e : PlaylistEntry) : PlaylistEntry :=
  { e with lastActivation := c.date (c.getNextEventStartTime e.timeBegin e.duration e.type (-1)) }

structure TimerNode where
  handle : Nat
  entry : PlaylistEntry
  deriving DecidableEq

inductive TimerAction where
  | zap
  | prepareEvent
  | startCountdown
  | setNextEvent
  | startEvent
  | stopEvent
  | startRecording
  | stopRecording
  | oldService
  | updateDuration
  deriving DecidableEq

/-- `fresh` is the handle of the next new element. -/
structure TimerManager where
  list : List TimerNode
  fresh : Nat
  nextStartingEvent : Option Nat
  nextAction : TimerAction
  deriving DecidableEq

/-- What the action handler meets: the time, if a zap can wait or is needed, if the
recording fails, and if the old service is a DVB service. -/
structure TimerEnv where
  clock : Clock
  zapLater : Bool
  sameService : Bool
  recordFails : Bool
  playbackDvb : Bool

namespace TimerManager

/-- `nextStartingEvent = end()` -/
def empty : TimerManager := ⟨[], 0, none, .setNextEvent⟩

def find (s : TimerManager) (h : Nat) : Option PlaylistEntry :=
  (s.list.find? (·.handle = h)).map (·.entry)

/-- `*nextStartingEvent` -/
def next (s : TimerManager) : Option PlaylistEntry := s.nextStartingEvent.bind s.find

def pushBack (s : TimerManager) (e : PlaylistEntry) : TimerManager :=
  { s with list := s.list ++ [⟨s.fresh, e⟩], fresh := s.fresh + 1 }

def erase (s : TimerManager) (h : Nat) : TimerManager :=
  { s with list := s.list.filter (·.handle ≠ h) }

def change (h : Nat) (f : PlaylistEntry → PlaylistEntry) (n : TimerNode) : TimerNode :=
  if n.handle = h then { n with entry := f n.entry } else n

/-- An assignment through `nextStartingEvent`. -/
def changeNext (s : TimerManager) (f : PlaylistEntry → PlaylistEntry) : TimerManager :=
  match s.nextStartingEvent with
  | none => s
  | some h => { s with list := s.list.map (change h f) }

/-! ## The action handler -/

/-- The loop of `setNextEvent`: the list it leaves, and its `nextStartingEvent`. -/
def parseEvents (c : Clock) :
    Option Nat → Int → List TimerNode → List TimerNode × Option Nat
  | next, _, [] => ([], next)
  | next, timeToNextEvent, n :: ns =>
    let keep (n : TimerNode) (next : Option Nat) (timeToNextEvent : Int) :=
      let r := parseEvents c next timeToNextEvent ns
      (n :: r.1, r.2)
    if n.entry.has isRepeating then
      let tmp := c.startTime n.entry
      if tmp - c.now < timeToNextEvent ∧ c.now < tmp + n.entry.duration then
        keep n (some n.handle) (tmp - c.now)
      else keep n next timeToNextEvent
    else if n.entry.has stateWaiting then
      if n.entry.has stateError then
        keep { n with entry := n.entry.unset stateWaiting } next timeToNextEvent
      else if n.entry.timeBegin + n.entry.duration < c.now then
        let entry := (n.entry.unset stateWaiting).set (stateError ||| errorOutdated)
        keep { n with entry := entry } next timeToNextEvent
      else if n.entry.has doFinishOnly then (n :: ns, some n.handle)
      else if n.entry.timeBegin - c.now < timeToNextEvent then
        keep n (some n.handle) (n.entry.timeBegin - c.now)
      else keep n next timeToNextEvent
    else if n.entry.has doFinishOnly then parseEvents c next timeToNextEvent ns
    else keep n next timeToNextEvent

/-- What is done with `prevEvent` at the end. -/
def leavePrevEvent (s : TimerManager) (prevEvent : Option Nat) : Option TimerManager :=
  match prevEvent with
  | none => some s
  | some prev =>
    match s.find prev with
    | none => none
    | some e =>
      if e.has isRepeating && e.has stateFinished && !e.has stateWaiting then
        some { s with list := s.list.map (change prev (·.set stateWaiting)) }
      else some s

def setNextEvent (c : Clock) (s : TimerManager) : Option TimerManager :=
  let r := parseEvents c none 2147483647 s.list
  let s' := { s with list := r.1, nextStartingEvent := r.2 }
  let nextAction :=
    match s'.next with
    | none => s.nextAction
    | some e => if e.has recTimerEntry && e.has recNgrab then .prepareEvent else .zap
  { s' with nextAction := nextAction }.leavePrevEvent s.nextStartingEvent

def stopRecording (s : TimerManager) : Option TimerManager := s.next.map fun _ => s

/-- A running event becomes a finished one, if it has no error. -/
def finish (e : PlaylistEntry) : PlaylistEntry :=
  let e := e.unset stateRunning
  if e.has stateError then e else e.set stateFinished

def stopEvent (s : TimerManager) : Option TimerManager :=
  s.next.bind fun e =>
    if e.has stateRunning then
      let s := s.changeNext finish
      let stopped :=
        if e.has recTimerEntry then { s with nextAction := .stopRecording }.stopRecording
        else some s
      stopped.bind fun s => s.next.map fun _ => { s with nextAction := .setNextEvent }
    else some { s with nextAction := .setNextEvent }

def abortEvent (c : Clock) (err : BitVec 32) (s : TimerManager) : Option TimerManager :=
  s.next.bind fun e =>
    let s :=
      if e.has stateWaiting then
        s.changeNext fun e =>
          let e := (e.unset stateWaiting).set stateRunning
          if e.has isRepeating then c.activate e else e
      else s
    ({ s with nextAction := .stopEvent }.changeNext (·.set (stateError ||| err))).stopEvent

def startRecording (v : TimerEnv) (s : TimerManager) : Option TimerManager :=
  s.next.bind fun e =>
    if e.has recDVR && v.recordFails then s.abortEvent v.clock errorNoSpaceLeft else some s

def startEvent (v : TimerEnv) (s : TimerManager) : Option TimerManager :=
  s.next.bind fun e =>
    let s := s.changeNext fun e =>
      ((if e.has isRepeating then v.clock.activate e else e).unset stateWaiting).set stateRunning
    let started :=
      if !e.has doFinishOnly && e.has recTimerEntry then
        { s with nextAction := .startRecording }.startRecording v
      else some s
    started.bind fun s =>
      if v.playbackDvb then some s
      else s.next.map fun _ => { s with nextAction := .stopEvent }

def startCountdown (s : TimerManager) : Option TimerManager :=
  s.next.map fun _ =>
    { s with nextAction := .startEvent }.changeNext fun e =>
      if e.has isRepeating then
        (e.unset (stateError ||| stateFinished ||| statePaused ||| errorNoSpaceLeft |||
          errorUserAborted ||| errorZapFailed ||| errorOutdated)).set stateWaiting
      else e

def actionHandler (v : TimerEnv) (s : TimerManager) : Option TimerManager :=
  match s.nextAction with
  | .zap => s.next.map fun _ =>
    if v.zapLater then { s with nextAction := .zap }
    else if v.sameService then { s with nextAction := .startCountdown }
    else s
  | .prepareEvent => s.next.map fun e =>
    if e.has recNgrab then { s with nextAction := .zap } else s
  | .startCountdown => s.startCountdown
  | .setNextEvent => s.setNextEvent v.clock
  | .startEvent => s.startEvent v
  | .stopEvent => s.stopEvent
  | .startRecording => s.startRecording v
  | .stopRecording => s.stopRecording
  | .oldService => s.next.map fun _ => { s with nextAction := .stopEvent }
  | .updateDuration => s.next.map fun _ => { s with nextAction := .stopEvent }

/-! ## The calls -/

/-- `nextStartingEvent == end() || !(nextStartingEvent->type & stateRunning)` -/
def idle (s : TimerManager) : Option Bool :=
  match s.nextStartingEvent with
  | none => some true
  | some h => (s.find h).map fun e => !e.has stateRunning

/-- The next event runs, and is the same as an entry. -/
def runs (s : TimerManager) (entry : PlaylistEntry) : Option Bool :=
  match s.nextStartingEvent with
  | none => some false
  | some h => (s.find h).map fun e => e.same entry && e.has stateRunning

def addEventToTimerList (z : TimeZone) (c : Clock) (entry : PlaylistEntry) (s : TimerManager) :
    Option (TimerManager × Int) :=
  if s.list.any fun n => overlapping z c.now n.entry entry then some (s, -1)
  else
    let s := s.pushBack entry
    s.idle.bind fun idle =>
      if idle then ({ s with nextAction := .setNextEvent }.setNextEvent c).map (·, 1)
      else some (s, 1)

def replan (s : TimerManager) : Option TimerManager :=
  s.idle.map fun idle => if idle then { s with nextAction := .setNextEvent } else s

def deleteEventFromTimerList (c : Clock) (entry : PlaylistEntry) (force : Bool)
    (s : TimerManager) : Option TimerManager :=
  let delete (s : TimerManager) : Option TimerManager :=
    match s.list.find? fun n => n.entry.same entry with
    | none => some s
    | some n => (s.erase n.handle).replan
  (s.runs entry).bind fun runs =>
    if runs then if force then (s.abortEvent c errorUserAborted).bind delete else some s
    else delete s

def updateRunningEvent (duration : Int) (afterEvent : BitVec 32) (s : TimerManager) :
    Option TimerManager :=
  s.next.map fun e =>
    if e.has stateRunning then
      { s with nextAction := .stopEvent }.changeNext fun e =>
        { (e.unset (doGoSleep ||| doShutdown)).set afterEvent with duration := duration }
    else s

def modifyEventInTimerList (oldEntry newEntry : PlaylistEntry) (force : Bool)
    (s : TimerManager) : Option TimerManager :=
  (s.runs oldEntry).bind fun runs =>
    if runs then
      if force then
        s.updateRunningEvent newEntry.duration (newEntry.type &&& (doGoSleep ||| doShutdown))
      else some s
    else
      match s.list.find? fun n => oldEntry.same n.entry with
      | none => some s
      | some n => { s with list := s.list.map (change n.handle fun _ => newEntry) }.replan

/-- `address` is the element the entry is, if it is one of the list. -/
def removeEventFromTimerList (v : TimerEnv) (address : Option Nat) (entry : PlaylistEntry)
    (confirmed : Bool) (s : TimerManager) : Option TimerManager :=
  let entry := (address.bind s.find).getD entry
  match s.list.find? fun n => n.entry.same entry with
  | none => some s
  | some n => s.next.bind fun _ =>
    if confirmed then
      let s := s.erase n.handle
      s.next.bind fun e =>
        if s.nextStartingEvent = address then
          if e.has stateRunning then
            ({ s with nextAction := .stopEvent }.changeNext
              (·.set (stateError ||| errorUserAborted))).stopEvent
          else { s with nextAction := .setNextEvent }.setNextEvent v.clock
        else some s
    else some s

def cleanupEvents (s : TimerManager) : TimerManager :=
  { s with list := s.list.filter fun n =>
      !(n.entry.has (stateFinished ||| stateError) && !n.entry.has isRepeating) }

def clearEvents (s : TimerManager) : TimerManager :=
  { s with list := [], nextStartingEvent := none }

/-- `ePlaylist::load`, of a file with these entries. -/
def load (entries : List PlaylistEntry) (s : TimerManager) : TimerManager :=
  entries.foldl pushBack { s with list := [] }

def loadTimerList (c : Clock) (entries : List PlaylistEntry) (s : TimerManager) :
    Option TimerManager :=
  s.idle.bind fun idle =>
    if idle then some { s.load entries with nextAction := .setNextEvent }
    else s.next.bind fun current =>
      let s := s.load entries
      match s.list.find? fun n => n.entry.same current with
      | some n => some { s with
          list := s.list.map (change n.handle fun _ => current), nextStartingEvent := some n.handle }
      | none =>
        { s.pushBack current with nextStartingEvent := some s.fresh }.abortEvent c errorUserAborted

def timeChanged (s : TimerManager) : Option TimerManager := s.replan

/-- What `switchedService` is told: the old service is back, there is no stream, or
another service is there, which is the event's or not. -/
inductive Switched where
  | back
  | noStream
  | service (same : Bool)

def switchedService (c : Clock) (r : Switched) (s : TimerManager) : Option TimerManager :=
  match r with
  | .back => some { s with nextAction := .oldService }
  | .noStream => s.abortEvent c errorZapFailed
  | .service same => s.next.bind fun _ =>
    if same then some { s with nextAction := .startCountdown } else s.abortEvent c errorZapFailed

end TimerManager

inductive TimerCall where
  | add (c : Clock) (entry : PlaylistEntry)
  | delete (c : Clock) (entry : PlaylistEntry) (force : Bool)
  | modify (oldEntry newEntry : PlaylistEntry) (force : Bool)
  | remove (v : TimerEnv) (address : Option Nat) (entry : PlaylistEntry) (confirmed : Bool)
  | cleanup
  | clear
  | load (c : Clock) (entries : List PlaylistEntry)
  | abort (c : Clock) (err : BitVec 32)
  | update (duration : Int) (afterEvent : BitVec 32)
  | timeChanged
  | switched (c : Clock) (r : TimerManager.Switched)
  | action (v : TimerEnv)

namespace TimerManager

/-- One call, from outside or by the timer of the action handler. -/
def step (z : TimeZone) (s : TimerManager) : TimerCall → Option TimerManager
  | .add c entry => (s.addEventToTimerList z c entry).map (·.1)
  | .delete c entry force => s.deleteEventFromTimerList c entry force
  | .modify oldEntry newEntry force => s.modifyEventInTimerList oldEntry newEntry force
  | .remove v address entry confirmed => s.removeEventFromTimerList v address entry confirmed
  | .cleanup => some s.cleanupEvents
  | .clear => some s.clearEvents
  | .load c entries => s.loadTimerList c entries
  | .abort c err => s.abortEvent c err
  | .update duration afterEvent => s.updateRunningEvent duration afterEvent
  | .timeChanged => s.timeChanged
  | .switched c r => s.switchedService c r
  | .action v => s.actionHandler v

/-! ## When elements of the list are dereferenced -/

def handles (l : List TimerNode) : List Nat := l.map (·.handle)

/-- The next event is an element of the list. -/
def Live (s : TimerManager) : Prop := ∃ h, s.nextStartingEvent = some h ∧ h ∈ handles s.list

/-- It is, if there is one. -/
def LiveOrEnd (s : TimerManager) : Prop :=
  ∀ h, s.nextStartingEvent = some h → h ∈ handles s.list

/-- An event that only finishes another one and waits no more is erased. -/
def Old (n : TimerNode) : Prop :=
  n.entry.has isRepeating = false ∧ n.entry.has stateWaiting = false ∧
    n.entry.has doFinishOnly = true

/-- Such an event that waits is the last one that is looked at. -/
def Stops (c : Clock) (n : TimerNode) : Prop :=
  n.entry.has isRepeating = false ∧ n.entry.has stateWaiting = true ∧
    n.entry.has stateError = false ∧ c.now ≤ n.entry.timeBegin + n.entry.duration ∧
    n.entry.has doFinishOnly = true

/-- An element stays that is not old, or behind one where the loop ends. -/
def Stays (c : Clock) (h : Nat) (l : List TimerNode) : Prop :=
  ∃ l₁ n l₂, l = l₁ ++ n :: l₂ ∧ n.handle = h ∧ (Old n → ∃ m ∈ l₁, Stops c m)

/-- The next event, if there is one, is an element that `setNextEvent` does not erase. -/
def KeptNext (c : Clock) (s : TimerManager) : Prop :=
  ∀ h, s.nextStartingEvent = some h → Stays c h s.list

/-- The next event, if there is one, does not run. -/
def Idle (s : TimerManager) : Prop := ∀ e, s.next = some e → e.has stateRunning = false

def Runs (s : TimerManager) (entry : PlaylistEntry) : Prop :=
  ∃ e, s.next = some e ∧ e.same entry = true ∧ e.has stateRunning = true

/-- The first element that is the same as an entry. -/
def First (s : TimerManager) (entry : PlaylistEntry) (n : TimerNode) : Prop :=
  s.list.find? (fun n => n.entry.same entry) = some n

/-- The call dereferences elements of the list only. -/
def Ok (z : TimeZone) (s : TimerManager) : TimerCall → Prop
  | .add c entry => (∃ n ∈ s.list, overlapping z c.now n.entry entry = true) ∨
      s.LiveOrEnd ∧ (s.Idle → (s.pushBack entry).KeptNext c)
  | .delete _ entry force => s.LiveOrEnd ∧ ((s.Runs entry → force = true) →
      ∀ n, s.First entry n → s.nextStartingEvent ≠ some n.handle)
  | .modify .. => s.LiveOrEnd
  | .remove v address entry confirmed => ∀ n, s.First ((address.bind s.find).getD entry) n →
      s.Live ∧ (confirmed = true → s.nextStartingEvent ≠ some n.handle ∧
        (s.nextStartingEvent = address → s.Idle → (s.erase n.handle).KeptNext v.clock))
  | .cleanup => True
  | .clear => True
  | .load .. => s.LiveOrEnd
  | .abort .. => s.Live
  | .update .. => s.Live
  | .timeChanged => s.LiveOrEnd
  | .switched _ r => match r with
    | .back => True
    | _ => s.Live
  | .action v => match s.nextAction with
    | .setNextEvent => s.KeptNext v.clock
    | _ => s.Live

end TimerManager

end Tuxbox.Enigma
