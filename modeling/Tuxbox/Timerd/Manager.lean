import Tuxbox.Timerd.Reload
import Tuxbox.Lib.OrdMap
import Tuxbox.Lib.Run

/-! The timer manager: the event map, the commands of the clients, the passes of
the timer thread, and what is kept of the events between two runs of the
daemon. -/
namespace Tuxbox.Timerd

structure CTimerManager extends Safety where
  eventID : Nat
  events : OrdMap Nat CTimerEvent
  timerWakeup : Bool
  saveEvents : Bool
  isTimeSet : Bool

/-- `timerd.conf`. `tags` is not in the source: it tells which timers the
entries of the file are. -/
structure TimerFile where
  text : Option Str
  tags : List Nat

/-- What happens to a timer. `created` and `loaded` put an object into the map.
`fire` is the call of `fireEvent`, which for a recording sends
`EVT_RECORD_START`; `recordStop` is `EVT_RECORD_STOP`. `deleted` is the end of
the object in the timer thread. -/
inductive Kind
  | created (evt : CTimerEvent)
  | loaded (evt : CTimerEvent)
  | announce
  | fire
  | recordStop
  | removed
  | deleted
  deriving DecidableEq

structure Notice where
  tag : Nat
  kind : Kind
  deriving DecidableEq

/-- The daemon, its file and what it has done so far. `loads` are the times at
which it read the file. -/
structure World extends CTimerManager where
  file : TimerFile
  log : List Notice
  loads : List Int
  nextTag : Nat

namespace CTimerManager

/-- The constructor; only the safety times are read from the file. -/
def create (file : Option Str) (timerWakeup : Bool) : CTimerManager where
  toSafety := readSafety file
  eventID := 0
  events := .empty
  timerWakeup := timerWakeup
  saveEvents := false
  isTimeSet := false

/-- Weekdays without a weekday are reduced to once. -/
def plainRepeat (r : Int32) : Int32 := if r = repeatWeekdays then repeatOnce else r

def addEvent (m : CTimerManager) (evt : CTimerEvent) (save : Bool) : CTimerManager :=
  let id := m.eventID + 1
  let evt := { evt with eventID := id, eventRepeat := plainRepeat evt.eventRepeat }
  { m with eventID := id, events := m.events.set id evt, saveEvents := m.saveEvents || save }

/-- The earliest announcement of another recording or zap that is planned or
running; zero if there is none. -/
def nextAnnounceTime (currEventID : Nat) : List CTimerEvent → Int → Int
  | [], next => next
  | e :: es, next =>
    if (e.data.isRecord || e.data.isZapto) ∧
        (e.eventState = .scheduled ∨ e.eventState = .preannounce ∨ e.eventState = .isRunning) ∧
        e.eventID ≠ currEventID ∧ (e.announceTime < next ∨ next = 0) then
      nextAnnounceTime currEventID es e.announceTime
    else nextAnnounceTime currEventID es next

/-- Whether a shutdown is due when a recording ends: the box woke up for a timer
and nothing is planned for the next ten minutes. -/
def shutdownDue (m : CTimerManager) (now : Int) (currEventID : Nat) : Bool :=
  let next := nextAnnounceTime currEventID (m.events.entries.map Prod.snd) 0
  m.timerWakeup && (decide (next - now > 600) || decide (next = 0))

end CTimerManager

/-! ## New events -/

/-- `CMD_ADDTIMER` with what follows it, by type. -/
inductive AddTimer
  | standby (standbyOn : Bool)
  | shutdown
  | sleeptimer
  | record (eventInfo : EventInfo) (recordingSafety : Bool) (recordingDir : Str)
  | immediateRecord (eventInfo : EventInfo)
  | zapto (eventInfo : EventInfo) (recordingSafety : Bool)
  | nextProgram
  | remind (message : Str)
  | execPlugin (name : Str)

structure AddMsg where
  announceTime : Int
  alarmTime : Int
  stopTime : Int
  eventRepeat : Int32
  repeatCount : UInt32
  timer : AddTimer

/-- The object an add command makes: scheduled, or running if the recording has
been started by the client. Next-program timers are not made, and a zap needs a
channel. -/
def AddMsg.create (msg : AddMsg) (m : CTimerManager) (sdc : Sectionsd) (tag : Nat) :
    Option CTimerEvent :=
  let base (data : EventData) : CTimerEvent :=
    { tag := tag, eventID := 0, data := data, eventState := .scheduled, previousState := .scheduled,
      eventRepeat := msg.eventRepeat, repeatCount := msg.repeatCount, alarmTime := msg.alarmTime,
      stopTime := 0, announceTime := msg.announceTime }
  let title (info : EventInfo) : Str := (sdc.getEPGidShort info.epgID).getD []
  match msg.timer with
  | .standby standbyOn => some (base (.standby standbyOn))
  | .shutdown => some (base .shutdown)
  | .sleeptimer => some (base .sleeptimer)
  | .record info recordingSafety dir =>
    let e := { base (.record info (cString dir) (title info)) with stopTime := msg.stopTime }
    if recordingSafety then
      some { e with
        announceTime := e.announceTime - m.extraTimeStart.toInt
        alarmTime := e.alarmTime - m.extraTimeStart.toInt
        stopTime := e.stopTime + m.extraTimeEnd.toInt }
    else some e
  | .immediateRecord info =>
    some { base (.record info [] (title info)) with
      stopTime := msg.stopTime
      eventState := .isRunning }
  | .zapto info recordingSafety =>
    if info.channelId > 0 then
      let e := base (.zapto { info with apids := 0 } [] (title info))
      if recordingSafety then
        some { e with
          announceTime := e.announceTime - m.zaptoExtraTimeStart.toInt
          alarmTime := e.alarmTime - m.zaptoExtraTimeStart.toInt }
      else some e
    else none
  | .nextProgram => none
  | .remind message => some (base (.remind ((cString message).take (reminderMessageMaxlen - 1))))
  | .execPlugin name => some (base (.execPlugin ((cString name).take (execPluginNameMaxlen - 1))))

/-- The shutdown that `shutdownOnWakeup` plans. -/
def wakeupShutdown (now : Int) (tag : Nat) : CTimerEvent where
  tag := tag
  eventID := 0
  data := .shutdown
  eventState := .scheduled
  previousState := .scheduled
  eventRepeat := repeatOnce
  repeatCount := 1
  alarmTime := now + 180
  stopTime := 0
  announceTime := now + 120

namespace World

/-- A start of the daemon with a file; the timers of the file are numbered. -/
def start (text : Option Str) (timerWakeup : Bool) : World where
  toCTimerManager := .create text timerWakeup
  file := ⟨text, List.range (timersIn text).length⟩
  log := []
  loads := []
  nextTag := (timersIn text).length

def note (w : World) (tag : Nat) (kinds : List Kind) : World :=
  { w with log := w.log ++ kinds.map fun k => ⟨tag, k⟩ }

def dirty (w : World) : World := { w with saveEvents := true }

/-- The object under an id changes and sends something. -/
def replace (w : World) (id tag : Nat) (kinds : List Kind) (e : CTimerEvent) (touched : Bool) :
    World :=
  let w := { w with events := w.events.set id e }.note tag kinds
  if touched then w.dirty else w

/-- `addEvent` of an object that was not there before. -/
def addNew (w : World) (evt : CTimerEvent) : World :=
  { w with
    toCTimerManager := w.toCTimerManager.addEvent evt true
    nextTag := w.nextTag + 1
    log := w.log ++ [⟨evt.tag, .created evt⟩] }

def shutdownOnWakeup (w : World) (now : Int) (currEventID : Nat) : World :=
  if w.toCTimerManager.shutdownDue now currEventID then w.addNew (wakeupShutdown now w.nextTag)
  else w

/-! ## The file -/

def saveEventsToConfig (w : World) : Option World :=
  match timerText (w.events.entries.map Prod.snd) w.toSafety with
  | none => none
  | some text =>
    some { w with
      file := ⟨some text, w.events.entries.map fun p => p.2.tag⟩
      saveEvents := false }

/-- Which timer an entry of the file is. One that was never saved, which a line
break in a text can bring about, is a new timer. -/
def tagged (tags : List Nat) (next : Nat) (es : List CTimerEvent) : List CTimerEvent :=
  es.mapIdx fun i e => { e with tag := tags[i]?.getD (next + i) }

/-- An event of the file, unless its time is over. One that repeats is kept as
finished, to be rescheduled. -/
def kept (now : Int) (e : CTimerEvent) : Option CTimerEvent :=
  if e.alarmTime ≥ now ∨ e.stopTime > now then some e
  else if e.eventRepeat ≠ repeatOnce then some { e with eventState := .hasFinished }
  else none

def loadEvent (now : Int) (w : World) (e : CTimerEvent) : World :=
  match kept now e with
  | none => w
  | some e =>
    { w with
      toCTimerManager := w.toCTimerManager.addEvent e false
      log := w.log ++ [⟨e.tag, .loaded e⟩] }

def loadEventsFromConfig (w : World) (now : Int) : Option World :=
  match readTimers w.file.text with
  | none => none
  | some es =>
    saveEventsToConfig { (tagged w.file.tags w.nextTag es).foldl (loadEvent now) w with
      loads := w.loads ++ [now]
      nextTag := w.nextTag + es.length }

/-! ## The timer thread -/

def announceEvent (e : CTimerEvent) (env : Env) : CTimerEvent := e.refresh env.sectionsd

/-- Only a recording refreshes its data when it fires. -/
def fireEvent (e : CTimerEvent) (env : Env) : CTimerEvent :=
  if e.data.isRecord then e.refresh env.sectionsd else e

def announceStep (env : Env) (e : CTimerEvent) : CTimerEvent × List Kind :=
  if e.announceTime > 0 ∧ e.eventState = .scheduled ∧ e.announceTime ≤ env.now then
    (announceEvent (e.setState .preannounce) env, [.announce])
  else (e, [])

def fireStep (env : Env) (e : CTimerEvent) : CTimerEvent × List Kind :=
  if e.alarmTime > 0 ∧ (e.eventState = .scheduled ∨ e.eventState = .preannounce) ∧
      e.alarmTime ≤ env.now then
    let e := fireEvent (e.setState .isRunning) env
    (if e.stopTime = 0 then e.setState .hasFinished else e, [.fire])
  else (e, [])

def stopWanted (env : Env) (e : CTimerEvent) : Bool :=
  e.stopTime > 0 ∧ e.eventState = .isRunning ∧ e.stopTime ≤ env.now

/-- What `stopEvent` of the event's class sends. -/
def stopNotices (e : CTimerEvent) : List Kind := if e.data.isRecord then [.recordStop] else []

def stopStep (env : Env) (e : CTimerEvent) : CTimerEvent × List Kind :=
  if stopWanted env e then (e.setState .hasFinished, stopNotices e) else (e, [])

def finishStep (lc : LibC) (env : Env) (e : CTimerEvent) : Option CTimerEvent :=
  if e.eventState = .hasFinished then
    if e.eventRepeat ≠ repeatOnce ∧ e.repeatCount ≠ 1 then e.reschedule lc env false
    else some (e.setState .terminated)
  else some e

/-- What one pass makes of an event: the event, what it sent, whether a
recording was stopped and whether a zap was fired. -/
structure Visit where
  event : CTimerEvent
  kinds : List Kind
  stopped : Bool
  zapped : Bool
  touched : Bool

def visitEvent (lc : LibC) (env : Env) (e : CTimerEvent) : Option Visit :=
  let announced := announceStep env e
  let fired := fireStep env announced.1
  let stopped := stopStep env fired.1
  let finishing : Bool := stopped.1.eventState = .hasFinished
  match finishStep lc env stopped.1 with
  | none => none
  | some e' =>
    some
      { event := e'
        kinds := announced.2 ++ fired.2 ++ stopped.2
        stopped := stopWanted env fired.1 && e.data.isRecord
        zapped := !fired.2.isEmpty && e.data.isZapto
        touched := !announced.2.isEmpty || !fired.2.isEmpty || stopWanted env fired.1 || finishing }

/-- `delete` and `erase` in the loop. -/
def delete (w : World) (id : Nat) (e : CTimerEvent) : World :=
  (({ w with events := w.events.erase id } : World).note e.tag [.deleted]).dirty

/-- The body of the loop for the event with this id. The stop of a recording
looks at the other events as they are at that time. A terminated event is
deleted. -/
def visit (lc : LibC) (env : Env) (w : World) (id : Nat) : Option World :=
  match w.events.find id with
  | none => some w
  | some e =>
    match visitEvent lc env e with
    | none => none
    | some v =>
      let w := if v.stopped then w.shutdownOnWakeup env.now id else w
      let w := if v.zapped then { w with timerWakeup := false } else w
      let w := w.replace id e.tag v.kinds v.event v.touched
      if v.event.eventState = .terminated then some (w.delete id v.event) else some w

def visitAll (lc : LibC) (env : Env) : List Nat → World → Option World
  | [], w => some w
  | id :: ids, w =>
    match visit lc env w id with
    | none => none
    | some w => visitAll lc env ids w

/-- The loop over events that are there, and whether it has erased one. It may
then go on at any others, or end. -/
def walk (lc : LibC) (env : Env) : List Nat → World → Option (World × Bool)
  | [], w => some (w, false)
  | id :: ids, w =>
    match visit lc env w id with
    | none => none
    | some w =>
      if w.events.contains id then walk lc env ids w
      else (visitAll lc env env.stray w).map fun w => (w, true)

def flush (w : World) : Option World := if w.saveEvents then w.saveEventsToConfig else some w

/-- The loop over the map in the order of the ids. Events that are added on the
way come last and are visited too. -/
def pass (lc : LibC) (env : Env) (w : World) : Option World :=
  match walk lc env w.events.keys w with
  | none => none
  | some (w', true) => w'.flush
  | some (w', false) =>
    match walk lc env (w'.events.keys.filter (w.eventID < ·)) w' with
    | none => none
    | some (w', _) => w'.flush

/-! ## Commands -/

/-- What a stop or a removal of a running event sends. -/
def stopKinds (e : CTimerEvent) : List Kind :=
  if e.eventState = .isRunning ∧ e.stopTime > 0 then stopNotices e else []

/-- The end of a running recording may plan a shutdown. -/
def afterStop (w : World) (now : Int) (id : Nat) (e : CTimerEvent) : World :=
  if stopKinds e = [.recordStop] then w.shutdownOnWakeup now id else w

def removeEvent (w : World) (now : Int) (id : Nat) : World :=
  match w.events.find id with
  | none => w
  | some e =>
    (w.afterStop now id e).replace id e.tag (stopKinds e ++ [.removed])
      { e with eventState := .terminated } false

def stopEvent (w : World) (now : Int) (id : Nat) : World :=
  match w.events.find id with
  | none => w
  | some e =>
    (w.afterStop now id e).replace id e.tag (stopKinds e) { e with eventState := .hasFinished } false

def rescheduleEvent (lc : LibC) (env : Env) (w : World) (id : Nat) : Option World :=
  match w.events.find id with
  | none => some w
  | some e =>
    if e.eventRepeat ≠ repeatOnce ∧ e.repeatCount ≠ 1 then
      match e.reschedule lc env true with
      | none => none
      | some e' => some (w.replace id e.tag [] e' true)
    else some w

/-- `modifyEvent` with times. A recording gets the directory, and it and a zap
look up their EPG data again. -/
def modified (env : Env) (announceTime alarmTime stopTime : Int) (repeatCount : UInt32)
    (eventRepeat : Int32) (recordingDir : Str) (e : CTimerEvent) : CTimerEvent :=
  let e := { e with
    announceTime := announceTime
    alarmTime := alarmTime
    stopTime := stopTime
    eventState := if e.eventState = EventState.preannounce then .scheduled else e.eventState
    eventRepeat := CTimerManager.plainRepeat eventRepeat
    repeatCount := repeatCount }
  match e.data with
  | .record info _ title =>
    ({ e with data := .record info (cString recordingDir) title }.clearEpgId).getEpgId env.sectionsd
  | .zapto .. => e.clearEpgId.getEpgId env.sectionsd
  | _ => e

def modifyEvent (w : World) (id : Nat) (f : CTimerEvent → CTimerEvent) : World :=
  match w.events.find id with
  | none => w
  | some e => w.replace id e.tag [] (f e) true

/-- `modifyEvent` with audio pids, for recordings and zaps. -/
def modifyApids (w : World) (id : Nat) (apids : UInt8) : World :=
  match w.events.find id with
  | none => w
  | some e =>
    match e.data with
    | .record info dir title =>
      w.replace id e.tag [] { e with data := .record { info with apids := apids } dir title } true
    | .zapto info dir title =>
      w.replace id e.tag [] { e with data := .zapto { info with apids := apids } dir title } true
    | _ => w

def refreshEvent (sdc : Sectionsd) (w : World) (id : Nat) : World :=
  match w.events.find id with
  | none => w
  | some e => w.replace id e.tag [] (e.refresh sdc) false

/-- Every event is refreshed when they are listed. -/
def listEvents (w : World) (sdc : Sectionsd) : World := w.events.keys.foldl (refreshEvent sdc) w

/-- The thread has ended when `shutdown` saves. The next run of the daemon
starts with the file that is left. -/
def shutdown (w : World) (timerWakeup : Bool) : Option World :=
  match w.flush with
  | none => none
  | some w => some { w with toCTimerManager := .create w.file.text timerWakeup }

end World

inductive Act
  | timeSet (env : Env)
  | pass (env : Env)
  | addTimer (env : Env) (msg : AddMsg)
  | removeEvent (env : Env) (id : Nat)
  | stopEvent (env : Env) (id : Nat)
  | rescheduleEvent (env : Env) (id : Nat)
  | modifyEvent (env : Env) (id : Nat) (announceTime alarmTime stopTime : Int) (repeatCount : UInt32)
      (eventRepeat : Int32) (recordingDir : Str)
  | modifyApids (id : Nat) (apids : UInt8)
  | listEvents (env : Env)
  | setRecordingSafety (pre post : Int32)
  | setZaptoSafety (pre : Int32)
  | shutdown (timerWakeup : Bool)

/-- The thread loads the file in the round in which the time gets known, and
makes passes from then on. -/
def act (lc : LibC) (w : World) : Act → Option World
  | .timeSet env =>
    if w.isTimeSet then none
    else { w with isTimeSet := true }.loadEventsFromConfig env.now
  | .pass env => if w.isTimeSet then w.pass lc env else none
  | .addTimer env msg =>
    match msg.create w.toCTimerManager env.sectionsd w.nextTag with
    | none => some w
    | some e => some (w.addNew e)
  | .removeEvent env id => some (w.removeEvent env.now id)
  | .stopEvent env id => some (w.stopEvent env.now id)
  | .rescheduleEvent env id => w.rescheduleEvent lc env id
  | .modifyEvent env id announceTime alarmTime stopTime repeatCount eventRepeat dir =>
    some (w.modifyEvent id (World.modified env announceTime alarmTime stopTime repeatCount
      eventRepeat dir))
  | .modifyApids id apids => some (w.modifyApids id apids)
  | .listEvents env => some (w.listEvents env.sectionsd)
  | .setRecordingSafety pre post =>
    some { w with extraTimeStart := pre, extraTimeEnd := post, saveEvents := true }
  | .setZaptoSafety pre => some { w with zaptoExtraTimeStart := pre, saveEvents := true }
  | .shutdown timerWakeup => w.shutdown timerWakeup

/-- Ids are of type `int`. What a manager does after its counter has overflowed
is not defined, so no run goes that far. -/
def step (lc : LibC) (w : World) (a : Act) : Option World :=
  (act lc w a).filter fun w => w.eventID < 2 ^ 31

end Tuxbox.Timerd
