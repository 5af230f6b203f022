import Tuxbox.Lib.Exchange
import Tuxbox.Timerd.Change

/-! How the client of timerd and the daemon frame their messages. The client
decides from its arguments what follows a command, the daemon from the command
and its events. -/
namespace Tuxbox.Timerd

/-! ## Messages -/

/-- The structures that are sent. `unsignedInt` is the bare timer id of
`getTimer`. -/
inductive Struct
  | commandRegisterEvent
  | commandUnRegisterEvent
  | commandAddTimer
  | commandGetTimer
  | commandModifyTimer
  | commandRescheduleTimer
  | commandRemind
  | commandExecPlugin
  | commandRecordDir
  | commandSetAPid
  | commandRemoveTimer
  | commandSetStandby
  | commandRecordingSafety
  | commandZaptoSafety
  | transferEventInfo
  | transferRecordingInfo
  | generalInteger
  | responseAddTimer
  | responseAvailable
  | responseGetSleeptimer
  | responseStatus
  | responseGetTimer
  | unsignedInt
  deriving DecidableEq

def recordDirMaxlen : Nat := 100

/-- `sizeof` of the structures, the same in both programs. A structure of one
array of characters has the size of the array, one of an `int` that of an
`unsigned`. -/
structure Layout where
  sizeof : Struct → Nat
  pos : ∀ s, 0 < sizeof s
  recordDir : sizeof .commandRecordDir = recordDirMaxlen
  timerID : sizeof .unsignedInt = sizeof .commandGetTimer

/-- `CTimerEventTypes` -/
inductive EventType
  | shutdown
  | nextProgram
  | zapto
  | standby
  | record
  | remind
  | sleeptimer
  | execPlugin
  | immediateRecord
  | adzap
  deriving DecidableEq

/-- A command and what its structure says that the daemon decides by. -/
inductive Message
  | registerEvent
  | unRegisterEvent
  | getSleeptimer
  | getTimer
  | getTimerList
  | rescheduleTimer
  | modifyTimer (eventID : Int)
  | addTimer (eventType : EventType)
  | removeTimer
  | stopTimer
  | timerdAvailable
  | shutdown
  | setAPid
  | setRecSafety
  | getRecSafety
  | setZaptoSafety
  | getZaptoSafety

/-! ## The daemon -/

/-- `getEventType`, as far as it is looked at. -/
def CTimerManager.storesRecord (m : CTimerManager) (eventID : Int) : Bool :=
  match eventID with
  | .ofNat id => ((m.events.find id).map fun e => e.data.isRecord).getD false
  | .negSucc _ => false

/-- What `CMD_ADDTIMER` receives after its structure. -/
def receivedData : EventType → List Struct
  | .standby => [.commandSetStandby]
  | .record => [.transferRecordingInfo]
  | .immediateRecord => [.transferEventInfo]
  | .zapto => [.transferEventInfo]
  | .nextProgram => [.transferEventInfo]
  | .remind => [.commandRemind]
  | .execPlugin => [.commandExecPlugin]
  | .shutdown => []
  | .sleeptimer => []
  | .adzap => []

/-- What `parse_command` receives after the header. -/
def parseCommandReceives (m : CTimerManager) : Message → List Struct
  | .registerEvent => [.commandRegisterEvent]
  | .unRegisterEvent => [.commandUnRegisterEvent]
  | .getSleeptimer => []
  | .getTimer => [.commandGetTimer]
  | .getTimerList => []
  | .rescheduleTimer => [.commandRescheduleTimer]
  | .modifyTimer eventID =>
    if m.storesRecord eventID then [.commandModifyTimer, .commandRecordDir]
    else [.commandModifyTimer]
  | .addTimer eventType => .commandAddTimer :: receivedData eventType
  | .removeTimer => [.commandRemoveTimer]
  | .stopTimer => [.commandRemoveTimer]
  | .timerdAvailable => []
  | .shutdown => []
  | .setAPid => [.commandSetAPid]
  | .setRecSafety => [.commandRecordingSafety]
  | .getRecSafety => []
  | .setZaptoSafety => [.commandZaptoSafety]
  | .getZaptoSafety => []

/-- What `parse_command` sends back. The list of the timers comes with their
number. -/
def parseCommandReplies (m : CTimerManager) : Message → List Struct
  | .getSleeptimer => [.responseGetSleeptimer]
  | .getTimer => [.responseGetTimer]
  | .getTimerList => .generalInteger :: List.replicate m.events.size .responseGetTimer
  | .rescheduleTimer => [.responseStatus]
  | .modifyTimer _ => [.responseStatus]
  | .addTimer _ => [.responseAddTimer]
  | .timerdAvailable => [.responseAvailable]
  | .shutdown => [.responseStatus]
  | .getRecSafety => [.commandRecordingSafety]
  | .getZaptoSafety => [.commandZaptoSafety]
  | .registerEvent => []
  | .unRegisterEvent => []
  | .removeTimer => []
  | .stopTimer => []
  | .setAPid => []
  | .setRecSafety => []
  | .setZaptoSafety => []

/-! ## The client -/

/-- A connection the client opens. `data` of `modifyTimerEvent` is the length that
comes with a pointer, `none` for a null pointer; `data` of `addTimerEvent` says
that the pointer is not null. -/
inductive Request
  | registerEvent
  | unRegisterEvent
  | getSleeptimerID
  | getTimerList
  | getTimer (timerID : Nat)
  | modifyTimerEvent (eventid : Int) (data : Option Nat)
  | rescheduleTimerEvent (eventid : Int)
  | addTimerEvent (evType : EventType) (data : Bool)
  | removeTimerEvent (evId : Int)
  | isTimerdAvailable
  | shutdown
  | modifyTimerAPid (eventid : Int)
  | setRecordingSafety
  | getRecordingSafety
  | setZaptoSafety
  | getZaptoSafety
  | stopTimerEvent (evId : Int)

/-- An ad zap is sent as a zap. -/
def EventType.onWire : EventType → EventType
  | .adzap => .zapto
  | evType => evType

/-- The structure whose size `addTimerEvent` takes for the data. -/
def dataStruct : EventType → Option Struct
  | .shutdown => none
  | .sleeptimer => none
  | .nextProgram => some .transferEventInfo
  | .zapto => some .transferEventInfo
  | .immediateRecord => some .transferEventInfo
  | .adzap => some .transferEventInfo
  | .record => some .transferRecordingInfo
  | .standby => some .commandSetStandby
  | .remind => some .commandRemind
  | .execPlugin => some .commandExecPlugin

/-- The data of these types is read by the client itself and sent from a copy. -/
def EventType.copied : EventType → Bool
  | .nextProgram => true
  | .zapto => true
  | .immediateRecord => true
  | .adzap => true
  | .record => true
  | _ => false

namespace Request

/-- The command and what the daemon will read in it. -/
def message : Request → Message
  | registerEvent => .registerEvent
  | unRegisterEvent => .unRegisterEvent
  | getSleeptimerID => .getSleeptimer
  | getTimerList => .getTimerList
  | getTimer _ => .getTimer
  | modifyTimerEvent eventid _ => .modifyTimer eventid
  | rescheduleTimerEvent _ => .rescheduleTimer
  | addTimerEvent evType _ => .addTimer evType.onWire
  | removeTimerEvent _ => .removeTimer
  | isTimerdAvailable => .timerdAvailable
  | shutdown => .shutdown
  | modifyTimerAPid _ => .setAPid
  | setRecordingSafety => .setRecSafety
  | getRecordingSafety => .getRecSafety
  | setZaptoSafety => .setZaptoSafety
  | getZaptoSafety => .getZaptoSafety
  | stopTimerEvent _ => .stopTimer

/-- The sizes of what is sent after the header. -/
def sent (l : Layout) : Request → List Nat
  | registerEvent => [l.sizeof .commandRegisterEvent]
  | unRegisterEvent => [l.sizeof .commandUnRegisterEvent]
  | getSleeptimerID => []
  | getTimerList => []
  | getTimer _ => [l.sizeof .unsignedInt]
  | modifyTimerEvent _ data =>
    let datalen := data.getD 0
    if datalen ≠ 0 then [l.sizeof .commandModifyTimer, datalen] else [l.sizeof .commandModifyTimer]
  | rescheduleTimerEvent _ => [l.sizeof .commandRescheduleTimer]
  | addTimerEvent evType data =>
    match dataStruct evType.onWire with
    | some struct =>
      if data || evType.copied then [l.sizeof .commandAddTimer, l.sizeof struct]
      else [l.sizeof .commandAddTimer]
    | none => [l.sizeof .commandAddTimer]
  | removeTimerEvent _ => [l.sizeof .commandRemoveTimer]
  | isTimerdAvailable => []
  | shutdown => []
  | modifyTimerAPid _ => [l.sizeof .commandSetAPid]
  | setRecordingSafety => [l.sizeof .commandRecordingSafety]
  | getRecordingSafety => []
  | setZaptoSafety => [l.sizeof .commandZaptoSafety]
  | getZaptoSafety => []
  | stopTimerEvent _ => [l.sizeof .commandRemoveTimer]

/-- The sizes of what is read then; `number` is the number of timers that the
reply to `CMD_GETTIMERLIST` starts with. -/
def read (l : Layout) (number : Nat) : Request → List Nat
  | getSleeptimerID => [l.sizeof .responseGetSleeptimer]
  | getTimerList =>
    l.sizeof .generalInteger :: List.replicate number (l.sizeof .responseGetTimer)
  | getTimer _ => [l.sizeof .responseGetTimer]
  | modifyTimerEvent _ _ => [l.sizeof .responseStatus]
  | rescheduleTimerEvent _ => [l.sizeof .responseStatus]
  | addTimerEvent _ _ => [l.sizeof .responseAddTimer]
  | isTimerdAvailable => [l.sizeof .responseAvailable]
  | shutdown => [l.sizeof .responseStatus]
  | getRecordingSafety => [l.sizeof .commandRecordingSafety]
  | getZaptoSafety => [l.sizeof .commandZaptoSafety]
  | registerEvent => []
  | unRegisterEvent => []
  | removeTimerEvent _ => []
  | modifyTimerAPid _ => []
  | setRecordingSafety => []
  | setZaptoSafety => []
  | stopTimerEvent _ => []

/-- The connection as both sides see it. -/
def script (l : Layout) (m : CTimerManager) (r : Request) : Exchange.Script where
  sent := r.sent l
  received := (parseCommandReceives m r.message).map l.sizeof
  replied := (parseCommandReplies m r.message).map l.sizeof
  read := r.read l m.events.size

end Request

/-! ## The methods of the client -/

/-- What earlier connections of a method gave: the id of the sleeptimer, and
whether a timer overlaps the new one. -/
structure Answers where
  sleeptimerID : Int
  overlapping : Bool

/-- The public methods that send a command. -/
inductive Method
  | registerEvent
  | unRegisterEvent
  | setSleeptimer (timerid : Int)
  | getSleeptimerID
  | getSleepTimerRemaining
  | getTimerList
  | getTimer (timerID : Nat)
  | modifyTimerEvent (eventid : Int) (data : Option Nat)
  | modifyRecordTimerEvent (eventid : Int)
  | rescheduleTimerEvent (eventid : Int)
  | addTimerEvent (evType : EventType) (data forceadd : Bool)
  | removeTimerEvent (evId : Int)
  | stopTimerEvent (evId : Int)
  | isTimerdAvailable
  | getOverlappingTimers
  | shutdown
  | modifyTimerAPid (eventid : Int)
  | setRecordingSafety
  | getRecordingSafety
  | setZaptoSafety
  | getZaptoSafety

namespace Method

/-- The connections of a method. A null pointer where the data is copied ends the
client before it connects. -/
def requests (l : Layout) (a : Answers) : Method → List Request
  | registerEvent => [.registerEvent]
  | unRegisterEvent => [.unRegisterEvent]
  | setSleeptimer timerid =>
    let timerID := if timerid = 0 then a.sleeptimerID else timerid
    (if timerid = 0 then [.getSleeptimerID] else []) ++
      (if timerID ≠ 0 then [.modifyTimerEvent timerID none] else [.addTimerEvent .sleeptimer false])
  | getSleeptimerID => [.getSleeptimerID]
  | getSleepTimerRemaining =>
    if a.sleeptimerID ≠ 0 then [.getSleeptimerID, .getTimer a.sleeptimerID.toNat]
    else [.getSleeptimerID]
  | getTimerList => [.getTimerList]
  | getTimer timerID => [.getTimer timerID]
  | modifyTimerEvent eventid data => [.modifyTimerEvent eventid data]
  | modifyRecordTimerEvent eventid =>
    [.modifyTimerEvent eventid (some (l.sizeof .commandRecordDir))]
  | rescheduleTimerEvent eventid => [.rescheduleTimerEvent eventid]
  | addTimerEvent evType data forceadd =>
    let check : List Request := if forceadd then [] else [.getTimerList, .getRecordingSafety]
    if !forceadd && a.overlapping || evType.copied && !data then check
    else check ++ [.addTimerEvent evType data]
  | removeTimerEvent evId => [.removeTimerEvent evId]
  | stopTimerEvent evId => [.stopTimerEvent evId]
  | isTimerdAvailable => [.isTimerdAvailable]
  | getOverlappingTimers => [.getTimerList, .getRecordingSafety]
  | shutdown => [.shutdown]
  | modifyTimerAPid eventid => [.modifyTimerAPid eventid]
  | setRecordingSafety => [.setRecordingSafety]
  | getRecordingSafety => [.getRecordingSafety]
  | setZaptoSafety => [.setZaptoSafety]
  | getZaptoSafety => [.getZaptoSafety]

def addSleepTimerEvent : Method := .addTimerEvent .sleeptimer false true

def addShutdownTimerEvent : Method := .addTimerEvent .shutdown false true

def addRecordTimerEvent (forceAdd : Bool) : Method := .addTimerEvent .record true forceAdd

def addImmediateRecordTimerEvent : Method := .addTimerEvent .immediateRecord true true

def addStandbyTimerEvent : Method := .addTimerEvent .standby true true

def addZaptoTimerEvent : Method := .addTimerEvent .zapto true true

def addAdZaptoTimerEvent : Method := .addTimerEvent .adzap true true

def addNextProgramTimerEvent : Method := .addTimerEvent .nextProgram true true

end Method

/-! ## Where they agree -/

/-- The data of `modifyTimerEvent` is a recording directory exactly if the timer is
a recording, and what `addTimerEvent` sends from the caller's pointer is there. -/
def Request.Fits (m : CTimerManager) : Request → Prop
  | .modifyTimerEvent eventid data =>
    data.getD 0 = if m.storesRecord eventid then recordDirMaxlen else 0
  | .addTimerEvent evType data =>
    evType = .standby ∨ evType = .remind ∨ evType = .execPlugin → data = true
  | _ => True

section
variable {l : Layout} {m : CTimerManager}

theorem script_modify (eventid : Int) (data : Option Nat) :
    (((Request.modifyTimerEvent eventid data).script l m).sent.sum =
        ((Request.modifyTimerEvent eventid data).script l m).received.sum ↔
      (Request.modifyTimerEvent eventid data).Fits m) ∧
    ((Request.modifyTimerEvent eventid data).Fits m →
      ((Request.modifyTimerEvent eventid data).script l m).sent =
        ((Request.modifyTimerEvent eventid data).script l m).received) := by
  have hdir := l.recordDir
  simp only [Request.script, Request.sent, Request.message, parseCommandReceives, Request.Fits]
  cases m.storesRecord eventid with
  | true =>
    by_cases hlen : data.getD 0 = 0
    · simp [hlen, recordDirMaxlen, hdir]
    · simp [hlen, hdir]
  | false =>
    by_cases hlen : data.getD 0 = 0
    · simp [hlen]
    · simp [hlen]

/-- After `CMD_ADDTIMER` both sides take the same structure for the data. -/
theorem receivedData_onWire (evType : EventType) :
    receivedData evType.onWire = (dataStruct evType.onWire).toList := by
  cases evType <;> rfl

theorem script_add (evType : EventType) (data : Bool) :
    (((Request.addTimerEvent evType data).script l m).sent.sum =
        ((Request.addTimerEvent evType data).script l m).received.sum ↔
      (Request.addTimerEvent evType data).Fits m) ∧
    ((Request.addTimerEvent evType data).Fits m →
      ((Request.addTimerEvent evType data).script l m).sent =
        ((Request.addTimerEvent evType data).script l m).received) := by
  simp only [Request.script, Request.sent, Request.message, parseCommandReceives, Request.Fits,
    receivedData_onWire]
  cases hs : dataStruct evType.onWire with
  | none =>
    have hkind : ¬(evType = .standby ∨ evType = .remind ∨ evType = .execPlugin) := by
      rintro (rfl | rfl | rfl) <;> simp [EventType.onWire, dataStruct] at hs
    simp [hkind]
  | some struct =>
    have hpos := l.pos struct
    have hkind : evType.copied = false ↔
        evType = .standby ∨ evType = .remind ∨ evType = .execPlugin := by
      cases evType <;> simp [EventType.onWire, dataStruct, EventType.copied] at hs ⊢
    rw [← hkind]
    cases hcopied : evType.copied with
    | true => simp
    | false =>
      cases data with
      | true => simp
      | false =>
        simp
        omega

theorem script_replied (r : Request) : (r.script l m).replied = (r.script l m).read := by
  cases r with
  | getTimerList => simp [Request.script, Request.read, Request.message, parseCommandReplies]
  | _ => rfl

theorem script_completes (r : Request) :
    ((r.script l m).Completes ↔ r.Fits m) ∧
      (r.Fits m → (r.script l m).sent = (r.script l m).received) := by
  have hreply : (r.script l m).replied.sum = (r.script l m).read.sum :=
    congrArg List.sum (script_replied r)
  simp only [Exchange.completes_iff, hreply, and_true]
  cases r with
  | modifyTimerEvent eventid data => exact script_modify eventid data
  | addTimerEvent evType data => exact script_add evType data
  | getTimer timerID =>
    have hsent : ((Request.getTimer timerID).script l m).sent =
        ((Request.getTimer timerID).script l m).received := congrArg (fun n => [n]) l.timerID
    exact ⟨iff_of_true (congrArg List.sum hsent) trivial, fun _ => hsent⟩
  | _ => exact ⟨iff_of_true rfl trivial, fun _ => rfl⟩

end

/-- The connections of a method end on both sides with no byte left, whatever the
order in which the two go on, exactly if the data of each fits the events the
daemon has then; the pieces received are then the pieces sent, and the pieces read
those of the reply. -/
theorem framing_agrees (l : Layout) (method : Method) (a : Answers)
    (state : Request → CTimerManager) :
    ((∀ r ∈ method.requests l a, (r.script l (state r)).Completes) ↔
      ∀ r ∈ method.requests l a, r.Fits (state r)) ∧
    ∀ r ∈ method.requests l a, r.Fits (state r) →
      (r.script l (state r)).sent = (r.script l (state r)).received ∧
        (r.script l (state r)).replied = (r.script l (state r)).read := by
  constructor
  · apply forall_congr'
    intro r
    exact imp_congr_right fun _ => (script_completes r).1
  · intro r _ hfits
    exact ⟨(script_completes r).2 hfits, script_replied r⟩

/-- The sizes on a machine of 32 bits. -/
def machine32 : Layout where
  sizeof
    | .commandRegisterEvent => 60
    | .commandUnRegisterEvent => 8
    | .commandAddTimer => 24
    | .commandModifyTimer => 24
    | .commandRemind => 31
    | .commandExecPlugin => 31
    | .commandRecordDir => 100
    | .commandSetAPid => 8
    | .commandSetStandby => 1
    | .commandRecordingSafety => 8
    | .transferEventInfo => 32
    | .transferRecordingInfo => 184
    | .responseAvailable => 1
    | .responseStatus => 1
    | .responseGetTimer => 272
    | _ => 4
  pos := by
    intro s
    cases s <;> decide
  recordDir := rfl
  timerID := rfl

/-- A recording, asked for by a client. -/
def plannedRecording : AddMsg := ⟨0, 1000, 5000, repeatOnce, 0, .record ⟨0, 0, 1, 0⟩ false []⟩

/-- A directory sent for a timer that is a recording. -/
theorem framing_agrees_record :
    ∃ w, runList (step utcJanuary) (World.start none false)
        [.addTimer (noEpg 500) plannedRecording] = some w ∧
      ∀ r ∈ (Method.modifyRecordTimerEvent 1).requests machine32 ⟨0, false⟩,
        (r.script machine32 w.toCTimerManager).Completes := by
  refine ⟨_, rfl, ?_⟩
  refine ((framing_agrees machine32 _ ⟨0, false⟩ fun _ => _).1).mpr ?_
  intro r hr
  rw [List.mem_singleton.mp hr]
  rfl

/-- A recording modified without a directory leaves the daemon waiting for one
while the client waits for the reply. -/
theorem modify_without_directory :
    ∃ w, runList (step utcJanuary) (World.start none false)
        [.addTimer (noEpg 500) plannedRecording] = some w ∧
      ∃ r ∈ (Method.setSleeptimer 1).requests machine32 ⟨0, false⟩,
        r = .modifyTimerEvent 1 none ∧
        ∃ c, Exchange.Reaches (r.script machine32 w.toCTimerManager).start c ∧
          Exchange.Halted c ∧ c.toSend = [] ∧ c.up = 0 ∧ c.toReceive = [100] := by
  refine ⟨_, rfl, _, List.mem_cons_self, rfl, ⟨[], [100], [1], [1], 0, 0⟩, ?_, ?_, rfl, rfl, rfl⟩
  · apply Relation.ReflTransGen.head (Exchange.Step.send 24 [] rfl)
    exact .head (Exchange.Step.receive 24 [100] rfl (by decide)) .refl
  · intro d hd
    cases hd with
    | send n ns h => cases h
    | receive n ns h hup =>
      cases h
      exact absurd hup (by decide)
    | reply n ns hreceived h => cases hreceived
    | read n ns hsent h hdown =>
      cases h
      exact absurd hdown (by decide)

end Tuxbox.Timerd
