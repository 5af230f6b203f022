import Tuxbox.Config.Fields
import Tuxbox.Timerd.Event

/-! How the timers get into `timerd.conf` and out of it again. Every class
writes fields of its own under keys that end with the id of the event, and the
key `IDS` lists the ids. -/
namespace Tuxbox.Timerd
open Config

def EventData.eventType : EventData → Int32
  | .shutdown => 1
  | .nextProgram _ => 2
  | .zapto .. => 3
  | .standby _ => 4
  | .record .. => 5
  | .remind _ => 6
  | .sleeptimer => 7
  | .execPlugin _ => 8

def keyOf (name : String) (id : Int32) : Str := chars name ++ decInt id.toInt

/-- The setter for a value. -/
def assign (key : Str) : Answer → Assign
  | .bool v => .setBool key v
  | .int32 v => .setInt32 key v
  | .int64 v => .setInt64 key v
  | .string v => .setString key v
  | .int32Vector v => .setInt32Vector key v
  | .stringVector v => .setStringVector key v

/-! ## Writing -/

/-- The pids of a recording are written as a 64-bit number, those of a next
program as a 32-bit one. -/
def infoFields (info : EventInfo) (apids : Answer) : List (String × Answer) :=
  [("EVENT_INFO_EPG_ID_", .int64 info.epgID.toInt64),
    ("EVENT_INFO_EPG_STARTTIME_", .int64 (.ofInt info.epgStarttime)),
    ("EVENT_INFO_CHANNEL_ID_", .int64 info.channelId.toInt64),
    ("EVENT_INFO_APIDS_", apids)]

def dataFields : EventData → List (String × Answer)
  | .shutdown | .sleeptimer => []
  | .nextProgram info => infoFields info (.int32 (.ofNat info.apids.toNat))
  | .zapto info dir title | .record info dir title =>
    infoFields info (.int64 (.ofNat info.apids.toNat)) ++
      [("REC_DIR_", .string dir), ("EPG_TITLE_", .string title)]
  | .standby standbyOn => [("STANDBY_ON_", .bool standbyOn)]
  | .remind message => [("MESSAGE_", .string message)]
  | .execPlugin name => [("NAME_", .string name)]

def baseFields (e : CTimerEvent) : List (String × Answer) :=
  [("EVENT_TYPE_", .int32 e.data.eventType),
    ("EVENT_STATE_", .int32 e.eventState.code),
    ("PREVIOUS_STATE_", .int32 e.previousState.code),
    ("EVENT_REPEAT_", .int32 e.eventRepeat),
    ("ANNOUNCE_TIME_", .int32 (.ofInt e.announceTime)),
    ("ALARM_TIME_", .int32 (.ofInt e.alarmTime)),
    ("STOP_TIME_", .int32 (.ofInt e.stopTime)),
    ("REPEAT_COUNT_", .int32 e.repeatCount.toInt32)]

def fields (e : CTimerEvent) : List (String × Answer) := baseFields e ++ dataFields e.data

def idOf (e : CTimerEvent) : Int32 := .ofNat e.eventID

def assigns (e : CTimerEvent) : List Assign :=
  (fields e).map fun f => assign (keyOf f.1 (idOf e)) f.2

/-- `saveToConfig` of the event's class. The list of ids is read, extended and
written for every event. -/
def saveToConfig (e : CTimerEvent) (config : CConfigFile) : Option CConfigFile :=
  match config.getInt32Vector (chars "IDS") with
  | none => none
  | some (allIDs, config) =>
    some (execAll (config.setInt32Vector (chars "IDS") (allIDs ++ [idOf e])) (assigns e))

def saveTimers : List CTimerEvent → CConfigFile → Option CConfigFile
  | [], config => some config
  | e :: es, config =>
    match saveToConfig e config with
    | none => none
    | some config => saveTimers es config

/-- The times added around recordings and zaps. -/
structure Safety where
  extraTimeStart : Int32
  extraTimeEnd : Int32
  zaptoExtraTimeStart : Int32
  deriving DecidableEq

def safetyAssigns (safety : Safety) : List Assign :=
  [.setInt32 (chars "EXTRA_TIME_START") safety.extraTimeStart,
    .setInt32 (chars "EXTRA_TIME_END") safety.extraTimeEnd,
    .setInt32 (chars "ZAPTO_EXTRA_TIME_START") safety.zaptoExtraTimeStart]

/-- The separator of the id list. -/
def comma : Byte := 44

/-- The text of the file. -/
def timerText (es : List CTimerEvent) (safety : Safety) : Option Str :=
  match saveTimers es (create comma true).clear with
  | none => none
  | some config => ((execAll config (safetyAssigns safety)).saveConfig true equals).1

/-! ## Reading

A getter changes the configuration only under its own key, and only to what it
answers; so every value is read from the file as it was loaded. -/

def readInfo (config : CConfigFile) (id : Int32) : EventInfo where
  epgID := (config.getInt64 (keyOf "EVENT_INFO_EPG_ID_" id) 0).1.toUInt64
  epgStarttime := (config.getInt64 (keyOf "EVENT_INFO_EPG_STARTTIME_" id) 0).1.toInt
  channelId := (config.getInt64 (keyOf "EVENT_INFO_CHANNEL_ID_" id) 0).1.toUInt64
  apids := (config.getInt32 (keyOf "EVENT_INFO_APIDS_" id) 0).1.toUInt32.toUInt8

/-- The part of the constructors that depends on the class. Of other types no
event is made. -/
def readData (config : CConfigFile) (id type : Int32) : Option EventData :=
  let text (name : String) : Str := (config.getString (keyOf name id) []).1
  if type = 1 then some .shutdown
  else if type = 2 then some (.nextProgram (readInfo config id))
  else if type = 3 then some (.zapto (readInfo config id) (text "REC_DIR_") (text "EPG_TITLE_"))
  else if type = 4 then some (.standby (config.getBool (keyOf "STANDBY_ON_" id) false).1)
  else if type = 5 then some (.record (readInfo config id) (text "REC_DIR_") (text "EPG_TITLE_"))
  else if type = 6 then some (.remind (cString (text "MESSAGE_")))
  else if type = 7 then some .sleeptimer
  else if type = 8 then some (.execPlugin (cString (text "NAME_")))
  else none

/-- The constructor of `CTimerEvent` with a configuration. -/
def readBase (config : CConfigFile) (id : Int32) (data : EventData) : CTimerEvent :=
  let number (name : String) : Int32 := (config.getInt32 (keyOf name id) 0).1
  { tag := 0
    eventID := 0
    data := data
    eventState := .ofCode (number "EVENT_STATE_")
    previousState := .ofCode (number "PREVIOUS_STATE_")
    eventRepeat := number "EVENT_REPEAT_"
    repeatCount := (number "REPEAT_COUNT_").toUInt32
    alarmTime := (number "ALARM_TIME_").toInt
    stopTime := (number "STOP_TIME_").toInt
    announceTime := (number "ANNOUNCE_TIME_").toInt }

def readEvent (config : CConfigFile) (id : Int32) : Option CTimerEvent :=
  (readData config id (config.getInt32 (keyOf "EVENT_TYPE_" id) 0).1).map (readBase config id)

def reminderMessageMaxlen : Nat := 31

def execPluginNameMaxlen : Nat := 31

/-- `strcpy` writes behind the array. -/
def EventData.overruns : EventData → Bool
  | .remind message => reminderMessageMaxlen ≤ message.length
  | .execPlugin name => execPluginNameMaxlen ≤ name.length
  | _ => false

/-- A missing file leaves the configuration empty. -/
def loadedConfig (text : Option Str) : CConfigFile := ((create comma true).loadConfig text equals).2

/-- The timers that the loader makes of a file, in the order of `IDS`. -/
def readTimers (text : Option Str) : Option (List CTimerEvent) :=
  let config := loadedConfig text
  match config.getInt32Vector (chars "IDS") with
  | none => none
  | some (savedIDs, _) =>
    let es := savedIDs.filterMap (readEvent config)
    if es.any (·.data.overruns) then none else some es

def readSafety (text : Option Str) : Safety :=
  let config := loadedConfig text
  { extraTimeStart := (config.getInt32 (chars "EXTRA_TIME_START") 0).1
    extraTimeEnd := (config.getInt32 (chars "EXTRA_TIME_END") 0).1
    zaptoExtraTimeStart := (config.getInt32 (chars "ZAPTO_EXTRA_TIME_START") 0).1 }

/-- The timers of a file, also when its id list is too long for the loader. -/
def timersIn (text : Option Str) : List CTimerEvent :=
  let config := loadedConfig text
  ((elements comma (config.text (chars "IDS"))).map atoi).filterMap (readEvent config)

theorem readTimers_eq (text : Option Str) :
    readTimers text =
      if ((loadedConfig text).text (chars "IDS")).length < 65536 ∧
        (timersIn text).any (·.data.overruns) = false then some (timersIn text)
      else none := by
  have hdelim : (loadedConfig text).delimiter = comma := by
    cases text <;> rfl
  unfold readTimers CConfigFile.getInt32Vector
  by_cases hlen : ((loadedConfig text).text (chars "IDS")).length < 65536
  · obtain ⟨_, hget, _⟩ := getVector_short (loadedConfig text) (chars "IDS") hlen
    simp only [hget, hdelim, Option.map_some, hlen, true_and]
    change (if (timersIn text).any _ then none else some (timersIn text)) = _
    cases (timersIn text).any (·.data.overruns) <;> rfl
  · rw [if_neg fun h => hlen h.1]
    simp only [getVector_long (loadedConfig text) (chars "IDS") (Nat.le_of_not_lt hlen),
      Option.map_none]

end Tuxbox.Timerd
