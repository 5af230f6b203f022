import Tuxbox.Enigma.CiFraming

/-!
# The driver of the common interface

`eDVBCI::dataAvailable` and what it makes of the LPDUs of a module: `incoming`,
`receiveTPDU`, `handle_spdu`, `handle_session` and the managers. There is no result
where an access is out of range: beyond an array of the driver or the bytes that
were received, or to an element that was deleted.
-/

namespace Tuxbox.Enigma

structure Session where
  tcId : Byte
  serviceClass : UInt32
  state : Nat
  internalState : Nat

instance sessionNeZero : NeZero 32 := ⟨by decide⟩

def stateFree : Nat := 0

def stateOpen : Nat := 1

/-- An element of a receive queue, which may be deleted already. -/
structure QueueElem where
  elem : LpduQueueElem
  freed : Bool

/-- `caids` has `caidcount` entries; `calls` are those of `sendTPDU`. -/
structure Dvbci where
  queues : Fin 32 → List QueueElem
  sessions : Fin 32 → Session
  appName : Str
  caids : List UInt16
  ciState : Nat
  calls : List (Byte × Byte × Str)

/-- An access that has to be in range. -/
def access (inside : Prop) [Decidable inside] : Option Unit := if inside then some () else none

/-- An index of `sessions` or `lpduReceiveQueues`. -/
def index32 (n : Nat) : Option (Fin 32) := if h : n < 32 then some ⟨n, h⟩ else none

namespace Dvbci

/-- The constructor; the sessions are not initialized. -/
def start (sessions : Fin 32 → Session) : Dvbci :=
  ⟨fun _ => [], sessions, chars "no module", [], 0, []⟩

def sendTPDU (c : Dvbci) (tag : Byte) (tcId : Byte) (data : Str) : Dvbci :=
  { c with calls := c.calls ++ [(tag, tcId, data)] }

def setSession (c : Dvbci) (i : Fin 32) (x : Session) : Dvbci :=
  { c with sessions := Function.update c.sessions i x }

/-- Without a service controller (`sapi`) the list stays as it is. -/
def clearCAIDs (c : Dvbci) (sapi : Bool) : Dvbci := if sapi then { c with caids := [] } else c

/-! ## Managers -/

def helpManager (c : Dvbci) (i : Fin 32) : Dvbci :=
  let x := c.sessions i
  match x.internalState with
  | 0 => (c.sendTPDU 0xA0 x.tcId [0x90, 0x02, 0x00, 0x01, 0x9f, 0x80, 0x10, 0x00]).setSession i
      { x with internalState := 1 }
  | 1 => (c.sendTPDU 0xA0 x.tcId [0x90, 0x02, 0x00, 0x01, 0x9f, 0x80, 0x12, 0x00]).setSession i
      { x with internalState := 2 }
  | 2 => (c.sendTPDU 0xA0 x.tcId [0x90, 0x02, 0x00, 0x01, 0x9f, 0x80, 0x11, 0x10, 0x00, 0x01,
        0x00, 0x41, 0x00, 0x02, 0x00, 0x41, 0x00, 0x03, 0x00, 0x41, 0x00, 0x40, 0x00,
        0x41]).setSession i { x with internalState := 3 }
  | _ => c

def appManager (c : Dvbci) (i : Fin 32) : Dvbci :=
  let x := c.sessions i
  match x.internalState with
  | 0 => (c.sendTPDU 0xA0 x.tcId [0x90, 0x02, 0x00, 0x02, 0x9f, 0x80, 0x20, 0x00]).setSession i
      { x with internalState := 1 }
  | _ => c

def isCaClass (serviceClass : UInt32) : Bool := serviceClass = 0x30041 || serviceClass = 0x34100

/-- In state 1 the services are sent, by `newService`. -/
def caManager (c : Dvbci) (sapi : Bool) (i : Fin 32) : Dvbci :=
  let x := c.sessions i
  match x.internalState with
  | 0 =>
    let c := (c.setSession i { x with internalState := 1 }).clearCAIDs sapi
    if x.state ≠ stateFree ∧ isCaClass x.serviceClass then
      c.sendTPDU 0xA0 x.tcId [0x90, 0x02, 0x00, UInt8.ofNat i, 0x9f, 0x80, 0x30, 0x00]
    else c
  | 1 => c.setSession i { x with internalState := 2 }
  | _ => c

/-! ## Sessions -/

inductive Apdu where
  | help | appInfo | caInfo | displayControl | dateTimeEnq | mmi | unhandled
  deriving DecidableEq

/-- `data[4]==0x9f && data[5]==b && data[6]==c` -/
def tagIs (data : Str) (b c : Byte) : Option Bool := do
  if (← data[4]?) ≠ 0x9f then return false
  if (← data[5]?) ≠ b then return false
  return (← data[6]?) = c

/-- The comparisons of `handle_session`. -/
def apdu (data : Str) : Option Apdu := do
  if ← tagIs data 0x80 0x11 then return .help
  if ← tagIs data 0x80 0x10 then return .help
  if ← tagIs data 0x80 0x21 then return .appInfo
  if ← tagIs data 0x80 0x31 then return .caInfo
  if ← tagIs data 0x88 0x01 then return .displayControl
  if ← tagIs data 0x84 0x40 then return .dateTimeEnq
  if (← data[4]?) ≠ 0x9f then return .unhandled
  return if (← data[5]?) = 0x88 then .mmi else .unhandled

def addCAID (c : Dvbci) (caid : UInt16) : Option Dvbci := do
  access (c.caids.length < 256)
  return { c with caids := c.caids ++ [caid] }

/-- One turn of the loop over the CAIDs, two bytes each. -/
def addFrom (data : Str) (c : Dvbci) (k : Nat) : Option Dvbci := do
  let high ← data[8 + 2 * k]?
  let low ← data[9 + 2 * k]?
  c.addCAID (high.toUInt16 <<< 8 ||| low.toUInt16)

/-- The loop that prints what is not handled reads as well. -/
def handleSession (c : Dvbci) (sapi : Bool) (data : Str) (len : Int) : Option Dvbci := do
  match ← apdu data with
  | .help => return c.helpManager (← index32 (← data[3]?).toNat)
  | .appInfo =>
    let n := (← data[13]?).toNat
    access (14 + n ≤ data.length)
    access (n < 256)
    return { c with appName := (data.drop 14).take n }
  | .caInfo =>
    let n := (← data[7]?).toNat
    let c ← (List.range ((n + 1) / 2)).foldlM (addFrom data) c
    let i ← index32 (← data[3]?).toNat
    if (c.sessions i).state ≠ stateFree ∧ isCaClass (c.sessions i).serviceClass then
      return c.caManager sapi i
    else return c
  | .displayControl =>
    return c.sendTPDU 0xA0 1 [0x90, 0x02, 0x00, ← data[3]?, 0x9f, 0x88, 0x02, 0x02, 0x01, 0x01]
  | .dateTimeEnq =>
    return c.sendTPDU 0xA0 1
      [0x90, 0x02, 0x00, ← data[3]?, 0x9f, 0x88, 0x41, 0x05, 0xcd, 0x8A, 0x23, 0x13, 0x12]
  | .mmi =>
    access (4 ≤ len ∧ len ≤ data.length)
    return c
  | .unhandled =>
    access (len ≤ data.length)
    return c

def serviceAvailable (serviceClass : UInt32) : Bool :=
  serviceClass ∈ [0x010041, 0x020041, 0x030041, 0x034100, 0x400041, 0x240041]

/-- The first free session, from 1 on. -/
def freeSession (c : Dvbci) : Option (Fin 32) :=
  (List.finRange 32).find? fun i => i ≠ 0 ∧ (c.sessions i).state = stateFree

def openSession (c : Dvbci) (sapi : Bool) (tcId : Byte) (bytes : Str) : Dvbci :=
  let serviceClass := UInt32.ofNat (beValue bytes)
  if serviceAvailable serviceClass then
    match c.freeSession with
    | none => c.sendTPDU 0xA0 tcId ([0x92, 0x07, 0xf0] ++ bytes ++ [0x00, 0x00])
    | some i =>
      let c := (c.setSession i ⟨tcId, serviceClass, stateOpen, 0⟩).sendTPDU 0xA0 tcId
        ([0x92, 0x07, 0x00] ++ bytes ++ [0x00, UInt8.ofNat i])
      if serviceClass = 0x10041 then c.helpManager i
      else if serviceClass = 0x20041 then c.appManager i
      else if isCaClass serviceClass then c.caManager sapi i
      else c
  -- two bytes more are sent, which are not initialized
  else c.sendTPDU 0xA0 tcId ([0x92, 0x07, 0xf0] ++ bytes)

def closeSession (c : Dvbci) (tcId : Byte) (high low : Byte) (i : Fin 32) : Dvbci :=
  if (c.sessions i).state ≠ stateFree then
    (c.setSession i { c.sessions i with state := stateFree }).sendTPDU 0xA0 tcId
      [0x96, 0x03, 0x00, high, low]
  else c.sendTPDU 0xA0 tcId [0x96, 0x03, 0xf0, high, low]

def handleSpdu (c : Dvbci) (sapi : Bool) (tcId : Byte) (data : Str) (len : Int) : Option Dvbci := do
  let tag ← data[0]?
  if tag = 0x90 then c.handleSession sapi data len
  else if tag = 0x91 then
    access (6 ≤ data.length)
    return c.openSession sapi tcId ((data.drop 2).take 4)
  else if tag = 0x95 then
    let high ← data[2]?
    let low ← data[3]?
    return c.closeSession tcId high low (← index32 low.toNat)
  else return c

def receiveTPDU (c : Dvbci) (sapi : Bool) (r : ReceivedTpdu) : Option Dvbci := do
  if r.tag = 0xA0 ∧ r.len ≠ 0 then
    let tag ← r.data[0]?
    if 0x90 ≤ tag ∧ tag ≤ 0x96 then c.handleSpdu sapi r.tcId r.data r.len else return c
  else return c

/-! ## Transport -/

/-- The end of `incoming`, for the payload of all LPDUs. -/
def receivePayload (c : Dvbci) (sapi : Bool) (tcId : Byte) (payload : Str) : Option Dvbci := do
  let last ← payload.getLast?
  access (last = 0x80 → 2 ≤ payload.length)
  let c :=
    if last = 0x80 then c.sendTPDU 0x81 (payload.getD (payload.length - 2) 0) [] else c
  access (2 ≤ payload.length)
  -- the bytes of a long length field
  access (1 + (lengthField payload).2 ≤ payload.length)
  match assembled tcId payload with
  | none => return c
  | some r => c.receiveTPDU sapi r

def setQueue (c : Dvbci) (i : Fin 32) (queue : List QueueElem) : Dvbci :=
  { c with queues := Function.update c.queues i queue }

def incoming (c : Dvbci) (sapi : Bool) (buffer : Str) : Option Dvbci := do
  access (buffer.length ≤ 255)
  let tcId ← buffer[0]?
  let i ← index32 tcId.toNat
  access (∀ e ∈ c.queues i, e.freed = false)
  access (2 ≤ buffer.length)
  let elem : LpduQueueElem := ⟨UInt8.ofNat buffer.length, buffer⟩
  if elem.isMore then
    return c.setQueue i (c.queues i ++ [⟨elem, false⟩])
  else
    let elems := (c.queues i).map (·.elem) ++ [elem]
    let payload := elems.flatMap (·.payload)
    access (∀ e ∈ elems, 2 ≤ e.lpduLen.toNat)
    access (payload.length ≤ elems.length * 253)
    (c.setQueue i []).receivePayload sapi tcId payload

/-! ## Calls -/

def freeSessions (c : Dvbci) : Dvbci :=
  { c with sessions :=
    fun i => if i = 0 then c.sessions 0 else { c.sessions i with state := stateFree } }

/-- The elements are deleted, but the queues still hold them. -/
def removed (c : Dvbci) (sapi : Bool) : Dvbci :=
  { c.freeSessions.clearCAIDs sapi with
    queues := fun i => (c.queues i).map fun e => { e with freed := true }
    appName := chars "no module"
    ciState := 0 }

def remove (c : Dvbci) (sapi : Bool) : Option Dvbci := do
  access (∀ i, ∀ e ∈ c.queues i, e.freed = false)
  return c.removed sapi

/-- What `read` gives, if it gives something; the module was asked before. -/
def receive (c : Dvbci) (sapi : Bool) (data : Str) : Option Dvbci :=
  if data ≠ [] then c.incoming sapi data
  else if c.ciState = 1 then some { c.sendTPDU 0x82 1 [] with ciState := 2 }
  else some c

/-- From the test of `ci_state` on. -/
def inserted (c : Dvbci) (sapi resetOk : Bool) (data : Str) : Option Dvbci :=
  if c.ciState = 0 then
    if resetOk then { c.freeSessions with ciState := 1 }.receive sapi data
    else some ({ c.freeSessions with ciState := 0 }.clearCAIDs sapi)
  else c.receive sapi data

def dataAvailable (c : Dvbci) (sapi present resetOk : Bool) (data : Str) : Option Dvbci :=
  if present then c.inserted sapi resetOk data else c.remove sapi

/-- The message `reset`: `dataAvailable(1000)` does not ask for the module. -/
def reset (c : Dvbci) (sapi : Bool) : Dvbci :=
  { c with
    appName := if c.ciState = 0 then chars "no module" else c.appName
    ciState := 0 }.clearCAIDs sapi

end Dvbci

inductive CiCall where
  | available (sapi present resetOk : Bool) (data : Str)
  | reset (sapi resetOk : Bool) (data : Str)

def Dvbci.step (c : Dvbci) : CiCall → Option Dvbci
  | .available sapi present resetOk data => c.dataAvailable sapi present resetOk data
  | .reset sapi resetOk data => (c.reset sapi).inserted sapi resetOk data

end Tuxbox.Enigma
