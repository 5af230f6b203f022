import Mathlib.Data.Finset.Insert
import Tuxbox.Enigma.EpgMaps

/-!
# EIT sections of the EPG cache

A section is entered among those that were seen, with the sections that are to come, and its
events are stored. The readers of one source stop when every section that is to come was seen.

The private content and the MHW reader are built in, the Freesat one is not.
-/

namespace Tuxbox.Enigma.Epg

open Buffer

def ECANCELED : Int := 125

structure EpgKey where
  sid : Nat
  onid : Nat
  tsid : Nat
  deriving DecidableEq

/-- `eit_t`, the header of a section. -/
structure Eit where
  table_id : Byte
  section_length : Nat
  service_id_hi : Byte
  service_id_lo : Byte
  section_number : Byte
  last_section_number : Byte
  transport_stream_id : Nat
  original_network_id : Nat
  segment_last_section_number : Byte
  segment_last_table_id : Byte

def readEit (data : Str) : Option Eit := do
  let table_id ← read data 0
  let section_length_hi ← read data 1
  let section_length_lo ← read data 2
  let service_id_hi ← read data 3
  let service_id_lo ← read data 4
  let section_number ← read data 6
  let last_section_number ← read data 7
  let transport_stream_id_hi ← read data 8
  let transport_stream_id_lo ← read data 9
  let original_network_id_hi ← read data 10
  let original_network_id_lo ← read data 11
  let segment_last_section_number ← read data 12
  let segment_last_table_id ← read data 13
  pure ⟨table_id, HILO (section_length_hi &&& 0xF) section_length_lo, service_id_hi, service_id_lo,
    section_number, last_section_number, HILO transport_stream_id_hi transport_stream_id_lo,
    HILO original_network_id_hi original_network_id_lo, segment_last_section_number,
    segment_last_table_id⟩

namespace Eit

def service (eit : Eit) : EpgKey :=
  ⟨HILO eit.service_id_hi eit.service_id_lo, eit.original_network_id, eit.transport_stream_id⟩

/-- The end of the events, which is that of the section without its checksum. -/
def len (eit : Eit) : Nat := eit.section_length - 1

/-- Where the events begin. In the Irdeto packets of Multichoice it is a byte earlier. -/
def firstEvent (eit : Eit) : Nat := if eit.segment_last_table_id < 0x40 then 13 else 14

end Eit

/-! ## Seen and expected sections -/

/-- `tmpval | (i & 0xFF)`: the key of a section of this table and service. -/
def Eit.key (eit : Eit) (i : Nat) : Nat :=
  eit.table_id.toNat <<< 24 ||| (eit.service_id_hi.toNat <<< 16 |||
    (eit.service_id_lo.toNat <<< 8 ||| i &&& 0xFF))

def Eit.sectionNo (eit : Eit) : Nat := eit.key eit.section_number.toNat

/-- `std::set<__u32>`. -/
abbrev TidMap := Finset Nat

/-- One round of the loop over the sections up to the last. -/
def calcStep (eit : Eit) (calced : TidMap) (i : Nat) : TidMap :=
  if i = eit.section_number.toNat then
    (List.range' i (eit.segment_last_section_number.toNat + 1 - i)).foldl
      (fun calced x => insert (eit.key x) calced) calced
  else insert (eit.key i) calced

/-- The sections that are expected with a section that is new: itself, the first of every
segment, and with the first of a segment the rest of it. -/
def calcSections (eit : Eit) (incr : Nat) (calced : TidMap) : TidMap :=
  (List.range' 0 (eit.last_section_number.toNat / incr + 1) incr).foldl (calcStep eit)
    (insert eit.sectionNo calced)

structure Sections where
  seen : TidMap
  calced : TidMap

namespace Sections

/-- Whether a section was seen, and the sets with it. -/
def enter (eit : Eit) (source : Nat) (s : Sections) : Bool × Sections :=
  if eit.sectionNo ∈ s.seen then (true, s)
  else (false,
    ⟨insert eit.sectionNo s.seen, calcSections eit (if source = NOWNEXT then 1 else 8) s.calced⟩)

end Sections

/-! ## The cache -/

/-- The time, the setting, and the services in bouquets. -/
structure Environment where
  now : Int
  epgcachedays : Int
  checkBouquets : EpgKey → Bool

structure EpgCache where
  state : Int
  isLoading : Bool
  isRunning : Nat
  haveData : Nat
  /-- `seenSections` and `calcedSections`, at `source / 2`. -/
  sections : Nat → Sections
  store : EventStore
  eventDB : EpgKey → Option ServiceMap
  temp : EpgKey → Option (Int × Nat)

/-- What is over and what is too far away is not stored. -/
def Environment.due (env : Environment) (head : Str) : Bool :=
  headStart head ≠ 3599 ∧ ¬ (headStart head + headDuration head < env.now ∨
    headStart head > env.now + env.epgcachedays * 24 * 60 * 60)

/-- `eit_event_size`. -/
def eventSize (data : Str) (ptr : Nat) : Option Nat := do
  let descriptors_loop_length_hi ← read data (ptr + 10)
  let descriptors_loop_length_lo ← read data (ptr + 11)
  pure (HILO (descriptors_loop_length_hi &&& 0xF) descriptors_loop_length_lo + 12)

/-- An event of a section, and where the next is. What has no descriptors is not stored. -/
def eventStep (env : Environment) (data : Str) (source ptr : Nat) (s : Storing) :
    Option (Nat × Storing) := do
  let eit_event_size ← eventSize data ptr
  if eit_event_size < 14 then pure (ptr + eit_event_size, s)
  else
    let head ← string data ptr 10
    if env.due head then
      let s ← s.storeEvent (data.drop ptr) eit_event_size source (headID head) (headStart head)
        (headDuration head)
      pure (ptr + eit_event_size, s)
    else pure (ptr + eit_event_size, s)

namespace EpgCache

def initial : EpgCache :=
  ⟨0, false, 0, 0, fun _ => ⟨∅, ∅⟩, .start, fun _ => none, fun _ => none⟩

/-- `temp` has when a service was read, and the best source it was read from. -/
def updated (env : Environment) (service : EpgKey) (source : Nat) (c : EpgCache) : EpgCache :=
  match c.temp service with
  | none => { c with temp := Function.update c.temp service (some (env.now, source)) }
  | some r =>
    if source > r.2 then
      { c with temp := Function.update c.temp service (some (env.now, source)) }
    else c

/-- The MHW reader is aborted where there is a schedule. -/
def noteData (TM : Int) (source : Nat) (c : EpgCache) : EpgCache :=
  let haveData := if TM ≠ 3599 ∧ TM > -1 ∧ source < 8 then c.haveData ||| source else c.haveData
  let isRunning :=
    if haveData &&& (SCHEDULE ||| SCHEDULE_OTHER) ≠ 0 ∧ c.isRunning &&& SCHEDULE_MHW ≠ 0 then
      c.isRunning - SCHEDULE_MHW
    else c.isRunning
  { c with haveData := haveData, isRunning := isRunning }

/-- The maps of a service, which are empty where it has none yet. -/
def opened (service : EpgKey) (c : EpgCache) : Storing :=
  ⟨c.store, (c.eventDB service).getD .empty, none, none⟩

/-- The events from `ptr` to `len`. -/
def readEvents (env : Environment) (data : Str) (source len ptr : Nat) (service : EpgKey)
    (c : EpgCache) : Option EpgCache := do
  let first ← string data ptr 10
  let c := c.noteData (headStart first) source
  let r ← walk (eventStep env data source) len ptr (c.opened service)
  pure (updated env service source { c with
    store := r.2.store
    eventDB := Function.update c.eventDB service (some r.2.map) })

/-- Every section of its source that is expected was seen. -/
def complete (source : Nat) (c : EpgCache) : Bool :=
  source ≠ SCHEDULE_MHW && c.state = 1 &&
    (c.sections (source / 2)).seen = (c.sections (source / 2)).calced

/-- What `startEPG` sets when it starts the readers. -/
def startEPG (mhwepg : Bool) (c : EpgCache) : EpgCache :=
  { c with
    temp := fun _ => none
    sections := fun i => if i < 3 then ⟨∅, ∅⟩ else c.sections i
    state := 0
    haveData := 0
    isRunning := c.isRunning ||| SCHEDULE ||| NOWNEXT ||| SCHEDULE_OTHER |||
      (if mhwepg then SCHEDULE_MHW else 0) }

/-- The MHW reader sends every section once. -/
def enter (eit : Eit) (source : Nat) (c : EpgCache) : Bool × EpgCache :=
  if source = SCHEDULE_MHW then (false, c)
  else
    let r := (c.sections (source / 2)).enter eit source
    (r.1, { c with sections := Function.update c.sections (source / 2) r.2 })

def sectionRead (env : Environment) (data : Str) (source : Nat) (c : EpgCache) :
    Option (Int × EpgCache) := do
  if c.state > 1 then pure (-ECANCELED, c)
  else
    let eit ← readEit data
    let (seen, c) := c.enter eit source
    if 14 < eit.len ∧ seen = false then
      if env.checkBouquets eit.service = false then pure (0, c)
      else
        let c ← c.readEvents env data source eit.len eit.firstEvent eit.service
        pure (if c.complete source then -ECANCELED else 0, c)
    else pure (if c.complete source then -ECANCELED else 0, c)

end EpgCache

end Tuxbox.Enigma.Epg
