import Tuxbox.Lib.OrdMap
import Tuxbox.Lib.Codec

/-! The demultiplexer objects of sectionsd: the filters they read through, and
the cache of section versions that all of them share. -/
namespace Tuxbox.Sectionsd

/-! ## Section headers -/

/-- The bytes one read of the demultiplexer delivers. -/
abbrev Section := List Byte

namespace Section

def byte (s : Section) (i : Nat) : Nat := (s.getD i 0).toNat

def word (s : Section) (i : Nat) : Nat := s.byte i * 256 + s.byte (i + 1)

def tableId (s : Section) : Nat := s.byte 0

def sectionSyntaxIndicator (s : Section) : Nat := s.byte 1 >>> 7

def sectionLength (s : Section) : Nat := (s.byte 1 &&& 0x0F) * 256 ||| s.byte 2

def tableExtensionId (s : Section) : Nat := s.word 3

def versionNumber (s : Section) : Nat := s.byte 5 >>> 1 &&& 0x1F

def currentNextIndicator (s : Section) : Nat := s.byte 5 &&& 0x01

def sectionNumber (s : Section) : Nat := s.byte 6

def lastSectionNumber (s : Section) : Nat := s.byte 7

end Section

/-! ## The cache -/

/-- `myDMXOrderUniqueKey`: section ids to version numbers. -/
abbrev Cache := OrdMap Nat Nat

/-- Of at most 64 bits, so that no shift loses any. -/
def createSectionsId (tableId extensionId sectionNumber onid tsid : Nat) : Nat :=
  tableId <<< 56 ||| (extensionId <<< 40 ||| (sectionNumber <<< 32 ||| (onid <<< 16 ||| tsid)))

/-- The walk of `check_complete` over the entries behind the first section. -/
def completeLoop (tableId extensionId onid tsid last : Nat) :
    List (Nat × Nat) → (currentSectionNumber : Nat) → Bool
  | [], _ => false
  | (id, _) :: rest, current =>
    if id >>> 56 &&& 0xff = tableId ∧ id >>> 40 &&& 0xffff = extensionId ∧
        (id >>> 32 &&& 0xff = current + 1 ∨ id >>> 32 &&& 0xff = current + 8) ∧
        id >>> 16 &&& 0xffff = onid ∧ id &&& 0xffff = tsid then
      if id >>> 32 &&& 0xff = last then true
      else completeLoop tableId extensionId onid tsid last rest (id >>> 32 &&& 0xff)
    else false

structure Filter where
  filter : Byte
  mask : Byte
  deriving DecidableEq

structure DMX where
  pID : Nat
  filters : List Filter
  filterIndex : Nat
  firstSkipped : Nat
  currentService : Int
  eitVersion : Nat
  cache : Bool

namespace DMX

def create (pID : Nat) (cache : Bool) : DMX :=
  { pID := pID, filters := [], filterIndex := 0, firstSkipped := 0, currentService := 0,
    eitVersion := 0xff, cache := cache }

def addfilter (d : DMX) (filter mask : Byte) : DMX :=
  { d with filters := d.filters ++ [⟨filter, mask⟩] }

def currentFilter (d : DMX) : Filter := d.filters.getD d.filterIndex ⟨0, 0⟩

/-- The filter that only slows down the start of the EIT thread. -/
def dummyFilter (d : DMX) : Bool :=
  d.pID = 0x12 ∧ d.currentFilter.filter = 0 ∧ d.currentFilter.mask = 0

def checkComplete (d : DMX) (cached : Cache) (tableId extensionId onid tsid last : Nat) : Bool :=
  if (tableId = 0x4e ∨ tableId = 0x50) ∧ d.currentService = extensionId then
    if last = 0 then true
    else
      let first := createSectionsId tableId extensionId 0 onid tsid
      match cached.entries.dropWhile (·.1 ≠ first) with
      | [] => false
      | _ :: behind => completeLoop tableId extensionId onid tsid last behind 0
  else false

/-- `real_pause` and `real_unpause` after a bad read. The restart forgets the
EIT version if it gets that far. -/
def restart (d : DMX) (restarted : Bool) : DMX :=
  if restarted then { d with eitVersion := 0xff } else d

/-- `-1` keeps the service. -/
def change (d : DMX) (newFilterIndex : Nat) (newCurrentService : Int) (restarted : Bool) : DMX :=
  let d := { d with
    filterIndex := newFilterIndex
    firstSkipped := 0
    currentService := if newCurrentService ≠ -1 then newCurrentService else d.currentService }
  d.restart restarted

def setCurrentService (d : DMX) (newCurrentService : Int) (restarted : Bool) : DMX :=
  d.change 0 newCurrentService restarted

end DMX

structure Result where
  rc : Int
  dmx : DMX
  cached : Cache
  timeouts : Int

namespace DMX

/-- The network and transport stream the cache tells sections apart by. -/
def cacheOnid (d : DMX) (s : Section) : Nat := if d.pID = 0x12 then s.word 10 else 0

def cacheTsid (d : DMX) (s : Section) : Nat := if d.pID = 0x12 then s.word 8 else 0

def sectionsId (d : DMX) (s : Section) : Nat :=
  createSectionsId s.tableId s.tableExtensionId s.sectionNumber (d.cacheOnid s) (d.cacheTsid s)

def isComplete (d : DMX) (cached : Cache) (s : Section) : Bool :=
  d.checkComplete cached s.tableId s.tableExtensionId (d.cacheOnid s) (d.cacheTsid s)
    s.lastSectionNumber

/-- The part of `getSection` that looks a current section up. -/
def lookupSection (d : DMX) (cached : Cache) (s : Section) : Result :=
  let sId := d.sectionsId s
  match cached.find sId with
  | some version =>
    if version = s.versionNumber then
      let timeouts : Int := if d.firstSkipped = 0 then 0 else if d.firstSkipped = sId then -1 else 0
      { rc := -1
        dmx := { d with firstSkipped := if d.firstSkipped = 0 then sId else d.firstSkipped }
        cached := cached
        timeouts := if d.isComplete cached s then -2 else timeouts }
    else
      { rc := s.length
        dmx := { d with firstSkipped := 0 }
        cached := cached.set sId s.versionNumber
        timeouts := 0 }
  | none =>
    let cached := cached.insertNew sId s.versionNumber
    { rc := s.length
      dmx := { d with firstSkipped := 0 }
      cached := cached
      timeouts := if d.isComplete cached s then -2 else 0 }

/-- `read` is what the device delivers, `none` on an error and empty on a
timeout. -/
def getSection (d : DMX) (cached : Cache) (read : Option Section) (restarted : Bool)
    (timeouts : Int) : Result :=
  if d.dummyFilter then ⟨-1, d, cached, timeouts + 1⟩
  else
    match read with
    | none => ⟨-1, d.restart restarted, cached, timeouts⟩
    | some s =>
      if s.length = 0 then ⟨-1, d, cached, timeouts + 1⟩
      else if s.length < 3 then ⟨-1, d.restart restarted, cached, timeouts⟩
      else if s.sectionLength ≤ 0 then ⟨-1, d, cached, timeouts⟩
      else if s.length ≠ s.sectionLength + 3 then ⟨-1, d.restart restarted, cached, 0⟩
      else if (s.tableId ^^^ d.currentFilter.filter.toNat) &&& d.currentFilter.mask.toNat ≠ 0 then
        ⟨-1, d.restart restarted, cached, 0⟩
      else if s.sectionLength < 5 ∨ (0x4e ≤ s.tableId ∧ s.tableId ≤ 0x6f ∧ s.sectionLength < 14) then
        ⟨-1, d, cached, 0⟩
      else if s.sectionSyntaxIndicator ≠ 0 ∧ s.currentNextIndicator ≠ 0 then
        if d.cache = false then
          let eitVersion :=
            if s.tableId = 0x4e ∧ (s.tableExtensionId : Int) = d.currentService ∧
                s.versionNumber ≠ d.eitVersion then s.versionNumber
            else d.eitVersion
          ⟨s.length, { d with eitVersion := eitVersion }, cached, 0⟩
        else d.lookupSection cached s
      else ⟨s.length, d, cached, 0⟩

end DMX

/-! ## The threads' objects -/

/-- `dmxCN` is the one that does not use the cache. -/
inductive Inst
  | eit
  | cn
  | sdt
  | nit
  deriving DecidableEq

def Inst.dmx : Inst → DMX
  | .eit => .create 0x12 true
  | .cn => .create 0x12 false
  | .sdt => .create 0x11 true
  | .nit => .create 0x10 true

/-- The objects and the cache. `seen` and `returned` keep, for the time since
the cache was last dropped, the current sections that an object with a cache
read and those that it returned, the newest last. -/
structure Demux where
  dmx : Inst → DMX
  cached : Cache
  seen : List (Inst × Section)
  returned : List (Inst × Section)

inductive Demux.Act
  | getSection (i : Inst) (read : Option Section) (restarted : Bool) (timeouts : Int)
  | addfilter (i : Inst) (filter mask : Byte)
  | change (i : Inst) (newFilterIndex : Nat) (newCurrentService : Int) (restarted : Bool)
  | dropCachedSectionIDs

namespace Demux

def initial : Demux := ⟨Inst.dmx, .empty, [], []⟩

def update (w : Demux) (i : Inst) (d : DMX) : Demux :=
  { w with dmx := fun j => if j = i then d else w.dmx j }

def answer (w : Demux) (i : Inst) (read : Option Section) (restarted : Bool) (timeouts : Int) :
    Result :=
  (w.dmx i).getSection w.cached read restarted timeouts

/-- The section an object with a cache saw: none on an error or a timeout, and
none behind the dummy filter. -/
def noted (w : Demux) (i : Inst) (read : Option Section) : List (Inst × Section) :=
  if (w.dmx i).cache && !(w.dmx i).dummyFilter then
    match read with
    | none | some [] => []
    | some s => [(i, s)]
  else []

def step (w : Demux) : Act → Option Demux
  | .getSection i read restarted timeouts =>
    let out := w.answer i read restarted timeouts
    let new := w.noted i read
    some { w.update i out.dmx with
      cached := out.cached
      seen := w.seen ++ new
      returned := if out.rc = -1 then w.returned else w.returned ++ new }
  | .addfilter i filter mask => some (w.update i ((w.dmx i).addfilter filter mask))
  | .change i filterIndex service restarted =>
    some (w.update i ((w.dmx i).change filterIndex service restarted))
  | .dropCachedSectionIDs => some { w with cached := .empty, seen := [], returned := [] }

end Demux

end Tuxbox.Sectionsd
