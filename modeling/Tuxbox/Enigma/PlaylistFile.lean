import Tuxbox.Lib.FileLines
import Tuxbox.Lib.Numeral

/-!
# Playlist files of enigma

`ePlaylist::save` writes a playlist, or the timer list; `ePlaylist::load` reads the
file in pieces of 254 bytes.
-/

namespace Tuxbox.Enigma

namespace Playlist

def colon : Byte := 58

def hash : Byte := 35

def slash : Byte := 47

structure ServiceReference where
  type : Int32
  flags : Int32
  data : Fin 8 → UInt32
  path : Str

/-- `%d:%d`, `:%x` for all data, and the path. -/
def ServiceReference.toString (r : ServiceReference) : Str :=
  decInt r.type.toInt ++ colon :: decInt r.flags.toInt ++
    ((List.finRange 8).flatMap fun i => colon :: numeral 16 (r.data i).toNat) ++ colon :: r.path

def ServiceReference.setFileLength (filelength : UInt32) (r : ServiceReference) :
    ServiceReference :=
  { r with data := Function.update r.data 5 filelength }

/-- `eServicePath::toString` -/
def pathString (path : List ServiceReference) : Str := path.flatMap fun r => r.toString ++ [59]

/-- `union` is the current position, the event id or the last activation; `service` is
the last one of the path. -/
structure Entry where
  services : List ServiceReference
  service : ServiceReference
  descr : Str
  union : Int32
  timeBegin : Int32
  duration : Int32
  type : Int32
  back : services.getLast?.map (·.path) = some service.path

def playlistEntry : Int32 := 1

def isRepeating : Int32 := 262144

/-- The string of the service that is written. -/
def Entry.string (e : Entry) : Str :=
  if 1 < e.services.length then pathString e.services else e.service.toString

end Playlist

/-- A list with a name, and the place of the current entry if it is not the end. -/
structure Playlist where
  name : Str
  list : List Playlist.Entry
  current : Option Nat

namespace Playlist

/-! ## Saving -/

def eol : Str := [carriageReturn, newline]

def keyed (key : String) (v : Int32) : Str := chars key ++ decInt v.toInt

/-- Which of the three is in the union depends on the type. -/
def unionLine (e : Entry) : Option Str :=
  if e.type &&& playlistEntry ≠ 0 ∧ e.union ≠ -1 then some (keyed "#CURRENT_POSITION " e.union)
  else if e.type &&& isRepeating ≠ 0 ∧ e.union ≠ -1 then some (keyed "#LAST_ACTIVATION " e.union)
  else if e.union ≠ -1 then some (keyed "#EVENT_ID " e.union)
  else none

/-- What is written for an entry. -/
def saveEntry (current : Bool) (e : Entry) : Str :=
  chars "#SERVICE: " ++ e.string ++ eol ++
  (if e.descr ≠ [] then
    chars "#DESCRIPTION: " ++ e.descr ++ eol ++ chars "#END_DESCRIPTION" ++ eol else []) ++
  (unionLine e).elim [] (· ++ eol) ++
  (if e.type ≠ playlistEntry then keyed "#TYPE " e.type ++ eol else []) ++
  (if e.timeBegin ≠ -1 then keyed "#TIME_BEGIN " e.timeBegin ++ eol else []) ++
  (if e.duration ≠ -1 then keyed "#DURATION " e.duration ++ eol else []) ++
  (if current then chars "#CURRENT" ++ [newline] else []) ++
  (if e.service.path ≠ [] then e.service.path ++ eol else [])

/-- The entries from place `i` on. -/
def saveFrom (current : Option Nat) : Nat → List Entry → Str
  | _, [] => []
  | i, e :: es => saveEntry (current = some i) e ++ saveFrom current (i + 1) es

def save (p : Playlist) : Str := chars "#NAME " ++ p.name ++ eol ++ saveFrom p.current 0 p.list

/-! ## Loading -/

/-- The parser of service strings, the size of a file and its slices in kilobytes, the
service of a file name, and the directory of the playlist. -/
structure Env where
  parse : Str → List ServiceReference
  fileSize : Str → UInt32
  lookupService : Str → Option ServiceReference
  path : Str

/-- The size of the recording, if the service string has its path. -/
def Env.fileLength (env : Env) (line : Str) : UInt32 :=
  let p := line.dropWhile (· ≠ slash)
  if (chars "/hdd").isPrefixOf p then env.fileSize p else 0

/-- The constructor from a path; `path.back()` needs one. -/
def entryOf (path : List ServiceReference) : Option Entry :=
  match h : path.getLast? with
  | none => none
  | some r => some ⟨path, r, [], -1, -1, -1, playlistEntry, by rw [h]; rfl⟩

def Entry.setFileLength (filelength : UInt32) (e : Entry) : Entry :=
  { e with service := e.service.setFileLength filelength }

structure Loading where
  name : Str
  list : List Entry
  current : Option Nat
  ignoreNext : Bool
  indescr : Bool

/-- An assignment through `list.back()`. -/
def Loading.setBack (st : Loading) (f : Entry → Entry) : Option Loading :=
  st.list.getLast?.map fun e => { st with list := st.list.dropLast ++ [f e] }

/-- A line that begins with `#`. -/
def directive (env : Env) (st : Loading) (line : Str) : Option Loading :=
  if (chars "#SERVICE").isPrefixOf line then
    let value := line.drop (if (line)[8]? = some colon then 10 else 9)
    (entryOf (env.parse value)).map fun e =>
      { st with list := st.list ++ [e.setFileLength (env.fileLength value)], ignoreNext := true }
  else if (chars "#DESCRIPTION").isPrefixOf line then
    let value := line.drop (if (line)[12]? = some colon then 14 else 13)
    { st with indescr := true }.setBack fun e => { e with descr := value }
  else if line = chars "#CURRENT" then
    if st.list = [] then none else some { st with current := some (st.list.length - 1) }
  else if (chars "#LAST_ACTIVATION ").isPrefixOf line then
    st.setBack fun e => { e with union := atoi (line.drop 17) }
  else if (chars "#CURRENT_POSITION ").isPrefixOf line then
    st.setBack fun e => { e with union := atoi (line.drop 18) }
  else if (chars "#TYPE ").isPrefixOf line then
    st.setBack fun e => { e with type := atoi (line.drop 6) }
  else if (chars "#EVENT_ID ").isPrefixOf line then
    st.setBack fun e => { e with union := atoi (line.drop 10) }
  else if (chars "#TIME_BEGIN ").isPrefixOf line then
    st.setBack fun e => { e with timeBegin := atoi (line.drop 12) }
  else if (chars "#DURATION ").isPrefixOf line then
    st.setBack fun e => { e with duration := atoi (line.drop 10) }
  else if (chars "#NAME ").isPrefixOf line then some { st with name := line.drop 6 }
  else some st

/-- A name may be relative. -/
def Env.filename (env : Env) (line : Str) : Str :=
  if line.head? ≠ some slash ∧ (line.tails.any (chars "://").isPrefixOf) = false then
    env.path ++ line
  else line

/-- A line with the name of a file. -/
def addFile (env : Env) (st : Loading) (line : Str) : Loading :=
  match env.lookupService (env.filename line) with
  | none => st
  | some ref => { st with list := st.list ++ [⟨[ref], ref, [], -1, -1, -1, playlistEntry, rfl⟩] }

/-- What is made of a line. -/
def readLine (env : Env) (st : Loading) (line : Str) : Option Loading :=
  if line.head? = some hash then directive env { st with indescr := false } line
  else if st.indescr then st.setBack fun e => { e with descr := e.descr ++ line }
  else if st.ignoreNext then some { st with ignoreNext := false }
  else some (addFile env st line)

/-- `fgets(line, 255, fp)`, and what is done with the line. -/
def load (env : Env) (file : Str) : Option Loading :=
  (contents 254 file).foldlM (readLine env) ⟨[], [], none, false, false⟩

end Playlist

end Tuxbox.Enigma
