import Tuxbox.Lib.OrdMap
import Tuxbox.Lib.Bytes

/-! The configuration object of libconfigfile: typed access to a map from keys
to texts, and the line format in which the map is kept on disk. -/
namespace Tuxbox.Config

structure CConfigFile where
  configData : OrdMap Str Str
  delimiter : Byte
  saveDefaults : Bool
  modifiedFlag : Bool
  unknownKeyQueryedFlag : Bool
  deriving DecidableEq

/-- The constructor. -/
def create (delimiter : Byte) (saveDefaults : Bool) : CConfigFile :=
  ⟨.empty, delimiter, saveDefaults, false, false⟩

def CConfigFile.clear (c : CConfigFile) : CConfigFile := { c with configData := .empty }

/-! ## File operations -/

def equals : Byte := 61

def hash : Byte := 35

/-- `a - b` in `size_type`. Below zero it wraps to a number above the length
of every string, which is `none` here. -/
def sizeSub (a b : Nat) : Option Nat := if b ≤ a then some (a - b) else none

def substr (s : Str) (pos : Nat) : Option Nat → Str
  | some n => (s.drop pos).take n
  | none => s.drop pos

/-- What one line contributes: the text before the first delimiter, and the
text after it up to the first `#` of the line. -/
def parseLine (delim : Byte) (s : Str) : Option (Str × Str) :=
  match s.findIdx? (· == delim) with
  | none => none
  | some i =>
    let j := (s.findIdx? (· == hash)).getD s.length
    some (s.take i, substr s (i + 1) (sizeSub j (i + 1)))

def loadLine (delim : Byte) (m : OrdMap Str Str) (s : Str) : OrdMap Str Str :=
  match parseLine delim s with
  | none => m
  | some (k, v) => m.set k v

/-- `none` is a file that cannot be opened. -/
def CConfigFile.loadConfig (c : CConfigFile) (file : Option Str) (delim : Byte) :
    Bool × CConfigFile :=
  match file with
  | none => (false, c)
  | some s =>
    (true, { c with configData := (lines s).foldl (loadLine delim) .empty, modifiedFlag := false })

def entryText (delim : Byte) (e : Str × Str) : Str := e.1 ++ delim :: e.2 ++ [newline]

def configText (delim : Byte) (m : OrdMap Str Str) : Str := m.entries.flatMap (entryText delim)

/-- The text written, or `none` if the temporary file cannot be opened. -/
def CConfigFile.saveConfig (c : CConfigFile) (opened : Bool) (delim : Byte) :
    Option Str × CConfigFile :=
  if opened then (some (configText delim c.configData), { c with modifiedFlag := false })
  else (none, c)

/-! ## Typed access

A getter that does not find its key notes this in `unknownKeyQueryedFlag`
and, with `saveDefaults`, stores the default before it reads. The four scalar
getters differ in what counts as missing and in how the text is read. -/

def CConfigFile.store (c : CConfigFile) (key text : Str) : CConfigFile :=
  { c with configData := c.configData.set key text }

def boolText (val : Bool) : Str := if val then chars "true" else chars "false"

def CConfigFile.storeBool (c : CConfigFile) (key : Str) (val : Bool) : CConfigFile :=
  c.store key (boolText val)

def CConfigFile.storeInt32 (c : CConfigFile) (key : Str) (val : Int32) : CConfigFile :=
  c.store key (decInt val.toInt)

def CConfigFile.storeInt64 (c : CConfigFile) (key : Str) (val : Int64) : CConfigFile :=
  c.store key (decInt val.toInt)

def CConfigFile.storeString (c : CConfigFile) (key val : Str) : CConfigFile :=
  c.store key val

/-- `configData[key]` on the right of an assignment. -/
def CConfigFile.text (c : CConfigFile) (key : Str) : Str := (c.configData.find key).getD []

/-- The part the scalar getters share. `missing` is the test on the stored
text, `print` the store method, `read` the conversion. -/
def CConfigFile.getValue {α : Type} (c : CConfigFile) (missing : Option Str → Bool) (print : α → Str)
    (read : Str → α) (key : Str) (defaultVal : α) : α × CConfigFile :=
  if missing (c.configData.find key) then
    let c := { c with unknownKeyQueryedFlag := true }
    if c.saveDefaults then
      let c := c.store key (print defaultVal)
      (read (c.text key), c)
    else (defaultVal, c)
  else (read (c.text key), c)

def absent (found : Option Str) : Bool := found.isNone

/-- An empty string counts as no number. -/
def absentOrEmpty (found : Option Str) : Bool := (found.getD []).isEmpty

def readBool (s : Str) : Bool := !(s == chars "false" || s == chars "0")

def readInt32 (s : Str) : Int32 :=
  if s = chars "false" then 0 else if s = chars "true" then 1 else atoi s

def readInt64 (s : Str) : Int64 :=
  if s = chars "false" then 0 else if s = chars "true" then 1 else atoll s

def CConfigFile.getBool (c : CConfigFile) (key : Str) (defaultVal : Bool) : Bool × CConfigFile :=
  c.getValue absent boolText readBool key defaultVal

def CConfigFile.getInt32 (c : CConfigFile) (key : Str) (defaultVal : Int32) : Int32 × CConfigFile :=
  c.getValue absentOrEmpty (fun v => decInt v.toInt) readInt32 key defaultVal

def CConfigFile.getInt64 (c : CConfigFile) (key : Str) (defaultVal : Int64) : Int64 × CConfigFile :=
  c.getValue absentOrEmpty (fun v => decInt v.toInt) readInt64 key defaultVal

def CConfigFile.getString (c : CConfigFile) (key defaultVal : Str) : Str × CConfigFile :=
  c.getValue absent id id key defaultVal

/-- The setters look at the old value through the getter, with
`unknownKeyQueryedFlag` put aside, and store only what differs. -/
def CConfigFile.setValue {α : Type} [DecidableEq α] (c : CConfigFile)
    (get : CConfigFile → α × CConfigFile) (store : CConfigFile → α → CConfigFile) (val : α) :
    CConfigFile :=
  let tmpUnknownKeyQueryedFlag := c.unknownKeyQueryedFlag
  let (oldVal, c) := get { c with unknownKeyQueryedFlag := false }
  let c :=
    if oldVal ≠ val ∨ c.unknownKeyQueryedFlag then store { c with modifiedFlag := true } val
    else c
  { c with unknownKeyQueryedFlag := tmpUnknownKeyQueryedFlag }

def CConfigFile.setBool (c : CConfigFile) (key : Str) (val : Bool) : CConfigFile :=
  c.setValue (·.getBool key false) (·.storeBool key) val

def CConfigFile.setInt32 (c : CConfigFile) (key : Str) (val : Int32) : CConfigFile :=
  c.setValue (·.getInt32 key 0) (·.storeInt32 key) val

def CConfigFile.setInt64 (c : CConfigFile) (key : Str) (val : Int64) : CConfigFile :=
  c.setValue (·.getInt64 key 0) (·.storeInt64 key) val

def CConfigFile.setString (c : CConfigFile) (key val : Str) : CConfigFile :=
  c.setValue (·.getString key []) (·.storeString key) val

/-! ## Vectors -/

/-- The loop variables of the vector getters; all three are `uint16_t`. -/
structure VecLoop where
  i : Nat
  pos : Nat
  length : Nat
  vec : List Str

def VecLoop.next (delim : Byte) (val : Str) (l : VecLoop) : VecLoop :=
  if val[l.i]? = some delim then
    ⟨(l.i + 1) % 65536, (l.i + 1) % 65536, 0, l.vec ++ [(val.drop l.pos).take l.length]⟩
  else ⟨(l.i + 1) % 65536, l.pos, (l.length + 1) % 65536, l.vec⟩

/-- At most `fuel` rounds; `none` if the loop is still running then. -/
def vecLoop (delim : Byte) (val : Str) : Nat → VecLoop → Option VecLoop
  | 0, l => if l.i < val.length then none else some l
  | fuel + 1, l => if l.i < val.length then vecLoop delim val fuel (l.next delim val) else some l

/-- The elements of the text under `key`. `configData[key]` creates a missing
entry. `i` has 65536 values, so a loop still running after as many rounds has
wrapped around and does not end: `none`. -/
def CConfigFile.getVector (c : CConfigFile) (key : Str) : Option (List Str × CConfigFile) :=
  let val := c.text key
  let c := { c with configData := c.configData.insertNew key [] }
  match vecLoop c.delimiter val 65536 ⟨0, 0, 0, []⟩ with
  | none => none
  | some l =>
    if l.length = 0 then some (l.vec, { c with unknownKeyQueryedFlag := true })
    else some (l.vec ++ [(val.drop l.pos).take l.length], c)

def CConfigFile.getInt32Vector (c : CConfigFile) (key : Str) : Option (List Int32 × CConfigFile) :=
  (c.getVector key).map fun r => (r.1.map atoi, r.2)

def CConfigFile.getStringVector (c : CConfigFile) (key : Str) : Option (List Str × CConfigFile) :=
  c.getVector key

/-- The elements with the delimiter between them. -/
def joinVec (delim : Byte) (vec : List Str) : Str := [delim].intercalate vec

/-- The numbers as the setter prints them. -/
def int32Texts (vec : List Int32) : List Str := vec.map fun v => decInt v.toInt

def CConfigFile.setInt32Vector (c : CConfigFile) (key : Str) (vec : List Int32) : CConfigFile :=
  c.setValue (·.getString key []) (·.storeString key) (joinVec c.delimiter (int32Texts vec))

def CConfigFile.setStringVector (c : CConfigFile) (key : Str) (vec : List Str) : CConfigFile :=
  c.setValue (·.getString key []) (·.storeString key) (joinVec c.delimiter vec)

end Tuxbox.Config
