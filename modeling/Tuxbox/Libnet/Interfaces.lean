import Tuxbox.Lib.OrdMap
import Tuxbox.Lib.Words

/-!
# The file of the network interfaces

libnet keeps `/etc/network/interfaces` as a list of lines and edits the stanzas
of one interface in place. The reader goes over the lines on its own.
-/

namespace Tuxbox.Libnet

/-- What is known about one interface. -/
structure Interface where
  automaticStart : Bool
  family : Str
  method : Str
  attributes : OrdMap Str Str
  deriving DecidableEq

def iface : Str := chars "iface"

def auto : Str := chars "auto"

def mapping : Str := chars "mapping"

def hash : Byte := 35

/-- A line by its first word. Blank lines and comments are notes; what is no
keyword is an option of the stanza above it. -/
inductive Line where
  | note
  | iface (names : List Str)
  | auto (names : List Str)
  | mapping
  | option (key : Str) (values : List Str)

def line : List Str → Line
  | [] => .note
  | w :: ws =>
    if w.head? = some hash then .note
    else if w = iface then .iface ws
    else if w = auto then .auto ws
    else if w = mapping then .mapping
    else .option w ws

/-- The line as the string streams see it, up to the end of its `c_str`. -/
def lineOf (l : Str) : Line := line (words (cString l))

/-! ## Writing -/

def tabulator : Byte := 9

def addAttributes (attributes : OrdMap Str Str) : List Str :=
  attributes.entries.map fun e => tabulator :: joined e.1 [e.2]

def removeInterfaceFromLine (interface l : Str) : Str :=
  match words (cString l) with
  | [] => []
  | w :: ws =>
    let kept := ws.filter (· ≠ interface)
    if kept = [] then [] else joined w kept

def autoLine (name : Str) : Str := joined auto [name]

def ifaceLine (name : Str) (c : Interface) : Str := joined iface [name, c.family, c.method]

/-- The lines for an interface. -/
def stanza (name : Str) (c : Interface) : List Str :=
  (if c.automaticStart then [autoLine name] else []) ++ ifaceLine name c :: addAttributes c.attributes

/-- The loop over the lines. `removing` holds inside the loop that removes the
current attributes, which starts below a replaced line and ends at a keyword. -/
def edit (name : Str) (c : Interface) : Bool → List Str → List Str
  | _, [] => []
  | removing, l :: ls =>
    match lineOf l with
    | .note => l :: edit name c removing ls
    | .mapping => l :: edit name c false ls
    | .option _ _ => if removing then edit name c true ls else l :: edit name c false ls
    | .auto names =>
      if name ∈ names then
        let l' := removeInterfaceFromLine name l
        if l' = [] then edit name c false ls else l' :: edit name c false ls
      else l :: edit name c false ls
    | .iface names =>
      if names.head? = some name then stanza name c ++ edit name c true ls
      else l :: edit name c false ls

/-- The flag `found`. -/
def found (name : Str) (ls : List Str) : Bool :=
  ls.any fun l =>
    match lineOf l with
    | .iface names => names.head? = some name
    | _ => false

/-- The lines of a file, each with its `endl`. -/
def unlines (ls : List Str) : Str := ls.flatMap (· ++ [newline])

/-- `none` is a file that cannot be opened; the list of lines stays empty then. -/
def readFile (file : Option Str) : List Str := (file.map lines).getD []

def writeLines (name : Str) (c : Interface) (ls : List Str) : List Str :=
  edit name c false ls ++ if found name ls then [] else stanza name c

/-- The file after the edit. -/
def writeInterface (file : Option Str) (name : Str) (c : Interface) : Str :=
  unlines (writeLines name c (readFile file))

/-! ## Reading -/

/-- `inside` holds in the inner loop, below an `iface` line of the interface. -/
structure Reading where
  inside : Bool
  result : Interface

def readLine (name : Str) (r : Reading) (l : Str) : Reading :=
  match lineOf l with
  | .note => r
  | .mapping => { r with inside := false }
  | .auto names =>
    ⟨false, { r.result with automaticStart := r.result.automaticStart || decide (name ∈ names) }⟩
  | .iface (n :: family :: method :: _) =>
    if n = name then ⟨true, { r.result with family := family, method := method }⟩
    else { r with inside := false }
  | .iface _ => { r with inside := false }
  | .option key (value :: _) =>
    if r.inside then
      { r with result := { r.result with attributes := r.result.attributes.set key value } }
    else r
  | .option _ [] => r

def readLines (name : Str) (r : Reading) (ls : List Str) : Reading := ls.foldl (readLine name) r

/-- `family` and `method` keep what the caller had in them unless a stanza is read. -/
def readInterface (file : Option Str) (name family method : Str) : Bool × Interface :=
  let start : Interface := ⟨false, family, method, .empty⟩
  match file with
  | none => (false, start)
  | some s => (true, (readLines name ⟨false, start⟩ (lines s)).result)

/-! ## Files and arguments -/

/-- Every option line belongs to an `iface` or `mapping` stanza: only notes and
options are between them. -/
def Belongs : Bool → List Str → Prop
  | _, [] => True
  | inStanza, l :: ls =>
    match lineOf l with
    | .note => Belongs inStanza ls
    | .mapping => Belongs true ls
    | .iface _ => Belongs true ls
    | .auto _ => Belongs false ls
    | .option _ _ => inStanza = true ∧ Belongs inStanza ls

instance decidableBelongs : (inStanza : Bool) → (ls : List Str) → Decidable (Belongs inStanza ls)
  | _, [] => isTrue trivial
  | inStanza, l :: ls =>
    have := fun b => decidableBelongs b ls
    match h : lineOf l with
    | .note => decidable_of_iff (Belongs inStanza ls) (by simp [Belongs, h])
    | .mapping => decidable_of_iff (Belongs true ls) (by simp [Belongs, h])
    | .iface _ => decidable_of_iff (Belongs true ls) (by simp [Belongs, h])
    | .auto _ => decidable_of_iff (Belongs false ls) (by simp [Belongs, h])
    | .option _ _ =>
      decidable_of_iff (inStanza = true ∧ Belongs inStanza ls) (by simp [Belongs, h])

/-- A name that an attribute line can start with. -/
structure IsKey (k : Str) : Prop where
  word : IsWord k
  noNote : k.head? ≠ some hash
  noKeyword : k ≠ iface ∧ k ≠ auto ∧ k ≠ mapping

instance (k : Str) : Decidable (IsKey k) :=
  decidable_of_iff (IsWord k ∧ k.head? ≠ some hash ∧ k ≠ iface ∧ k ≠ auto ∧ k ≠ mapping)
    ⟨fun h => ⟨h.1, h.2.1, h.2.2⟩, fun h => ⟨h.1, h.2, h.3⟩⟩

/-- The data of an interface can be written: words throughout. -/
structure Interface.Writable (c : Interface) : Prop where
  family : IsWord c.family
  method : IsWord c.method
  attributes : ∀ e ∈ c.attributes.entries, IsKey e.1 ∧ IsWord e.2

instance (c : Interface) : Decidable c.Writable :=
  decidable_of_iff
    (IsWord c.family ∧ IsWord c.method ∧ ∀ e ∈ c.attributes.entries, IsKey e.1 ∧ IsWord e.2)
    ⟨fun h => ⟨h.1, h.2.1, h.2.2⟩, fun h => ⟨h.1, h.2, h.3⟩⟩

end Tuxbox.Libnet
