import Tuxbox.Lib.Numeral
import Tuxbox.Lib.Xml

/-!
# The XML tree

`libxmltree`: a tree is built from the tags that the parser reports, and walked
by name. The parser itself is a parameter, a function from the text of a file to
the tags in it.
-/

namespace Tuxbox.Xmltree

open Xml

/-- `XMLTreeNode`: type, attributes, children. Character data is never asked for. -/
inductive XMLTreeNode
  | node (type : Str) (attributes : Atts) (children : List XMLTreeNode)

namespace XMLTreeNode

def type : XMLTreeNode → Str
  | node t _ _ => t

def attributes : XMLTreeNode → Atts
  | node _ as _ => as

def children : XMLTreeNode → List XMLTreeNode
  | node _ _ cs => cs

/-- `AddNode` with `ADD_CHILD`, of a list of nodes. -/
def addNodes : XMLTreeNode → List XMLTreeNode → XMLTreeNode
  | node t as cs, new => node t as (cs ++ new)

end XMLTreeNode

open XMLTreeNode

/-- Matching with case falls through to matching without. -/
def sameName (a b : Str) : Bool := a = b || a.map toLower = b.map toLower

def getAttribute (as : Atts) (name : Str) : Option Str :=
  (as.find? fun a => sameName a.1 name).map Prod.snd

def setAttribute (as : Atts) (a : Str × Str) : Atts :=
  if as.any (fun x => sameName x.1 a.1) then
    let i := as.findIdx fun x => sameName x.1 a.1
    as.modify i fun x => (x.1, a.2)
  else as ++ [a]

/-- The open nodes, the current one first. A node joins its parent when it is
closed; in the source it does so when it is opened, and nothing looks at the
tree in between. -/
abbrev Path := List XMLTreeNode

def startElementHandler (name : Str) (atts : Atts) (path : Path) : Path :=
  node name (atts.foldl setAttribute []) [] :: path

/-- The root stays current. -/
def endElementHandler : Path → Path
  | cur :: parent :: path => parent.addNodes [cur] :: path
  | path => path

def handle (path : Path) : Event → Path
  | .start name atts => startElementHandler name atts path
  | .close _ => endElementHandler path

/-- The root with all that is still open under it. -/
def rootNode : Path → Option XMLTreeNode
  | [] => none
  | cur :: path => some (path.foldl (fun child parent => parent.addNodes [child]) cur)

/-- `parseXmlFile` on the text of the file. -/
def parseXml (expat : Str → Option (List Event)) (file : Str) : Option XMLTreeNode :=
  match expat file with
  | none => none
  | some es => rootNode (es.foldl handle [])

/-- The siblings that a loop over `xmlGetNextOccurence` stops at. -/
def occurrences (nodes : List XMLTreeNode) (name : String) : List XMLTreeNode :=
  nodes.filter fun n => n.type = chars name

def xmlGetAttribute (n : XMLTreeNode) (name : String) : Option Str :=
  getAttribute n.attributes (chars name)

def xmlGetNumericAttribute (n : XMLTreeNode) (name : String) (base : Nat) : Nat :=
  match xmlGetAttribute n name with
  | none => 0
  | some s => strtoul base s

/-- `convert_UTF8_To_UTF8_XML`. -/
def convertUtf8ToUtf8Xml : Str → Str
  | [] => []
  | c :: s =>
    if c = 0 then []
    else (if c = 60 then chars "&lt;"
      else if c = 62 then chars "&gt;"
      else if c = 38 then chars "&amp;"
      else if c = 34 then chars "&quot;"
      else if c = 39 then chars "&apos;"
      else if 32 ≤ c then [c]
      else []) ++ convertUtf8ToUtf8Xml s

/-- What is left of a name in the file: the control characters are dropped, and a
zero ends it. -/
def printable (s : Str) : Str := (cString s).filter (32 ≤ ·)

/-- The converted string is the escaped printable part. -/
theorem convertUtf8_eq (s : Str) : convertUtf8ToUtf8Xml s = escape (printable s) := by
  induction s with
  | nil => rfl
  | cons c s ih =>
    by_cases h0 : c = 0
    · simp [convertUtf8ToUtf8Xml, printable, cString, h0, escape]
    · have hs : printable (c :: s) = (if 32 ≤ c then [c] else []) ++ printable s := by
        by_cases h32 : 32 ≤ c
        · simp [printable, cString, h0, h32]
        · simp [printable, cString, h0, h32]
      have hp : (c = 60 ∨ c = 62 ∨ c = 38 ∨ c = 34 ∨ c = 39) → 32 ≤ c := by
        rintro (rfl | rfl | rfl | rfl | rfl) <;> decide
      rw [hs, escape_append, ← ih]
      simp only [convertUtf8ToUtf8Xml, h0, if_false]
      congr 1
      by_cases h32 : 32 ≤ c
      · simp [h32, escape, escapeByte]
      · have hne : c ≠ 60 ∧ c ≠ 62 ∧ c ≠ 38 ∧ c ≠ 34 ∧ c ≠ 39 :=
          ⟨fun h => h32 (hp (by simp [h])), fun h => h32 (hp (by simp [h])),
            fun h => h32 (hp (by simp [h])), fun h => h32 (hp (by simp [h])),
            fun h => h32 (hp (by simp [h]))⟩
        simp [h32, hne, escape]

/-! ## Building -/

section
variable {es es' : List Event} {cs cs' : List XMLTreeNode} {name : Str} {atts : Atts}

/-- Attribute names that differ in more than case. -/
def Distinct (names : List Str) : Prop := names.Pairwise fun a b => sameName a b = false

instance : DecidablePred Distinct := fun _ => inferInstanceAs (Decidable (List.Pairwise _ _))

theorem foldl_setAttribute {seen : Atts} (h : Distinct ((seen ++ atts).map Prod.fst)) :
    atts.foldl setAttribute seen = seen ++ atts := by
  induction atts generalizing seen with
  | nil => simp
  | cons a atts ih =>
    have hnew : seen.any (fun x => sameName x.1 a.1) = false := by
      rw [List.map_append] at h
      have hcross := (List.pairwise_append.mp h).2.2
      simp only [List.any_eq_false, Bool.not_eq_true]
      intro x hx
      exact hcross x.1 (List.mem_map_of_mem hx) a.1 (List.mem_map_of_mem List.mem_cons_self)
    have hset : setAttribute seen a = seen ++ [a] := by simp [setAttribute, hnew]
    rw [List.foldl_cons, hset, ih (by simpa using h)]
    simp

/-- These tags add `cs` to whatever node is open. -/
def Builds (es : List Event) (cs : List XMLTreeNode) : Prop :=
  ∀ n path, es.foldl handle (n :: path) = n.addNodes cs :: path

theorem builds_nil : Builds [] [] := by
  rintro ⟨t, as, cs⟩ path
  simp [addNodes]

theorem Builds.append (h : Builds es cs) (h' : Builds es' cs') : Builds (es ++ es') (cs ++ cs') := by
  rintro ⟨t, as, ns⟩ path
  rw [List.foldl_append, h, h']
  simp [addNodes]

/-- Tags around such a stretch, and one stretch after the other. -/
theorem builds_element (h : Builds es cs) (hd : Distinct (atts.map Prod.fst)) :
    Builds (.start name atts :: es ++ [.close name]) [node name atts cs] := by
  intro n path
  have hset : atts.foldl setAttribute [] = atts := foldl_setAttribute (by simpa using hd)
  simp only [List.cons_append, List.foldl_cons, List.foldl_append, List.foldl_nil, handle,
    startElementHandler, hset]
  rw [h]
  simp [endElementHandler, addNodes]

theorem builds_flatMap {α : Type} {l : List α} {f : α → List Event} {g : α → XMLTreeNode}
    (h : ∀ x ∈ l, Builds (f x) [g x]) : Builds (l.flatMap f) (l.map g) := by
  induction l with
  | nil => exact builds_nil
  | cons x l ih =>
    have hx := h x List.mem_cons_self
    have hl := ih fun y hy => h y (List.mem_cons_of_mem x hy)
    simpa using hx.append hl

/-- A root with such children. -/
theorem parseXml_element {expat : Str → Option (List Event)} {file : Str} (h : Builds es cs)
    (hd : Distinct (atts.map Prod.fst))
      (hp : expat file = some (.start name atts :: es ++ [.close name])) :
    parseXml expat file = some (node name atts cs) := by
  have hset : atts.foldl setAttribute [] = atts := foldl_setAttribute (by simpa using hd)
  unfold parseXml
  simp only [hp, List.cons_append, List.foldl_cons, List.foldl_append, List.foldl_nil, handle,
    startElementHandler, hset]
  rw [h]
  simp [endElementHandler, rootNode, addNodes]

end

end Tuxbox.Xmltree
