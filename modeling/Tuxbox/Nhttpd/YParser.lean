import Tuxbox.Lib.Bytes
import Tuxbox.Lib.OrdMap
import Mathlib.Data.List.Infix

/-!
# Templates of the web server

The loop that replaces the commands `{=…=}` of a template, innermost first, until
none is left. What a command results in stands in the template afterwards and is
looked at again.

The definitions are generic in what a character carries besides its byte: `byte`
takes it off, `text` makes characters of bytes that come from outside the
template. With `id` for both they are the code.
-/

namespace Tuxbox.Nhttpd

/-- What a request gives the parser, and what the commands find outside of it:
`other` runs the commands that read or write files, settings and translations,
`script` the scripts. `σ` is the state these leave behind. -/
structure Request (σ : Type) where
  params : OrdMap Str Str
  fileExists : σ → Str → Bool
  other : σ → Str → Str → Str × σ
  script : σ → Str → Str × σ

/-- `executed` lists the arguments of the calls of `YexecuteScript`. -/
structure Session (σ : Type) where
  vars : OrdMap Str Str
  outside : σ
  executed : List Str

section
variable {α σ : Type} (byte : α → Byte) (text : Byte → α)

def tilde : Byte := 126

def colon : Byte := 58

def equalSign : Byte := 61

/-- Whether the character was found, what is before it and what is behind it. -/
def ySplitString (c : Byte) (s : List α) : Bool × List α × List α :=
  match s.findIdx? fun x => byte x = c with
  | some i => (true, s.take i, s.drop (i + 1))
  | none => (false, s, [])

/-- `<value>~<then>~<else>`. -/
def ifValue (holds : Str → Bool) (name : List α) : List α :=
  match ySplitString byte tilde name with
  | (true, value, branches) =>
    let (_, ifThen, ifElse) := ySplitString byte tilde branches
    if holds (value.map byte) then ifThen else ifElse
  | (false, _, _) => []

/-- `<left_value>~<right_value>~<then>~<else>`. -/
def ifValues (holds : Str → Str → Bool) (name : List α) : List α :=
  match ySplitString byte tilde name with
  | (true, left, rest) => ifValue byte (holds (left.map byte)) rest
  | (false, _, _) => []

/-- The commands whose results come from files, settings and translations. -/
def otherTypes : List Str :=
  [chars "L", chars "find-exec", chars "include", chars "include-block", chars "func",
    chars "ini-get", chars "ini-set", chars "global-var-get", chars "global-var-set",
    chars "file-action"]

/-- The result of one command. -/
def yWebCgiCmd (r : Request σ) (s : Session σ) (ycmd : List α) : List α × Session σ :=
  match ySplitString byte colon ycmd with
  | (true, ycmdType, ycmdName) =>
    let t := ycmdType.map byte
    let name := ycmdName.map byte
    if t = chars "script" then
      let (result, outside) := r.script s.outside name
      (result.map text, { s with outside := outside, executed := s.executed ++ [name] })
    else if t = chars "if-empty" then (ifValue byte (fun v => v.isEmpty) ycmdName, s)
    else if t = chars "if-equal" then (ifValues byte (fun l v => l = v) ycmdName, s)
    else if t = chars "if-not-equal" then (ifValues byte (fun l v => l ≠ v) ycmdName, s)
    else if t = chars "if-file-exists" then (ifValue byte (r.fileExists s.outside) ycmdName, s)
    else if t = chars "var-get" then (((s.vars.find name).getD []).map text, s)
    else if t = chars "var-set" then
      match ySplitString id equalSign name with
      | (true, varname, varvalue) => ([], { s with vars := s.vars.set varname varvalue })
      | (false, _, _) => ([], s)
    else if t ∈ otherTypes then
      let (result, outside) := r.other s.outside t name
      (result.map text, { s with outside := outside })
    else ((chars "ycgi-type unknown").map text, s)
  | (false, _, _) =>
    let name := ycmd.map byte
    let value := (r.params.find name).getD []
    if value = [] then ([], s)
    else if chars "script" <:+: value then
      ((chars "<!--Not Allowed script in " ++ name ++ chars " -->").map text, s)
    else (value.map text, s)

/-- The two bytes stand at `i`. -/
def pairAt (a b : Byte) (s : List α) (i : Nat) : Bool :=
  (s[i]?).map byte == some a && (s[i + 1]?).map byte == some b

def find (a b : Byte) (s : List α) : Option Nat :=
  (List.range s.length).find? fun i => pairAt byte a b s i

/-- The last place that is not behind `last`. -/
def rfind (a b : Byte) (s : List α) (last : Nat) : Option Nat :=
  (List.range (last + 1)).reverse.find? fun i => pairAt byte a b s i

def braceOpen : Byte := 123

def braceClose : Byte := 125

/-- What is before the next command, its text, and what is behind it. The end of
`{=}` is before the end of its start; the length of its text wraps then, and the
text is everything behind the start. -/
def nextCommand (template : List α) : Option (List α × List α × List α) :=
  match find byte equalSign braceClose template with
  | none => none
  | some last =>
    match rfind byte braceOpen equalSign template last with
    | none => none
    | some start =>
      let behind := template.drop (start + 2)
      let ycmd := if last < start + 2 then behind else behind.take (last - (start + 2))
      some (template.take start, ycmd, template.drop (last + 2))

/-- One round of the loop; `none` when there is no command. -/
def parsingStep (r : Request σ) (x : List α × Session σ) : Option (List α × Session σ) :=
  match nextCommand byte x.1 with
  | none => none
  | some (before, ycmd, behind) =>
    let (result, s) := yWebCgiCmd byte text r x.2 ycmd
    some (before ++ result ++ behind, s)

/-- The loop, as far as the fuel goes. -/
def cgiCmdParsing (r : Request σ) : (fuel : Nat) → List α × Session σ → Option (List α × Session σ)
  | 0, _ => none
  | fuel + 1, x =>
    match parsingStep byte text r x with
    | none => some x
    | some y => cgiCmdParsing r fuel y

end

end Tuxbox.Nhttpd
