import Tuxbox.Lib.Bytes

/-!
# XML text

A document as the pieces its text is made of, and the tags a parser reports for
it. An attribute value stands in the text with the five standard escapes and in
the report without them.
-/

namespace Tuxbox.Xml

abbrev Atts := List (Str × Str)

/-- What a parser reports. -/
inductive Event
  | start (name : Str) (atts : Atts)
  | close (name : Str)
  deriving DecidableEq

inductive Piece
  | space (ws : Str)
  | comment (body : Str)
  | start (name : Str) (atts : Atts)
  | empty (name : Str) (atts : Atts)
  | close (name : Str)
  deriving DecidableEq

/-- The five characters that XML predefines an entity for. -/
def special (c : Byte) : Bool := c = 60 || c = 62 || c = 38 || c = 34 || c = 39

def escapeByte (c : Byte) : Str :=
  if c = 60 then chars "&lt;"
  else if c = 62 then chars "&gt;"
  else if c = 38 then chars "&amp;"
  else if c = 34 then chars "&quot;"
  else if c = 39 then chars "&apos;"
  else [c]

def escape (s : Str) : Str := s.flatMap escapeByte

def attText (a : Str × Str) : Str := chars " " ++ a.1 ++ chars "=\"" ++ escape a.2 ++ chars "\""

/-- What a piece looks like, and what it says. -/
def Piece.text : Piece → Str
  | .space ws => ws
  | .comment body => chars "<!--" ++ body ++ chars "-->"
  | .start name atts => chars "<" ++ name ++ atts.flatMap attText ++ chars ">"
  | .empty name atts => chars "<" ++ name ++ atts.flatMap attText ++ chars "/>"
  | .close name => chars "</" ++ name ++ chars ">"

/-- An empty-element tag says what a start tag and an end tag say. -/
def Piece.events : Piece → List Event
  | .space _ => []
  | .comment _ => []
  | .start name atts => [.start name atts]
  | .empty name atts => [.start name atts, .close name]
  | .close name => [.close name]

def declaration : Str := chars "<?xml version=\"1.0\" encoding=\"UTF-8\"?>"

def text (ps : List Piece) : Str := declaration ++ ps.flatMap Piece.text

def events (ps : List Piece) : List Event := ps.flatMap Piece.events

/-- The parser reports the tags of this document, escapes undone. A parser that
finds a text malformed reports nothing. -/
def Reads (parser : Str → Option (List Event)) (ps : List Piece) : Prop :=
  parser (text ps) = some (events ps)

/-- Escaping works byte by byte. -/
theorem escape_append (s t : Str) : escape (s ++ t) = escape s ++ escape t :=
  List.flatMap_append

theorem escape_of_plain {s : Str} (h : ∀ c ∈ s, special c = false) : escape s = s := by
  induction s with
  | nil => rfl
  | cons c s ih =>
    have hc := h c List.mem_cons_self
    simp only [special, Bool.or_eq_false_iff, decide_eq_false_iff_not] at hc
    have hs := ih fun d hd => h d (List.mem_cons_of_mem c hd)
    have hb : escapeByte c = [c] := by simp [escapeByte, hc]
    simpa [escape, hb] using hs

end Tuxbox.Xml
