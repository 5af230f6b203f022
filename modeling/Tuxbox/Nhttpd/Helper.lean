import Tuxbox.Lib.Numeral
import Mathlib.Data.List.DropRight

/-!
# String helpers of the web server

`ySplitStringExact` splits at a substring, `trim` takes blanks off both ends, and
`decodeString` resolves `%xx` and `+`.
-/

namespace Tuxbox.Nhttpd

/-- The first place of `what` in `s`. -/
def findStr (what s : Str) : Option Nat :=
  (List.range (s.length + 1)).find? fun i => what.isPrefixOf (s.drop i)

/-- Whether the delimiter was found, what is before it and what is behind it. -/
def ySplitStringExact (str delimiter : Str) : Bool × Str × Str :=
  match findStr delimiter str with
  | some i => (true, str.take i, str.drop (i + delimiter.length))
  | none => (false, str, [])

/-- The default `delims` of `trim`. -/
def isDelim (c : Byte) : Bool := c = 32 || c = 9 || c = 13 || c = 10

def trim (s : Str) : Str := (s.rdropWhile isDelim).dropWhile isDelim

def percent : Byte := 37

/-- `%` and the two characters behind it, if there are two, and `+`. -/
def decodeString : Str → Str
  | c :: a :: b :: s =>
    if c = percent then (strtoul 16 [a, b]).toUInt8 :: decodeString s
    else (if c = plus then 32 else c) :: decodeString (a :: b :: s)
  | c :: s => (if c = plus then 32 else c) :: decodeString s
  | [] => []

end Tuxbox.Nhttpd
