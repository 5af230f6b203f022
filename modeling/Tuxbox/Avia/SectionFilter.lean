import Tuxbox.Lib.Masked
import Tuxbox.Lib.Run
import Mathlib.Algebra.GroupWithZero.Nat
import Mathlib.Logic.Function.Basic

/-!
# Analysis of section filters

`prop_ucode_alloc_section_filter` of `avia_gt_ucode.c` up to the search for
space: the filters of a feed are copied into rows of eight bytes, one filter
is split into a positive and a negative part, several are merged where one
comparison can stand for two. The result is what is programmed later.
-/

namespace Tuxbox.Avia

abbrev U8 := BitVec 8

scoped instance tableNeZero : NeZero 8 := ⟨Nat.succ_ne_zero 7⟩

scoped instance headNeZero : NeZero 18 := ⟨Nat.succ_ne_zero 17⟩

/-- `dmx_section_filter`, with `DMX_MAX_FILTER_SIZE` bytes. -/
structure DmxSectionFilter where
  filterValue : Fin 18 → U8
  filterMask : Fin 18 → U8
  filterMode : Fin 18 → U8

/-- The first bytes of a section, as far as a filter can look at them. -/
abbrev SectionHead := Fin 18 → U8

namespace DmxSectionFilter

/-- `maskandmode`: the bits a section has to share with the filter. -/
def maskAndMode (f : DmxSectionFilter) (i : Fin 18) : U8 := f.filterMask i &&& f.filterMode i

/-- `maskandnotmode`: the bits of which one has to differ. -/
def maskAndNotMode (f : DmxSectionFilter) (i : Fin 18) : U8 := f.filterMask i &&& ~~~f.filterMode i

/-- `doneq` -/
def doneq (f : DmxSectionFilter) : Prop := ∃ i, f.maskAndNotMode i ≠ 0#8

/-- `dvb_dmx_swfilter_sectionfilter` -/
def Accepts (f : DmxSectionFilter) (s : SectionHead) : Prop :=
  (∀ i, Agrees (f.maskAndMode i) (f.filterValue i) (s i)) ∧
  (f.doneq → ∃ i, ¬ Agrees (f.maskAndNotMode i) (f.filterValue i) (s i))

instance (f : DmxSectionFilter) : Decidable f.doneq := inferInstanceAs (Decidable (∃ _, _))

instance (f : DmxSectionFilter) (s : SectionHead) : Decidable (f.Accepts s) :=
  inferInstanceAs (Decidable (_ ∧ _))

end DmxSectionFilter

/-- The byte of a section that index `k` of a parameter table stands for. The
section length, bytes 1 and 2, cannot be filtered. -/
def sectionByte (k : Fin 8) : Fin 18 :=
  if k = 0 then 0 else ⟨k.val + 2, by omega⟩

/-- What the microcode sees of a section. -/
def SectionHead.seen (s : SectionHead) (k : Fin 8) : U8 := s (sectionByte k)

/-- One index of the arrays `mask`, `value`, `mode`, `in_use`, `ver_not`,
`unchanged`, `not_value` and `not_mask`. -/
structure FilterRow where
  mask : Fin 8 → U8
  value : Fin 8 → U8
  mode : Fin 8 → U8
  /-- `in_use`: the last masked byte, `none` for -1. -/
  inUse : Option (Fin 8)
  verNot : Bool
  unchanged : Bool
  notValue : U8
  notMask : U8

namespace FilterRow

/-- The positive comparison of a row. -/
def pattern (r : FilterRow) : Pattern (Fin 8) 8 := ⟨r.mask, r.value⟩

end FilterRow

/-- The last of the first `len` bytes with a masked bit. -/
def lastMasked (mask : Fin 8 → U8) (len : Nat) : Option (Fin 8) :=
  (List.finRange 8).foldl (fun u k => if k.val < len ∧ mask k ≠ 0#8 then some k else u) none

/-- What the stack holds where nothing has been written: `not_value` and
`not_mask` are set only together with `ver_not`. -/
abbrev Stack := Nat → U8 × U8

/-- A filter in its row. -/
def normalize (junk : U8 × U8) (f : DmxSectionFilter) : FilterRow :=
  let mask := fun k => f.filterMask (sectionByte k)
  let value := fun k => f.filterValue (sectionByte k) &&& f.filterMask (sectionByte k)
  let mode := fun k => f.filterMode (sectionByte k) ||| ~~~f.filterMask (sectionByte k)
  let verNot := decide (mode 3 ≠ 0xFF#8 ∧ mode 3 &&& mask 3 = 0#8)
  { mask, value, mode
    inUse := lastMasked mask 8
    verNot
    unchanged := true
    notValue := if verNot then value 3 else junk.1
    notMask := if verNot then mask 3 else junk.2 }

/-- `MAX_SECTION_FILTERS` -/
def maxSectionFilters : Nat := 16

/-- The first loop; `none` where it returns 0. -/
def copyFilters (stack : Stack) : Nat → List DmxSectionFilter → Option (List FilterRow)
  | _, [] => some []
  | n, f :: fs =>
    -- filters are left over: too many for the hardware
    if n = maxSectionFilters then none
    else
      let row := normalize (stack n) f
      if row.inUse = none then none
      else (copyFilters stack (n + 1) fs).map (row :: ·)

namespace FilterRow

/-- `anz_not`: bytes with a negative bit. -/
def anzNot (r : FilterRow) : Nat := ((List.finRange 8).filter (r.mode · ≠ 0xFF#8)).length

/-- `anz_mixed`: those of them with a positive bit too. -/
def anzMixed (r : FilterRow) : Nat :=
  ((List.finRange 8).filter fun k => r.mode k ≠ 0xFF#8 ∧ r.mode k &&& r.mask k ≠ 0#8).length

/-- `anz_normal`: masked bytes without a negative bit. -/
def anzNormal (r : FilterRow) : Nat :=
  ((List.finRange 8).filter fun k => r.mode k = 0xFF#8 ∧ r.mask k ≠ 0#8).length

/-- The row without its "mode-0" bits. -/
def positive (r : FilterRow) : FilterRow :=
  { r with mask := fun k => r.mask k &&& r.mode k
           value := fun k => r.value k &&& (r.mask k &&& r.mode k) }

/-- The negative bits of a row, as a second row; its `mode` is never read. -/
def negative (r : FilterRow) : FilterRow :=
  { r with mask := fun k => ~~~r.mode k
           value := fun k => r.value k &&& ~~~r.mode k
           verNot := false
           unchanged := true }

end FilterRow

/-- The rows to program, how they are combined, and which are negated. -/
structure Analysis where
  rows : List FilterRow
  /-- `and_or`: true for OR. -/
  andOr : Bool
  notTheFirst : Bool
  notTheSecond : Bool

/-- Special case: only one section filter in this feed. -/
def analyseOne (r : FilterRow) : Analysis :=
  -- only the version byte is negative, the microcode can do that in one entry
  if r.anzNot = 1 ∧ r.anzMixed = 0 ∧ r.mode 3 ≠ 0xFF#8 then ⟨[r], false, false, false⟩
  else if 0 < r.anzNot ∧ 0 < r.anzNormal then ⟨[r.positive, r.negative], false, false, true⟩
  else if 0 < r.anzNot then ⟨[r], false, true, false⟩
  else ⟨[r], false, false, false⟩

/-! ## Merging -/

/-- `hweight8` -/
def hweight8 (x : U8) : Nat := ((List.range 8).filter (x.getLsbD ·)).length

def compareLen (a b : Fin 8) : Nat := if a < b then a.val + 1 else b.val + 1

namespace FilterRow

/-- The check whether two rows differ in one bit only: `none` is the jump to
`next_check`, otherwise `different_bit_index` with `xor`. -/
def differentBit (x y : FilterRow) (len : Nat) : Option (Option (Fin 8 × U8)) :=
  ((List.finRange 8).take len).foldlM (fun d k =>
    if x.mask k = y.mask k ∧ x.value k ≠ y.value k then
      if d.isSome then none
      else
        let xor := x.value k ^^^ y.value k
        if hweight8 xor = 1 then some (some (k, xor)) else none
    else none) none

/-- Whether `unchanged` survives a merge. -/
def sameNot (x y : FilterRow) : Bool :=
  x.notValue = y.notValue ∧ x.notMask = y.notMask ∧ x.verNot = y.verNot

/-- The byte of a comparison length of at least one. -/
def lastByte (len : Nat) : Option (Fin 8) := (List.finRange 8)[len - 1]?

/-- The row that stands for two rows which differ in one bit; `none` where no
masked bit is left. -/
def mergeBit (x y : FilterRow) (len : Nat) (bit : Option (Fin 8 × U8)) : Option FilterRow :=
  let mask := match bit with
    | some (d, xor) => Function.update x.mask d (x.mask d - xor)
    | none => x.mask
  let value := match bit with
    | some (d, _) => Function.update x.value d (x.value d &&& mask d)
    | none => x.value
  let inUse := match bit with
    | some (d, _) => if x.inUse = some d then lastMasked mask len else lastByte len
    | none => lastByte len
  if inUse = none then none
  else some
    { x with
      mask := fun k => if k.val < len then mask k else 0#8
      value := fun k => if k.val < len then value k else 0#8
      inUse
      unchanged := x.unchanged && x.sameNot y }

/-- `new_valid`: byte by byte, one mask contains the other and the values are
equal on the smaller one. -/
def newValid (x y : FilterRow) (len : Nat) : Prop :=
  ∀ k : Fin 8, k.val < len →
    (x.mask k &&& y.mask k = x.mask k ∨ x.mask k &&& y.mask k = y.mask k) ∧
    x.value k &&& (x.mask k &&& y.mask k) = y.value k &&& (x.mask k &&& y.mask k)

instance (x y : FilterRow) (len : Nat) : Decidable (x.newValid y len) :=
  inferInstanceAs (Decidable (∀ _, _))

/-- The row that stands for two rows of which one is redundant. -/
def mergeSubset (x y : FilterRow) (len : Nat) : FilterRow :=
  { x with
    mask := fun k => if k.val < len then x.mask k &&& y.mask k else 0#8
    value := fun k => if k.val < len then x.value k &&& (x.mask k &&& y.mask k) else 0#8
    inUse := lastByte len
    unchanged := x.unchanged && x.sameNot y }

end FilterRow

/-- The rows in the course of merging, with `anz_filters`. -/
structure Merge where
  rows : Nat → FilterRow
  anzFilters : Nat

/-- Row `i` becomes `row`, row `j` is not in use any more. -/
def Merge.absorb (m : Merge) (i j : Nat) (row : FilterRow) : Merge :=
  { rows := Function.update (Function.update m.rows i row) j { m.rows j with inUse := none }
    anzFilters := m.anzFilters - 1 }

/-- The body of the two inner loops; `none` where the function returns 0. -/
def Merge.compare (m : Merge) (i j : Nat) : Option Merge :=
  if m.anzFilters ≤ 1 then some m
  else match (m.rows i).inUse, (m.rows j).inUse with
    | some a, some b =>
      let len := compareLen a b
      match (m.rows i).differentBit (m.rows j) len with
      | some bit => ((m.rows i).mergeBit (m.rows j) len bit).map (m.absorb i j)
      | none =>
        if (m.rows i).newValid (m.rows j) len then
          some (m.absorb i j ((m.rows i).mergeSubset (m.rows j) len))
        else some m
    | _, _ => some m

/-- The pairs of rows in the order in which they are compared. -/
def rowPairs : List (Nat × Nat) :=
  (List.range (maxSectionFilters - 1)).flatMap fun i =>
    (List.range' (i + 1) (maxSectionFilters - 1 - i)).map fun j => (i, j)

/-- All pairs once. -/
def Merge.pass (m : Merge) : Option Merge := runList (fun m p => m.compare p.1 p.2) m rowPairs

/-- "Eliminate redundant filters": passes until one changes nothing. The fuel
is the number of filters: every pass but the last takes one away. -/
def Merge.run : Nat → Merge → Option Merge
  | 0, m => some m
  | fuel + 1, m =>
    match m.pass with
    | none => none
    | some m' => if m'.anzFilters = m.anzFilters then some m' else Merge.run fuel m'

/-- A row behind the last filter: `in_use` is -1 and nothing else is read. -/
def FilterRow.unused : FilterRow :=
  ⟨fun _ => 0#8, fun _ => 0#8, fun _ => 0#8, none, false, false, 0#8, 0#8⟩

def Merge.ofRows (rows : List FilterRow) : Merge :=
  { rows := fun i => rows.getD i FilterRow.unused
    anzFilters := rows.length }

/-- The rows in use, in order. -/
def Merge.used (m : Merge) : List FilterRow :=
  ((List.range maxSectionFilters).map m.rows).filter (·.inUse ≠ none)

/-- A row without its negative bits, `none` if no bit is left to compare. -/
def FilterRow.strip (r : FilterRow) : Option FilterRow :=
  match lastMasked r.positive.mask 8 with
  | none => none
  | some k => some { r.positive with inUse := some k }

def stripAll : List FilterRow → Option (List FilterRow)
  | [] => some []
  | r :: rows =>
    match r.strip with
    | none => none
    | some r' => (stripAll rows).map (r' :: ·)

/-- More than one filter. -/
def analyseMany (rows : List FilterRow) : Option Analysis :=
  match stripAll rows with
  | none => none
  | some stripped =>
    match (Merge.ofRows stripped).run stripped.length with
    | none => none
    | some m => some ⟨m.used.take m.anzFilters, true, false, false⟩

/-- Everything up to the search for space. -/
def analyse (stack : Stack) (filters : List DmxSectionFilter) : Option Analysis :=
  if filters = [] then none
  else match copyFilters stack 0 filters with
    | none => none
    | some [r] => some (analyseOne r)
    | some rows => analyseMany rows

end Tuxbox.Avia
