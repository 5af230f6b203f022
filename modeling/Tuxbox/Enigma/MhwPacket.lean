import Mathlib.Data.Nat.Bitwise
import Tuxbox.Enigma.MhwTitle
import Tuxbox.Enigma.EventStore
import Tuxbox.Lib.Codec

/-!
# What a reader finds in the section of a title
-/

namespace Tuxbox.Enigma.Mhw

open Buffer
open Epg (HILO)

/-! ## Reading -/

/-- A text behind its length. -/
def counted : Str → Option (Str × Str)
  | length :: rest =>
    if length.toNat ≤ rest.length then some (rest.take length.toNat, rest.drop length.toNat)
    else none
  | [] => none

def descriptorItem : Str → Option ((Byte × Str) × Str)
  | tag :: rest => (counted rest).map fun (body, rest) => ((tag, body), rest)
  | [] => none

/-- Name and text, behind a language. -/
def shortEvent : Str → Option (Str × Str)
  | _ :: _ :: _ :: rest => do
    let (name, rest) ← counted rest
    let (text, rest) ← counted rest
    if rest = [] then some (name, text) else none
  | _ => none

/-- The number of the descriptor and that of the last, and the text. -/
def extendedEvent : Str → Option ((Nat × Nat) × Str)
  | number :: _ :: _ :: _ :: rest => do
    let (_, rest) ← counted rest
    let (text, rest) ← counted rest
    if rest = [] then some ((number.toNat / 16, number.toNat % 16), text) else none
  | _ => none

structure Programme where
  name : Str
  text : Str
  extended : List Str
  deriving DecidableEq

def ofTag (tag : Byte) (ds : List (Byte × Str)) : List Str :=
  (ds.filter fun d => d.1 = tag).map Prod.snd

/-- The extended events are numbered, and each has the number of the last. -/
def programme (ds : List (Byte × Str)) : Option Programme :=
  match ofTag 0x4d ds with
  | [body] => do
    let (name, text) ← shortEvent body
    let extended ← (ofTag 0x4e ds).mapM extendedEvent
    if extended.map Prod.fst = (List.range extended.length).map fun i => (i, extended.length - 1)
    then some ⟨name, text, extended.map Prod.snd⟩
    else none
  | _ => none

def lengthField (data : Str) (i : Nat) : Nat :=
  HILO (data.getD i 0 &&& 0xF) (data.getD (i + 1) 0)

/-- The descriptors of the event end with the loop, and the loop with the section. -/
def decode (data : Str) : Option Programme :=
  let section_length := lengthField data 1
  let descriptors_loop_length := lengthField data 24
  if section_length + 3 ≤ data.length ∧ 26 + descriptors_loop_length = section_length + 3 then do
    let ds ← decodeAll descriptorItem descriptors_loop_length
      ((data.drop 26).take descriptors_loop_length)
    programme ds
  else none

/-- The name, and the summary in one of the two places. -/
def Carries (packet name summary : Str) : Prop :=
  ∃ p, decode packet = some p ∧ p.name = name ∧
    (p.text = summary ∧ p.extended = [] ∨ p.text = [] ∧ p.extended.flatten = summary)

theorem counted_cons {text : Str} (h : text.length < 256) (rest : Str) :
    counted (UInt8.ofNat text.length :: text ++ rest) = some (text, rest) := by
  have hlen : (UInt8.ofNat text.length).toNat = text.length := UInt8.toNat_ofNat_of_lt' h
  rw [List.cons_append, counted, hlen, if_pos (by simp), List.take_left, List.drop_left]

theorem descriptorItem_encode (d : EventDescriptor) (rest : Str) :
    descriptorItem (d.encode ++ rest) = some ((d.tag, d.body), rest) := by
  rw [EventDescriptor.encode, List.cons_append, descriptorItem, counted_cons d.short rest]
  rfl

/-! ## Descriptors that are made -/

def shortDescriptor (name text : Str) (h : name.length + text.length ≤ 250) : EventDescriptor where
  tag := 0x4d
  body := chars "eng" ++ UInt8.ofNat name.length :: name ++ UInt8.ofNat text.length :: text
  short := by
    have heng : (chars "eng").length = 3 := rfl
    simp only [List.length_append, List.length_cons, heng]
    omega

theorem shortEvent_body {name text : Str} (h : name.length + text.length ≤ 250) :
    shortEvent (shortDescriptor name text h).body = some (name, text) := by
  have heng : chars "eng" = [101, 110, 103] := rfl
  have hname := counted_cons (show name.length < 256 by omega) (UInt8.ofNat text.length :: text)
  have htext := counted_cons (show text.length < 256 by omega) []
  rw [List.append_nil] at htext
  unfold shortDescriptor
  simp only [heng, List.cons_append, List.nil_append, shortEvent]
  rw [← List.cons_append, hname, Option.bind_eq_bind, Option.bind_some, htext]
  rfl

/-- The part of a summary that comes into one extended descriptor. -/
def piece (summary : Str) (i : Nat) : Str := (summary.drop (247 * i)).take 247

theorem length_piece (summary : Str) (i : Nat) : (piece summary i).length ≤ 247 := by
  rw [piece, List.length_take]
  exact Nat.min_le_left _ _

def extendedDescriptor (summary : Str) (nbr i : Nat) : EventDescriptor where
  tag := 0x4e
  body := UInt8.ofNat (i % 16 * 16 + (nbr - 1) % 16) ::
    chars "eng" ++ 0 :: UInt8.ofNat (piece summary i).length :: piece summary i
  short := by
    have heng : (chars "eng").length = 3 := rfl
    have hpiece := length_piece summary i
    simp only [List.length_append, List.length_cons, heng]
    omega

theorem extendedEvent_body (summary : Str) {nbr i : Nat} (hnbr : nbr ≤ 16) (hi : i < nbr) :
    extendedEvent (extendedDescriptor summary nbr i).body =
      some ((i, nbr - 1), piece summary i) := by
  have heng : chars "eng" = [101, 110, 103] := rfl
  have hpiece := length_piece summary i
  have hitems := counted_cons (show ([] : Str).length < 256 by decide)
    (UInt8.ofNat (piece summary i).length :: piece summary i)
  have htext := counted_cons (show (piece summary i).length < 256 by omega) []
  rw [List.append_nil] at htext
  have hnumber : (UInt8.ofNat (i % 16 * 16 + (nbr - 1) % 16)).toNat = i * 16 + (nbr - 1) := by
    rw [UInt8.toNat_ofNat_of_lt' (show _ < 256 by omega), Nat.mod_eq_of_lt (by omega),
      Nat.mod_eq_of_lt (by omega)]
  have hzero : (0 : Byte) = UInt8.ofNat ([] : Str).length := rfl
  unfold extendedDescriptor
  simp only [heng, List.cons_append, List.nil_append, extendedEvent, hnumber]
  rw [hzero, ← List.nil_append (UInt8.ofNat (piece summary i).length :: piece summary i),
    ← List.cons_append, hitems, Option.bind_eq_bind, Option.bind_some, htext, Option.bind_some,
    if_pos rfl]
  have hhigh : (i * 16 + (nbr - 1)) / 16 = i := by omega
  have hlow : (i * 16 + (nbr - 1)) % 16 = nbr - 1 := by omega
  rw [hhigh, hlow]

/-- The pieces together are the summary. -/
theorem flatten_pieces (summary : Str) (n : Nat) :
    ((List.range n).map (piece summary)).flatten = summary.take (247 * n) := by
  induction n with
  | zero => simp
  | succ n ih =>
    rw [List.range_succ, List.map_append, List.flatten_append, ih, Nat.mul_succ, List.take_add]
    simp [piece]

/-- The descriptors of a summary that is not in the short event descriptor. -/
def extendedDescriptors (summary : Str) : List EventDescriptor :=
  let nbr := summary.length / 247 + 1
  (List.range nbr).map (extendedDescriptor summary nbr)

def contentDescriptor (content_id : Byte) : EventDescriptor where
  tag := 0x54
  body := [content_id, 0]
  short := Nat.lt_of_sub_eq_succ rfl

/-! ## The section that is read -/

def entry (d : EventDescriptor) : Byte × Str := (d.tag, d.body)

/-- What is found in the descriptors of a title. -/
theorem programme_short {name text : Str} (h : name.length + text.length ≤ 250) (c : Byte) :
    programme ([shortDescriptor name text h, contentDescriptor c].map entry) =
      some ⟨name, text, []⟩ := by
  have hshort : ofTag 0x4d ([shortDescriptor name text h, contentDescriptor c].map entry) =
      [(shortDescriptor name text h).body] := rfl
  have hext : ofTag 0x4e ([shortDescriptor name text h, contentDescriptor c].map entry) = [] := rfl
  rw [programme, hshort, hext]
  simp only [shortEvent_body]
  rfl

theorem ofTag_extended (tag : Byte) (summary : Str) (nbr n : Nat) :
    ofTag tag (((List.range n).map (extendedDescriptor summary nbr)).map entry) =
      if tag = 0x4e then (List.range n).map fun i => (extendedDescriptor summary nbr i).body
      else [] := by
  have htag (i : Nat) : (entry (extendedDescriptor summary nbr i)).1 = 0x4e := rfl
  rw [ofTag, List.map_map, List.filter_map, List.map_map]
  split
  · rename_i heq
    rw [List.filter_eq_self.mpr]
    · rfl
    · intro i _
      simp [heq, htag]
  · rename_i hne
    rw [List.filter_eq_nil_iff.mpr]
    · rfl
    · intro i _
      simp [htag, Ne.symm hne]

theorem programme_extended {name : Str} (h : name.length + ([] : Str).length ≤ 250) {summary : Str}
    (hnbr : summary.length / 247 + 1 ≤ 16) (c : Byte) :
    programme ((shortDescriptor name [] h :: extendedDescriptors summary ++
        [contentDescriptor c]).map entry) =
      some ⟨name, [], (List.range (summary.length / 247 + 1)).map (piece summary)⟩ := by
  have hsplit (tag : Byte) : ofTag tag ((shortDescriptor name [] h ::
        extendedDescriptors summary ++ [contentDescriptor c]).map entry) =
      ofTag tag [entry (shortDescriptor name [] h)] ++
        (ofTag tag ((extendedDescriptors summary).map entry) ++
          ofTag tag [entry (contentDescriptor c)]) := by
    simp only [ofTag, ← List.map_append, ← List.filter_append]
    rw [← List.singleton_append, List.append_assoc, List.map_append, List.map_append]
    rfl
  have hshort := hsplit 0x4d
  have hext := hsplit 0x4e
  rw [extendedDescriptors, ofTag_extended, if_neg (by decide)] at hshort
  rw [extendedDescriptors, ofTag_extended, if_pos rfl] at hext
  have hpieces : ((List.range (summary.length / 247 + 1)).map fun i =>
      (extendedDescriptor summary (summary.length / 247 + 1) i).body).mapM extendedEvent =
      some ((List.range (summary.length / 247 + 1)).map fun i =>
        ((i, summary.length / 247), piece summary i)) := by
    rw [List.mapM_map]
    exact (mapM_of_eq fun i hi => extendedEvent_body summary hnbr (List.mem_range.mp hi)).trans
      List.mapM_pure
  have hnone : ofTag 0x4e [entry (shortDescriptor name [] h)] = [] := rfl
  have hnone' : ofTag 0x4e [entry (contentDescriptor c)] = [] := rfl
  have hone : ofTag 0x4d [entry (shortDescriptor name [] h)] =
      [(shortDescriptor name [] h).body] := rfl
  have hnone'' : ofTag 0x4d [entry (contentDescriptor c)] = [] := rfl
  rw [hnone, hnone', List.nil_append, List.append_nil] at hext
  rw [hone, hnone'', List.append_nil, List.append_nil] at hshort
  rw [programme, extendedDescriptors, hshort, hext, hpieces]
  simp only [shortEvent_body, Option.bind_eq_bind, Option.bind_some, List.map_map,
    List.length_map, List.length_range, Nat.add_sub_cancel]
  exact if_pos rfl

/-- What is found in a section that is laid out from descriptors. -/
theorem decode_section {data head rest : Str} {ds : List EventDescriptor} {p : Programme}
    (hhead : head.length = 26) (hdata : data = head ++ ds.flatMap EventDescriptor.encode ++ rest)
    (hsection : lengthField data 1 = 23 + (ds.flatMap EventDescriptor.encode).length)
    (hloop : lengthField data 24 = (ds.flatMap EventDescriptor.encode).length)
    (hp : programme (ds.map entry) = some p) : decode data = some p := by
  have hlen : data.length = 26 + (ds.flatMap EventDescriptor.encode).length + rest.length := by
    rw [hdata, List.length_append, List.length_append, hhead]
  have hbytes : (data.drop 26).take (ds.flatMap EventDescriptor.encode).length =
      ds.flatMap EventDescriptor.encode := by
    rw [hdata, List.append_assoc, ← hhead, List.drop_left, List.take_left]
  have hds : decodeAll descriptorItem (ds.flatMap EventDescriptor.encode).length
      (ds.flatMap EventDescriptor.encode) = some (ds.map entry) := by
    apply decodeAll_flatMap
    · intro d _
      exact List.cons_ne_nil _ _
    · intro d _ rest
      exact descriptorItem_encode d rest
    · exact Nat.le_refl _
  unfold decode
  simp only [hsection, hloop]
  rw [if_pos (by omega), hbytes, hds]
  exact hp

end Tuxbox.Enigma.Mhw
