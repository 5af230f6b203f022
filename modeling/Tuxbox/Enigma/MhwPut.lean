import Tuxbox.Enigma.MhwPacket

/-!
# The descriptors of a title are put behind the headers
-/

namespace Tuxbox.Enigma.Mhw

open Buffer

/-! ## Putting descriptors -/

/-- Bytes behind those that are made already. -/
def Packet.put (p : Packet) (bs : Str) : Option Packet := do
  let data ← writeAll p.data p.packet_length bs
  pure ⟨data, p.packet_length + bs.length, p.descr_ll + bs.length⟩

theorem Packet.put_append (p : Packet) (xs ys : Str) :
    p.put (xs ++ ys) = (p.put xs).bind fun p => p.put ys := by
  unfold Packet.put
  rw [writeAll_append]
  cases writeAll p.data p.packet_length xs with
  | none => rfl
  | some data =>
    simp only [Option.bind_eq_bind, Option.bind_some, Option.pure_def, List.length_append,
      Nat.add_assoc]

theorem putContent_eq (c : Byte) (p : Packet) :
    putContent c p = p.put (contentDescriptor c).encode := rfl

theorem putShort_eq {name : Str} (h : name.length + ([] : Str).length ≤ 250) (data : Str) :
    putShort name data = Packet.put ⟨data, 26, 0⟩ (shortDescriptor name [] h).encode := by
  have hbody : (shortDescriptor name [] h).body.length = 5 + name.length := by
    have heng : (chars "eng").length = 3 := rfl
    simp only [shortDescriptor, List.length_append, List.length_cons, List.length_nil, heng]
    omega
  have hbytes : (shortDescriptor name [] h).encode =
      [EIT_SHORT_EVENT_DESCRIPTOR,
        UInt8.ofNat (EIT_SHORT_EVENT_DESCRIPTOR_SIZE + name.length - 1)] ++
        chars "eng" ++ [UInt8.ofNat name.length] ++ name ++ [0] := by
    have hsize : EIT_SHORT_EVENT_DESCRIPTOR_SIZE + name.length - 1 = 5 + name.length := by
      unfold EIT_SHORT_EVENT_DESCRIPTOR_SIZE
      omega
    rw [EventDescriptor.encode, hbody, hsize]
    simp only [shortDescriptor, List.append_assoc, List.cons_append, List.nil_append]
    rfl
  have hlen : (shortDescriptor name [] h).encode.length = 7 + name.length := by
    rw [EventDescriptor.encode_length, hbody]
    omega
  have hplace : EIT_SIZE + EIT_LOOP_SIZE = 26 := rfl
  have hpacket :
      26 + EIT_SHORT_EVENT_DESCRIPTOR_SIZE + name.length + 1 = 26 + (7 + name.length) := by
    unfold EIT_SHORT_EVENT_DESCRIPTOR_SIZE
    omega
  have hloop : EIT_SHORT_EVENT_DESCRIPTOR_SIZE + 1 + name.length = 0 + (7 + name.length) := by
    unfold EIT_SHORT_EVENT_DESCRIPTOR_SIZE
    omega
  unfold putShort Packet.put
  simp only [hlen, hplace, hpacket, hloop]
  rw [hbytes]

/-! ## The extended descriptors -/

theorem length_extended (summary : Str) (nbr i : Nat) :
    (extendedDescriptor summary nbr i).encode.length = 8 + (piece summary i).length := by
  have heng : (chars "eng").length = 3 := rfl
  rw [EventDescriptor.encode_length]
  simp only [extendedDescriptor, List.length_append, List.length_cons, heng]
  omega

theorem extendedStep_eq {sumText : Str} {i : Nat} (hi : 247 * i ≤ sumText.length) (p : Packet)
    (nbr : Nat) :
    extendedStep sumText nbr (p, sumText.length - 247 * i) i =
      (p.put (extendedDescriptor sumText nbr i).encode).map fun p =>
        (p, sumText.length - 247 * (i + 1)) := by
  have hlen : (piece sumText i).length =
      if sumText.length - 247 * i > 247 then 247 else sumText.length - 247 * i := by
    rw [piece, List.length_take, List.length_drop]
    split <;> omega
  have hrest : sumText.length - 247 * i - (piece sumText i).length =
      sumText.length - 247 * (i + 1) := by
    rw [hlen]
    split <;> omega
  have hplace : sumText.length - (piece sumText i).length - (sumText.length - 247 * (i + 1)) =
      247 * i := by
    rw [hlen]
    split <;> omega
  have htext : (sumText.drop (247 * i)).take (piece sumText i).length = piece sumText i := by
    rw [piece, List.length_take, List.take_eq_take_iff]
    omega
  have hbytes : (extendedDescriptor sumText nbr i).encode =
      [EIT_EXTENDED_EVENT_DESCRIPOR, UInt8.ofNat ((piece sumText i).length + 6),
        UInt8.ofNat (i % 16 * 16 + (nbr - 1) % 16)] ++ chars "eng" ++
        [0, UInt8.ofNat (piece sumText i).length] ++ piece sumText i := by
    have hbody : (extendedDescriptor sumText nbr i).body.length = (piece sumText i).length + 6 := by
      have henc := length_extended sumText nbr i
      rw [EventDescriptor.encode_length] at henc
      omega
    rw [EventDescriptor.encode, hbody]
    simp only [extendedDescriptor, List.append_assoc, List.cons_append, List.nil_append]
    rfl
  unfold extendedStep Packet.put
  simp only [← hlen, hrest, hplace, htext, length_extended]
  rw [← hbytes]
  cases writeAll p.data p.packet_length (extendedDescriptor sumText nbr i).encode with
  | none => rfl
  | some data => rfl

theorem foldlM_extendedStep {sumText : Str} (p : Packet) (nbr : Nat) {n : Nat}
    (hn : n ≤ sumText.length / 247 + 1) :
    (List.range n).foldlM (extendedStep sumText nbr) (p, sumText.length) =
      (p.put (((List.range n).map (extendedDescriptor sumText nbr)).flatMap
        EventDescriptor.encode)).map fun p => (p, sumText.length - 247 * n) := by
  induction n with
  | zero => rfl
  | succ n ih =>
    have hplace : 247 * n ≤ sumText.length := by omega
    rw [List.range_succ, List.foldlM_append, ih (by omega), List.map_append, List.flatMap_append,
      Packet.put_append]
    cases p.put (((List.range n).map (extendedDescriptor sumText nbr)).flatMap
        EventDescriptor.encode) with
    | none => rfl
    | some q =>
      rw [Option.map_some, Option.bind_eq_bind, Option.bind_some, List.foldlM_cons,
        extendedStep_eq hplace, Option.bind_some]
      simp

/-- What is put for the extended descriptors. -/
theorem putExtended_eq (sumText : Str) (p : Packet) :
    putExtended sumText p =
      p.put ((extendedDescriptors sumText).flatMap EventDescriptor.encode) := by
  unfold putExtended extendedDescriptors
  simp only
  rw [foldlM_extendedStep p _ (Nat.le_refl _)]
  cases p.put (((List.range (sumText.length / 247 + 1)).map (extendedDescriptor sumText
      (sumText.length / 247 + 1))).flatMap EventDescriptor.encode) with
  | none => rfl
  | some q => rfl

section
variable {p : Packet} {head rest bs : Str}

namespace Packet

theorem put_at (hdata : p.data = head ++ rest) (hplace : p.packet_length = head.length)
    (hfit : bs.length ≤ rest.length) :
    p.put bs = some ⟨head ++ bs ++ rest.drop bs.length, p.packet_length + bs.length,
      p.descr_ll + bs.length⟩ := by
  unfold put
  rw [hdata, writeAll_at hplace hfit]
  rfl

theorem put_isSome (hbs : bs ≠ []) :
    (∃ q, p.put bs = some q) ↔ p.packet_length + bs.length ≤ p.data.length := by
  constructor
  · rintro ⟨q, h⟩
    obtain ⟨data, hdata, -⟩ := Option.bind_eq_some_iff.mp h
    exact (writeAll_keeps hdata hbs).2
  · intro hfit
    have hsplit : p.data = p.data.take p.packet_length ++ p.data.drop p.packet_length :=
      (List.take_append_drop _ _).symm
    have hplace : p.packet_length = (p.data.take p.packet_length).length := by
      rw [List.length_take]
      omega
    have hrest : bs.length ≤ (p.data.drop p.packet_length).length := by
      rw [List.length_drop]
      omega
    exact ⟨_, put_at hsplit hplace hrest⟩

end Packet

/-! ## The text of the short event descriptor -/

theorem length_short {name text : Str} (h : name.length + text.length ≤ 250) :
    (shortDescriptor name text h).encode.length = 7 + name.length + text.length := by
  have heng : (chars "eng").length = 3 := rfl
  rw [EventDescriptor.encode_length]
  simp only [shortDescriptor, List.length_append, List.length_cons, heng]
  omega

theorem encode_short {name text : Str} (h : name.length + text.length ≤ 250) :
    (shortDescriptor name text h).encode =
      [0x4d] ++ UInt8.ofNat (5 + name.length + text.length) ::
        (chars "eng" ++ UInt8.ofNat name.length :: name) ++ UInt8.ofNat text.length :: text := by
  have hbody : (shortDescriptor name text h).body.length = 5 + name.length + text.length := by
    have hlen := length_short h
    rw [EventDescriptor.encode_length] at hlen
    omega
  rw [EventDescriptor.encode, hbody]
  rfl

theorem putText_short {name text : Str} (h : name.length + text.length ≤ 250)
    (h' : name.length + ([] : Str).length ≤ 250) (hhead : head.length = 26)
    (hfit : text.length ≤ rest.length) :
    putText name.length text ⟨head ++ (shortDescriptor name [] h').encode ++ rest,
        26 + (7 + name.length), 7 + name.length⟩ =
      some ⟨head ++ (shortDescriptor name text h).encode ++ rest.drop text.length,
        26 + (7 + name.length) + text.length, 7 + name.length + text.length⟩ := by
  obtain ⟨m, hm⟩ : ∃ m, m = chars "eng" ++ UInt8.ofNat name.length :: name := ⟨_, rfl⟩
  have hmlen : m.length = 4 + name.length := by
    have heng : (chars "eng").length = 3 := rfl
    rw [hm, List.length_append, List.length_cons, heng]
    omega
  have hnum : UInt8.ofNat (5 + name.length + ([] : Str).length) + UInt8.ofNat text.length =
      UInt8.ofNat (5 + name.length + text.length) := by
    rw [← UInt8.ofNat_add, List.length_nil, Nat.add_zero]
  rw [encode_short, encode_short, ← hm]
  generalize UInt8.ofNat (5 + name.length + ([] : Str).length) = old at hnum
  -- the length of the text is behind the name
  have hcount : head ++ ([0x4d] ++ old :: m ++ UInt8.ofNat ([] : Str).length :: []) ++ rest =
      (head ++ [0x4d] ++ old :: m) ++ UInt8.ofNat ([] : Str).length :: rest := by simp
  have hcountAt : 26 + 6 + name.length = (head ++ [0x4d] ++ old :: m).length := by
    simp only [List.length_append, List.length_cons, List.length_nil, hhead, hmlen]
    omega
  have hfirst : (head ++ [0x4d] ++ old :: m) ++ UInt8.ofNat text.length :: rest =
      (head ++ [0x4d]) ++ old :: (m ++ UInt8.ofNat text.length :: rest) := by simp
  have hlenAt : 26 + 1 = (head ++ [(0x4d : Byte)]).length := by
    rw [List.length_append, hhead]
    rfl
  have hread : read ((head ++ [0x4d]) ++ old :: (m ++ UInt8.ofNat text.length :: rest)) (26 + 1) =
      some old := by
    unfold Buffer.read
    rw [hlenAt, List.getElem?_append_right (Nat.le_refl _), Nat.sub_self, List.getElem?_cons_zero]
  obtain ⟨new, hnew⟩ : ∃ new, new = UInt8.ofNat (5 + name.length + text.length) := ⟨_, rfl⟩
  have hsecond : (head ++ [0x4d]) ++ new :: (m ++ UInt8.ofNat text.length :: rest) =
      (head ++ [0x4d] ++ new :: m ++ [UInt8.ofNat text.length]) ++ rest := by simp
  have htextAt : 26 + 6 + name.length + 1 =
      (head ++ [0x4d] ++ new :: m ++ [UInt8.ofNat text.length]).length := by
    simp only [List.length_append, List.length_cons, List.length_nil, hhead, hmlen]
    omega
  have hplace : EIT_SIZE + EIT_LOOP_SIZE = 26 := rfl
  have hsize : EIT_SHORT_EVENT_DESCRIPTOR_SIZE = 6 := rfl
  unfold putText
  simp only [hplace, hsize]
  rw [hcount, write_at hcountAt, hfirst]
  simp only [Option.bind_eq_bind, Option.bind_some]
  rw [hread, Option.bind_some, write_at hlenAt, Option.bind_some, hnum, ← hnew, hsecond,
    writeAll_at htextAt hfit, Option.bind_some]
  simp

theorem putShort_text {name text : Str} (h : name.length + text.length ≤ 250) (htext : text ≠ [])
    (data : Str) :
    (putShort name data).bind (putText name.length text) =
      Packet.put ⟨data, 26, 0⟩ (shortDescriptor name text h).encode := by
  have h' : name.length + ([] : Str).length ≤ 250 := Nat.le_trans (by simp) h
  have hshort := length_short h'
  have hlong := length_short h
  have hne : (shortDescriptor name text h).encode ≠ [] := List.cons_ne_nil _ _
  rw [List.length_nil, Nat.add_zero] at hshort
  rw [putShort_eq h']
  by_cases hfit : 26 + (7 + name.length + text.length) ≤ data.length
  · have hsplit : data = data.take 26 ++ data.drop 26 := (List.take_append_drop _ _).symm
    have hhead : (data.take 26).length = 26 := by
      rw [List.length_take]
      omega
    have hrest : (data.drop 26).length = data.length - 26 := List.length_drop
    rw [Packet.put_at hsplit hhead.symm (by omega), Packet.put_at hsplit hhead.symm (by omega),
      Option.bind_some, hshort, hlong, Nat.zero_add, Nat.zero_add,
      putText_short h h' hhead (by rw [List.length_drop]; omega), List.drop_drop, Nat.add_assoc 26]
  · have hright : Packet.put ⟨data, 26, 0⟩ (shortDescriptor name text h).encode = none := by
      rw [Option.eq_none_iff_forall_ne_some]
      intro q hq
      have hroom := (Packet.put_isSome hne).mp ⟨q, hq⟩
      rw [hlong] at hroom
      exact hfit hroom
    rw [hright, Option.eq_none_iff_forall_ne_some]
    intro q hq
    -- the last write is that of the text, and the buffer keeps its length
    obtain ⟨p, hp, hq⟩ := Option.bind_eq_some_iff.mp hq
    obtain ⟨data₁, h₁, hq⟩ := Option.bind_eq_some_iff.mp hq
    obtain ⟨old, -, hq⟩ := Option.bind_eq_some_iff.mp hq
    obtain ⟨data₂, h₂, hq⟩ := Option.bind_eq_some_iff.mp hq
    obtain ⟨data₃, h₃, -⟩ := Option.bind_eq_some_iff.mp hq
    obtain ⟨data₀, h₀, hp⟩ := Option.bind_eq_some_iff.mp hp
    have hkeep₀ : data₀.length = data.length := (writeAll_keeps h₀ (List.cons_ne_nil _ _)).1
    have hkeep₁ := ((region_write _ (Nat.le_refl _) (Nat.lt_succ_self _)).keeps h₁).1
    have hkeep₂ := ((region_write _ (Nat.le_refl _) (Nat.lt_succ_self _)).keeps h₂).1
    have hroom := (writeAll_keeps h₃ htext).2
    have hplace : EIT_SIZE + EIT_LOOP_SIZE + EIT_SHORT_EVENT_DESCRIPTOR_SIZE = 32 := rfl
    rw [hplace, hkeep₂, hkeep₁, ← Option.some_inj.mp hp, hkeep₀] at hroom
    exact hfit (by omega)

/-! ## All descriptors of a title -/

/-- The summary comes into the short event descriptor if there is room for it. -/
def descriptorsOf (name summary : Str) (hname : name.length ≤ 23) (content_id : Byte) :
    List EventDescriptor :=
  if h : name.length + summary.length ≤ 250 then
    [shortDescriptor name summary h, contentDescriptor content_id]
  else
    shortDescriptor name [] (Nat.le_trans hname (by decide)) :: extendedDescriptors summary ++
      [contentDescriptor content_id]

/-- The bytes of the section, from the lengths of the name and of the summary. -/
def sectionSize (name summary : Nat) : Nat :=
  if name + summary ≤ 250 then 37 + name + summary
  else 45 + name + summary + 8 * (summary / 247)

theorem length_extendedDescriptors (summary : Str) (nbr n : Nat) :
    (((List.range n).map (extendedDescriptor summary nbr)).flatMap EventDescriptor.encode).length =
      8 * n + min (247 * n) summary.length := by
  induction n with
  | zero => simp
  | succ n ih =>
    have hpiece : (piece summary n).length = min 247 (summary.length - 247 * n) := by
      rw [piece, List.length_take, List.length_drop]
    rw [List.range_succ, List.map_append, List.flatMap_append, List.length_append, ih]
    simp only [List.map_cons, List.map_nil, List.flatMap_cons, List.flatMap_nil, List.append_nil,
      length_extended, hpiece]
    omega

theorem length_descriptorsOf {name : Str} (summary : Str) (hname : name.length ≤ 23) (c : Byte) :
    26 + ((descriptorsOf name summary hname c).flatMap EventDescriptor.encode).length =
      sectionSize name.length summary.length := by
  have hcontent : (contentDescriptor c).encode.length = 4 := rfl
  unfold descriptorsOf sectionSize
  split
  · simp only [List.flatMap_cons, List.flatMap_nil, List.append_nil, List.length_append,
      length_short, hcontent]
    omega
  · simp only [List.flatMap_append, List.flatMap_cons, List.flatMap_nil, List.append_nil,
      List.length_append, length_short, hcontent, extendedDescriptors, length_extendedDescriptors,
      List.length_nil]
    omega

/-- Together they put the descriptors that a reader expects. -/
theorem putDescriptors_eq {name : Str} (summary data : Str) (hname : name.length ≤ 23) (c : Byte) :
    (((putShort name data).bind (putSummary name.length summary)).bind (putContent c)) =
      Packet.put ⟨data, 26, 0⟩
        ((descriptorsOf name summary hname c).flatMap EventDescriptor.encode) := by
  have hnone : name.length + ([] : Str).length ≤ 250 := by
    rw [List.length_nil]
    omega
  have hput : putContent c = fun p => p.put (contentDescriptor c).encode :=
    funext (putContent_eq c)
  have hsize : EIT_SHORT_EVENT_DESCRIPTOR_SIZE = 6 := rfl
  unfold descriptorsOf
  split
  · rename_i h
    rw [List.flatMap_cons, List.flatMap_cons, List.flatMap_nil, List.append_nil,
      Packet.put_append, hput]
    apply congrArg (fun x => Option.bind x _)
    by_cases hempty : summary = []
    · subst hempty
      have hkeep : putSummary name.length [] = some := rfl
      rw [hkeep, Option.bind_fun_some, putShort_eq hnone]
    · have hpos : summary.length > 0 := List.length_pos_iff.mpr hempty
      have htext : putSummary name.length summary = putText name.length summary := by
        funext p
        rw [putSummary, if_pos hpos, hsize, if_pos (by omega)]
      rw [htext, putShort_text h hempty]
  · rename_i h
    have hext : putSummary name.length summary =
        fun p => p.put ((extendedDescriptors summary).flatMap EventDescriptor.encode) := by
      funext p
      rw [putSummary, if_pos (by omega), hsize, if_neg (by omega), putExtended_eq]
    rw [List.flatMap_append, List.flatMap_cons, List.flatMap_cons, List.flatMap_nil,
      List.append_nil, Packet.put_append, Packet.put_append, hput, hext, putShort_eq hnone]

end

end Tuxbox.Enigma.Mhw
