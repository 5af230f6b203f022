import Tuxbox.Zapit.Demux

/-! The program association table. The loop over the entries of a section goes on until
the end of the section, and the CRC is there.

Main results: `parsePat_eq`, what is found, and `finds_iff_unmistaken`, when that is what
is listed. -/
namespace Tuxbox.Zapit

open Buffer
open Sectionsd (word loopLength)

/-- Of a channel, what `parse_pat` asks for and what it sets. -/
structure PmtChannel where
  serviceId : UInt16
  pmtPid : Nat
  deriving DecidableEq

/-- One round. A hit ends the loop. -/
def patStep (serviceId : UInt16) (buffer : Str) (stop i : Nat) (found : Option Nat) :
    Option (Nat × Option Nat) := do
  let id ← word buffer i
  if id = serviceId then
    let high ← read buffer (i + 2)
    let low ← read buffer (i + 3)
    pure (stop, some ((high &&& 0x1F).toNat * 256 + low.toNat))
  else pure (i + 4, found)

/-- A section, and whether it was the last. -/
def patSection (channel : PmtChannel) (buffer : Str) (filter4 : Byte) :
    Option (Flow Byte (Int × PmtChannel)) := do
  let sectionLength ← loopLength buffer 1
  let r ← walk (patStep channel.serviceId buffer (sectionLength + 3)) (sectionLength + 3) 8 none
  match r.2 with
  | some pid => pure (.ret (0, { channel with pmtPid := pid }))
  | none => do
    let last ← read buffer 7
    if filter4 = last then pure (.ret (-1, channel)) else pure (.again (filter4 + 1))

def parsePat (answers : Answers) (fuel : Nat) (buffer : Str) (channel : PmtChannel) :
    Option (Int × PmtChannel) :=
  readFor (patSection channel) (fun _ => (-1, channel)) answers fuel 0 buffer 0

/-! ## Tables -/

structure Program where
  serviceId : UInt16
  reserved : Fin 8
  pid : Fin 8192
  deriving DecidableEq

def Program.bytes (p : Program) : Str :=
  [(p.serviceId.toNat / 256).toUInt8, p.serviceId.toUInt8,
    (p.reserved.val * 32 + p.pid.val / 256).toUInt8, p.pid.val.toUInt8]

/-- What differs between the sections of a table, with as many entries as fit. The CRC is
any four bytes. -/
structure PatSection where
  programs : List Program
  crc : Program
  short : programs.length ≤ 253

structure Pat where
  flags : Fin 16
  transportStreamId : UInt16
  version : Byte
  sections : List PatSection
  nonempty : sections ≠ []
  numbered : sections.length ≤ 256

/-- A CRC is four bytes, like an entry. -/
example : (⟨0xe8f9, 2, 0x1e7d⟩ : Program).bytes = [0xe8, 0xf9, 0x5e, 0x7d] := by decide

namespace Pat

def sectionLength (s : PatSection) : Nat := 9 + 4 * s.programs.length

def header (pat : Pat) (s : PatSection) (number : Nat) : Str :=
  [0x00, (pat.flags.val * 16 + sectionLength s / 256).toUInt8, (sectionLength s).toUInt8,
    (pat.transportStreamId.toNat / 256).toUInt8, pat.transportStreamId.toUInt8, pat.version,
    number.toUInt8, (pat.sections.length - 1).toUInt8]

def bytes (pat : Pat) (s : PatSection) (number : Nat) : Str :=
  pat.header s number ++ (s.programs.flatMap Program.bytes ++ s.crc.bytes)

/-- The filters ask for one section after the other. -/
def answers (pat : Pat) : Answers := deliver pat.bytes pat.sections

def Lists (pat : Pat) (serviceId : UInt16) (pid : Nat) : Prop :=
  ∃ s ∈ pat.sections, ∃ p ∈ s.programs, p.serviceId = serviceId ∧ p.pid.val = pid

/-- What the loops take for an entry, in the order they come to it. -/
def readings (l : List PatSection) : List Program := l.flatMap fun s => s.programs ++ [s.crc]

end Pat

/-! ## One section -/

section
variable {buf rest : Str} {i stop : Nat} {p : Program} {serviceId : UInt16}

theorem word_program (h : buf.drop i = p.bytes ++ rest) : word buf i = some p.serviceId :=
  word_of_drop h

theorem pid_program (p : Program) :
    ((p.reserved.val * 32 + p.pid.val / 256).toUInt8 &&& 0x1F).toNat * 256 +
      p.pid.val.toUInt8.toNat = p.pid.val := by
  have hpid := p.pid.isLt
  have hreserved := p.reserved.isLt
  have hmask : (0x1F : UInt8).toNat = 2 ^ 5 - 1 := rfl
  simp only [UInt8.toNat_and, Nat.toUInt8, UInt8.toNat_ofNat', hmask,
    Nat.and_two_pow_sub_one_eq_mod]
  omega

theorem patStep_program (found : Option Nat) (h : buf.drop i = p.bytes ++ rest) :
    patStep serviceId buf stop i found =
      some (if p.serviceId = serviceId then (stop, some p.pid.val) else (i + 4, found)) := by
  have h2 : read buf (i + 2) = some _ := read_of_drop (drop_behind (s := [_, _]) h)
  have h3 : read buf (i + 3) = some _ := read_of_drop (drop_behind (s := [_, _, _]) h)
  unfold patStep
  rw [bind_of_some (word_program h)]
  split
  · rw [bind_of_some h2, bind_of_some h3, pid_program]
    rfl
  · rfl

theorem patStep_moves (serviceId : UInt16) (buf : Str) (stop : Nat) :
    Moves (patStep serviceId buf stop) stop := by
  intro i found r hi h
  unfold patStep at h
  obtain ⟨id, -, h⟩ := Option.bind_eq_some_iff.mp h
  split at h
  · obtain ⟨-, h⟩ := read_bind.mp h
    obtain ⟨-, h⟩ := read_bind.mp h
    rw [← Option.some_inj.mp h]
    exact hi
  · rw [← Option.some_inj.mp h]
    exact Nat.lt_add_of_pos_right (by decide)

theorem walk_programs (serviceId : UInt16) {ps : List Program}
    (h : buf.drop i = ps.flatMap Program.bytes ++ rest)
    (hstop : stop = i + 4 * ps.length) :
    walk (patStep serviceId buf stop) stop i none =
      some (stop, (ps.find? (·.serviceId = serviceId)).map (·.pid.val)) := by
  induction ps generalizing i with
  | nil => exact hstop ▸ walk_end none (Nat.le_refl _)
  | cons p ps ih =>
    rw [List.length_cons] at hstop
    rw [List.flatMap_cons, List.append_assoc] at h
    rw [walk_step (patStep_moves serviceId buf stop) none (by omega), patStep_program none h,
      Option.bind_some, List.find?_cons]
    by_cases hid : p.serviceId = serviceId
    · rw [if_pos hid, decide_eq_true hid]
      exact walk_end _ (Nat.le_refl stop)
    · rw [if_neg hid, decide_eq_false hid]
      exact ih (drop_behind h) (by omega)

end

/-! ## All sections -/

namespace Pat

variable {pat : Pat} {s : PatSection} {number : Nat} {buffer : Str}

theorem header_length : (pat.header s number).length = 8 := rfl

theorem bytes_length (pat : Pat) (s : PatSection) (number : Nat) :
    (pat.bytes s number).length = sectionLength s + 3 := by
  have hflat : (s.programs.flatMap Program.bytes).length = 4 * s.programs.length := by
    induction s.programs with
    | nil => rfl
    | cons p ps ih =>
      rw [List.flatMap_cons, List.length_append, ih, List.length_cons]
      have : p.bytes.length = 4 := rfl
      omega
  rw [bytes, List.length_append, List.length_append, hflat, header_length]
  unfold sectionLength
  have : s.crc.bytes.length = 4 := rfl
  omega

theorem fill_bytes (hbuf : buffer.length = 1024) :
    fill buffer (pat.bytes s number) =
      pat.bytes s number ++ buffer.drop (sectionLength s + 3) := by
  have hlen := bytes_length pat s number
  have hshort := s.short
  unfold fill
  rw [hlen, List.take_of_length_le]
  unfold sectionLength at hlen
  omega

theorem loopLength_header (rest : Str) :
    loopLength (pat.header s number ++ rest) 1 = some (sectionLength s) := by
  have hshort := s.short
  refine loopLength_of_drop ?_ rfl
  unfold sectionLength
  omega

theorem patSection_eq (hbuf : buffer.length = 1024) (channel : PmtChannel) (filter4 : Byte) :
    patSection channel (fill buffer (pat.bytes s number)) filter4 = some
      (match (s.programs ++ [s.crc]).find? (·.serviceId = channel.serviceId) with
        | some p => .ret (0, { channel with pmtPid := p.pid.val })
        | none => if filter4 = (pat.sections.length - 1).toUInt8 then .ret (-1, channel)
          else .again (filter4 + 1)) := by
  have hread : read (pat.header s number ++ (s.programs.flatMap Program.bytes ++ s.crc.bytes ++
      buffer.drop (sectionLength s + 3))) 7 = some (pat.sections.length - 1).toUInt8 := rfl
  have hdrop : (pat.header s number ++ (s.programs.flatMap Program.bytes ++ s.crc.bytes ++
      buffer.drop (sectionLength s + 3))).drop 8 =
        (s.programs ++ [s.crc]).flatMap Program.bytes ++ buffer.drop (sectionLength s + 3) := by
    rw [List.flatMap_append, List.flatMap_singleton]
    rfl
  have hstop : sectionLength s + 3 = 8 + 4 * (s.programs ++ [s.crc]).length := by
    rw [List.length_append, List.length_singleton]
    unfold sectionLength
    omega
  have hwalk := walk_programs channel.serviceId hdrop hstop
  rw [fill_bytes hbuf, bytes, List.append_assoc]
  unfold patSection
  rw [bind_of_some (loopLength_header _), bind_of_some hwalk]
  cases (s.programs ++ [s.crc]).find? (·.serviceId = channel.serviceId) with
  | some p => rfl
  | none =>
    simp only [Option.map_none]
    rw [bind_of_some hread]
    split <;> rfl

/-- What `parse_pat` returns for the first reading of the service. -/
def outcome (channel : PmtChannel) (l : List Program) : Int × PmtChannel :=
  match l.find? (·.serviceId = channel.serviceId) with
  | some p => (0, { channel with pmtPid := p.pid.val })
  | none => (-1, channel)

def Names (s : PatSection) (serviceId : UInt16) : Prop := ∃ p ∈ s.programs, p.serviceId = serviceId

theorem hit_of_find {ps : List Program} {serviceId : UInt16} {p : Program}
    (h : ps.find? (·.serviceId = serviceId) = some p) : p ∈ ps ∧ p.serviceId = serviceId := by
  have hp := List.find?_some h
  exact ⟨List.mem_of_find?_eq_some h, of_decide_eq_true hp⟩

theorem names_of_find {s : PatSection} {serviceId : UInt16} {p : Program}
    (h : s.programs.find? (·.serviceId = serviceId) = some p) : Names s serviceId :=
  ⟨p, hit_of_find h⟩

theorem find_programs_none {s : PatSection} {serviceId : UInt16} :
    s.programs.find? (·.serviceId = serviceId) = none ↔ ¬ Names s serviceId := by
  simp [Names, List.find?_eq_none]

/-- Nothing in front of the first reading looks like an entry for the service. -/
theorem find_readings {serviceId : UInt16} {p : Program} {l : List PatSection} :
    (readings l).find? (·.serviceId = serviceId) = some p ↔
      ∃ before s after, l = before ++ s :: after ∧
        (∀ t ∈ before, ¬ Names t serviceId ∧ t.crc.serviceId ≠ serviceId) ∧
        (s.programs.find? (·.serviceId = serviceId) = some p ∨
          ¬ Names s serviceId ∧ s.crc.serviceId = serviceId ∧ s.crc = p) := by
  induction l with
  | nil => simp [readings]
  | cons s l ih =>
    rw [readings, List.flatMap_cons, List.append_assoc, List.find?_append]
    cases hfind : s.programs.find? (·.serviceId = serviceId) with
    | some q =>
      rw [Option.some_or]
      constructor
      · intro h
        exact ⟨[], s, l, rfl, fun t ht => (nomatch ht), .inl (hfind.trans h)⟩
      · rintro ⟨before, t, after, heq, hbefore, ht⟩
        cases before with
        | nil =>
          obtain ⟨rfl, rfl⟩ := List.cons.inj heq
          rcases ht with ht | ⟨hnot, -⟩
          · exact hfind.symm.trans ht
          · exact absurd (names_of_find hfind) hnot
        | cons u before =>
          obtain ⟨rfl, -⟩ := List.cons.inj heq
          exact absurd (names_of_find hfind) (hbefore s List.mem_cons_self).1
    | none =>
      have hnot := find_programs_none.mp hfind
      rw [Option.none_or, List.singleton_append, List.find?_cons]
      by_cases hcrc : s.crc.serviceId = serviceId
      · rw [decide_eq_true hcrc]
        constructor
        · intro h
          exact ⟨[], s, l, rfl, fun t ht => (nomatch ht), .inr ⟨hnot, hcrc, Option.some_inj.mp h⟩⟩
        · rintro ⟨before, t, after, heq, hbefore, ht⟩
          cases before with
          | nil =>
            obtain ⟨rfl, rfl⟩ := List.cons.inj heq
            rcases ht with ht | ⟨-, -, ht⟩
            · exact absurd (names_of_find ht) hnot
            · exact congrArg some ht
          | cons u before =>
            obtain ⟨rfl, -⟩ := List.cons.inj heq
            exact absurd hcrc (hbefore s List.mem_cons_self).2
      · rw [decide_eq_false hcrc]
        refine ih.trans ?_
        constructor
        · rintro ⟨before, t, after, rfl, hbefore, ht⟩
          refine ⟨s :: before, t, after, rfl, fun u hu => ?_, ht⟩
          rcases List.mem_cons.mp hu with rfl | hu
          · exact ⟨hnot, hcrc⟩
          · exact hbefore u hu
        · rintro ⟨before, t, after, heq, hbefore, ht⟩
          cases before with
          | nil =>
            obtain ⟨rfl, rfl⟩ := List.cons.inj heq
            rcases ht with ht | ⟨-, ht, -⟩
            · exact absurd (names_of_find ht) hnot
            · exact absurd ht hcrc
          | cons u before =>
            obtain ⟨rfl, rfl⟩ := List.cons.inj heq
            exact ⟨before, t, after, rfl, fun u hu => hbefore u (List.mem_cons_of_mem s hu), ht⟩

theorem find_section_none {s : PatSection} {serviceId : UInt16} (hnot : ¬ Names s serviceId)
    (hcrc : s.crc.serviceId ≠ serviceId) :
    (s.programs ++ [s.crc]).find? (·.serviceId = serviceId) = none := by
  rw [List.find?_append, find_programs_none.mpr hnot, Option.none_or, List.find?_cons,
    decide_eq_false hcrc]
  rfl

theorem parsePat_eq (channel : PmtChannel) {fuel : Nat} (hfuel : pat.sections.length ≤ fuel)
    (hbuf : buffer.length = 1024) :
    parsePat pat.answers fuel buffer channel = some (outcome channel (readings pat.sections)) := by
  have hpassed : ∀ k, (∀ s ∈ pat.sections[k]?,
      (s.programs ++ [s.crc]).find? (·.serviceId = channel.serviceId) = none) →
      Passed (patSection channel) (-1, channel) pat.bytes 1024 pat.sections k := by
    intro k hnone hk b hb
    rw [patSection_eq hb, hnone _ (List.getElem?_eq_getElem hk)]
  cases hfind : (readings pat.sections).find? (·.serviceId = channel.serviceId) with
  | none =>
    rw [outcome, hfind]
    refine readFor_passes _ pat.nonempty pat.numbered (fun k hk => hpassed k fun s hs => ?_) hfuel
      hbuf
    refine List.find?_eq_none.mpr fun p hp => List.find?_eq_none.mp hfind p ?_
    exact List.mem_flatMap.mpr ⟨s, List.mem_of_getElem? hs, hp⟩
  | some p =>
    rw [outcome, hfind]
    obtain ⟨before, s, after, hsections, hbefore, hp⟩ := find_readings.mp hfind
    have hfirst : (s.programs ++ [s.crc]).find? (·.serviceId = channel.serviceId) = some p := by
      rw [List.find?_append]
      rcases hp with hp | ⟨hnot, hcrc, rfl⟩
      · rw [hp, Option.some_or]
      · rw [find_programs_none.mpr hnot, Option.none_or, List.find?_cons, decide_eq_true hcrc]
    have hskip : ∀ k < before.length,
        Passed (patSection channel) (-1, channel) pat.bytes 1024 pat.sections k := by
      refine fun k hk => hpassed k fun t ht => ?_
      rw [hsections, List.getElem?_append_left hk] at ht
      obtain ⟨hnot, hcrc⟩ := hbefore t (List.mem_of_getElem? ht)
      exact find_section_none hnot hcrc
    obtain ⟨b, hb, hstop⟩ := readFor_stops (fun _ => (-1, channel)) hsections pat.numbered hskip
      hfuel hbuf
    refine hstop (some (0, { channel with pmtPid := p.pid.val })) ?_
    rw [patSection_eq hb, hfirst]
    rfl

/-! ## What is listed -/

/-- The answer is the listed one. -/
structure Finds (pat : Pat) (channel : PmtChannel) (fuel : Nat) (buffer : Str) : Prop where
  found : ∀ pid, parsePat pat.answers fuel buffer channel =
    some (0, { channel with pmtPid := pid }) ↔ pat.Lists channel.serviceId pid
  missing : parsePat pat.answers fuel buffer channel = some (-1, channel) ↔
    ∀ pid, ¬ pat.Lists channel.serviceId pid

/-- The service has one PID, and a CRC that looks like an entry for it comes behind the first
entry or looks like a later one. -/
structure Unmistaken (pat : Pat) (serviceId : UInt16) : Prop where
  unique : ∀ p q, pat.Lists serviceId p → pat.Lists serviceId q → p = q
  crc : ∀ before s after, pat.sections = before ++ s :: after →
    (∀ t ∈ before, ¬ Names t serviceId ∧ t.crc.serviceId ≠ serviceId) → ¬ Names s serviceId →
    s.crc.serviceId = serviceId →
    ∃ t ∈ after, ∃ p ∈ t.programs, p.serviceId = serviceId ∧ p.pid = s.crc.pid

/-- The PMT of a service is found exactly if no section of the PAT is mistaken for another. -/
theorem finds_iff_unmistaken {channel : PmtChannel} {fuel : Nat}
    (hfuel : pat.sections.length ≤ fuel) (hbuf : buffer.length = 1024) :
    pat.Finds channel fuel buffer ↔ pat.Unmistaken channel.serviceId := by
  have heq := parsePat_eq channel hfuel hbuf
  have hpid : ∀ {p q : Nat}, some ((0 : Int), { channel with pmtPid := p }) =
      some ((0 : Int), { channel with pmtPid := q }) ↔ p = q := by
    intro p q
    simp
  constructor
  · intro h
    refine ⟨fun p q hp hq => hpid.mp (((h.found p).mpr hp).symm.trans ((h.found q).mpr hq)), ?_⟩
    intro before s after hsections hbefore hnot hcrc
    have hfind := find_readings.mpr ⟨before, s, after, hsections, hbefore, .inr ⟨hnot, hcrc, rfl⟩⟩
    simp only [outcome, hfind] at heq
    obtain ⟨t, ht, p, hp, hps, hpp⟩ := (h.found s.crc.pid.val).mp heq
    refine ⟨t, ?_, p, hp, hps, Fin.ext hpp⟩
    rw [hsections, List.mem_append, List.mem_cons] at ht
    rcases ht with ht | rfl | ht
    · exact absurd ⟨p, hp, hps⟩ (hbefore t ht).1
    · exact absurd ⟨p, hp, hps⟩ hnot
    · exact ht
  · intro h
    cases hfind : (readings pat.sections).find? (·.serviceId = channel.serviceId) with
    | none =>
      simp only [outcome, hfind] at heq
      have hnone : ∀ pid, ¬ pat.Lists channel.serviceId pid := by
        rintro pid ⟨s, hs, p, hp, hps, -⟩
        have hmem : p ∈ readings pat.sections :=
          List.mem_flatMap.mpr ⟨s, hs, List.mem_append_left _ hp⟩
        exact List.find?_eq_none.mp hfind p hmem (decide_eq_true hps)
      refine ⟨fun pid => iff_of_false ?_ (hnone pid), iff_of_true heq hnone⟩
      rw [heq]
      simp
    | some p =>
      simp only [outcome, hfind] at heq
      have hlisted : pat.Lists channel.serviceId p.pid.val := by
        obtain ⟨before, s, after, hsections, hbefore, hp⟩ := find_readings.mp hfind
        rcases hp with hp | ⟨hnot, hcrc, rfl⟩
        · exact ⟨s, by rw [hsections]; simp, p, (hit_of_find hp).1, (hit_of_find hp).2, rfl⟩
        · obtain ⟨t, ht, q, hq, hqs, hqp⟩ := h.crc before s after hsections hbefore hnot hcrc
          exact ⟨t, by rw [hsections]; simp [ht], q, hq, hqs, congrArg Fin.val hqp⟩
      refine ⟨fun pid => ?_, iff_of_false ?_ fun hnone => hnone _ hlisted⟩
      · rw [heq, hpid]
        constructor
        · rintro rfl
          exact hlisted
        · exact h.unique _ _ hlisted
      · rw [heq]
        simp

theorem sample_flags : 0xb < 16 := by decide

theorem crc_reserved : 2 < 8 := by decide

theorem program_pid : 0x100 < 8192 := by decide

theorem crc_pid : 0x1e7d < 8192 := by decide

/-- One entry for service one, and the CRC that belongs to it. -/
def sample : Pat where
  flags := ⟨0xb, sample_flags⟩
  transportStreamId := 1
  version := 0xc1
  sections := [{
    programs := [⟨1, Fin.last 7, 0x100, program_pid⟩]
    crc := ⟨0xe8f9, ⟨2, crc_reserved⟩, 0x1e7d, crc_pid⟩
    short := by decide }]
  nonempty := List.cons_ne_nil _ _
  numbered := by decide

theorem finds_iff_unmistaken_sample :
    sample.Finds ⟨1, 0⟩ 1 (List.replicate 1024 0) ↔ sample.Unmistaken 1 :=
  finds_iff_unmistaken (by decide) List.length_replicate

/-- The CRC is found as a service. -/
theorem crc_found : ¬ ∀ (pat : Pat) (channel : PmtChannel) (fuel : Nat) (buffer : Str),
    pat.sections.length ≤ fuel → buffer.length = 1024 → pat.Finds channel fuel buffer := by
  intro h
  have hfinds := h sample ⟨0xe8f9, 0⟩ 1 (List.replicate 1024 0) (by decide) List.length_replicate
  have heq : parsePat sample.answers 1 (List.replicate 1024 0) ⟨0xe8f9, 0⟩ =
      some (0, ⟨0xe8f9, 0x1e7d⟩) := parsePat_eq ⟨0xe8f9, 0⟩ (by decide) List.length_replicate
  obtain ⟨s, hs, p, hp, hps, -⟩ := (hfinds.found 0x1e7d).mp heq
  obtain rfl := List.mem_singleton.mp hs
  obtain rfl := List.mem_singleton.mp hp
  exact absurd hps (by decide)

end Pat

end Tuxbox.Zapit
