import Tuxbox.Sectionsd.Bat
import Tuxbox.Sectionsd.Nit
import Tuxbox.Sectionsd.Sdt

/-!
# What the parser of a bouquet section reads
-/

namespace Tuxbox.Sectionsd

open Buffer

namespace SIsectionBAT

/-! ## Sections that fit -/

/-- The buffer does not end inside the text it is compared with. -/
def CompareFits (buf : Str) (i : Nat) (text : Str) : Prop := buf.drop i <+: text → buf.drop i = text

def specifierAt (buf : Str) (i : Nat) : Nat :=
  ((lengthAt buf i * 256 + lengthAt buf (i + 1)) * 256 + lengthAt buf (i + 2)) * 256 +
    lengthAt buf (i + 3)

def reservedIdAt (buf : Str) (bouquetId : UInt16) : UInt16 :=
  if bouquetId = 0x0001 then
    if (chars "CanalDigitaal").isPrefixOf (buf.drop 2) then CANALDIGITAAL
    else if (chars "NOVA").isPrefixOf (buf.drop 2) then NOVA
    else bouquetId
  else bouquetId

/-- The id of the bouquet and the specifier, behind a descriptor of the bouquet. -/
def bouquetNote (buf : Str) (d : Nat) (n : UInt16 × Nat) : UInt16 × Nat :=
  if buf.getD d 0 = 0x47 then
    if lengthAt buf (d + 1) = 0 then n else (reservedIdAt (buf.drop d) n.1, n.2)
  else if buf.getD d 0 = 0x5f then (n.1, specifierAt (buf.drop d) 2)
  else n

structure BouquetDescriptorFits (buf : Str) (bouquetId : UInt16) : Prop where
  name : buf.getD 0 0 = 0x47 → lengthAt buf 1 ≠ 0 → StringFits buf 2 (lengthAt buf 1)
  provider : buf.getD 0 0 = 0x47 → lengthAt buf 1 ≠ 0 → bouquetId = 0x0001 →
    CompareFits buf 2 (chars "NOVA") ∧ CompareFits buf 2 (chars "CanalDigitaal")
  specifier : buf.getD 0 0 = 0x5f → 6 ≤ buf.length

/-- The loop over the descriptors of the bouquet comes to a place, with an id and a specifier. -/
def BouquetAt (buf : Str) (x : Nat × (UInt16 × Nat)) : Prop :=
  Leads (Noting buf (bouquetNote buf)) (10 + loopLengthAt buf 8 - 1) (10, wordAt buf 3, 0) x

/-- The notes behind a descriptor of a transport stream. -/
def streamNote (bouquetId : UInt16) (buf : Str) (d : Nat) (n : Notes) : Notes :=
  if buf.getD d 0 = 0x5f then
    if specifierAt (buf.drop d) 2 = 0 then n else { n with specifier := specifierAt (buf.drop d) 2 }
  else if Orders bouquetId n.specifier (buf.getD d 0) then { n with privdesc := some (buf.drop d) }
  else n

/-- Of the `n` entries from `i` on, those up to the one of the service are in the buffer. -/
def EntriesFit (privdesc : Str) (serviceId : UInt16) (n i : Nat) : Prop :=
  ∀ k < n, (∀ j < k, serviceId ≠ wordAt privdesc (i + 4 * j)) →
    i + 4 * k + 2 ≤ privdesc.length ∧
      (serviceId = wordAt privdesc (i + 4 * k) → i + 4 * k + 4 ≤ privdesc.length)

def OrderFits (n : Notes) (serviceId : UInt16) : Prop :=
  ∀ privdesc, n.privdesc = some privdesc →
    1 < privdesc.length ∧ EntriesFit privdesc serviceId (lengthAt privdesc 1 / 4) 2

def ServiceListFits (buf : Str) (n : Notes) : Prop :=
  ∀ k, 2 + 3 * k < lengthAt buf 1 →
    5 + 3 * k ≤ buf.length ∧ OrderFits n (wordAt buf (2 + 3 * k))

/-- The two bytes in front of the entries, and the entries where these are all ones. -/
structure BskybFits (buf : Str) : Prop where
  unknown1 : 2 < buf.length
  unknown2 : buf.getD 2 0 = 0xff → 3 < buf.length
  entries : buf.getD 2 0 = 0xff → buf.getD 3 0 = 0xff →
    ∀ k, 4 + 9 * k < privdlen (lengthAt buf 1) - 4 → 11 + 9 * k ≤ buf.length

structure StreamDescriptorFits (second : Bool) (buf : Str) (n : Notes) : Prop where
  services : buf.getD 0 0 = 0x41 → second → n.specifier ≠ 0x00000002 → ServiceListFits buf n
  specifier : buf.getD 0 0 = 0x5f → 6 ≤ buf.length
  entries : buf.getD 0 0 = 0xb1 → second → n.specifier = 0x00000002 → BskybFits buf

/-- One time through the descriptors comes to a place, with notes. -/
def PassAt (bouquetId : UInt16) (buf : Str) (start length : Nat) (n : Notes) (x : Nat × Notes) :
    Prop :=
  Leads (Noting buf (streamNote bouquetId buf)) (start + length - 1) (start, n) x

def PassFits (bouquetId : UInt16) (second : Bool) (buf : Str) (start length : Nat) (n : Notes) :
    Prop :=
  ∀ x, PassAt bouquetId buf start length n x → x.1 < start + length - 1 →
    EntryFits buf (start + length) x.1 ∧ StreamDescriptorFits second (buf.drop x.1) x.2

/-- And its end. -/
def PassEnds (bouquetId : UInt16) (buf : Str) (start length : Nat) (n m : Notes) : Prop :=
  ∃ i, PassAt bouquetId buf start length n (i, m) ∧ start + length - 1 ≤ i

/-- The second time begins with the notes the first time has left. -/
structure StreamFits (bouquetId : UInt16) (buf : Str) (p specifier : Nat) : Prop where
  first : PassFits bouquetId false buf (p + 6) (loopLengthAt buf (p + 4)) ⟨specifier, none⟩
  second : ∀ m, PassEnds bouquetId buf (p + 6) (loopLengthAt buf (p + 4)) ⟨specifier, none⟩ m →
    PassFits bouquetId true buf (p + 6) (loopLengthAt buf (p + 4)) m

/-- From one transport stream to the next, with the specifier. -/
def NextStream (bouquetId : UInt16) (buf : Str) (a b : Nat × Nat) : Prop :=
  ∃ m n, PassEnds bouquetId buf (a.1 + 6) (loopLengthAt buf (a.1 + 4)) ⟨a.2, none⟩ m ∧
    PassEnds bouquetId buf (a.1 + 6) (loopLengthAt buf (a.1 + 4)) m n ∧
    b = (a.1 + 6 + loopLengthAt buf (a.1 + 4), n.specifier)

structure SectionFits (buf : Str) : Prop where
  bouquet : ∀ x, BouquetAt buf x → x.1 < 10 + loopLengthAt buf 8 - 1 →
    EntryFits buf (10 + loopLengthAt buf 8) x.1 ∧ BouquetDescriptorFits (buf.drop x.1) x.2.1
  descriptors : 12 + loopLengthAt buf 8 ≤ buf.length
  streams : ∀ x, BouquetAt buf x → 10 + loopLengthAt buf 8 - 1 ≤ x.1 → x.2.1 ≠ 0x0001 →
    ∀ y, Leads (NextStream x.2.1 buf) (buf.length - 5) (12 + loopLengthAt buf 8, x.2.2) y →
      y.1 < buf.length - 5 → StreamFits x.2.1 buf y.1 y.2

/-- What the lengths in a section must be like, descriptor by descriptor. What a descriptor needs
depends on the notes the ones in front of it have left. -/
def Fits (buf : Str) : Prop := 16 ≤ buf.length → SectionFits buf

/-! ## The descriptors of the bouquet -/

section
variable {buf : Str} {i : Nat}

theorem startsWith_isSome {text : Str} :
    (∃ r, startsWith buf i text = some r) ↔ CompareFits buf i text := by
  induction text generalizing i with
  | nil => exact iff_of_true ⟨_, rfl⟩ fun h => List.prefix_nil.mp h
  | cons c text ih =>
    unfold startsWith CompareFits
    rw [exists_read]
    rcases Nat.lt_or_ge i buf.length with hlt | hge
    · rw [and_iff_right hlt, drop_eq_cons hlt, List.cons_prefix_cons]
      split
      · rename_i heq
        rw [ih, CompareFits, heq]
        simp
      · rename_i hne
        exact iff_of_true ⟨_, rfl⟩ fun h => absurd h.1 hne
    · rw [List.drop_eq_nil_of_le hge]
      exact iff_of_false (fun h => absurd h.1 (Nat.not_lt.mpr hge))
        fun h => nomatch h List.nil_prefix

theorem startsWith_some {text : Str} {r : Bool} (h : startsWith buf i text = some r) :
    r = text.isPrefixOf (buf.drop i) := by
  induction text generalizing i with
  | nil => exact (Option.some_inj.mp h).symm
  | cons c text ih =>
    unfold startsWith at h
    obtain ⟨hlt, h⟩ := read_bind.mp h
    rw [drop_eq_cons hlt, List.isPrefixOf_cons_cons]
    split at h
    · rename_i heq
      rw [ih h, heq]
      simp
    · rename_i hne
      rw [← Option.some_inj.mp h, beq_false_of_ne (Ne.symm hne), Bool.false_and]

theorem privateDataSpecifier_isSome :
    (∃ n, privateDataSpecifier buf i = some n) ↔ i + 4 ≤ buf.length := by
  unfold privateDataSpecifier
  simp only [exists_read]
  exact ⟨fun h => h.2.2.2.1, fun h => ⟨by omega, by omega, by omega, h, _, rfl⟩⟩

theorem privateDataSpecifier_some {n : Nat} (h : privateDataSpecifier buf i = some n) :
    n = specifierAt buf i := by
  unfold privateDataSpecifier at h
  obtain ⟨-, h⟩ := read_bind.mp h
  obtain ⟨-, h⟩ := read_bind.mp h
  obtain ⟨-, h⟩ := read_bind.mp h
  obtain ⟨-, h⟩ := read_bind.mp h
  exact (Option.some_inj.mp h).symm

theorem reservedId_isSome {bouquetId : UInt16} :
    (∃ r, reservedId buf bouquetId = some r) ↔ (bouquetId = 0x0001 →
      CompareFits buf 2 (chars "NOVA") ∧ CompareFits buf 2 (chars "CanalDigitaal")) := by
  unfold reservedId
  split
  · rename_i h1
    rw [forall_prop_of_true h1,
      exists_bind_iff fun _ => exists_bind_pure, startsWith_isSome, startsWith_isSome]
  · rename_i h1
    exact iff_of_true ⟨_, rfl⟩ fun h => absurd h h1

theorem reservedId_some {bouquetId r : UInt16} (h : reservedId buf bouquetId = some r) :
    r = reservedIdAt buf bouquetId := by
  unfold reservedId at h
  unfold reservedIdAt
  split at h
  · rename_i h1
    obtain ⟨nova, hnova, h⟩ := Option.bind_eq_some_iff.mp h
    obtain ⟨digitaal, hdigitaal, h⟩ := Option.bind_eq_some_iff.mp h
    rw [if_pos h1, ← startsWith_some hnova, ← startsWith_some hdigitaal]
    exact (Option.some_inj.mp h).symm
  · rename_i h1
    rw [if_neg h1]
    exact (Option.some_inj.mp h).symm

theorem bouquetDescriptor_iff {len : Nat} {b : Bouquet} (h1 : 1 < buf.length) :
    (∃ b', bouquetDescriptor buf len b = some b') ↔ BouquetDescriptorFits buf b.bouquetId := by
  unfold bouquetDescriptor
  rw [exists_read, and_iff_right (by omega)]
  split
  · rename_i h47
    rw [exists_read, and_iff_right h1]
    have h5f : buf.getD 0 0 ≠ 0x5f := by
      rw [h47]
      decide
    split
    · rename_i hzero
      exact iff_of_true ⟨_, rfl⟩ ⟨fun _ h => absurd hzero h, fun _ h => absurd hzero h,
        fun h => absurd h h5f⟩
    · rename_i hpos
      rw [exists_bind_iff fun _ => exists_bind_pure, reservedId_isSome, dvbString_isSome hpos]
      exact ⟨fun ⟨hprovider, hname⟩ => ⟨fun _ _ => hname, fun _ _ => hprovider,
        fun h => absurd h h5f⟩, fun h => ⟨h.provider h47 hpos, h.name h47 hpos⟩⟩
  · rename_i h47
    split
    · rename_i h5f
      rw [exists_bind_pure, privateDataSpecifier_isSome]
      exact ⟨fun h => ⟨fun h' => absurd h' h47, fun h' => absurd h' h47, fun _ => h⟩,
        fun h => h.specifier h5f⟩
    · rename_i h5f
      exact iff_of_true ⟨_, rfl⟩
        ⟨fun h => absurd h h47, fun h => absurd h h47, fun h => absurd h h5f⟩

theorem bouquetDescriptor_note {d len : Nat} {b b' : Bouquet}
    (h : bouquetDescriptor (buf.drop d) len b = some b') :
    (b'.bouquetId, b'.specifier) = bouquetNote buf d (b.bouquetId, b.specifier) := by
  unfold bouquetDescriptor at h
  obtain ⟨-, h⟩ := read_bind.mp h
  unfold bouquetNote
  rw [getD_drop, Nat.add_zero] at h
  split at h
  · rename_i h47
    obtain ⟨-, h⟩ := read_bind.mp h
    rw [if_pos h47, lengthAt]
    rw [getD_drop] at h
    split at h
    · rename_i hzero
      rw [if_pos hzero, ← Option.some_inj.mp h]
    · rename_i hpos
      obtain ⟨r, hr, h⟩ := Option.bind_eq_some_iff.mp h
      obtain ⟨name, -, h⟩ := Option.bind_eq_some_iff.mp h
      rw [if_neg hpos, ← Option.some_inj.mp h, reservedId_some hr]
  · rename_i h47
    rw [if_neg h47]
    split at h
    · rename_i h5f
      obtain ⟨n, hn, h⟩ := Option.bind_eq_some_iff.mp h
      rw [if_pos h5f, ← Option.some_inj.mp h, privateDataSpecifier_some hn]
    · rename_i h5f
      rw [if_neg h5f, ← Option.some_inj.mp h]

/-! ## The entries of a descriptor -/

theorem orderPosition_isSome {privdesc : Str} {serviceId : UInt16} {n i : Nat} :
    (∃ x, orderPosition privdesc serviceId n i = some x) ↔ EntriesFit privdesc serviceId n i := by
  induction n generalizing i with
  | zero => exact iff_of_true ⟨_, rfl⟩ fun k hk => absurd hk (Nat.not_lt_zero k)
  | succ n ih =>
    unfold orderPosition
    rcases Nat.lt_or_ge (i + 1) privdesc.length with hlt | hge
    · rw [bind_of_some (word_some hlt)]
      split
      · rename_i heq
        rw [word_isSome]
        constructor
        · intro h k hk hearlier
          cases k with
          | zero => exact ⟨by omega, fun _ => by omega⟩
          | succ k => exact absurd heq (hearlier 0 (Nat.succ_pos k))
        · intro h
          have := (h 0 (Nat.succ_pos n) fun j hj => absurd hj (Nat.not_lt_zero j)).2 heq
          omega
      · rename_i hne
        rw [ih]
        constructor
        · intro h k hk hearlier
          cases k with
          | zero => exact ⟨by omega, fun heq => absurd heq hne⟩
          | succ k =>
            have hk' := h k (Nat.lt_of_succ_lt_succ hk) fun j hj => by
              have := hearlier (j + 1) (Nat.succ_lt_succ hj)
              rwa [show i + 4 * (j + 1) = i + 4 + 4 * j by omega] at this
            rwa [show i + 4 * (k + 1) = i + 4 + 4 * k by omega]
        · intro h k hk hearlier
          have hk' := h (k + 1) (Nat.succ_lt_succ hk) fun j hj => by
            cases j with
            | zero => exact hne
            | succ j =>
              rw [show i + 4 * (j + 1) = i + 4 + 4 * j by omega]
              exact hearlier j (Nat.lt_of_succ_lt_succ hj)
          rwa [show i + 4 * (k + 1) = i + 4 + 4 * k by omega] at hk'
    · refine iff_of_false ?_ fun h => ?_
      · rw [exists_bind]
        rintro ⟨w, hw, -⟩
        have := word_isSome.mp ⟨w, hw⟩
        omega
      · have := (h 0 (Nat.succ_pos n) fun j hj => absurd hj (Nat.not_lt_zero j)).1
        omega

theorem positionOf_isSome {t : Stream} {serviceId : UInt16} {s : State} :
    (∃ x, positionOf t serviceId s = some x) ↔ OrderFits s.notes serviceId := by
  unfold positionOf OrderFits
  split
  · rename_i hnone
    exact iff_of_true ⟨_, rfl⟩ fun privdesc h => nomatch hnone.symm.trans h
  · rename_i privdesc hsome
    rw [exists_read, orderPosition_isSome]
    constructor
    · intro h privdesc' h'
      obtain rfl := Option.some_inj.mp (hsome.symm.trans h')
      exact h
    · exact fun h => h privdesc hsome

theorem serviceStep_isSome {t : Stream} {s : State} :
    (∃ r, serviceStep t buf i s = some r) ↔
      i + 3 ≤ buf.length ∧ OrderFits s.notes (wordAt buf i) := by
  unfold serviceStep
  rcases Nat.lt_or_ge (i + 1) buf.length with hlt | hge
  · rw [bind_of_some (word_some hlt), exists_read,
      exists_bind_pure, positionOf_isSome]
    exact and_congr_left fun _ => by omega
  · refine iff_of_false ?_ (fun h => by omega)
    rw [exists_bind]
    rintro ⟨w, hw, -⟩
    have := word_isSome.mp ⟨w, hw⟩
    omega

theorem serviceStep_next {t : Stream} {s : State} {r : Nat × State}
    (h : serviceStep t buf i s = some r) : r.1 = i + 3 ∧ r.2.notes = s.notes := by
  unfold serviceStep at h
  obtain ⟨serviceId, -, h⟩ := Option.bind_eq_some_iff.mp h
  obtain ⟨-, h⟩ := read_bind.mp h
  obtain ⟨position, -, h⟩ := Option.bind_eq_some_iff.mp h
  rw [← Option.some_inj.mp h]
  exact ⟨rfl, rfl⟩

theorem serviceStep_moves (t : Stream) (buf : Str) (stop : Nat) : Moves (serviceStep t buf) stop :=
  fun i s r _ h => by
    rw [(serviceStep_next h).1]
    omega

theorem orderStep_isSome {t : Stream} {s : State} :
    (∃ r, orderStep t buf i s = some r) ↔ i + 7 ≤ buf.length := by
  unfold orderStep
  rw [exists_bind_iff (P := i + 7 ≤ buf.length) fun _ => ?_]
  · rw [word_isSome]
    omega
  · rw [exists_read, exists_bind_pure, word_isSome]
    omega

theorem orderStep_next {t : Stream} {s : State} {r : Nat × State}
    (h : orderStep t buf i s = some r) : r.1 = i + 9 ∧ r.2.notes = s.notes := by
  unfold orderStep at h
  obtain ⟨serviceId, -, h⟩ := Option.bind_eq_some_iff.mp h
  obtain ⟨-, h⟩ := read_bind.mp h
  obtain ⟨position, -, h⟩ := Option.bind_eq_some_iff.mp h
  rw [← Option.some_inj.mp h]
  exact ⟨rfl, rfl⟩

theorem orderStep_moves (t : Stream) (buf : Str) (stop : Nat) : Moves (orderStep t buf) stop :=
  fun i s r _ h => by
    rw [(orderStep_next h).1]
    omega

theorem serviceListDescriptor_iff {t : Stream} {s : State} (h1 : 1 < buf.length) :
    (∃ s', serviceListDescriptor t buf s = some s') ↔ ServiceListFits buf s.notes := by
  unfold serviceListDescriptor
  rw [exists_read, and_iff_right h1, exists_bind_pure,
    walk_ends_iff_of_view State.notes (fun i => i + 3)
      (fun i n => i + 3 ≤ buf.length ∧ OrderFits n (wordAt buf i)) (serviceStep_moves t buf _)
      (fun i s r _ h => serviceStep_next h) (fun i s _ => serviceStep_isSome)]
  constructor
  · intro h k hk
    obtain ⟨hlength, horder⟩ := h (2 + 3 * k) (starts_stride.mpr ⟨k, rfl, fun i hi => by
      change 2 + 3 * i < lengthAt buf 1
      omega⟩) hk
    exact ⟨by omega, horder⟩
  · intro h j hj hjs
    obtain ⟨k, rfl, -⟩ := starts_stride.mp hj
    obtain ⟨hlength, horder⟩ := h k hjs
    exact ⟨by omega, horder⟩

theorem bskybDescriptor_iff {t : Stream} {s : State} (h1 : 1 < buf.length) :
    (∃ s', bskybDescriptor t buf s = some s') ↔ BskybFits buf := by
  unfold bskybDescriptor
  rw [exists_read, and_iff_right h1, exists_read]
  split
  · rename_i hone
    rw [exists_read]
    split
    · rename_i htwo
      rw [exists_bind_pure,
        walk_ends_iff (fun i => i + 9) (fun i => i + 7 ≤ buf.length) (orderStep_moves t buf _)
          (fun i s r _ h => (orderStep_next h).1) (fun i s _ => orderStep_isSome)]
      constructor
      · rintro ⟨h2, h3, hall⟩
        refine ⟨h2, fun _ => h3, fun _ _ k hk => ?_⟩
        have := hall (4 + 9 * k) (starts_stride.mpr ⟨k, rfl, fun i hi => by
          change 4 + 9 * i < privdlen (lengthAt buf 1) - 4
          omega⟩) hk
        omega
      · intro h
        refine ⟨h.unknown1, h.unknown2 hone, fun j hj hjs => ?_⟩
        obtain ⟨k, rfl, -⟩ := starts_stride.mp hj
        have := h.entries hone htwo k hjs
        omega
    · rename_i htwo
      exact ⟨fun ⟨h2, h3, _⟩ => ⟨h2, fun _ => h3, fun _ h => absurd h htwo⟩,
        fun h => ⟨h.unknown1, h.unknown2 hone, _, rfl⟩⟩
  · rename_i hone
    exact ⟨fun ⟨h2, _⟩ => ⟨h2, fun h => absurd h hone, fun h => absurd h hone⟩,
      fun h => ⟨h.unknown1, _, rfl⟩⟩

/-! ## The descriptors of a transport stream -/

theorem streamDescriptor_iff {t : Stream} {second : Bool} {len : Nat} {s : State}
    (h1 : 1 < buf.length) :
    (∃ s', streamDescriptor t second buf len s = some s') ↔
      StreamDescriptorFits second buf s.notes := by
  unfold streamDescriptor
  rw [exists_read, and_iff_right (by omega)]
  split_ifs with h41 htaken h5f hb1 htaken horders
  · rw [serviceListDescriptor_iff h1]
    exact ⟨fun h => ⟨fun _ _ _ => h, other_tag h41 (by decide), other_tag h41 (by decide)⟩,
      fun h => h.services h41 htaken.1 htaken.2⟩
  · exact iff_of_true ⟨s, rfl⟩ ⟨fun _ h h' => absurd ⟨h, h'⟩ htaken, other_tag h41 (by decide),
      other_tag h41 (by decide)⟩
  · rw [exists_bind_pure, privateDataSpecifier_isSome]
    exact ⟨fun h => ⟨other_tag h5f (by decide), fun _ => h, other_tag h5f (by decide)⟩,
      fun h => h.specifier h5f⟩
  · rw [bskybDescriptor_iff h1]
    exact ⟨fun h => ⟨other_tag hb1 (by decide), other_tag hb1 (by decide), fun _ _ _ => h⟩,
      fun h => h.entries hb1 htaken.1 htaken.2⟩
  · exact iff_of_true ⟨s, rfl⟩ ⟨other_tag hb1 (by decide), other_tag hb1 (by decide),
      fun _ h h' => absurd ⟨h, h'⟩ htaken⟩
  · exact iff_of_true ⟨_, rfl⟩
      ⟨fun h => absurd h h41, fun h => absurd h h5f, fun h => absurd h hb1⟩
  · exact iff_of_true ⟨_, rfl⟩
      ⟨fun h => absurd h h41, fun h => absurd h h5f, fun h => absurd h hb1⟩

theorem serviceListDescriptor_notes {t : Stream} {s s' : State}
    (h : serviceListDescriptor t buf s = some s') : s'.notes = s.notes := by
  unfold serviceListDescriptor at h
  obtain ⟨-, h⟩ := read_bind.mp h
  obtain ⟨r, hr, h⟩ := Option.bind_eq_some_iff.mp h
  rw [← Option.some_inj.mp h]
  exact walk_keeps (P := fun s' => s'.notes = s.notes) (serviceStep_moves t buf _)
    (fun i s r hr hs => (serviceStep_next hr).2.trans hs) hr rfl

theorem bskybDescriptor_notes {t : Stream} {s s' : State}
    (h : bskybDescriptor t buf s = some s') : s'.notes = s.notes := by
  unfold bskybDescriptor at h
  obtain ⟨-, h⟩ := read_bind.mp h
  obtain ⟨-, h⟩ := read_bind.mp h
  split at h
  · obtain ⟨-, h⟩ := read_bind.mp h
    split at h
    · obtain ⟨r, hr, h⟩ := Option.bind_eq_some_iff.mp h
      rw [← Option.some_inj.mp h]
      exact walk_keeps (P := fun s' => s'.notes = s.notes) (orderStep_moves t buf _)
        (fun i s r hr hs => (orderStep_next hr).2.trans hs) hr rfl
    · rw [← Option.some_inj.mp h]
  · rw [← Option.some_inj.mp h]

theorem streamDescriptor_note {t : Stream} {second : Bool} {d len : Nat} {s s' : State}
    (h : streamDescriptor t second (buf.drop d) len s = some s') :
    s'.notes = streamNote t.bouquetId buf d s.notes := by
  unfold streamDescriptor at h
  obtain ⟨-, h⟩ := read_bind.mp h
  rw [getD_drop, Nat.add_zero] at h
  unfold streamNote
  -- a list of services orders none
  have hquiet {tag : Byte} (htag : buf.getD d 0 = tag) (hlist : tag = 0x41 ∨ tag = 0xb1) :
      ¬ Orders t.bouquetId s.notes.specifier (buf.getD d 0) := by
    rw [htag]
    rcases hlist with rfl | rfl <;> simp [Orders]
  split_ifs at h with h41 htaken h5f hb1 htaken horders
  · rw [if_neg (by rw [h41]; decide), if_neg (hquiet h41 (.inl rfl)), serviceListDescriptor_notes h]
  · rw [if_neg (by rw [h41]; decide), if_neg (hquiet h41 (.inl rfl)), ← Option.some_inj.mp h]
  · obtain ⟨n, hn, h⟩ := Option.bind_eq_some_iff.mp h
    rw [if_pos h5f, ← privateDataSpecifier_some hn, ← Option.some_inj.mp h]
    split <;> rfl
  · rw [if_neg h5f, if_neg (hquiet hb1 (.inr rfl)), bskybDescriptor_notes h]
  · rw [if_neg h5f, if_neg (hquiet hb1 (.inr rfl)), ← Option.some_inj.mp h]
  · rw [if_neg h5f, if_pos horders, ← Option.some_inj.mp h]
  · rw [if_neg h5f, if_neg horders, ← Option.some_inj.mp h]

/-! ## Transport streams -/

theorem pass_iff {t : Stream} {second : Bool} {start length : Nat} {s : State} :
    (∃ s', pass t second buf start length s = some s') ↔
      PassFits t.bouquetId second buf start length s.notes := by
  unfold pass
  rw [exists_bind_pure]
  exact unchecked_ends_iff State.notes (streamNote t.bouquetId buf)
    (fun x => StreamDescriptorFits second (buf.drop x.1) x.2)
    (fun d s s' h => streamDescriptor_note h)
    (fun d s _ hfit => streamDescriptor_iff (by
      have := hfit.1
      rw [List.length_drop]
      omega)) start s

theorem pass_ends {t : Stream} {second : Bool} {start length : Nat} {s s' : State}
    (h : pass t second buf start length s = some s') :
    PassEnds t.bouquetId buf start length s.notes s'.notes := by
  unfold pass at h
  obtain ⟨r, hr, h⟩ := Option.bind_eq_some_iff.mp h
  rw [← Option.some_inj.mp h]
  exact ⟨r.1, unchecked_leads State.notes (streamNote t.bouquetId buf)
    (fun d s s' h => streamDescriptor_note h) hr⟩

/-- A loop ends with one set of notes. -/
theorem passEnds_unique {bouquetId : UInt16} {start length : Nat} {n m m' : Notes}
    (h : PassEnds bouquetId buf start length n m) (h' : PassEnds bouquetId buf start length n m') :
    m = m' := by
  obtain ⟨i, hi, hend⟩ := h
  obtain ⟨j, hj, hend'⟩ := h'
  exact congrArg Prod.snd
    (leads_end_unique (functional_noting buf (streamNote bouquetId buf)) hi hj hend hend')

theorem functional_nextStream (bouquetId : UInt16) (buf : Str) :
    Functional (NextStream bouquetId buf) := by
  rintro a b c ⟨m, n, hm, hn, rfl⟩ ⟨m', n', hm', hn', rfl⟩
  obtain rfl := passEnds_unique hm hm'
  rw [passEnds_unique hn hn']

/-- The transport stream at `p`, with the section number of the header. -/
def streamAt (b : Bouquet) (buf : Str) (p : Nat) : Stream :=
  ⟨b.bouquetId, b.bouquetName, buf.getD 6 0, wordAt buf p, wordAt buf (p + 2)⟩

theorem streamStep_eq {b : Bouquet} {p : Nat} {s : State} (h16 : 16 ≤ buf.length)
    (hp : p < buf.length - 5) : streamStep b buf p s =
      ((pass (streamAt b buf p) false buf (p + 6) (loopLengthAt buf (p + 4))
        { s with notes.privdesc := none }).bind
          fun s => pass (streamAt b buf p) true buf (p + 6) (loopLengthAt buf (p + 4)) s).map
            fun s => (p + 6 + loopLengthAt buf (p + 4), s) := by
  have hnumber : Buffer.read buf 6 = some (buf.getD 6 0) := read_some (by omega)
  have htsid : word buf p = some (wordAt buf p) := word_some (by omega)
  have honid : word buf (p + 2) = some (wordAt buf (p + 2)) := word_some (by omega)
  have hloop : loopLength buf (p + 4) = some (loopLengthAt buf (p + 4)) := loopLength_some (by omega)
  unfold streamStep
  simp only [bind_of_some hnumber, bind_of_some htsid, bind_of_some honid, bind_of_some hloop]
  rw [Option.map_eq_bind, Option.bind_assoc]
  rfl

theorem streamStep_iff {b : Bouquet} {p : Nat} {s : State} (h16 : 16 ≤ buf.length)
    (hp : p < buf.length - 5) :
    (∃ r, streamStep b buf p s = some r) ↔ StreamFits b.bouquetId buf p s.notes.specifier := by
  rw [streamStep_eq h16 hp, ← Option.isSome_iff_exists, Option.isSome_map,
    Option.isSome_iff_exists]
  constructor
  · rintro ⟨s₂, h⟩
    obtain ⟨s₁, h₁, h₂⟩ := Option.bind_eq_some_iff.mp h
    refine ⟨pass_iff.mp ⟨s₁, h₁⟩, fun m hm => ?_⟩
    rw [passEnds_unique hm (pass_ends h₁)]
    exact pass_iff.mp ⟨s₂, h₂⟩
  · intro h
    obtain ⟨s₁, h₁⟩ : ∃ s₁, pass (streamAt b buf p) false buf (p + 6) (loopLengthAt buf (p + 4))
        { s with notes.privdesc := none } = some s₁ := pass_iff.mpr h.first
    obtain ⟨s₂, h₂⟩ : ∃ s₂, pass (streamAt b buf p) true buf (p + 6) (loopLengthAt buf (p + 4)) s₁ =
        some s₂ := pass_iff.mpr (h.second s₁.notes (pass_ends h₁))
    exact ⟨s₂, Option.bind_eq_some_iff.mpr ⟨s₁, h₁, h₂⟩⟩

theorem streamStep_next {b : Bouquet} {p : Nat} {s : State} {r : Nat × State}
    (h16 : 16 ≤ buf.length) (hp : p < buf.length - 5) (h : streamStep b buf p s = some r) :
    NextStream b.bouquetId buf (p, s.notes.specifier) (r.1, r.2.notes.specifier) := by
  rw [streamStep_eq h16 hp] at h
  obtain ⟨s₂, hpasses, rfl⟩ := Option.map_eq_some_iff.mp h
  obtain ⟨s₁, h₁, h₂⟩ := Option.bind_eq_some_iff.mp hpasses
  exact ⟨s₁.notes, s₂.notes, pass_ends h₁, pass_ends h₂, rfl⟩

theorem streamStep_moves (b : Bouquet) (h16 : 16 ≤ buf.length) :
    Moves (streamStep b buf) (buf.length - 5) :=
  fun p s r hp h => by
    obtain ⟨m, n, -, -, heq⟩ := streamStep_next h16 hp h
    have hr : r.1 = p + 6 + loopLengthAt buf (p + 4) := congrArg Prod.fst heq
    omega

/-! ## Sections -/

/-- The loop over the descriptors of the bouquet. -/
def bouquetWalk (buf : Str) : Option (Nat × Bouquet) :=
  walk (uncheckedStep bouquetDescriptor buf (10 + loopLengthAt buf 8))
    (10 + loopLengthAt buf 8 - 1) 10 ⟨wordAt buf 3, [], 0⟩

theorem bouquetWalk_iff : (∃ r, bouquetWalk buf = some r) ↔
    ∀ x, BouquetAt buf x → x.1 < 10 + loopLengthAt buf 8 - 1 →
      EntryFits buf (10 + loopLengthAt buf 8) x.1 ∧ BouquetDescriptorFits (buf.drop x.1) x.2.1 :=
  unchecked_ends_iff (fun b : Bouquet => (b.bouquetId, b.specifier)) (bouquetNote buf)
    (fun x => BouquetDescriptorFits (buf.drop x.1) x.2.1)
    (fun _ _ _ h => bouquetDescriptor_note h)
    (fun d b _ hfit => bouquetDescriptor_iff (by
      have := hfit.1
      rw [List.length_drop]
      omega)) 10 ⟨wordAt buf 3, [], 0⟩

theorem bouquetWalk_ends {r : Nat × Bouquet} (h : bouquetWalk buf = some r) :
    BouquetAt buf (r.1, r.2.bouquetId, r.2.specifier) ∧ 10 + loopLengthAt buf 8 - 1 ≤ r.1 :=
  unchecked_leads (fun b : Bouquet => (b.bouquetId, b.specifier)) (bouquetNote buf)
    (fun _ _ _ h => bouquetDescriptor_note h) h

/-- It ends with one id and one specifier. -/
theorem bouquetAt_unique {x y : Nat × (UInt16 × Nat)} (hx : BouquetAt buf x) (hy : BouquetAt buf y)
    (hxs : 10 + loopLengthAt buf 8 - 1 ≤ x.1) (hys : 10 + loopLengthAt buf 8 - 1 ≤ y.1) : x = y :=
  leads_end_unique (functional_noting buf (bouquetNote buf)) hx hy hxs hys

theorem streams_iff (b : Bouquet) (h16 : 16 ≤ buf.length) :
    (∃ r, walk (streamStep b buf) (buf.length - 5) (12 + loopLengthAt buf 8)
      ⟨⟨b.specifier, none⟩, 0, .empty⟩ = some r) ↔
      ∀ y, Leads (NextStream b.bouquetId buf) (buf.length - 5)
        (12 + loopLengthAt buf 8, b.specifier) y →
          y.1 < buf.length - 5 → StreamFits b.bouquetId buf y.1 y.2 :=
  walk_ends_iff_leads (fun s : State => s.notes.specifier)
    (fun y => StreamFits b.bouquetId buf y.1 y.2) (streamStep_moves b h16)
    (functional_nextStream b.bouquetId buf) (fun _ _ _ hp h => streamStep_next h16 hp h)
    (fun _ _ hp => streamStep_iff h16 hp) (12 + loopLengthAt buf 8)
    ⟨⟨b.specifier, none⟩, 0, .empty⟩

/-- The parser, with the header of the section read. -/
theorem parse_eq (h16 : 16 ≤ buf.length) : parse buf = (bouquetWalk buf).bind fun b =>
    (loopLength buf (10 + loopLengthAt buf 8)).bind fun _ =>
      if b.2.bouquetId = 0x0001 then some .empty
      else (walk (streamStep b.2 buf) (buf.length - 5) (12 + loopLengthAt buf 8)
        ⟨⟨b.2.specifier, none⟩, 0, .empty⟩).map fun r => r.2.bsv := by
  have hid : word buf 3 = some (wordAt buf 3) := word_some (by omega)
  have hlength : loopLength buf 8 = some (loopLengthAt buf 8) := loopLength_some (by omega)
  unfold parse
  rw [if_neg (Nat.not_lt.mpr h16), bind_of_some hid, bind_of_some hlength]
  simp only [Option.map_eq_bind]
  rfl

/-- The parser ends, stays inside the section and has a remaining length that does not wrap, if
and only if the descriptors of the section allow it. -/
theorem parse_ends_iff_fits (buf : Str) : (∃ bsv, parse buf = some bsv) ↔ Fits buf := by
  unfold Fits
  rcases Nat.lt_or_ge buf.length 16 with hshort | h16
  · unfold parse
    rw [if_pos hshort]
    exact iff_of_true ⟨_, rfl⟩ fun h => absurd h (Nat.not_le.mpr hshort)
  · rw [forall_prop_of_true h16, parse_eq h16]
    constructor
    · rintro ⟨bsv, h⟩
      obtain ⟨b, hb, h⟩ := Option.bind_eq_some_iff.mp h
      obtain ⟨n, hn, h⟩ := Option.bind_eq_some_iff.mp h
      have hlength := loopLength_isSome.mp ⟨n, hn⟩
      obtain ⟨hat, hend⟩ := bouquetWalk_ends hb
      refine ⟨bouquetWalk_iff.mp ⟨b, hb⟩, by omega, fun x hx hxs hid => ?_⟩
      obtain rfl := bouquetAt_unique hx hat hxs hend
      rw [if_neg hid] at h
      obtain ⟨r, hr, -⟩ := Option.map_eq_some_iff.mp h
      exact (streams_iff b.2 h16).mp ⟨r, hr⟩
    · intro h
      have hdescriptors := h.descriptors
      obtain ⟨b, hb⟩ := bouquetWalk_iff.mpr h.bouquet
      obtain ⟨n, hn⟩ : ∃ n, loopLength buf (10 + loopLengthAt buf 8) = some n :=
        loopLength_isSome.mpr (by omega)
      obtain ⟨hat, hend⟩ := bouquetWalk_ends hb
      rw [hb, hn, Option.bind_some, Option.bind_some]
      split
      · exact ⟨_, rfl⟩
      · rename_i hid
        obtain ⟨r, hr⟩ := (streams_iff b.2 h16).mpr (h.streams _ hat hend hid)
        exact ⟨r.2.bsv, by rw [hr, Option.map_some]⟩

end

end SIsectionBAT

/-- Every parser ends without a read outside the section and without a remaining length below
zero exactly on the sections that fit it. -/
theorem sections_end_iff (buf : Str) :
    ((∃ bsv, SIsectionBAT.parse buf = some bsv) ↔ SIsectionBAT.Fits buf) ∧
    ((∃ ntw, SIsectionNIT.parse buf = some ntw) ↔ SIsectionNIT.Fits buf) ∧
    ((∃ svs, SIsectionSDT.parse buf = some svs) ↔ SIsectionSDT.Fits buf) :=
  ⟨SIsectionBAT.parse_ends_iff_fits buf, SIsectionNIT.parse_ends_iff_fits buf,
    SIsectionSDT.parse_ends_iff_fits buf⟩

/-- A network section: two bytes of descriptors, and a descriptor that says it has seven. -/
def longDescriptor : Str :=
  [0x40, 0xF0, 21, 0, 1, 0xC1, 0, 0, 0xF0, 0, 0xF0, 8,
    0, 1, 0, 1, 0xF0, 2, 0x40, 5, 0, 0, 0, 0]

theorem remaining_length_wraps : ¬ ∀ buf, (∃ bsv, SIsectionBAT.parse buf = some bsv) ∧
    (∃ ntw, SIsectionNIT.parse buf = some ntw) ∧ ∃ svs, SIsectionSDT.parse buf = some svs := by
  intro h
  obtain ⟨-, ⟨ntw, hntw⟩, -⟩ := h longDescriptor
  have hnone : (SIsectionNIT.parse longDescriptor).isNone := by decide
  rw [hntw] at hnone
  cases hnone

end Tuxbox.Sectionsd
