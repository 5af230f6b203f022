import Tuxbox.Sectionsd.Eit

/-! The network information sections of sectionsd. The loop over the descriptors of a
transponder does not look whether a descriptor is longer than what is left. Main
result: `parse_ends_iff_fits`. -/
namespace Tuxbox.Sectionsd

open Buffer
open Parse (Starts)

/-- The delivery descriptor is not set as long as none was copied. -/
structure SInetwork where
  networkId : UInt16
  originalNetworkId : UInt16
  transportStreamId : UInt16
  deliveryType : UInt16
  deliveryDescriptor : Option Str

def SInetwork.uniqueKey (s : SInetwork) : Nat :=
  s.originalNetworkId.toNat <<< 16 ||| s.transportStreamId.toNat

namespace SIsectionNIT

/-- A satellite and a cable descriptor have eleven bytes. -/
def copyDeliveryDescriptor (buf : Str) (s : SInetwork) : Option SInetwork := do
  let copy ← string buf 2 11
  pure { s with deliveryDescriptor := some copy }

def parseDescriptor (desc : Str) (_len : Nat) (s : SInetwork) : Option SInetwork := do
  let tag ← read desc 0
  if tag = 0x43 ∨ tag = 0x44 then
    copyDeliveryDescriptor desc { s with deliveryType := tag.toUInt16 }
  else pure s

def parseDescriptors (tp : Str) (total : Nat) (s : SInetwork) : Option SInetwork := do
  let r ← walk (uncheckedStep parseDescriptor tp total) (total - 1) 6 s
  pure r.2

def transponderStep (buffer : Str) (actPos : Nat) (ntw : OrdMap Nat SInetwork) :
    Option (Nat × OrdMap Nat SInetwork) := do
  let tp := buffer.drop actPos
  let networkId ← word buffer 3
  let transportStreamId ← word tp 0
  let originalNetworkId ← word tp 2
  let length ← loopLength tp 4
  let s ← parseDescriptors tp (min (buffer.length - actPos) (6 + length))
    ⟨networkId, originalNetworkId, transportStreamId, 0, none⟩
  pure (actPos + (6 + length), ntw.insertNew s.uniqueKey s)

/-- The descriptors of the network are skipped. The length behind them is read, and not used. -/
def parse (buffer : Str) : Option (OrdMap Nat SInetwork) :=
  if buffer.length < 16 then some .empty
  else do
    let networkDescriptorsLength ← loopLength buffer 8
    let _descriptorsLoopLength ← loopLength buffer (10 + networkDescriptorsLength)
    let r ← walk (transponderStep buffer) (buffer.length - 5) (12 + networkDescriptorsLength) .empty
    pure r.2

/-! ## Sections that fit -/

structure DescriptorFits (buf : Str) : Prop where
  delivery : buf.getD 0 0 = 0x43 ∨ buf.getD 0 0 = 0x44 → 13 ≤ buf.length

def transponderLength (buf : Str) (p : Nat) : Nat := 6 + loopLengthAt buf (p + 4)

def nextTransponder (buf : Str) (p : Nat) : Nat := p + transponderLength buf p

/-- The bytes of a transponder that are in the section. -/
def transponderTotal (buf : Str) (p : Nat) : Nat := min (buf.length - p) (transponderLength buf p)

def TransponderFits (buf : Str) (p : Nat) : Prop :=
  ∀ d, Starts (nextEntry (buf.drop p)) (transponderTotal buf p - 1) 6 d →
    d < transponderTotal buf p - 1 →
      EntryFits (buf.drop p) (transponderTotal buf p) d ∧ DescriptorFits ((buf.drop p).drop d)

structure NetworkFits (buf : Str) : Prop where
  descriptors : 12 + loopLengthAt buf 8 ≤ buf.length
  transponders : ∀ p, Starts (nextTransponder buf) (buf.length - 5) (12 + loopLengthAt buf 8) p →
    p < buf.length - 5 → TransponderFits buf p

def Fits (buf : Str) : Prop := 16 ≤ buf.length → NetworkFits buf

/-! ## Transponders -/

section
variable {buf : Str}

theorem parseDescriptor_iff {len : Nat} {s : SInetwork} (h0 : 0 < buf.length) :
    (∃ s', parseDescriptor buf len s = some s') ↔ DescriptorFits buf := by
  unfold parseDescriptor
  rw [exists_read, and_iff_right h0]
  split
  · rename_i htag
    unfold copyDeliveryDescriptor
    rw [exists_bind_pure, string_isSome]
    constructor
    · intro h
      exact ⟨fun _ => by omega⟩
    · intro h
      have := h.delivery htag
      omega
  · rename_i htag
    exact iff_of_true ⟨s, rfl⟩ ⟨fun h => absurd h htag⟩

theorem parseDescriptors_iff {total : Nat} {s : SInetwork} (htotal : total ≤ buf.length) :
    (∃ s', parseDescriptors buf total s = some s') ↔
      ∀ d, Starts (nextEntry buf) (total - 1) 6 d → d < total - 1 →
        EntryFits buf total d ∧ DescriptorFits (buf.drop d) := by
  unfold parseDescriptors
  rw [exists_bind_pure]
  refine walk_ends_iff (nextEntry buf) (fun d => EntryFits buf total d ∧ DescriptorFits (buf.drop d))
    (uncheckedStep_moves parseDescriptor buf total (total - 1))
    (fun d s r _ h => (uncheckedStep_eq h).1) (fun d s hd => ?_) 6 s
  rw [uncheckedStep_isSome, parseDescriptor_iff (by rw [List.length_drop]; omega), and_comm]

/-- What one round does, with the header of the transponder read. -/
theorem transponderStep_eq {p : Nat} (h16 : 16 ≤ buf.length) (hp : p < buf.length - 5)
    (ntw : OrdMap Nat SInetwork) :
    ∃ s : SInetwork, transponderStep buf p ntw =
      (parseDescriptors (buf.drop p) (transponderTotal buf p) s).map fun s =>
        (nextTransponder buf p, ntw.insertNew s.uniqueKey s) := by
  have hlen : (buf.drop p).length = buf.length - p := List.length_drop
  have hnid : word buf 3 = some (wordAt buf 3) := word_some (by omega)
  have htsid : word (buf.drop p) 0 = some (wordAt (buf.drop p) 0) := word_some (by omega)
  have honid : word (buf.drop p) 2 = some (wordAt (buf.drop p) 2) := word_some (by omega)
  have hloop : loopLength (buf.drop p) 4 = some (loopLengthAt buf (p + 4)) := by
    rw [loopLength_some (by omega), loopLengthAt_drop]
  refine ⟨⟨wordAt buf 3, wordAt (buf.drop p) 2, wordAt (buf.drop p) 0, 0, none⟩, ?_⟩
  unfold transponderStep
  simp only [bind_of_some hnid, bind_of_some htsid, bind_of_some honid, bind_of_some hloop]
  rw [Option.map_eq_bind]
  rfl

theorem transponderStep_iff {p : Nat} (h16 : 16 ≤ buf.length) (hp : p < buf.length - 5)
    (ntw : OrdMap Nat SInetwork) :
    (∃ r, transponderStep buf p ntw = some r) ↔ TransponderFits buf p := by
  obtain ⟨s, heq⟩ := transponderStep_eq h16 hp ntw
  have htotal : transponderTotal buf p ≤ (buf.drop p).length := by
    rw [List.length_drop]
    exact Nat.min_le_left _ _
  rw [heq, ← Option.isSome_iff_exists, Option.isSome_map, Option.isSome_iff_exists,
    parseDescriptors_iff htotal]
  rfl

theorem transponderStep_next {p : Nat} {ntw : OrdMap Nat SInetwork} {r : Nat × OrdMap Nat SInetwork}
    (h16 : 16 ≤ buf.length) (hp : p < buf.length - 5) (h : transponderStep buf p ntw = some r) :
    r.1 = nextTransponder buf p := by
  obtain ⟨s, heq⟩ := transponderStep_eq h16 hp ntw
  obtain ⟨s', -, rfl⟩ := Option.map_eq_some_iff.mp (heq ▸ h)
  rfl

theorem transponderStep_moves (h16 : 16 ≤ buf.length) :
    Moves (transponderStep buf) (buf.length - 5) :=
  fun p ntw r hp h => by
    rw [transponderStep_next h16 hp h]
    unfold nextTransponder transponderLength
    omega

/-- The parser ends, stays inside the section and has a remaining length that does not wrap, if
and only if the lengths of the section allow it. -/
theorem parse_ends_iff_fits (buf : Str) : (∃ ntw, parse buf = some ntw) ↔ Fits buf := by
  unfold parse Fits
  split
  · rename_i hshort
    exact iff_of_true ⟨_, rfl⟩ fun h => absurd h (Nat.not_le.mpr hshort)
  · rename_i hlong
    have h16 : 16 ≤ buf.length := Nat.not_lt.mp hlong
    have hloop : loopLength buf 8 = some (loopLengthAt buf 8) := loopLength_some (by omega)
    rw [forall_prop_of_true h16, bind_of_some hloop,
      exists_bind_iff fun _ => exists_bind_pure, loopLength_isSome,
      walk_ends_iff (nextTransponder buf) (TransponderFits buf) (transponderStep_moves h16)
        (fun p ntw r hp h => transponderStep_next h16 hp h)
        (fun p ntw hp => transponderStep_iff h16 hp ntw)]
    constructor
    · rintro ⟨hlength, hall⟩
      exact ⟨by omega, hall⟩
    · intro h
      have := h.descriptors
      exact ⟨by omega, h.transponders⟩

end

end SIsectionNIT

end Tuxbox.Sectionsd
