import Tuxbox.Lib.Walk

/-!
# Writing into a buffer

A buffer keeps its length. A byte that is written outside of it has no result.
-/

namespace Tuxbox.Buffer

def write (buf : Str) (i : Nat) (b : Byte) : Option Str :=
  if i < buf.length then some (buf.set i b) else none

/-- The bits of the mask become those of `b`. -/
def writeBits (buf : Str) (i : Nat) (mask b : Byte) : Option Str := do
  let old ← read buf i
  write buf i (old &&& ~~~mask ||| b &&& mask)

def writeAll (buf : Str) (i : Nat) : Str → Option Str
  | [] => some buf
  | b :: bs => do
    let buf ← write buf i b
    writeAll buf (i + 1) bs

section
variable {buf buf' front rest bs : Str} {i lo hi : Nat} {b c mask : Byte}

theorem write_getD (h : write buf i b = some buf') (j : Nat) :
    buf'.getD j 0 = if j = i then b else buf.getD j 0 := by
  unfold write at h
  split at h
  · rename_i hi
    rw [← Option.some_inj.mp h, List.getD, List.getElem?_set]
    by_cases hj : j = i
    · rw [if_pos hj, if_pos hj.symm, if_pos (hj.symm ▸ hi), Option.getD_some]
    · rw [if_neg hj, if_neg (Ne.symm hj), List.getD]
  · cases h

/-- Only the bits of the mask count. -/
theorem masked_and (old b mask : Byte) :
    (old &&& ~~~mask ||| b &&& mask) &&& mask = b &&& mask := by
  apply UInt8.eq_of_toBitVec_eq
  ext k hk
  simp only [UInt8.toBitVec_and, UInt8.toBitVec_or, UInt8.toBitVec_not, BitVec.getElem_and,
    BitVec.getElem_or, BitVec.getElem_not]
  cases old.toBitVec[k] <;> cases b.toBitVec[k] <;> cases mask.toBitVec[k] <;> rfl

/-! ## Behind a known front -/

/-- What is written where the front of the buffer is known. -/
theorem write_at (hi : i = front.length) :
    write (front ++ c :: rest) i b = some (front ++ b :: rest) := by
  unfold write
  rw [hi, if_pos (by simp), List.set_append_right _ _ (Nat.le_refl _), Nat.sub_self,
    List.set_cons_zero]

theorem writeAll_at (hi : i = front.length) (hfit : bs.length ≤ rest.length) :
    writeAll (front ++ rest) i bs = some (front ++ bs ++ rest.drop bs.length) := by
  induction bs generalizing front rest i with
  | nil => simp [writeAll]
  | cons b bs ih =>
    cases rest with
    | nil => exact absurd hfit (by simp)
    | cons c rest =>
      have hnext : i + 1 = (front ++ [b]).length := by simp [hi]
      have hbs : bs.length ≤ rest.length := Nat.le_of_succ_le_succ hfit
      have hfront : front ++ b :: rest = (front ++ [b]) ++ rest := by simp
      rw [writeAll, write_at hi, Option.bind_eq_bind, Option.bind_some, hfront, ih hnext hbs]
      simp

theorem writeAll_append (buf : Str) (i : Nat) (xs ys : Str) :
    writeAll buf i (xs ++ ys) =
      (writeAll buf i xs).bind fun buf => writeAll buf (i + xs.length) ys := by
  induction xs generalizing buf i with
  | nil => rfl
  | cons x xs ih =>
    rw [List.cons_append, writeAll, writeAll]
    cases write buf i x with
    | none => rfl
    | some mid =>
      rw [Option.bind_eq_bind, Option.bind_some, ih, List.length_cons, Nat.add_assoc,
        Nat.add_comm 1]
      rfl

/-! ## Writes between two places -/

/-- What is written is between `lo` and `hi`, and there is a result if the buffer reaches `hi`. -/
structure Region (lo hi : Nat) (f : Str → Option Str) : Prop where
  keeps : ∀ {buf buf'}, f buf = some buf' →
    buf'.length = buf.length ∧ buf'.take lo = buf.take lo ∧ buf'.drop hi = buf.drop hi
  defined : ∀ {buf}, hi ≤ buf.length → ∃ buf', f buf = some buf'

theorem region_write (b : Byte) (hlo : lo ≤ i) (hhi : i < hi) :
    Region lo hi fun buf => write buf i b where
  keeps := by
    intro buf buf' h
    unfold write at h
    split at h
    · rw [← Option.some_inj.mp h]
      exact ⟨List.length_set, List.take_set_of_le hlo, List.drop_set_of_lt hhi⟩
    · cases h
  defined := by
    intro buf hbuf
    exact ⟨buf.set i b, if_pos (Nat.lt_of_lt_of_le hhi hbuf)⟩

namespace Region
variable {f g : Str → Option Str}

theorem pure : Region lo hi some where
  keeps := by
    intro buf buf' h
    rw [Option.some_inj.mp h]
    exact ⟨rfl, rfl, rfl⟩
  defined := fun {buf} _ => ⟨buf, rfl⟩

theorem bind (hf : Region lo hi f) (hg : Region lo hi g) :
    Region lo hi fun buf => f buf >>= g where
  keeps := by
    intro buf buf' h
    obtain ⟨mid, hmid, hend⟩ := Option.bind_eq_some_iff.mp h
    obtain ⟨hlen, hfront, hbehind⟩ := hf.keeps hmid
    obtain ⟨hlen', hfront', hbehind'⟩ := hg.keeps hend
    exact ⟨hlen'.trans hlen, hfront'.trans hfront, hbehind'.trans hbehind⟩
  defined := by
    intro buf hbuf
    obtain ⟨mid, hmid⟩ := hf.defined hbuf
    have hlen := (hf.keeps hmid).1
    obtain ⟨buf', hend⟩ := hg.defined (hbuf.trans_eq hlen.symm)
    exact ⟨buf', Option.bind_eq_some_iff.mpr ⟨mid, hmid, hend⟩⟩

theorem foldlM {α : Type} {step : Str → α → Option Str} {xs : List α}
    (h : ∀ x ∈ xs, Region lo hi fun buf => step buf x) :
    Region lo hi fun buf => xs.foldlM step buf := by
  induction xs with
  | nil => exact pure
  | cons x xs ih =>
    apply bind (h x List.mem_cons_self)
    exact ih fun y hy => h y (List.mem_cons_of_mem x hy)

end Region

theorem region_writeBits (mask b : Byte) (hlo : lo ≤ i) (hhi : i < hi) :
    Region lo hi fun buf => writeBits buf i mask b where
  keeps := by
    intro buf buf' h
    obtain ⟨old, -, hwrite⟩ := Option.bind_eq_some_iff.mp h
    exact (region_write _ hlo hhi).keeps hwrite
  defined := by
    intro buf hbuf
    obtain ⟨buf', hwrite⟩ := (region_write _ hlo hhi).defined hbuf
    exact ⟨buf', Option.bind_eq_some_iff.mpr ⟨_, read_some (Nat.lt_of_lt_of_le hhi hbuf), hwrite⟩⟩

theorem writeAll_keeps (h : writeAll buf i bs = some buf') (hbs : bs ≠ []) :
    buf'.length = buf.length ∧ i + bs.length ≤ buf.length := by
  induction bs generalizing buf i with
  | nil => exact absurd rfl hbs
  | cons b bs ih =>
    obtain ⟨mid, hmid, hrest⟩ := Option.bind_eq_some_iff.mp h
    have hlen := ((region_write b (Nat.le_refl i) (Nat.lt_succ_self i)).keeps hmid).1
    have hi : i < buf.length := by
      by_contra hout
      rw [write, if_neg hout] at hmid
      cases hmid
    cases bs with
    | nil =>
      rw [← Option.some_inj.mp hrest]
      exact ⟨hlen, hi⟩
    | cons b' bs =>
      obtain ⟨hlen', hfit⟩ := ih hrest (by simp)
      rw [List.length_cons]
      constructor <;> omega

end

end Tuxbox.Buffer
