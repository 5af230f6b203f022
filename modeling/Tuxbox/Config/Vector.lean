import Tuxbox.Config.File

/-! The vector getters. Their loop counts in `uint16_t`: on a text of fewer than
65536 bytes it splits the text at the delimiters, on a longer one it never
ends. -/
namespace Tuxbox.Config

/-- The element the loop is in the middle of. -/
def VecLoop.piece (l : VecLoop) (val : Str) : Str := (val.drop l.pos).take l.length

/-- The current element ends where the loop stands. -/
def VecLoop.Inside (l : VecLoop) (val : Str) : Prop :=
  l.pos + l.length = l.i ∧ l.i ≤ val.length

theorem VecLoop.piece_length {l : VecLoop} {val : Str} (h : l.Inside val) :
    (l.piece val).length = l.length := by
  obtain ⟨hp, hi⟩ := h
  simp only [piece, List.length_take, List.length_drop]
  omega

/-- From any state inside a short text the loop ends, having split the rest. -/
theorem vecLoop_short (delim : Byte) {val : Str} (hlen : val.length < 65536) (fuel : Nat)
    (l : VecLoop) (hl : l.Inside val) (hf : val.length - l.i ≤ fuel) :
    ∃ l', vecLoop delim val fuel l = some l' ∧ l'.Inside val ∧
      l'.vec ++ [l'.piece val] =
        l.vec ++ List.splitOnPPrepend (· == delim) (val.drop l.i) (l.piece val).reverse := by
  induction fuel generalizing l with
  | zero =>
    have hi : ¬ l.i < val.length := by omega
    refine ⟨l, by simp [vecLoop, hi], hl, ?_⟩
    simp [List.drop_eq_nil_of_le (Nat.le_of_not_lt hi)]
  | succ fuel ih =>
    by_cases hi : l.i < val.length
    · have hdrop : val.drop l.i = val[l.i] :: val.drop (l.i + 1) := List.drop_eq_getElem_cons hi
      have hmod : (l.i + 1) % 65536 = l.i + 1 := Nat.mod_eq_of_lt (by omega)
      have hl' := hl
      obtain ⟨hp, _⟩ := hl'
      simp only [vecLoop, hi, if_true, hdrop]
      by_cases hc : val[l.i] = delim
      · have hnext : l.next delim val = ⟨l.i + 1, l.i + 1, 0, l.vec ++ [l.piece val]⟩ := by
          simp [VecLoop.next, VecLoop.piece, hi, hc, hmod]
        obtain ⟨l', hrun, hin, heq⟩ := ih (l.next delim val)
          (by rw [hnext]; exact ⟨rfl, hi⟩) (by rw [hnext]; simp only; omega)
        refine ⟨l', hrun, hin, ?_⟩
        rw [heq, hnext, List.splitOnPPrepend_cons_pos (by simpa using hc)]
        simp [VecLoop.piece]
      · have hlen' : (l.length + 1) % 65536 = l.length + 1 := Nat.mod_eq_of_lt (by omega)
        have hnext : l.next delim val = ⟨l.i + 1, l.pos, l.length + 1, l.vec⟩ := by
          simp [VecLoop.next, hi, hc, hmod, hlen']
        obtain ⟨l', hrun, hin, heq⟩ := ih (l.next delim val)
          (by rw [hnext]; exact ⟨by simp only; omega, hi⟩) (by rw [hnext]; simp only; omega)
        have hpiece : (l.next delim val).piece val = l.piece val ++ [val[l.i]] := by
          have hget : (val.drop l.pos)[l.length]? = some val[l.i] := by
            rw [List.getElem?_drop, hp, List.getElem?_eq_getElem hi]
          simp only [hnext, VecLoop.piece, List.take_add_one, hget, Option.toList_some]
        refine ⟨l', hrun, hin, ?_⟩
        rw [heq, hpiece, List.splitOnPPrepend_cons_neg (by simpa using hc)]
        simp [hnext]
    · refine ⟨l, by simp [vecLoop, hi], hl, ?_⟩
      simp [List.drop_eq_nil_of_le (Nat.le_of_not_lt hi)]

/-- On a long text the loop ends for no number of rounds. -/
theorem vecLoop_long {delim : Byte} {val : Str} (hlen : 65536 ≤ val.length) (fuel : Nat)
    (l : VecLoop) (hl : l.i < 65536) : vecLoop delim val fuel l = none := by
  induction fuel generalizing l with
  | zero => simp [vecLoop, show l.i < val.length by omega]
  | succ fuel ih =>
    simp only [vecLoop, show l.i < val.length by omega, if_true]
    apply ih
    unfold VecLoop.next
    split <;> exact Nat.mod_lt _ (by omega)

/-- The elements of a text: its pieces, a last empty one left out. -/
def elements (delim : Byte) (val : Str) : List Str :=
  let ps := val.splitOn delim
  if ps.getLast? = some [] then ps.dropLast else ps

theorem getVector_short (c : CConfigFile) (key : Str) (hlen : (c.text key).length < 65536) :
    ∃ flag, c.getVector key = some (elements c.delimiter (c.text key),
      { c with configData := c.configData.insertNew key [], unknownKeyQueryedFlag := flag }) ∧
      (flag = false → c.unknownKeyQueryedFlag = false ∧ c.configData.contains key = true) := by
  obtain ⟨l, hrun, hin, heq⟩ := vecLoop_short c.delimiter hlen 65536 ⟨0, 0, 0, []⟩
    ⟨rfl, by simp⟩ (by simp only; omega)
  have hsplit : l.vec ++ [l.piece (c.text key)] = (c.text key).splitOn c.delimiter := by
    simpa [VecLoop.piece, List.splitOn_eq_splitOnP] using heq
  have hplen := VecLoop.piece_length hin
  simp only [CConfigFile.getVector, hrun, elements, ← hsplit, List.getLast?_append,
    List.getLast?_singleton,
    Option.some_or, Option.some.injEq, List.dropLast_concat]
  by_cases h0 : l.length = 0
  · have hnil : l.piece (c.text key) = [] := List.eq_nil_of_length_eq_zero (hplen.trans h0)
    exact ⟨true, by simp [h0, hnil], by simp⟩
  · have hne : l.piece (c.text key) ≠ [] := fun h => h0 (by rw [← hplen, h]; rfl)
    refine ⟨c.unknownKeyQueryedFlag, ?_, fun hflag => ⟨hflag, ?_⟩⟩
    · simp only [h0, hne, if_false]
      rfl
    · -- a missing key reads as the empty text, which has no element
      by_contra hc
      have hnone : c.configData.find key = none := by
        simpa [OrdMap.contains] using hc
      have hempty : c.text key = [] := by simp [CConfigFile.text, hnone]
      exact hne (by simp [VecLoop.piece, hempty])

theorem getVector_long (c : CConfigFile) (key : Str) (hlen : 65536 ≤ (c.text key).length) :
    c.getVector key = none := by
  simp [CConfigFile.getVector, vecLoop_long hlen 65536 ⟨0, 0, 0, []⟩ (by simp)]

theorem not_mem_of_mem_splitOn {delim : Byte} {val p : Str} (h : p ∈ val.splitOn delim) :
    delim ∉ p := by
  induction val generalizing p with
  | nil => simp only [List.splitOn_nil, List.mem_singleton] at h; simp [h]
  | cons c val ih =>
    rw [List.splitOn_cons_eq_if_modifyHead] at h
    split at h
    · rcases List.mem_cons.mp h with rfl | h
      · simp
      · exact ih h
    · rename_i hc
      cases hv : val.splitOn delim with
      | nil => exact absurd hv (List.splitOn_ne_nil _ _)
      | cons q qs =>
        rw [hv, List.modifyHead_cons] at h
        rcases List.mem_cons.mp h with rfl | h
        · have hq := ih (hv ▸ List.mem_cons_self)
          simp only [List.mem_cons, not_or]
          exact ⟨fun he => hc (by simp [he]), hq⟩
        · exact ih (hv ▸ List.mem_cons_of_mem q h)

theorem not_mem_of_mem_elements {delim : Byte} {val p : Str} (h : p ∈ elements delim val) :
    delim ∉ p := by
  unfold elements at h
  simp only at h
  split at h
  · exact not_mem_of_mem_splitOn (List.dropLast_subset _ h)
  · exact not_mem_of_mem_splitOn h

/-- A joined vector reads back if and only if no element has the delimiter in
it and the last one is not empty. -/
theorem elements_joinVec (delim : Byte) (vec : List Str) :
    elements delim (joinVec delim vec) = vec ↔
      (∀ p ∈ vec, delim ∉ p) ∧ vec.getLast? ≠ some [] := by
  have split (hv : vec ≠ []) (hfree : ∀ p ∈ vec, delim ∉ p) :
      (joinVec delim vec).splitOn delim = vec := List.splitOn_intercalate delim hfree hv
  constructor
  · intro h
    have hfree : ∀ p ∈ vec, delim ∉ p := fun p hp => not_mem_of_mem_elements (h ▸ hp)
    refine ⟨hfree, fun hlast => ?_⟩
    have hv : vec ≠ [] := by rintro rfl; simp at hlast
    rw [elements, split hv hfree] at h
    simp only [hlast, if_true] at h
    have hlen := congrArg List.length h
    have hpos := List.length_pos_of_ne_nil hv
    simp only [List.length_dropLast] at hlen
    omega
  · rintro ⟨hfree, hlast⟩
    by_cases hv : vec = []
    · subst hv; rfl
    · rw [elements, split hv hfree]
      simp only [hlast, if_false]

end Tuxbox.Config
