import Tuxbox.Libnet.Interfaces

/-!
# Editing one interface

What `writeInterface` does to a file whose options all stand in a stanza. Each
result follows the lines with the writer's flag `removing` and the reader's flag
`inside` side by side.
-/

namespace Tuxbox.Libnet

/-! ## The lines the writer puts in -/

section
variable {name : Str} {c : Interface}

theorem lineOf_joined {w : Str} {ws : List Str} (hw : IsWord w) (hws : ∀ x ∈ ws, IsWord x) :
    lineOf (joined w ws) = line (w :: ws) := by
  have h0 : (0 : Byte) ∉ joined w ws := notMem_joined hw hws (fun x hx => hx.noEnd) (by decide)
  rw [lineOf, cString_eq_self h0, words_joined hw hws]

theorem lineOf_autoLine (hn : IsWord name) : lineOf (autoLine name) = .auto [name] := by
  rw [autoLine, lineOf_joined (by decide) (by simpa using hn)]
  rfl

theorem lineOf_ifaceLine (hn : IsWord name) (hc : c.Writable) :
    lineOf (ifaceLine name c) = .iface [name, c.family, c.method] := by
  rw [ifaceLine, lineOf_joined (by decide) (by simpa using ⟨hn, hc.family, hc.method⟩)]
  rfl

theorem lineOf_attribute {k v : Str} (hk : IsKey k) (hv : IsWord v) :
    lineOf (tabulator :: joined k [v]) = .option k [v] := by
  have hv' : ∀ x ∈ [v], IsWord x := by simpa using hv
  have h0 : (0 : Byte) ∉ tabulator :: joined k [v] := by
    have := notMem_joined hk.word hv' (fun x hx => hx.noEnd) (c := 0) (by decide)
    simpa [tabulator] using this
  have ht : isSpace tabulator = true := rfl
  rw [lineOf, cString_eq_self h0, words_space ht, words_joined hk.word hv']
  simp only [line, hk.noNote, hk.noKeyword.1, hk.noKeyword.2.1, hk.noKeyword.2.2, if_false]

theorem words_of_auto {l : Str} {names : List Str} (hl : lineOf l = .auto names) :
    words (cString l) = auto :: names := by
  unfold lineOf at hl
  cases hw : words (cString l) with
  | nil => simp [hw, line] at hl
  | cons w ws =>
    simp only [hw, line] at hl
    split_ifs at hl with _ _ ha
    simp only [Line.auto.injEq] at hl
    rw [ha, hl]

theorem lineOf_removed {l : Str} {names : List Str} (hl : lineOf l = .auto names)
    (h : removeInterfaceFromLine name l ≠ []) :
    lineOf (removeInterfaceFromLine name l) = .auto (names.filter (· ≠ name)) := by
  have hw := words_of_auto hl
  have hws : ∀ x ∈ names, IsWord x := fun x hx =>
    isWord_of_mem (hw ▸ List.mem_cons_of_mem auto hx)
  simp only [removeInterfaceFromLine, hw] at h ⊢
  split_ifs at h ⊢ with hk
  · exact absurd rfl h
  · rw [lineOf_joined (by decide) (fun x hx => hws x (List.mem_of_mem_filter hx))]
    rfl

theorem filter_of_removed {l : Str} {names : List Str} (hl : lineOf l = .auto names)
    (h : removeInterfaceFromLine name l = []) : names.filter (· ≠ name) = [] := by
  simp only [removeInterfaceFromLine, words_of_auto hl] at h
  split_ifs at h with hk
  · exact hk
  · simp [joined, auto, chars] at h

/-! ## The stanza under the editor and the reader -/

theorem edit_attributes (hc : c.Writable) (rest : List Str) :
    edit name c true (addAttributes c.attributes ++ rest) = edit name c true rest := by
  have h : ∀ es : List (Str × Str), (∀ e ∈ es, IsKey e.1 ∧ IsWord e.2) →
      edit name c true (es.map (fun e => tabulator :: joined e.1 [e.2]) ++ rest) =
        edit name c true rest := by
    intro es hes
    induction es with
    | nil => rfl
    | cons e es ih =>
      have he := hes e List.mem_cons_self
      have ih := ih fun x hx => hes x (List.mem_cons_of_mem e hx)
      simp only [List.map_cons, List.cons_append, edit, lineOf_attribute he.1 he.2, if_true, ih]
  exact h c.attributes.entries hc.attributes

theorem edit_stanza (hn : IsWord name) (hc : c.Writable) (q : Bool) (rest : List Str) :
    edit name c q (stanza name c ++ rest) = stanza name c ++ edit name c true rest := by
  have hi (q : Bool) : edit name c q (ifaceLine name c :: addAttributes c.attributes ++ rest) =
      stanza name c ++ edit name c true rest := by
    rw [List.cons_append, edit]
    simp only [lineOf_ifaceLine hn hc, List.head?_cons, if_true, edit_attributes hc]
  have hr : removeInterfaceFromLine name (autoLine name) = [] := by
    simp [removeInterfaceFromLine, words_of_auto (lineOf_autoLine hn)]
  cases ha : c.automaticStart with
  | false =>
    have hs : stanza name c = ifaceLine name c :: addAttributes c.attributes := by simp [stanza, ha]
    rw [hs, hi, hs]
  | true =>
    have hs : stanza name c = autoLine name :: (ifaceLine name c :: addAttributes c.attributes) := by
      simp [stanza, ha]
    have hi := hi false
    rw [hs] at hi ⊢
    rw [List.cons_append, edit]
    simp only [lineOf_autoLine hn, List.mem_singleton, if_true, hr, hi]

theorem readLines_attributes_outside (other : Str) {es : List (Str × Str)}
    (hes : ∀ e ∈ es, IsKey e.1 ∧ IsWord e.2) {r : Reading} (hr : r.inside = false) :
    readLines other r (es.map fun e => tabulator :: joined e.1 [e.2]) = r := by
  induction es with
  | nil => rfl
  | cons e es ih =>
    have he := hes e List.mem_cons_self
    have ih := ih fun x hx => hes x (List.mem_cons_of_mem e hx)
    have hl : readLine other r (tabulator :: joined e.1 [e.2]) = r := by
      simp [readLine, lineOf_attribute he.1 he.2, hr]
    simp only [readLines, List.map_cons, List.foldl_cons, hl]
    exact ih

theorem readLines_attributes_inside (other : Str) {es : List (Str × Str)}
    (hes : ∀ e ∈ es, IsKey e.1 ∧ IsWord e.2) {r : Reading} (hr : r.inside = true) :
    readLines other r (es.map fun e => tabulator :: joined e.1 [e.2]) =
      { r with result := { r.result with
          attributes := es.foldl (fun m e => m.set e.1 e.2) r.result.attributes } } := by
  induction es generalizing r with
  | nil => rfl
  | cons e es ih =>
    have he := hes e List.mem_cons_self
    have ih := @ih fun x hx => hes x (List.mem_cons_of_mem e hx)
    simp only [readLines, List.map_cons, List.foldl_cons] at ih ⊢
    rw [ih]
    · simp [readLine, lineOf_attribute he.1 he.2, hr]
    · simp [readLine, lineOf_attribute he.1 he.2, hr]

/-- The reader of the interface itself, with the stanza not yet read or read before. -/
theorem readLines_stanza_own (hn : IsWord name) (hc : c.Writable) {r : Reading}
    (hr : (r.result.automaticStart = false ∧ r.result.attributes = .empty) ∨ r.result = c) :
    readLines name r (stanza name c) = ⟨true, c⟩ := by
  have hset : c.attributes.entries.foldl (fun m e => m.set e.1 e.2) r.result.attributes =
      c.attributes := by
    rcases hr with ⟨-, hr⟩ | hr
    · rw [hr]
      exact c.attributes.ofList_entries
    · rw [hr]
      exact c.attributes.foldl_set_entries
  have hi (r' : Reading) (ha : r'.result.automaticStart = c.automaticStart)
      (ht : r'.result.attributes = r.result.attributes) :
      readLines name r' (ifaceLine name c :: addAttributes c.attributes) = ⟨true, c⟩ := by
    have hl : readLine name r' (ifaceLine name c) =
        ⟨true, { r'.result with family := c.family, method := c.method }⟩ := by
      simp [readLine, lineOf_ifaceLine hn hc]
    rw [readLines, List.foldl_cons, hl]
    exact (readLines_attributes_inside name hc.attributes rfl).trans (by simp [ht, hset, ha])
  cases ha : c.automaticStart with
  | false =>
    have hs : stanza name c = ifaceLine name c :: addAttributes c.attributes := by simp [stanza, ha]
    rw [hs]
    refine hi r ?_ rfl
    rcases hr with ⟨hr, -⟩ | hr
    · rw [hr, ha]
    · rw [hr]
  | true =>
    have hs : stanza name c = autoLine name :: (ifaceLine name c :: addAttributes c.attributes) := by
      simp [stanza, ha]
    have hl : readLine name r (autoLine name) =
        ⟨false, { r.result with automaticStart := true }⟩ := by
      simp [readLine, lineOf_autoLine hn]
    rw [hs, readLines, List.foldl_cons, hl]
    exact hi _ ha.symm rfl

/-- The reader of another interface finds nothing in the stanza. -/
theorem readLines_stanza_other {other : Str} (ho : other ≠ name) (hn : IsWord name)
    (hc : c.Writable) (r : Reading) :
    readLines other r (stanza name c) = { r with inside := false } := by
  have hi (r : Reading) : readLines other r (ifaceLine name c :: addAttributes c.attributes) =
      { r with inside := false } := by
    have hl : readLine other r (ifaceLine name c) = { r with inside := false } := by
      simp [readLine, lineOf_ifaceLine hn hc, Ne.symm ho]
    rw [readLines, List.foldl_cons, hl]
    exact readLines_attributes_outside other hc.attributes rfl
  cases ha : c.automaticStart with
  | false =>
    have hs : stanza name c = ifaceLine name c :: addAttributes c.attributes := by simp [stanza, ha]
    rw [hs, hi]
  | true =>
    have hs : stanza name c = autoLine name :: (ifaceLine name c :: addAttributes c.attributes) := by
      simp [stanza, ha]
    have hl : readLine other r (autoLine name) = { r with inside := false } := by
      simp [readLine, lineOf_autoLine hn, ho]
    rw [hs, readLines, List.foldl_cons, hl]
    exact hi _

/-! ## The whole list of lines -/

theorem readLines_cons (other : Str) (r : Reading) (l : Str) (ls : List Str) :
    readLines other r (l :: ls) = readLines other (readLine other r l) ls := rfl

theorem readLines_append (other : Str) (r : Reading) (ls ls' : List Str) :
    readLines other r (ls ++ ls') = readLines other (readLines other r ls) ls' :=
  List.foldl_append

/-- The editor's second run. It may still remove where the first one no longer
does, but only below an `auto` line that is gone, where no option stands. -/
theorem edit_edit (hn : IsWord name) (hc : c.Writable) {ls rest : List Str} {b p q : Bool}
    (hb : Belongs b ls) (hpq : p = true → q = true) (hqp : q = true → p = true ∨ b = false)
    (hrest : ∀ q, edit name c q rest = rest) :
    edit name c q (edit name c p ls ++ rest) = edit name c p ls ++ rest := by
  induction ls generalizing b p q with
  | nil => exact hrest q
  | cons l ls ih =>
    cases hl : lineOf l with
    | note =>
      simp only [Belongs, hl] at hb
      simp only [edit, hl, List.cons_append, ih hb hpq hqp]
    | mapping =>
      simp only [Belongs, hl] at hb
      simp only [edit, hl, List.cons_append]
      rw [ih hb (by simp) (by simp)]
    | option k vs =>
      simp only [Belongs, hl] at hb
      obtain ⟨rfl, hb⟩ := hb
      cases p with
      | true =>
        simp only [edit, hl, if_true]
        exact ih hb hpq hqp
      | false =>
        have hq : q = false := by
          cases q with
          | false => rfl
          | true => simpa using hqp rfl
        simp only [edit, hl, hq, Bool.false_eq_true, if_false, List.cons_append]
        rw [ih hb (by simp) (by simp)]
    | auto names =>
      simp only [Belongs, hl] at hb
      by_cases hm : name ∈ names
      · by_cases hr : removeInterfaceFromLine name l = []
        · simp only [edit, hl, hm, if_true, hr]
          exact ih hb (by simp) (by simp)
        · have hf : name ∉ names.filter (· ≠ name) := by simp
          simp only [edit, hl, hm, if_true, hr, if_false, List.cons_append, lineOf_removed hl hr, hf]
          rw [ih hb (by simp) (by simp)]
      · simp only [edit, hl, hm, if_false, List.cons_append]
        rw [ih hb (by simp) (by simp)]
    | iface names =>
      simp only [Belongs, hl] at hb
      by_cases hm : names.head? = some name
      · simp only [edit, hl, hm, if_true, List.append_assoc, edit_stanza hn hc]
        rw [ih hb (by simp) (by simp)]
      · simp only [edit, hl, hm, if_false, List.cons_append]
        rw [ih hb (by simp) (by simp)]

/-- The reader of another interface, on the old and on the new lines. Its two
states may differ in `inside` below an `auto` line that is gone. -/
theorem readLines_edit_other {other : Str} (ho : other ≠ name) (hn : IsWord name)
    (hc : c.Writable) {ls : List Str} {b p : Bool} {r r' : Reading} (hb : Belongs b ls)
    (hr : r.result = r'.result) (hin : b = true → r.inside = r'.inside)
    (hp : p = true → r.inside = false ∧ r'.inside = false) :
    (readLines other r ls).result = (readLines other r' (edit name c p ls)).result := by
  induction ls generalizing b p r r' with
  | nil => exact hr
  | cons l ls ih =>
    have hout : ({ r with inside := false } : Reading) = { r' with inside := false } := by rw [hr]
    cases hl : lineOf l with
    | note =>
      have hs (r : Reading) : readLine other r l = r := by simp [readLine, hl]
      simp only [Belongs, hl] at hb
      simp only [edit, hl, readLines_cons, hs]
      exact ih hb hr hin hp
    | mapping =>
      have hs (r : Reading) : readLine other r l = { r with inside := false } := by
        simp [readLine, hl]
      simp only [Belongs, hl] at hb
      simp only [edit, hl, readLines_cons, hs, hout]
      exact ih hb rfl (fun _ => rfl) (by simp)
    | option k vs =>
      simp only [Belongs, hl] at hb
      obtain ⟨rfl, hb⟩ := hb
      cases p with
      | true =>
        obtain ⟨h, h'⟩ := hp rfl
        have hs : readLine other r l = r := by cases vs <;> simp [readLine, hl, h]
        simp only [edit, hl, if_true, readLines_cons, hs]
        exact ih hb hr hin hp
      | false =>
        have hrr : r = r' := by
          cases r
          cases r'
          simp_all
        simp only [edit, hl, Bool.false_eq_true, if_false, readLines_cons, hrr]
        exact ih hb rfl (fun _ => rfl) (by simp)
    | auto names =>
      simp only [Belongs, hl] at hb
      by_cases hm : name ∈ names
      · have hf (r : Reading) : readLine other r l = ⟨false, { r.result with
            automaticStart := r.result.automaticStart ||
              decide (other ∈ names.filter (· ≠ name)) }⟩ := by
          simp [readLine, hl, ho]
        by_cases hrm : removeInterfaceFromLine name l = []
        · have hnone : other ∉ names.filter (· ≠ name) := by
            rw [filter_of_removed hl hrm]
            simp
          simp only [edit, hl, hm, if_true, hrm, readLines_cons, hf, hnone]
          refine ih hb ?_ (by simp) (by simp)
          simp [hr]
        · have hf' : readLine other r' (removeInterfaceFromLine name l) = readLine other r' l := by
            rw [hf, readLine, lineOf_removed hl hrm]
          simp only [edit, hl, hm, if_true, hrm, if_false, readLines_cons, hf', hf, hr]
          exact ih hb rfl (fun _ => rfl) (by simp)
      · have hs : readLine other r l = readLine other r' l := by simp [readLine, hl, hr]
        simp only [edit, hl, hm, if_false, readLines_cons, hs]
        exact ih hb rfl (fun _ => rfl) (by simp)
    | iface names =>
      simp only [Belongs, hl] at hb
      by_cases hm : names.head? = some name
      · have hs : readLine other r l = { r with inside := false } := by
          rcases names with - | ⟨n, - | ⟨f, - | ⟨m, ws⟩⟩⟩ <;> simp_all [readLine, Ne.symm]
        simp only [edit, hl, hm, if_true, readLines_cons, hs, readLines_append,
          readLines_stanza_other ho hn hc, hout]
        exact ih hb rfl (fun _ => rfl) (by simp)
      · have hs : readLine other r l = readLine other r' l := by
          rcases names with - | ⟨n, - | ⟨f, - | ⟨m, ws⟩⟩⟩ <;> simp [readLine, hl, hr]
        simp only [edit, hl, hm, if_false, readLines_cons, hs]
        exact ih hb rfl (fun _ => rfl) (by simp)

theorem found_cons (name l : Str) (ls : List Str) :
    found name (l :: ls) = ((match lineOf l with
      | .iface names => decide (names.head? = some name)
      | _ => false) || found name ls) := rfl

/-- The reader of the interface itself, on the new lines. It is inside only where
the editor removes the options, or below an `auto` line that is gone. -/
theorem readLines_edit_own (hn : IsWord name) (hc : c.Writable) {ls : List Str} {b p : Bool}
    {r : Reading} (hb : Belongs b ls)
    (hr : (r.result.automaticStart = false ∧ r.result.attributes = .empty) ∨ r.result = c)
    (hin : r.inside = true → p = true ∨ b = false) :
    (readLines name r (edit name c p ls)).result = if found name ls then c else r.result := by
  induction ls generalizing b p r with
  | nil => rfl
  | cons l ls ih =>
    have hfound := found_cons name l ls
    cases hl : lineOf l with
    | note =>
      have hs : readLine name r l = r := by simp [readLine, hl]
      simp only [hl, Bool.false_or] at hfound
      simp only [Belongs, hl] at hb
      simp only [edit, hl, readLines_cons, hs, hfound]
      exact ih hb hr hin
    | mapping =>
      have hs : readLine name r l = { r with inside := false } := by simp [readLine, hl]
      simp only [hl, Bool.false_or] at hfound
      simp only [Belongs, hl] at hb
      simp only [edit, hl, readLines_cons, hs, hfound]
      exact ih hb hr (by simp)
    | option k vs =>
      simp only [hl, Bool.false_or] at hfound
      simp only [Belongs, hl] at hb
      obtain ⟨rfl, hb⟩ := hb
      cases p with
      | true =>
        simp only [edit, hl, if_true, hfound]
        exact ih hb hr hin
      | false =>
        have hout : r.inside = false := by
          cases h : r.inside with
          | false => rfl
          | true => simpa using hin h
        have hs : readLine name r l = r := by cases vs <;> simp [readLine, hl, hout]
        simp only [edit, hl, Bool.false_eq_true, if_false, readLines_cons, hs, hfound]
        exact ih hb hr hin
    | auto names =>
      simp only [hl, Bool.false_or] at hfound
      simp only [Belongs, hl] at hb
      by_cases hm : name ∈ names
      · by_cases hrm : removeInterfaceFromLine name l = []
        · simp only [edit, hl, hm, if_true, hrm, hfound]
          exact ih hb hr (by simp)
        · have hs : readLine name r (removeInterfaceFromLine name l) =
              { r with inside := false } := by
            simp [readLine, lineOf_removed hl hrm]
          simp only [edit, hl, hm, if_true, hrm, if_false, readLines_cons, hs, hfound]
          exact ih hb hr (by simp)
      · have hs : readLine name r l = { r with inside := false } := by simp [readLine, hl, hm]
        simp only [edit, hl, hm, if_false, readLines_cons, hs, hfound]
        exact ih hb hr (by simp)
    | iface names =>
      simp only [hl] at hfound
      simp only [Belongs, hl] at hb
      by_cases hm : names.head? = some name
      · have hi := ih hb (Or.inr rfl : (_ ∨ (⟨true, c⟩ : Reading).result = c))
          (by simp : _ → true = true ∨ _)
        simp only [edit, hl, hm, if_true, readLines_append, readLines_stanza_own hn hc hr, hi,
          hfound, decide_true, Bool.true_or, ite_self]
      · have hs : readLine name r l = { r with inside := false } := by
          rcases names with - | ⟨n, - | ⟨f, - | ⟨m, ws⟩⟩⟩ <;> simp_all [readLine]
        simp only [edit, hl, hm, if_false, readLines_cons, hs, hfound, decide_false, Bool.false_or]
        exact ih hb hr (by simp)

/-! ## The file -/

theorem lines_unlines {ls : List Str} (h : ∀ l ∈ ls, newline ∉ l) : lines (unlines ls) = ls := by
  induction ls with
  | nil => rfl
  | cons l ls ih =>
    have ih := ih fun x hx => h x (List.mem_cons_of_mem l hx)
    have hl := lines_append l (unlines ls) (h l List.mem_cons_self)
    rw [ih] at hl
    simpa [unlines] using hl

theorem newline_notMem_joined {w : Str} {ws : List Str} (hw : IsWord w) (hws : ∀ x ∈ ws, IsWord x) :
    newline ∉ joined w ws :=
  notMem_joined hw hws (fun _ hx => newline_notMem_word hx) (by decide)

theorem newline_notMem_stanza (hn : IsWord name) (hc : c.Writable) {l : Str}
    (hl : l ∈ stanza name c) : newline ∉ l := by
  simp only [stanza, addAttributes, List.mem_append, List.mem_cons, List.mem_map] at hl
  rcases hl with hl | rfl | ⟨e, he, rfl⟩
  · split_ifs at hl
    · obtain rfl := List.mem_singleton.mp hl
      exact newline_notMem_joined (by decide) (by simpa using hn)
    · simp at hl
  · exact newline_notMem_joined (by decide) (by simpa using ⟨hn, hc.family, hc.method⟩)
  · have := newline_notMem_joined (hc.attributes e he).1.word
      (by simpa using (hc.attributes e he).2 : ∀ x ∈ [e.2], IsWord x)
    simpa [tabulator, newline] using this

theorem newline_notMem_edit (hn : IsWord name) (hc : c.Writable) {ls : List Str}
    (h : ∀ l ∈ ls, newline ∉ l) (p : Bool) : ∀ l ∈ edit name c p ls, newline ∉ l := by
  induction ls generalizing p with
  | nil => simp [edit]
  | cons l ls ih =>
    have ih := ih fun x hx => h x (List.mem_cons_of_mem l hx)
    have hl := h l List.mem_cons_self
    cases hk : lineOf l with
    | note => simpa [edit, hk, hl] using ih p
    | mapping => simpa [edit, hk, hl] using ih false
    | option k vs =>
      cases p with
      | true => simpa [edit, hk] using ih true
      | false => simpa [edit, hk, hl] using ih false
    | auto names =>
      by_cases hm : name ∈ names
      · by_cases hr : removeInterfaceFromLine name l = []
        · simpa [edit, hk, hm, hr] using ih false
        · have hws : ∀ x ∈ names.filter (· ≠ name), IsWord x := fun x hx =>
            isWord_of_mem (words_of_auto hk ▸ List.mem_cons_of_mem auto (List.mem_of_mem_filter hx))
          have hnew : newline ∉ removeInterfaceFromLine name l := by
            simp only [removeInterfaceFromLine, words_of_auto hk]
            split_ifs
            · simp
            · exact newline_notMem_joined (by decide) hws
          simpa [edit, hk, hm, hr, hnew] using ih false
      · simpa [edit, hk, hm, hl] using ih false
    | iface names =>
      by_cases hm : names.head? = some name
      · intro x hx
        simp only [edit, hk, hm, if_true] at hx
        rcases List.mem_append.mp hx with hx | hx
        · exact newline_notMem_stanza hn hc hx
        · exact ih true x hx
      · simpa [edit, hk, hm, hl] using ih false

theorem found_append (ls ls' : List Str) :
    found name (ls ++ ls') = (found name ls || found name ls') :=
  List.any_append

theorem found_stanza (hn : IsWord name) (hc : c.Writable) : found name (stanza name c) = true := by
  have h : found name (ifaceLine name c :: addAttributes c.attributes) = true := by
    simp [found, lineOf_ifaceLine hn hc]
  rw [stanza, found_append, h, Bool.or_true]

theorem found_edit (hn : IsWord name) (hc : c.Writable) {ls : List Str} (p : Bool)
    (h : found name ls = true) : found name (edit name c p ls) = true := by
  induction ls generalizing p with
  | nil => exact h
  | cons l ls ih =>
    have hcons (x : Str) (xs : List Str) (hx : found name xs = true) :
      found name (x :: xs) = true := by
      rw [← List.singleton_append, found_append, hx, Bool.or_true]
    have hls (hl : ∀ names, lineOf l = .iface names → names.head? ≠ some name) :
        found name ls = true := by
      rw [← List.singleton_append, found_append, Bool.or_eq_true] at h
      rcases h with h | h
      · simp only [found, List.any_cons, List.any_nil, Bool.or_false] at h
        split at h
        · rename_i names hi
          exact absurd (by simpa using h) (hl names hi)
        · simp at h
      · exact h
    cases hl : lineOf l with
    | note => simpa [edit, hl] using hcons l _ (ih p (hls (by simp [hl])))
    | mapping => simpa [edit, hl] using hcons l _ (ih false (hls (by simp [hl])))
    | option k vs =>
      cases p with
      | true => simpa [edit, hl] using ih true (hls (by simp [hl]))
      | false => simpa [edit, hl] using hcons l _ (ih false (hls (by simp [hl])))
    | auto names =>
      have ih := ih false (hls (by simp [hl]))
      simp only [edit, hl]
      split_ifs
      · exact ih
      · exact hcons _ _ ih
      · exact hcons _ _ ih
    | iface names =>
      by_cases hm : names.head? = some name
      · simp only [edit, hl, hm, if_true, found_append, found_stanza hn hc, Bool.true_or]
      · have ih := ih false (hls (by simpa [hl] using hm))
        simpa [edit, hl, hm] using hcons l _ ih

theorem edit_only_stanza (hn : IsWord name) (hc : c.Writable) (q : Bool) :
    edit name c q (stanza name c) = stanza name c := by
  have := edit_stanza hn hc q []
  simpa [edit] using this

theorem writeLines_writeLines (hn : IsWord name) (hc : c.Writable) {ls : List Str}
    (hb : Belongs false ls) : writeLines name c (writeLines name c ls) = writeLines name c ls := by
  have twice (rest : List Str) (hrest : ∀ q, edit name c q rest = rest)
      (hf : found name (edit name c false ls ++ rest) = true) :
      writeLines name c (edit name c false ls ++ rest) = edit name c false ls ++ rest := by
    rw [writeLines, hf, edit_edit hn hc hb id (by simp) hrest]
    simp
  cases hf : found name ls with
  | true =>
    have hw : writeLines name c ls = edit name c false ls ++ [] := by simp [writeLines, hf]
    rw [hw]
    apply twice
    · intro q
      rfl
    · rw [List.append_nil, found_edit hn hc false hf]
  | false =>
    have hw : writeLines name c ls = edit name c false ls ++ stanza name c := by
      simp [writeLines, hf]
    rw [hw]
    apply twice
    · exact edit_only_stanza hn hc
    · rw [found_append, found_stanza hn hc, Bool.or_true]

theorem lines_writeInterface (hn : IsWord name) (hc : c.Writable) (file : Str) :
    lines (writeInterface (some file) name c) = writeLines name c (lines file) := by
  apply lines_unlines
  intro l hl
  simp only [writeLines, readFile, Option.map_some, Option.getD_some, List.mem_append] at hl
  rcases hl with hl | hl
  · exact newline_notMem_edit hn hc (fun _ hx => newline_notMem_lines hx) false l hl
  · cases hf : found name (lines file) with
    | true => simp [hf] at hl
    | false => exact newline_notMem_stanza hn hc (by simpa [hf] using hl)

/-- The reader returns what was written. -/
theorem read_own (hn : IsWord name) (hc : c.Writable) {file : Str} (hb : Belongs false (lines file))
    (family method : Str) :
    readInterface (some (writeInterface (some file) name c)) name family method = (true, c) := by
  have hown :=
    readLines_edit_own hn hc (p := false) (r := ⟨false, ⟨false, family, method, .empty⟩⟩) hb
    (Or.inl ⟨rfl, rfl⟩) (by simp)
  simp only [readInterface, lines_writeInterface hn hc, writeLines, readLines_append,
    Prod.mk.injEq, true_and]
  cases hf : found name (lines file) with
  | true =>
    simp only [hf, if_true] at hown
    exact hown
  | false =>
    simp only [hf, Bool.false_eq_true, if_false] at hown ⊢
    rw [readLines_stanza_own hn hc (Or.inl (by simp [hown]))]

/-- The reader returns for every other interface what it returned before. -/
theorem read_other {other : Str} (ho : other ≠ name) (hn : IsWord name) (hc : c.Writable)
    {file : Str} (hb : Belongs false (lines file)) (family method : Str) :
    readInterface (some (writeInterface (some file) name c)) other family method =
      readInterface (some file) other family method := by
  have hother := readLines_edit_other ho hn hc (p := false)
    (r := ⟨false, ⟨false, family, method, .empty⟩⟩) hb rfl (fun _ => rfl) (by simp)
  simp only [readInterface, lines_writeInterface hn hc, writeLines, readLines_append,
    Prod.mk.injEq, true_and]
  rw [hother]
  cases found name (lines file) with
  | true => rfl
  | false =>
    simp only [Bool.false_eq_true, if_false]
    rw [readLines_stanza_other ho hn hc]

/-- Writing an interface changes this interface only, and once is enough. -/
theorem writeInterface_only (file name : Str) (c : Interface) (hb : Belongs false (lines file))
    (hn : IsWord name) (hc : c.Writable) :
    (∀ family method,
      readInterface (some (writeInterface (some file) name c)) name family method = (true, c)) ∧
    (∀ other, other ≠ name → ∀ family method,
      readInterface (some (writeInterface (some file) name c)) other family method =
        readInterface (some file) other family method) ∧
    writeInterface (some (writeInterface (some file) name c)) name c =
      writeInterface (some file) name c := by
  refine ⟨read_own hn hc hb, fun other ho => read_other ho hn hc hb, ?_⟩
  have hl := lines_writeInterface hn hc file
  have hw := writeLines_writeLines hn hc hb
  simp only [writeInterface, readFile, Option.map_some, Option.getD_some] at hl ⊢
  rw [hl, hw]

end

/-- A file that names the interface twice, together with another one. -/
theorem writeInterface_only_sample :
    let file := chars "auto lo eth0\niface eth0 inet dhcp\n# lan\n\thostname box\nauto eth1\n" ++
      chars "iface eth1 inet dhcp\nmapping eth2\n\tscript x\niface eth0 inet dhcp\n\tmtu 9"
    let c : Interface := ⟨true, chars "inet", chars "static",
      .ofList [(chars "address", chars "10.0.0.2"), (chars "netmask", chars "255.0.0.0")]⟩
    (∀ family method,
      readInterface (some (writeInterface (some file) (chars "eth0") c)) (chars "eth0")
        family method =
        (true, c)) ∧
    (∀ other, other ≠ chars "eth0" → ∀ family method,
      readInterface (some (writeInterface (some file) (chars "eth0") c)) other family method =
        readInterface (some file) other family method) ∧
    writeInterface (some (writeInterface (some file) (chars "eth0") c)) (chars "eth0") c =
      writeInterface (some file) (chars "eth0") c := by
  intro file c
  apply writeInterface_only
  · decide
  · decide
  · decide

end Tuxbox.Libnet
