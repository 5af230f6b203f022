import Tuxbox.Tuxtxt.Cache

/-!
# The cache is the fold of the rows

What a page of the cache holds, told from the rows received alone: `current` is
the page a magazine transmits, `received` the last content of a row of a page
since the page was erased.
-/

namespace Tuxbox.Tuxtxt

open TextPage

/-- What a row is: too damaged to tell, the header of a page and subpage (or of
none, where the number is not correct or stands for no page), one of the rows
1 to 23 of the page, or another packet. -/
inductive Meaning where
  | damaged
  | header (magazine : Nat) (names : Option (Nat × Nat)) (erases : Bool)
  | text (magazine n : Nat)
  | other (magazine : Nat)

namespace Row

/-- Magazine 0 is called 8. -/
def magazine (r : Row) : Nat := if r.dehammed 0 % 8 = 0 then 8 else r.dehammed 0 % 8

def packetNumber (r : Row) : Nat := r.dehammed 0 / 8 + 2 * r.dehammed 1

/-- The page number of a header. -/
def pageNumber (r : Row) : Nat := 256 * r.magazine + 16 * r.dehammed 3 + r.dehammed 2

/-- The subpage number of a header, of which a hex page has the last digit only. -/
def subpageNumber (r : Row) : Nat :=
  if isDec r.pageNumber then 16 * (r.dehammed 5 % 8) + r.dehammed 4 else r.dehammed 4

/-- The page and subpage a header names. -/
def names (r : Row) : Option (Nat × Nat) :=
  if r.dehammed 2 = 0xFF ∨ r.dehammed 3 = 0xFF then none
  else if r.dehammed 2 = 15 ∧ r.dehammed 3 = 15 then none
  else if r.dehammed 4 = 0xFF ∨ r.dehammed 5 = 0xFF ∨ r.dehammed 6 = 0xFF ∨ r.dehammed 7 = 0xFF
    then none
  else some (r.pageNumber, r.subpageNumber)

/-- The control bit C4. -/
def erases (r : Row) : Bool := r.dehammed 5 / 8 % 2 = 1

def meaning (r : Row) : Meaning :=
  if r.dehammed 0 = 0xFF ∨ r.dehammed 1 = 0xFF then .damaged
  else if r.packetNumber = 0 then .header r.magazine r.names r.erases
  else if r.packetNumber ≤ 23 then .text r.magazine r.packetNumber
  else .other r.magazine

/-- The characters of a row, without their parity bit. -/
def characters (r : Row) : List Byte := r.text.map fun b => b &&& 0x7f

end Row

/-- The page and subpage whose rows a magazine transmits. -/
def current (m : Nat) : List Event → Option (Nat × Nat)
  | [] => none
  | .display _ _ _ :: older => current m older
  | .row r :: older =>
    match r.meaning with
    | .header m' names _ => if m' = m then names else current m older
    | _ => current m older

/-- The last content of row `n` of a page since the page was erased. -/
def received (p s n : Nat) : List Event → Option (List Byte)
  | [] => none
  | .display _ _ _ :: older => received p s n older
  | .row r :: older =>
    match r.meaning with
    | .header _ names erases =>
      if names = some (p, s) ∧ erases = true then none else received p s n older
    | .text m k =>
      if k = n ∧ current m older = some (p, s) then some r.characters else received p s n older
    | _ => received p s n older

/-- No row of the page came since the last header of its magazine. -/
def Closed (p s : Nat) : List Event → Prop
  | [] => True
  | .display _ _ _ :: older => Closed p s older
  | .row r :: older =>
    match r.meaning with
    | .header m _ _ => m = p / 256 ∨ Closed p s older
    | .text m _ => current m older ≠ some (p, s) ∧ Closed p s older
    | _ => Closed p s older

def blankRow : List Byte := List.replicate 40 0x20

/-- The page as received: rows that did not come are blank. -/
def picture (p s : Nat) (events : List Event) : List Byte :=
  rows 23 fun n => (received p s (n + 1) events).getD blankRow

section
variable {r : Row} {m p s n : Nat} {names : Option (Nat × Nat)} {erases : Bool}
  {events older : List Event}

/-! ## What the rows say -/

theorem Row.characters_length (r : Row) : r.characters.length = 40 := by
  simp [Row.characters, r.text_length]

theorem Row.names_eq (h : r.names = some (p, s)) :
    r.dehammed 2 < 16 ∧ r.dehammed 3 < 16 ∧ p = r.pageNumber := by
  unfold Row.names at h
  split at h
  · cases h
  · rename_i hham
    split at h
    · cases h
    · split at h
      · cases h
      · cases h
        have h2 := r.dehammed_cases 2
        have h3 := r.dehammed_cases 3
        omega

/-- A header names a page of its own magazine. -/
theorem Row.names_magazine (h : r.names = some (p, s)) : p / 256 = r.magazine := by
  obtain ⟨h2, h3, rfl⟩ := Row.names_eq h
  rw [Row.pageNumber]
  omega

theorem meaning_header (h : r.meaning = .header m names erases) :
    m = r.magazine ∧ names = r.names ∧ erases = r.erases := by
  unfold Row.meaning at h
  split at h
  · cases h
  · split at h
    · cases h
      exact ⟨rfl, rfl, rfl⟩
    · split at h <;> cases h

theorem meaning_text (h : r.meaning = .text m n) :
    m = r.magazine ∧ n = r.packetNumber ∧ 1 ≤ n ∧ n ≤ 23 := by
  unfold Row.meaning at h
  split at h
  · cases h
  · split at h
    · cases h
    · split at h
      · cases h
        exact ⟨rfl, rfl, by omega, by assumption⟩
      · cases h

theorem current_magazine (h : current m events = some (p, s)) : p / 256 = m := by
  induction events with
  | nil => cases h
  | cons e older ih =>
    cases e with
    | display page subpage manual => exact ih h
    | row r =>
      cases hr : r.meaning with
      | header m' names erases =>
        obtain ⟨rfl, rfl, -⟩ := meaning_header hr
        simp only [current, hr] at h
        split at h
        · rename_i hm
          rw [← hm]
          exact Row.names_magazine h
        · exact ih h
      | damaged | text m' n | other m' =>
        simp only [current, hr] at h
        exact ih h

theorem received_length {row : List Byte} (h : received p s n events = some row) :
    row.length = 40 := by
  induction events with
  | nil => cases h
  | cons e older ih =>
    cases e with
    | display page subpage manual => exact ih h
    | row r =>
      cases hr : r.meaning with
      | header m' names erases =>
        simp only [received, hr] at h
        split at h
        · cases h
        · exact ih h
      | text m' k =>
        simp only [received, hr] at h
        split at h
        · cases h
          exact r.characters_length
        · exact ih h
      | damaged | other m' =>
        simp only [received, hr] at h
        exact ih h

theorem picture_rows_length (n : Nat) : ((received p s n events).getD blankRow).length = 40 := by
  cases h : received p s n events with
  | none => rfl
  | some row => exact received_length h

/-- A page that its magazine does not transmit is closed. -/
theorem closed_of_not_current (h : current (p / 256) events ≠ some (p, s)) : Closed p s events := by
  induction events with
  | nil => trivial
  | cons e older ih =>
    cases e with
    | display page subpage manual => exact ih h
    | row r =>
      cases hr : r.meaning with
      | header m' names erases =>
        simp only [Closed, hr]
        by_cases hm : m' = p / 256
        · exact Or.inl hm
        · simp only [current, hr, hm, if_false] at h
          exact Or.inr (ih h)
      | text m' k =>
        simp only [current, hr] at h
        simp only [Closed, hr]
        refine ⟨?_, ih h⟩
        intro hcur
        rw [current_magazine hcur] at h
        exact h hcur
      | damaged | other m' =>
        simp only [current, hr] at h
        simp only [Closed, hr]
        exact ih h

/-! ## What the thread does with them -/

variable {c c' : Cache}

theorem packetNumber_bits {b1 b2 : Nat} (h1 : b1 < 16) (h2 : b2 < 16) :
    (b1 &&& 8) >>> 3 ||| b2 <<< 1 = b1 / 8 + 2 * b2 := by
  have hall : ∀ b1 < 16, ∀ b2 < 16, (b1 &&& 8) >>> 3 ||| b2 <<< 1 = b1 / 8 + 2 * b2 := by
    decide
  exact hall b1 h1 b2 h2

theorem digits_bits {b1 b2 : Nat} (h1 : b1 < 16) (h2 : b2 < 16) :
    b1 <<< 4 ||| b2 = 16 * b1 + b2 := by
  have hall : ∀ b1 < 16, ∀ b2 < 16, b1 <<< 4 ||| b2 = 16 * b1 + b2 := by
    decide
  exact hall b1 h1 b2 h2

theorem pageNumber_bits {m b2 b3 : Nat} (h2 : b2 < 16) (h3 : b3 < 16) :
    m <<< 8 ||| b2 <<< 4 ||| b3 = 256 * m + 16 * b2 + b3 := by
  have hdigits := digits_bits h2 h3
  have hlt : 16 * b2 + b3 < 2 ^ 8 := by omega
  rw [Nat.or_assoc, hdigits, ← Nat.shiftLeft_add_eq_or_of_lt hlt, Nat.shiftLeft_eq]
  omega

theorem and_seven (b : Nat) : b &&& 7 = b % 8 := Nat.and_two_pow_sub_one_eq_mod b 3

theorem erases_bit (r : Row) (h : r.dehammed 5 < 16) : r.dehammed 5 &&& 8 ≠ 0 ↔ r.erases = true := by
  have hall : ∀ b < 16, (b &&& 8 ≠ 0 ↔ b / 8 % 2 = 1) := by decide
  rw [hall _ h, Row.erases, decide_eq_true_iff]

theorem receiveRow_damaged (h : r.meaning = .damaged) : c.receiveRow r = c := by
  unfold Row.meaning at h
  split at h
  · rename_i hham
    simp only [Cache.receiveRow, hham, if_true]
  · split at h
    · cases h
    · split at h <;> cases h

/-- A row that is not damaged, in the numbers the rows say. -/
theorem receiveRow_sound (h : r.meaning ≠ .damaged) :
    c.receiveRow r =
      if r.packetNumber = 0 then (c.writeBack r.magazine).header r.magazine r
      else if r.packetNumber = 29 ∧ r.dehammed 2 = 0 then c.setUpdate r.magazine
      else
        match c.collecting r.magazine with
        | none => c.setUpdate r.magazine
        | some (p, _) =>
          if r.packetNumber ≤ 25 then
            (c.storeRow r.magazine p r.packetNumber r).setUpdate r.magazine
          else if r.packetNumber ≤ 28 ∧ r.dehammed 2 = 0xFF then c
          else c.setUpdate r.magazine := by
  have hsound : ¬(r.dehammed 0 = 0xFF ∨ r.dehammed 1 = 0xFF) := by
    intro hham
    simp only [Row.meaning, hham, if_true] at h
    exact h rfl
  have h0 := r.dehammed_cases 0
  have h1 := r.dehammed_cases 1
  have hpacket : (r.dehammed 0 &&& 8) >>> 3 ||| r.dehammed 1 <<< 1 = r.packetNumber :=
    packetNumber_bits (by omega) (by omega)
  simp only [Cache.receiveRow, hsound, if_false, hpacket, and_seven]
  rfl

theorem receiveRow_header (h : r.meaning = .header m names erases) :
    c.receiveRow r = (c.writeBack m).header m r := by
  obtain ⟨rfl, -, -⟩ := meaning_header h
  have hzero : r.packetNumber = 0 := by
    unfold Row.meaning at h
    split at h
    · cases h
    · split at h
      · assumption
      · split at h <;> cases h
  rw [receiveRow_sound (by rw [h]; simp), if_pos hzero]

theorem receiveRow_text (h : r.meaning = .text m n) :
    c.receiveRow r =
      match c.collecting m with
      | none => c.setUpdate m
      | some (p, _) => (c.storeRow m p n r).setUpdate m := by
  obtain ⟨rfl, rfl, hlow, hhigh⟩ := meaning_text h
  rw [receiveRow_sound (by rw [h]; simp), if_neg (by omega), if_neg (by omega)]
  have hle : r.packetNumber ≤ 25 := by omega
  simp only [hle, if_true]

/-- Other packets may set the update flag, no more. -/
theorem receiveRow_other (h : r.meaning = .other m) :
    c.receiveRow r = c ∨ c.receiveRow r = c.setUpdate m := by
  have hnum : r.magazine = m ∧ 24 ≤ r.packetNumber := by
    unfold Row.meaning at h
    split at h
    · cases h
    · split at h
      · cases h
      · split at h
        · cases h
        · cases h
          exact ⟨rfl, by omega⟩
  obtain ⟨rfl, hnum⟩ := hnum
  rw [receiveRow_sound (by rw [h]; simp), if_neg (by omega)]
  split
  · exact Or.inr rfl
  · cases hc : c.collecting r.magazine with
    | none => exact Or.inr rfl
    | some page =>
      have hstore : c.storeRow r.magazine page.1 r.packetNumber r = c := by
        unfold Cache.storeRow
        rw [dif_neg (by omega)]
      simp only [hstore]
      split
      · exact Or.inr rfl
      · split
        · exact Or.inl rfl
        · exact Or.inr rfl

/-- The magazine collects nothing, the pages stay. -/
structure Dropped (c c' : Cache) (m : Nat) : Prop where
  collecting : ∀ m', c'.collecting m' = if m' = m then none else c.collecting m'
  pagedata : c'.pagedata = c.pagedata
  pages : c'.astCachetable = c.astCachetable

theorem collecting_update (c : Cache) (m m' : Nat) (page subpage : Option Nat) :
    Cache.collecting { c with
      currentPage := Function.update c.currentPage m page
      currentSubpage := Function.update c.currentSubpage m subpage } m' =
        if m' = m then page.bind fun p => subpage.map fun s => (p, s) else c.collecting m' := by
  by_cases hm : m' = m
  · cases page <;> cases subpage <;> simp [Cache.collecting, hm]
  · simp [Cache.collecting, hm]

theorem header_nameless (h : r.names = none) :
    Dropped c (c.header r.magazine r) r.magazine := by
  simp only [Cache.header]
  split
  · refine ⟨?_, rfl, rfl⟩
    intro m'
    by_cases hm : m' = r.magazine
    · simp [Cache.collecting, hm]
    · simp [Cache.collecting, hm]
  · split
    · refine ⟨?_, rfl, rfl⟩
      intro m'
      rw [collecting_update]
      rfl
    · split
      · refine ⟨?_, rfl, rfl⟩
        intro m'
        rw [collecting_update]
        rfl
      · rw [Row.names, if_neg (by omega), if_neg (by omega), if_neg (by omega)] at h
        cases h

theorem header_named (h : r.names = some (p, s)) :
    c.header r.magazine r = c.openPage r.magazine p s r ∧ r.dehammed 5 < 16 := by
  obtain ⟨h2, h3, -⟩ := Row.names_eq h
  have hpage := @pageNumber_bits r.magazine _ _ h3 h2
  unfold Row.names at h
  split at h
  · cases h
  · rename_i hpageBits
    split at h
    · cases h
    · rename_i hdata
      split at h
      · cases h
      · rename_i hsubpageBits
        cases h
        have h4 := r.dehammed_cases 4
        have h5 := r.dehammed_cases 5
        have hmod : r.dehammed 5 % 8 < 16 := by omega
        have hsub := digits_bits hmod (show r.dehammed 4 < 16 by omega)
        refine ⟨?_, by omega⟩
        simp only [Cache.header]
        rw [if_neg (by omega), if_neg (by omega), if_neg (by omega)]
        simp only [hpage, and_seven, hsub]
        rfl

/-- What an opened page starts from: nothing if C4 is set, else what the cache has. -/
def opening (c : Cache) (r : Row) (p s : Nat) : PageData :=
  if r.erases then PageData.blank else c.decompressPage p s

/-- The cache as a header leaves it, up to the update flag. -/
structure Opened (c c' : Cache) (r : Row) (m p s : Nat) : Prop where
  collecting : ∀ m', c'.collecting m' = if m' = m then some (p, s) else c.collecting m'
  pagedata : c'.pagedata = Function.update c.pagedata m (opening c r p s)
  others : ∀ key, key ≠ (p, s) → c'.astCachetable key = c.astCachetable key
  page : ∃ pg, c'.astCachetable (p, s) = some pg ∧ pg.decompress = opening c r p s

theorem allocateCache_page (c : Cache) (p s : Nat) :
    ∃ pg, (c.allocateCache p s).astCachetable (p, s) = some pg ∧
      pg.decompress = c.decompressPage p s := by
  cases h : c.astCachetable (p, s) with
  | none =>
    refine ⟨TstCachedPage.fresh.erase, ?_, ?_⟩
    · simp [Cache.allocateCache, h]
    · simp [Cache.decompressPage, h]
  | some pg => exact ⟨pg, by simp [Cache.allocateCache, h], by simp [Cache.decompressPage, h]⟩

theorem allocateCache_frame (c : Cache) (p s : Nat) :
    (c.allocateCache p s).collecting = c.collecting ∧
      (c.allocateCache p s).pagedata = c.pagedata ∧
      (c.allocateCache p s).decompressPage p s = c.decompressPage p s ∧
      ∀ key, key ≠ (p, s) → (c.allocateCache p s).astCachetable key = c.astCachetable key := by
  cases h : c.astCachetable (p, s) with
  | none =>
    refine ⟨?_, ?_, ?_, ?_⟩
    · simp [Cache.allocateCache, h, funext_iff, Cache.collecting]
    · simp [Cache.allocateCache, h]
    · simp [Cache.allocateCache, h, Cache.decompressPage]
    · intro key hkey
      simp [Cache.allocateCache, h, hkey]
  | some pg => simp [Cache.allocateCache, h]

theorem openPage_opened (h : r.dehammed 5 < 16) :
    ∃ c', Opened c c' r m p s ∧
      (c.openPage m p s r = c' ∨ c.openPage m p s r = c'.setUpdate m) := by
  let named := { c with
    currentPage := Function.update c.currentPage m (some p)
    currentSubpage := Function.update c.currentSubpage m (some s)
    subpagetable := Function.update c.subpagetable p (some s) }
  obtain ⟨hcollecting, hdata, hpage, hothers⟩ := allocateCache_frame named p s
  obtain ⟨pg, hpg, hpgdata⟩ := allocateCache_page named p s
  let filled := { named.allocateCache p s with
    pagedata := Function.update (named.allocateCache p s).pagedata m
      ((named.allocateCache p s).decompressPage p s) }
  let cleaned := if r.dehammed 5 &&& 8 ≠ 0 then filled.erasePage m p s else filled
  let marked := if r.dehammed 9 &&& 8 ≠ 0 then { cleaned with doupdate := p } else cleaned
  have hnamed : ∀ m', filled.collecting m' = if m' = m then some (p, s) else c.collecting m' := by
    intro m'
    have hfilled : filled.collecting m' = named.collecting m' := congrFun hcollecting m'
    rw [hfilled]
    exact collecting_update c m m' (some p) (some s)
  have hfilled : filled.pagedata = Function.update c.pagedata m (c.decompressPage p s) := by
    show Function.update (named.allocateCache p s).pagedata m _ = _
    rw [hdata, hpage]
    rfl
  have hcleaned : Opened c cleaned r m p s := by
    by_cases herase : r.dehammed 5 &&& 8 ≠ 0
    · have hopening : opening c r p s = PageData.blank := if_pos ((erases_bit r h).mp herase)
      have hclean : cleaned = filled.erasePage m p s := if_pos herase
      rw [hclean]
      refine ⟨hnamed, ?_, ?_, ⟨pg.erase, ?_, ?_⟩⟩
      · show Function.update filled.pagedata m PageData.blank = _
        rw [hfilled, hopening, Function.update_idem]
      · intro key hkey
        show Function.update filled.astCachetable (p, s) _ key = _
        rw [Function.update_of_ne hkey]
        exact hothers key hkey
      · show Function.update filled.astCachetable (p, s) _ (p, s) = _
        rw [Function.update_self]
        exact congrArg (Option.map TstCachedPage.erase) hpg
      · rw [hopening, TstCachedPage.decompress_erase]
    · have hopening : opening c r p s = c.decompressPage p s :=
        if_neg (fun hset => herase ((erases_bit r h).mpr hset))
      have hclean : cleaned = filled := if_neg herase
      rw [hclean]
      refine ⟨hnamed, ?_, hothers, ⟨pg, hpg, ?_⟩⟩
      · rw [hfilled, hopening]
      · rw [hopening, hpgdata]
        rfl
  have hmarked : Opened c marked r m p s := by
    by_cases hupdate : r.dehammed 9 &&& 8 ≠ 0
    · have hmark : marked = { cleaned with doupdate := p } := if_pos hupdate
      rw [hmark]
      exact ⟨hcleaned.collecting, hcleaned.pagedata, hcleaned.others, hcleaned.page⟩
    · have hmark : marked = cleaned := if_neg hupdate
      rw [hmark]
      exact hcleaned
  refine ⟨marked, hmarked, ?_⟩
  by_cases hdec : isDec p
  · exact Or.inr (if_pos hdec)
  · exact Or.inl (if_neg hdec)

/-! ## The pages -/

theorem decompressPage_congr (h : c'.astCachetable (p, s) = c.astCachetable (p, s)) :
    c'.decompressPage p s = c.decompressPage p s := by
  simp only [Cache.decompressPage, h]

theorem compressPage_frame (c : Cache) (p s : Nat) (buffer : PageData) :
    (c.compressPage p s buffer).collecting = c.collecting ∧
      (c.compressPage p s buffer).pagedata = c.pagedata ∧
      ∀ key, key ≠ (p, s) →
        (c.compressPage p s buffer).astCachetable key = c.astCachetable key := by
  cases h : c.astCachetable (p, s) with
  | none => simp [Cache.compressPage, h]
  | some pg =>
    refine ⟨?_, ?_, ?_⟩
    · simp [Cache.compressPage, h, funext_iff, Cache.collecting]
    · simp [Cache.compressPage, h]
    · intro key hkey
      simp [Cache.compressPage, h, hkey]

theorem compressPage_page {buffer : PageData} (h : c.astCachetable (p, s) ≠ none) :
    (c.compressPage p s buffer).astCachetable (p, s) = some (TstCachedPage.compress buffer) := by
  obtain ⟨pg, hpg⟩ := Option.ne_none_iff_exists'.mp h
  simp [Cache.compressPage, hpg]

/-- A page of the cache holds the buffer last compressed into it. -/
theorem decompressPage_compressPage {buffer : PageData} (h : c.astCachetable (p, s) ≠ none) :
    (c.compressPage p s buffer).decompressPage p s = buffer := by
  rw [Cache.decompressPage, compressPage_page h]
  exact TstCachedPage.decompress_compress buffer

/-- The cache holds what was received: a page in transmission in the buffer of its
magazine, a closed one in the cache. -/
structure Tracks (c : Cache) (events : List Event) : Prop where
  collecting : ∀ m, c.collecting m = current m events
  allocated : ∀ m p s, current m events = some (p, s) → c.astCachetable (p, s) ≠ none
  buffer : ∀ m p s, current m events = some (p, s) → isDec p →
    (c.pagedata m).bytes = picture p s events
  stored : ∀ p s, isDec p → Closed p s events → (c.decompressPage p s).bytes = picture p s events

theorem Tracks.congr (h : Tracks c events) (hcollecting : c'.collecting = c.collecting)
    (hdata : c'.pagedata = c.pagedata) (hpages : c'.astCachetable = c.astCachetable) :
    Tracks c' events := by
  refine ⟨?_, ?_, ?_, ?_⟩
  · rw [hcollecting]
    exact h.collecting
  · rw [hpages]
    exact h.allocated
  · rw [hdata]
    exact h.buffer
  · intro p s hdec hclosed
    rw [decompressPage_congr (congrFun hpages (p, s))]
    exact h.stored p s hdec hclosed

/-- A magazine may write its page back at any time. -/
theorem Tracks.save (h : Tracks c events) (hcur : current m events = some (p, s)) :
    Tracks (c.compressPage p s (c.pagedata m)) events ∧
      (isDec p → ((c.compressPage p s (c.pagedata m)).decompressPage p s).bytes =
        picture p s events) := by
  obtain ⟨hcollecting, hdata, hothers⟩ := compressPage_frame c p s (c.pagedata m)
  have hpage : isDec p → ((c.compressPage p s (c.pagedata m)).decompressPage p s).bytes =
      picture p s events := by
    intro hdec
    rw [decompressPage_compressPage (h.allocated m p s hcur)]
    exact h.buffer m p s hcur hdec
  refine ⟨⟨?_, ?_, ?_, ?_⟩, hpage⟩
  · rw [hcollecting]
    exact h.collecting
  · intro m' p' s' hcur'
    by_cases hkey : (p', s') = (p, s)
    · rw [hkey, compressPage_page (h.allocated m p s hcur)]
      simp
    · rw [hothers _ hkey]
      exact h.allocated m' p' s' hcur'
  · rw [hdata]
    exact h.buffer
  · intro p' s' hdec hclosed
    by_cases hkey : (p', s') = (p, s)
    · cases hkey
      exact hpage hdec
    · rw [decompressPage_congr (hothers _ hkey)]
      exact h.stored p' s' hdec hclosed

theorem Tracks.setUpdate (h : Tracks c events) (m : Nat) : Tracks (c.setUpdate m) events := by
  have hcur := h.collecting m
  unfold Cache.setUpdate
  cases hc : c.collecting m with
  | none => exact h
  | some page =>
    obtain ⟨p, s⟩ := page
    simp only
    split
    · have hsave := (h.save (hcur.symm.trans hc)).1
      exact hsave.congr rfl rfl rfl
    · exact h

/-- After a header is noticed every page of its magazine is in the cache. -/
theorem Tracks.writeBack (h : Tracks c events) (m : Nat) :
    Tracks (c.writeBack m) events ∧ ∀ p s, isDec p → p / 256 = m →
      ((c.writeBack m).decompressPage p s).bytes = picture p s events := by
  have hcur := h.collecting m
  have hclosed : ∀ p s, p / 256 = m → c.collecting m ≠ some (p, s) → Closed p s events := by
    intro p s hm hne
    rw [hcur, ← hm] at hne
    exact closed_of_not_current hne
  unfold Cache.writeBack
  cases hc : c.collecting m with
  | none =>
    refine ⟨h, ?_⟩
    intro p s hdec hm
    exact h.stored p s hdec (hclosed p s hm (by simp [hc]))
  | some page =>
    obtain ⟨p, s⟩ := page
    obtain ⟨hsave, hpage⟩ := h.save (hcur.symm.trans hc)
    refine ⟨hsave, ?_⟩
    intro p' s' hdec hm
    by_cases hkey : (p', s') = (p, s)
    · cases hkey
      exact hpage hdec
    · refine hsave.stored p' s' hdec (hclosed p' s' hm ?_)
      rw [hc]
      intro heq
      exact hkey (Option.some.inj heq).symm

/-! ## Every event -/

theorem picture_congr {newer : List Event}
    (h : ∀ n, received p s n newer = received p s n events) :
    picture p s newer = picture p s events := by
  simp only [picture, h]

theorem picture_blank (h : ∀ n, received p s n events = none) :
    picture p s events = PageData.blank.bytes := by
  simp only [picture, h, Option.getD_none]
  exact rows_replicate 23 40 0x20

section
variable (hr : r.meaning = .header m names erases)
include hr

theorem current_header (m' : Nat) :
    current m' (.row r :: events) = if m' = m then names else current m' events := by
  simp only [current, hr, eq_comm]

theorem closed_header (h : Closed p s (.row r :: events)) : p / 256 = m ∨ Closed p s events := by
  simp only [Closed, hr] at h
  exact h.imp Eq.symm id

/-- A header changes the picture of the page it names, if it erases it. -/
theorem picture_header (h : names ≠ some (p, s) ∨ erases = false) :
    picture p s (.row r :: events) = picture p s events := by
  refine picture_congr ?_
  intro n
  have hkept : ¬(names = some (p, s) ∧ erases = true) := by
    rintro ⟨hnames, herases⟩
    rcases h with h | h
    · exact h hnames
    · simp [h] at herases
  simp only [received, hr, hkept, if_false]

theorem picture_erased (hnames : names = some (p, s)) (herases : erases = true) :
    picture p s (.row r :: events) = PageData.blank.bytes := by
  refine picture_blank ?_
  intro n
  simp [received, hr, hnames, herases]

end

/-- What Tracks says of a page that the header does not name. -/
theorem Tracks.dropped (h : Tracks c events) (hr : r.meaning = .header m none erases)
    (hstored : ∀ p s, isDec p → p / 256 = m →
      (c.decompressPage p s).bytes = picture p s events)
    (hdrop : Dropped c c' m) : Tracks c' (.row r :: events) := by
  have hpicture : ∀ p s, picture p s (.row r :: events) = picture p s events :=
    fun p s => picture_header hr (Or.inl (by simp))
  have hcur : ∀ m' p s, current m' (.row r :: events) = some (p, s) →
      current m' events = some (p, s) := by
    intro m' p s hcur
    rw [current_header hr] at hcur
    split at hcur
    · cases hcur
    · exact hcur
  refine ⟨?_, ?_, ?_, ?_⟩
  · intro m'
    rw [hdrop.collecting, current_header hr, h.collecting]
  · intro m' p s hcur'
    rw [hdrop.pages]
    exact h.allocated m' p s (hcur m' p s hcur')
  · intro m' p s hcur' hdec
    rw [hdrop.pagedata, hpicture]
    exact h.buffer m' p s (hcur m' p s hcur') hdec
  · intro p s hdec hclosed
    rw [decompressPage_congr (congrFun hdrop.pages (p, s)), hpicture]
    rcases closed_header hr hclosed with hm | hclosed
    · exact hstored p s hdec hm
    · exact h.stored p s hdec hclosed

theorem Tracks.opened (h : Tracks c events) (hr : r.meaning = .header m (some (p, s)) erases)
    (hstored : ∀ p s, isDec p → p / 256 = m →
      (c.decompressPage p s).bytes = picture p s events)
    (hopen : Opened c c' r m p s) : Tracks c' (.row r :: events) := by
  obtain ⟨rfl, hnames, rfl⟩ := meaning_header hr
  have hmag : p / 256 = r.magazine := Row.names_magazine hnames.symm
  obtain ⟨pg, hpg, hdata⟩ := hopen.page
  have hopening : isDec p → (opening c r p s).bytes = picture p s (.row r :: events) := by
    intro hdec
    cases herases : r.erases with
    | true => rw [opening, if_pos herases, picture_erased hr rfl herases]
    | false =>
      rw [opening, if_neg (by simp [herases]), picture_header hr (Or.inr herases)]
      exact hstored p s hdec hmag
  have hother : ∀ p' s', (p', s') ≠ (p, s) →
      picture p' s' (.row r :: events) = picture p' s' events := by
    intro p' s' hne
    refine picture_header hr (Or.inl ?_)
    intro heq
    exact hne (Option.some.inj heq).symm
  -- the pages the other magazines transmit are not this one
  have hcur : ∀ m' p' s', m' ≠ r.magazine → current m' events = some (p', s') →
      (p', s') ≠ (p, s) := by
    intro m' p' s' hm hcur hkey
    cases hkey
    rw [current_magazine hcur] at hmag
    exact hm hmag
  refine ⟨?_, ?_, ?_, ?_⟩
  · intro m'
    rw [hopen.collecting, current_header hr, h.collecting]
  · intro m' p' s' hcur'
    rw [current_header hr] at hcur'
    split at hcur'
    · cases hcur'
      simp [hpg]
    · rename_i hm
      rw [hopen.others _ (hcur m' p' s' hm hcur')]
      exact h.allocated m' p' s' hcur'
  · intro m' p' s' hcur' hdec
    rw [current_header hr] at hcur'
    rw [hopen.pagedata]
    split at hcur'
    · rename_i hm
      cases hcur'
      rw [hm, Function.update_self]
      exact hopening hdec
    · rename_i hm
      rw [Function.update_of_ne hm, hother _ _ (hcur m' p' s' hm hcur')]
      exact h.buffer m' p' s' hcur' hdec
  · intro p' s' hdec hclosed
    by_cases hkey : (p', s') = (p, s)
    · cases hkey
      rw [Cache.decompressPage, hpg]
      simp only [hdata]
      exact hopening hdec
    · rw [decompressPage_congr (hopen.others _ hkey), hother _ _ hkey]
      rcases closed_header hr hclosed with hm | hclosed
      · exact hstored p' s' hdec hm
      · exact h.stored p' s' hdec hclosed

theorem Tracks.header (h : Tracks c events) (hr : r.meaning = .header m names erases) :
    Tracks (c.receiveRow r) (.row r :: events) := by
  obtain ⟨hback, hstored⟩ := h.writeBack m
  rw [receiveRow_header hr]
  obtain ⟨rfl, rfl, rfl⟩ := meaning_header hr
  cases hnames : r.names with
  | none =>
    rw [hnames] at hr
    exact hback.dropped hr hstored (header_nameless hnames)
  | some page =>
    obtain ⟨p, s⟩ := page
    rw [hnames] at hr
    obtain ⟨heq, hham⟩ := @header_named r p s (c.writeBack r.magazine) hnames
    obtain ⟨c', hopen, hc'⟩ := @openPage_opened r r.magazine p s (c.writeBack r.magazine) hham
    have htracks := hback.opened hr hstored hopen
    rw [heq]
    rcases hc' with hc' | hc'
    · rw [hc']
      exact htracks
    · rw [hc']
      exact htracks.setUpdate r.magazine

section
variable (hr : r.meaning = .text m n)
include hr

theorem current_text (m' : Nat) : current m' (.row r :: events) = current m' events := by
  simp only [current, hr]

theorem closed_text (h : Closed p s (.row r :: events)) :
    current m events ≠ some (p, s) ∧ Closed p s events := by
  simpa only [Closed, hr] using h

theorem picture_other (h : current m events ≠ some (p, s)) :
    picture p s (.row r :: events) = picture p s events := by
  refine picture_congr ?_
  intro k
  simp [received, hr, h]

/-- A row of the page in transmission takes its place in the picture. -/
theorem picture_text (h : current m events = some (p, s)) :
    picture p s (.row r :: events) =
      splice (picture p s events) ((n - 1) * 40) r.characters := by
  obtain ⟨-, -, hlow, hhigh⟩ := meaning_text hr
  have hrow : (fun i => (received p s (i + 1) (.row r :: events)).getD blankRow) =
      Function.update (fun i => (received p s (i + 1) events).getD blankRow) (n - 1)
        r.characters := by
    funext i
    by_cases hi : i = n - 1
    · have hn : n = i + 1 := by omega
      subst hi
      simp only [received, hr, h, ← hn, and_self, if_true, Function.update_self, Option.getD_some]
    · have hn : ¬n = i + 1 := by omega
      simp only [received, hr, hn, false_and, if_false, Function.update_of_ne hi]
  rw [picture, hrow, picture]
  exact (splice_rows (fun i => picture_rows_length (i + 1)) r.characters_length (by omega)).symm

end

theorem content_decimal (h : isDec p = true) (r : Row) : Cache.content p r = r.characters := by
  simp only [Cache.content, h, if_true, Row.characters]

/-- A row of the page in transmission changes the buffer of its magazine. -/
theorem Tracks.storeRow (h : Tracks c events) (hr : r.meaning = .text m n)
    (hcur : current m events = some (p, s)) :
    Tracks (c.storeRow m p n r) (.row r :: events) := by
  obtain ⟨-, -, hlow, hhigh⟩ := meaning_text hr
  have hn : n - 1 < 23 := by omega
  let data := (c.pagedata m).store (n - 1) (Cache.content p r) hn (Cache.content_length p r)
  have hstore : c.storeRow m p n r =
      { c with pagedata := Function.update c.pagedata m data } := dif_pos hn
  rw [hstore]
  refine ⟨?_, ?_, ?_, ?_⟩
  · intro m'
    rw [current_text hr]
    exact h.collecting m'
  · intro m' p' s' hcur'
    rw [current_text hr] at hcur'
    exact h.allocated m' p' s' hcur'
  · intro m' p' s' hcur' hdec
    rw [current_text hr] at hcur'
    show (Function.update c.pagedata m data m').bytes = _
    by_cases hm : m' = m
    · rw [hm, hcur] at hcur'
      cases hcur'
      rw [hm, Function.update_self, picture_text hr hcur, ← h.buffer m p s hcur hdec,
        ← content_decimal hdec r]
      rfl
    · have hne : current m events ≠ some (p', s') := by
        intro heq
        exact hm ((current_magazine hcur').symm.trans (current_magazine heq))
      rw [Function.update_of_ne hm, picture_other hr hne]
      exact h.buffer m' p' s' hcur' hdec
  · intro p' s' hdec hclosed
    obtain ⟨hne, hclosed⟩ := closed_text hr hclosed
    rw [picture_other hr hne]
    exact h.stored p' s' hdec hclosed

/-- Packets that no page is open for are stored nowhere. -/
theorem receiveRow_unclaimed (hpacket : r.packetNumber ≠ 0)
    (h : c.collecting r.magazine = none) : c.receiveRow r = c := by
  have hupdate : c.setUpdate r.magazine = c := by simp only [Cache.setUpdate, h]
  by_cases hr : r.meaning = .damaged
  · exact receiveRow_damaged hr
  · rw [receiveRow_sound hr, if_neg hpacket]
    simp only [h, hupdate, ite_self]

/-- An event that says nothing about a page. -/
theorem Tracks.silent {e : Event} (h : Tracks c events)
    (hcur : ∀ m, current m (e :: events) = current m events)
    (hrec : ∀ p s n, received p s n (e :: events) = received p s n events)
    (hclosed : ∀ p s, Closed p s (e :: events) → Closed p s events) :
    Tracks c (e :: events) := by
  have hpicture : ∀ p s, picture p s (e :: events) = picture p s events :=
    fun p s => picture_congr (hrec p s)
  refine ⟨?_, ?_, ?_, ?_⟩
  · intro m
    rw [hcur]
    exact h.collecting m
  · intro m p s
    rw [hcur]
    exact h.allocated m p s
  · intro m p s
    rw [hcur, hpicture]
    exact h.buffer m p s
  · intro p s hdec hc
    rw [hpicture]
    exact h.stored p s hdec (hclosed p s hc)

/-- Every event keeps this. -/
theorem Tracks.step (h : Tracks c events) (e : Event) : Tracks (c.step e) (e :: events) := by
  cases e with
  | display page subpage manual =>
    have hsilent : Tracks c (.display page subpage manual :: events) :=
      h.silent (fun _ => rfl) (fun _ _ _ => rfl) (fun _ _ => id)
    exact hsilent.congr rfl rfl rfl
  | row r =>
    show Tracks (c.receiveRow r) (.row r :: events)
    cases hr : r.meaning with
    | header m names erases => exact h.header hr
    | text m n =>
      cases hc : c.collecting m with
      | none =>
        have hcur : current m events = none := by rw [← h.collecting, hc]
        obtain ⟨rfl, rfl, hlow, -⟩ := meaning_text hr
        rw [receiveRow_unclaimed (by omega) hc]
        refine h.silent (current_text hr) ?_ (fun p s hclosed => (closed_text hr hclosed).2)
        intro p s k
        simp [received, hr, hcur]
      | some page =>
        obtain ⟨p, s⟩ := page
        have hcur : current m events = some (p, s) := by rw [← h.collecting, hc]
        rw [receiveRow_text hr]
        simp only [hc]
        exact (h.storeRow hr hcur).setUpdate m
    | damaged =>
      rw [receiveRow_damaged hr]
      exact h.silent (by simp [current, hr]) (by simp [received, hr]) (by simp [Closed, hr])
    | other m =>
      have hsilent : Tracks c (.row r :: events) :=
        h.silent (by simp [current, hr]) (by simp [received, hr]) (by simp [Closed, hr])
      rcases receiveRow_other hr with heq | heq
      · rw [heq]
        exact hsilent
      · rw [heq]
        exact hsilent.setUpdate m

theorem tracks_cleared (pagedata : Nat → PageData) : Tracks (Cache.cleared pagedata) [] := by
  refine ⟨fun _ => rfl, ?_, ?_, ?_⟩
  · intro m p s hcur
    cases hcur
  · intro m p s hcur
    cases hcur
  · intro p s _ _
    exact (picture_blank (fun _ => rfl)).symm

theorem tracks_after (pagedata : Nat → PageData) (events : List Event) :
    Tracks ((Cache.cleared pagedata).after events) events := by
  induction events with
  | nil => exact tracks_cleared pagedata
  | cons e older ih => exact ih.step e

end

/-- The cache is the fold of the rows: a closed decimal page is what was received
of it since it was erased; packets after a header without a page go nowhere; a
compressed buffer is given back. -/
theorem cache_is_fold (pagedata : Nat → PageData) (events : List Event) :
    (∀ p s, isDec p → Closed p s events →
      (((Cache.cleared pagedata).after events).decompressPage p s).bytes =
        rows 23 fun n => (received p s (n + 1) events).getD blankRow) ∧
    (∀ r : Row, current r.magazine events = none → r.packetNumber ≠ 0 →
      ((Cache.cleared pagedata).after events).receiveRow r =
        (Cache.cleared pagedata).after events) ∧
    ∀ (c : Cache) (p s : Nat) (buffer : PageData), c.astCachetable (p, s) ≠ none →
      (c.compressPage p s buffer).decompressPage p s = buffer := by
  have htracks := tracks_after pagedata events
  refine ⟨htracks.stored, ?_, ?_⟩
  · intro r hcur hpacket
    exact receiveRow_unclaimed hpacket ((htracks.collecting r.magazine).trans hcur)
  · intro c p s buffer h
    exact decompressPage_compressPage h

/-- A row of a line from its first bytes on, filled with the character A. -/
def rowOf (start : List Byte) (h : start.length ≤ 42) : Row where
  bytes := start ++ List.replicate (42 - start.length) 0x82
  length_eq := by
    rw [List.length_append, List.length_replicate]
    omega

/-- The header of page 100 with C4, row 1, a header whose page number is not
correct and row 1 again, the latest first. -/
def pageAndError : List Event :=
  [.row (rowOf [0xE3, 0xA8] (by decide)),
   .row (rowOf [0x40, 0xA8, 0x80, 0xA8] (by decide)),
   .row (rowOf [0xE3, 0xA8] (by decide)),
   .row (rowOf [0x40, 0xA8, 0xA8, 0xA8, 0xA8, 0x0B, 0xA8, 0xA8, 0xA8, 0xA8] (by decide))]

theorem cache_is_fold_page_and_error :
    Closed 0x100 0 pageAndError ∧
      (((Cache.cleared fun _ => PageData.blank).after pageAndError).decompressPage 0x100 0).bytes =
        List.replicate 40 0x41 ++ List.replicate 880 0x20 := by
  have htext : (rowOf [0xE3, 0xA8] (by decide)).meaning = .text 1 1 := by rfl
  have herror : (rowOf [0x40, 0xA8, 0x80, 0xA8] (by decide)).meaning = .header 1 none false := by
    rfl
  have hheader : (rowOf [0x40, 0xA8, 0xA8, 0xA8, 0xA8, 0x0B, 0xA8, 0xA8, 0xA8, 0xA8]
      (by decide)).meaning = .header 1 (some (0x100, 0)) true := by rfl
  have hclosed : Closed 0x100 0 pageAndError := by
    simp [pageAndError, Closed, current, htext, herror]
  refine ⟨hclosed, ?_⟩
  rw [(cache_is_fold _ pageAndError).1 0x100 0 (by decide) hclosed]
  have hrows : ∀ n, received 0x100 0 (n + 1) pageAndError =
      if n = 0 then some (List.replicate 40 0x41) else none := by
    intro n
    have hchars : (rowOf [0xE3, 0xA8] (by decide)).characters = List.replicate 40 0x41 := by rfl
    by_cases hn : n = 0
    · simp [pageAndError, received, current, htext, herror, hheader, hchars, hn]
    · simp [pageAndError, received, current, htext, herror, hheader, hn]
  simp only [hrows]
  rw [rows_split (show 0 < 23 by decide)]
  have hrest : ∀ i, (if 0 + 1 + i = 0 then some (List.replicate 40 (0x41 : Byte)) else none).getD
      blankRow = List.replicate 40 0x20 := fun i => by simp [blankRow]
  simp only [hrest, rows_replicate]
  rfl

end Tuxbox.Tuxtxt
