import Tuxbox.Avia.SectionCallback

/-!
# Sections from the stream to the filters
-/

namespace Tuxbox.Avia

open QueueData

/-! ## Arrival -/

/-- Bytes come in and are announced by an interrupt. -/
def arrive (size : Nat) (q : QueueData) (bytes : Str) : QueueData := (q.hwWrite size bytes).irq.bhTask

/-- The driver has seen all that came in. -/
structure Ready (size : Nat) (q : QueueData) : Prop where
  placed : Placed size q
  hwWritePos : q.hwWritePos = q.writePos
  register : q.register = q.writePos
  quiet : q.overflowCount = 0

section
variable {size n : Nat} {q : QueueData} {bytes : Str}

theorem Ready.advance (h : Ready size q) (n : Nat) : Ready size (q.advance size n) :=
  ⟨h.placed.advance n, h.hwWritePos, h.register, h.quiet⟩

/-- What is pushed is behind what was there. -/
theorem around_push {mem : Nat → Byte} {pos : Nat} (h : n + bytes.length ≤ size) :
    Ring.around size (Ring.push size mem ((pos + n) % size) bytes) pos (n + bytes.length) =
      Ring.around size mem pos n ++ bytes := by
  induction bytes generalizing mem n with
  | nil => exact (List.append_nil _).symm
  | cons b bytes ih =>
    rw [List.length_cons] at h
    have hlen : n + (b :: bytes).length = n + 1 + bytes.length := by
      rw [List.length_cons]
      omega
    have hkeep : Ring.around size (Function.update mem ((pos + n) % size) b) pos n =
        Ring.around size mem pos n := by
      apply List.map_congr_left
      intro i hi
      have hlt := List.mem_range.mp hi
      exact Function.update_of_ne (Ring.mod_ne_of_lt (by omega) (by omega)) _ _
    have hnew : Ring.around size (Function.update mem ((pos + n) % size) b)
        ((pos + n) % size) 1 = [b] := by
      simp [Ring.around, List.range_succ]
    have hnext : ((pos + n) % size + 1) % size = (pos + (n + 1)) % size := by
      rw [Nat.mod_add_mod, Nat.add_assoc]
    rw [Ring.push, hnext, hlen, ih (by omega), Ring.around_add, hkeep, hnew, List.append_assoc]
    rfl

theorem readPos_avail (h : Placed size q) :
    (q.readPos + q.getBytesAvail size) % size = q.writePos := by
  have hread := h.read
  have hwrite := h.write
  have hlt := h.avail_lt
  rw [Ring.add_mod_cases h.read (by omega)]
  unfold getBytesAvail getBuf1Size getBuf2Size
  split_ifs <;> omega

theorem avail_of_writePos {m : Nat} (h : Placed size q) (hm : m < size)
    (hpos : (q.readPos + m) % size = q.writePos) : q.getBytesAvail size = m := by
  have hread := h.read
  have hwrite := h.write
  rw [Ring.add_mod_cases h.read (by omega)] at hpos
  unfold getBytesAvail getBuf1Size getBuf2Size
  split at hpos
  · split_ifs <;> omega
  · split_ifs <;> omega

theorem arrive_eq (h : Ready size q) (hfits : q.getBytesAvail size + bytes.length < size) :
    arrive size q bytes =
      { q with
        mem := Ring.push size q.mem q.writePos bytes
        register := (q.writePos + bytes.length) % size
        hwWritePos := (q.writePos + bytes.length) % size
        writePos := (q.writePos + bytes.length) % size } := by
  have hwrite := readPos_avail h.placed
  have hreg : (q.writePos + bytes.length) % size =
      (q.readPos + (q.getBytesAvail size + bytes.length)) % size := by
    rw [← hwrite, Nat.mod_add_mod, Nat.add_assoc]
  have hquiet : ¬ overflows q.readPos q.writePos ((q.writePos + bytes.length) % size) = true := by
    have hiff := @overflows_iff size q.readPos (q.getBytesAvail size) bytes.length h.placed.read
      (by omega) (by omega)
    rw [hwrite, ← hreg] at hiff
    rw [hiff]
    omega
  have hcount : (q.hwWrite size bytes).irq.overflowCount = 0 := by
    unfold hwWrite irq
    simp only [h.register, h.hwWritePos, hquiet, h.quiet]
    rfl
  unfold arrive bhTask
  rw [if_neg (not_not.mpr hcount)]
  unfold irq hwWrite
  simp only [h.register, h.hwWritePos, hquiet]
  rfl

/-- Without an overflow what comes in is behind what has not been read. -/
theorem arrive_spec (h : Ready size q) (hfits : q.getBytesAvail size + bytes.length < size) :
    Ready size (arrive size q bytes) ∧
      (arrive size q bytes).unread size = q.unread size ++ bytes := by
  have hwrite := readPos_avail h.placed
  have hpos : 0 < size := Nat.zero_lt_of_lt h.placed.read
  have hready : Ready size (arrive size q bytes) := by
    rw [arrive_eq h hfits]
    exact ⟨⟨h.placed.read, Nat.mod_lt _ hpos⟩, rfl, rfl, h.quiet⟩
  have hend : ((arrive size q bytes).readPos + (q.getBytesAvail size + bytes.length)) % size =
      (arrive size q bytes).writePos := by
    rw [arrive_eq h hfits]
    dsimp only
    rw [← Nat.add_assoc, ← Nat.mod_add_mod, hwrite]
  have havail := avail_of_writePos hready.placed hfits hend
  refine ⟨hready, ?_⟩
  unfold unread
  rw [havail, arrive_eq h hfits]
  dsimp only
  rw [← hwrite]
  exact around_push (Nat.le_of_lt hfits)

end

/-! ## Streams of sections -/

/-- A section, with its length in its head. -/
structure IsSection (sec : Str) : Prop where
  length : sectionLength (sec.take 3) = sec.length
  le : sec.length ≤ 4096
  head : sec.head? ≠ some 0xFF

inductive Item
  | stuffing
  | sec (s : Str)

namespace Item

def bytes : Item → Str
  | stuffing => [0xFF]
  | sec s => s

def Fine : Item → Prop
  | stuffing => True
  | sec s => IsSection s

end Item

def streamOf (items : List Item) : Str := items.flatMap Item.bytes

/-- The sections that are complete in the first `n` bytes. -/
def completeIn : List Item → (n : Nat) → List Str
  | [], _ => []
  | .stuffing :: items, n => completeIn items (n - 1)
  | .sec s :: items, n => if s.length ≤ n then s :: completeIn items (n - s.length) else []

def getsSection (f : DmxSectionFilter) (s : Str) : Bool :=
  matchesFilter f s (min s.length DVB_DEMUX_MASK_MAX)

/-- Each of these sections to each of the filters that want it. -/
def handedTo (wanted : DmxSectionFilter → Str → Bool)
    (filters : List DmxSectionFilter) (secs : List Str) : List (DmxSectionFilter × Str) :=
  secs.flatMap fun s => (filters.filter (wanted · s)).map (·, s)

theorem handedTo_cons (wanted : DmxSectionFilter → Str → Bool) (filters : List DmxSectionFilter)
    (s : Str) (secs : List Str) : handedTo wanted filters (s :: secs) =
      (filters.filter (wanted · s)).map (·, s) ++ handedTo wanted filters secs :=
  List.flatMap_cons

def Delivery.handed (d : Delivery) : DmxSectionFilter × Str := (d.filter, d.first ++ d.second)

section
variable {items : List Item} {s more : Str} {size n : Nat} {q : QueueData}
  {filter : DmxSectionFilter} {next : List DmxSectionFilter}

theorem IsSection.three_le (h : IsSection s) : 3 ≤ s.length := by
  rw [← h.length]
  exact Nat.le_add_left 3 _

theorem completeIn_short (h : ∀ x ∈ items, x.Fine) (hn : n < 3) : completeIn items n = [] := by
  induction items generalizing n with
  | nil => rfl
  | cons x items ih =>
    obtain ⟨hx, hitems⟩ := List.forall_mem_cons.mp h
    cases x with
    | stuffing => exact ih hitems (by omega)
    | sec s =>
      have := IsSection.three_le hx
      exact if_neg (by omega)

theorem matchesFilter_take (f : DmxSectionFilter) (s : Str) (n : Nat) :
    matchesFilter f (s.take n) n = matchesFilter f s n := by
  unfold matchesFilter
  rw [compareLoop_take (Nat.le_of_eq (Nat.zero_add n))]

/-- The buffers hold the section, whichever way it is handed over. -/
theorem deliver_handed (h : Placed size q) (hs : (q.unread size).take s.length = s)
    (hle : s.length ≤ q.getBytesAvail size) {copied : Bool} {got : Str}
    (hgot : copied = true → got = s) (f : DmxSectionFilter) :
    (deliver size q copied got s.length f).handed = (f, s) := by
  unfold deliver Delivery.handed
  split
  · rename_i hcopied
    rw [hgot hcopied, List.append_nil]
  · split
    · rename_i hpiece
      rw [slice_take h hpiece, hs, List.append_nil]
    · rename_i hwraps
      have hrest : s.length - q.getBuf1Size size ≤ q.getBuf2Size := by
        unfold getBytesAvail at hle
        omega
      have hsum : q.getBuf1Size size + (s.length - q.getBuf1Size size) = s.length := by omega
      rw [buffers_take h hrest, hsum, hs]

/-- A section that is there goes to the filters that want it, complete, and is read. -/
theorem handleSection_spec (h : Placed size q) (hs : (q.unread size).take s.length = s) :
    (handleSection size filter next s.length q).1.map Delivery.handed =
      ((filter :: next).filter (getsSection · s)).map (·, s) ∧
    (handleSection size filter next s.length q).2 = q.advance size s.length := by
  have hle : s.length ≤ q.getBytesAvail size := by
    have hlen := congrArg List.length hs
    rw [List.length_take, unread_length] at hlen
    omega
  have hcompared : (q.unread size).take (min s.length DVB_DEMUX_MASK_MAX) =
      s.take (min s.length DVB_DEMUX_MASK_MAX) := by
    have hmin : min (min s.length DVB_DEMUX_MASK_MAX) s.length =
        min s.length DVB_DEMUX_MASK_MAX := by omega
    calc (q.unread size).take (min s.length DVB_DEMUX_MASK_MAX)
      _ = ((q.unread size).take s.length).take (min s.length DVB_DEMUX_MASK_MAX) := by
        rw [List.take_take, hmin]
      _ = s.take (min s.length DVB_DEMUX_MASK_MAX) := by rw [hs]
  unfold handleSection
  cases hcopied : isCopied next s.length with
  | true =>
    have hgot : (q.dataGet size s.length false).1 = s := by rw [dataGet_take h, hs]
    simp only [if_true]
    rw [hgot, dataGet_advance h hle, List.map_map]
    refine ⟨List.map_congr_left fun f _ => ?_, rfl⟩
    exact deliver_handed h hs hle (fun _ => rfl) f
  | false =>
    simp only [Bool.false_eq_true, if_false]
    rw [dataGet_peek h, dataGet_advance h hle, dataGet_take h, hcompared, List.map_map]
    simp only [matchesFilter_take]
    refine ⟨List.map_congr_left fun f _ => ?_, trivial⟩
    exact deliver_handed h hs hle (fun hno : false = true => absurd hno (by decide)) f

/-- Before the padding is removed and after it the same sections are there. -/
theorem removePadding_spec (h : Placed size q) (hitems : ∀ x ∈ items, x.Fine)
    (hn : q.getBytesAvail size = n) (hstream : q.unread size ++ more = streamOf items) :
    ∃ j rest, j ≤ n ∧ removePadding size n q = (n - j, q.advance size j) ∧
      (∀ x ∈ rest, Item.Fine x) ∧ (q.unread size).drop j ++ more = streamOf rest ∧
      (∀ m, completeIn items (n + m) = completeIn rest (n - j + m)) ∧
      (n - j ≠ 0 → ∃ s items', rest = .sec s :: items') := by
  induction n generalizing q items with
  | zero =>
    exact ⟨0, items, Nat.le_refl 0, by rw [advance_zero h]; rfl, hitems, hstream, fun _ => rfl,
      fun hne => absurd rfl hne⟩
  | succ n ih =>
    have hlen : (q.unread size).length = n + 1 := unread_length.trans hn
    obtain ⟨b, bs, hbs⟩ : ∃ b bs, q.unread size = b :: bs := by
      cases hu : q.unread size with
      | nil =>
        rw [hu] at hlen
        cases hlen
      | cons b bs => exact ⟨b, bs, rfl⟩
    have hpeek : (q.dataGet size 1 true).1 = [b] := by
      rw [dataGet_take h, hbs]
      rfl
    rw [hbs] at hstream
    cases items with
    | nil => cases hstream
    | cons x items =>
      obtain ⟨hx, hrest⟩ := List.forall_mem_cons.mp hitems
      cases x with
      | stuffing =>
        obtain ⟨rfl, htail⟩ := List.cons.inj hstream
        have hnext : (q.advance size 1).unread size = bs := by
          rw [unread_advance h (by omega), hbs]
          rfl
        have havail : (q.advance size 1).getBytesAvail size = n := by
          rw [getBytesAvail_advance h (by omega), hn]
          rfl
        obtain ⟨j, rest, hj, hremove, hfine, hdrop, hcomplete, hsec⟩ :=
          ih (h.advance 1) hrest havail (hnext ▸ htail)
        have hcount : n + 1 - (j + 1) = n - j := by omega
        refine ⟨j + 1, rest, by omega, ?_, hfine, ?_, ?_, ?_⟩
        · unfold removePadding
          rw [hpeek, if_pos rfl, dataGet_advance h (by omega), hremove, advance_advance,
            Nat.add_comm 1 j, hcount]
        · rw [hnext] at hdrop
          rw [hbs]
          exact hdrop
        · intro m
          rw [hcount, ← hcomplete m]
          have hless : n + 1 + m - 1 = n + m := by omega
          rw [completeIn, hless]
        · rw [hcount]
          exact hsec
      | sec s =>
        refine ⟨0, .sec s :: items, Nat.zero_le _, ?_, hitems, ?_, fun _ => rfl,
          fun _ => ⟨s, items, rfl⟩⟩
        · have hne : b ≠ 0xFF := by
            rintro rfl
            apply IsSection.head hx
            have hthree := IsSection.three_le hx
            cases s with
            | nil => exact absurd hthree (by decide)
            | cons a as =>
              obtain ⟨rfl, -⟩ := List.cons.inj hstream
              rfl
          unfold removePadding
          rw [hpeek, if_neg (by simpa using hne), advance_zero h]
          rfl
        · rw [hbs]
          exact hstream

theorem front_of_append {a more s rest : Str} (h : a ++ more = s ++ rest)
    (hle : s.length ≤ a.length) :
    a.take s.length = s ∧ a.drop s.length ++ more = rest := by
  rw [← List.take_append_drop s.length a, List.append_assoc] at h
  apply List.append_inj h
  rw [List.length_take, Nat.min_eq_left hle]

/-- The length is in the part of the section that is there. -/
theorem sectionLength_take (h : IsSection s) (hstream : q.unread size ++ more = s ++ streamOf items)
    (hthree : 3 ≤ q.getBytesAvail size) : sectionLength ((q.unread size).take 3) = s.length := by
  have hsame : (q.unread size).take 3 = s.take 3 := by
    have htake := congrArg (List.take 3) hstream
    have hs := h.three_le
    rwa [List.take_append_of_le_length (by rwa [unread_length]),
      List.take_append_of_le_length hs] at htake
  rw [hsame]
  exact h.length

/-- The sections that are complete are handed over, and what is left is left. -/
theorem sectionLoop_spec {fuel : Nat} (hfuel : n < fuel) (h : Placed size q)
    (hitems : ∀ x ∈ items, x.Fine) (hn : q.getBytesAvail size = n)
    (hstream : q.unread size ++ more = streamOf items) :
    (sectionLoop size filter next fuel n q).1.map Delivery.handed =
      handedTo getsSection
        (filter :: next) (completeIn items n) ∧
    ∃ j rest, j ≤ n ∧ (sectionLoop size filter next fuel n q).2 = q.advance size j ∧
      (∀ x ∈ rest, Item.Fine x) ∧ (q.unread size).drop j ++ more = streamOf rest ∧
      ∀ m, completeIn items (n + m) = completeIn items n ++ completeIn rest (n - j + m) := by
  induction fuel generalizing q items n with
  | zero => exact absurd hfuel (Nat.not_lt_zero n)
  | succ fuel ih =>
    unfold sectionLoop
    by_cases hfew : n < 3
    · rw [if_pos hfew, completeIn_short hitems hfew]
      exact ⟨rfl, 0, items, Nat.zero_le n, (advance_zero h).symm, hitems, hstream, fun _ => rfl⟩
    · rw [if_neg hfew]
      obtain ⟨j, rest, hj, hremove, hfine, hdrop, hcomplete, hsec⟩ :=
        removePadding_spec h hitems hn hstream
      rw [hremove]
      dsimp only
      have hat := h.advance j
      have hunread := unread_advance h (by omega : j ≤ q.getBytesAvail size)
      have havail := getBytesAvail_advance h (by omega : j ≤ q.getBytesAvail size)
      rw [hn] at havail
      rw [← hunread] at hdrop
      have hfirst := hcomplete 0
      rw [Nat.add_zero, Nat.add_zero] at hfirst
      have hstays : completeIn rest (n - j) = [] →
          handedTo getsSection
              (filter :: next) (completeIn items n) = [] ∧
            ∀ m, completeIn items (n + m) = completeIn items n ++ completeIn rest (n - j + m) :=
        fun hnone => by
          rw [hfirst, hnone]
          exact ⟨rfl, fun m => hcomplete m⟩
      by_cases hless : n - j < 3
      · rw [if_pos hless]
        obtain ⟨hnone, hlater⟩ := hstays (completeIn_short hfine hless)
        exact ⟨hnone.symm, j, rest, hj, rfl, hfine, hunread ▸ hdrop, hlater⟩
      · rw [if_neg hless]
        obtain ⟨s, items', rfl⟩ := hsec (by omega)
        obtain ⟨hs, hitems'⟩ := List.forall_mem_cons.mp hfine
        have hlength : sectionLength (dataGet size (q.advance size j) 3 true).1 = s.length := by
          rw [dataGet_take hat]
          exact sectionLength_take hs hdrop (by omega)
        have hfits : ¬ s.length > 4096 := Nat.not_lt.mpr (IsSection.le hs)
        rw [hlength, if_neg hfits]
        by_cases hpart : s.length > n - j
        · rw [if_pos hpart]
          obtain ⟨hnone, hlater⟩ := hstays (if_neg (by omega))
          exact ⟨hnone.symm, j, _, hj, rfl, hfine, hunread ▸ hdrop, hlater⟩
        · rw [if_neg hpart]
          have hcons : streamOf (.sec s :: items') = s ++ streamOf items' := rfl
          rw [hcons] at hdrop
          have hthree := IsSection.three_le hs
          have hinside : s.length ≤ ((q.advance size j).unread size).length := by
            rw [unread_length, havail]
            omega
          obtain ⟨htake, hbehind⟩ := front_of_append hdrop hinside
          obtain ⟨hhanded, hread⟩ := @handleSection_spec s size _ filter next hat htake
          have hat' := hat.advance s.length
          have hunread' := unread_advance hat (by omega : s.length ≤ _)
          have havail' := getBytesAvail_advance hat (by omega : s.length ≤ _)
          rw [havail] at havail'
          rw [← hunread'] at hbehind
          rw [hread]
          obtain ⟨hrest, j', rest', hj', hafter, hfine', hdrop', hlater⟩ :=
            @ih items' (n - j - s.length) _ (by omega) hat' hitems' havail' hbehind
          have hcount : j + s.length + j' ≤ n := by omega
          refine ⟨?_, j + s.length + j', rest', hcount, ?_, hfine', ?_, fun m => ?_⟩
          · rw [List.map_append, hhanded, hrest, hfirst, completeIn, if_pos (by omega)]
            exact (handedTo_cons ..).symm
          · rw [hafter, advance_advance, advance_advance, Nat.add_assoc]
          · rw [← hdrop', hunread', hunread, List.drop_drop, List.drop_drop, Nat.add_assoc]
          · have hnow : completeIn (.sec s :: items') (n - j) =
                s :: completeIn items' (n - j - s.length) := if_pos (by omega)
            have hthen : completeIn (.sec s :: items') (n - j + m) =
                s :: completeIn items' (n - j - s.length + m) := by
              have hless : n - j + m - s.length = n - j - s.length + m := by omega
              rw [completeIn, if_pos (by omega), hless]
            have hleft : n - j - s.length - j' + m = n - (j + s.length + j') + m := by omega
            rw [hcomplete m, hfirst, hnow, hthen, hlater m, hleft]
            rfl

/-- One call hands over the sections that are complete. -/
theorem callbackSection_spec (h : Ready size q) (hitems : ∀ x ∈ items, x.Fine)
    (hstream : q.unread size ++ more = streamOf items) :
    (callbackSection size filter next q).1.map Delivery.handed =
      handedTo getsSection (filter :: next) (completeIn items (q.getBytesAvail size)) ∧
    Ready size (callbackSection size filter next q).2 ∧
    ∃ rest, (∀ x ∈ rest, Item.Fine x) ∧
      (callbackSection size filter next q).2.unread size ++ more = streamOf rest ∧
      ∀ m, completeIn items (q.getBytesAvail size + m) =
        completeIn items (q.getBytesAvail size) ++
          completeIn rest ((callbackSection size filter next q).2.getBytesAvail size + m) := by
  obtain ⟨hhanded, j, rest, hj, hafter, hfine, hdrop, hlater⟩ :=
    @sectionLoop_spec items more size _ q filter next _ (Nat.lt_succ_self _) h.placed hitems rfl
      hstream
  refine ⟨hhanded, ?_, rest, hfine, ?_, ?_⟩
  · unfold callbackSection
    rw [hafter]
    exact h.advance j
  · unfold callbackSection
    rw [hafter, unread_advance h.placed hj]
    exact hdrop
  · unfold callbackSection
    rw [hafter, getBytesAvail_advance h.placed hj]
    exact hlater

end

/-! ## Runs -/

section
variable (size : Nat) (filter : DmxSectionFilter) (next : List DmxSectionFilter)

/-- Pieces of the stream come in, and the callback runs behind each of them. -/
def receive : QueueData → List Str → List Delivery
  | _, [] => []
  | q, piece :: pieces =>
    let called := callbackSection size filter next (arrive size q piece)
    called.1 ++ receive called.2 pieces

/-- There is space for each piece when it comes in. -/
def Fits : QueueData → List Str → Prop
  | _, [] => True
  | q, piece :: pieces =>
    q.getBytesAvail size + piece.length < size ∧
      Fits (callbackSection size filter next (arrive size q piece)).2 pieces

end

section
variable {items : List Item} {more : Str} {size : Nat} {q : QueueData} {pieces : List Str}
  {filter : DmxSectionFilter} {next : List DmxSectionFilter}

theorem handedTo_append (wanted : DmxSectionFilter → Str → Bool) (filters : List DmxSectionFilter)
    (xs ys : List Str) : handedTo wanted filters (xs ++ ys) =
      handedTo wanted filters xs ++ handedTo wanted filters ys :=
  List.flatMap_append

/-- Whatever the pieces, what is handed over are the sections that have come in completely. -/
theorem receive_spec (h : Ready size q) (hfits : Fits size filter next q pieces)
    (hitems : ∀ x ∈ items, x.Fine) (hnone : completeIn items (q.getBytesAvail size) = [])
    (hstream : q.unread size ++ pieces.flatten ++ more = streamOf items) :
    (receive size filter next q pieces).map Delivery.handed =
      handedTo getsSection (filter :: next)
        (completeIn items (q.getBytesAvail size + pieces.flatten.length)) := by
  induction pieces generalizing q items with
  | nil =>
    change [] = handedTo getsSection (filter :: next) (completeIn items (q.getBytesAvail size))
    rw [hnone]
    rfl
  | cons piece pieces ih =>
    obtain ⟨hroom, hfits⟩ := hfits
    obtain ⟨hready, hunread⟩ := arrive_spec h hroom
    have havail : (arrive size q piece).getBytesAvail size = q.getBytesAvail size + piece.length := by
      rw [← unread_length, hunread, List.length_append, unread_length]
    have harrived : (arrive size q piece).unread size ++ (pieces.flatten ++ more) =
        streamOf items := by
      rw [hunread, ← hstream, List.flatten_cons]
      simp only [List.append_assoc]
    obtain ⟨hhanded, hready', rest, hfine, hstream', hlater⟩ :=
      @callbackSection_spec items _ size _ filter next hready hitems harrived
    have hnone' := List.self_eq_append_right.mp (hlater 0)
    have hrest := ih hready' hfits hfine hnone' (by rw [List.append_assoc]; exact hstream')
    have htotal : q.getBytesAvail size + (piece :: pieces).flatten.length =
        (arrive size q piece).getBytesAvail size + pieces.flatten.length := by
      rw [havail, List.flatten_cons, List.length_append, Nat.add_assoc]
    rw [htotal, hlater, handedTo_append, ← hhanded, ← hrest]
    exact List.map_append

theorem mem_handedTo {wanted : DmxSectionFilter → Str → Bool} {filters : List DmxSectionFilter}
    {secs : List Str} {f : DmxSectionFilter} {s : Str} : (f, s) ∈ handedTo wanted filters secs ↔
      s ∈ secs ∧ f ∈ filters ∧ wanted f s = true := by
  unfold handedTo
  simp only [List.mem_flatMap, List.mem_map, List.mem_filter, Prod.mk.injEq]
  constructor
  · rintro ⟨s', hs, f', hf, rfl, rfl⟩
    exact ⟨hs, hf⟩
  · rintro ⟨hs, hf⟩
    exact ⟨s, hs, f, hf, rfl, rfl⟩

/-- The same goes to the same filters if and only if these filters want the same sections. -/
theorem handedTo_eq_iff {wanted wanted' : DmxSectionFilter → Str → Bool}
    {filters : List DmxSectionFilter} {secs : List Str} :
    handedTo wanted filters secs = handedTo wanted' filters secs ↔
      ∀ s ∈ secs, ∀ f ∈ filters, wanted f s = wanted' f s := by
  constructor
  · intro heq s hs f hf
    have hmem : (f, s) ∈ handedTo wanted filters secs ↔ (f, s) ∈ handedTo wanted' filters secs := by
      rw [heq]
    rw [mem_handedTo, mem_handedTo] at hmem
    apply Bool.eq_iff_iff.mpr
    exact ⟨fun h => (hmem.mp ⟨hs, hf, h⟩).2.2, fun h => (hmem.mpr ⟨hs, hf, h⟩).2.2⟩
  · intro hall
    induction secs with
    | nil => rfl
    | cons s secs ih =>
      obtain ⟨hs, hsecs⟩ := List.forall_mem_cons.mp hall
      rw [handedTo_cons, handedTo_cons, ih hsecs, List.filter_congr hs]

theorem mem_completeIn {n : Nat} {s : Str} (h : s ∈ completeIn items n) : Item.sec s ∈ items := by
  induction items generalizing n with
  | nil => cases h
  | cons x items ih =>
    cases x with
    | stuffing => exact List.mem_cons_of_mem _ (ih h)
    | sec s' =>
      unfold completeIn at h
      split at h
      · rcases List.mem_cons.mp h with rfl | h
        · exact List.mem_cons_self
        · exact List.mem_cons_of_mem _ (ih h)
      · cases h

end

/-- Every filter gets the sections that match it, complete, once and in order, and no others, if
and only if of each matching section the last byte that is compared passes again, under the mask
of the byte behind it. -/
theorem delivered_iff {size : Nat} {q : QueueData} {filter : DmxSectionFilter}
    {next : List DmxSectionFilter} {items : List Item} {pieces : List Str} {more : Str}
    (h : Ready size q) (hempty : q.getBytesAvail size = 0) (hfits : Fits size filter next q pieces)
    (hitems : ∀ x ∈ items, x.Fine) (hstream : pieces.flatten ++ more = streamOf items) :
    (receive size filter next q pieces).map Delivery.handed =
        handedTo (fun f s => DvbMatches f s) (filter :: next)
          (completeIn items pieces.flatten.length) ↔
      ∀ s ∈ completeIn items pieces.flatten.length, ∀ f ∈ filter :: next,
        DvbMatches f s → PassesAgain f s := by
  have hunread : q.unread size = [] := List.length_eq_zero_iff.mp (unread_length.trans hempty)
  have hnone : completeIn items (q.getBytesAvail size) = [] := by
    rw [hempty]
    exact completeIn_short hitems (by decide)
  have hreceived := receive_spec h hfits hitems hnone (by rw [hunread]; exact hstream)
  rw [hreceived, hempty, Nat.zero_add, handedTo_eq_iff]
  apply forall_congr'
  intro s
  apply forall_congr'
  intro hs
  apply forall_congr'
  intro f
  apply forall_congr'
  intro _
  have hsec : IsSection s := hitems _ (mem_completeIn hs)
  have hthree := hsec.three_le
  have hiff := @matchesFilter_iff f s (by omega)
  unfold getsSection
  rw [Bool.eq_iff_iff, hiff, decide_eq_true_eq]
  exact ⟨fun heq hmatch => (heq.mpr hmatch).2, fun hpass => ⟨fun hboth => hboth.1, fun hmatch =>
    ⟨hmatch, hpass hmatch⟩⟩⟩

/-! ## A section that is not delivered -/

def emptyQueue : QueueData := ⟨fun _ => 0, 0, 0, 0, 0, 0⟩

/-- Any table but 4f. -/
def otherTable : DmxSectionFilter :=
  ⟨fun i => if i.val = 0 then 0x4f else 0, fun i => if i.val = 0 then 0xff else 0, fun _ => 0⟩

def shortSection : Str := [0x4e, 0xb0, 15, 0, 0, 0, 0, 0, 0, 0, 0, 0, 0, 0, 0, 0, 0, 1]

theorem emptyQueue_ready : Ready 64 emptyQueue := ⟨⟨by decide, by decide⟩, rfl, rfl, rfl⟩

theorem shortSection_fine : ∀ x ∈ [Item.sec shortSection], x.Fine := fun x hx => by
  rw [List.mem_singleton.mp hx]
  exact ⟨rfl, by decide, by decide⟩

/-- Table 4e. -/
def thisTable : DmxSectionFilter :=
  ⟨fun i => if i.val = 0 then 0x4e else 0, fun i => if i.val = 0 then 0xff else 0, fun _ => 0xff⟩

/-- A section that comes in two pieces goes to the filter that wants it. -/
theorem delivered_iff_sample :
    (receive 64 thisTable [] emptyQueue [shortSection.take 10, shortSection.drop 10]).map
      Delivery.handed = [(thisTable, shortSection)] :=
  (@delivered_iff 64 emptyQueue thisTable [] [.sec shortSection]
    [shortSection.take 10, shortSection.drop 10] [] emptyQueue_ready rfl
    ⟨by decide, by decide, trivial⟩ shortSection_fine rfl).mpr (by decide)

/-- The last byte differs under a mask that belongs to the first one. -/
theorem section_not_delivered :
    DvbMatches otherTable shortSection ∧
      (receive 64 otherTable [] emptyQueue [shortSection]).map Delivery.handed = [] := by
  refine ⟨by decide, ?_⟩
  rw [@receive_spec [.sec shortSection] [] 64 emptyQueue [shortSection] otherTable []
    emptyQueue_ready ⟨by decide, trivial⟩ shortSection_fine rfl rfl]
  decide

end Tuxbox.Avia
