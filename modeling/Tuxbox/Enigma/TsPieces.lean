import Tuxbox.Enigma.TsParser

/-!
# Packets in pieces

What the parsers make of one packet depends on the pieces its bytes come in.
-/

namespace Tuxbox.Enigma

namespace TsReader

section
variable {β σ : Type} {a : TsReader β σ} {p q : TsParser σ} {pos n : Nat} {rest : List Byte}

/-! ## Turns -/

theorem complete_bound (hp : p.pktptr < 188) (h : a.complete p pos rest = some (q, n)) :
    n = min (188 - p.pktptr).toNat rest.length ∧ q.pktptr < 188 := by
  unfold complete at h
  dsimp only at h
  split at h
  · obtain ⟨q', -, h⟩ := Option.map_eq_some_iff.mp h
    cases h
    exact ⟨rfl, (by decide : (0 : Int) < 188)⟩
  · rename_i hne
    cases h
    apply And.intro rfl
    simp only [TsParser.store, List.length_take] at hne ⊢
    omega

theorem processPacket_pktptr {bs : List Byte} (h : a.processPacket p pos bs = some q) :
    q.pktptr = p.pktptr := by
  obtain ⟨r, -, rfl⟩ := Option.map_eq_some_iff.mp h
  rfl

/-- A turn takes bytes, and leaves less than a packet. -/
theorem turn_progress (hp : p.pktptr < 188) (hrest : rest ≠ [])
    (h : a.turn p pos rest = some (q, n)) : 0 < n ∧ q.pktptr < 188 := by
  have hlen := List.length_pos_of_ne_nil hrest
  unfold turn at h
  split at h
  · cases h
    dsimp only
    omega
  rename_i hneg
  split at h
  · split at h
    · dsimp only at h
      have hstore : (p.store (rest.take (min (4 - p.pktptr).toNat rest.length))).pktptr < 188 := by
        simp only [TsParser.store, List.length_take]
        omega
      split at h
      · split at h
        · cases h
        · cases h
          exact ⟨by omega, (by decide : (0 : Int) < 188)⟩
      · obtain ⟨r, hr, h⟩ := Option.map_eq_some_iff.mp h
        cases h
        exact ⟨by omega, (complete_bound hstore hr).2⟩
    · obtain ⟨hn, hq⟩ := complete_bound hp h
      exact ⟨by omega, hq⟩
  rename_i hzero
  split at h
  · dsimp only at h
    obtain ⟨p', hp', h⟩ := Option.map_eq_some_iff.mp h
    have hbound : p'.pktptr < 188 := by
      split at hp'
      · split at hp'
        · rw [processPacket_pktptr hp']
          exact hp
        · cases hp'
          dsimp only
          omega
      · cases hp'
        exact hp
    split_ifs at h <;> cases h
    · exact ⟨by decide, hbound⟩
    · exact ⟨hlen, by dsimp only; omega⟩
    · exact ⟨hlen, hbound⟩
  · cases h
    dsimp only
    omega

theorem parseLoop_nil (fuel : Nat) : a.parseLoop fuel p pos [] = some p := by
  cases fuel <;> rfl

theorem parseLoop_succ (fuel : Nat) (hrest : rest ≠ []) (hsync : a.unsynced p rest = 0) :
    a.parseLoop (fuel + 1) p pos rest = (a.turn p pos rest).bind fun r =>
      a.parseLoop fuel r.1 (pos + r.2) (rest.drop r.2) := by
  cases rest with
  | nil => exact absurd rfl hrest
  | cons b bs => simp only [parseLoop, hsync, List.drop_zero, Nat.add_zero]

/-- There are turns enough. -/
theorem parseLoop_fuel {fuel fuel' : Nat} (hp : p.pktptr < 188) (hfuel : rest.length ≤ fuel)
    (hfuel' : rest.length ≤ fuel') : a.parseLoop fuel p pos rest = a.parseLoop fuel' p pos rest := by
  induction fuel generalizing fuel' p pos rest with
  | zero =>
    obtain rfl := List.length_eq_zero_iff.mp (Nat.le_zero.mp hfuel)
    rw [parseLoop_nil, parseLoop_nil]
  | succ fuel ih =>
    cases rest with
    | nil => rw [parseLoop_nil, parseLoop_nil]
    | cons b bs =>
      obtain ⟨m, rfl⟩ := Nat.exists_eq_succ_of_ne_zero
        (Nat.ne_of_gt (Nat.lt_of_lt_of_le (Nat.succ_pos _) hfuel'))
      simp only [List.length_cons] at hfuel hfuel'
      simp only [parseLoop]
      split
      · rfl
      · rename_i rest' hrest
        apply Option.bind_congr
        intro r hr
        obtain ⟨hn, hq⟩ := turn_progress hp (fun hnil => hrest hnil) hr
        apply ih hq
        · simp only [List.length_drop, List.length_cons]
          omega
        · simp only [List.length_drop, List.length_cons]
          omega

/-- `parseData` is one turn of its loop, and `parseData` of the rest. -/
theorem parseData_turn (hp : p.pktptr < 188) (hrest : rest ≠ []) (hsync : a.unsynced p rest = 0) :
    a.parseData p pos rest = (a.turn p pos rest).bind fun r =>
      a.parseData r.1 (pos + r.2) (rest.drop r.2) := by
  have hlen := List.length_pos_of_ne_nil hrest
  obtain ⟨m, hm⟩ := Nat.exists_eq_succ_of_ne_zero (Nat.ne_of_gt hlen)
  rw [parseData, hm, parseLoop_succ m hrest hsync]
  apply Option.bind_congr
  intro r hr
  obtain ⟨hn, hq⟩ := turn_progress hp hrest hr
  apply parseLoop_fuel hq
  · rw [List.length_drop]
    omega
  · exact Nat.le_refl _

/-! ## One packet -/

theorem wantPacket_append {pid : Int} {needNextPacket : Bool} {bs : List Byte} (more : List Byte)
    (hbs : 3 ≤ bs.length) :
    wantPacket pid needNextPacket (bs ++ more) = wantPacket pid needNextPacket bs := by
  match bs, hbs with
  | h0 :: h1 :: h2 :: bs, _ => rfl

/-- Between two packets. -/
structure Ready (p : TsParser σ) : Prop where
  pktptr : p.pktptr = 0
  needNextPacket : p.needNextPacket = false

/-- After the first `r` bytes of a packet. -/
structure Carried (a : TsReader β σ) (bs : List Byte) (r : Nat) (p : TsParser σ) : Prop where
  needNextPacket : p.needNextPacket = false
  carry : p.pktptr = r ∧ p.pkt = bs.take r ∧ (r < 4 ∨ wantPacket a.pid false bs = true) ∨
    p.pktptr = r - 188 ∧ 4 ≤ r ∧ wantPacket a.pid false bs = false

/-- The memory `processPacket` reads: the piece from the packet on, or the stored packet. -/
def memory (bs : List Byte) : List (List Byte) → List Byte
  | [] => bs
  | d :: _ => if 188 ≤ d.length then d else bs

/-- What is made of a packet whose bytes are in some pieces. -/
def packetStep (a : TsReader β σ) (bs : List Byte) (seen : σ) (pos : Nat)
    (pieces : List (List Byte)) : Option σ :=
  if wantPacket a.pid false bs then
    let pos := if CutIn 1 188 0 pieces then pos + 188 else pos
    (a.read (memory bs pieces)).map (a.note seen pos (memory bs pieces))
  else if CutIn 1 4 0 pieces ∧ CutIn 4 188 0 pieces then none
  else some seen

section
variable {bs d more : List Byte} {r : Nat}

theorem unsynced_head (hhead : rest.head? = some 0x47) : a.unsynced p rest = 0 := by
  unfold unsynced
  split
  · cases rest with
    | nil => cases hhead
    | cons b rest =>
      obtain rfl := Option.some_inj.mp hhead
      rfl
  · rfl

theorem unsynced_carried (hp : p.pktptr ≠ 0) : a.unsynced p rest = 0 := by
  unfold unsynced
  rw [if_neg fun h => hp h.2]

/-- A packet that is whole in a piece. -/
theorem parseData_whole (hp : Ready p) (hbs : bs.length = 188) (hsync : bs.head? = some 0x47)
    (hlen : (bs ++ more).length < 2 ^ 31) :
    a.parseData p pos (bs ++ more) =
      (if wantPacket a.pid false bs then a.processPacket p pos (bs ++ more) else some p).bind
        fun q => a.parseData q (pos + 188) more := by
  have hhead : (bs ++ more).head? = some 0x47 := by rw [List.head?_append, hsync]; rfl
  have hne : bs ++ more ≠ [] := by
    intro hnil
    rw [hnil] at hhead
    cases hhead
  have h188 : 188 ≤ (bs ++ more).length := by rw [List.length_append]; omega
  have hsk : (((bs ++ more).length : Nat) : Int).bmod (2 ^ 32) = (bs ++ more).length := by
    apply Int.bmod_eq_of_le <;> omega
  rw [parseData_turn (by rw [hp.pktptr]; decide) hne (unsynced_head hhead)]
  unfold turn
  rw [if_neg (by rw [hp.pktptr]; decide), if_neg (by rw [hp.pktptr]; decide), if_pos (by omega)]
  dsimp only
  rw [hsk, if_pos h188, hp.needNextPacket, wantPacket_append more (by omega)]
  have hsk' : (188 : Int) ≤ ((bs ++ more).length : Nat) := by omega
  simp only [hsk', if_true, Option.bind_map, Function.comp_def]
  rw [← hbs, List.drop_left]

/-- The begin of a packet at the end of a piece. -/
theorem parseData_begin (hp : Ready p) (hbs : bs.length = 188) (hsync : bs.head? = some 0x47)
    (hr : 0 < r) (hr' : r < 188) :
    ∃ q, a.parseData p pos (bs.take r) = some q ∧ Carried a bs r q ∧ q.seen = p.seen := by
  have hlen : (bs.take r).length = r := by rw [List.length_take]; omega
  have hhead : (bs.take r).head? = some 0x47 := by
    rw [List.head?_take, if_neg (by omega), hsync]
  have hne : bs.take r ≠ [] := by
    intro hnil
    rw [hnil] at hhead
    cases hhead
  have hsk : ((r : Nat) : Int).bmod (2 ^ 32) = r := by apply Int.bmod_eq_of_le <;> omega
  rw [parseData_turn (by rw [hp.pktptr]; decide) hne (unsynced_head hhead)]
  unfold turn
  rw [if_neg (by rw [hp.pktptr]; decide), if_neg (by rw [hp.pktptr]; decide), hlen]
  have hsk' : ¬ (188 : Int) ≤ (r : Int) := by omega
  have h188 : ¬ 188 ≤ r := by omega
  have hnil : (bs.take r).drop r = [] := List.drop_eq_nil_of_le (by omega)
  by_cases h4 : 4 ≤ r
  · have hwant : wantPacket a.pid p.needNextPacket (bs.take r) = wantPacket a.pid false bs := by
      have happend := @wantPacket_append a.pid false (bs.take r) (bs.drop r)
        (by rw [List.length_take]; omega)
      rw [List.take_append_drop] at happend
      rw [happend, hp.needNextPacket]
    rw [if_pos h4, hwant]
    cases hw : wantPacket a.pid false bs with
    | true =>
      have hr0 : (r : Int) ≠ 0 := by omega
      simp only [if_true, h188, if_false, Option.map_some, hsk, hsk', hr0, Option.bind_some, hnil]
      exact ⟨_, rfl, ⟨hp.needNextPacket, .inl ⟨rfl, rfl, .inr hw⟩⟩, rfl⟩
    | false =>
      simp only [Bool.false_eq_true, if_false, Option.map_some, hsk, hsk', hp.pktptr, if_true,
        Option.bind_some, hnil]
      exact ⟨_, rfl, ⟨hp.needNextPacket, .inr ⟨rfl, h4, hw⟩⟩, rfl⟩
  · rw [if_neg h4]
    simp only [Option.bind_some, hnil]
    exact ⟨_, rfl, ⟨hp.needNextPacket, .inl ⟨rfl, rfl, .inl (by omega)⟩⟩, rfl⟩

variable {m : Nat}

theorem store_next (hptr : p.pktptr = r) (hpkt : p.pkt = bs.take r) (hm : r + m ≤ bs.length) :
    p.store ((bs.drop r).take m) = { p with pkt := bs.take (r + m), pktptr := (r + m : Nat) } := by
  have hlen : ((bs.drop r).take m).length = m := by
    rw [List.length_take, List.length_drop]
    omega
  rw [TsParser.store, hptr, hpkt, hlen, Int.toNat_natCast, List.take_take, Nat.min_self,
    ← List.take_add, Int.natCast_add]

/-- More of a stored packet. -/
theorem complete_more (pos : Nat) (hbs : bs.length = 188) (hptr : p.pktptr = r)
    (hpkt : p.pkt = bs.take r)
    (hm : r + m < 188) :
    a.complete p pos ((bs.drop r).take m) =
      some ({ p with pkt := bs.take (r + m), pktptr := (r + m : Nat) }, m) := by
  have hlen : ((bs.drop r).take m).length = m := by
    rw [List.length_take, List.length_drop]
    omega
  have hstore : min (188 - p.pktptr).toNat m = m := by omega
  unfold complete
  dsimp only
  rw [hlen, hstore, List.take_take, Nat.min_self, store_next hptr hpkt (by omega)]
  exact if_neg (by dsimp only; omega)

/-- The rest of a stored packet. -/
theorem complete_rest (pos : Nat) (hbs : bs.length = 188) (hptr : p.pktptr = r)
    (hpkt : p.pkt = bs.take r)
    (hr : r ≤ 188) :
    a.complete p pos (bs.drop r ++ more) =
      (a.processPacket { p with pkt := bs, pktptr := 188 } (pos + (188 - r)) bs).map
        fun q => ({ q with pktptr := 0 }, 188 - r) := by
  have hstore : min (188 - p.pktptr).toNat (bs.drop r ++ more).length = 188 - r := by
    rw [List.length_append, List.length_drop]
    omega
  have htake : (bs.drop r ++ more).take (188 - r) = (bs.drop r).take (188 - r) := by
    rw [List.take_append_of_le_length (by rw [List.length_drop]; omega)]
  have hall : r + (188 - r) = 188 := by omega
  unfold complete
  dsimp only
  rw [hstore, htake, store_next hptr hpkt (by omega), hall, List.take_of_length_le (by omega)]
  exact if_pos rfl

theorem turn_skip (hptr : p.pktptr < 0) :
    a.turn p pos rest = some ({ p with
      pktptr := p.pktptr + (min (-p.pktptr).toNat rest.length : Nat) },
      min (-p.pktptr).toNat rest.length) := by
  rw [turn, if_pos hptr]

theorem turn_stored (hptr : 4 ≤ p.pktptr) : a.turn p pos rest = a.complete p pos rest := by
  rw [turn, if_neg (by omega), if_pos (by omega), if_neg (by omega)]

theorem turn_header (storelen : Nat) (hptr : 0 < p.pktptr) (hptr' : p.pktptr < 4)
    (hstore : min (4 - p.pktptr).toNat rest.length = storelen) :
    a.turn p pos rest =
      (if (p.store (rest.take storelen)).pktptr = 4 ∧ wantPacket a.pid
          (p.store (rest.take storelen)).needNextPacket
          (p.store (rest.take storelen)).pkt = false then
        if rest.length < storelen + 184 then none
        else some ({ p.store (rest.take storelen) with pktptr := 0 }, storelen + 184)
      else (a.complete (p.store (rest.take storelen)) (pos + storelen) (rest.drop storelen)).map
        fun r => (r.1, storelen + r.2)) := by
  rw [turn, if_neg (by omega), if_pos (by omega), if_pos hptr', hstore]

theorem wantPacket_header {pid : Int} {needNextPacket : Bool} (hbs : bs.length = 188) :
    wantPacket pid needNextPacket (bs.take 4) = wantPacket pid needNextPacket bs := by
  have happend := @wantPacket_append pid needNextPacket (bs.take 4) (bs.drop 4)
    (by rw [List.length_take]; omega)
  rwa [List.take_append_drop, eq_comm] at happend

/-- A turn in which the header gets complete. -/
theorem turn_header_stored (hneed : p.needNextPacket = false) (hptr : p.pktptr = r)
    (hpkt : p.pkt = bs.take r) (hbs : bs.length = 188) (hr : 0 < r) (hr' : r < 4)
    (hlen : 4 - r ≤ rest.length) (hrest : rest.take (4 - r) = (bs.drop r).take (4 - r)) :
    a.turn p pos rest =
      if wantPacket a.pid false bs = false then
        if rest.length < 188 - r then none
        else some ({ p with pkt := bs.take 4, pktptr := 0 }, 188 - r)
      else (a.complete { p with pkt := bs.take 4, pktptr := 4 } (pos + (4 - r))
        (rest.drop (4 - r))).map fun q => (q.1, 4 - r + q.2) := by
  have hfour : r + (4 - r) = 4 := by omega
  have hall : 4 - r + 184 = 188 - r := by omega
  rw [turn_header (4 - r) (by omega) (by omega) (by omega), hrest,
    store_next hptr hpkt (by omega), hfour, hneed, wantPacket_header hbs, hall]
  simp only [Nat.cast_ofNat, true_and]

/-- A turn inside a packet whose header is not complete. -/
theorem turn_header_more (hneed : p.needNextPacket = false) (hptr : p.pktptr = r)
    (hpkt : p.pkt = bs.take r) (hbs : bs.length = 188) (hr : 0 < r) (hr' : r < 4)
    (hm : r + m < 188) :
    a.turn p pos ((bs.drop r).take m) =
      if wantPacket a.pid false bs = false ∧ 4 ≤ r + m then none
      else some ({ p with pkt := bs.take (r + m), pktptr := (r + m : Nat) }, m) := by
  have hlen : ((bs.drop r).take m).length = m := by
    rw [List.length_take, List.length_drop]
    omega
  by_cases h4 : r + m < 4
  · have hnil : ((bs.drop r).take m).drop m = (bs.drop (r + m)).take 0 := by
      rw [List.take_zero]
      exact List.drop_eq_nil_of_le (by omega)
    have hmore := complete_more (a := a)
      (p := { p with pkt := bs.take (r + m), pktptr := (r + m : Nat) })
      (m := 0) (pos + m) hbs rfl rfl hm
    rw [turn_header m (by omega) (by omega) (by omega), List.take_take, Nat.min_self,
      store_next hptr hpkt (by omega), if_neg (fun h => by have := h.1; dsimp only at this; omega),
      hnil, hmore, if_neg (by omega)]
    rfl
  · have htake : ((bs.drop r).take m).take (4 - r) = (bs.drop r).take (4 - r) := by
      rw [List.take_take, Nat.min_eq_left (by omega)]
    have hdrop : ((bs.drop r).take m).drop (4 - r) = (bs.drop 4).take (m - (4 - r)) := by
      rw [List.drop_take, List.drop_drop, Nat.add_sub_cancel' (Nat.le_of_lt hr')]
    have hmore := complete_more (a := a)
      (p := { p with pkt := bs.take 4, pktptr := 4 }) (r := 4) (m := m - (4 - r)) (pos + (4 - r))
      hbs rfl rfl (by omega)
    have hsum : 4 + (m - (4 - r)) = r + m := by omega
    have hcount : 4 - r + (m - (4 - r)) = m := by omega
    have hless : m < 188 - r := by omega
    have hover : 4 ≤ r + m := by omega
    rw [turn_header_stored hneed hptr hpkt hbs hr hr' (by omega) htake, hdrop, hmore, hsum,
      Option.map_some, hcount, hlen, if_pos hless]
    cases wantPacket a.pid false bs with
    | true => rfl
    | false => exact (if_pos ⟨rfl, hover⟩).symm

/-- A turn up to the end of a packet whose header was not complete. -/
theorem turn_header_rest (hneed : p.needNextPacket = false) (hptr : p.pktptr = r)
    (hpkt : p.pkt = bs.take r) (hbs : bs.length = 188) (hr : 0 < r) (hr' : r < 4) :
    ∃ q, Ready q ∧ q.seen = p.seen ∧ a.turn p pos (bs.drop r ++ more) =
      (if wantPacket a.pid false bs then a.processPacket q (pos + (188 - r)) bs else some q).map
        fun q => (q, 188 - r) := by
  have hlen : (bs.drop r).length = 188 - r := by
    rw [List.length_drop]
    omega
  have htake : (bs.drop r ++ more).take (4 - r) = (bs.drop r).take (4 - r) :=
    List.take_append_of_le_length (by omega)
  have hdrop : (bs.drop r ++ more).drop (4 - r) = bs.drop 4 ++ more := by
    rw [List.drop_append_of_le_length (by omega), List.drop_drop,
      Nat.add_sub_cancel' (Nat.le_of_lt hr')]
  have hrest := @complete_rest _ _ a { p with pkt := bs.take 4, pktptr := 4 } bs more 4
    (pos + (4 - r)) hbs rfl rfl (by decide)
  have hpos : pos + (4 - r) + (188 - 4) = pos + (188 - r) := by omega
  have hcount : 4 - r + (188 - 4) = 188 - r := by omega
  have henough : ¬ (bs.drop r ++ more).length < 188 - r := by
    rw [List.length_append]
    omega
  rw [turn_header_stored hneed hptr hpkt hbs hr hr' (by rw [List.length_append]; omega) htake,
    hdrop, hrest, if_neg henough, hpos]
  cases hw : wantPacket a.pid false bs with
  | true =>
    refine ⟨{ p with pkt := bs, pktptr := 0 }, ⟨rfl, hneed⟩, rfl, ?_⟩
    simp only [processPacket, Option.map_map, Function.comp_def, hcount, if_true,
      Bool.true_eq_false, if_false]
  | false => exact ⟨{ p with pkt := bs.take 4, pktptr := 0 }, ⟨rfl, hneed⟩, rfl, rfl⟩

theorem Carried.pktptr (hp : Carried a bs r p) (hr : 0 < r) (hr' : r < 188) :
    p.pktptr < 188 ∧ p.pktptr ≠ 0 := by
  rcases hp.carry with h | h <;> omega

/-- A piece inside a packet. -/
theorem parseData_more (pos : Nat) (hp : Carried a bs r p) (hbs : bs.length = 188) (hr : 0 < r)
    (hm : 0 < m)
    (hm' : r + m < 188) :
    if wantPacket a.pid false bs = false ∧ r < 4 ∧ 4 ≤ r + m then
      a.parseData p pos ((bs.drop r).take m) = none
    else ∃ q, a.parseData p pos ((bs.drop r).take m) = some q ∧ Carried a bs (r + m) q ∧
      q.seen = p.seen := by
  have hlen : ((bs.drop r).take m).length = m := by
    rw [List.length_take, List.length_drop]
    omega
  have hne : (bs.drop r).take m ≠ [] := List.ne_nil_of_length_pos (by omega)
  have hnil : ((bs.drop r).take m).drop m = [] := List.drop_eq_nil_of_le (by omega)
  obtain ⟨hbound, hzero⟩ := hp.pktptr hr (by omega)
  rw [parseData_turn hbound hne (unsynced_carried hzero)]
  rcases hp.carry with ⟨hptr, hpkt, hor⟩ | ⟨hptr, h4, hw⟩
  · by_cases h4 : r < 4
    · rw [turn_header_more hp.needNextPacket hptr hpkt hbs hr h4 hm']
      by_cases hlost : wantPacket a.pid false bs = false ∧ 4 ≤ r + m
      · rw [if_pos ⟨hlost.1, h4, hlost.2⟩, if_pos hlost]
        rfl
      · rw [if_neg fun h => hlost ⟨h.1, h.2.2⟩, if_neg hlost, Option.bind_some, hnil]
        refine ⟨_, rfl, ⟨hp.needNextPacket, .inl ⟨rfl, rfl, ?_⟩⟩, rfl⟩
        cases hw : wantPacket a.pid false bs with
        | true => exact .inr rfl
        | false => exact .inl (Nat.lt_of_not_le fun hle => hlost ⟨hw, hle⟩)
    · have hw := hor.resolve_left h4
      rw [if_neg (fun h => h4 h.2.1), turn_stored (by omega), complete_more pos hbs hptr hpkt hm',
        Option.bind_some, hnil]
      exact ⟨_, rfl, ⟨hp.needNextPacket, .inl ⟨rfl, rfl, .inr hw⟩⟩, rfl⟩
  · have hskip : min (-p.pktptr).toNat m = m := by omega
    rw [if_neg (by omega), turn_skip (by omega), hlen, hskip, Option.bind_some, hnil]
    refine ⟨_, rfl, ⟨hp.needNextPacket, .inr ⟨?_, by omega, hw⟩⟩, rfl⟩
    dsimp only
    omega

/-- The piece in which a packet ends. -/
theorem parseData_end (hp : Carried a bs r p) (hbs : bs.length = 188) (hr : 0 < r) (hr' : r < 188) :
    ∃ q, Ready q ∧ q.seen = p.seen ∧ a.parseData p pos (bs.drop r ++ more) =
      (if wantPacket a.pid false bs then a.processPacket q (pos + (188 - r)) bs else some q).bind
        fun q => a.parseData q (pos + (188 - r)) more := by
  have hlen : (bs.drop r).length = 188 - r := by
    rw [List.length_drop]
    omega
  have hne : bs.drop r ++ more ≠ [] := by
    apply List.ne_nil_of_length_pos
    rw [List.length_append]
    omega
  have hdrop : (bs.drop r ++ more).drop (188 - r) = more := by rw [← hlen, List.drop_left]
  obtain ⟨hbound, hzero⟩ := hp.pktptr hr (by omega)
  rw [parseData_turn hbound hne (unsynced_carried hzero)]
  rcases hp.carry with ⟨hptr, hpkt, hor⟩ | ⟨hptr, h4, hw⟩
  · by_cases h4 : r < 4
    · obtain ⟨q, hq, hseen, hturn⟩ := turn_header_rest (a := a)
        hp.needNextPacket hptr hpkt hbs hr h4
      refine ⟨q, hq, hseen, ?_⟩
      rw [hturn, Option.bind_map]
      simp only [Function.comp_def, hdrop]
    · have hw := hor.resolve_left h4
      refine ⟨{ p with pkt := bs, pktptr := 0 }, ⟨rfl, hp.needNextPacket⟩, rfl, ?_⟩
      rw [turn_stored (by omega), complete_rest pos hbs hptr hpkt (Nat.le_of_lt hr'), if_pos hw,
        Option.bind_map]
      simp only [processPacket, Option.bind_map, Function.comp_def, hdrop]
  · have hskip : min (-p.pktptr).toNat (bs.drop r ++ more).length = 188 - r := by
      rw [List.length_append]
      omega
    refine ⟨{ p with pktptr := 0 }, ⟨rfl, hp.needNextPacket⟩, rfl, ?_⟩
    have hback : p.pktptr + (188 - r : Nat) = 0 := by omega
    rw [turn_skip (by omega), hskip, Option.bind_some, hdrop, hback, hw]
    rfl

/-! ## Pieces -/

theorem feed_after_zero (p : TsParser σ) (pos : Nat) (ds : List (List Byte)) :
    a.feed p pos (after 0 ds) = a.feed p pos ds := by
  induction ds with
  | nil => rfl
  | cons d ds ih =>
    rw [after]
    split
    · rfl
    · rename_i hd
      obtain rfl : d = [] := List.length_eq_zero_iff.mp (by omega)
      exact ih

theorem feed_after (p : TsParser σ) (pos : Nat) {d d' : List Byte} (ds : List (List Byte))
    (hd : d.length = n) :
    a.feed p pos (after n ((d ++ d') :: ds)) = a.feed p pos (d' :: ds) := by
  subst hd
  rw [after, List.length_append]
  split
  · rw [List.drop_left]
  · rename_i hlen
    obtain rfl : d' = [] := List.length_eq_zero_iff.mp (by omega)
    rw [List.length_nil, Nat.add_zero, Nat.sub_self, feed_after_zero]
    rfl

/-- The header of a packet that is not wanted is cut, and then what follows it. -/
def Lost (a : TsReader β σ) (bs : List Byte) (r : Nat) (ds : List (List Byte)) : Prop :=
  wantPacket a.pid false bs = false ∧ r < 4 ∧ CutIn 4 188 r ds

/-- The pieces in which a packet that has begun goes on. -/
theorem feed_carried {tail : List Byte} {ds : List (List Byte)} (hp : Carried a bs r p)
    (hbs : bs.length = 188) (hr : 0 < r) (hr' : r < 188)
    (hflat : ds.flatten = bs.drop r ++ tail) :
    (Lost a bs r ds ∧ a.feed p pos ds = none) ∨
      ¬ Lost a bs r ds ∧ ∃ q, Ready q ∧ q.seen = p.seen ∧ a.feed p pos ds =
        (if wantPacket a.pid false bs then a.processPacket q (pos + (188 - r)) bs else some q).bind
          fun q => a.feed q (pos + (188 - r)) (after (188 - r) ds) := by
  induction ds generalizing p pos r with
  | nil =>
    have hlen := congrArg List.length hflat
    rw [List.flatten_nil, List.length_nil, List.length_append, List.length_drop] at hlen
    omega
  | cons e es ih =>
    rw [List.flatten_cons] at hflat
    have hlost : Lost a bs r (e :: es) ↔ wantPacket a.pid false bs = false ∧ r < 4 ∧
        ((4 ≤ r + e.length ∧ r + e.length < 188) ∨ CutIn 4 188 (r + e.length) es) := by
      rw [Lost, cutIn_cons]
    by_cases hinside : r + e.length < 188
    · obtain ⟨m, hm⟩ : ∃ m, e.length = m := ⟨_, rfl⟩
      have he : e = (bs.drop r).take m := by
        have htake := congrArg (List.take m) hflat
        rwa [← hm, List.take_left, List.take_append_of_le_length (by rw [List.length_drop]; omega),
          hm] at htake
      have hes : es.flatten = bs.drop (r + m) ++ tail := by
        have hdrop := congrArg (List.drop m) hflat
        rwa [← hm, List.drop_left,
          List.drop_append_of_le_length (by rw [List.length_drop]; omega), List.drop_drop,
            hm] at hdrop
      have hafter : after (188 - r) (e :: es) = after (188 - (r + m)) es := by
        rw [after, if_neg (by omega), Nat.sub_sub, hm]
      rw [hm] at hlost hinside
      rw [hafter, feed, hm]
      by_cases hzero : m = 0
      · subst hzero
        have hsame : Lost a bs r (e :: es) ↔ Lost a bs r es := by
          rw [hlost, Lost, Nat.add_zero]
          constructor
          · rintro ⟨hw, h4, hor⟩
            exact ⟨hw, h4, hor.resolve_left fun h => by omega⟩
          · rintro ⟨hw, h4, hcut⟩
            exact ⟨hw, h4, .inr hcut⟩
        obtain rfl : e = [] := List.length_eq_zero_iff.mp hm
        rw [hsame]
        exact ih hp hr hr' (by simpa using hes)
      have hpiece := parseData_more pos hp hbs hr (Nat.pos_of_ne_zero hzero) hinside
      rw [← he] at hpiece
      by_cases hnow : wantPacket a.pid false bs = false ∧ r < 4 ∧ 4 ≤ r + m
      · rw [if_pos hnow] at hpiece
        left
        rw [hpiece]
        exact ⟨hlost.mpr ⟨hnow.1, hnow.2.1, .inl ⟨hnow.2.2, hinside⟩⟩, rfl⟩
      · rw [if_neg hnow] at hpiece
        obtain ⟨q, hq, hcarried, hseen⟩ := hpiece
        have hsame : Lost a bs r (e :: es) ↔ Lost a bs (r + m) es := by
          rw [hlost, Lost]
          constructor
          · rintro ⟨hw, h4, hor⟩
            have h4' : r + m < 4 := by
              by_contra hle
              exact hnow ⟨hw, h4, by omega⟩
            exact ⟨hw, h4', hor.resolve_left fun h => by omega⟩
          · rintro ⟨hw, h4, hcut⟩
            exact ⟨hw, by omega, .inr hcut⟩
        have hpos : pos + m + (188 - (r + m)) = pos + (188 - r) := by omega
        rw [hq, Option.bind_some, hsame, ← hseen, ← hpos]
        exact ih hcarried (by omega) hinside hes
    · right
      have hfar : ¬ Lost a bs r (e :: es) := by
        rw [hlost]
        rintro ⟨-, -, h | h⟩
        · omega
        · exact not_cutIn (by omega) h
      apply And.intro hfar
      have hlen : (bs.drop r).length = 188 - r := by rw [List.length_drop, hbs]
      obtain ⟨e', rfl⟩ : ∃ e', e = bs.drop r ++ e' := by
        refine ⟨e.drop (188 - r), ?_⟩
        have htake := congrArg (List.take (188 - r)) hflat
        rw [List.take_append_of_le_length (by omega), ← hlen, List.take_left, hlen] at htake
        rw [← htake, List.take_append_drop]
      obtain ⟨q, hq, hseen, hpiece⟩ := parseData_end (a := a) hp hbs hr hr'
      refine ⟨q, hq, hseen, ?_⟩
      rw [feed, hpiece, Option.bind_assoc]
      apply Option.bind_congr
      intro q' _
      have hpos : pos + (bs.drop r ++ e').length = pos + (188 - r) + e'.length := by
        rw [List.length_append, hlen, Nat.add_assoc]
      rw [feed_after q' _ es hlen, feed, hpos]

/-- Pieces that do not begin with an empty one. -/
def Trimmed (ds : List (List Byte)) : Prop := ∀ d es, ds = d :: es → d ≠ []

theorem taken_cases (hq : Ready q) (want : Bool) (pos : Nat) (bs : List Byte) :
    ((if want then (a.read bs).map (a.note q.seen pos bs) else some q.seen) = none ∧
      (if want then a.processPacket q pos bs else some q) = none) ∨
    ∃ q', Ready q' ∧
      (if want then (a.read bs).map (a.note q.seen pos bs) else some q.seen) = some q'.seen ∧
      (if want then a.processPacket q pos bs else some q) = some q' := by
  cases want with
  | false => exact .inr ⟨q, hq, rfl, rfl⟩
  | true =>
    simp only [if_true, processPacket]
    cases a.read bs with
    | none => exact .inl ⟨rfl, rfl⟩
    | some r =>
      exact .inr ⟨{ q with needNextPacket := false, seen := a.note q.seen pos bs r },
        ⟨hq.pktptr, rfl⟩, rfl, rfl⟩

theorem packetStep_whole {d : List Byte} {es : List (List Byte)} {seen : σ} (hd : 188 ≤ d.length) :
    packetStep a bs seen pos (d :: es) =
      if wantPacket a.pid false bs then (a.read d).map (a.note seen pos d) else some seen := by
  have hcut {lo hi : Nat} (hhi : hi ≤ 188) : ¬ CutIn lo hi 0 (d :: es) := by
    rw [cutIn_cons]
    rintro (h | h)
    · omega
    · exact not_cutIn (by omega) h
  have hlost : ¬ (CutIn 1 4 0 (d :: es) ∧ CutIn 4 188 0 (d :: es)) :=
    fun h => hcut (by decide) h.1
  rw [packetStep, memory, if_pos hd, if_neg (hcut (Nat.le_refl 188)), if_neg hlost]

theorem packetStep_cut {d : List Byte} {es : List (List Byte)} {seen : σ} (hd : 0 < d.length)
    (hd' : d.length < 188) :
    (Lost a bs d.length es → packetStep a bs seen pos (d :: es) = none) ∧
    (¬ Lost a bs d.length es → packetStep a bs seen pos (d :: es) =
      if wantPacket a.pid false bs then (a.read bs).map (a.note seen (pos + 188) bs)
      else some seen) := by
  have hcut : CutIn 1 188 0 (d :: es) := cutIn_cons.mpr (.inl (by omega))
  have hlost : (CutIn 1 4 0 (d :: es) ∧ CutIn 4 188 0 (d :: es)) ↔
      d.length < 4 ∧ CutIn 4 188 d.length es := by
    rw [cutIn_cons, cutIn_cons, Nat.zero_add]
    constructor
    · rintro ⟨h1, h2⟩
      have h4 : d.length < 4 := by
        rcases h1 with h1 | h1
        · exact h1.2
        · by_contra hle
          exact not_cutIn (by omega) h1
      exact ⟨h4, h2.resolve_left fun h => by omega⟩
    · exact fun ⟨h4, h2⟩ => ⟨.inl ⟨hd, h4⟩, .inr h2⟩
  unfold packetStep
  rw [memory, if_neg (Nat.not_le_of_lt hd'), if_pos hcut]
  cases hw : wantPacket a.pid false bs with
  | true =>
    apply And.intro
    · intro h
      cases hw.symm.trans h.1
    · intro _
      rfl
  | false =>
    simp only [Bool.false_eq_true, if_false, hlost, Lost, hw, true_and]
    exact ⟨fun h => if_pos h, fun h => if_neg h⟩

/-- The pieces that begin with a packet: what is made of it is all that matters later. -/
theorem feed_packet {tail : List Byte} {ds : List (List Byte)} (hp : Ready p)
    (hbs : bs.length = 188) (hsync : bs.head? = some 0x47) (htrim : Trimmed ds)
    (hsmall : ∀ d ∈ ds, d.length < 2 ^ 31) (hflat : ds.flatten = bs ++ tail) :
    (packetStep a bs p.seen pos ds = none ∧ a.feed p pos ds = none) ∨
      ∃ q, Ready q ∧ packetStep a bs p.seen pos ds = some q.seen ∧
        a.feed p pos ds = a.feed q (pos + 188) (after 188 ds) := by
  cases ds with
  | nil =>
    have hlen := congrArg List.length hflat
    rw [List.flatten_nil, List.length_nil, List.length_append] at hlen
    omega
  | cons d es =>
    have hpos := List.length_pos_of_ne_nil (htrim d es rfl)
    rw [List.flatten_cons] at hflat
    by_cases hd : 188 ≤ d.length
    · obtain ⟨d', rfl⟩ : ∃ d', d = bs ++ d' := by
        refine ⟨d.drop 188, ?_⟩
        have htake := congrArg (List.take 188) hflat
        rw [List.take_append_of_le_length hd, ← hbs, List.take_left, hbs] at htake
        rw [← htake, List.take_append_drop]
      rw [packetStep_whole hd, feed, parseData_whole hp hbs hsync
        (hsmall _ List.mem_cons_self)]
      rcases taken_cases (a := a) hp (wantPacket a.pid false bs) pos (bs ++ d') with
        ⟨hnone, hnone'⟩ | ⟨q, hq, hsome, hsome'⟩
      · exact .inl ⟨hnone, by rw [hnone']; rfl⟩
      · refine .inr ⟨q, hq, hsome, ?_⟩
        have hlen : pos + (bs ++ d').length = pos + 188 + d'.length := by
          rw [List.length_append, hbs, Nat.add_assoc]
        rw [hsome', Option.bind_some, hlen, feed_after q _ es hbs]
        rfl
    · have hd' : d.length < 188 := Nat.lt_of_not_le hd
      have hbegin : d = bs.take d.length := by
        have htake := congrArg (List.take d.length) hflat
        rwa [List.take_left, List.take_append_of_le_length (by omega)] at htake
      have hes : es.flatten = bs.drop d.length ++ tail := by
        have hdrop := congrArg (List.drop d.length) hflat
        rwa [List.drop_left, List.drop_append_of_le_length (by omega)] at hdrop
      obtain ⟨q, hq, hcarried, hseen⟩ := parseData_begin (a := a) hp hbs hsync hpos hd'
      rw [← hbegin] at hq
      have hsum : pos + d.length + (188 - d.length) = pos + 188 := by omega
      have hafter : after 188 (d :: es) = after (188 - d.length) es := by
        rw [after, if_neg (by omega)]
      obtain ⟨hnone, hsome⟩ := packetStep_cut (a := a) hpos hd'
      rw [feed, hq, Option.bind_some, hafter]
      rcases feed_carried hcarried hbs hpos hd' hes with
        ⟨hlost, hfeed⟩ | ⟨hkept, q', hq', hseen', hfeed⟩
      · exact .inl ⟨hnone hlost, hfeed⟩
      · rw [hsome hkept, hfeed, hsum, ← hseen, ← hseen']
        rcases taken_cases (a := a) hq' (wantPacket a.pid false bs) (pos + 188) bs with
          ⟨hnone, hnone'⟩ | ⟨q'', hq'', hsome, hsome'⟩
        · exact .inl ⟨hnone, by rw [hnone']; rfl⟩
        · exact .inr ⟨q'', hq'', hsome, by rw [hsome', Option.bind_some]⟩

end

/-! ## Packets -/

/-- What is made of a stream. -/
def outcome (a : TsReader β σ) : σ → Nat → List TsPacket → List (List Byte) → Option σ
  | seen, _, [], _ => some seen
  | seen, pos, P :: Ps, ds =>
    (packetStep a P.bytes seen pos ds).bind fun seen => outcome a seen (pos + 188) Ps (after 188 ds)

/-- What is made of a stream is what is made of each packet. -/
theorem feed_packets {packets : List TsPacket} {ds : List (List Byte)} (hp : Ready p)
    (htrim : Trimmed ds) (hsmall : ∀ d ∈ ds, d.length < 2 ^ 31)
    (hflat : ds.flatten = stream packets) :
    (a.feed p pos ds).map (·.seen) = outcome a p.seen pos packets ds := by
  induction packets generalizing p pos ds with
  | nil =>
    cases ds with
    | nil => rfl
    | cons d es =>
      have hnil := List.append_eq_nil_iff.mp hflat
      exact absurd hnil.1 (htrim d es rfl)
  | cons P Ps ih =>
    have hstream : stream (P :: Ps) = P.bytes ++ stream Ps := rfl
    rw [hstream] at hflat
    rw [outcome]
    rcases feed_packet (a := a) hp P.length P.sync htrim hsmall hflat with
      ⟨hnone, hfeed⟩ | ⟨q, hq, hsome, hfeed⟩
    · rw [hnone, hfeed]
      rfl
    · rw [hsome, hfeed, Option.bind_some]
      apply ih hq
      · exact fun d es hd => after_head hd
      · intro d hd
        obtain ⟨e, he, hle⟩ := mem_after hd
        exact Nat.lt_of_le_of_lt hle (hsmall e he)
      · have hdrop := flatten_after 188 ds
        rwa [hflat, ← P.length, List.drop_left, P.length] at hdrop

/-- For pieces that may begin with empty ones. -/
theorem feed_stream {packets : List TsPacket} {ds : List (List Byte)} (seen : σ)
    (hsmall : ∀ d ∈ ds, d.length < 2 ^ 31) (hflat : ds.flatten = stream packets) :
    (a.feed (.start seen) 0 ds).map (·.seen) = outcome a seen 0 packets (after 0 ds) := by
  rw [← feed_after_zero]
  apply feed_packets ⟨rfl, rfl⟩
  · exact fun d es hd => after_head hd
  · intro d hd
    obtain ⟨e, he, hle⟩ := mem_after hd
    exact Nat.lt_of_le_of_lt hle (hsmall e he)
  · rw [flatten_after, hflat, List.drop_zero]

end

end TsReader

end Tuxbox.Enigma
