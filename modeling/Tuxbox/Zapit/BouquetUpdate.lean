import Mathlib.Data.List.Perm.Basic
import Tuxbox.Lib.Words
import Tuxbox.Zapit.BouquetMerge
import Tuxbox.Zapit.BouquetReload

/-! `saveBouquets` after a scan that updates the bouquets. The scanned bouquets point to
channels that were made for them, and so do the saved ones once their channels are copied. A
channel that is taken over changes its bouquet, and one that is there already is deleted.

Main results: `made_scannedBouquets`, `updateBouquets_mergedScan`. -/
namespace Tuxbox.Zapit

/-- The channel objects by their addresses. What is deleted cannot be read. -/
structure Heap where
  objects : Nat → Option CZapitChannel
  next : Nat

namespace Heap

def new (h : Heap) (c : CZapitChannel) : Heap where
  objects := fun p => if p = h.next then some c else h.objects p
  next := h.next + 1

def delete (h : Heap) (p : Nat) : Heap :=
  { h with objects := fun q => if q = p then none else h.objects q }

/-- The loop over a list of `getChannelByChannelID`. -/
def hasChannel (h : Heap) (id : Nat) : List Nat → Option Bool
  | [] => some false
  | p :: ps =>
    match h.objects p with
    | none => none
    | some c => if c.getChannelID = id then some true else hasChannel h id ps

def existsChannelInBouquet (h : Heap) (b : CBouquet) (id : Nat) : Option Bool :=
  match h.hasChannel id b.tvChannels with
  | none => none
  | some true => some true
  | some false => h.hasChannel id b.radioChannels

end Heap

/-! ## The copies of the saved bouquets -/

section
variable (allchans : Tallchans)

def copyChannels : List Nat → Heap → Option (List Nat × Heap)
  | [], h => some ([], h)
  | id :: ids, h =>
    match allchans.find id with
    | none => none
    | some c =>
      match copyChannels ids (h.new c) with
      | none => none
      | some (ps, h') => some (h.next :: ps, h')

def copyBouquet (b : CBouquet) (h : Heap) : Option (CBouquet × Heap) :=
  match copyChannels allchans b.tvChannels h with
  | none => none
  | some (tv, h) =>
    match copyChannels allchans b.radioChannels h with
    | none => none
    | some (radio, h) => some ({ b with tvChannels := tv, radioChannels := radio }, h)

def copyBouquets : List CBouquet → Heap → Option (List CBouquet × Heap)
  | [], h => some ([], h)
  | b :: bs, h =>
    match copyBouquet allchans b h with
    | none => none
    | some (b, h) =>
      match copyBouquets bs h with
      | none => none
      | some (bs, h) => some (b :: bs, h)

/-! ## The loops over the scanned bouquets -/

/-- A scanned bouquet that is emptied into another one. -/
structure Drain where
  heap : Heap
  dest : CBouquet
  source : CBouquet

def eraseFirst (b : CBouquet) (tv : Bool) : CBouquet :=
  if tv then { b with tvChannels := b.tvChannels.tail }
  else { b with radioChannels := b.radioChannels.tail }

/-- What becomes of the first channel `p` of a list. -/
def drainStep (tv : Bool) (s : Drain) (p : Nat) : Option Drain :=
  match s.heap.objects p with
  | none => none
  | some c =>
    match s.heap.existsChannelInBouquet s.dest c.getChannelID with
    | none => none
    | some true => some { s with heap := s.heap.delete p, source := eraseFirst s.source tv }
    | some false =>
      some { s with
        dest := s.dest.addService p c.serviceType
        source := s.source.removeService p c.serviceType }

/-- The loop over a list, which ends when it is empty. -/
def drain (tv : Bool) : Nat → Drain → Option Drain
  | 0, s => if (s.source.channels tv).isEmpty then some s else none
  | fuel + 1, s =>
    match s.source.channels tv with
    | [] => some s
    | p :: _ =>
      match drainStep tv s p with
      | none => none
      | some s => drain tv fuel s

def mergeBouquet (fuel : Nat) (st : Heap × List CBouquet) (b : CBouquet) :
    Option (Heap × List CBouquet) :=
  match st.2.findIdx? fun x => x.name = cString b.name with
  | none => some (st.1, st.2 ++ [b])
  | some i =>
    match st.2[i]? with
    | none => none
    | some dest =>
      match drain true fuel ⟨st.1, dest, b⟩ with
      | none => none
      | some s =>
        match drain false fuel s with
        | none => none
        | some s => some (s.heap, st.2.set i s.dest)

/-- `saveBouquets` up to where the bouquets are written. `loaded` is what `loadBouquets` has
made, and `storedBouquets` what the scan has found. -/
def updateBouquets (fuel : Nat) (loaded : CBouquetManager) (h : Heap)
    (storedBouquets : List CBouquet) : Option (Heap × List CBouquet) :=
  let saved := loaded.deleteAddress loaded.remainChannels
  match copyBouquets allchans (saved.bouquets.map Prod.snd) h with
  | none => none
  | some (bs, h) => storedBouquets.foldlM (mergeBouquet fuel) (h, bs)

end

/-! ## The scan -/

/-- What the scan does with its bouquets. A service that it finds is an object of its own. -/
inductive ScanRequest
  | addBouquet (name : Str)
  | setFlags (bouquet : Nat) (bHidden bLocked : Bool) (bouquetId : UInt16)
  | moveBouquet (oldId newId : Nat)
  | addService (bouquet : Nat) (c : CZapitChannel)

namespace ScanRequest

def exec (st : Heap × List CBouquet) : ScanRequest → Heap × List CBouquet
  | addBouquet name => (st.1, st.2 ++ [CBouquet.new name])
  | setFlags bouquet bHidden bLocked bouquetId =>
    (st.1, st.2.modify bouquet fun b =>
      { b with bHidden := bHidden, bLocked := bLocked, bouquetId := bouquetId })
  | moveBouquet oldId newId => (st.1, moveItem st.2 oldId newId)
  | addService bouquet c =>
    (st.1.new c, st.2.modify bouquet fun b => b.addService st.1.next c.serviceType)

/-- Names are C strings, or the content of a `CDVBString`, which has no zero byte either. -/
def Named : ScanRequest → Prop
  | addBouquet name => (0 : Byte) ∉ name
  | _ => True

instance : DecidablePred Named
  | addBouquet name => inferInstanceAs (Decidable ((0 : Byte) ∉ name))
  | setFlags .. | moveBouquet .. | addService .. => instDecidableTrue

end ScanRequest

/-- The bouquets of a scan. -/
def scannedBouquets (h : Heap) (rs : List ScanRequest) : Heap × List CBouquet :=
  rs.foldl ScanRequest.exec (h, [])

/-! ## What the pointers show -/

/-- A list of pointers to these channels. -/
def Shows (h : Heap) (ps : List Nat) (cs : List CZapitChannel) : Prop :=
  ps.map h.objects = cs.map some

structure Represents (h : Heap) (b : CBouquet) (v : Contents) : Prop where
  name : b.name = v.name
  bHidden : b.bHidden = v.bHidden
  bLocked : b.bLocked = v.bLocked
  type : b.type = v.type
  bouquetId : b.bouquetId = v.bouquetId
  channels : ∀ tv, Shows h (b.channels tv) (v.channels tv)

def pointers (b : CBouquet) : List Nat := b.tvChannels ++ b.radioChannels

/-- Bouquets that can be read: what the pointers are of belongs in the list, and no two of them
are the same. -/
structure Made (h : Heap) (bs : List CBouquet) : Prop where
  typed : ∀ b ∈ bs, ∀ tv, ∀ p ∈ b.channels tv,
    ∃ c, h.objects p = some c ∧ inMode tv c.serviceType = true
  named : ∀ b ∈ bs, (0 : Byte) ∉ b.name
  distinct : (bs.flatMap pointers).Nodup
  allocated : ∀ p ∈ bs.flatMap pointers, p < h.next

/-- A bouquet with what its pointers are of. -/
def contents (find : Nat → Option CZapitChannel) (b : CBouquet) : Contents where
  name := b.name
  bHidden := b.bHidden
  bLocked := b.bLocked
  type := b.type
  bouquetId := b.bouquetId
  tvChannels := b.tvChannels.filterMap find
  radioChannels := b.radioChannels.filterMap find

section
variable {h h' : Heap} {ps : List Nat} {cs : List CZapitChannel} {b dest : CBouquet} {v : Contents}

theorem Shows.congr (hs : Shows h ps cs) (heq : ∀ p ∈ ps, h'.objects p = h.objects p) :
    Shows h' ps cs := by
  unfold Shows
  rw [← hs]
  exact List.map_congr_left heq

theorem mem_pointers {p : Nat} : p ∈ pointers b ↔ ∃ tv, p ∈ b.channels tv := by
  rw [pointers, List.mem_append]
  constructor
  · rintro (hp | hp)
    · exact ⟨true, hp⟩
    · exact ⟨false, hp⟩
  · rintro ⟨tv, hp⟩
    cases tv with
    | true => exact .inl hp
    | false => exact .inr hp

theorem Represents.congr (hb : Represents h b v)
    (heq : ∀ p ∈ pointers b, h'.objects p = h.objects p) : Represents h' b v :=
  { hb with
    channels := fun tv => (hb.channels tv).congr fun p hp => heq p (mem_pointers.mpr ⟨tv, hp⟩) }

theorem shows_cons {p : Nat} {c : CZapitChannel} (hs : Shows h (p :: ps) (c :: cs)) :
    h.objects p = some c ∧ Shows h ps cs := List.cons.inj hs

theorem hasChannel_eq (hs : Shows h ps cs) (id : Nat) :
    h.hasChannel id ps = some (decide (id ∈ cs.map CZapitChannel.getChannelID)) := by
  induction cs generalizing ps with
  | nil =>
    obtain rfl := List.map_eq_nil_iff.mp hs
    rfl
  | cons c cs ih =>
    cases ps with
    | nil => cases hs
    | cons p ps =>
      obtain ⟨hp, hrest⟩ := shows_cons hs
      rw [Heap.hasChannel, hp]
      dsimp only
      by_cases hc : c.getChannelID = id
      · simp [hc]
      · rw [if_neg hc, ih hrest]
        simp [Ne.symm hc]

theorem existsChannelInBouquet_eq (hb : Represents h b v) (id : Nat) :
    h.existsChannelInBouquet b id = some (decide (id ∈ v.ids)) := by
  have htv : h.hasChannel id b.tvChannels =
      some (decide (id ∈ v.tvChannels.map CZapitChannel.getChannelID)) :=
    hasChannel_eq (hb.channels true) id
  have hradio : h.hasChannel id b.radioChannels =
      some (decide (id ∈ v.radioChannels.map CZapitChannel.getChannelID)) :=
    hasChannel_eq (hb.channels false) id
  rw [Heap.existsChannelInBouquet, htv, hradio]
  by_cases hid : id ∈ v.tvChannels.map CZapitChannel.getChannelID
  · simp [hid, Contents.mem_ids]
  · simp [hid, Contents.mem_ids]

/-! ## Emptying one list -/

theorem channels_addService {tv : Bool} {type : UInt8} (ht : inMode tv type = true) (p : Nat)
    (tv' : Bool) : (b.addService p type).channels tv' =
      if tv' = tv then b.channels tv' ++ [p] else b.channels tv' := by
  unfold CBouquet.addService CBouquet.channels
  cases tv with
  | true =>
    have ht : isTv type = true := ht
    cases tv' <;> simp [ht]
  | false =>
    have hr : isRadio type = true := ht
    have hn : isTv type = false :=
      Bool.eq_false_iff.mpr fun h => absurd (not_radio_of_tv h) (by simp [hr])
    cases tv' <;> simp [hr, hn]

theorem contents_addService {tv : Bool} {c : CZapitChannel} (ht : inMode tv c.serviceType = true)
    (tv' : Bool) : (v.addService c).channels tv' =
      if tv' = tv then v.channels tv' ++ [c] else v.channels tv' := by
  unfold Contents.addService Contents.channels
  cases tv with
  | true =>
    have ht : isTv c.serviceType = true := ht
    cases tv' <;> simp [ht]
  | false =>
    have hr : isRadio c.serviceType = true := ht
    have hn : isTv c.serviceType = false :=
      Bool.eq_false_iff.mpr fun h => absurd (not_radio_of_tv h) (by simp [hr])
    cases tv' <;> simp [hr, hn]

theorem channels_removeService {tv : Bool} {type : UInt8} (ht : inMode tv type = true) (p : Nat)
    (tv' : Bool) : (b.removeService p type).channels tv' =
      if tv' = tv then (b.channels tv').filter (· ≠ p) else b.channels tv' := by
  unfold CBouquet.removeService CBouquet.channels
  cases tv with
  | true =>
    have hn := not_radio_of_tv ht
    cases tv' <;> simp [hn]
  | false =>
    have hr : isRadio type = true := ht
    cases tv' <;> simp [hr]

theorem channels_eraseFirst (tv tv' : Bool) : (eraseFirst b tv).channels tv' =
    if tv' = tv then (b.channels tv').tail else b.channels tv' := by
  unfold eraseFirst CBouquet.channels
  cases tv <;> cases tv' <;> rfl

/-- What `addService` does not change. -/
theorem addService_same (b : CBouquet) (p : Nat) (type : UInt8) :
    (b.addService p type).name = b.name ∧ (b.addService p type).bHidden = b.bHidden ∧
      (b.addService p type).bLocked = b.bLocked ∧ (b.addService p type).type = b.type ∧
      (b.addService p type).bouquetId = b.bouquetId := by
  unfold CBouquet.addService
  split_ifs <;> exact ⟨rfl, rfl, rfl, rfl, rfl⟩

theorem contents_addService_same (v : Contents) (c : CZapitChannel) :
    (v.addService c).name = v.name ∧ (v.addService c).bHidden = v.bHidden ∧
      (v.addService c).bLocked = v.bLocked ∧ (v.addService c).type = v.type ∧
      (v.addService c).bouquetId = v.bouquetId := by
  unfold Contents.addService
  split_ifs <;> exact ⟨rfl, rfl, rfl, rfl, rfl⟩

theorem Represents.addService (hb : Represents h b v) {p : Nat} {c : CZapitChannel}
    (hp : h.objects p = some c) {tv : Bool} (ht : inMode tv c.serviceType = true) :
    Represents h (b.addService p c.serviceType) (v.addService c) := by
  obtain ⟨hn, hh, hl, hy, hi⟩ := addService_same b p c.serviceType
  obtain ⟨hn', hh', hl', hy', hi'⟩ := contents_addService_same v c
  refine ⟨by rw [hn, hn', hb.name], by rw [hh, hh', hb.bHidden], by rw [hl, hl', hb.bLocked],
    by rw [hy, hy', hb.type], by rw [hi, hi', hb.bouquetId], fun tv' => ?_⟩
  rw [channels_addService ht, contents_addService ht]
  by_cases htv : tv' = tv
  · have hlist : (b.channels tv').map h.objects = (v.channels tv').map some := hb.channels tv'
    rw [if_pos htv, if_pos htv, Shows, List.map_append, List.map_append, hlist]
    simp [hp]
  · rw [if_neg htv, if_neg htv]
    exact hb.channels tv'

/-- A list of `s` has been emptied: its channels were taken by the bouquet `v`. -/
structure Drained (tv : Bool) (s s' : Drain) (v : Contents) (cs : List CZapitChannel) : Prop where
  represents : Represents s'.heap s'.dest (cs.foldl Contents.take v)
  other : ∀ tv', tv' ≠ tv → s'.source.channels tv' = s.source.channels tv'
  frame : ∀ p ∉ s.source.channels tv, s'.heap.objects p = s.heap.objects p
  pointers : ∀ p ∈ pointers s'.dest, p ∈ pointers s.dest ∨ p ∈ s.source.channels tv

/-- One channel less, whatever becomes of it. -/
theorem drainStep_drained {tv : Bool} {s : Drain} {p : Nat} {c : CZapitChannel}
    (hp : s.source.channels tv = p :: ps) (hc : s.heap.objects p = some c)
    (ht : inMode tv c.serviceType = true) (hps : p ∉ ps) (hapart : p ∉ pointers s.dest)
    (hdest : Represents s.heap s.dest v) :
    ∃ s', drainStep tv s p = some s' ∧ s'.source.channels tv = ps ∧
      Represents s'.heap s'.dest (v.take c) ∧
      (∀ tv', tv' ≠ tv → s'.source.channels tv' = s.source.channels tv') ∧
      (∀ q, q ≠ p → s'.heap.objects q = s.heap.objects q) ∧
      ∀ q ∈ pointers s'.dest, q ∈ pointers s.dest ∨ q = p := by
  unfold drainStep Contents.take
  rw [hc]
  dsimp only
  rw [existsChannelInBouquet_eq hdest]
  by_cases hid : c.getChannelID ∈ v.ids
  · rw [if_pos hid, decide_eq_true hid]
    refine ⟨_, rfl, ?_, ?_, ?_, ?_, fun q hq => .inl hq⟩
    · rw [channels_eraseFirst, if_pos rfl, hp]
      rfl
    · refine hdest.congr fun q hq => if_neg ?_
      rintro rfl
      exact hapart hq
    · intro tv' hne
      rw [channels_eraseFirst, if_neg hne]
    · intro q hq
      exact if_neg hq
  · rw [if_neg hid, decide_eq_false hid]
    refine ⟨_, rfl, ?_, hdest.addService hc ht, ?_, fun _ _ => rfl, ?_⟩
    · have hself : ps.filter (· ≠ p) = ps :=
        List.filter_eq_self.mpr fun q hq => decide_eq_true fun h => hps (h ▸ hq)
      rw [channels_removeService ht, if_pos rfl, hp, List.filter_cons_of_neg (by simp), hself]
    · intro tv' hne
      rw [channels_removeService ht, if_neg hne]
    · intro q hq
      obtain ⟨tv', hq⟩ := mem_pointers.mp hq
      rw [channels_addService ht] at hq
      split at hq
      · rcases List.mem_append.mp hq with hq | hq
        · exact .inl (mem_pointers.mpr ⟨tv', hq⟩)
        · exact .inr (List.mem_singleton.mp hq)
      · exact .inl (mem_pointers.mpr ⟨tv', hq⟩)

theorem drain_nil {tv : Bool} {s : Drain} (hnil : s.source.channels tv = []) (fuel : Nat) :
    drain tv fuel s = some s := by
  cases fuel with
  | zero => rw [drain, hnil]; rfl
  | succ fuel => rw [drain, hnil]

theorem drain_drained {tv : Bool} {fuel : Nat} {s : Drain}
    (hfuel : (s.source.channels tv).length ≤ fuel) (hshow : Shows s.heap (s.source.channels tv) cs)
    (ht : ∀ c ∈ cs, inMode tv c.serviceType = true) (hnodup : (s.source.channels tv).Nodup)
    (hapart : ∀ p ∈ pointers s.dest, p ∉ s.source.channels tv)
    (hdest : Represents s.heap s.dest v) :
    ∃ s', drain tv fuel s = some s' ∧ Drained tv s s' v cs := by
  induction cs generalizing s v fuel with
  | nil =>
    have hnil := List.map_eq_nil_iff.mp hshow
    exact ⟨s, drain_nil hnil fuel, hdest, fun _ _ => rfl, fun _ _ => rfl, fun p hp => .inl hp⟩
  | cons c cs ih =>
    cases hp : s.source.channels tv with
    | nil =>
      rw [hp] at hshow
      cases hshow
    | cons p ps =>
      rw [hp] at hshow hfuel hnodup
      obtain ⟨hc, hrest⟩ := shows_cons hshow
      obtain ⟨hps, hnodup⟩ := List.nodup_cons.mp hnodup
      have hfirst : p ∉ pointers s.dest := fun h => hapart p h (hp ▸ List.mem_cons_self)
      obtain ⟨s₁, hstep, hsource, hdest₁, hother, hframe, hpointers⟩ :=
        drainStep_drained hp hc (ht c List.mem_cons_self) hps hfirst hdest
      have hapart₁ : ∀ q ∈ pointers s₁.dest, q ∉ s₁.source.channels tv := by
        intro q hq hmem
        rw [hsource] at hmem
        rcases hpointers q hq with hq | rfl
        · exact hapart q hq (hp ▸ List.mem_cons_of_mem p hmem)
        · exact hps hmem
      have hshow₁ : Shows s₁.heap (s₁.source.channels tv) cs := by
        rw [hsource]
        exact hrest.congr fun q hq => hframe q fun h => hps (h ▸ hq)
      cases fuel with
      | zero => cases hfuel
      | succ fuel =>
        have hfuel₁ : (s₁.source.channels tv).length ≤ fuel := by
          rw [hsource]
          exact Nat.le_of_succ_le_succ hfuel
        obtain ⟨s', hdrain, hdrained⟩ := ih hfuel₁ hshow₁
          (fun c hc => ht c (List.mem_cons_of_mem _ hc)) (hsource ▸ hnodup) hapart₁ hdest₁
        refine ⟨s', ?_, hdrained.represents, ?_, ?_, ?_⟩
        · rw [drain, hp]
          dsimp only
          rw [hstep]
          exact hdrain
        · intro tv' hne
          rw [hdrained.other tv' hne, hother tv' hne]
        · intro q hq
          rw [hp] at hq
          have hq₁ : q ∉ s₁.source.channels tv := by
            rw [hsource]
            exact fun h => hq (List.mem_cons_of_mem p h)
          rw [hdrained.frame q hq₁, hframe q fun h => hq (h ▸ List.mem_cons_self)]
        · intro q hq
          rw [hp]
          rcases hdrained.pointers q hq with hq | hq
          · rcases hpointers q hq with hq | rfl
            · exact .inl hq
            · exact .inr List.mem_cons_self
          · rw [hsource] at hq
            exact .inr (List.mem_cons_of_mem p hq)

/-! ## One scanned bouquet -/

/-- The loops in the middle: no pointer of a bouquet that is still to come is in a bouquet that
is done. -/
structure Merging (h : Heap) (bs : List CBouquet) (vs : List Contents) (stored : List CBouquet)
    (scanned : List Contents) : Prop where
  done : List.Forall₂ (Represents h) bs vs
  coming : List.Forall₂ (Represents h) stored scanned
  distinct : (stored.flatMap pointers).Nodup
  apart : ∀ b ∈ bs, ∀ p ∈ pointers b, p ∉ stored.flatMap pointers

theorem map_name {bs : List CBouquet} {vs : List Contents}
    (hr : List.Forall₂ (Represents h) bs vs) : bs.map CBouquet.name = vs.map Contents.name := by
  induction hr with
  | nil => rfl
  | cons hb _ ih => rw [List.map_cons, List.map_cons, hb.name, ih]

theorem findIdx?_name {bs : List CBouquet} {vs : List Contents}
    (hr : List.Forall₂ (Represents h) bs vs) (name : Str) :
    (bs.findIdx? fun x => x.name = name) = vs.findIdx? fun x => x.name = name := by
  have hfind := congrArg (List.findIdx? fun n => decide (n = name)) (map_name hr)
  rw [List.findIdx?_map, List.findIdx?_map] at hfind
  exact hfind

theorem forall₂_at {α β : Type} {R : α → β → Prop} {xs : List α} {ys : List β}
    (hr : List.Forall₂ R xs ys) {i : Nat} {y : β} (hy : ys[i]? = some y) :
    ∃ x, xs[i]? = some x ∧ R x y := by
  induction hr generalizing i with
  | nil => cases hy
  | cons hxy _ ih =>
    cases i with
    | zero =>
      cases hy
      exact ⟨_, rfl, hxy⟩
    | succ i => exact ih hy

theorem forall₂_imp {α β : Type} {R R' : α → β → Prop} {xs : List α} {ys : List β}
    (hr : List.Forall₂ R xs ys) (hkeep : ∀ x ∈ xs, ∀ y, R x y → R' x y) :
    List.Forall₂ R' xs ys := by
  induction hr with
  | nil => exact .nil
  | cons hxy _ ih =>
    exact .cons (hkeep _ List.mem_cons_self _ hxy)
      (ih fun x hx => hkeep x (List.mem_cons_of_mem _ hx))

theorem forall₂_set {α β : Type} {R R' : α → β → Prop} {xs : List α} {ys : List β}
    (hr : List.Forall₂ R xs ys) (hkeep : ∀ x ∈ xs, ∀ y, R x y → R' x y) {i : Nat} {y : β}
    (hy : ys[i]? = some y) {x' : α} {f : β → β} (hx' : R' x' (f y)) :
    List.Forall₂ R' (xs.set i x') (ys.modify i f) := by
  induction hr generalizing i with
  | nil => cases hy
  | @cons x z xs zs hxz hrest ih =>
    have hkeep' : ∀ x ∈ xs, ∀ y, R x y → R' x y := fun x hx => hkeep x (List.mem_cons_of_mem _ hx)
    cases i with
    | zero =>
      cases hy
      exact .cons hx' (forall₂_imp hrest hkeep')
    | succ i => exact .cons (hkeep x List.mem_cons_self z hxz) (ih hkeep' hy)

/-- Both lists of a scanned bouquet are emptied into `dest`. -/
theorem drain_both {fuel : Nat} (hb : Represents h b v) (ht : v.Typed)
    (hfuel : ∀ tv, (b.channels tv).length ≤ fuel) (hnodup : (pointers b).Nodup)
    {w : Contents} (hdest : Represents h dest w) (hapart : ∀ p ∈ pointers dest, p ∉ pointers b) :
    ∃ s₁ s₂, drain true fuel ⟨h, dest, b⟩ = some s₁ ∧ drain false fuel s₁ = some s₂ ∧
      Represents s₂.heap s₂.dest (v.all.foldl Contents.take w) ∧
      (∀ p ∉ pointers b, s₂.heap.objects p = h.objects p) ∧
      ∀ p ∈ pointers s₂.dest, p ∈ pointers dest ∨ p ∈ pointers b := by
  obtain ⟨htv, hradio, hdisjoint⟩ := List.nodup_append.mp hnodup
  obtain ⟨s₁, hs₁, hd₁⟩ := drain_drained (s := ⟨h, dest, b⟩) (hfuel true) (hb.channels true)
    (ht true) htv (fun p hp hmem => hapart p hp (mem_pointers.mpr ⟨true, hmem⟩)) hdest
  have hsource : s₁.source.channels false = b.channels false := hd₁.other false Bool.false_ne_true
  have hframe : ∀ p ∈ b.channels false, s₁.heap.objects p = h.objects p :=
    fun p hp => hd₁.frame p fun hmem => hdisjoint p hmem p hp rfl
  have hshow : Shows s₁.heap (s₁.source.channels false) (v.channels false) := by
    rw [hsource]
    exact (hb.channels false).congr hframe
  have hapart₁ : ∀ p ∈ pointers s₁.dest, p ∉ s₁.source.channels false := by
    intro p hp hmem
    rw [hsource] at hmem
    rcases hd₁.pointers p hp with hp | hp
    · exact hapart p hp (mem_pointers.mpr ⟨false, hmem⟩)
    · exact hdisjoint p hp p hmem rfl
  obtain ⟨s₂, hs₂, hd₂⟩ := drain_drained (hsource ▸ hfuel false) hshow (ht false)
    (hsource ▸ hradio) hapart₁ hd₁.represents
  refine ⟨s₁, s₂, hs₁, hs₂, ?_, ?_, ?_⟩
  · rw [Contents.all, List.foldl_append]
    exact hd₂.represents
  · intro p hp
    have hradio : p ∉ s₁.source.channels false := by
      rw [hsource]
      exact fun hmem => hp (mem_pointers.mpr ⟨false, hmem⟩)
    rw [hd₂.frame p hradio]
    exact hd₁.frame p fun hmem => hp (mem_pointers.mpr ⟨true, hmem⟩)
  · intro p hp
    rcases hd₂.pointers p hp with hp | hp
    · rcases hd₁.pointers p hp with hp | hp
      · exact .inl hp
      · exact .inr (mem_pointers.mpr ⟨true, hp⟩)
    · rw [hsource] at hp
      exact .inr (mem_pointers.mpr ⟨false, hp⟩)

theorem mergeBouquet_merging {fuel : Nat} {bs stored : List CBouquet} {vs scanned : List Contents}
    (hm : Merging h bs vs (b :: stored) (v :: scanned)) (ht : v.Typed) (hname : (0 : Byte) ∉ v.name)
    (hfuel : ∀ tv, (b.channels tv).length ≤ fuel) :
    ∃ h' bs', mergeBouquet fuel (h, bs) b = some (h', bs') ∧
      Merging h' bs' (mergeOne vs v) stored scanned := by
  obtain ⟨hb, hcoming⟩ := List.forall₂_cons.mp hm.coming
  have hdistinct := hm.distinct
  rw [List.flatMap_cons] at hdistinct
  obtain ⟨hnodup, hrest, hdisjoint⟩ := List.nodup_append.mp hdistinct
  have hapart : ∀ x ∈ bs, ∀ p ∈ pointers x, p ∉ pointers b ∧ p ∉ stored.flatMap pointers := by
    intro x hx p hp
    have hnot := hm.apart x hx p hp
    rw [List.flatMap_cons, List.mem_append, not_or] at hnot
    exact hnot
  unfold mergeBouquet mergeOne
  dsimp only
  rw [hb.name, cString_eq_self hname, findIdx?_name hm.done]
  cases hi : vs.findIdx? fun x => x.name = v.name with
  | none =>
    refine ⟨h, bs ++ [b], rfl, List.rel_append hm.done (.cons hb .nil), hcoming, hrest, ?_⟩
    intro x hx p hp
    rcases List.mem_append.mp hx with hx | hx
    · exact (hapart x hx p hp).2
    · obtain rfl := List.mem_singleton.mp hx
      exact fun hmem => hdisjoint p hp p hmem rfl
  | some i =>
    obtain ⟨hlt, -, -⟩ := List.findIdx?_eq_some_iff_getElem.mp hi
    have hw := List.getElem?_eq_getElem hlt
    obtain ⟨dest, hdest, hrep⟩ := forall₂_at hm.done hw
    have hmem := List.mem_of_getElem? hdest
    obtain ⟨s₁, s₂, hs₁, hs₂, hrep₂, hframe, hpointers⟩ := drain_both hb ht hfuel hnodup hrep
      fun p hp => (hapart dest hmem p hp).1
    dsimp only
    rw [hdest]
    dsimp only
    rw [hs₁]
    dsimp only
    rw [hs₂]
    refine ⟨s₂.heap, bs.set i s₂.dest, rfl, ?_, ?_, hrest, ?_⟩
    · refine forall₂_set hm.done (fun x hx y hxy => hxy.congr fun p hp => ?_) hw hrep₂
      exact hframe p (hapart x hx p hp).1
    · refine forall₂_imp hcoming fun x hx y hxy => hxy.congr fun p hp => hframe p fun hpb => ?_
      exact hdisjoint p hpb p (List.mem_flatMap.mpr ⟨x, hx, hp⟩) rfl
    · intro x hx p hp
      rcases List.mem_or_eq_of_mem_set hx with hx | rfl
      · exact (hapart x hx p hp).2
      · rcases hpointers p hp with hp | hp
        · exact (hapart dest hmem p hp).2
        · exact fun hmem' => hdisjoint p hp p hmem' rfl

theorem mergeAll_merging {fuel : Nat} {bs stored : List CBouquet} {vs scanned : List Contents}
    (hm : Merging h bs vs stored scanned) (ht : ∀ v ∈ scanned, v.Typed)
    (hname : ∀ v ∈ scanned, (0 : Byte) ∉ v.name)
    (hfuel : ∀ b ∈ stored, ∀ tv, (b.channels tv).length ≤ fuel) :
    ∃ h' bs', stored.foldlM (mergeBouquet fuel) (h, bs) = some (h', bs') ∧
      List.Forall₂ (Represents h') bs' (scanned.foldl mergeOne vs) := by
  induction stored generalizing h bs vs scanned with
  | nil =>
    cases hm.coming
    exact ⟨h, bs, rfl, hm.done⟩
  | cons b stored ih =>
    cases scanned with
    | nil => cases hm.coming
    | cons v scanned =>
      obtain ⟨h₁, bs₁, hmerge, hm₁⟩ := mergeBouquet_merging hm (ht v List.mem_cons_self)
        (hname v List.mem_cons_self) (hfuel b List.mem_cons_self)
      obtain ⟨h', bs', hall, hdone⟩ := ih hm₁ (fun v hv => ht v (List.mem_cons_of_mem _ hv))
        (fun v hv => hname v (List.mem_cons_of_mem _ hv))
        (fun b hb => hfuel b (List.mem_cons_of_mem _ hb))
      refine ⟨h', bs', ?_, hdone⟩
      rw [List.foldlM_cons, hmerge]
      exact hall

/-! ## Copying -/

/-- The objects that were there are still there. -/
structure Grows (h h' : Heap) : Prop where
  next : h.next ≤ h'.next
  objects : ∀ p < h.next, h'.objects p = h.objects p

theorem Grows.refl : Grows h h := ⟨Nat.le_refl _, fun _ _ => rfl⟩

theorem Grows.trans {h'' : Heap} (hg : Grows h h') (hg' : Grows h' h'') : Grows h h'' :=
  ⟨hg.next.trans hg'.next, fun p hp => by
    rw [hg'.objects p (Nat.lt_of_lt_of_le hp hg.next), hg.objects p hp]⟩

theorem grows_new (c : CZapitChannel) : Grows h (h.new c) :=
  ⟨Nat.le_succ _, fun _ hp => if_neg (Nat.ne_of_lt hp)⟩

variable {allchans : Tallchans}

theorem copyChannels_shows {ids : List Nat} (hids : ∀ id ∈ ids, ∃ c, allchans.find id = some c)
    (h : Heap) : ∃ ps h', copyChannels allchans ids h = some (ps, h') ∧ Grows h h' ∧
      Shows h' ps (ids.filterMap allchans.find) ∧ ∀ p ∈ ps, h.next ≤ p ∧ p < h'.next := by
  induction ids generalizing h with
  | nil => exact ⟨[], h, rfl, .refl, rfl, by simp⟩
  | cons id ids ih =>
    obtain ⟨c, hc⟩ := hids id List.mem_cons_self
    obtain ⟨ps, h', hcopy, hgrows, hshows, hnew⟩ :=
      ih (fun id hid => hids id (List.mem_cons_of_mem _ hid)) (h.new c)
    have hfirst : h'.objects h.next = some c := by
      rw [hgrows.objects h.next (Nat.lt_succ_self _)]
      exact if_pos rfl
    refine ⟨h.next :: ps, h', ?_, (grows_new c).trans hgrows, ?_, ?_⟩
    · rw [copyChannels, hc]
      dsimp only
      rw [hcopy]
    · rw [List.filterMap_cons_some hc, Shows, List.map_cons, List.map_cons, hfirst, hshows]
    · intro p hp
      rcases List.mem_cons.mp hp with rfl | hp
      · exact ⟨Nat.le_refl _, Nat.lt_of_lt_of_le (Nat.lt_succ_self _) hgrows.next⟩
      · obtain ⟨hle, hlt⟩ := hnew p hp
        exact ⟨Nat.le_of_succ_le hle, hlt⟩

theorem copyBouquet_represents (hb : Listed allchans b) (h : Heap) :
    ∃ b' h', copyBouquet allchans b h = some (b', h') ∧ Grows h h' ∧
      Represents h' b' (contents allchans.find b) ∧
      ∀ p ∈ pointers b', h.next ≤ p ∧ p < h'.next := by
  obtain ⟨tv, h₁, htv, hg₁, hs₁, hn₁⟩ :=
    copyChannels_shows (fun id hid => (hb.tv id hid).imp fun _ hc => hc.1) h
  obtain ⟨radio, h₂, hradio, hg₂, hs₂, hn₂⟩ :=
    copyChannels_shows (fun id hid => (hb.radio id hid).imp fun _ hc => hc.1) h₁
  refine ⟨{ b with tvChannels := tv, radioChannels := radio }, h₂, ?_, hg₁.trans hg₂, ?_, ?_⟩
  · rw [copyBouquet, htv]
    dsimp only
    rw [hradio]
  · refine ⟨rfl, rfl, rfl, rfl, rfl, fun tv' => ?_⟩
    cases tv' with
    | true => exact hs₁.congr fun p hp => hg₂.objects p (hn₁ p hp).2
    | false => exact hs₂
  · intro p hp
    rcases List.mem_append.mp hp with hp | hp
    · exact ⟨(hn₁ p hp).1, Nat.lt_of_lt_of_le (hn₁ p hp).2 hg₂.next⟩
    · exact ⟨hg₁.next.trans (hn₂ p hp).1, (hn₂ p hp).2⟩

theorem copyBouquets_represents {bs : List CBouquet} (hbs : ∀ b ∈ bs, Listed allchans b)
    (h : Heap) :
    ∃ bs' h', copyBouquets allchans bs h = some (bs', h') ∧ Grows h h' ∧
      List.Forall₂ (Represents h') bs' (bs.map (contents allchans.find)) ∧
      ∀ b ∈ bs', ∀ p ∈ pointers b, h.next ≤ p ∧ p < h'.next := by
  induction bs generalizing h with
  | nil => exact ⟨[], h, rfl, .refl, .nil, by simp⟩
  | cons b bs ih =>
    obtain ⟨b', h₁, hcopy, hg₁, hr₁, hn₁⟩ := copyBouquet_represents (hbs b List.mem_cons_self) h
    obtain ⟨bs', h₂, hcopies, hg₂, hr₂, hn₂⟩ :=
      ih (fun b hb => hbs b (List.mem_cons_of_mem _ hb)) h₁
    refine ⟨b' :: bs', h₂, ?_, hg₁.trans hg₂, .cons ?_ hr₂, ?_⟩
    · rw [copyBouquets, hcopy]
      dsimp only
      rw [hcopies]
    · exact hr₁.congr fun p hp => hg₂.objects p (hn₁ p hp).2
    · intro x hx p hp
      rcases List.mem_cons.mp hx with rfl | hx
      · exact ⟨(hn₁ p hp).1, Nat.lt_of_lt_of_le (hn₁ p hp).2 hg₂.next⟩
      · exact ⟨hg₁.next.trans (hn₂ x hx p hp).1, (hn₂ x hx p hp).2⟩

/-! ## What the scan has made -/

theorem perm_moveItem {α : Type} (l : List α) (i j : Nat) : (moveItem l i j).Perm l := by
  unfold moveItem
  cases hi : l[i]? with
  | none => exact .refl l
  | some x =>
    obtain ⟨hlt, rfl⟩ := List.getElem?_eq_some_iff.mp hi
    dsimp only
    split_ifs with hj
    · have hle : j ≤ (l.eraseIdx i).length := by
        rw [List.length_eraseIdx_of_lt hlt]
        omega
      exact (List.perm_insertIdx _ _ hle).trans (List.getElem_cons_eraseIdx_perm hlt)
    · exact .refl l

theorem Made.perm {bs bs' : List CBouquet} (hm : Made h bs) (hp : bs'.Perm bs) : Made h bs' where
  typed := fun b hb => hm.typed b (hp.mem_iff.mp hb)
  named := fun b hb => hm.named b (hp.mem_iff.mp hb)
  distinct := (hp.flatMap_right pointers).nodup_iff.mpr hm.distinct
  allocated := fun p hp' => hm.allocated p ((hp.flatMap_right pointers).mem_iff.mp hp')

/-- A bouquet with the same channels, in the same place. -/
theorem Made.replace {l₁ l₂ : List CBouquet} {b' : CBouquet} (hm : Made h (l₁ ++ b :: l₂))
    (hname : b'.name = b.name) (hchannels : ∀ tv, b'.channels tv = b.channels tv) :
    Made h (l₁ ++ b' :: l₂) := by
  have hpointers : pointers b' = pointers b := congrArg₂ (· ++ ·) (hchannels true) (hchannels false)
  have hflat : (l₁ ++ b' :: l₂).flatMap pointers = (l₁ ++ b :: l₂).flatMap pointers := by
    simp only [List.flatMap_append, List.flatMap_cons, hpointers]
  have hmem : ∀ x ∈ l₁ ++ b' :: l₂, x = b' ∨ x ∈ l₁ ++ b :: l₂ := by
    intro x hx
    rw [List.mem_append, List.mem_cons] at hx ⊢
    tauto
  have hb : b ∈ l₁ ++ b :: l₂ := List.mem_append_right _ List.mem_cons_self
  refine ⟨fun x hx tv p hp => ?_, fun x hx => ?_, hflat ▸ hm.distinct, hflat ▸ hm.allocated⟩
  · rcases hmem x hx with rfl | hx
    · exact hm.typed b hb tv p (hchannels tv ▸ hp)
    · exact hm.typed x hx tv p hp
  · rcases hmem x hx with rfl | hx
    · exact hname ▸ hm.named b hb
    · exact hm.named x hx

/-- Objects that are allocated stay what they are. -/
theorem Made.new {bs : List CBouquet} (hm : Made h bs) (c : CZapitChannel) : Made (h.new c) bs where
  typed := by
    intro b hb tv p hp
    have hlt := hm.allocated p (List.mem_flatMap.mpr ⟨b, hb, mem_pointers.mpr ⟨tv, hp⟩⟩)
    rw [(grows_new c).objects p hlt]
    exact hm.typed b hb tv p hp
  named := hm.named
  distinct := hm.distinct
  allocated := fun p hp => (hm.allocated p hp).trans (Nat.lt_succ_self _)

theorem perm_pointers_addService {tv : Bool} {type : UInt8} (ht : inMode tv type = true) (p : Nat) :
    (pointers (b.addService p type)).Perm (p :: pointers b) := by
  have htv : (b.addService p type).tvChannels = _ := channels_addService ht p true
  have hradio : (b.addService p type).radioChannels = _ := channels_addService ht p false
  rw [pointers, htv, hradio]
  cases tv with
  | true =>
    rw [if_pos rfl, if_neg Bool.false_ne_true, List.append_assoc]
    exact List.perm_middle
  | false =>
    rw [if_neg Bool.false_ne_true.symm, if_pos rfl, ← List.append_assoc]
    exact List.perm_append_singleton _ _

theorem addService_other {type : UInt8} (ht : ∀ tv, inMode tv type = false) (p : Nat) :
    b.addService p type = b := by
  have htv : isTv type = false := ht true
  have hradio : isRadio type = false := ht false
  rw [CBouquet.addService, htv, hradio]
  rfl

/-- The new object gets into a list that takes its type, or into none. -/
theorem Made.addService {l₁ l₂ : List CBouquet} (hm : Made h (l₁ ++ b :: l₂)) (c : CZapitChannel) :
    Made (h.new c) (l₁ ++ b.addService h.next c.serviceType :: l₂) := by
  by_cases hother : ∀ tv, inMode tv c.serviceType = false
  · rw [addService_other hother]
    exact hm.new c
  · obtain ⟨tv, ht⟩ : ∃ tv, inMode tv c.serviceType = true := by
      obtain ⟨tv, htv⟩ := not_forall.mp hother
      exact ⟨tv, Bool.eq_true_of_not_eq_false htv⟩
    have hperm : ((l₁ ++ b.addService h.next c.serviceType :: l₂).flatMap pointers).Perm
        (h.next :: (l₁ ++ b :: l₂).flatMap pointers) := by
      simp only [List.flatMap_append, List.flatMap_cons]
      have hadd := (perm_pointers_addService (b := b) ht h.next).append_right (l₂.flatMap pointers)
      exact (hadd.append_left _).trans List.perm_middle
    have hfresh : h.next ∉ (l₁ ++ b :: l₂).flatMap pointers :=
      fun hmem => Nat.lt_irrefl _ (hm.allocated _ hmem)
    have hmem : ∀ x ∈ l₁ ++ b.addService h.next c.serviceType :: l₂,
        x = b.addService h.next c.serviceType ∨ x ∈ l₁ ++ b :: l₂ := by
      intro x hx
      rw [List.mem_append, List.mem_cons] at hx ⊢
      tauto
    have hb : b ∈ l₁ ++ b :: l₂ := List.mem_append_right _ List.mem_cons_self
    refine ⟨fun x hx tv' p hp => ?_, fun x hx => ?_, ?_, fun p hp => ?_⟩
    · rcases hmem x hx with rfl | hx
      · rw [channels_addService ht] at hp
        split_ifs at hp with htv
        · rcases List.mem_append.mp hp with hp | hp
          · exact (hm.new c).typed b hb tv' p hp
          · obtain rfl := List.mem_singleton.mp hp
            exact ⟨c, if_pos rfl, htv ▸ ht⟩
        · exact (hm.new c).typed b hb tv' p hp
      · exact (hm.new c).typed x hx tv' p hp
    · rcases hmem x hx with rfl | hx
      · rw [(addService_same b _ _).1]
        exact hm.named b hb
      · exact hm.named x hx
    · exact hperm.nodup_iff.mpr (List.nodup_cons.mpr ⟨hfresh, hm.distinct⟩)
    · rcases List.mem_cons.mp (hperm.mem_iff.mp hp) with rfl | hp
      · exact Nat.lt_succ_self _
      · exact (hm.new c).allocated p hp

theorem made_exec {bs : List CBouquet} (hm : Made h bs) {r : ScanRequest} (hr : r.Named) :
    Made (r.exec (h, bs)).1 (r.exec (h, bs)).2 := by
  cases r with
  | addBouquet name =>
    have hflat : (bs ++ [CBouquet.new name]).flatMap pointers = bs.flatMap pointers := by
      simp [pointers, CBouquet.new]
    refine ⟨fun b hb tv p hp => ?_, fun b hb => ?_, hflat ▸ hm.distinct, hflat ▸ hm.allocated⟩
    · rcases List.mem_append.mp hb with hb | hb
      · exact hm.typed b hb tv p hp
      · obtain rfl := List.mem_singleton.mp hb
        cases tv <;> cases hp
    · rcases List.mem_append.mp hb with hb | hb
      · exact hm.named b hb
      · obtain rfl := List.mem_singleton.mp hb
        exact hr
  | setFlags i bHidden bLocked bouquetId =>
    rcases Nat.lt_or_ge i bs.length with hi | hi
    · obtain ⟨l₁, b, l₂, hbs, -, hmodify⟩ := List.exists_of_modify (fun b : CBouquet =>
        { b with bHidden := bHidden, bLocked := bLocked, bouquetId := bouquetId }) hi
      unfold ScanRequest.exec
      dsimp only
      rw [hmodify]
      exact (hbs ▸ hm : Made h (l₁ ++ b :: l₂)).replace rfl fun _ => rfl
    · unfold ScanRequest.exec
      dsimp only
      rw [List.modify_eq_self hi]
      exact hm
  | moveBouquet oldId newId => exact hm.perm (perm_moveItem bs oldId newId)
  | addService i c =>
    unfold ScanRequest.exec
    dsimp only
    rcases Nat.lt_or_ge i bs.length with hi | hi
    · obtain ⟨l₁, b, l₂, hbs, -, hmodify⟩ := List.exists_of_modify
        (fun b : CBouquet => b.addService h.next c.serviceType) hi
      rw [hmodify]
      exact (hbs ▸ hm : Made h (l₁ ++ b :: l₂)).addService c
    · rw [List.modify_eq_self hi]
      exact hm.new c

/-- Whatever the scan finds, the bouquets can be read afterwards. -/
theorem made_scannedBouquets (h : Heap) {rs : List ScanRequest} (hrs : ∀ r ∈ rs, r.Named) :
    Made (scannedBouquets h rs).1 (scannedBouquets h rs).2 := by
  unfold scannedBouquets
  have hempty : Made h [] := ⟨by simp, by simp, List.nodup_nil, by simp⟩
  generalize ([] : List CBouquet) = bs at hempty ⊢
  induction rs generalizing h bs with
  | nil => exact hempty
  | cons r rs ih =>
    exact ih _ (fun r hr => hrs r (List.mem_cons_of_mem _ hr)) _
      (made_exec hempty (hrs r List.mem_cons_self))

/-! ## The whole update -/

theorem shows_filterMap (hps : ∀ p ∈ ps, ∃ c, h.objects p = some c) :
    Shows h ps (ps.filterMap h.objects) := by
  induction ps with
  | nil => rfl
  | cons p ps ih =>
    obtain ⟨c, hc⟩ := hps p List.mem_cons_self
    have hrest := ih fun q hq => hps q (List.mem_cons_of_mem p hq)
    rw [List.filterMap_cons_some hc, Shows, List.map_cons, List.map_cons, hc, hrest]

theorem Made.represents {bs : List CBouquet} (hm : Made h bs) :
    List.Forall₂ (Represents h) bs (bs.map (contents h.objects)) := by
  refine List.forall₂_map_right_iff.mpr (List.forall₂_same.mpr fun b hb => ?_)
  refine ⟨rfl, rfl, rfl, rfl, rfl, fun tv => ?_⟩
  have hshows := shows_filterMap fun p hp => (hm.typed b hb tv p hp).imp fun _ hc => hc.1
  cases tv with
  | true => exact hshows
  | false => exact hshows

theorem Made.contents_typed {bs : List CBouquet} (hm : Made h bs) :
    ∀ v ∈ bs.map (contents h.objects), v.Typed := by
  intro v hv tv c hc
  obtain ⟨b, hb, rfl⟩ := List.mem_map.mp hv
  have hmem : c ∈ (b.channels tv).filterMap h.objects := by
    cases tv with
    | true => exact hc
    | false => exact hc
  obtain ⟨p, hp, hpc⟩ := List.mem_filterMap.mp hmem
  obtain ⟨d, hd, ht⟩ := hm.typed b hb tv p hp
  rw [hpc] at hd
  cases hd
  exact ht

/-- The saved bouquets take in what was scanned, every pointer of theirs can be read, and the
loops come to an end. -/
theorem updateBouquets_mergedScan {loaded : CBouquetManager} {stored : List CBouquet} {fuel : Nat}
    (hl : AllListed allchans loaded) (hm : Made h stored)
    (hfuel : ∀ b ∈ stored, ∀ tv, (b.channels tv).length ≤ fuel) :
    ∃ h' bs, updateBouquets allchans fuel loaded h stored = some (h', bs) ∧
      List.Forall₂ (Represents h') bs
        (mergedScan (((loaded.deleteAddress loaded.remainChannels).bouquets.map Prod.snd).map
          (contents allchans.find)) (stored.map (contents h.objects))) := by
  have hlisted : ∀ b ∈ (loaded.deleteAddress loaded.remainChannels).bouquets.map Prod.snd,
      Listed allchans b := by
    intro b hb
    obtain ⟨x, hx, rfl⟩ := List.mem_map.mp hb
    exact hl.deleteAddress loaded.remainChannels x hx
  obtain ⟨bs, h₁, hcopy, hgrows, hrep, hnew⟩ := copyBouquets_represents hlisted h
  have hmerging : Merging h₁ bs
      (((loaded.deleteAddress loaded.remainChannels).bouquets.map Prod.snd).map
        (contents allchans.find)) stored (stored.map (contents h.objects)) := by
    refine ⟨hrep, ?_, hm.distinct, ?_⟩
    · refine forall₂_imp hm.represents fun x hx y hxy => hxy.congr fun p hp => ?_
      exact hgrows.objects p (hm.allocated p (List.mem_flatMap.mpr ⟨x, hx, hp⟩))
    · intro b hb p hp hmem
      exact Nat.not_le_of_lt (hm.allocated p hmem) (hnew b hb p hp).1
  have hnamed : ∀ v ∈ stored.map (contents h.objects), (0 : Byte) ∉ v.name := by
    intro v hv
    obtain ⟨b, hb, rfl⟩ := List.mem_map.mp hv
    exact hm.named b hb
  obtain ⟨h', bs', hall, hdone⟩ := mergeAll_merging hmerging hm.contents_typed hnamed hfuel
  refine ⟨h', bs', ?_, foldl_mergeOne hm.contents_typed ▸ hdone⟩
  unfold updateBouquets
  dsimp only
  rw [hcopy]
  exact hall

/-- The service of the sample found twice under the name of a saved bouquet, and once under a new
one. -/
def sampleScan : List ScanRequest :=
  [.addBouquet (chars "<News>"), .addService 0 sampleChannel, .addBouquet (chars "<News>"),
    .addService 1 sampleChannel, .addBouquet (chars "Radio"), .addService 2 sampleChannel,
    .moveBouquet 2 0]

theorem updateBouquets_mergedScan_sample :
    ∃ h' bs, updateBouquets sampleChannels 3 (sampleManager newsRequests)
        (scannedBouquets ⟨fun _ => none, 0⟩ sampleScan).1
        (scannedBouquets ⟨fun _ => none, 0⟩ sampleScan).2 = some (h', bs) ∧
      List.Forall₂ (Represents h') bs
        (mergedScan ((((sampleManager newsRequests).deleteAddress
            (sampleManager newsRequests).remainChannels).bouquets.map Prod.snd).map
            (contents sampleChannels.find))
          ((scannedBouquets ⟨fun _ => none, 0⟩ sampleScan).2.map
            (contents (scannedBouquets ⟨fun _ => none, 0⟩ sampleScan).1.objects))) :=
  updateBouquets_mergedScan (reachable_listed ⟨true, newsRequests, rfl⟩)
    (made_scannedBouquets _ (by decide))
    (by decide)

end

end Tuxbox.Zapit
