import Mathlib.Data.Set.Function
import Tuxbox.Enigma.EventData

/-!
# The descriptors of the events
-/

namespace Tuxbox.Enigma

open Buffer

/-! ## Events -/

structure EventDescriptor where
  tag : Byte
  body : Str
  short : body.length < 256

def EventDescriptor.encode (d : EventDescriptor) : Str :=
  d.tag :: UInt8.ofNat d.body.length :: d.body

/-- An event as it is in a section: a loop of descriptors behind twelve bytes. -/
structure Event where
  header : Str
  descriptors : List EventDescriptor
  header_length : header.length = 12
  fits : (descriptors.flatMap EventDescriptor.encode).length < 4096

namespace Event

def bytes (e : Event) : Str := e.header ++ e.descriptors.flatMap EventDescriptor.encode

/-- The descriptors of the kinds that are kept. -/
def cached (e : Event) : List Str :=
  (e.descriptors.filter fun d => isCached d.tag).map EventDescriptor.encode

/-- What is to be put together again. -/
def kept (e : Event) : Str :=
  e.header.take 10 ++ [UInt8.ofNat (e.cached.flatten.length / 256), UInt8.ofNat
    (e.cached.flatten.length % 256)] ++ e.cached.flatten

end Event

/-- A descriptor that is used `n` times is stored with this count, one that is not used is
not stored. -/
def EventStore.Counts (s : EventStore) (n : UInt32 → Nat) : Prop :=
  ∀ id, (s.descriptors.find id).map (fun p => p.first.toNat) =
    if n id = 0 then none else some (n id)

/-! ## One more place -/

namespace EventStore

variable {s t : EventStore} {id : UInt32} {D : Set Str} {n : UInt32 → Nat}

/-- How often a descriptor is used. -/
def references (s : EventStore) (id : UInt32) : Nat :=
  ((s.descriptors.find id).map fun p => p.first.toNat).getD 0

def bytes (s : EventStore) (id : UInt32) : Option Str :=
  (s.descriptors.find id).map DescriptorPair.second

/-- What the size of the cache is above that of the descriptors. -/
def surplus (s : EventStore) : Int :=
  s.cacheSize - s.descriptors.total fun p => p.second.length

/-- What is stored are descriptors of `D` under their checksums. -/
def Stores (D : Set Str) (s : EventStore) : Prop :=
  ∀ id d, s.bytes id = some d → d ∈ D ∧ crc32 d = id ∧ ∃ x : EventDescriptor, d = x.encode

theorem references_lt (s : EventStore) (id : UInt32) : s.references id < 65536 := by
  unfold references
  cases s.descriptors.find id with
  | none => decide
  | some p => exact p.first.toNat_lt

theorem counts_iff : s.Counts n ↔
    ∀ id, s.references id = n id ∧ ((s.bytes id).isSome ↔ n id ≠ 0) := by
  unfold Counts references bytes
  apply forall_congr'
  intro id
  cases s.descriptors.find id with
  | none | some p =>
    by_cases hzero : n id = 0
    · simp [hzero]
    · simp [hzero]

theorem references_use (s : EventStore) (descr : Str) (id : UInt32) :
    (s.use descr).references id =
      if id = crc32 descr then (s.references id + 1) % 65536 else s.references id := by
  unfold use
  cases hfind : s.descriptors.find (crc32 descr) with
  | none =>
    simp only [references, OrdMap.find_set]
    split
    · rename_i hid
      rw [hid, hfind]
      rfl
    · rfl
  | some p =>
    simp only [references, OrdMap.find_set]
    split
    · rename_i hid
      rw [hid, hfind]
      exact UInt16.toNat_add p.first 1
    · rfl

/-- Bytes that are stored stay as they are. -/
theorem bytes_use (s : EventStore) (descr : Str) (id : UInt32) :
    (s.use descr).bytes id =
      if id = crc32 descr then some ((s.bytes id).getD descr) else s.bytes id := by
  unfold use
  cases hfind : s.descriptors.find (crc32 descr) with
  | none | some p =>
    simp only [bytes, OrdMap.find_set]
    split
    · rename_i hid
      rw [hid, hfind]
      rfl
    · rfl

theorem surplus_use (s : EventStore) (descr : Str) : (s.use descr).surplus = s.surplus := by
  unfold use surplus
  have htotal := s.descriptors.total_set fun p : DescriptorPair => p.second.length
  cases hfind : s.descriptors.find (crc32 descr) with
  | none =>
    have h := htotal (crc32 descr) ⟨1, descr⟩
    rw [hfind] at h
    simp only [OrdMap.worth, Option.map_none, Option.getD_none] at h ⊢
    omega
  | some p =>
    have h := htotal (crc32 descr) { p with first := p.first + 1 }
    rw [hfind] at h
    simp only [OrdMap.worth, Option.map_some, Option.getD_some] at h ⊢
    omega

def useAll (s : EventStore) (ds : List Str) : EventStore := ds.foldl (fun s d => s.use d) s

theorem references_useAll (s : EventStore) (ds : List Str) (id : UInt32) :
    (s.useAll ds).references id = (s.references id + (ds.map crc32).count id) % 65536 := by
  unfold useAll
  induction ds generalizing s with
  | nil => exact (Nat.mod_eq_of_lt (s.references_lt id)).symm
  | cons d ds ih =>
    rw [List.foldl_cons, ih, references_use, List.map_cons, List.count_cons]
    by_cases hid : id = crc32 d
    · rw [if_pos hid, if_pos (by simp [hid])]
      omega
    · rw [if_neg hid, if_neg (by simpa using Ne.symm hid), Nat.add_zero]

theorem bytes_useAll_isSome (s : EventStore) (ds : List Str) (id : UInt32) :
    ((s.useAll ds).bytes id).isSome ↔ (s.bytes id).isSome ∨ id ∈ ds.map crc32 := by
  unfold useAll
  induction ds generalizing s with
  | nil => simp
  | cons d ds ih =>
    rw [List.foldl_cons, ih, bytes_use, List.map_cons, List.mem_cons]
    by_cases hid : id = crc32 d
    · simp [hid]
    · simp [hid]

theorem bytes_useAll {d : Str} (h : s.bytes id = some d) (ds : List Str) :
    (s.useAll ds).bytes id = some d := by
  unfold useAll
  induction ds generalizing s with
  | nil => exact h
  | cons x ds ih =>
    apply ih
    rw [bytes_use, h]
    exact ite_self (some d)

theorem surplus_useAll (s : EventStore) (ds : List Str) : (s.useAll ds).surplus = s.surplus := by
  unfold useAll
  induction ds generalizing s with
  | nil => rfl
  | cons d ds ih => rw [List.foldl_cons, ih, surplus_use]

theorem stores_useAll (hs : s.Stores D) {ds : List Str} (hD : ∀ d ∈ ds, d ∈ D)
    (hds : ∀ d ∈ ds, ∃ x : EventDescriptor, d = x.encode) : (s.useAll ds).Stores D := by
  unfold useAll
  induction ds generalizing s with
  | nil => exact hs
  | cons d ds ih =>
    refine ih ?_ (fun x hx => hD x (List.mem_cons_of_mem d hx))
      fun x hx => hds x (List.mem_cons_of_mem d hx)
    intro id b hb
    rw [bytes_use] at hb
    split at hb
    · rename_i hid
      cases hold : s.bytes id with
      | none =>
        rw [hold] at hb
        obtain rfl := Option.some_inj.mp hb
        exact ⟨hD _ List.mem_cons_self, hid.symm, hds _ List.mem_cons_self⟩
      | some q =>
        rw [hold] at hb
        exact Option.some_inj.mp hb ▸ hs id q hold
    · exact hs id b hb

/-- The counts are right as long as none overflows. -/
theorem counts_useAll (hn : s.Counts n) (ds : List Str) :
    (s.useAll ds).Counts (fun id => n id + (ds.map crc32).count id) ↔
      ∀ id ∈ ds.map crc32, n id + (ds.map crc32).count id < 65536 := by
  rw [counts_iff] at hn ⊢
  constructor
  · intro h id _
    rw [← (h id).1]
    exact (s.useAll ds).references_lt id
  · intro h id
    rw [references_useAll, bytes_useAll_isSome, (hn id).1, (hn id).2]
    by_cases hid : id ∈ ds.map crc32
    · have hpos := List.count_pos_iff.mpr hid
      exact ⟨Nat.mod_eq_of_lt (h id hid), iff_of_true (.inr hid) (by omega)⟩
    · rw [List.count_eq_zero.mpr hid, Nat.add_zero]
      exact ⟨Nat.mod_eq_of_lt ((hn id).1 ▸ s.references_lt id), by simp [hid]⟩

/-! ## One place less -/

theorem counts_some (hn : s.Counts n) (hid : n id ≠ 0) :
    ∃ p, s.descriptors.find id = some p ∧ p.first.toNat = n id := by
  have h := hn id
  rw [if_neg hid] at h
  exact Option.map_eq_some_iff.mp h

theorem sub_one_eq_zero_iff (a : UInt16) : a - 1 = 0 ↔ a.toNat = 1 := by
  rw [UInt16.sub_eq_iff_eq_add, ← UInt16.toNat_inj]
  rfl

/-- A descriptor that is not used any more is gone, and the size is two too large. -/
theorem release_spec (hs : s.Stores D) (hn : s.Counts n) (hid : n id ≠ 0) :
    ∃ t, s.release id = some t ∧ t.Counts (fun k => n k - if k = id then 1 else 0) ∧
      (∀ k d, t.bytes k = some d → s.bytes k = some d) ∧
      t.surplus = s.surplus + if n id = 1 then 2 else 0 := by
  obtain ⟨p, hp, hcount⟩ := counts_some hn hid
  unfold release
  rw [hp]
  by_cases hone : n id = 1
  · have hzero : p.first - 1 = 0 := (sub_one_eq_zero_iff _).mpr (hcount.trans hone)
    obtain ⟨-, -, x, hx⟩ := hs id p.second (by rw [bytes, hp]; rfl)
    have htotal := s.descriptors.total_erase (fun p : DescriptorPair => p.second.length) id
    rw [hp, OrdMap.worth, Option.map_some, Option.getD_some] at htotal
    have hlength : Buffer.read p.second 1 = some (UInt8.ofNat x.body.length) := by rw [hx]; rfl
    have hsize : p.second.length = x.body.length + 2 := by rw [hx]; rfl
    have hbyte : (UInt8.ofNat x.body.length).toNat = x.body.length := by
      rw [UInt8.toNat_ofNat', Nat.mod_eq_of_lt x.short]
    simp only [if_pos hzero, hlength, Option.bind_eq_bind, Option.bind_some]
    refine ⟨_, rfl, ?_, ?_, ?_⟩
    · intro k
      rw [OrdMap.find_erase]
      by_cases hk : k = id
      · simp [hk, hone]
      · simpa [hk] using hn k
    · intro k d hd
      rw [bytes, OrdMap.find_erase] at hd
      split at hd
      · cases hd
      · exact hd
    · rw [if_pos hone, surplus, surplus, hbyte]
      simp only
      omega
  · have hpos : ¬ p.first - 1 = 0 := fun h => hone (hcount ▸ (sub_one_eq_zero_iff _).mp h)
    have htotal := s.descriptors.total_set (fun p : DescriptorPair => p.second.length) id
      { p with first := p.first - 1 }
    rw [hp, OrdMap.worth, Option.map_some, Option.getD_some] at htotal
    simp only at htotal
    have hle : 1 ≤ p.first := by
      rw [UInt16.le_iff_toNat_le]
      exact Nat.one_le_iff_ne_zero.mpr (hcount ▸ hid)
    simp only [if_neg hpos]
    refine ⟨_, rfl, ?_, ?_, ?_⟩
    · intro k
      rw [OrdMap.find_set]
      by_cases hk : k = id
      · have hless : (p.first - 1).toNat = n k - 1 := by
          rw [UInt16.toNat_sub_of_le _ _ hle, hk, hcount]
          rfl
        simp only [if_pos hk, Option.map_some, hless]
        rw [if_neg (by rw [hk]; omega)]
      · simpa [hk] using hn k
    · intro k d hd
      rw [bytes, OrdMap.find_set] at hd
      split at hd
      · rename_i hk
        rw [hk, bytes, hp]
        exact hd
      · exact hd
    · rw [if_neg hone, surplus, surplus]
      simp only
      omega

/-- What is left when every one of the places is given up. -/
structure Released (s t : EventStore) (n : UInt32 → Nat) (ids : List UInt32) : Prop where
  counts : t.Counts fun k => n k - ids.count k
  bytes : ∀ k d, t.bytes k = some d → s.bytes k = some d
  surplus_le : s.surplus ≤ t.surplus
  surplus_eq : t.surplus = s.surplus ↔ ∀ id ∈ ids, ids.count id < n id

theorem Stores.mono (hs : s.Stores D) (h : ∀ k d, t.bytes k = some d → s.bytes k = some d) :
    t.Stores D := fun k d hd => hs k d (h k d hd)

/-- With an event that goes the counts stay right, and the size of the cache does if and only if
no descriptor goes with it. -/
theorem releaseAll {ids : List UInt32} (hs : s.Stores D) (hn : s.Counts n)
    (hle : ∀ id, ids.count id ≤ n id) : ∃ t, ids.foldlM release s = some t ∧ Released s t n ids := by
  induction ids generalizing s n with
  | nil => exact ⟨s, rfl, hn, fun _ _ h => h, le_rfl, by simp⟩
  | cons id ids ih =>
    have hcount : ∀ k, (id :: ids).count k = ids.count k + if k = id then 1 else 0 := by
      intro k
      rw [List.count_cons]
      exact congrArg _ (if_congr (beq_iff_eq.trans eq_comm) rfl rfl)
    have hid : ids.count id + 1 ≤ n id := by
      have := hle id
      rwa [hcount, if_pos rfl] at this
    have hne : n id ≠ 0 := by omega
    obtain ⟨t, ht, htn, htb, hts⟩ := release_spec hs hn hne
    obtain ⟨u, hu, hun, hub, hule, hueq⟩ := ih (hs.mono htb) htn (by
      intro k
      have := hle k
      rw [hcount] at this
      omega)
    refine ⟨u, by rw [List.foldlM_cons, ht]; exact hu, ?_,
      fun k d hd => htb k d (hub k d hd), ?_, ?_⟩
    · intro k
      rw [hun k]
      simp only [hcount, Nat.sub_sub, Nat.add_comm]
    · split at hts <;> omega
    · constructor
      · intro heq k hk
        have hne : n id ≠ 1 := by
          intro hone
          rw [if_pos hone] at hts
          omega
        rw [if_neg hne, add_zero] at hts
        have hall := hueq.mp (heq.trans hts.symm)
        rw [hcount]
        by_cases hmem : k ∈ ids
        · have := hall k hmem
          omega
        · obtain rfl | hk := List.mem_cons.mp hk
          · rw [List.count_eq_zero.mpr hmem, if_pos rfl]
            omega
          · exact absurd hk hmem
      · intro hall
        have hne : n id ≠ 1 := by
          have := hall id List.mem_cons_self
          rw [hcount, if_pos rfl] at this
          omega
        rw [if_neg hne, add_zero] at hts
        refine (hueq.mpr ?_).trans hts
        intro k hk
        have := hall k (List.mem_cons_of_mem id hk)
        rw [hcount] at this
        omega

end EventStore

/-! ## An event that is stored -/

section
variable {D : Set Str} {s : EventStore}

theorem EventDescriptor.encode_length (d : EventDescriptor) : d.encode.length = d.body.length + 2 :=
  rfl

theorem moves_descriptorStep (e : Str) {size stop : Nat} (h : stop ≤ size) :
    Moves (descriptorStep e size) stop := by
  intro i r q hi hq
  unfold descriptorStep at hq
  obtain ⟨-, hq⟩ := read_bind.mp hq
  obtain ⟨-, hq⟩ := read_bind.mp hq
  split at hq
  · split at hq
    · obtain ⟨descr, -, hq⟩ := Option.bind_eq_some_iff.mp hq
      obtain rfl := Option.some_inj.mp hq
      exact Nat.lt_add_of_pos_right (Nat.succ_pos _)
    · obtain rfl := Option.some_inj.mp hq
      exact Nat.lt_add_of_pos_right (Nat.succ_pos _)
  · obtain rfl := Option.some_inj.mp hq
    exact Nat.lt_of_lt_of_le hi h

/-- What one descriptor adds. -/
def keep (r : EventStore × List UInt32) (d : EventDescriptor) : EventStore × List UInt32 :=
  if isCached d.tag then (r.1.use d.encode, r.2 ++ [crc32 d.encode]) else r

theorem descriptorStep_encode {e rest : Str} {size i : Nat} (d : EventDescriptor)
    (r : EventStore × List UInt32) (h : e.drop i = d.encode ++ rest)
    (hsize : i + d.encode.length ≤ size) :
    descriptorStep e size i r = some (i + d.encode.length, keep r d) := by
  have htag : Buffer.read e i = some d.tag := read_of_drop h
  have hbehind : e.drop (i + 1) = UInt8.ofNat d.body.length :: (d.body ++ rest) := by
    rw [← List.drop_drop, h]
    rfl
  have hlength : Buffer.read e (i + 1) = some (UInt8.ofNat d.body.length) := read_of_drop hbehind
  have hbyte : (UInt8.ofNat d.body.length).toNat + 2 = d.encode.length := by
    rw [UInt8.toNat_ofNat', Nat.mod_eq_of_lt d.short, d.encode_length]
  have hstring : string e i d.encode.length = some d.encode :=
    string_of_drop h (by have := d.short; rw [d.encode_length]; omega)
  unfold descriptorStep keep
  rw [bind_of_some htag, bind_of_some hlength, hbyte, if_pos (by omega), bind_of_some hstring]
  split <;> rfl

theorem foldl_keep (ds : List EventDescriptor) (r : EventStore × List UInt32) :
    ds.foldl keep r =
      (r.1.useAll ((ds.filter fun d => isCached d.tag).map EventDescriptor.encode),
        r.2 ++ ((ds.filter fun d => isCached d.tag).map EventDescriptor.encode).map crc32) := by
  induction ds generalizing r with
  | nil => exact Prod.ext rfl (List.append_nil r.2).symm
  | cons d ds ih =>
    rw [List.foldl_cons, ih, keep]
    by_cases hd : isCached d.tag
    · rw [if_pos hd, List.filter_cons_of_pos (p := fun d : EventDescriptor => isCached d.tag) hd]
      simp only [List.map_cons, List.append_assoc, List.singleton_append]
      rfl
    · rw [if_neg hd, List.filter_cons_of_neg (p := fun d : EventDescriptor => isCached d.tag) hd]

/-- How an event is stored and put together again. -/
theorem initEventData_bytes (e : Event) (type : Nat) (s : EventStore) :
    initEventData e.bytes e.bytes.length type s =
      if e.cached.length > 65 ∨ (UInt8.ofNat (10 + e.cached.length * 4)).toNat < 10 then none
      else some ({ s.useAll e.cached with
          cacheSize := (s.useAll e.cached).cacheSize +
            (UInt8.ofNat (10 + e.cached.length * 4)).toNat },
        ⟨UInt8.ofNat (10 + e.cached.length * 4), UInt8.ofNat type, e.header.take 10,
          (e.cached.map crc32).take
            (((UInt8.ofNat (10 + e.cached.length * 4)).toNat - 10) / 4)⟩) := by
  have hdrop : e.bytes.drop 12 = e.descriptors.flatMap EventDescriptor.encode ++ [] := by
    rw [Event.bytes, List.append_nil, ← e.header_length, List.drop_left]
  have hlength : e.bytes.length = 12 + (e.descriptors.flatMap EventDescriptor.encode).length := by
    rw [Event.bytes, List.length_append, e.header_length]
  have hwalk := walk_segments EventDescriptor.encode keep 1 (s := (s, []))
    (moves_descriptorStep e.bytes (Nat.sub_le e.bytes.length 1)) e.descriptors
    (fun d _ i r rest h hi hfit => descriptorStep_encode d r h (by omega))
    (fun d _ => by rw [d.encode_length]; omega) hdrop (by omega) (by omega)
  have hhead : string e.bytes 0 10 = some (e.header.take 10) := by
    have hbytes : e.bytes.drop 0 = e.header.take 10 ++
        (e.header.drop 10 ++ e.descriptors.flatMap EventDescriptor.encode) := by
      rw [List.drop_zero, ← List.append_assoc, List.take_append_drop, Event.bytes]
    have h := string_of_drop hbytes (by rw [List.length_take]; omega)
    rwa [List.length_take, e.header_length] at h
  have hfold : e.descriptors.foldl keep (s, []) = (s.useAll e.cached, e.cached.map crc32) :=
    foldl_keep e.descriptors (s, [])
  unfold initEventData
  rw [bind_of_some hwalk, hfold, hhead]
  simp only [List.length_map]
  rfl

/-! ## An event put together again -/

theorem mapM_of_eq {α β : Type} {f g : α → Option β} {xs : List α} (h : ∀ x ∈ xs, f x = g x) :
    xs.mapM f = xs.mapM g := by
  induction xs with
  | nil => rfl
  | cons x xs ih =>
    rw [List.mapM_cons, List.mapM_cons, h x List.mem_cons_self,
      ih fun y hy => h y (List.mem_cons_of_mem x hy)]

theorem mapM_map_some {α β : Type} {f : β → Option α} {g : α → β} {xs : List α}
    (h : ∀ x ∈ xs, f (g x) = some x) : (xs.map g).mapM f = some xs := by
  induction xs with
  | nil => rfl
  | cons x xs ih =>
    rw [List.map_cons, List.mapM_cons, h x List.mem_cons_self,
      ih fun y hy => h y (List.mem_cons_of_mem x hy)]
    rfl

theorem descriptor_eq (hs : s.Stores D) (id : UInt32) : EventData.descriptor s id = s.bytes id := by
  unfold EventData.descriptor
  cases hp : s.descriptors.find id with
  | none => rw [EventStore.bytes, hp]; rfl
  | some p =>
    have hb : s.bytes id = some p.second := by rw [EventStore.bytes, hp]; rfl
    obtain ⟨-, -, x, hx⟩ := hs id p.second hb
    have hread : Buffer.read p.second 1 = some (UInt8.ofNat x.body.length) := by rw [hx]; rfl
    have hbyte : (UInt8.ofNat x.body.length).toNat + 2 = p.second.length := by
      rw [UInt8.toNat_ofNat', Nat.mod_eq_of_lt x.short, hx, x.encode_length]
    have hstring : string p.second 0 p.second.length = some p.second :=
      string_of_drop (List.append_nil p.second).symm
        (by rw [← hbyte]; have := (UInt8.ofNat x.body.length).toNat_lt; omega)
    rw [hb, Option.bind_eq_bind, Option.bind_some, hread, Option.bind_eq_bind, Option.bind_some,
      hbyte, hstring]

/-- An event depends on the bytes of its descriptors only. -/
theorem get_congr {t : EventStore} {o : EventData} (hs : s.Stores D) (ht : t.Stores D)
    (h : ∀ id ∈ o.ids, t.bytes id = s.bytes id) : o.get t = o.get s := by
  have hmap : o.ids.mapM (EventData.descriptor t) = o.ids.mapM (EventData.descriptor s) :=
    mapM_of_eq fun id hid => by rw [descriptor_eq ht, descriptor_eq hs, h id hid]
  unfold EventData.get
  rw [hmap]

theorem filter_flatten_length (ds : List EventDescriptor) (p : EventDescriptor → Bool) :
    ((ds.filter p).map EventDescriptor.encode).flatten.length ≤
      (ds.flatMap EventDescriptor.encode).length := by
  induction ds with
  | nil => exact le_rfl
  | cons d ds ih =>
    rw [List.flatMap_cons, List.length_append, List.filter_cons]
    split
    · rw [List.map_cons, List.flatten_cons, List.length_append]
      omega
    · omega

theorem cached_length (e : Event) : e.cached.flatten.length < 4096 :=
  Nat.lt_of_le_of_lt (filter_flatten_length e.descriptors _) e.fits

theorem get_kept (hs : s.Stores D) (hD : Set.InjOn crc32 D) {e : Event} {o : EventData}
    (he : ∀ d ∈ e.cached, d ∈ D) (hstored : ∀ d ∈ e.cached, (s.bytes (crc32 d)).isSome)
    (hids : o.ids = e.cached.map crc32) (hhead : o.head = e.header.take 10) :
    o.get s = some e.kept := by
  have hmap : o.ids.mapM (EventData.descriptor s) = some e.cached := by
    rw [hids]
    refine mapM_map_some fun d hd => ?_
    obtain ⟨b, hb⟩ := Option.isSome_iff_exists.mp (hstored d hd)
    obtain ⟨hbD, hcrc, -⟩ := hs _ b hb
    rw [descriptor_eq hs, hb, hD hbD (he d hd) hcrc]
  have hlength := cached_length e
  unfold EventData.get Event.kept
  rw [hmap, hhead, Option.bind_eq_bind, Option.bind_some, if_neg (by omega),
    Nat.mod_eq_of_lt (by omega : e.cached.flatten.length / 256 < 16)]
  rfl

end

end Tuxbox.Enigma
