import Mathlib.Data.List.Perm.Basic
import Tuxbox.Enigma.EventStore
import Tuxbox.Lib.Run

/-!
# The descriptors that events share

Events are stored and deleted in any order.
-/

namespace Tuxbox.Enigma

open Buffer

/-! ## Runs -/

inductive CacheCall where
  | construct (e : Event) (type : Nat)
  | destroy (i : Nat)

/-- The live objects, each with the event it was made of. -/
structure EventCache where
  store : EventStore
  live : List (Event × EventData)

namespace EventCache

def start : EventCache := ⟨.start, []⟩

/-- The descriptors the live objects use, one for each place. -/
def ids (w : EventCache) : List UInt32 := w.live.flatMap fun x => x.2.ids

def step (w : EventCache) : CacheCall → Option EventCache
  | .construct e type => do
    let r ← initEventData e.bytes e.bytes.length type w.store
    pure ⟨r.1, w.live ++ [(e, r.2)]⟩
  | .destroy i =>
    match w.live[i]? with
    | none => some w
    | some x => do
      let s ← x.2.destroy w.store
      pure ⟨s, w.live.eraseIdx i⟩

/-- Every descriptor is counted as often as it is used, and every event can be put together
again. -/
structure Shared (w : EventCache) : Prop where
  counted : w.store.Counts fun id => w.ids.count id
  got : ∀ x ∈ w.live, x.2.get w.store = some x.1.kept

/-- Every descriptor is counted as often as it is used, every event can be put together again, and
the size of the cache is that of its parts. -/
structure Sound (w : EventCache) : Prop extends Shared w where
  size : w.store.cacheSize = (w.live.map fun x => x.2.byteSize.toNat).sum +
    w.store.descriptors.total fun p => p.second.length

/-- An event has not too many descriptors, and no count overflows. -/
def Room (w : EventCache) : CacheCall → Prop
  | .construct e _ => e.cached.length ≤ 61 ∧ ∀ id ∈ e.cached.map crc32,
      w.ids.count id + (e.cached.map crc32).count id < 65536
  | .destroy _ => True

/-- Nor does a descriptor lose the last place it is used at. -/
def Fits (w : EventCache) : CacheCall → Prop
  | .construct e type => w.Room (.construct e type)
  | .destroy i => ∀ x, w.live[i]? = some x → ∀ id ∈ x.2.ids, x.2.ids.count id < w.ids.count id

end EventCache

/-- The descriptors of an event are among those of `D`. -/
def CacheCall.Within (D : Set Str) : CacheCall → Prop
  | .construct e _ => ∀ d ∈ e.cached, d ∈ D
  | .destroy _ => True

/-- No two of the descriptors that are kept have the same checksum. -/
def DistinctChecksums (calls : List CacheCall) : Prop :=
  Set.InjOn crc32 {d | ∃ e type, CacheCall.construct e type ∈ calls ∧ d ∈ e.cached}

namespace EventCache

variable {w t : EventCache} {D : Set Str}

/-- What is so however often a count overflows. -/
structure Invariant (D : Set Str) (w : EventCache) : Prop where
  stores : w.store.Stores D
  byteSize : ∀ x ∈ w.live, 10 ≤ x.2.byteSize.toNat

/-! ## An event that is new -/

def byteSize (e : Event) : UInt8 := UInt8.ofNat (10 + e.cached.length * 4)

def object (e : Event) (type : Nat) : EventData :=
  ⟨byteSize e, UInt8.ofNat type, e.header.take 10,
    (e.cached.map crc32).take (((byteSize e).toNat - 10) / 4)⟩

def constructed (w : EventCache) (e : Event) (type : Nat) : EventCache :=
  ⟨{ w.store.useAll e.cached with
      cacheSize := (w.store.useAll e.cached).cacheSize + (byteSize e).toNat },
    w.live ++ [(e, object e type)]⟩

theorem step_construct (w : EventCache) (e : Event) (type : Nat) :
    w.step (.construct e type) =
      if e.cached.length > 65 ∨ (byteSize e).toNat < 10 then none
      else some (w.constructed e type) := by
  simp only [step, initEventData_bytes]
  unfold constructed object byteSize
  split <;> rfl

theorem byteSize_toNat (e : Event) : (byteSize e).toNat = (10 + e.cached.length * 4) % 256 :=
  UInt8.toNat_ofNat'

theorem cached_encode {e : Event} : ∀ d ∈ e.cached, ∃ x : EventDescriptor, d = x.encode := by
  intro d hd
  obtain ⟨x, -, hx⟩ := List.mem_map.mp hd
  exact ⟨x, hx.symm⟩

theorem invariant_constructed {e : Event} (hI : w.Invariant D) (he : ∀ d ∈ e.cached, d ∈ D)
    (type : Nat) (hsize : 10 ≤ (byteSize e).toNat) : (w.constructed e type).Invariant D := by
  constructor
  · exact EventStore.stores_useAll hI.stores he cached_encode
  · intro x hx
    rcases List.mem_append.mp hx with hx | hx
    · exact hI.byteSize x hx
    · obtain rfl := List.mem_singleton.mp hx
      exact hsize

theorem count_constructed (w : EventCache) (e : Event) (type : Nat) (id : UInt32) :
    (w.constructed e type).ids.count id = w.ids.count id + (object e type).ids.count id := by
  unfold ids constructed
  rw [List.flatMap_append, List.count_append, List.flatMap_singleton]

theorem object_ids {e : Event} (h : e.cached.length ≤ 61) (type : Nat) :
    (object e type).ids = e.cached.map crc32 := by
  apply List.take_of_length_le
  rw [byteSize_toNat, List.length_map]
  omega

/-- What is stored is still found. -/
theorem bytes_of_counts {n : UInt32 → Nat} {s : EventStore} {id : UInt32} (hn : s.Counts n)
    (hid : n id ≠ 0) : ∃ d, s.bytes id = some d := by
  obtain ⟨p, hp, -⟩ := EventStore.counts_some hn hid
  exact ⟨p.second, by rw [EventStore.bytes, hp]; rfl⟩

theorem count_pos {x : Event × EventData} (hx : x ∈ w.live) {id : UInt32} (hid : id ∈ x.2.ids) :
    w.ids.count id ≠ 0 :=
  Nat.ne_of_gt (List.count_pos_iff.mpr (List.mem_flatMap.mpr ⟨x, hx, hid⟩))

theorem shared_constructed {e : Event} (hD : Set.InjOn crc32 D) (hI : w.Invariant D)
    (hw : w.Shared) (he : ∀ d ∈ e.cached, d ∈ D) (type : Nat) (hroom : w.Room (.construct e type)) :
    (w.constructed e type).Shared := by
  obtain ⟨hsmall, hcount⟩ := hroom
  have hstores := EventStore.stores_useAll hI.stores he cached_encode
  constructor
  · simp only [count_constructed, object_ids hsmall]
    exact (EventStore.counts_useAll hw.counted e.cached).mpr hcount
  · intro x hx
    rcases List.mem_append.mp hx with hx | hx
    · rw [← hw.got x hx]
      refine get_congr hI.stores hstores fun id hid => ?_
      obtain ⟨d, hd⟩ := bytes_of_counts hw.counted (count_pos hx hid)
      exact (EventStore.bytes_useAll hd e.cached).trans hd.symm
    · obtain rfl := List.mem_singleton.mp hx
      refine get_kept hstores hD he (fun d hd => ?_) (object_ids hsmall type) rfl
      exact (EventStore.bytes_useAll_isSome w.store e.cached _).mpr
        (.inr (List.mem_map_of_mem hd))

theorem size_constructed (hw : w.Sound) (e : Event) (type : Nat) :
    (w.constructed e type).store.cacheSize =
      ((w.constructed e type).live.map fun x => x.2.byteSize.toNat).sum +
        (w.constructed e type).store.descriptors.total fun p => p.second.length := by
  have hsurplus := w.store.surplus_useAll e.cached
  have hsize := hw.size
  unfold EventStore.surplus at hsurplus
  simp only [constructed, List.map_append, List.sum_append, List.map_singleton,
    List.sum_singleton, object]
  omega

theorem exists_count_take_lt {α : Type} [DecidableEq α] {xs : List α} {k : Nat}
    (h : k < xs.length) : ∃ x, (xs.take k).count x < xs.count x := by
  refine ⟨xs[k], ?_⟩
  have hsplit := congrArg (List.count xs[k]) (List.take_append_drop k xs)
  rw [List.count_append] at hsplit
  have hpos : 0 < (xs.drop k).count xs[k] :=
    List.count_pos_iff.mpr (List.drop_eq_getElem_cons h ▸ List.mem_cons_self)
  omega

/-- Checksums that are left out are counted all the same. -/
theorem not_shared_constructed {e : Event} (hw : w.Shared) (type : Nat)
    (hlarge : 61 < e.cached.length) (hsmall : e.cached.length ≤ 65)
    (hsize : 10 ≤ (byteSize e).toNat) : ¬ (w.constructed e type).Shared := by
  intro h
  have hlength : (e.cached.map crc32).length = e.cached.length := List.length_map crc32
  have hb := byteSize_toNat e
  have hk : ((byteSize e).toNat - 10) / 4 < (e.cached.map crc32).length := by omega
  obtain ⟨id, hless⟩ := exists_count_take_lt hk
  have hnew : (w.store.useAll e.cached).references id = (w.constructed e type).ids.count id :=
    ((EventStore.counts_iff.mp h.counted) id).1
  have hold : w.store.references id = w.ids.count id :=
    ((EventStore.counts_iff.mp hw.counted) id).1
  rw [EventStore.references_useAll, count_constructed, hold] at hnew
  have hmost := List.count_le_length (a := id) (l := e.cached.map crc32)
  simp only [object] at hnew
  omega

theorem room_of_construct {e : Event} {type : Nat} (hw : w.Shared)
    (hstep : w.step (.construct e type) = some t) (ht : t.Shared) :
    w.Room (.construct e type) := by
  rw [step_construct] at hstep
  split at hstep
  · cases hstep
  · rename_i hfit
    obtain rfl := Option.some_inj.mp hstep
    push Not at hfit
    have hsmall : e.cached.length ≤ 61 := by
      by_contra hlarge
      exact not_shared_constructed hw type (by omega) hfit.1 hfit.2 ht
    have hcounts := ht.counted
    simp only [count_constructed, object_ids hsmall] at hcounts
    exact ⟨hsmall, (EventStore.counts_useAll hw.counted e.cached).mp hcounts⟩

theorem step_of_room {e : Event} {type : Nat} (h : w.Room (.construct e type)) :
    w.step (.construct e type) = some (w.constructed e type) := by
  have hb := byteSize_toNat e
  have hsmall := h.1
  rw [step_construct, if_neg (by omega)]

/-! ## An event that goes -/

theorem erase_perm {x : Event × EventData} {i : Nat} (h : w.live[i]? = some x) :
    (x :: w.live.eraseIdx i).Perm w.live := by
  obtain ⟨hi, rfl⟩ := List.getElem?_eq_some_iff.mp h
  exact List.getElem_cons_eraseIdx_perm hi

theorem count_erased {x : Event × EventData} {i : Nat} (h : w.live[i]? = some x) (id : UInt32)
    (s : EventStore) :
    x.2.ids.count id + (⟨s, w.live.eraseIdx i⟩ : EventCache).ids.count id = w.ids.count id := by
  have hperm := ((erase_perm h).flatMap_right fun x => x.2.ids).count_eq id
  rwa [List.flatMap_cons, List.count_append] at hperm

theorem size_erased {x : Event × EventData} {i : Nat} (h : w.live[i]? = some x) :
    x.2.byteSize.toNat + ((w.live.eraseIdx i).map fun x => x.2.byteSize.toNat).sum =
      (w.live.map fun x => x.2.byteSize.toNat).sum := by
  have hperm := ((erase_perm h).map fun x => x.2.byteSize.toNat).sum_nat
  rwa [List.map_cons, List.sum_cons] at hperm

/-- The store without the places of an object. -/
theorem step_destroy {x : Event × EventData} {i : Nat} (hI : w.Invariant D) (hw : w.Shared)
    (h : w.live[i]? = some x) :
    ∃ s, w.step (.destroy i) = some ⟨s, w.live.eraseIdx i⟩ ∧
      EventStore.Released { w.store with cacheSize := w.store.cacheSize - x.2.byteSize.toNat } s
        (fun id => w.ids.count id) x.2.ids := by
  have hsize : x.2.byteSize ≠ 0 := by
    intro hzero
    have := hI.byteSize x (List.mem_of_getElem? h)
    rw [hzero] at this
    exact absurd this (by decide)
  obtain ⟨s, hs, hreleased⟩ := EventStore.releaseAll
    (s := { w.store with cacheSize := w.store.cacheSize - x.2.byteSize.toNat }) hI.stores hw.counted
    (fun id => Nat.le.intro (count_erased h id w.store))
  refine ⟨s, ?_, hreleased⟩
  have hdestroy : x.2.destroy w.store = some s := (if_neg hsize).trans hs
  simp only [step, h, hdestroy]
  rfl

theorem invariant_destroyed {x : Event × EventData} {i : Nat} {s : EventStore}
    (hI : w.Invariant D)
    (hs : EventStore.Released { w.store with cacheSize := w.store.cacheSize - x.2.byteSize.toNat } s
      (fun id => w.ids.count id) x.2.ids) : (⟨s, w.live.eraseIdx i⟩ : EventCache).Invariant D := by
  constructor
  · exact EventStore.Stores.mono hI.stores hs.bytes
  · exact fun y hy => hI.byteSize y (List.mem_of_mem_eraseIdx hy)

theorem shared_destroyed {x : Event × EventData} {i : Nat} {s : EventStore} (hI : w.Invariant D)
    (hw : w.Shared) (h : w.live[i]? = some x)
    (hs : EventStore.Released { w.store with cacheSize := w.store.cacheSize - x.2.byteSize.toNat } s
      (fun id => w.ids.count id) x.2.ids) : (⟨s, w.live.eraseIdx i⟩ : EventCache).Shared := by
  have hcounted : s.Counts fun id => (⟨s, w.live.eraseIdx i⟩ : EventCache).ids.count id := by
    intro id
    rw [hs.counts id]
    simp only [← count_erased h id s, Nat.add_sub_cancel_left]
  refine ⟨hcounted, fun y hy => ?_⟩
  rw [← hw.got y (List.mem_of_mem_eraseIdx hy)]
  refine get_congr hI.stores (EventStore.Stores.mono hI.stores hs.bytes) fun id hid => ?_
  obtain ⟨d, hd⟩ := bytes_of_counts hcounted (count_pos (w := ⟨s, w.live.eraseIdx i⟩) hy hid)
  rw [hd]
  exact (hs.bytes id d hd).symm

/-- The size is right if and only if no descriptor goes. -/
theorem size_destroyed {x : Event × EventData} {i : Nat} {s : EventStore} (hw : w.Sound)
    (h : w.live[i]? = some x)
    (hs : EventStore.Released { w.store with cacheSize := w.store.cacheSize - x.2.byteSize.toNat } s
      (fun id => w.ids.count id) x.2.ids) :
    (s.cacheSize = ((w.live.eraseIdx i).map fun x => x.2.byteSize.toNat).sum +
        s.descriptors.total fun p => p.second.length) ↔ w.Fits (.destroy i) := by
  have hfits : w.Fits (.destroy i) ↔ ∀ id ∈ x.2.ids, x.2.ids.count id < w.ids.count id := by
    simp only [Fits, h, Option.some_inj, forall_eq']
  have hsize := hw.size
  have hsizes := size_erased h
  rw [hfits, ← hs.surplus_eq]
  unfold EventStore.surplus
  simp only
  omega

/-! ## Steps -/

theorem invariant_step {a : CacheCall} (hI : w.Invariant D) (hw : w.Shared) (ha : a.Within D)
    (h : w.step a = some t) : t.Invariant D := by
  cases a with
  | construct e type =>
    rw [step_construct] at h
    split at h
    · cases h
    · rename_i hfit
      obtain rfl := Option.some_inj.mp h
      exact invariant_constructed hI ha type (by omega)
  | destroy i =>
    cases hx : w.live[i]? with
    | none =>
      simp only [step, hx] at h
      exact Option.some_inj.mp h ▸ hI
    | some x =>
      obtain ⟨s, hs, hreleased⟩ := step_destroy hI hw hx
      obtain rfl := Option.some_inj.mp (hs.symm.trans h)
      exact invariant_destroyed hI hreleased

theorem step_destroy_none {i : Nat} (h : w.live[i]? = none) : w.step (.destroy i) = some w := by
  simp only [step, h]

theorem sound_step_iff {a : CacheCall} (hD : Set.InjOn crc32 D) (hI : w.Invariant D)
    (hw : w.Sound) (ha : a.Within D) : (∃ t, w.step a = some t ∧ t.Sound) ↔ w.Fits a := by
  cases a with
  | construct e type =>
    constructor
    · rintro ⟨t, hstep, ht⟩
      exact room_of_construct hw.toShared hstep ht.toShared
    · exact fun hroom => ⟨_, step_of_room hroom,
        shared_constructed hD hI hw.toShared ha type hroom, size_constructed hw e type⟩
  | destroy i =>
    cases hx : w.live[i]? with
    | none =>
      refine iff_of_true ⟨w, step_destroy_none hx, hw⟩ fun y hy => ?_
      rw [hx] at hy
      cases hy
    | some x =>
      obtain ⟨s, hs, hreleased⟩ := step_destroy hI hw.toShared hx
      rw [hs, ← size_destroyed hw hx hreleased]
      constructor
      · rintro ⟨t, ht, hsound⟩
        obtain rfl := Option.some_inj.mp ht
        exact hsound.size
      · exact fun hsize => ⟨_, rfl, shared_destroyed hI hw.toShared hx hreleased, hsize⟩

/-! ## Runs -/

theorem invariant_start (D : Set Str) : start.Invariant D :=
  ⟨fun _ _ h => (nomatch h), fun _ hx => absurd hx List.not_mem_nil⟩

theorem sound_start : start.Sound :=
  ⟨⟨fun _ => rfl, fun _ hx => absurd hx List.not_mem_nil⟩, rfl⟩

theorem within_calls (calls : List CacheCall) :
    ∀ c ∈ calls, c.Within {d | ∃ e type, CacheCall.construct e type ∈ calls ∧ d ∈ e.cached} := by
  intro c hc
  cases c with
  | construct e type => exact fun d hd => ⟨e, type, hc, hd⟩
  | destroy i => trivial

/-- The cache stays sound just where an event has 61 descriptors at most, no count overflows, and
no descriptor is deleted. -/
theorem sound_iff_permitted {calls : List CacheCall} (h : DistinctChecksums calls) :
    Keeps step Sound start calls ↔ Permits step Fits start calls :=
  keeps_iff_permits_within (fun _ _ _ hI hw ha hs => invariant_step hI hw.toShared ha hs)
    (fun _ _ hI hw ha => sound_step_iff h hI hw ha) (invariant_start _) sound_start
    (within_calls calls)

instance (w : EventCache) (c : CacheCall) : Decidable (w.Fits c) :=
  -- the checksums of a list are looked at one by one, not all there are
  haveI (ids : List UInt32) (p : UInt32 → Prop) [DecidablePred p] : Decidable (∀ id ∈ ids, p id) :=
    List.decidableBAll p ids
  match c with
  | .construct e _ => inferInstanceAs (Decidable (_ ∧ ∀ id ∈ e.cached.map crc32, _))
  | .destroy i => inferInstanceAs (Decidable (∀ x ∈ w.live[i]?, _))

def sampleEvent : Event where
  header := List.replicate 12 0
  descriptors := [⟨0x54, [0x10, 0x00], by decide⟩]
  header_length := rfl
  fits := by decide

/-- An event that shares the descriptor and has another one. -/
def neighbourEvent : Event where
  header := List.replicate 12 1
  descriptors := [⟨0x54, [0x20, 0x00], by decide⟩, ⟨0x54, [0x10, 0x00], by decide⟩]
  header_length := rfl
  fits := by decide

theorem distinctChecksums_of {calls : List CacheCall} (ds : List Str)
    (hsub : ∀ e type, CacheCall.construct e type ∈ calls → ∀ d ∈ e.cached, d ∈ ds)
    (h : (ds.map crc32).Nodup) : DistinctChecksums calls := by
  rintro d ⟨e, type, he, hd⟩ d' ⟨e', type', he', hd'⟩ hcrc
  exact List.inj_on_of_nodup_map h (hsub e type he d hd) (hsub e' type' he' d' hd') hcrc

/-- Two events share a descriptor, and the first one goes. -/
theorem sample_stored : Keeps step Sound start
    [.construct sampleEvent 0, .construct neighbourEvent 1, .destroy 0] := by
  refine (sound_iff_permitted (distinctChecksums_of neighbourEvent.cached ?_ ?_)).mpr ?_
  · intro e type h d hd
    simp only [List.mem_cons, List.not_mem_nil, or_false, reduceCtorEq,
      CacheCall.construct.injEq] at h
    rcases h with ⟨rfl, -⟩ | ⟨rfl, -⟩
    · exact List.mem_of_mem_tail hd
    · exact hd
  · decide +kernel
  · decide +kernel

/-- A cache that is empty again has a size of two. -/
theorem size_left_behind : DistinctChecksums [.construct sampleEvent 0, .destroy 0] ∧
    ¬ Keeps step Sound start [.construct sampleEvent 0, .destroy 0] := by
  constructor
  · refine distinctChecksums_of sampleEvent.cached (fun e type h d hd => ?_) (by decide +kernel)
    rcases List.mem_cons.mp h with h | h
    · cases h
      exact hd
    · cases List.mem_singleton.mp h
  · intro h
    have hrun : (runList step start [.construct sampleEvent 0, .destroy 0]).map
        (fun w => (w.store.cacheSize, w.live.length,
          w.store.descriptors.total fun p => p.second.length)) = some (2, 0, 0) := by
      decide
    obtain ⟨t, ht, hvalues⟩ := Option.map_eq_some_iff.mp hrun
    have hsize := (h.run ht).size
    simp only [Prod.mk.injEq, List.length_eq_zero_iff] at hvalues
    rw [hvalues.1, hvalues.2.1, hvalues.2.2] at hsize
    exact absurd hsize (by decide)

end EventCache

end Tuxbox.Enigma
