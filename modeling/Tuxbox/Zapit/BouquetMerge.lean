import Mathlib.Data.List.Induction
import Tuxbox.Lib.FirstOf
import Tuxbox.Zapit.Bouquets

/-! The bouquets of a scan merged into saved ones, one bouquet and one channel at a time.

Main result: `foldl_mergeOne`, what comes out. -/
namespace Tuxbox.Zapit

/-- A bouquet with its channels themselves. -/
structure Contents where
  name : Str
  bHidden : Bool
  bLocked : Bool
  type : Int32
  bouquetId : UInt16
  tvChannels : List CZapitChannel
  radioChannels : List CZapitChannel
  deriving DecidableEq

namespace Contents

def channels (b : Contents) (tv : Bool) : List CZapitChannel :=
  if tv then b.tvChannels else b.radioChannels

/-- The channels in the order in which they are scanned for others. -/
def all (b : Contents) : List CZapitChannel := b.tvChannels ++ b.radioChannels

def ids (b : Contents) : List Nat := b.all.map CZapitChannel.getChannelID

/-- Each list has the types that belong in it. -/
def Typed (b : Contents) : Prop := ∀ tv, ∀ c ∈ b.channels tv, inMode tv c.serviceType = true

def addService (b : Contents) (c : CZapitChannel) : Contents :=
  if isTv c.serviceType then { b with tvChannels := b.tvChannels ++ [c] }
  else if isRadio c.serviceType then { b with radioChannels := b.radioChannels ++ [c] }
  else b

/-- A channel whose id is there is not added. -/
def take (b : Contents) (c : CZapitChannel) : Contents :=
  if c.getChannelID ∈ b.ids then b else b.addService c

/-- The bouquet with the channels that it does not have, each id once. -/
def extend (b : Contents) (cs : List CZapitChannel) : Contents :=
  let new := firsts CZapitChannel.getChannelID (cs.filter fun c => c.getChannelID ∉ b.ids)
  { b with
    tvChannels := b.tvChannels ++ new.filter fun c => isTv c.serviceType
    radioChannels := b.radioChannels ++ new.filter fun c => isRadio c.serviceType }

end Contents

/-- One scanned bouquet: into the first one of its name, or behind all of them. -/
def mergeOne (bs : List Contents) (b : Contents) : List Contents :=
  match bs.findIdx? fun x => x.name = b.name with
  | some i => bs.modify i fun dest => b.all.foldl Contents.take dest
  | none => bs ++ [b]

/-- The saved bouquets, and the first scanned one of each new name. -/
def base (saved scanned : List Contents) : List Contents :=
  saved ++ firsts Contents.name (scanned.filter fun b => b.name ∉ saved.map Contents.name)

/-- The channels that were scanned under a name. -/
def scannedUnder (scanned : List Contents) (name : Str) : List CZapitChannel :=
  (scanned.filter fun b => b.name = name).flatMap Contents.all

/-- The first bouquet of each name has the channels that were scanned under it. -/
def mergedScan (saved scanned : List Contents) : List Contents :=
  (base saved scanned).mapIdx fun i b =>
    if (base saved scanned).findIdx (fun x => x.name = b.name) = i then
      b.extend (scannedUnder scanned b.name)
    else b

/-! ## One channel after the other -/

namespace Contents

section
variable {b : Contents} {c : CZapitChannel} {cs : List CZapitChannel}

theorem mem_ids {id : Nat} : id ∈ b.ids ↔
    id ∈ b.tvChannels.map CZapitChannel.getChannelID ∨
      id ∈ b.radioChannels.map CZapitChannel.getChannelID := by
  rw [ids, all, List.map_append, List.mem_append]

/-- Every channel that is new gets into one of the lists. -/
theorem mem_ids_extend (hcs : ∀ c ∈ cs, ∃ tv, inMode tv c.serviceType = true) {id : Nat} :
    id ∈ (b.extend cs).ids ↔ id ∈ b.ids ∨ id ∈ cs.map CZapitChannel.getChannelID := by
  have hnew := key_mem_firsts CZapitChannel.getChannelID
    (cs.filter fun c => c.getChannelID ∉ b.ids) id
  unfold extend
  rw [mem_ids, List.map_append, List.map_append, List.mem_append, List.mem_append]
  constructor
  · rintro ((h | h) | (h | h))
    · exact .inl (mem_ids.mpr (.inl h))
    · obtain ⟨c, hc, rfl⟩ := List.mem_map.mp h
      have hmem := mem_of_mem_firsts _ (List.mem_filter.mp hc).1
      exact .inr (List.mem_map_of_mem (List.mem_filter.mp hmem).1)
    · exact .inl (mem_ids.mpr (.inr h))
    · obtain ⟨c, hc, rfl⟩ := List.mem_map.mp h
      have hmem := mem_of_mem_firsts _ (List.mem_filter.mp hc).1
      exact .inr (List.mem_map_of_mem (List.mem_filter.mp hmem).1)
  · intro h
    by_cases hold : id ∈ b.ids
    · rcases mem_ids.mp hold with h | h
      · exact .inl (.inl h)
      · exact .inr (.inl h)
    · obtain ⟨c, hc, rfl⟩ := List.mem_map.mp (h.resolve_left hold)
      have hfilter : c ∈ cs.filter fun c => c.getChannelID ∉ b.ids :=
        List.mem_filter.mpr ⟨hc, decide_eq_true hold⟩
      obtain ⟨d, hd, heq⟩ := List.mem_map.mp (hnew.mpr (List.mem_map_of_mem hfilter))
      obtain ⟨tv, htv⟩ := hcs d (List.mem_filter.mp (mem_of_mem_firsts _ hd)).1
      cases tv with
      | true => exact .inl (.inr (List.mem_map.mpr ⟨d, List.mem_filter.mpr ⟨hd, htv⟩, heq⟩))
      | false => exact .inr (.inr (List.mem_map.mpr ⟨d, List.mem_filter.mpr ⟨hd, htv⟩, heq⟩))

theorem extend_concat (hcs : ∀ c ∈ cs, ∃ tv, inMode tv c.serviceType = true)
    (hc : ∃ tv, inMode tv c.serviceType = true) : b.extend (cs ++ [c]) = (b.extend cs).take c := by
  unfold take
  by_cases hold : c.getChannelID ∈ b.ids
  · rw [if_pos ((mem_ids_extend hcs).mpr (.inl hold))]
    simp [extend, List.filter_append, hold]
  · have hfilter : (cs ++ [c]).filter (fun c => c.getChannelID ∉ b.ids) =
        cs.filter (fun c => c.getChannelID ∉ b.ids) ++ [c] := by
      simp [List.filter_append, hold]
    have hseen : c.getChannelID ∈ (cs.filter fun c => c.getChannelID ∉ b.ids).map
          CZapitChannel.getChannelID ↔ c.getChannelID ∈ (b.extend cs).ids := by
      rw [mem_ids_extend hcs]
      constructor
      · intro h
        obtain ⟨d, hd, heq⟩ := List.mem_map.mp h
        exact .inr (heq ▸ List.mem_map_of_mem (List.mem_filter.mp hd).1)
      · rintro (h | h)
        · exact absurd h hold
        · obtain ⟨d, hd, heq⟩ := List.mem_map.mp h
          exact List.mem_map.mpr ⟨d, List.mem_filter.mpr ⟨hd, by simpa [heq] using hold⟩, heq⟩
    rw [extend, hfilter, firsts_concat]
    by_cases hmem : c.getChannelID ∈ (b.extend cs).ids
    · rw [if_pos hmem, if_pos (hseen.mpr hmem)]
      rfl
    · rw [if_neg hmem, if_neg fun h => hmem (hseen.mp h)]
      obtain ⟨tv, htv⟩ := hc
      unfold addService
      cases tv with
      | true =>
        have hradio := not_radio_of_tv htv
        have htv : isTv c.serviceType = true := htv
        simp [extend, List.filter_append, htv, hradio]
      | false =>
        have hradio : isRadio c.serviceType = true := htv
        have htv : isTv c.serviceType = false :=
          Bool.eq_false_iff.mpr fun h => absurd (not_radio_of_tv h) (by simp [hradio])
        simp [extend, List.filter_append, htv, hradio]

theorem extend_nil : b.extend [] = b := by
  simp [extend, firsts]

theorem foldl_take (hcs : ∀ c ∈ cs, ∃ tv, inMode tv c.serviceType = true) :
    cs.foldl take b = b.extend cs := by
  induction cs using List.reverseRecOn with
  | nil => exact extend_nil.symm
  | append_singleton cs c ih =>
    have hinit : ∀ d ∈ cs, ∃ tv, inMode tv d.serviceType = true :=
      fun d hd => hcs d (List.mem_append_left _ hd)
    rw [List.foldl_append, ih hinit,
      extend_concat hinit (hcs c (List.mem_append_right _ List.mem_cons_self))]
    rfl

end

theorem extend_all (b : Contents) : b.extend b.all = b := by
  have hnone : b.all.filter (fun c => c.getChannelID ∉ b.ids) = [] := by
    refine List.filter_eq_nil_iff.mpr fun c hc => ?_
    simpa [ids] using ⟨c, hc, rfl⟩
  unfold extend
  rw [hnone]
  simp [firsts]

theorem Typed.all {b : Contents} (h : b.Typed) :
    ∀ c ∈ b.all, ∃ tv, inMode tv c.serviceType = true := by
  intro c hc
  rcases List.mem_append.mp hc with hc | hc
  · exact ⟨true, h true c hc⟩
  · exact ⟨false, h false c hc⟩

end Contents

/-! ## One bouquet after the other -/

section
variable {saved scanned : List Contents} {b : Contents}

theorem getElem?_mergedScan (i : Nat) : (mergedScan saved scanned)[i]? =
    (base saved scanned)[i]?.map fun b =>
      if (base saved scanned).findIdx (fun x => x.name = b.name) = i then
        b.extend (scannedUnder scanned b.name)
      else b := List.getElem?_mapIdx

theorem base_nil : base saved [] = saved := by
  simp [base, firsts]

theorem mergedScan_nil : mergedScan saved [] = saved := by
  refine List.ext_getElem? fun i => ?_
  rw [getElem?_mergedScan, base_nil]
  cases saved[i]? with
  | none => rfl
  | some b =>
    have hself : b.extend (scannedUnder [] b.name) = b := Contents.extend_nil
    simp [hself]

theorem findIdx?_mergedScan (name : Str) :
    (mergedScan saved scanned).findIdx? (fun x => x.name = name) =
      (base saved scanned).findIdx? fun x => x.name = name := by
  have hnames : (mergedScan saved scanned).map Contents.name =
      (base saved scanned).map Contents.name := by
    refine List.ext_getElem? fun i => ?_
    rw [List.getElem?_map, getElem?_mergedScan, List.getElem?_map, Option.map_map]
    refine congrArg (Option.map · _) (funext fun b => ?_)
    simp only [Function.comp]
    split <;> rfl
  have hfind := congrArg (List.findIdx? fun n => decide (n = name)) hnames
  rw [List.findIdx?_map, List.findIdx?_map] at hfind
  exact hfind

theorem name_mem_base {x : Contents} (hx : x ∈ scanned) :
    x.name ∈ (base saved scanned).map Contents.name := by
  rw [base, List.map_append, List.mem_append, key_mem_firsts]
  by_cases hsaved : x.name ∈ saved.map Contents.name
  · exact .inl hsaved
  · exact .inr (List.mem_map_of_mem (List.mem_filter.mpr ⟨hx, decide_eq_true hsaved⟩))

theorem base_concat : base saved (scanned ++ [b]) =
    if b.name ∈ (base saved scanned).map Contents.name then base saved scanned
    else base saved scanned ++ [b] := by
  have hmem : b.name ∈ (base saved scanned).map Contents.name ↔
      b.name ∈ saved.map Contents.name ∨ b.name ∈
        (scanned.filter fun b => b.name ∉ saved.map Contents.name).map Contents.name := by
    rw [base, List.map_append, List.mem_append, key_mem_firsts]
  by_cases hsaved : b.name ∈ saved.map Contents.name
  · rw [if_pos (hmem.mpr (.inl hsaved)), base, List.filter_append,
      List.filter_cons_of_neg (by simpa using hsaved), List.filter_nil, List.append_nil]
    rfl
  · rw [base, List.filter_append, List.filter_cons_of_pos (by simpa using hsaved), List.filter_nil,
      firsts_concat]
    by_cases hnew : b.name ∈
        (scanned.filter fun b => b.name ∉ saved.map Contents.name).map Contents.name
    · rw [if_pos hnew, if_pos (hmem.mpr (.inr hnew))]
      rfl
    · rw [if_neg hnew, if_neg fun h => (hmem.mp h).elim hsaved hnew, ← List.append_assoc]
      rfl

theorem scannedUnder_concat (name : Str) : scannedUnder (scanned ++ [b]) name =
    if b.name = name then scannedUnder scanned name ++ b.all else scannedUnder scanned name := by
  unfold scannedUnder
  by_cases hname : b.name = name
  · simp [List.filter_append, hname]
  · simp [List.filter_append, hname]

theorem scannedUnder_typed (h : ∀ b ∈ scanned, b.Typed) (name : Str) :
    ∀ c ∈ scannedUnder scanned name, ∃ tv, inMode tv c.serviceType = true := by
  intro c hc
  obtain ⟨b, hb, hmem⟩ := List.mem_flatMap.mp hc
  exact (h b (List.mem_filter.mp hb).1).all c hmem

/-- A name that is there: the bouquet's channels go behind. -/
theorem mergedScan_known (hscanned : ∀ b ∈ scanned, b.Typed) (hb : b.Typed) {i : Nat}
    (hi : (base saved scanned).findIdx? (fun x => x.name = b.name) = some i) :
    mergedScan saved (scanned ++ [b]) =
      (mergedScan saved scanned).modify i fun dest => b.all.foldl Contents.take dest := by
  obtain ⟨hlt, hat, -⟩ := List.findIdx?_eq_some_iff_getElem.mp hi
  have hname : (base saved scanned)[i].name = b.name := of_decide_eq_true hat
  have hbase : base saved (scanned ++ [b]) = base saved scanned := by
    rw [base_concat, if_pos (List.mem_map.mpr ⟨_, List.getElem_mem hlt, hname⟩)]
  have hfirst : (base saved scanned).findIdx (fun x => x.name = b.name) = i :=
    (List.findIdx?_eq_some_iff_findIdx_eq.mp hi).2
  refine List.ext_getElem? fun j => ?_
  rw [List.getElem?_modify, getElem?_mergedScan, getElem?_mergedScan, hbase]
  cases hj : (base saved scanned)[j]? with
  | none => rfl
  | some x =>
    simp only [Option.map_some, Option.map_eq_map, Option.some.injEq]
    rw [scannedUnder_concat]
    by_cases hx : x.name = b.name
    · have hall := scannedUnder_typed hscanned b.name
      rw [hx, hfirst, if_pos rfl]
      by_cases hij : i = j
      · have hboth : ∀ c ∈ scannedUnder scanned b.name ++ b.all,
            ∃ tv, inMode tv c.serviceType = true := by
          intro c hc
          rcases List.mem_append.mp hc with hc | hc
          · exact hall c hc
          · exact hb.all c hc
        rw [if_pos hij, if_pos hij, if_pos hij, ← Contents.foldl_take hboth, List.foldl_append,
          Contents.foldl_take hall]
      · rw [if_neg hij, if_neg hij, if_neg hij]
    · have hij : i ≠ j := by
        rintro rfl
        rw [List.getElem?_eq_getElem hlt] at hj
        exact hx (Option.some.inj hj ▸ hname)
      rw [if_neg (Ne.symm hx), if_neg hij]

/-- A new name: the bouquet stays as it is. -/
theorem mergedScan_new (hnone : (base saved scanned).findIdx? (fun x => x.name = b.name) = none) :
    mergedScan saved (scanned ++ [b]) = mergedScan saved scanned ++ [b] := by
  have hother : ∀ x ∈ base saved scanned, x.name ≠ b.name := by
    intro x hx
    simpa using List.findIdx?_eq_none_iff.mp hnone x hx
  have hbase : base saved (scanned ++ [b]) = base saved scanned ++ [b] := by
    rw [base_concat, if_neg]
    intro hmem
    obtain ⟨x, hx, heq⟩ := List.mem_map.mp hmem
    exact hother x hx heq
  have hlength : (mergedScan saved scanned).length = (base saved scanned).length :=
    List.length_mapIdx
  refine List.ext_getElem? fun j => ?_
  rw [getElem?_mergedScan, hbase]
  rcases Nat.lt_trichotomy j (base saved scanned).length with hj | hj | hj
  · have hx := List.getElem_mem hj
    rw [List.getElem?_append_left hj, List.getElem?_append_left (hlength ▸ hj), getElem?_mergedScan,
      List.getElem?_eq_getElem hj]
    simp only [Option.map_some, Option.some.injEq]
    have hfound : (base saved scanned).findIdx (fun x => x.name = (base saved scanned)[j].name) <
        (base saved scanned).length :=
      List.findIdx_lt_length_of_exists ⟨_, hx, decide_eq_true rfl⟩
    rw [scannedUnder_concat, if_neg (Ne.symm (hother _ hx)), List.findIdx_append, if_pos hfound]
  · have hunder : scannedUnder scanned b.name = [] := by
      rw [scannedUnder, List.filter_eq_nil_iff.mpr, List.flatMap_nil]
      intro x hx heq
      obtain ⟨y, hy, hxy⟩ := List.mem_map.mp (name_mem_base hx)
      exact hother y hy (hxy.trans (of_decide_eq_true heq))
    rw [hj, List.getElem?_concat_length, ← hlength, List.getElem?_concat_length, Option.map_some,
      scannedUnder_concat, if_pos rfl, hunder, List.nil_append, Contents.extend_all, ite_self]
  · have hout : (base saved scanned ++ [b]).length ≤ j := by
      rw [List.length_append]
      exact hj
    have hout' : (mergedScan saved scanned ++ [b]).length ≤ j := by
      rw [List.length_append, hlength]
      exact hj
    rw [List.getElem?_eq_none hout, List.getElem?_eq_none hout']
    rfl

theorem mergedScan_concat (hscanned : ∀ b ∈ scanned, b.Typed) (hb : b.Typed) :
    mergedScan saved (scanned ++ [b]) = mergeOne (mergedScan saved scanned) b := by
  unfold mergeOne
  rw [findIdx?_mergedScan]
  cases hi : (base saved scanned).findIdx? fun x => x.name = b.name with
  | none => exact mergedScan_new hi
  | some i => exact mergedScan_known hscanned hb hi

theorem foldl_mergeOne (h : ∀ b ∈ scanned, b.Typed) :
    scanned.foldl mergeOne saved = mergedScan saved scanned := by
  induction scanned using List.reverseRecOn with
  | nil => exact mergedScan_nil.symm
  | append_singleton scanned b ih =>
    have hinit : ∀ x ∈ scanned, x.Typed := fun x hx => h x (List.mem_append_left _ hx)
    rw [List.foldl_append, ih hinit,
      mergedScan_concat hinit (h b (List.mem_append_right _ List.mem_cons_self))]
    rfl

end

end Tuxbox.Zapit
