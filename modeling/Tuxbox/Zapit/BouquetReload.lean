import Mathlib.Data.List.Induction
import Tuxbox.Zapit.BouquetFile

/-!
# Bouquets saved and loaded

What a bouquet file brings back. Names lose their control characters, bouquets
whose name starts with `New Channels` are not written, and the reader takes
bouquets of one name for one bouquet and a channel that is there for added.
-/

namespace Tuxbox.Zapit

open Xml Xmltree

/-! ## What comes back -/

/-- A bouquet under the name that the file has for it. -/
def written (b : CBouquet) : CBouquet := { b with name := printable b.name }

/-- A bouquet with the channels of all that share its name, each at its first place. -/
def merged (all : List CBouquet) (b : CBouquet) : CBouquet :=
  let same := all.filter fun x => x.name = b.name
  { b with
    tvChannels := firsts id (same.flatMap CBouquet.tvChannels)
    radioChannels := firsts id (same.flatMap CBouquet.radioChannels) }

/-- The first bouquet of each name, with its flags, and the channels of all of them. -/
def mergedByName (all : List CBouquet) : List CBouquet :=
  (firsts CBouquet.name all).map (merged all)

/-- The bouquets that come back. -/
def restored (bs : List CBouquet) : List CBouquet :=
  mergedByName ((bs.filter fun b => !isNewChannels b.name).map written)

/-- Bouquets that the file can hold as they are. -/
structure Saveable (bs : List CBouquet) : Prop where
  distinct : (bs.map CBouquet.name).Nodup
  printable : ∀ b ∈ bs, ∀ c ∈ b.name, 32 ≤ c
  notNew : ∀ b ∈ bs, isNewChannels b.name = false
  once : ∀ b ∈ bs, b.tvChannels.Nodup ∧ b.radioChannels.Nodup

theorem le_of_mem_printable {s : Str} {c : Byte} (h : c ∈ printable s) : 32 ≤ c := by
  simpa using (List.mem_filter.mp h).2

theorem printable_eq_self {s : Str} (h : ∀ c ∈ s, 32 ≤ c) : printable s = s := by
  have hz : cString s = s := by
    refine List.takeWhile_eq_self_iff.mpr fun c hc => ?_
    have : c ≠ 0 := by
      rintro rfl
      exact absurd (h 0 hc) (by decide)
    simpa using this
  rw [printable, hz]
  exact List.filter_eq_self.mpr fun c hc => by simpa using h c hc

section
variable {all bs : List CBouquet}

@[simp] theorem merged_name (b : CBouquet) : (merged all b).name = b.name := rfl

theorem names_mergedByName : (mergedByName all).map CBouquet.name =
    (firsts CBouquet.name all).map CBouquet.name := by
  simp [mergedByName, Function.comp_def]

theorem mem_mergedByName {b : CBouquet} (h : b ∈ mergedByName all) :
    ∃ a ∈ all, b = merged all a := by
  obtain ⟨a, ha, rfl⟩ := List.mem_map.mp h
  exact ⟨a, mem_of_mem_firsts _ ha, rfl⟩

theorem merged_nodup (b : CBouquet) :
    (merged all b).tvChannels.Nodup ∧ (merged all b).radioChannels.Nodup := by
  have hn (l : List Nat) : (firsts id l).Nodup := by simpa using nodup_firsts id l
  exact ⟨hn _, hn _⟩

/-- A bouquet that shares its name with no other and lists no channel twice. -/
theorem merged_eq_self (hd : (all.map CBouquet.name).Nodup) {b : CBouquet} (hb : b ∈ all)
    (ho : b.tvChannels.Nodup ∧ b.radioChannels.Nodup) : merged all b = b := by
  have hsame : all.filter (fun x => x.name = b.name) = [b] := by
    have hinj : ∀ x ∈ all, x.name = b.name → x = b := fun x hx he =>
      List.inj_on_of_nodup_map hd hx hb he
    have hf : all.filter (fun x => x.name = b.name) = all.filter (fun x => x = b) := by
      refine List.filter_congr fun x hx => ?_
      simp only [decide_eq_decide]
      exact ⟨hinj x hx, fun h => h ▸ rfl⟩
    rw [hf, List.filter_eq]
    have hcount : all.count b = 1 := List.count_eq_one_of_mem hd.of_map hb
    rw [hcount, List.replicate_one]
  have hself (l : List Nat) (hl : l.Nodup) : firsts id l = l :=
    firsts_eq_self id (by simpa using hl)
  simp [merged, hsame, hself _ ho.1, hself _ ho.2]

theorem restored_of_saveable (h : Saveable bs) : restored bs = bs := by
  have hfilter : bs.filter (fun b => !isNewChannels b.name) = bs :=
    List.filter_eq_self.mpr fun b hb => by simp [h.notNew b hb]
  have hwritten : bs.map written = bs := by
    have hid : ∀ b ∈ bs, written b = id b := fun b hb => by
      simp [written, printable_eq_self (h.printable b hb)]
    rw [List.map_congr_left hid, List.map_id]
  have hmerged : ∀ b ∈ bs, merged bs b = id b := fun b hb =>
    merged_eq_self h.distinct hb (h.once b hb)
  rw [restored, hfilter, hwritten, mergedByName, firsts_eq_self _ h.distinct,
    List.map_congr_left hmerged, List.map_id]

theorem saveable_of_restored (h : restored bs = bs) : Saveable bs := by
  have hprint : ∀ b ∈ bs, ∀ c ∈ b.name, 32 ≤ c := by
    intro b hb c hc
    rw [← h] at hb
    obtain ⟨a, ha, rfl⟩ := mem_mergedByName hb
    obtain ⟨d, hd, rfl⟩ := List.mem_map.mp ha
    exact le_of_mem_printable hc
  refine ⟨?_, hprint, ?_, ?_⟩
  · rw [← h, restored, names_mergedByName]
    exact nodup_firsts _ _
  · intro b hb
    rw [← h] at hb
    obtain ⟨a, ha, rfl⟩ := mem_mergedByName hb
    obtain ⟨d, hd, rfl⟩ := List.mem_map.mp ha
    obtain ⟨hmem, hnew⟩ := List.mem_filter.mp hd
    -- the bouquet that was written is itself one that came back, so its name is clean
    simpa [written, printable_eq_self (hprint d hmem)] using hnew
  · intro b hb
    rw [← h] at hb
    obtain ⟨a, ha, rfl⟩ := mem_mergedByName hb
    exact merged_nodup a

/-- They are the ones saved exactly when those can be saved. -/
theorem restored_eq_self (bs : List CBouquet) : restored bs = bs ↔ Saveable bs :=
  ⟨saveable_of_restored, restored_of_saveable⟩

/-! ## One bouquet after the other -/

/-- The channels of `b` join those of `t`, except what is there. -/
def absorb (t b : CBouquet) : CBouquet :=
  { t with
    tvChannels := addNew t.tvChannels b.tvChannels
    radioChannels := addNew t.radioChannels b.radioChannels }

/-- What reading `b` does to the bouquets read before it. -/
def loadStep (acc : List CBouquet) (b : CBouquet) : List CBouquet :=
  if b.name ∈ acc.map CBouquet.name then
    acc.modify (acc.findIdx fun x => x.name = b.name) fun t => absorb t b
  else acc ++ [absorb { b with tvChannels := [], radioChannels := [] } b]

theorem merged_concat_same {b t : CBouquet} (h : t.name = b.name) :
    merged (all ++ [b]) t = absorb (merged all t) b := by
  have hf : (all ++ [b]).filter (fun x => x.name = t.name) =
      all.filter (fun x => x.name = t.name) ++ [b] := by
    simp [List.filter_append, h]
  simp [merged, absorb, hf, foldl_addNew]

theorem merged_concat_other {b t : CBouquet} (h : t.name ≠ b.name) :
    merged (all ++ [b]) t = merged all t := by
  have hf : (all ++ [b]).filter (fun x => x.name = t.name) =
      all.filter (fun x => x.name = t.name) := by
    simp [List.filter_append, Ne.symm h]
  simp [merged, hf]

theorem mergedByName_concat (all : List CBouquet) (b : CBouquet) :
    mergedByName (all ++ [b]) = loadStep (mergedByName all) b := by
  have hmem : b.name ∈ (mergedByName all).map CBouquet.name ↔ b.name ∈ all.map CBouquet.name := by
    rw [names_mergedByName, key_mem_firsts]
  unfold loadStep
  by_cases hb : b.name ∈ all.map CBouquet.name
  · have hnodup : ((mergedByName all).map CBouquet.name).Nodup := by
      rw [names_mergedByName]
      exact nodup_firsts _ _
    rw [if_pos (hmem.mpr hb), modify_findIdx _ hnodup]
    simp only [mergedByName, firsts_concat, if_pos hb, List.map_map]
    refine List.map_congr_left fun t ht => ?_
    by_cases hn : t.name = b.name
    · simp [hn, merged_concat_same hn]
    · simp [hn, merged_concat_other hn]
  · have hother : ∀ t ∈ firsts CBouquet.name all, merged (all ++ [b]) t = merged all t := by
      intro t ht
      exact merged_concat_other fun he =>
        hb (he ▸ List.mem_map_of_mem (mem_of_mem_firsts _ ht))
    have hself : merged (all ++ [b]) b =
        absorb { b with tvChannels := [], radioChannels := [] } b := by
      have hnone : all.filter (fun x => x.name = b.name) = [] :=
        List.filter_eq_nil_iff.mpr fun x hx => by
          simp only [decide_eq_true_eq]
          exact fun he => hb (he ▸ List.mem_map_of_mem hx)
      have hnew (l : List Nat) : addNew [] l = firsts id l := foldl_addNew [] l
      simp [merged, absorb, List.filter_append, hnone, hnew]
    rw [if_neg (fun h => hb (hmem.mp h))]
    simp only [mergedByName, firsts_concat, if_neg hb, List.map_append, List.map_cons, List.map_nil,
      hself, List.map_congr_left hother]

/-- Reading them one by one gives `restored`. -/
theorem foldl_loadStep (all : List CBouquet) : all.foldl loadStep [] = mergedByName all := by
  induction all using List.reverseRecOn with
  | nil => rfl
  | append_singleton all b ih => rw [List.foldl_append, ih, mergedByName_concat]; rfl

end

/-! ## Reading one channel -/

section
variable {cfg : Config} {allchans named : Tallchans}

/-- The same channels with the same types; names may differ. -/
def SameTypes (allchans named : Tallchans) : Prop :=
  ∀ id, (named.find id).map CZapitChannel.serviceType =
    (allchans.find id).map CZapitChannel.serviceType

theorem SameTypes.find (h : SameTypes allchans named) {id : Nat} {c : CZapitChannel}
    (hc : allchans.find id = some c) :
    ∃ d, named.find id = some d ∧ d.serviceType = c.serviceType := by
  have hid := h id
  rw [hc, Option.map_some] at hid
  obtain ⟨d, hd, ht⟩ := Option.map_eq_some_iff.mp hid
  exact ⟨d, hd, ht⟩

theorem SameTypes.setName (h : SameTypes allchans named) (id : Nat) (name : Str) :
    SameTypes allchans (named.setName id name) := by
  intro k
  rw [← h k]
  simp only [Tallchans.find, Tallchans.setName, OrdMap.find_adjust]
  split
  · rename_i hk
    subst hk
    cases named.map.find k <;> rfl
  · rfl

/-- What reading a channel does to the bouquet. -/
def takeIn (t : CBouquet) (c : CZapitChannel) : CBouquet :=
  if (t.getChannelByChannelID c.getChannelID ST_RESERVED).isSome then t
  else t.addService c.getChannelID c.serviceType

theorem mem_lists_iff (t : CBouquet) (id : Nat) :
    (t.getChannelByChannelID id ST_RESERVED).isSome = true ↔
      id ∈ t.tvChannels ∨ id ∈ t.radioChannels := by
  have hfind (l : List Nat) : l.find? (· = id) = if id ∈ l then some id else none := by
    split
    · rename_i h
      obtain ⟨x, hx⟩ := Option.isSome_iff_exists.mp
        (List.find?_isSome.mpr ⟨id, h, by simp⟩ : (l.find? (· = id)).isSome = true)
      have := List.find?_some hx
      simp only [decide_eq_true_eq] at this
      rw [hx, this]
    · rename_i h
      refine List.find?_eq_none.mpr fun x hx => ?_
      simp only [decide_eq_true_eq]
      exact fun he => h (he ▸ hx)
  have hr : isRadio ST_RESERVED = false := by decide
  simp only [CBouquet.getChannelByChannelID, hr, Bool.false_eq_true, if_false, hfind, if_true]
  by_cases htv : id ∈ t.tvChannels
  · simp [htv]
  · by_cases hradio : id ∈ t.radioChannels
    · simp [htv, hradio]
    · simp [htv, hradio]

theorem modify_takeIn (m : CBouquetManager) (i : Nat) (c : CZapitChannel) :
    (if m.existsChannelInBouquet i c.getChannelID then m
      else m.modify i fun b => b.addService c.getChannelID c.serviceType) =
      m.modify i fun b => takeIn b c := by
  by_cases hex : m.existsChannelInBouquet i c.getChannelID = true
  · have hsame : m.modify i (fun b => takeIn b c) = m.modify i id := by
      apply CBouquetManager.modify_congr
      intro b hb
      rw [CBouquetManager.existsChannelInBouquet, hb] at hex
      exact if_pos hex
    rw [if_pos hex, hsame, CBouquetManager.modify_id]
  · rw [if_neg hex]
    apply CBouquetManager.modify_congr
    intro b hb
    rw [CBouquetManager.existsChannelInBouquet, hb] at hex
    exact (if_neg hex).symm

theorem parseChannel_node
    (hcfg : cfg.channelNamesFromBouquet = true → cfg.writeChannelsNames = true)
    (hn : SameTypes allchans named) {c : CZapitChannel}
    (hc : allchans.find c.getChannelID = some c) (m : CBouquetManager) (i : Nat) :
    ∃ named', parseChannel cfg i (m, named) (channelNode cfg c) =
      some (m.modify i fun b => takeIn b c, named') ∧ SameTypes allchans named' := by
  obtain ⟨hsid, honid, htsid⟩ := getAttrHx_channel cfg c
  obtain ⟨d, hd, htype⟩ := hn.find hc
  have hfind : named.find (createChannelId c.serviceId c.originalNetworkId c.transportStreamId) =
      some d := hd
  have hnamed : ∃ named', (if cfg.channelNamesFromBouquet then
      (xmlGetAttribute (channelNode cfg c) "name").map (named.setName c.getChannelID)
      else some named) = some named' ∧ SameTypes allchans named' := by
    split
    · rename_i h
      have hname : xmlGetAttribute (channelNode cfg c) "name" = some (printable c.name) := by
        simp only [channelNode, channelAtts, hcfg h, if_true]
        rfl
      exact ⟨named.setName c.getChannelID (printable c.name), by rw [hname, Option.map_some],
        hn.setName _ _⟩
    · exact ⟨named, rfl, hn⟩
  obtain ⟨named', hnamed', hsame⟩ := hnamed
  refine ⟨named', ?_, hsame⟩
  rw [← modify_takeIn]
  unfold parseChannel
  simp only [hsid, honid, htsid, hfind]
  rw [show createChannelId c.serviceId c.originalNetworkId c.transportStreamId = c.getChannelID from
    rfl, hnamed', htype]
  by_cases hex : m.existsChannelInBouquet i c.getChannelID = true
  · simp only [hex, if_true]
  · simp only [hex]
    rfl

theorem parseChannels_nodes
    (hcfg : cfg.channelNamesFromBouquet = true → cfg.writeChannelsNames = true)
    (hn : SameTypes allchans named) {cs : List CZapitChannel}
    (hcs : ∀ c ∈ cs, allchans.find c.getChannelID = some c) (m : CBouquetManager) (i : Nat) :
    ∃ named', (cs.map (channelNode cfg)).foldlM (parseChannel cfg i) (m, named) =
      some (m.modify i fun b => cs.foldl takeIn b, named') ∧ SameTypes allchans named' := by
  induction cs generalizing m named with
  | nil =>
    have hid : m.modify i (fun b => [].foldl takeIn b) = m := CBouquetManager.modify_id m i
    exact ⟨named, by rw [hid]; rfl, hn⟩
  | cons c cs ih =>
    obtain ⟨named₁, h₁, hn₁⟩ := parseChannel_node hcfg hn (hcs c List.mem_cons_self) m i
    obtain ⟨named₂, h₂, hn₂⟩ := ih hn₁ (fun d hd => hcs d (List.mem_cons_of_mem c hd))
      (m.modify i fun b => takeIn b c)
    refine ⟨named₂, ?_, hn₂⟩
    rw [List.map_cons, List.foldlM_cons, h₁]
    exact h₂.trans (by rw [CBouquetManager.modify_modify]; rfl)

/-! ## Reading one bouquet -/

/-- The pointers of a list and the channels behind them. -/
theorem channelsOf_spec {list : List Nat} {p : UInt8 → Bool}
    (h : ∀ id ∈ list, ∃ c, allchans.find id = some c ∧ p c.serviceType = true) :
    (channelsOf allchans list).map CZapitChannel.getChannelID = list ∧
      ∀ c ∈ channelsOf allchans list,
        allchans.find c.getChannelID = some c ∧ p c.serviceType = true := by
  constructor
  · induction list with
    | nil => rfl
    | cons id list ih =>
      obtain ⟨c, hc, -⟩ := h id List.mem_cons_self
      have hid : c.getChannelID = id := allchans.keyed id c hc
      have hl := ih fun x hx => h x (List.mem_cons_of_mem id hx)
      unfold channelsOf at hl ⊢
      rw [List.filterMap_cons_some hc, List.map_cons, hl, hid]
  · intro c hc
    obtain ⟨id, hid, hfind⟩ := List.mem_filterMap.mp hc
    have hkey : c.getChannelID = id := allchans.keyed id c hfind
    obtain ⟨d, hd, hp⟩ := h id hid
    rw [hkey]
    rw [hfind] at hd
    cases hd
    exact ⟨hfind, hp⟩

theorem listed_takeIn {t : CBouquet} (ht : Listed allchans t) {c : CZapitChannel}
    (hc : allchans.find c.getChannelID = some c) : Listed allchans (takeIn t c) := by
  unfold takeIn
  split
  · exact ht
  · exact ht.addService hc

theorem takeIn_tv {t : CBouquet} (ht : Listed allchans t) {c : CZapitChannel}
    (hc : allchans.find c.getChannelID = some c) (htv : isTv c.serviceType = true) :
    takeIn t c = { t with tvChannels := addNew t.tvChannels [c.getChannelID] } := by
  have hradio : c.getChannelID ∉ t.radioChannels := by
    intro hr
    obtain ⟨d, hd, hdr⟩ := ht.radio _ hr
    rw [hc] at hd
    cases hd
    exact absurd hdr (by rw [not_radio_of_tv htv]; simp)
  by_cases hmem : c.getChannelID ∈ t.tvChannels
  · have hsome := (mem_lists_iff t c.getChannelID).mpr (Or.inl hmem)
    simp [takeIn, hsome, addNew, hmem]
  · have hnone : ¬ (t.getChannelByChannelID c.getChannelID ST_RESERVED).isSome = true := by
      rw [mem_lists_iff]
      exact fun h => h.elim hmem hradio
    simp [takeIn, hnone, addNew, hmem, CBouquet.addService, htv]

theorem takeIn_radio {t : CBouquet} (ht : Listed allchans t) {c : CZapitChannel}
    (hc : allchans.find c.getChannelID = some c) (hradio : isRadio c.serviceType = true) :
    takeIn t c = { t with radioChannels := addNew t.radioChannels [c.getChannelID] } := by
  have hnotv : isTv c.serviceType = false := by
    by_contra h
    have := not_radio_of_tv (Bool.of_not_eq_false h)
    rw [hradio] at this
    cases this
  have htv : c.getChannelID ∉ t.tvChannels := by
    intro hm
    obtain ⟨d, hd, hdt⟩ := ht.tv _ hm
    rw [hc] at hd
    cases hd
    rw [hnotv] at hdt
    cases hdt
  by_cases hmem : c.getChannelID ∈ t.radioChannels
  · have hsome := (mem_lists_iff t c.getChannelID).mpr (Or.inr hmem)
    simp [takeIn, hsome, addNew, hmem]
  · have hnone : ¬ (t.getChannelByChannelID c.getChannelID ST_RESERVED).isSome = true := by
      rw [mem_lists_iff]
      exact fun h => h.elim htv hmem
    simp [takeIn, hnone, addNew, hmem, CBouquet.addService, hnotv, hradio]

/-- The channels of a list are read into the list they came from. -/
theorem foldl_takeIn {t b : CBouquet} (ht : Listed allchans t) (hb : Listed allchans b) :
    (channelsOfBouquet allchans b).foldl takeIn t = absorb t b := by
  obtain ⟨htvIds, htv⟩ := channelsOf_spec hb.tv
  obtain ⟨hradioIds, hradio⟩ := channelsOf_spec hb.radio
  have htvFold : ∀ (cs : List CZapitChannel) (t : CBouquet), Listed allchans t →
      (∀ c ∈ cs, allchans.find c.getChannelID = some c ∧ isTv c.serviceType = true) →
      cs.foldl takeIn t =
        { t with tvChannels := addNew t.tvChannels (cs.map CZapitChannel.getChannelID) } ∧
      Listed allchans (cs.foldl takeIn t) := by
    intro cs
    induction cs with
    | nil => exact fun t ht _ => ⟨rfl, ht⟩
    | cons c cs ih =>
      intro t ht hcs
      obtain ⟨hc, htype⟩ := hcs c List.mem_cons_self
      have hlisted := listed_takeIn ht hc
      obtain ⟨heq, hl⟩ := ih _ hlisted fun d hd => hcs d (List.mem_cons_of_mem c hd)
      refine ⟨?_, hl⟩
      rw [List.foldl_cons, heq, takeIn_tv ht hc htype]
      rfl
  have hradioFold : ∀ (cs : List CZapitChannel) (t : CBouquet), Listed allchans t →
      (∀ c ∈ cs, allchans.find c.getChannelID = some c ∧ isRadio c.serviceType = true) →
      cs.foldl takeIn t =
        { t with radioChannels := addNew t.radioChannels (cs.map CZapitChannel.getChannelID) } := by
    intro cs
    induction cs with
    | nil => exact fun t _ _ => rfl
    | cons c cs ih =>
      intro t ht hcs
      obtain ⟨hc, htype⟩ := hcs c List.mem_cons_self
      rw [List.foldl_cons, ih _ (listed_takeIn ht hc) fun d hd =>
        hcs d (List.mem_cons_of_mem c hd), takeIn_radio ht hc htype]
      rfl
  obtain ⟨hfirst, hlisted⟩ := htvFold _ t ht htv
  rw [channelsOfBouquet, List.foldl_append, hradioFold _ _ hlisted hradio, hfirst, htvIds,
    hradioIds]
  rfl

theorem listed_absorb {t b : CBouquet} (ht : Listed allchans t) (hb : Listed allchans b) :
    Listed allchans (absorb t b) :=
  ⟨fun x hx => (mem_addNew hx).elim (ht.tv x) (hb.tv x),
    fun x hx => (mem_addNew hx).elim (ht.radio x) (hb.radio x)⟩

/-- The state in the middle of a file: the bouquets read so far are `acc`. -/
structure Loading (allchans : Tallchans) (st : CBouquetManager × Tallchans)
    (acc : List CBouquet) : Prop where
  view : st.1.bouquets.map Prod.snd = acc
  listed : AllListed allchans st.1
  addresses : ∀ b ∈ st.1.bouquets, b.1 < st.1.fresh
  remain : st.1.remainChannels = none
  types : SameTypes allchans st.2

theorem existsBouquet_eq (m : CBouquetManager) (name : Str) :
    m.existsBouquet name =
      if name ∈ (m.bouquets.map Prod.snd).map CBouquet.name then
        some ((m.bouquets.map Prod.snd).findIdx fun x => x.name = name)
      else none := by
  unfold CBouquetManager.existsBouquet
  split
  · rename_i h
    obtain ⟨b, hb, rfl⟩ := List.mem_map.mp h
    obtain ⟨p, hp, rfl⟩ := List.mem_map.mp hb
    rw [List.findIdx?_eq_some_iff_findIdx_eq, List.findIdx_map]
    exact ⟨List.findIdx_lt_length_of_exists ⟨p, hp, by simp⟩, rfl⟩
  · rename_i h
    rw [List.findIdx?_eq_none_iff]
    intro p hp
    simp only [decide_eq_false_iff_not]
    exact fun he => h (he ▸ List.mem_map_of_mem (List.mem_map_of_mem hp))

theorem view_modify (m : CBouquetManager) (i : Nat) (f : CBouquet → CBouquet) :
    (m.modify i f).bouquets.map Prod.snd = (m.bouquets.map Prod.snd).modify i f := by
  refine List.ext_getElem? fun j => ?_
  simp only [CBouquetManager.modify, List.getElem?_map, List.getElem?_modify]
  cases m.bouquets[j]? with
  | none => rfl
  | some b =>
    simp only [Option.map_eq_map, Option.map_some]
    split <;> rfl

/-- A bouquet of the state takes in the channels of `b`. -/
theorem Loading.takeIn {st : CBouquetManager × Tallchans} {acc : List CBouquet}
    (h : Loading allchans st acc) {b : CBouquet} (hb : Listed allchans b)
    (hcfg : cfg.channelNamesFromBouquet = true → cfg.writeChannelsNames = true) (i : Nat) :
    ∃ st', ((channelsOfBouquet allchans b).map (channelNode cfg)).foldlM (parseChannel cfg i) st =
        some st' ∧ Loading allchans st' (acc.modify i fun t => absorb t b) := by
  have hcs : ∀ c ∈ channelsOfBouquet allchans b, allchans.find c.getChannelID = some c := by
    intro c hc
    rcases List.mem_append.mp hc with hc | hc
    · exact ((channelsOf_spec hb.tv).2 c hc).1
    · exact ((channelsOf_spec hb.radio).2 c hc).1
  obtain ⟨named', hread, hnamed⟩ := parseChannels_nodes hcfg h.types hcs st.1 i
  have hsame : st.1.modify i (fun t => (channelsOfBouquet allchans b).foldl Zapit.takeIn t) =
      st.1.modify i (fun t => absorb t b) :=
    CBouquetManager.modify_congr fun t ht =>
      foldl_takeIn (h.listed t (List.mem_of_getElem? ht)) hb
  rw [hsame] at hread
  refine ⟨_, hread, ?_⟩
  constructor
  · rw [view_modify, h.view]
  · exact h.listed.modify i fun t ht => listed_absorb ht hb
  · exact addresses_modify h.addresses i _
  · exact h.remain
  · exact hnamed

theorem occurrences_map {α : Type} {l : List α} {f : α → XMLTreeNode} {name : String}
    (h : ∀ x, (f x).type = chars name) : occurrences (l.map f) name = l.map f := by
  refine List.filter_eq_self.mpr fun n hn => ?_
  obtain ⟨x, -, rfl⟩ := List.mem_map.mp hn
  simpa using h x

theorem Loading.step {st : CBouquetManager × Tallchans} {acc : List CBouquet}
    (h : Loading allchans st acc) {b : CBouquet} (hb : Listed allchans b)
    (hcfg : cfg.channelNamesFromBouquet = true → cfg.writeChannelsNames = true) :
    ∃ st', parseBouquet cfg st (bouquetNode cfg allchans b) = some st' ∧
      Loading allchans st' (loadStep acc (written b)) := by
  have hchildren : occurrences (bouquetNode cfg allchans b).children "channel" =
      (channelsOfBouquet allchans b).map (channelNode cfg) := occurrences_map fun _ => rfl
  have hexists := existsBouquet_eq st.1 (printable b.name)
  rw [h.view] at hexists
  unfold parseBouquet
  simp only [name_bouquet, hchildren]
  by_cases hname : printable b.name ∈ acc.map CBouquet.name
  · rw [if_pos hname] at hexists
    rw [hexists, loadStep, if_pos (show (written b).name ∈ _ from hname)]
    exact h.takeIn hb hcfg _
  · rw [if_neg hname] at hexists
    rw [hexists, loadStep, if_neg (show (written b).name ∉ _ from hname), newBouquet_node]
    have hnew : Loading allchans
        (st.1.addBouquet { written b with tvChannels := [], radioChannels := [] }, st.2)
        (acc ++ [{ written b with tvChannels := [], radioChannels := [] }]) := by
      constructor
      · simp [CBouquetManager.addBouquet, h.view]
      · exact h.listed.addBouquet ⟨by simp, by simp⟩
      · intro x hx
        rcases List.mem_append.mp hx with hx | hx
        · exact Nat.lt_succ_of_lt (h.addresses x hx)
        · rw [List.mem_singleton.mp hx]
          exact Nat.lt_succ_self _
      · exact h.remain
      · exact h.types
    have hlen : st.1.bouquets.length = acc.length := by rw [← h.view, List.length_map]
    obtain ⟨st', hread, hload⟩ := hnew.takeIn hb hcfg st.1.bouquets.length
    refine ⟨st', hread, ?_⟩
    rw [hlen, modify_concat] at hload
    exact hload

theorem Loading.run {bs : List CBouquet} (hbs : ∀ b ∈ bs, Listed allchans b)
    (hcfg : cfg.channelNamesFromBouquet = true → cfg.writeChannelsNames = true)
    {st : CBouquetManager × Tallchans} {acc : List CBouquet} (h : Loading allchans st acc) :
    ∃ st', (bs.map (bouquetNode cfg allchans)).foldlM (parseBouquet cfg) st = some st' ∧
      Loading allchans st' ((bs.map written).foldl loadStep acc) := by
  induction bs generalizing st acc with
  | nil => exact ⟨st, rfl, h⟩
  | cons b bs ih =>
    obtain ⟨st₁, h₁, hl₁⟩ := h.step (hbs b List.mem_cons_self) hcfg
    obtain ⟨st₂, h₂, hl₂⟩ := ih (fun x hx => hbs x (List.mem_cons_of_mem b hx)) hl₁
    refine ⟨st₂, ?_, hl₂⟩
    rw [List.map_cons, List.foldlM_cons, h₁]
    exact h₂

/-! ## The whole file -/

/-- All bouquets but the generated one. -/
def userBouquets (m : CBouquetManager) : List CBouquet :=
  (m.bouquets.filter fun b => some b.1 ≠ m.remainChannels).map Prod.snd

theorem writtenBouquets_eq (m : CBouquetManager) :
    writtenBouquets false m = (userBouquets m).filter fun b => !isNewChannels b.name := by
  unfold writtenBouquets userBouquets
  rw [List.filter_map, List.filter_filter]
  simp only [Bool.false_or, Function.comp_def, Bool.and_comm]

theorem loading_empty (allchans : Tallchans) (remaining : Bool) :
    Loading allchans (CBouquetManager.empty remaining, allchans) [] where
  view := rfl
  listed := by intro b hb; simp [CBouquetManager.empty] at hb
  addresses := by intro b hb; simp [CBouquetManager.empty] at hb
  remain := rfl
  types := fun _ => rfl

/-- The bouquet of remaining channels stands at a new address behind the others. -/
theorem userBouquets_renum {st : CBouquetManager × Tallchans} {acc : List CBouquet}
    (h : Loading allchans st acc) : userBouquets (renumServices st.2 st.1) = acc := by
  have hclear : { st.1.deleteAddress st.1.remainChannels with remainChannels := none } = st.1 := by
    rw [h.remain]
    exact congrArg (fun r => { st.1 with remainChannels := r }) h.remain.symm
  have hne : ∀ b ∈ st.1.bouquets, b.1 ≠ st.1.fresh := fun b hb => (h.addresses b hb).ne
  have hall : st.1.bouquets.filter (fun b => some b.1 ≠ some st.1.fresh) = st.1.bouquets :=
    List.filter_eq_self.mpr fun b hb => by simpa using hne b hb
  unfold renumServices
  rw [hclear]
  split
  · unfold makeRemainingChannelsBouquet
    dsimp only
    split
    · have hlast := deleteAddress_last h.addresses (b := remainBouquet st.2 st.1)
      simp only [CBouquetManager.deleteAddress, CBouquetManager.addBouquet] at hlast
      simp [userBouquets, CBouquetManager.deleteAddress, CBouquetManager.addBouquet, hlast, h.view]
    · simp only [userBouquets, CBouquetManager.addBouquet, List.filter_append, hall]
      simp [h.view]
  · simp [userBouquets, h.remain, h.view]

/-- Loading undoes saving, up to what the file cannot hold. -/
theorem load_saved {expat : Str → Option (List Event)} {m : CBouquetManager} (remaining : Bool)
    (hm : Reachable allchans m) (hexpat : Reads expat (bouquetsDocument cfg allchans m))
    (hcfg : cfg.channelNamesFromBouquet = true → cfg.writeChannelsNames = true) :
    ∃ loaded named, loadBouquets cfg expat (saveBouquets cfg allchans false m).2
        (CBouquetManager.empty remaining, allchans) = some (loaded, named) ∧
      userBouquets loaded = restored (userBouquets m) := by
  have hlisted : ∀ b ∈ writtenBouquets false m, Listed allchans b := by
    intro b hb
    obtain ⟨p, hp, rfl⟩ := List.mem_map.mp hb
    exact reachable_listed hm p (List.mem_filter.mp hp).1
  obtain ⟨st, hread, hload⟩ := Loading.run hlisted hcfg (loading_empty allchans remaining)
  have hnodes : occurrences ((writtenBouquets false m).map (bouquetNode cfg allchans)) "Bouquet" =
      (writtenBouquets false m).map (bouquetNode cfg allchans) := occurrences_map fun _ => rfl
  refine ⟨renumServices st.2 st.1, st.2, ?_, ?_⟩
  · unfold loadBouquets
    rw [parseXml_document cfg allchans hexpat]
    simp only [parseBouquetsXml, XMLTreeNode.children, hnodes, hread, Option.map_some]
  · rw [userBouquets_renum hload, foldl_loadStep, restored, writtenBouquets_eq]

/-- Saving and loading gives `restored`, and the same bouquets exactly when the
file can hold them. -/
theorem bouquets_round_trip {expat : Str → Option (List Event)} {m : CBouquetManager}
    (remaining : Bool) (hm : Reachable allchans m)
    (hexpat : Reads expat (bouquetsDocument cfg allchans m))
    (hcfg : cfg.channelNamesFromBouquet = true → cfg.writeChannelsNames = true) :
    ∃ loaded named, loadBouquets cfg expat (saveBouquets cfg allchans false m).2
        (CBouquetManager.empty remaining, allchans) = some (loaded, named) ∧
      userBouquets loaded = restored (userBouquets m) ∧
      (userBouquets loaded = userBouquets m ↔ Saveable (userBouquets m)) := by
  obtain ⟨loaded, named, hload, hrestored⟩ := load_saved remaining hm hexpat hcfg
  refine ⟨loaded, named, hload, hrestored, ?_⟩
  rw [hrestored]
  exact restored_eq_self (userBouquets m)

end

section
/-- One TV channel. -/
def sampleChannel : CZapitChannel where
  name := chars "ARD"
  serviceId := 0x6dca
  transportStreamId := 0x44d
  originalNetworkId := 1
  serviceType := 1
  diSEqC := 0
  satellitePosition := 192
  frequency := 11836
  channelNumber := 0

def sampleChannels : Tallchans where
  map := OrdMap.empty.set sampleChannel.getChannelID sampleChannel
  keyed := by
    intro id c h
    rw [OrdMap.find_set] at h
    split at h
    · rename_i he
      cases h
      exact he.symm
    · simp at h

def sampleConfig : Config where
  writeChannelsNames := true
  channelNamesFromBouquet := false
  sat := true

def sampleManager (rs : List Request) : CBouquetManager :=
  rs.foldl (exec sampleChannels) (CBouquetManager.empty true)

/-- Names are taken from a file that has none. -/
def namelessConfig : Config where
  writeChannelsNames := false
  channelNamesFromBouquet := true
  sat := true

/-- A parser that knows the file of `m`. -/
def sampleParser (cfg : Config) (m : CBouquetManager) : Str → Option (List Event) := fun file =>
  if file = text (bouquetsDocument cfg sampleChannels m) then
    some (events (bouquetsDocument cfg sampleChannels m))
  else none

theorem sampleParser_reads (cfg : Config) (m : CBouquetManager) :
    Reads (sampleParser cfg m) (bouquetsDocument cfg sampleChannels m) := if_pos rfl

def newsRequests : List Request :=
  [.addBouquet (chars "<News>"), .addChannelToBouquet 0 sampleChannel.getChannelID]

theorem bouquets_round_trip_sample :
    ∃ loaded named, loadBouquets sampleConfig
        (sampleParser sampleConfig (sampleManager newsRequests))
        (saveBouquets sampleConfig sampleChannels false (sampleManager newsRequests)).2
        (CBouquetManager.empty true, sampleChannels) = some (loaded, named) ∧
      userBouquets loaded = restored (userBouquets (sampleManager newsRequests)) ∧
      (userBouquets loaded = userBouquets (sampleManager newsRequests) ↔
        Saveable (userBouquets (sampleManager newsRequests))) :=
  bouquets_round_trip true ⟨true, newsRequests, rfl⟩ (sampleParser_reads _ _)
    (by simp [sampleConfig])

/-- Two bouquets of one name, a channel added twice, a name that starts like the
generated one, and a name with a tab. -/
def unsaveable : List (List Request) :=
  [[.addBouquet (chars "A"), .addBouquet (chars "A")],
    [.addBouquet (chars "A"), .addChannelToBouquet 0 sampleChannel.getChannelID,
      .addChannelToBouquet 0 sampleChannel.getChannelID],
    [.addBouquet (chars "New Channels 2")],
    [.addBouquet (chars "A\tB")]]

/-- None of them comes back as it was. -/
theorem unsaveable_not_restored : unsaveable ≠ [] ∧ ∀ rs ∈ unsaveable,
    Reachable sampleChannels (sampleManager rs) ∧
    Reads (sampleParser sampleConfig (sampleManager rs))
      (bouquetsDocument sampleConfig sampleChannels (sampleManager rs)) ∧
    ∀ loaded named, loadBouquets sampleConfig (sampleParser sampleConfig (sampleManager rs))
        (saveBouquets sampleConfig sampleChannels false (sampleManager rs)).2
        (CBouquetManager.empty true, sampleChannels) = some (loaded, named) →
      userBouquets loaded ≠ userBouquets (sampleManager rs) := by
  refine ⟨by decide, fun rs hrs => ?_⟩
  have hm : Reachable sampleChannels (sampleManager rs) := ⟨true, rs, rfl⟩
  have hreads := sampleParser_reads sampleConfig (sampleManager rs)
  refine ⟨hm, hreads, fun loaded named hload heq => ?_⟩
  obtain ⟨loaded', named', hload', hrestored⟩ :=
    load_saved true hm hreads (by simp [sampleConfig])
  rw [hload] at hload'
  cases hload'
  rw [hrestored] at heq
  have hnot : ∀ rs ∈ unsaveable,
      restored (userBouquets (sampleManager rs)) ≠ userBouquets (sampleManager rs) := by
    decide
  exact hnot rs hrs heq

/-- A name that is not in the file cannot be set. -/
theorem nameless_not_loaded :
    Reads (sampleParser namelessConfig (sampleManager newsRequests))
      (bouquetsDocument namelessConfig sampleChannels (sampleManager newsRequests)) ∧
    (loadBouquets namelessConfig (sampleParser namelessConfig (sampleManager newsRequests))
      (saveBouquets namelessConfig sampleChannels false (sampleManager newsRequests)).2
      (CBouquetManager.empty true, sampleChannels)).isNone = true :=
  ⟨sampleParser_reads _ _, by decide +kernel⟩

end

end Tuxbox.Zapit
