import Tuxbox.Zapit.Channel

/-!
# Bouquets

`CBouquet` and `CBouquetManager`, and the requests that clients send them.

A channel in a list is a pointer into `allchans`, so it is named by its id
there. A bouquet is named by the address `new` gave it, because the manager
knows the generated bouquet of remaining channels by its address alone.
-/

namespace Tuxbox.Zapit

structure CBouquet where
  name : Str
  bHidden : Bool
  bLocked : Bool
  type : Int32
  bouquetId : UInt16
  tvChannels : List Nat
  radioChannels : List Nat
  deriving DecidableEq

/-- `erase` and `insert`, both positions within the list. -/
def moveItem {α : Type} (l : List α) (oldPosition newPosition : Nat) : List α :=
  match l[oldPosition]? with
  | none => l
  | some x =>
    if newPosition < l.length then (l.eraseIdx oldPosition).insertIdx newPosition x else l

theorem mem_moveItem {α : Type} {l : List α} {i j : Nat} {y : α} (h : y ∈ moveItem l i j) :
    y ∈ l := by
  unfold moveItem at h
  split at h
  · exact h
  · rename_i x hx
    split at h
    · rename_i hj
      have hi : i < l.length := (List.getElem?_eq_some_iff.mp hx).1
      have hle : j ≤ (l.eraseIdx i).length := by
        rw [List.length_eraseIdx_of_lt hi]
        omega
      rcases (List.mem_insertIdx hle).mp h with rfl | h
      · exact List.mem_of_getElem? hx
      · exact List.mem_of_mem_eraseIdx h
    · exact h

/-- The types that the list of a mode takes. -/
def inMode (tv : Bool) (serviceType : UInt8) : Bool :=
  if tv then isTv serviceType else isRadio serviceType

theorem inMode_unique {tv tv' : Bool} {serviceType : UInt8} (h : inMode tv serviceType = true)
    (h' : inMode tv' serviceType = true) : tv = tv' := by
  cases tv <;> cases tv'
  · rfl
  · exact absurd (not_radio_of_tv h') (by simpa [inMode] using h)
  · exact absurd (not_radio_of_tv h) (by simpa [inMode] using h')
  · rfl

namespace CBouquet

/-- The constructor. -/
def new (name : Str) : CBouquet where
  name := name
  bHidden := false
  bLocked := false
  type := 0
  bouquetId := 0
  tvChannels := []
  radioChannels := []

def channels (b : CBouquet) (tv : Bool) : List Nat :=
  if tv then b.tvChannels else b.radioChannels

/-- A type without a list of its own asks for the TV list. Type 0 asks for both. -/
def getChannelByChannelID (b : CBouquet) (id : Nat) (serviceType : UInt8) : Option Nat :=
  let channels := if isRadio serviceType then b.radioChannels else b.tvChannels
  match channels.find? (· = id) with
  | some c => some c
  | none =>
    if serviceType = ST_RESERVED then b.radioChannels.find? (· = id) else none

/-- A channel of any other type is not added. -/
def addService (b : CBouquet) (id : Nat) (serviceType : UInt8) : CBouquet :=
  if isTv serviceType then { b with tvChannels := b.tvChannels ++ [id] }
  else if isRadio serviceType then { b with radioChannels := b.radioChannels ++ [id] }
  else b

/-- Every occurrence goes. -/
def removeService (b : CBouquet) (id : Nat) (serviceType : UInt8) : CBouquet :=
  if isRadio serviceType then { b with radioChannels := b.radioChannels.filter (· ≠ id) }
  else { b with tvChannels := b.tvChannels.filter (· ≠ id) }

def moveService (b : CBouquet) (oldPosition newPosition : Nat) (serviceType : UInt8) : CBouquet :=
  if isRadio serviceType then
    { b with radioChannels := moveItem b.radioChannels oldPosition newPosition }
  else { b with tvChannels := moveItem b.tvChannels oldPosition newPosition }

end CBouquet

/-! ## The manager -/

structure CBouquetManager where
  bouquets : List (Nat × CBouquet)
  /-- the address of the generated bouquet -/
  remainChannels : Option Nat
  remainingChannelsBouquet : Bool
  /-- an address that `new` has not given out yet -/
  fresh : Nat
  deriving DecidableEq

namespace CBouquetManager

def empty (remainingChannelsBouquet : Bool) : CBouquetManager where
  bouquets := []
  remainChannels := none
  remainingChannelsBouquet := remainingChannelsBouquet
  fresh := 0

def addBouquet (m : CBouquetManager) (b : CBouquet) : CBouquetManager :=
  { m with bouquets := m.bouquets ++ [(m.fresh, b)], fresh := m.fresh + 1 }

/-- `deleteBouquet` by address. -/
def deleteAddress (m : CBouquetManager) (address : Option Nat) : CBouquetManager :=
  match address with
  | none => m
  | some a => { m with bouquets := m.bouquets.eraseP fun b => b.1 = a }

/-- `deleteBouquet` by position. The generated bouquet stays. -/
def deleteBouquet (m : CBouquetManager) (id : Nat) : CBouquetManager :=
  match m.bouquets[id]? with
  | none => m
  | some b => if some b.1 = m.remainChannels then m else m.deleteAddress (some b.1)

def existsBouquet (m : CBouquetManager) (name : Str) : Option Nat :=
  m.bouquets.findIdx? fun b => b.2.name = name

/-- Type 0 looks in both lists. -/
def existsChannelInBouquet (m : CBouquetManager) (bouquet id : Nat) : Bool :=
  match m.bouquets[bouquet]? with
  | none => false
  | some b => (b.2.getChannelByChannelID id ST_RESERVED).isSome

def moveBouquet (m : CBouquetManager) (oldId newId : Nat) : CBouquetManager :=
  { m with bouquets := moveItem m.bouquets oldId newId }

/-- Change the bouquet at a position. -/
def modify (m : CBouquetManager) (bouquet : Nat) (f : CBouquet → CBouquet) : CBouquetManager :=
  { m with bouquets := m.bouquets.modify bouquet fun b => (b.1, f b.2) }

section
variable {m : CBouquetManager} {i : Nat} {f g : CBouquet → CBouquet}

/-- Only the bouquet at the position counts. -/
theorem modify_congr (h : ∀ b, m.bouquets[i]? = some b → f b.2 = g b.2) :
    m.modify i f = m.modify i g := by
  have hb : m.bouquets.modify i (fun b => (b.1, f b.2)) =
      m.bouquets.modify i (fun b => (b.1, g b.2)) := by
    refine List.ext_getElem? fun j => ?_
    rw [List.getElem?_modify, List.getElem?_modify]
    cases hj : m.bouquets[j]? with
    | none => rfl
    | some b =>
      by_cases hij : i = j
      · subst hij
        simp [h b hj]
      · simp [hij]
  simp only [modify, hb]

@[simp] theorem modify_id (m : CBouquetManager) (i : Nat) : m.modify i id = m := by
  have hb : m.bouquets.modify i (fun b => (b.1, id b.2)) = m.bouquets :=
    List.modify_id i m.bouquets
  simp only [modify, hb]

theorem modify_modify (m : CBouquetManager) (i : Nat) (f g : CBouquet → CBouquet) :
    (m.modify i f).modify i g = m.modify i (g ∘ f) := by
  simp only [modify, List.modify_modify_eq]
  rfl

end

end CBouquetManager

/-- `CmpChannelByChName`: `lexicographical_compare` under `tolower`. -/
def cmpChannelByChName : Str → Str → Bool
  | [], [] => false
  | [], _ :: _ => true
  | _ :: _, [] => false
  | a :: as, b :: bs =>
    if toLower a < toLower b then true
    else if toLower b < toLower a then false
    else cmpChannelByChName as bs

section
variable (allchans : Tallchans)

def serviceTypeOf (id : Nat) : UInt8 :=
  match allchans.find id with
  | none => ST_RESERVED
  | some c => c.serviceType

/-- The channels that no bouquet has, by name. `sort` leaves open how equal
names are ordered; here they stay in the order of their ids. -/
def unusedChannels (m : CBouquetManager) : List Nat :=
  let processed := m.bouquets.flatMap fun b => b.2.tvChannels ++ b.2.radioChannels
  let unused := allchans.map.entries.filter fun e => e.1 ∉ processed
  let sorted := unused.mergeSort fun a b => !cmpChannelByChName b.2.name a.2.name
  sorted.map Prod.fst

/-- Its services are looked up again one by one. -/
def remainBouquet (m : CBouquetManager) : CBouquet :=
  let name := if m.bouquets.isEmpty then chars "All Channels A-Z" else chars "Others"
  (unusedChannels allchans m).foldl
    (fun b id => b.addService id (serviceTypeOf allchans id)) (CBouquet.new name)

def makeRemainingChannelsBouquet (m : CBouquetManager) : CBouquetManager :=
  let remain := remainBouquet allchans m
  let added := { m.addBouquet remain with remainChannels := some m.fresh }
  if remain.tvChannels.isEmpty && remain.radioChannels.isEmpty then
    { added.deleteAddress (some m.fresh) with remainChannels := none }
  else added

def renumServices (m : CBouquetManager) : CBouquetManager :=
  let cleared := { m.deleteAddress m.remainChannels with remainChannels := none }
  if m.remainingChannelsBouquet then makeRemainingChannelsBouquet allchans cleared else cleared

/-- The requests of the bouquet editor; the scan also sets the type and the id
of a bouquet. -/
inductive Request
  | addBouquet (name : Str)
  | deleteBouquet (bouquet : Nat)
  | renameBouquet (bouquet : Nat) (name : Str)
  | moveBouquet (bouquet newPos : Nat)
  | addChannelToBouquet (bouquet channelId : Nat)
  | removeChannelFromBouquet (bouquet channelId : Nat)
  | moveChannel (bouquet oldPos newPos : Nat) (serviceType : UInt8)
  | setLockstate (bouquet : Nat) (state : Bool)
  | setHiddenstate (bouquet : Nat) (state : Bool)
  | setTypeAndId (bouquet : Nat) (type : Int32) (bouquetId : UInt16)
  | renumChannellist

/-- `removeService` by id: whichever list has the channel first. -/
def removeById (b : CBouquet) (channelId : Nat) : CBouquet :=
  match b.getChannelByChannelID channelId ST_RESERVED with
  | none => b
  | some id => b.removeService id (serviceTypeOf allchans id)

def exec (m : CBouquetManager) : Request → CBouquetManager
  | .addBouquet name => m.addBouquet (CBouquet.new name)
  | .deleteBouquet bouquet => m.deleteBouquet bouquet
  | .renameBouquet bouquet name => m.modify bouquet fun b => { b with name := name }
  | .moveBouquet bouquet newPos => m.moveBouquet bouquet newPos
  | .addChannelToBouquet bouquet channelId =>
    match allchans.find channelId with
    | none => m
    | some c => m.modify bouquet fun b => b.addService channelId c.serviceType
  | .removeChannelFromBouquet bouquet channelId =>
    m.modify bouquet fun b => removeById allchans b channelId
  | .moveChannel bouquet oldPos newPos serviceType =>
    m.modify bouquet fun b => b.moveService oldPos newPos serviceType
  | .setLockstate bouquet state => m.modify bouquet fun b => { b with bLocked := state }
  | .setHiddenstate bouquet state => m.modify bouquet fun b => { b with bHidden := state }
  | .setTypeAndId bouquet type bouquetId =>
    m.modify bouquet fun b => { b with type := type, bouquetId := bouquetId }
  | .renumChannellist => renumServices allchans m

/-- A manager that requests have made out of an empty one. -/
def Reachable (m : CBouquetManager) : Prop :=
  ∃ (remaining : Bool) (rs : List Request),
    rs.foldl (exec allchans) (CBouquetManager.empty remaining) = m

/-! ## What the lists hold -/

/-- Each list holds channels of `allchans`, of a type that belongs in it. -/
structure Listed (b : CBouquet) : Prop where
  tv : ∀ id ∈ b.tvChannels, ∃ c, allchans.find id = some c ∧ isTv c.serviceType = true
  radio : ∀ id ∈ b.radioChannels, ∃ c, allchans.find id = some c ∧ isRadio c.serviceType = true

variable {allchans}

theorem listed_new (name : Str) : Listed allchans (CBouquet.new name) where
  tv := by intro id h; simp [CBouquet.new] at h
  radio := by intro id h; simp [CBouquet.new] at h

theorem Listed.addService {b : CBouquet} (h : Listed allchans b) {id : Nat} {c : CZapitChannel}
    (hc : allchans.find id = some c) : Listed allchans (b.addService id c.serviceType) := by
  unfold CBouquet.addService
  split
  · rename_i ht
    refine ⟨fun x hx => ?_, h.radio⟩
    rcases List.mem_append.mp hx with hx | hx
    · exact h.tv x hx
    · exact ⟨c, by rw [List.mem_singleton.mp hx, hc], ht⟩
  · split
    · rename_i hr
      refine ⟨h.tv, fun x hx => ?_⟩
      rcases List.mem_append.mp hx with hx | hx
      · exact h.radio x hx
      · exact ⟨c, by rw [List.mem_singleton.mp hx, hc], hr⟩
    · exact h

/-- Lists that have lost or moved channels. -/
theorem Listed.of_subset {b b' : CBouquet} (h : Listed allchans b)
    (htv : ∀ id ∈ b'.tvChannels, id ∈ b.tvChannels)
    (hradio : ∀ id ∈ b'.radioChannels, id ∈ b.radioChannels) : Listed allchans b' :=
  ⟨fun id hid => h.tv id (htv id hid), fun id hid => h.radio id (hradio id hid)⟩

theorem Listed.removeService {b : CBouquet} (h : Listed allchans b) (id : Nat) (type : UInt8) :
    Listed allchans (b.removeService id type) := by
  unfold CBouquet.removeService
  split
  · exact h.of_subset (fun _ hx => hx) (fun _ hx => (List.mem_filter.mp hx).1)
  · exact h.of_subset (fun _ hx => (List.mem_filter.mp hx).1) (fun _ hx => hx)

theorem Listed.moveService {b : CBouquet} (h : Listed allchans b) (i j : Nat) (type : UInt8) :
    Listed allchans (b.moveService i j type) := by
  unfold CBouquet.moveService
  split
  · exact h.of_subset (fun _ hx => hx) (fun _ hx => mem_moveItem hx)
  · exact h.of_subset (fun _ hx => mem_moveItem hx) (fun _ hx => hx)

/-- Every bouquet of the manager. -/
def AllListed (allchans : Tallchans) (m : CBouquetManager) : Prop :=
  ∀ b ∈ m.bouquets, Listed allchans b.2

theorem AllListed.modify {m : CBouquetManager} (h : AllListed allchans m) (i : Nat)
    {f : CBouquet → CBouquet} (hf : ∀ b, Listed allchans b → Listed allchans (f b)) :
    AllListed allchans (m.modify i f) := by
  intro b hb
  simp only [CBouquetManager.modify] at hb
  obtain ⟨j, hj⟩ := List.mem_iff_getElem?.mp hb
  rw [List.getElem?_modify] at hj
  cases hm : m.bouquets[j]? with
  | none => simp [hm] at hj
  | some b' =>
    have hb' := h b' (List.mem_of_getElem? hm)
    simp only [hm, Option.map_eq_map, Option.map_some, Option.some.injEq] at hj
    rw [← hj]
    split
    · exact hf _ hb'
    · exact hb'

theorem addresses_modify {m : CBouquetManager} (h : ∀ b ∈ m.bouquets, b.1 < m.fresh) (i : Nat)
    (f : CBouquet → CBouquet) : ∀ b ∈ (m.modify i f).bouquets, b.1 < (m.modify i f).fresh := by
  intro b hb
  obtain ⟨j, hj⟩ := List.mem_iff_getElem?.mp hb
  simp only [CBouquetManager.modify, List.getElem?_modify] at hj
  cases hm : m.bouquets[j]? with
  | none => simp [hm] at hj
  | some p =>
    have hp := h p (List.mem_of_getElem? hm)
    simp only [hm, Option.map_eq_map, Option.map_some, Option.some.injEq] at hj
    rw [← hj]
    split <;> exact hp

/-- The bouquet that was added last has an address of its own. -/
theorem deleteAddress_last {m : CBouquetManager} (h : ∀ b ∈ m.bouquets, b.1 < m.fresh)
    {b : CBouquet} : ((m.addBouquet b).deleteAddress (some m.fresh)).bouquets = m.bouquets := by
  have hne : ∀ b ∈ m.bouquets, ¬ decide (b.1 = m.fresh) = true :=
    fun b hb => by simpa using (h b hb).ne
  simp only [CBouquetManager.deleteAddress, CBouquetManager.addBouquet]
  rw [List.eraseP_append_right _ hne]
  simp

theorem AllListed.addBouquet {m : CBouquetManager} (h : AllListed allchans m) {b : CBouquet}
    (hb : Listed allchans b) : AllListed allchans (m.addBouquet b) := by
  intro x hx
  rcases List.mem_append.mp hx with hx | hx
  · exact h x hx
  · rw [List.mem_singleton.mp hx]
    exact hb

theorem AllListed.deleteAddress {m : CBouquetManager} (h : AllListed allchans m)
    (address : Option Nat) : AllListed allchans (m.deleteAddress address) := by
  cases address with
  | none => exact h
  | some a => exact fun b hb => h b (List.mem_of_mem_eraseP hb)

theorem AllListed.deleteBouquet {m : CBouquetManager} (h : AllListed allchans m) (id : Nat) :
    AllListed allchans (m.deleteBouquet id) := by
  unfold CBouquetManager.deleteBouquet
  split
  · exact h
  · split
    · exact h
    · exact h.deleteAddress _

theorem mem_unusedChannels {m : CBouquetManager} {id : Nat} (h : id ∈ unusedChannels allchans m) :
    ∃ c, allchans.find id = some c := by
  unfold unusedChannels at h
  obtain ⟨e, he, rfl⟩ := List.mem_map.mp h
  have hmem := (List.mem_filter.mp (List.mem_mergeSort.mp he)).1
  exact ⟨e.2, (OrdMap.find_eq_some _ _ _).mpr hmem⟩

theorem listed_foldl {b : CBouquet} (h : Listed allchans b) {ids : List Nat}
    (hids : ∀ id ∈ ids, ∃ c, allchans.find id = some c) :
    Listed allchans (ids.foldl (fun b id => b.addService id (serviceTypeOf allchans id)) b) := by
  induction ids generalizing b with
  | nil => exact h
  | cons id ids ih =>
    obtain ⟨c, hc⟩ := hids id List.mem_cons_self
    have hb : Listed allchans (b.addService id (serviceTypeOf allchans id)) := by
      have := h.addService hc
      simpa [serviceTypeOf, hc] using this
    exact ih hb fun x hx => hids x (List.mem_cons_of_mem id hx)

theorem AllListed.makeRemaining {m : CBouquetManager} (h : AllListed allchans m) :
    AllListed allchans (makeRemainingChannelsBouquet allchans m) := by
  have hremain : Listed allchans (remainBouquet allchans m) :=
    listed_foldl (listed_new _) fun id hid => mem_unusedChannels hid
  unfold makeRemainingChannelsBouquet
  dsimp only
  split
  · exact (h.addBouquet hremain).deleteAddress (some m.fresh)
  · exact h.addBouquet hremain

theorem AllListed.renumServices {m : CBouquetManager} (h : AllListed allchans m) :
    AllListed allchans (renumServices allchans m) := by
  have hcleared := h.deleteAddress m.remainChannels
  unfold Zapit.renumServices
  split
  · exact makeRemaining hcleared
  · exact hcleared

theorem Listed.removeById {b : CBouquet} (h : Listed allchans b) (channelId : Nat) :
    Listed allchans (removeById allchans b channelId) := by
  unfold Zapit.removeById
  split
  · exact h
  · exact h.removeService _ _

/-- No request puts a channel where it does not belong. -/
theorem AllListed.exec {m : CBouquetManager} (h : AllListed allchans m) (r : Request) :
    AllListed allchans (exec allchans m r) := by
  cases r with
  | addBouquet name => exact h.addBouquet (listed_new name)
  | deleteBouquet bouquet => exact h.deleteBouquet bouquet
  | renameBouquet bouquet name | setLockstate bouquet state | setHiddenstate bouquet state
  | setTypeAndId bouquet type bouquetId => exact h.modify bouquet fun b hb => ⟨hb.tv, hb.radio⟩
  | moveBouquet bouquet newPos => exact fun b hb => h b (mem_moveItem hb)
  | addChannelToBouquet bouquet channelId =>
    simp only [Zapit.exec]
    split
    · exact h
    · rename_i c hc
      exact h.modify bouquet fun b hb => hb.addService hc
  | removeChannelFromBouquet bouquet channelId =>
    exact h.modify bouquet fun b hb => hb.removeById channelId
  | moveChannel bouquet oldPos newPos serviceType =>
    exact h.modify bouquet fun b hb => hb.moveService oldPos newPos serviceType
  | renumChannellist => exact h.renumServices

/-- All requests, in any order, keep to the listed channels. -/
theorem reachable_listed {m : CBouquetManager} (h : Reachable allchans m) :
    AllListed allchans m := by
  obtain ⟨remaining, rs, rfl⟩ := h
  have hrun : ∀ (rs : List Request) (m : CBouquetManager), AllListed allchans m →
      AllListed allchans (rs.foldl (Zapit.exec allchans) m) := by
    intro rs
    induction rs with
    | nil => exact fun m hm => hm
    | cons r rs ih => exact fun m hm => ih _ (hm.exec r)
  exact hrun rs _ (by intro b hb; simp [CBouquetManager.empty] at hb)

end

end Tuxbox.Zapit
