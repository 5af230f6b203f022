import Tuxbox.Sectionsd.Keyed
import Tuxbox.Xmltree.Tree
import Tuxbox.Zapit.TransponderId

/-! Which events the housekeeping removes because their service is not in the services file.
What was found for an event is taken for the next ones of its service as well.

Main results: `deleted_iff`, what is deleted, and `judgesEach_iff_fair`, when every event is
judged by what it is itself. -/
namespace Tuxbox.Sectionsd

open Xmltree

/-! ## The services file -/

/-- `LONG_MAX` of the 32-bit target. -/
def longMax : Nat := 2 ^ 31 - 1

def strtol (base : Nat) (s : Str) : Int :=
  let t := s.dropWhile isSpace
  let negative := t.head? = some minus
  let u := if t.head? = some minus ∨ t.head? = some plus then t.tail else t
  let r := radix base u
  let n := value r.1 (r.2.takeWhile (digitIn r.1))
  if negative then -(min n (longMax + 1) : Nat) else (min n longMax : Nat)

def xmlGetSignedNumericAttribute (n : XMLTreeNode) (name : String) (base : Nat) : Int :=
  match xmlGetAttribute n name with
  | none => 0
  | some s => strtol base s

def getProvbyPosition (nodes : List XMLTreeNode) (position : Int) : Option XMLTreeNode :=
  nodes.find? fun n => xmlGetSignedNumericAttribute n "position" 16 = position

/-- With the satellites at 5 and at 13 degrees east, network and stream 1 are of either. -/
def findTransponder (providers : List XMLTreeNode) (onid tsid : UInt16) : Option XMLTreeNode :=
  if (tsid = 1 ∧ onid = 1) ∧ (getProvbyPosition providers 0x50).isSome ∧
      (getProvbyPosition providers 0x130).isSome then none
  else providers.findSome? fun p => p.children.find? fun t =>
    xmlGetNumericAttribute t "id" 16 = tsid.toNat ∧ xmlGetNumericAttribute t "onid" 16 = onid.toNat

/-- The loop over the nodes of a transponder. It looks at every node as long as there is a
channel among those that are left. -/
def channelLoop (serviceId : UInt16) : List XMLTreeNode → List XMLTreeNode
  | [] => []
  | n :: rest =>
    if occurrences (n :: rest) "channel" = [] then n :: rest
    else if serviceId.toNat ≠ xmlGetNumericAttribute n "service_id" 16 then
      channelLoop serviceId rest
    else n :: rest

/-! ## removeWasteEvents -/

namespace SIevent

def haslinkage (e : SIevent) : Bool :=
  e.linkageDescs.any fun l => l.linkageType = 0xB0 ∨ l.linkageType = 0x00

/-- Whether the loop finds the service, without a look at the event. -/
def serviceFound (services : Option XMLTreeNode) (e : SIevent) : Bool :=
  match services with
  | none => false
  | some root =>
    match findTransponder root.children e.originalNetworkId e.transportStreamId with
    | none => false
    | some tp => occurrences (channelLoop e.serviceId tp.children) "channel" ≠ []

end SIevent

/-- The service of the event before, and what was found for it. -/
structure LastService where
  serviceId : UInt16
  originalNetworkId : UInt16
  transportStreamId : UInt16
  lastidfound : Bool

namespace LastService

def initial : LastService := ⟨0, 0, 0, true⟩

def isSame (last : LastService) (e : SIevent) : Prop :=
  last.originalNetworkId = e.originalNetworkId ∧ last.transportStreamId = e.transportStreamId ∧
    last.serviceId = e.serviceId

instance (last : LastService) (e : SIevent) : Decidable (last.isSame e) :=
  inferInstanceAs (Decidable (_ ∧ _))

/-- `validevent` of an event, and what is kept for the next one. -/
def judge (services : Option XMLTreeNode) (last : LastService) (e : SIevent) : Bool × LastService :=
  if last.isSame e then (last.lastidfound, last)
  else
    let validevent := e.haslinkage || e.serviceFound services
    (validevent, ⟨e.serviceId, e.originalNetworkId, e.transportStreamId, validevent⟩)

end LastService

/-! ## What each event is -/

/-- The service is a channel of its transponder. -/
def Listed (services : Option XMLTreeNode) (e : SIevent) : Prop :=
  ∃ root tp c, services = some root ∧
    findTransponder root.children e.originalNetworkId e.transportStreamId = some tp ∧
    c ∈ occurrences tp.children "channel" ∧
    xmlGetNumericAttribute c "service_id" 16 = e.serviceId.toNat

/-- Something else in the transponder has the number, in front of a channel. -/
def FoundAnyway (services : Option XMLTreeNode) (e : SIevent) : Prop :=
  ∃ root tp before n after, services = some root ∧
    findTransponder root.children e.originalNetworkId e.transportStreamId = some tp ∧
    tp.children = before ++ n :: after ∧ n.type ≠ chars "channel" ∧
    xmlGetNumericAttribute n "service_id" 16 = e.serviceId.toNat ∧ occurrences after "channel" ≠ []

def Waste (services : Option XMLTreeNode) (e : SIevent) : Prop :=
  e.haslinkage = false ∧ ¬ Listed services e

namespace Store

/-- The keys to delete, in the order of the map. -/
def wasteKeys (services : Option XMLTreeNode) (heap : Nat → SIevent) :
    List (Nat × Nat) → LastService → List Nat
  | [], _ => []
  | (k, o) :: rest, last =>
    let r := last.judge services (heap o)
    if r.1 then wasteKeys services heap rest r.2 else k :: wasteKeys services heap rest r.2

/-- `services` is what the file parses to, if it does. No zap is detected meanwhile, and the
keys are deleted from the last one on. -/
def removeWasteEvents (services : Option XMLTreeNode) (s : Store) : Store :=
  (wasteKeys services s.heap s.orderUniqueKey.entries .initial).reverse.foldl deleteEvent s

/-- The deleted events are those that are waste. -/
def JudgesEach (services : Option XMLTreeNode) (s : Store) : Prop :=
  ∀ k o, s.orderUniqueKey.find k = some o →
    ((s.removeWasteEvents services).orderUniqueKey.find k = none ↔ Waste services (s.heap o))

/-- The events of a service that is not listed are alike, and they all have a linkage if the
loop finds the service nevertheless or its ids are those that the loop starts with. -/
structure Fair (services : Option XMLTreeNode) (s : Store) : Prop where
  alike : ∀ k o k' o', s.orderUniqueKey.find k = some o → s.orderUniqueKey.find k' = some o' →
    (s.heap o).channelId = (s.heap o').channelId → ¬ Listed services (s.heap o) →
      (s.heap o).haslinkage = (s.heap o').haslinkage
  linked : ∀ k o, s.orderUniqueKey.find k = some o → ¬ Listed services (s.heap o) →
    FoundAnyway services (s.heap o) ∨ (s.heap o).channelId = 0 → (s.heap o).haslinkage = true

end Store

/-! ## The loop over the channels -/

section
variable {services : Option XMLTreeNode} {e e' : SIevent} {heap : Nat → SIevent}
  {last : LastService} {l : List (Nat × Nat)}

theorem channelLoop_found {sid : UInt16} {ns : List XMLTreeNode} :
    occurrences (channelLoop sid ns) "channel" ≠ [] ↔
      ∃ before n after, ns = before ++ n :: after ∧
        xmlGetNumericAttribute n "service_id" 16 = sid.toNat ∧
        occurrences (n :: after) "channel" ≠ [] := by
  induction ns with
  | nil =>
    constructor
    · intro h
      exact absurd rfl h
    · rintro ⟨before, n, after, h, -⟩
      cases List.append_ne_nil_of_right_ne_nil before (List.cons_ne_nil n after) h.symm
  | cons m rest ih =>
    unfold channelLoop
    by_cases hnone : occurrences (m :: rest) "channel" = []
    · rw [if_pos hnone]
      refine iff_of_false (fun h => h hnone) ?_
      rintro ⟨before, n, after, heq, -, hfound⟩
      rw [heq, occurrences, List.filter_append, List.append_eq_nil_iff] at hnone
      exact hfound hnone.2
    · rw [if_neg hnone]
      by_cases hsid : sid.toNat ≠ xmlGetNumericAttribute m "service_id" 16
      · rw [if_pos hsid, ih]
        constructor
        · rintro ⟨before, n, after, rfl, hn, hfound⟩
          exact ⟨m :: before, n, after, rfl, hn, hfound⟩
        · rintro ⟨before, n, after, heq, hn, hfound⟩
          cases before with
          | nil =>
            cases heq
            exact absurd hn.symm hsid
          | cons m' before =>
            cases heq
            exact ⟨before, n, after, rfl, hn, hfound⟩
      · rw [if_neg hsid]
        exact iff_of_true hnone ⟨[], m, rest, rfl, (not_not.mp hsid).symm, hnone⟩

theorem serviceFound_iff :
    e.serviceFound services = true ↔ Listed services e ∨ FoundAnyway services e := by
  constructor
  · intro h
    unfold SIevent.serviceFound at h
    cases services with
    | none => cases h
    | some root =>
      dsimp only at h
      cases htp : findTransponder root.children e.originalNetworkId e.transportStreamId with
      | none =>
        rw [htp] at h
        cases h
      | some tp =>
        rw [htp] at h
        obtain ⟨before, n, after, heq, hn, hfound⟩ := channelLoop_found.mp (of_decide_eq_true h)
        by_cases hchannel : n.type = chars "channel"
        · have hmem : n ∈ tp.children := by
            rw [heq]
            exact List.mem_append_right before List.mem_cons_self
          have hoccurs : n ∈ occurrences tp.children "channel" :=
            List.mem_filter.mpr ⟨hmem, decide_eq_true hchannel⟩
          exact .inl ⟨root, tp, n, rfl, htp, hoccurs, hn⟩
        · rw [occurrences, List.filter_cons_of_neg (by simpa using hchannel)] at hfound
          exact .inr ⟨root, tp, before, n, after, rfl, htp, heq, hchannel, hn, hfound⟩
  · rintro (⟨root, tp, c, rfl, htp, hc, hn⟩ |
      ⟨root, tp, before, n, after, rfl, htp, heq, -, hn, hfound⟩)
    · obtain ⟨hmem, hchannel⟩ := List.mem_filter.mp hc
      obtain ⟨before, after, heq⟩ := List.append_of_mem hmem
      have hfound : occurrences (c :: after) "channel" ≠ [] := by
        exact List.ne_nil_of_mem (List.mem_filter.mpr ⟨List.mem_cons_self, hchannel⟩)
      simp only [SIevent.serviceFound, htp, decide_eq_true_eq]
      exact channelLoop_found.mpr ⟨before, c, after, heq, hn, hfound⟩
    · have hlonger : occurrences (n :: after) "channel" ≠ [] := by
        intro hnil
        rw [occurrences, List.filter_eq_nil_iff] at hnil
        exact hfound (List.filter_eq_nil_iff.mpr fun x hx => hnil x (List.mem_cons_of_mem n hx))
      simp only [SIevent.serviceFound, htp, decide_eq_true_eq]
      exact channelLoop_found.mpr ⟨before, n, after, heq, hn, hlonger⟩

/-! ## The verdicts -/

theorem same_ids (h : e.channelId = e'.channelId) : e.serviceId = e'.serviceId ∧
    e.originalNetworkId = e'.originalNetworkId ∧ e.transportStreamId = e'.transportStreamId :=
  Zapit.createChannelId_inj.mp h

theorem Listed.congr (h : e.channelId = e'.channelId) (hl : Listed services e) :
    Listed services e' := by
  obtain ⟨hs, ho, ht⟩ := same_ids h
  unfold Listed
  rw [← hs, ← ho, ← ht]
  exact hl

theorem FoundAnyway.congr (h : e.channelId = e'.channelId) (hl : FoundAnyway services e) :
    FoundAnyway services e' := by
  obtain ⟨hs, ho, ht⟩ := same_ids h
  unfold FoundAnyway
  rw [← hs, ← ho, ← ht]
  exact hl

/-- What an event is judged by that is the first of its service. -/
def SIevent.judged (services : Option XMLTreeNode) (e : SIevent) : Bool :=
  e.haslinkage || e.serviceFound services

def SIevent.asLast (services : Option XMLTreeNode) (e : SIevent) : LastService :=
  ⟨e.serviceId, e.originalNetworkId, e.transportStreamId, e.judged services⟩

theorem judged_eq_false : e.judged services = false ↔
    e.haslinkage = false ∧ ¬ Listed services e ∧ ¬ FoundAnyway services e := by
  rw [SIevent.judged, Bool.or_eq_false_iff, ← Bool.not_eq_true (e.serviceFound services),
    serviceFound_iff, not_or]

namespace LastService

def channelId (last : LastService) : Nat :=
  createChannelId last.serviceId last.originalNetworkId last.transportStreamId

theorem isSame_iff : last.isSame e ↔ last.channelId = e.channelId := by
  unfold isSame channelId SIevent.channelId
  rw [Zapit.createChannelId_inj]
  constructor
  · rintro ⟨ho, ht, hs⟩
    exact ⟨hs, ho, ht⟩
  · rintro ⟨hs, ho, ht⟩
    exact ⟨ho, ht, hs⟩

theorem judge_same (h : last.isSame e) : last.judge services e = (last.lastidfound, last) :=
  if_pos h

theorem judge_other (h : ¬ last.isSame e) :
    last.judge services e = (e.judged services, e.asLast services) := if_neg h

/-- What the loop ends up with for a service, from an event of it on. -/
def verdict (services : Option XMLTreeNode) (heap : Nat → SIevent) (l : List (Nat × Nat))
    (last : LastService) (channelId : Nat) : Bool :=
  if last.channelId = channelId then last.lastidfound
  else (l.find? fun p => (heap p.2).channelId = channelId).any fun p => (heap p.2).judged services

theorem verdict_skip {p : Nat × Nat} {channelId : Nat} (h : (heap p.2).channelId ≠ channelId) :
    verdict services heap (p :: l) last channelId = verdict services heap l last channelId := by
  unfold verdict
  rw [List.find?_cons_of_neg (by simpa using h)]

theorem verdict_new {last' : LastService} {channelId : Nat} (h : last.channelId ≠ channelId)
    (h' : last'.channelId ≠ channelId) :
    verdict services heap l last channelId = verdict services heap l last' channelId := by
  unfold verdict
  rw [if_neg h, if_neg h']

theorem verdict_first {p : Nat × Nat} {channelId : Nat} (hlast : last.channelId ≠ channelId)
    (h : (heap p.2).channelId = channelId) :
    verdict services heap (p :: l) last channelId = (heap p.2).judged services := by
  unfold verdict
  rw [if_neg hlast, List.find?_cons_of_pos (by simpa using h)]
  rfl

end LastService

namespace Store

theorem mem_of_mem_wasteKeys {k : Nat} (h : k ∈ wasteKeys services heap l last) :
    ∃ o, (k, o) ∈ l := by
  induction l generalizing last with
  | nil => cases h
  | cons p rest ih =>
    obtain ⟨k', o'⟩ := p
    unfold wasteKeys at h
    dsimp only at h
    split at h
    · obtain ⟨o, ho⟩ := ih h
      exact ⟨o, List.mem_cons_of_mem _ ho⟩
    · rcases List.mem_cons.mp h with rfl | h
      · exact ⟨o', List.mem_cons_self⟩
      · obtain ⟨o, ho⟩ := ih h
        exact ⟨o, List.mem_cons_of_mem _ ho⟩

theorem channelId_le_of_key_lt (h : e.uniqueKey < e'.uniqueKey) : e.channelId ≤ e'.channelId := by
  have he := e'.eventID.toNat_lt
  rw [SIevent.uniqueKey_eq, SIevent.uniqueKey_eq] at h
  omega

/-- The events of a service are next to each other in the map. -/
theorem mem_wasteKeys (hsorted : l.Pairwise fun p q => p.1 < q.1)
    (hkey : ∀ p ∈ l, (heap p.2).uniqueKey = p.1)
    (hlast : ∀ p ∈ l, last.channelId ≤ (heap p.2).channelId) {k o : Nat} (h : (k, o) ∈ l) :
    k ∈ wasteKeys services heap l last ↔
      last.verdict services heap l (heap o).channelId = false := by
  induction l generalizing last with
  | nil => cases h
  | cons p rest ih =>
    obtain ⟨k₀, o₀⟩ := p
    obtain ⟨hfirst, hrest⟩ := List.pairwise_cons.mp hsorted
    have hkey₀ : (heap o₀).uniqueKey = k₀ := hkey (k₀, o₀) List.mem_cons_self
    have hkey' : ∀ p ∈ rest, (heap p.2).uniqueKey = p.1 :=
      fun p hp => hkey p (List.mem_cons_of_mem _ hp)
    have hahead : ∀ p ∈ rest, (heap o₀).channelId ≤ (heap p.2).channelId := by
      intro p hp
      refine channelId_le_of_key_lt ?_
      rw [hkey₀, hkey' p hp]
      exact hfirst p hp
    have hnew : ∀ last', k₀ ∉ wasteKeys services heap rest last' := by
      intro last' hmem
      obtain ⟨o', ho'⟩ := mem_of_mem_wasteKeys hmem
      exact Nat.lt_irrefl k₀ (hfirst (k₀, o') ho')
    have hother : ∀ {o'}, (k, o') ∈ rest → k ≠ k₀ := fun hmem => Nat.ne_of_gt (hfirst _ hmem)
    by_cases hsame : last.isSame (heap o₀)
    · have hchannel := LastService.isSame_iff.mp hsame
      rw [wasteKeys, LastService.judge_same hsame]
      rcases List.mem_cons.mp h with heq | hmem
      · cases heq
        rw [LastService.verdict, if_pos hchannel]
        cases last.lastidfound with
        | true => simp [hnew]
        | false => simp
      · have hskip : last.verdict services heap ((k₀, o₀) :: rest) (heap o).channelId =
            last.verdict services heap rest (heap o).channelId := by
          by_cases ho : last.channelId = (heap o).channelId
          · rw [LastService.verdict, LastService.verdict, if_pos ho, if_pos ho]
          · exact LastService.verdict_skip (p := (k₀, o₀)) fun h₀ => ho (hchannel.trans h₀)
        rw [hskip, ← ih hrest hkey' (fun p hp => hlast p (List.mem_cons_of_mem _ hp)) hmem]
        cases last.lastidfound with
        | true => simp
        | false => simp [hother hmem]
    · have hlt : last.channelId < (heap o₀).channelId :=
        Nat.lt_of_le_of_ne (hlast (k₀, o₀) List.mem_cons_self)
          fun h₀ => hsame (LastService.isSame_iff.mpr h₀)
      rw [wasteKeys, LastService.judge_other hsame]
      rcases List.mem_cons.mp h with heq | hmem
      · cases heq
        have hfirst : last.verdict services heap ((k, o) :: rest) (heap o).channelId =
            (heap o).judged services :=
          LastService.verdict_first (p := (k, o)) (Nat.ne_of_lt hlt) rfl
        rw [hfirst]
        cases hv : (heap o).judged services with
        | true => simp [hnew]
        | false => simp
      · have hle := hahead (k, o) hmem
        have hskip : last.verdict services heap ((k₀, o₀) :: rest) (heap o).channelId =
            ((heap o₀).asLast services).verdict services heap rest (heap o).channelId := by
          by_cases ho : (heap o₀).channelId = (heap o).channelId
          · have hfirst : last.verdict services heap ((k₀, o₀) :: rest) (heap o).channelId =
                (heap o₀).judged services :=
              LastService.verdict_first (p := (k₀, o₀)) (Nat.ne_of_lt (ho ▸ hlt)) ho
            rw [hfirst, LastService.verdict]
            exact (if_pos ho).symm
          · rw [LastService.verdict_skip (p := (k₀, o₀)) ho]
            exact LastService.verdict_new (Nat.ne_of_lt (Nat.lt_of_lt_of_le hlt hle)) ho
        have hahead' : ∀ p ∈ rest,
            ((heap o₀).asLast services).channelId ≤ (heap p.2).channelId := hahead
        rw [hskip, ← ih hrest hkey' hahead' hmem]
        cases (heap o₀).judged services with
        | true => simp
        | false => simp [hother hmem]

/-! ## What is deleted -/

variable {s : Store}

theorem deleteAll_find (keys : List Nat) (k : Nat) :
    (keys.foldl deleteEvent s).orderUniqueKey.find k =
      if k ∈ keys then none else s.orderUniqueKey.find k := by
  induction keys generalizing s with
  | nil => rfl
  | cons k' ks ih =>
    rw [List.foldl_cons, ih, deleteEvent_find]
    by_cases hk : k = k'
    · simp [hk]
    · simp [hk]

theorem removeWasteEvents_find (k : Nat) : (s.removeWasteEvents services).orderUniqueKey.find k =
    if k ∈ wasteKeys services s.heap s.orderUniqueKey.entries .initial then none
    else s.orderUniqueKey.find k := by
  rw [removeWasteEvents, deleteAll_find]
  simp only [List.mem_reverse]

/-- The first event of a service in the map. -/
def firstOf (s : Store) (channelId : Nat) : Option (Nat × Nat) :=
  s.orderUniqueKey.entries.find? fun p => (s.heap p.2).channelId = channelId

theorem firstOf_some {k o : Nat} (hk : s.orderUniqueKey.find k = some o) :
    ∃ k' o', s.firstOf (s.heap o).channelId = some (k', o') ∧ s.orderUniqueKey.find k' = some o' ∧
      (s.heap o').channelId = (s.heap o).channelId := by
  have hmem := (OrdMap.find_eq_some _ k o).mp hk
  cases hf : s.firstOf (s.heap o).channelId with
  | none =>
    exact absurd (decide_eq_true rfl) (List.find?_eq_none.mp hf (k, o) hmem)
  | some p =>
    have hp := List.find?_some hf
    exact ⟨p.1, p.2, rfl, (OrdMap.find_eq_some _ _ _).mpr (List.mem_of_find?_eq_some hf),
      of_decide_eq_true hp⟩

theorem deleted_iff (h : Keyed s) {k o k' o' : Nat} (hk : s.orderUniqueKey.find k = some o)
    (hfirst : s.firstOf (s.heap o).channelId = some (k', o')) :
    (s.removeWasteEvents services).orderUniqueKey.find k = none ↔
      (s.heap o).channelId ≠ 0 ∧ (s.heap o').judged services = false := by
  have hmem := (OrdMap.find_eq_some _ k o).mp hk
  have hkey : ∀ p ∈ s.orderUniqueKey.entries, (s.heap p.2).uniqueKey = p.1 :=
    fun p hp => (h p.1 p.2 ((OrdMap.find_eq_some _ _ _).mpr hp)).1
  have hzero : LastService.initial.channelId = 0 := by decide
  have hmap : (s.removeWasteEvents services).orderUniqueKey.find k = none ↔
      k ∈ wasteKeys services s.heap s.orderUniqueKey.entries .initial := by
    rw [removeWasteEvents_find, hk]
    simp
  rw [hmap, mem_wasteKeys s.orderUniqueKey.sorted hkey (fun p _ => hzero ▸ Nat.zero_le _) hmem,
    LastService.verdict, hzero]
  by_cases hc : (s.heap o).channelId = 0
  · rw [if_pos hc.symm]
    simp [hc, LastService.initial]
  · rw [if_neg (Ne.symm hc)]
    have hany : s.orderUniqueKey.entries.find?
        (fun p => (s.heap p.2).channelId = (s.heap o).channelId) = some (k', o') := hfirst
    rw [hany]
    simp [hc]

/-! ## When each event is judged by itself -/

/-- A service that is found, or that has the ids that the loop starts with, is not deleted. -/
theorem not_deleted (h : Keyed s) {k o : Nat} (hk : s.orderUniqueKey.find k = some o)
    (hfound : Listed services (s.heap o) ∨ FoundAnyway services (s.heap o) ∨
      (s.heap o).channelId = 0) :
    (s.removeWasteEvents services).orderUniqueKey.find k ≠ none := by
  obtain ⟨k', o', hfirst, -, hsame⟩ := firstOf_some hk
  intro hdel
  obtain ⟨hc, hj⟩ := (deleted_iff h hk hfirst).mp hdel
  obtain ⟨-, hlisted, hanyway⟩ := judged_eq_false.mp hj
  rcases hfound with hl | hf | h0
  · exact hlisted (hl.congr hsame.symm)
  · exact hanyway (hf.congr hsame.symm)
  · exact hc h0

theorem fair_of_judgesEach (h : Keyed s) (hj : s.JudgesEach services) : s.Fair services := by
  constructor
  · intro k o k' o' hk hk' hsame hunlisted
    have hunlisted' : ¬ Listed services (s.heap o') := fun hl => hunlisted (hl.congr hsame.symm)
    obtain ⟨kf, of, hfirst, -, -⟩ := firstOf_some hk
    have hdel : (s.removeWasteEvents services).orderUniqueKey.find k = none ↔
        (s.heap o).channelId ≠ 0 ∧ (s.heap of).judged services = false := deleted_iff h hk hfirst
    have hdel' : (s.removeWasteEvents services).orderUniqueKey.find k' = none ↔
        (s.heap o').channelId ≠ 0 ∧ (s.heap of).judged services = false :=
      deleted_iff h hk' (hsame ▸ hfirst)
    have hwaste : Waste services (s.heap o) ↔ Waste services (s.heap o') := by
      rw [← hj k o hk, ← hj k' o' hk', hdel, hdel', hsame]
    have hlink : (s.heap o).haslinkage = false ↔ (s.heap o').haslinkage = false := by
      simpa [Waste, hunlisted, hunlisted'] using hwaste
    cases hl : (s.heap o).haslinkage with
    | false => exact (hlink.mp hl).symm
    | true =>
      cases hl' : (s.heap o').haslinkage with
      | true => rfl
      | false => exact absurd (hlink.mpr hl') (by simp [hl])
  · intro k o hk hunlisted hfound
    have hkept := not_deleted h hk (.inr hfound)
    have hwaste : ¬ Waste services (s.heap o) := fun hw => hkept ((hj k o hk).mpr hw)
    cases hl : (s.heap o).haslinkage with
    | true => rfl
    | false => exact absurd ⟨hl, hunlisted⟩ hwaste

theorem judgesEach_of_fair (h : Keyed s) (hf : s.Fair services) : s.JudgesEach services := by
  intro k o hk
  by_cases hlisted : Listed services (s.heap o)
  · exact iff_of_false (not_deleted h hk (.inl hlisted)) fun hw => hw.2 hlisted
  · by_cases hfound : FoundAnyway services (s.heap o) ∨ (s.heap o).channelId = 0
    · refine iff_of_false (not_deleted h hk (.inr hfound)) fun hw => ?_
      rw [Waste, hf.linked k o hk hlisted hfound] at hw
      cases hw.1
    · obtain ⟨hanyway, hc⟩ := not_or.mp hfound
      obtain ⟨k', o', hfirst, hk', hsame⟩ := firstOf_some hk
      have halike := hf.alike k o k' o' hk hk' hsame.symm hlisted
      rw [deleted_iff h hk hfirst, judged_eq_false, Waste, ← halike]
      constructor
      · rintro ⟨-, hl, -⟩
        exact ⟨hl, hlisted⟩
      · rintro ⟨hl, -⟩
        exact ⟨hc, hl, fun hl' => hlisted (hl'.congr hsame), fun hf' => hanyway (hf'.congr hsame)⟩

/-- Every event is judged by its own service exactly in the fair stores. -/
theorem judgesEach_iff_fair {heap : Nat → SIevent} {ok : Store → Act → Prop}
    (h : Runs step ok (initial heap) s) : s.JudgesEach services ↔ s.Fair services :=
  ⟨fair_of_judgesEach (keyed_of_runs h), judgesEach_of_fair (keyed_of_runs h)⟩

end Store

end

/-! ## Two events of a service that is not listed -/

namespace Store

/-- Service 2 of the transponder is listed. -/
def sampleServices : XMLTreeNode :=
  .node (chars "zapit") [] [.node (chars "sat") [] [.node (chars "transponder")
    [(chars "id", chars "0004"), (chars "onid", chars "0085")]
    [.node (chars "channel") [(chars "service_id", chars "0002")] []]]]

def linkedEvent : SIevent := { sampleEvent 1 1 1000 with linkageDescs := [⟨0xB0, [], 4, 133, 2⟩] }

/-- Event 1 of service 1 has a linkage and event 2 has none. -/
def sampleShared : Store :=
  (sampleStart.addEvent sampleEnv linkedEvent 0 false).addEvent sampleEnv (sampleEvent 1 2 2000) 0
    false

theorem sampleShared_run : Runs step (fun _ _ => True) sampleStart sampleShared :=
  (Runs.refl.tail (.addEvent sampleEnv linkedEvent 0 false) trivial rfl).tail
    (.addEvent sampleEnv (sampleEvent 1 2 2000) 0 false) trivial rfl

theorem judgesEach_iff_fair_sample :
    sampleShared.JudgesEach (some sampleServices) ↔ sampleShared.Fair (some sampleServices) :=
  judgesEach_iff_fair sampleShared_run

/-- Event 2 is kept because event 1 is. -/
theorem linkage_of_another_event : ¬ ∀ (services : Option XMLTreeNode) (heap : Nat → SIevent)
    (s : Store), Runs step (fun _ _ => True) (initial heap) s → s.JudgesEach services := by
  intro h
  have hj := h (some sampleServices) _ _ sampleShared_run
  have hkey : sampleShared.orderUniqueKey.find (sampleEvent 1 2 2000).uniqueKey = some 1 := by
    decide
  have hkept : (sampleShared.removeWasteEvents (some sampleServices)).orderUniqueKey.find
      (sampleEvent 1 2 2000).uniqueKey = some 1 := by decide
  have hunlisted : ¬ Listed (some sampleServices) (sampleShared.heap 1) := by
    rintro ⟨root, tp, c, hroot, htp, hc, hn⟩
    cases hroot
    have hfind : findTransponder sampleServices.children (sampleShared.heap 1).originalNetworkId
        (sampleShared.heap 1).transportStreamId = some (.node (chars "transponder")
          [(chars "id", chars "0004"), (chars "onid", chars "0085")]
          [.node (chars "channel") [(chars "service_id", chars "0002")] []]) := rfl
    rw [hfind] at htp
    cases htp
    obtain rfl := List.mem_singleton.mp hc
    exact absurd hn (by decide)
  have hdeleted := (hj _ 1 hkey).mpr ⟨by decide, hunlisted⟩
  rw [hkept] at hdeleted
  cases hdeleted

end Store

end Tuxbox.Sectionsd
