import Tuxbox.Lib.Bytes
import Tuxbox.Lib.Run

/-!
# CA-PMT objects for the clients of enigma

`eDVBCAHandler` keeps one `CAService` for each running service. A service's CA-PMT
object is sent to the service's own socket, and written to the clients with a
list management that is patched into the one stored object.
-/

namespace Tuxbox.Enigma

def listMore : Byte := 0x00

def listFirst : Byte := 0x01

def listLast : Byte := 0x02

def listOnly : Byte := 0x03

def listUpdate : Byte := 0x05

/-- A program map as far as it is looked at here: what `buildCAPMT` puts behind the
list management is `contents`. -/
structure Pmt where
  version : Nat
  contents : Str
  deriving DecidableEq

/-- The stored object: byte 6, what `buildCAPMT` made byte 6, and the rest. -/
structure Capmt where
  listManagement : Byte
  built : Byte
  contents : Str
  deriving DecidableEq

/-- A service, by the number of its reference. -/
structure CAService where
  me : Nat
  lastPMTVersion : Int
  capmt : Option Capmt
  connected : Bool
  deriving DecidableEq

/-- `ePMTClient`, and whether its socket is in the state `Connection`. -/
structure PmtClient where
  socket : Nat
  connected : Bool
  deriving DecidableEq

/-- What is written to a socket. -/
structure Message where
  service : Nat
  listManagement : Byte
  contents : Str
  deriving DecidableEq

/-- The writes of an event: a list for one client, one update for one client, and
one object for the service's own socket, with what `buildCAPMT` had set. -/
inductive Output where
  | distributed (client : Nat) (services : List CAService) (messages : List Message)
  | updated (client : Nat) (message : Message)
  | sent (message : Message) (built : Byte)
  deriving DecidableEq

namespace CAService

def create (service : Nat) : CAService := ⟨service, -1, none, false⟩

def buildCAPMT (s : CAService) (pmt : Pmt) : CAService :=
  let listManagement := if s.lastPMTVersion = -1 then listOnly else listUpdate
  { s with
    capmt := some ⟨listManagement, listManagement, pmt.contents⟩
    lastPMTVersion := pmt.version }

/-- `writeCAPMTObject`: `none` stands for a list management of -1. -/
def writeCAPMTObject (s : CAService) (listManagement : Option Byte) :
    CAService × Option Message :=
  match s.capmt with
  | none => (s, none)
  | some capmt =>
    let patched := { capmt with listManagement := listManagement.getD capmt.listManagement }
    ({ s with capmt := some patched }, some ⟨s.me, patched.listManagement, patched.contents⟩)

/-- `sendCAPMT`, with what a socket that is not connected becomes. -/
def sendCAPMT (s : CAService) (connects : Bool) : CAService × List Output :=
  let s := { s with connected := s.connected || connects }
  if s.connected then
    match s.capmt, (s.writeCAPMTObject none).2 with
    | some capmt, some message => (s, [.sent message capmt.built])
    | _, _ => (s, [])
  else (s, [])

end CAService

structure CAHandler where
  services : List CAService
  clients : List PmtClient
  deriving DecidableEq

/-- The loop of `distributeCAPMT` over the services, for one client. -/
def distributeTo (listManagement : Byte) : List CAService → List CAService × List Message
  | [] => ([], [])
  | s :: ss =>
    let listManagement := if ss = [] then listManagement ||| listLast else listManagement
    let (s, message) := s.writeCAPMTObject (some listManagement)
    let (ss, messages) := distributeTo listMore ss
    (s :: ss, message.toList ++ messages)

/-- The loop over the clients. -/
def distributeAll (services : List CAService) : List PmtClient → List CAService × List Output
  | [] => (services, [])
  | c :: cs =>
    if c.connected then
      let (written, messages) := distributeTo listFirst services
      let (services', outputs) := distributeAll written cs
      (services', .distributed c.socket services messages :: outputs)
    else distributeAll services cs

namespace CAHandler

def empty : CAHandler := ⟨[], []⟩

def distributeCAPMT (h : CAHandler) : CAHandler × List Output :=
  if h.services = [] then (h, [])
  else
    let (services, outputs) := distributeAll h.services h.clients
    ({ h with services := services }, outputs)

def newConnection (h : CAHandler) (socket : Nat) : CAHandler × List Output :=
  distributeCAPMT { h with clients := h.clients ++ [⟨socket, true⟩] }

def connectionLost (h : CAHandler) (socket : Nat) : CAHandler :=
  { h with clients := h.clients.eraseP (·.socket = socket) }

def enterService (h : CAHandler) (service : Nat) : CAHandler :=
  if h.services.any (·.me = service) then h
  else { h with services := h.services ++ [.create service] }

def leaveService (h : CAHandler) (service : Nat) : CAHandler × List Output :=
  distributeCAPMT { h with services := h.services.eraseP (·.me = service) }

/-- `serviceGone`: the timer that a service that left has started. -/
def serviceGone (h : CAHandler) : CAHandler :=
  if h.services = [] then { h with clients := [] } else h

/-- The update is written to every client that is connected. -/
def writeUpdate (clients : List PmtClient) (s : CAService) : CAService × List Output :=
  let connected := clients.filter (·.connected)
  let (written, message) := s.writeCAPMTObject (some listUpdate)
  if connected = [] then (s, [])
  else (written, connected.flatMap fun c => message.toList.map (.updated c.socket))

/-- The service, in its place. -/
def put (s : CAService) : List CAService → List CAService
  | [] => []
  | x :: xs => if x.me = s.me then s :: xs else x :: put s xs

def service (h : CAHandler) (service : Nat) : Option CAService :=
  h.services.find? (·.me = service)

def handlePMT (h : CAHandler) (service : Nat) (pmt : Pmt) (connects : Bool) :
    CAHandler × List Output :=
  match h.service service with
  | none => (h, [])
  | some s =>
    if s.lastPMTVersion = pmt.version then (h, [])
    else
      let (built, sent) := (s.buildCAPMT pmt).sendCAPMT connects
      if 0 ≤ s.lastPMTVersion then
        let (written, updates) := writeUpdate h.clients built
        ({ h with services := put written h.services }, sent ++ updates)
      else
        let (h, outputs) := distributeCAPMT { h with services := put built h.services }
        (h, sent ++ outputs)

/-- `retry.timeout`: a service that was not connected, or lost its connection, sends
its object. -/
def retry (h : CAHandler) (service : Nat) (connects : Bool) : CAHandler × List Output :=
  match h.service service with
  | none => (h, [])
  | some s =>
    let (s, sent) := s.sendCAPMT connects
    ({ h with services := put s h.services }, sent)

/-- `CAService::connectionLost` -/
def disconnected (h : CAHandler) (service : Nat) : CAHandler :=
  match h.service service with
  | none => h
  | some s => { h with services := put { s with connected := false } h.services }

end CAHandler

inductive CaEvent where
  | newConnection (socket : Nat)
  | connectionLost (socket : Nat)
  | enterService (service : Nat)
  | leaveService (service : Nat)
  | serviceGone
  | handlePMT (service : Nat) (pmt : Pmt) (connects : Bool)
  | retry (service : Nat) (connects : Bool)
  | disconnected (service : Nat)

/-- The handler, and what the last event wrote. -/
structure CaWorld where
  handler : CAHandler
  outputs : List Output

def CaWorld.start : CaWorld := ⟨.empty, []⟩

def CaWorld.step (w : CaWorld) : CaEvent → CaWorld
  | .newConnection socket => let (h, out) := w.handler.newConnection socket; ⟨h, out⟩
  | .connectionLost socket => ⟨w.handler.connectionLost socket, []⟩
  | .enterService service => ⟨w.handler.enterService service, []⟩
  | .leaveService service => let (h, out) := w.handler.leaveService service; ⟨h, out⟩
  | .serviceGone => ⟨w.handler.serviceGone, []⟩
  | .handlePMT service pmt connects =>
    let (h, out) := w.handler.handlePMT service pmt connects; ⟨h, out⟩
  | .retry service connects => let (h, out) := w.handler.retry service connects; ⟨h, out⟩
  | .disconnected service => ⟨w.handler.disconnected service, []⟩

/-! ## The list management of a list -/

/-- The list management of `n` objects. -/
def listManagements : Nat → List Byte
  | 0 => []
  | 1 => [listOnly]
  | n + 2 => listFirst :: (List.replicate n listMore ++ [listLast])

def CAService.known (s : CAService) : Bool := s.capmt.isSome

/-- What a distributed list, and an object for a service's own socket, should be. -/
def Output.Managed : Output → Prop
  | .distributed _ services messages =>
    messages.map (fun m => (m.service, m.contents)) =
      services.filterMap (fun s => s.capmt.map fun c => (s.me, c.contents)) ∧
    messages.map Message.listManagement = listManagements (services.countP CAService.known)
  | .updated _ _ => True
  | .sent message built =>
    message.listManagement = built ∧ (built = listOnly ∨ built = listUpdate)

/-- Of services, in order, it is given whose object is known: of none, or of the first
and the last one. -/
def Listable (known : List Bool) : Prop :=
  (∀ k ∈ known, k = false) ∨ (known.head? = some true ∧ known.getLast? = some true)

section
variable {s : CAService} {ss : List CAService} {b : Byte}

theorem distributeTo_objects (b : Byte) (ss : List CAService) :
    (distributeTo b ss).2.map (fun m => (m.service, m.contents)) =
      ss.filterMap fun s => s.capmt.map fun c => (s.me, c.contents) := by
  induction ss generalizing b with
  | nil => rfl
  | cons s ss ih =>
    cases hcapmt : s.capmt with
    | none | some c => simp [distributeTo, CAService.writeCAPMTObject, hcapmt, ih]

theorem distributeTo_cons (b : Byte) (s : CAService) (ss : List CAService) :
    (distributeTo b (s :: ss)).2.map Message.listManagement =
      (if s.known then [if ss = [] then b ||| listLast else b] else []) ++
        (distributeTo listMore ss).2.map Message.listManagement := by
  cases hcapmt : s.capmt with
  | none | some c => simp [distributeTo, CAService.writeCAPMTObject, CAService.known, hcapmt]

theorem countP_pos_of_last (h : ss.getLast?.any CAService.known = true) :
    0 < ss.countP CAService.known := by
  cases hlast : ss.getLast? with
  | none =>
    rw [hlast] at h
    cases h
  | some s =>
    rw [hlast] at h
    exact List.countP_pos_iff.mpr ⟨s, List.mem_of_getLast? hlast, h⟩

/-- The objects behind the first one. -/
theorem distributeTo_more (ss : List CAService) :
    (distributeTo listMore ss).2.map Message.listManagement =
      if ss.getLast?.any CAService.known then
        List.replicate (ss.countP CAService.known - 1) listMore ++ [listLast]
      else List.replicate (ss.countP CAService.known) listMore := by
  induction ss with
  | nil => rfl
  | cons s ss ih =>
    rw [distributeTo_cons, ih]
    cases ss with
    | nil => cases hs : s.known <;> simp [hs, listMore]
    | cons t ts =>
      have hlast : (s :: t :: ts).getLast? = (t :: ts).getLast? := List.getLast?_cons_cons
      have hne : ¬ (t :: ts : List CAService) = [] := List.cons_ne_nil t ts
      rw [hlast, if_neg hne]
      generalize t :: ts = rest
      rw [List.countP_cons]
      cases hs : s.known with
      | false => simp
      | true =>
        by_cases hknown : rest.getLast?.any CAService.known = true
        · have hpos := countP_pos_of_last hknown
          obtain ⟨n, hn⟩ := Nat.exists_eq_add_one_of_ne_zero (Nat.ne_of_gt hpos)
          rw [if_pos hknown, if_pos hknown, hn]
          rfl
        · rw [if_neg hknown, if_neg hknown]
          rfl

theorem countP_eq_zero_iff : ss.countP CAService.known = 0 ↔ ∀ s ∈ ss, s.known = false := by
  rw [List.countP_eq_zero]
  simp

theorem listable_map : Listable (ss.map CAService.known) ↔ (∀ s ∈ ss, s.known = false) ∨
    (ss.head?.any CAService.known = true ∧ ss.getLast?.any CAService.known = true) := by
  have hany : ∀ o : Option CAService, o.map CAService.known = some true ↔
      o.any CAService.known = true := by
    intro o
    cases o with
    | none => simp
    | some s => simp
  rw [Listable, List.head?_map, List.getLast?_map, hany, hany]
  simp

/-- A list is as it should be if and only if its first and last services are known,
or none is. -/
theorem distribute_list_iff (ss : List CAService) :
    (distributeTo listFirst ss).2.map Message.listManagement =
        listManagements (ss.countP CAService.known) ↔ Listable (ss.map CAService.known) := by
  rw [listable_map]
  cases ss with
  | nil => exact iff_of_true rfl (.inl fun s hs => by cases hs)
  | cons s ss =>
    rw [distributeTo_cons, distributeTo_more, List.countP_cons]
    cases ss with
    | nil =>
      cases hs : s.known with
      | false => exact iff_of_true rfl (.inl (by simp [hs]))
      | true => exact iff_of_true rfl (.inr (by simp [hs]))
    | cons t ts =>
      have hlast : (s :: t :: ts).getLast? = (t :: ts).getLast? := List.getLast?_cons_cons
      have hne : ¬ (t :: ts : List CAService) = [] := List.cons_ne_nil t ts
      have hfirst : (s :: t :: ts).head?.any CAService.known = s.known := rfl
      rw [if_neg hne, hlast, hfirst]
      generalize ht : t :: ts = rest
      by_cases hknown : rest.getLast?.any CAService.known = true
      · have hpos := countP_pos_of_last hknown
        obtain ⟨n, hn⟩ := Nat.exists_eq_add_one_of_ne_zero (Nat.ne_of_gt hpos)
        rw [if_pos hknown, hn]
        cases hs : s.known with
        | false =>
          apply iff_of_false
          · intro heq
            cases n with
            | zero | succ n => cases List.head_eq_of_cons_eq heq
          · rintro (hnone | ⟨hno, -⟩)
            · have hzero := countP_eq_zero_iff.mpr fun x hx => hnone x (List.mem_cons_of_mem s hx)
              omega
            · cases hno
        | true => exact iff_of_true rfl (.inr ⟨rfl, hknown⟩)
      · rw [if_neg hknown]
        cases hs : s.known with
        | false =>
          cases hcount : rest.countP CAService.known with
          | zero =>
            have hnone := countP_eq_zero_iff.mp hcount
            refine iff_of_true rfl (.inl fun x hx => ?_)
            rcases List.mem_cons.mp hx with rfl | hx
            · exact hs
            · exact hnone x hx
          | succ n =>
            apply iff_of_false
            · intro heq
              cases n with
              | zero | succ n => cases List.head_eq_of_cons_eq heq
            · rintro (hnone | ⟨hno, -⟩)
              · have hzero := countP_eq_zero_iff.mpr fun x hx =>
                  hnone x (List.mem_cons_of_mem s hx)
                omega
              · cases hno
        | true =>
          apply iff_of_false
          · intro heq
            have hend := congrArg List.getLast? heq
            cases hcount : rest.countP CAService.known with
            | zero =>
              rw [hcount] at heq
              cases List.head_eq_of_cons_eq heq
            | succ n =>
              rw [hcount] at hend
              have hmore :
                (listFirst :: List.replicate (n + 1) listMore).getLast? = some listMore := by
                rw [List.replicate_succ', ← List.cons_append, List.getLast?_concat]
              have hlast : (listFirst :: (List.replicate n listMore ++ [listLast])).getLast? =
                  some listLast := by rw [← List.cons_append, List.getLast?_concat]
              cases Option.some_inj.mp (hmore.symm.trans (hend.trans hlast))
          · rintro (hnone | ⟨-, hlast⟩)
            · have := hnone s List.mem_cons_self
              rw [hs] at this
              cases this
            · exact hknown hlast

/-! ## One event -/

/-- A service without the list management that is patched in place. -/
def CAService.plain (s : CAService) : CAService :=
  { s with capmt := s.capmt.map fun c => { c with listManagement := 0 } }

theorem plain_known (s : CAService) : s.plain.known = s.known := by
  simp [CAService.plain, CAService.known]

theorem known_congr {ss' : List CAService}
    (h : ss'.map CAService.plain = ss.map CAService.plain) :
    ss'.map CAService.known = ss.map CAService.known := by
  have hk := congrArg (List.map CAService.known) h
  simpa only [List.map_map, Function.comp_def, plain_known] using hk

theorem writeCAPMTObject_plain (s : CAService) (b : Option Byte) :
    (s.writeCAPMTObject b).1.plain = s.plain := by
  unfold CAService.writeCAPMTObject
  cases hcapmt : s.capmt with
  | none => rfl
  | some c => simp [CAService.plain, hcapmt]

theorem distributeTo_plain (b : Byte) (ss : List CAService) :
    (distributeTo b ss).1.map CAService.plain = ss.map CAService.plain := by
  induction ss generalizing b with
  | nil => rfl
  | cons s ss ih => simp only [distributeTo, List.map_cons, writeCAPMTObject_plain, ih]

theorem distributeAll_plain (cs : List PmtClient) (ss : List CAService) :
    (distributeAll ss cs).1.map CAService.plain = ss.map CAService.plain := by
  induction cs generalizing ss with
  | nil => rfl
  | cons c cs ih =>
    unfold distributeAll
    split
    · exact (ih _).trans (distributeTo_plain listFirst ss)
    · exact ih ss

theorem distributeAll_managed (cs : List PmtClient) (ss : List CAService) :
    (∀ out ∈ (distributeAll ss cs).2, out.Managed) ↔
      ((∃ c ∈ cs, c.connected = true) → Listable (ss.map CAService.known)) := by
  induction cs generalizing ss with
  | nil => simp [distributeAll]
  | cons c cs ih =>
    unfold distributeAll
    split
    case isTrue hc =>
      have hsame := known_congr (distributeTo_plain listFirst ss)
      have hfirst : Output.Managed (.distributed c.socket ss (distributeTo listFirst ss).2) ↔
          Listable (ss.map CAService.known) :=
        (and_iff_right (distributeTo_objects listFirst ss)).trans (distribute_list_iff ss)
      simp only [List.forall_mem_cons, hfirst, ih, hsame, List.exists_mem_cons_iff, hc, true_or,
        forall_const]
      exact and_iff_left_of_imp fun h _ => h
    case isFalse hc =>
      simp only [ih, List.exists_mem_cons_iff, hc, Bool.false_eq_true, false_or]

theorem distributeCAPMT_managed (h : CAHandler) :
    (∀ out ∈ h.distributeCAPMT.2, out.Managed) ↔
      ((∃ c ∈ h.clients, c.connected = true) → Listable (h.services.map CAService.known)) := by
  unfold CAHandler.distributeCAPMT
  split
  case isTrue hnone =>
    have hlist : Listable (h.services.map CAService.known) := by
      rw [hnone]
      exact .inl fun k hk => by cases hk
    exact iff_of_true (fun out hout => by cases hout) fun _ => hlist
  case isFalse => exact distributeAll_managed h.clients h.services

theorem distributeCAPMT_plain (h : CAHandler) :
    h.distributeCAPMT.1.services.map CAService.plain = h.services.map CAService.plain := by
  unfold CAHandler.distributeCAPMT
  split
  · rfl
  · exact distributeAll_plain h.clients h.services

def Built (b : Byte) : Prop := b = listOnly ∨ b = listUpdate

theorem sendCAPMT_managed (s : CAService) (connects : Bool) :
    (∀ out ∈ (s.sendCAPMT connects).2, out.Managed) ↔
      ((s.connected || connects) = true → ∀ c, s.capmt = some c →
        c.listManagement = c.built ∧ Built c.built) := by
  unfold CAService.sendCAPMT
  cases hcapmt : s.capmt with
  | none => simp
  | some c =>
    cases hconn : s.connected || connects with
    | false => simp
    | true => simp [CAService.writeCAPMTObject, Output.Managed, Built]

theorem sendCAPMT_plain (s : CAService) (connects : Bool) :
    (s.sendCAPMT connects).1 = { s with connected := s.connected || connects } := by
  unfold CAService.sendCAPMT
  dsimp only
  split
  · split <;> rfl
  · rfl

/-- No service is entered twice, and each object was built as ONLY or UPDATE. -/
structure Sound (ss : List CAService) : Prop where
  refs : (ss.map CAService.me).Nodup
  built : ∀ s ∈ ss, ∀ c, s.capmt = some c → Built c.built

theorem Sound.congr {ss' : List CAService} (h : Sound ss)
    (heq : ss'.map CAService.plain = ss.map CAService.plain) : Sound ss' := by
  constructor
  · have hme := congrArg (List.map CAService.me) heq
    simp only [List.map_map] at hme
    exact hme ▸ h.refs
  · intro s hs c hc
    have hmem : s.plain ∈ ss.map CAService.plain := heq ▸ List.mem_map_of_mem hs
    obtain ⟨t, ht, hplain⟩ := List.mem_map.mp hmem
    have hcapmt := congrArg CAService.capmt hplain
    simp only [CAService.plain, hc, Option.map_some, Option.map_eq_some_iff] at hcapmt
    obtain ⟨c', hc', heq'⟩ := hcapmt
    have hbuilt := congrArg Capmt.built heq'
    exact hbuilt ▸ h.built t ht c' hc'

theorem put_map {β : Type} (f : CAService → β) (hn : (ss.map CAService.me).Nodup) :
    (CAHandler.put s ss).map f = ss.map fun x => if x.me = s.me then f s else f x := by
  induction ss with
  | nil => rfl
  | cons x xs ih =>
    rw [List.map_cons, List.nodup_cons] at hn
    rw [CAHandler.put]
    by_cases hx : x.me = s.me
    · have hrest : ∀ y ∈ xs, f y = if y.me = s.me then f s else f y := fun y hy => by
        rw [if_neg fun hy' => hn.1 (List.mem_map.mpr ⟨y, hy, hy'.trans hx.symm⟩)]
      rw [if_pos hx, List.map_cons, List.map_cons, if_pos hx, List.map_congr_left hrest]
    · rw [if_neg hx, List.map_cons, List.map_cons, if_neg hx, ih hn.2]

theorem Sound.put (h : Sound ss) (hs : ∀ c, s.capmt = some c → Built c.built) :
    Sound (CAHandler.put s ss) := by
  constructor
  · have hme : (fun x : CAService => if x.me = s.me then s.me else x.me) = CAService.me := by
      funext x
      split
      · rename_i hx
        exact hx.symm
      · rfl
    rw [put_map CAService.me h.refs, hme]
    exact h.refs
  · intro x hx
    have hmem : x ∈ (CAHandler.put s ss).map id := by rwa [List.map_id]
    rw [put_map id h.refs] at hmem
    obtain ⟨y, hy, rfl⟩ := List.mem_map.mp hmem
    split
    · exact hs
    · exact h.built y hy

theorem mem_of_service {h : CAHandler} {n : Nat} (hs : h.service n = some s) :
    s ∈ h.services ∧ s.me = n :=
  ⟨List.mem_of_find?_eq_some hs, by simpa using List.find?_some hs⟩

theorem buildCAPMT_built (s : CAService) (pmt : Pmt) :
    ∀ c, (s.buildCAPMT pmt).capmt = some c → c.listManagement = c.built ∧ Built c.built := by
  intro c hc
  obtain rfl := Option.some_inj.mp hc
  apply And.intro rfl
  dsimp only
  split
  · exact .inl rfl
  · exact .inr rfl

theorem step_sound (w : CaWorld) (event : CaEvent) (h : Sound w.handler.services) :
    Sound (w.step event).handler.services := by
  cases event with
  | newConnection socket => exact h.congr (distributeCAPMT_plain _)
  | connectionLost socket => exact h
  | serviceGone =>
    change Sound w.handler.serviceGone.services
    unfold CAHandler.serviceGone
    split <;> exact h
  | enterService service =>
    change Sound (w.handler.enterService service).services
    unfold CAHandler.enterService
    split
    case isTrue => exact h
    case isFalse hnew =>
      have hfresh : ∀ s ∈ w.handler.services, s.me ≠ service := by simpa using hnew
      constructor
      · rw [List.map_append, List.nodup_append]
        refine ⟨h.refs, by simp, ?_⟩
        rintro n hn m hm rfl
        obtain ⟨s, hs, hsn⟩ := List.mem_map.mp hn
        exact hfresh s hs (hsn.trans (List.mem_singleton.mp hm))
      · intro s hs c hc
        rcases List.mem_append.mp hs with hs | hs
        · exact h.built s hs c hc
        · rw [List.mem_singleton.mp hs] at hc
          cases hc
  | leaveService service =>
    have hrest : Sound (w.handler.services.eraseP (·.me = service)) :=
      ⟨h.refs.sublist (List.eraseP_sublist.map _),
        fun s hs => h.built s (List.eraseP_sublist.subset hs)⟩
    exact hrest.congr (distributeCAPMT_plain _)
  | handlePMT service pmt connects =>
    change Sound (w.handler.handlePMT service pmt connects).1.services
    unfold CAHandler.handlePMT
    cases hs : w.handler.service service with
    | none => exact h
    | some s =>
      have hbuilt : ∀ c, ((s.buildCAPMT pmt).sendCAPMT connects).1.capmt = some c →
          Built c.built := fun c hc => by
        rw [sendCAPMT_plain] at hc
        exact (buildCAPMT_built s pmt c hc).2
      dsimp only
      split
      · exact h
      · split
        · refine h.put fun c hc => ?_
          unfold CAHandler.writeUpdate at hc
          dsimp only at hc
          split at hc
          · exact hbuilt c hc
          · unfold CAService.writeCAPMTObject at hc
            cases hcapmt : ((s.buildCAPMT pmt).sendCAPMT connects).1.capmt with
            | none =>
              rw [hcapmt] at hc
              dsimp only at hc
              rw [hcapmt] at hc
              cases hc
            | some c' =>
              rw [hcapmt] at hc
              obtain rfl := Option.some_inj.mp hc
              exact hbuilt c' hcapmt
        · exact (h.put hbuilt).congr (distributeCAPMT_plain _)
  | retry service connects =>
    change Sound (w.handler.retry service connects).1.services
    unfold CAHandler.retry
    cases hs : w.handler.service service with
    | none => exact h
    | some s =>
      refine h.put fun c hc => ?_
      rw [sendCAPMT_plain] at hc
      exact h.built s (mem_of_service hs).1 c hc
  | disconnected service =>
    change Sound (w.handler.disconnected service).services
    unfold CAHandler.disconnected
    cases hs : w.handler.service service with
    | none => exact h
    | some s => exact h.put (h.built s (mem_of_service hs).1)

end

/-- What the event finds: services whose list can be told apart where a list is
distributed, and an object that no list has patched where one is sent again. -/
def CaEvent.Permitted (h : CAHandler) : CaEvent → Prop
  | .newConnection _ => Listable (h.services.map CAService.known)
  | .leaveService service => (∃ c ∈ h.clients, c.connected = true) →
      Listable ((h.services.eraseP (·.me = service)).map CAService.known)
  | .handlePMT service _ _ => ∀ s, h.service service = some s → s.lastPMTVersion < 0 →
      (∃ c ∈ h.clients, c.connected = true) →
      Listable (h.services.map fun s => s.known || decide (s.me = service))
  | .retry service connects => ∀ s, h.service service = some s →
      (s.connected || connects) = true →
      ∀ c, s.capmt = some c → c.listManagement = c.built
  | _ => True

def CaWorld.Managed (w : CaWorld) : Prop := ∀ out ∈ w.outputs, out.Managed

/-- When all messages of one event are as they should be. -/
theorem step_managed_iff (w : CaWorld) (event : CaEvent) (h : Sound w.handler.services) :
    (w.step event).Managed ↔ event.Permitted w.handler := by
  have hnothing : ∀ handler : CAHandler, CaWorld.Managed ⟨handler, []⟩ :=
    fun handler out hout => by cases hout
  cases event with
  | newConnection socket =>
    refine (distributeCAPMT_managed _).trans ⟨fun hlist => hlist ?_, fun hlist _ => hlist⟩
    exact ⟨⟨socket, true⟩, List.mem_append_right _ List.mem_cons_self, rfl⟩
  | connectionLost socket | serviceGone | enterService service | disconnected service =>
     exact iff_of_true (hnothing _) trivial
  | leaveService service => exact distributeCAPMT_managed _
  | handlePMT service pmt connects =>
    change (∀ out ∈ (w.handler.handlePMT service pmt connects).2, out.Managed) ↔
      ∀ s, w.handler.service service = some s → _
    unfold CAHandler.handlePMT
    cases hs : w.handler.service service with
    | none => exact iff_of_true (hnothing w.handler) fun s hs => by cases hs
    | some s =>
      simp only [Option.some_inj, forall_eq']
      have hsent : ∀ out ∈ ((s.buildCAPMT pmt).sendCAPMT connects).2, out.Managed :=
        (sendCAPMT_managed _ connects).mpr fun _ => buildCAPMT_built s pmt
      split
      case isTrue heq => exact iff_of_true (hnothing w.handler) fun hneg => by omega
      case isFalse =>
        split
        case isTrue hupdate =>
          refine iff_of_true (fun out hout => ?_) fun hneg => by omega
          rcases List.mem_append.mp hout with hout | hout
          · exact hsent out hout
          · unfold CAHandler.writeUpdate at hout
            dsimp only at hout
            split at hout
            · cases hout
            · obtain ⟨c, -, hout⟩ := List.mem_flatMap.mp hout
              obtain ⟨m, -, rfl⟩ := List.mem_map.mp hout
              trivial
        case isFalse hfirst =>
          have hneg : s.lastPMTVersion < 0 := by omega
          have hflags : (CAHandler.put ((s.buildCAPMT pmt).sendCAPMT connects).1
              w.handler.services).map CAService.known =
              w.handler.services.map fun x => x.known || decide (x.me = service) := by
            obtain ⟨-, hme⟩ := mem_of_service hs
            rw [put_map CAService.known h.refs, sendCAPMT_plain]
            apply List.map_congr_left
            intro x _
            simp only [CAService.buildCAPMT, CAService.known, Option.isSome_some, hme]
            by_cases hx : x.me = service <;> simp [hx]
          have hdist := distributeCAPMT_managed { w.handler with
            services := CAHandler.put ((s.buildCAPMT pmt).sendCAPMT connects).1 w.handler.services }
          rw [← hflags]
          constructor
          · intro hall _
            exact hdist.mp fun out hout => hall out (List.mem_append_right _ hout)
          · intro hlist out hout
            rcases List.mem_append.mp hout with hout | hout
            · exact hsent out hout
            · exact hdist.mpr (hlist hneg) out hout
  | retry service connects =>
    change (∀ out ∈ (w.handler.retry service connects).2, out.Managed) ↔
      ∀ s, w.handler.service service = some s → _
    unfold CAHandler.retry
    cases hs : w.handler.service service with
    | none => exact iff_of_true (hnothing w.handler) fun s hs => by cases hs
    | some s =>
      simp only [Option.some_inj, forall_eq']
      have hbuilt := h.built s (mem_of_service hs).1
      refine (sendCAPMT_managed s connects).trans ?_
      exact forall_congr' fun _ => forall₂_congr fun c hc => and_iff_left (hbuilt c hc)

/-- In all states of a run all messages are as they should be, if and only if each event
finds what it needs. -/
theorem managed_iff_permitted (events : List CaEvent) :
    Keeps (fun w event => some (CaWorld.step w event)) CaWorld.Managed .start events ↔
      Permits (fun w event => some (CaWorld.step w event))
        (fun w event => event.Permitted w.handler) .start events := by
  apply keeps_iff_permits_total (I := fun w => Sound w.handler.services) step_sound
  · exact fun w event hw _ => step_managed_iff w event hw
  · exact ⟨List.nodup_nil, fun s hs => by cases hs⟩
  · exact fun out hout => by cases hout

/-- A client connects while the second of two services has no program map yet. -/
def halfKnown : List CaEvent :=
  [.enterService 1, .handlePMT 1 ⟨0, chars "1"⟩ false, .enterService 2, .newConnection 7]

theorem halfKnown_not_managed :
    ¬ Keeps (fun w event => some (CaWorld.step w event)) CaWorld.Managed .start halfKnown := by
  intro h
  have hmanaged := h.run rfl
  have hlist := (hmanaged (.distributed 7
    [⟨1, 0, some ⟨listOnly, listOnly, chars "1"⟩, false⟩, .create 2] [⟨1, listFirst, chars "1"⟩])
    (by decide)).2
  revert hlist
  decide

end Tuxbox.Enigma
