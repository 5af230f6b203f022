import Tuxbox.Lib.Recent
import Mathlib.Data.Set.Function
import Mathlib.Data.List.Induction

/-!
# The zap history

`CLastChannel` keeps the channels that were left, `CChannelList` zaps by number, by id, with
the key that leads back and from the menu of the history.
-/

namespace Tuxbox.Neutrino

/-! ## CLastChannel -/

structure LastCh where
  channel : Int
  timestamp : Nat
  channel_id : Nat
  deriving DecidableEq

def maxSize : Nat := 11

/-- `(int)(tv.tv_sec - lastTimestamp)` -/
def delay (now timestamp : Nat) : Int := ((now : Int) - timestamp).bmod 0x100000000

/-- Whether the channel that is left has been on for long enough, or is stored by force. -/
def settled (zaphistory : Int) (force : Bool) (now timestamp : Nat) : Bool :=
  force || decide (zaphistory < delay now timestamp)

/-- The first of `es` with the id of the last channel is erased. -/
def removeEqual (id : Nat) (es : List LastCh) : List LastCh :=
  es.eraseP fun e => id == e.channel_id

/-- A new entry before all others. -/
def push (channel : Int) (channel_id now : Nat) (lastChannel_id : Nat) :
    List LastCh → List LastCh
  | [] => [⟨channel, channel_id, now⟩]
  | e :: es =>
    let lastChannels := if 1 < (e :: es).length then e :: removeEqual lastChannel_id es else e :: es
    -- the time and the id are in each other's place until they are stored right behind this
    let lastChannels := ⟨channel, channel_id, now⟩ :: lastChannels
    if maxSize < lastChannels.length then lastChannels.dropLast else lastChannels

/-- remember time (secs) -/
def remember (channel : Int) (channel_id now : Nat) : List LastCh → List LastCh
  | [] => []
  | _ :: es => ⟨channel, now, channel_id⟩ :: es

/-- A quick zap overwrites the front, any other one is put before it. -/
def store (zaphistory : Int) (lastChannels : List LastCh) (channel : Int) (channel_id : Nat)
    (force : Bool) (now : Nat) : List LastCh :=
  let last := lastChannels.head?.getD ⟨-1, 0, 0⟩
  if settled zaphistory force now last.timestamp ∧ last.channel ≠ channel then
    remember channel channel_id now (push channel channel_id now last.channel_id lastChannels)
  else remember channel channel_id now lastChannels

def clear_storedelay : List LastCh → List LastCh
  | [] => []
  | e :: es => { e with timestamp := 0 } :: es

def getlast (lastChannels : List LastCh) (n : Int) : Int :=
  if n < lastChannels.length ∧ -1 < n then
    match lastChannels[n.toNat]? with
    | some e => e.channel
    | none => -1
  else -1

/-- The calls that a history gets. -/
inductive Call
  | store (channel_id : Nat) (force : Bool) (now : Nat)
  | clear
  | clear_storedelay

/-- `number` gives the number of the channel with an id. -/
def call (zaphistory : Int) (number : Nat → Int) (lastChannels : List LastCh) : Call → List LastCh
  | .store id force now => store zaphistory lastChannels (number id) id force now
  | .clear => []
  | .clear_storedelay => clear_storedelay lastChannels

/-! ## What it abbreviates -/

/-- The current channel since when, and the ids of all channels left, the last one first. -/
structure Trail where
  current : Option (Nat × Nat)
  left : List Nat

def Trail.call (zaphistory : Int) (t : Trail) : Call → Trail
  | .store id force now =>
    match t.current with
    | none => if settled zaphistory force now 0 then ⟨some (id, now), t.left⟩ else t
    | some (id', timestamp) =>
      if settled zaphistory force now timestamp ∧ id' ≠ id then ⟨some (id, now), id' :: t.left⟩
      else ⟨some (id, now), t.left⟩
  | .clear => ⟨none, []⟩
  | .clear_storedelay => ⟨t.current.map fun c => (c.1, 0), t.left⟩

/-- The history of a trail: the current channel, and the last ten different ones left. -/
structure Abbreviates (number : Nat → Int) (ids : Set Nat) (lastChannels : List LastCh)
    (t : Trail) : Prop where
  numbers : ∀ e ∈ lastChannels, e.channel = number e.channel_id ∧ e.channel_id ∈ ids
  front : lastChannels.head?.map (fun e => (e.channel_id, e.timestamp)) = t.current
  left : lastChannels.tail.map LastCh.channel_id = Recent.recent 10 t.left
  none_left : t.current = none → t.left = []

theorem map_removeEqual (id : Nat) (es : List LastCh) :
    (removeEqual id es).map LastCh.channel_id = (es.map LastCh.channel_id).erase id := by
  induction es with
  | nil => rfl
  | cons e es ih =>
    unfold removeEqual at *
    by_cases h : id = e.channel_id
    · simp [h]
    · have h' : e.channel_id ≠ id := Ne.symm h
      simp [h, h', ih]

theorem mem_removeEqual {id : Nat} {es : List LastCh} {e : LastCh} (h : e ∈ removeEqual id es) :
    e ∈ es := List.mem_of_mem_eraseP h

/-- What a settled zap makes of a history: the channel that was left comes first. -/
theorem push_eq (channel : Int) (channel_id now : Nat) (e : LastCh) (es : List LastCh)
    (hlen : es.length ≤ 10) :
    remember channel channel_id now (push channel channel_id now e.channel_id (e :: es)) =
      ⟨channel, now, channel_id⟩ :: (e :: removeEqual e.channel_id es).take 10 := by
  have hone : (if 1 < (e :: es).length then e :: removeEqual e.channel_id es else e :: es) =
      e :: removeEqual e.channel_id es := by
    cases es with
    | nil => rfl
    | cons f fs => simp
  have hle : (removeEqual e.channel_id es).length ≤ es.length := List.length_eraseP_le
  unfold push
  simp only [hone]
  by_cases hfull : maxSize < (removeEqual e.channel_id es).length + 1 + 1
  · have hlen' : (removeEqual e.channel_id es).length = 10 := by
      unfold maxSize at hfull
      omega
    rw [if_pos (by simpa using hfull), List.dropLast_eq_take]
    simp [remember, hlen']
  · have hshort : (e :: removeEqual e.channel_id es).length ≤ 10 := by
      unfold maxSize at hfull
      simp only [List.length_cons]
      omega
    rw [if_neg (by simpa using hfull), List.take_of_length_le hshort]
    rfl

section
variable {number : Nat → Int} {ids : Set Nat} {l : List LastCh} {t : Trail} (zaphistory : Int)

/-- A channel of a history can be told from another by its number and by its id. -/
theorem channel_ne_iff (hinj : Set.InjOn number ids) {e : LastCh}
    (he : e.channel = number e.channel_id ∧ e.channel_id ∈ ids) {id : Nat} (hid : id ∈ ids) :
    e.channel ≠ number id ↔ e.channel_id ≠ id := by
  rw [he.1]
  constructor
  · rintro h rfl
    exact h rfl
  · exact fun h heq => h (hinj he.2 hid heq)

theorem store_abbreviates (hinj : Set.InjOn number ids) (hpos : ∀ id ∈ ids, 0 ≤ number id)
    (h : Abbreviates number ids l t) {id : Nat} (hid : id ∈ ids) (force : Bool) (now : Nat) :
    Abbreviates number ids (store zaphistory l (number id) id force now)
      (t.call zaphistory (.store id force now)) := by
  obtain ⟨current, left⟩ := t
  obtain ⟨hnum, hfront, hleft, hnone⟩ := h
  have hnew : number id = number id ∧ id ∈ ids := ⟨rfl, hid⟩
  cases l with
  | nil =>
    obtain rfl : none = current := hfront
    obtain rfl : left = [] := hnone rfl
    have hne : (-1 : Int) ≠ number id := by
      have := hpos id hid
      omega
    by_cases hset : settled zaphistory force now 0
    · simp only [store, Trail.call, List.head?_nil, Option.getD_none, hset, hne, ne_eq,
        not_false_eq_true, and_self, if_true, push, remember]
      constructor
      · intro e he
        rw [List.mem_singleton.mp he]
        exact hnew
      · rfl
      · rfl
      · simp
    · simp only [store, Trail.call, List.head?_nil, Option.getD_none, hset, false_and, if_false,
        remember, Bool.false_eq_true]
      exact ⟨hnum, rfl, hleft, hnone⟩
  | cons e es =>
    obtain rfl : some (e.channel_id, e.timestamp) = current := hfront
    have he := hnum e List.mem_cons_self
    have hes : ∀ f ∈ es, f.channel = number f.channel_id ∧ f.channel_id ∈ ids :=
      fun f hf => hnum f (List.mem_cons_of_mem e hf)
    have hlen : es.length ≤ 10 := by
      have hle := Recent.recent_length_le 10 left
      rw [← hleft, List.length_map] at hle
      exact hle
    unfold store Trail.call
    simp only [List.head?_cons, Option.getD_some, channel_ne_iff hinj he hid]
    by_cases hadd : settled zaphistory force now e.timestamp = true ∧ e.channel_id ≠ id
    · rw [if_pos hadd, if_pos hadd, push_eq _ _ _ _ _ hlen]
      constructor
      · intro f hf
        rcases List.mem_cons.mp hf with rfl | hf
        · exact hnew
        · rcases List.mem_cons.mp (List.mem_of_mem_take hf) with rfl | hf
          · exact he
          · exact hes f (mem_removeEqual hf)
      · rfl
      · rw [Recent.recent_use, ← hleft, List.tail_cons, List.tail_cons, List.map_take,
          List.map_cons, map_removeEqual, Recent.toFront]
      · simp
    · rw [if_neg hadd, if_neg hadd]
      constructor
      · intro f hf
        rcases List.mem_cons.mp hf with rfl | hf
        · exact hnew
        · exact hes f hf
      · rfl
      · exact hleft
      · simp

/-- The ids of the channels that a call is about. -/
def Call.Of (ids : Set Nat) : Call → Prop
  | .store id _ _ => id ∈ ids
  | .clear => True
  | .clear_storedelay => True

theorem call_abbreviates (hinj : Set.InjOn number ids) (hpos : ∀ id ∈ ids, 0 ≤ number id)
    (h : Abbreviates number ids l t) {c : Call} (hc : c.Of ids) :
    Abbreviates number ids (call zaphistory number l c) (t.call zaphistory c) := by
  cases c with
  | store id force now => exact store_abbreviates zaphistory hinj hpos h hc force now
  | clear => exact ⟨by simp [call], rfl, rfl, fun _ => rfl⟩
  | clear_storedelay =>
    obtain ⟨hnum, hfront, hleft, hnone⟩ := h
    cases l with
    | nil =>
      obtain ⟨current, left⟩ := t
      obtain rfl : none = current := hfront
      exact ⟨hnum, rfl, hleft, hnone⟩
    | cons e es =>
      obtain ⟨current, left⟩ := t
      obtain rfl : some (e.channel_id, e.timestamp) = current := hfront
      refine ⟨fun f hf => ?_, rfl, hleft, by simp [Trail.call]⟩
      rcases List.mem_cons.mp hf with rfl | hf
      · exact hnum e List.mem_cons_self
      · exact hnum f (List.mem_cons_of_mem e hf)

theorem run_abbreviates (hinj : Set.InjOn number ids) (hpos : ∀ id ∈ ids, 0 ≤ number id)
    (h : Abbreviates number ids l t) {calls : List Call} (hc : ∀ c ∈ calls, c.Of ids) :
    Abbreviates number ids (calls.foldl (call zaphistory number) l)
      (calls.foldl (Trail.call zaphistory) t) := by
  induction calls generalizing l t with
  | nil => exact h
  | cons c calls ih =>
    have hstep := call_abbreviates zaphistory hinj hpos h (hc c List.mem_cons_self)
    exact ih hstep fun c' hc' => hc c' (List.mem_cons_of_mem c hc')

/-! ## What is seen of it -/

theorem getlast_of_lt (l : List LastCh) {n : Nat} (h : n < l.length) :
    getlast l n = (l.get ⟨n, h⟩).channel := by
  unfold getlast
  rw [if_pos ⟨by omega, by omega⟩, Int.toNat_natCast, List.getElem?_eq_getElem h]
  rfl

theorem getlast_of_le {n : Nat} (h : l.length ≤ n) : getlast l n = -1 := by
  unfold getlast
  exact if_neg fun hn => by omega

theorem Abbreviates.getlast_zero (h : Abbreviates number ids l t) :
    getlast l 0 = (t.current.map fun c => number c.1).getD (-1) := by
  cases l with
  | nil =>
    rw [← h.front]
    exact getlast_of_le (n := 0) (Nat.le_refl _)
  | cons e es =>
    rw [← h.front]
    exact (getlast_of_lt (e :: es) (Nat.succ_pos _)).trans (h.numbers e List.mem_cons_self).1

theorem Abbreviates.getlast_succ (h : Abbreviates number ids l t) (n : Nat) :
    getlast l (n + 1 : Nat) = (((Recent.recent 10 t.left)[n]?).map number).getD (-1) := by
  rw [← h.left]
  cases l with
  | nil => exact getlast_of_le (Nat.zero_le _)
  | cons e es =>
    by_cases hn : n < es.length
    · rw [getlast_of_lt _ (Nat.succ_lt_succ hn), List.tail_cons, List.getElem?_map,
        List.getElem?_eq_getElem hn]
      exact (h.numbers _ (List.mem_cons_of_mem e (List.getElem_mem hn))).1
    · rw [getlast_of_le (Nat.succ_le_succ (Nat.not_lt.mp hn)), List.tail_cons,
        List.getElem?_eq_none (by simpa using hn)]
      rfl

theorem Abbreviates.length_le (h : Abbreviates number ids l t) : l.length ≤ maxSize := by
  have hle := Recent.recent_length_le 10 t.left
  rw [← h.left, List.length_map, List.length_tail] at hle
  unfold maxSize
  omega

end

/-- The history and the trail of a run. -/
def history (zaphistory : Int) (number : Nat → Int) (calls : List Call) : List LastCh :=
  calls.foldl (call zaphistory number) []

def trail (zaphistory : Int) (calls : List Call) : Trail :=
  calls.foldl (Trail.call zaphistory) ⟨none, []⟩

theorem history_abbreviates {number : Nat → Int} {ids : Set Nat} (hinj : Set.InjOn number ids)
    (hpos : ∀ id ∈ ids, 0 ≤ number id) (zaphistory : Int) {calls : List Call}
    (hc : ∀ c ∈ calls, c.Of ids) :
    Abbreviates number ids (history zaphistory number calls) (trail zaphistory calls) := by
  apply run_abbreviates zaphistory hinj hpos _ hc
  exact ⟨by simp, rfl, rfl, fun _ => rfl⟩

/-- After any calls at any times a history shows the current channel and behind it the last ten
different channels that were left. -/
theorem history_recent {number : Nat → Int} {ids : Set Nat} (hinj : Set.InjOn number ids)
    (hpos : ∀ id ∈ ids, 0 ≤ number id) (zaphistory : Int) {calls : List Call}
    (hc : ∀ c ∈ calls, c.Of ids) :
    let l := history zaphistory number calls
    let t := trail zaphistory calls
    l.length ≤ maxSize ∧ getlast l 0 = (t.current.map fun c => number c.1).getD (-1) ∧
      (l.tail.map LastCh.channel_id).Nodup ∧
      ∀ n : Nat, getlast l (n + 1 : Nat) =
        (((Recent.recent 10 t.left)[n]?).map number).getD (-1) := by
  have h := history_abbreviates hinj hpos zaphistory hc
  refine ⟨h.length_le, h.getlast_zero, ?_, h.getlast_succ⟩
  rw [h.left]
  exact Recent.recent_nodup 10 _

/-- Three channels, zapped through quickly and slowly. -/
def threeChannels : List Call :=
  [.store 7 false 100, .store 8 false 200, .store 7 false 201, .store 9 false 300]

theorem threeChannels_recent :
    let l := history 3 Nat.cast threeChannels
    l.length ≤ maxSize ∧ getlast l 0 = 9 ∧ getlast l 1 = 7 ∧ getlast l 2 = -1 := by
  have hinj : Set.InjOn (Nat.cast : Nat → Int) Set.univ := fun a _ b _ h => Int.ofNat_inj.mp h
  have hof : ∀ c ∈ threeChannels, c.Of Set.univ := fun c _ => by cases c <;> simp [Call.Of]
  have h := history_recent hinj (fun id _ => Int.natCast_nonneg id) 3 hof
  exact ⟨h.1, h.2.1.trans (by decide), (h.2.2.2 0).trans (by decide),
    (h.2.2.2 1).trans (by decide)⟩

/-! ## CChannelList -/

structure ChannelList where
  selected : Nat
  tuned : Nat
  lastChList : List LastCh
  deriving DecidableEq

/-- No channel is tuned. -/
def noneTuned : Nat := 0xfffffff

/-- What a remote control or a client asks for. -/
inductive Event
  | zapTo (pos : Int) (force : Bool)
  | zapTo_ChannelID (channel_id : Nat)
  | adjustToChannelID (channel_id : Nat)
  | lastchannel
  | zaphistory (newChannel : Int)
  | clearTuned

section
variable (chanlist : List Nat) (zaphistory : Int)

def zapTo (s : ChannelList) (pos : Int) (force : Bool) (now : Nat) : ChannelList :=
  if chanlist.isEmpty then s
  else
    let pos := if (chanlist.length : Int) ≤ pos ∨ pos < 0 then 0 else pos.toNat
    let lastChList := store zaphistory s.lastChList pos (chanlist.getD pos 0) force now
    ⟨pos, if pos ≠ s.tuned then pos else s.tuned, lastChList⟩

def zapTo_ChannelID (s : ChannelList) (channel_id now : Nat) : ChannelList :=
  let i := chanlist.idxOf channel_id
  if i < chanlist.length then zapTo chanlist zaphistory s i false now else s

def adjustToChannelID (s : ChannelList) (channel_id now : Nat) : ChannelList :=
  let i := chanlist.idxOf channel_id
  if i < chanlist.length then ⟨i, i, store zaphistory s.lastChList i channel_id false now⟩ else s

/-- quickzap "0" to last seen channel -/
def lastchannel (s : ChannelList) (now : Nat) : ChannelList :=
  if chanlist.isEmpty then s
  else
    let ch := getlast s.lastChList 1
    if ch ≠ -1 ∧ ch ≠ s.tuned then
      zapTo chanlist zaphistory { s with lastChList := clear_storedelay s.lastChList } ch false now
    else s

/-- The channels that the menu of the history shows. -/
def menu (lastChList : List LastCh) : List Int :=
  ((List.range (lastChList.length - 1)).map fun i => getlast lastChList (i + 1 : Nat)).filter
    fun channelnr => decide (channelnr < chanlist.length)

/-- zap history bouquet, similar to "0" quickzap; `newChannel` is chosen from the menu -/
def zapHistory (s : ChannelList) (newChannel : Int) (now : Nat) : ChannelList :=
  if chanlist.isEmpty then s
  else if 1 < s.lastChList.length ∧ (menu chanlist s.lastChList).isEmpty = false ∧
      -1 < newChannel then
    let lastChannel := getlast s.lastChList (newChannel + 1)
    if -1 < lastChannel then zapTo chanlist zaphistory s lastChannel true now else s
  else s

def step (s : ChannelList) (e : Event × Nat) : ChannelList :=
  match e.1 with
  | .zapTo pos force => zapTo chanlist zaphistory s pos force e.2
  | .zapTo_ChannelID id => zapTo_ChannelID chanlist zaphistory s id e.2
  | .adjustToChannelID id => adjustToChannelID chanlist zaphistory s id e.2
  | .lastchannel => lastchannel chanlist zaphistory s e.2
  | .zaphistory newChannel => zapHistory chanlist zaphistory s newChannel e.2
  | .clearTuned => { s with tuned := noneTuned }

/-- The state after some events, each with its time. -/
def run (events : List (Event × Nat)) : ChannelList :=
  events.foldl (step chanlist zaphistory) ⟨0, noneTuned, []⟩

/-! ## Every state of a channel list -/

/-- The number of a channel. -/
def number (id : Nat) : Int := chanlist.idxOf id

/-- The history is that of some trail, and the current channel is tuned, if one is. -/
structure Tuned (s : ChannelList) (t : Trail) : Prop where
  history : Abbreviates (number chanlist) {id | id ∈ chanlist} s.lastChList t
  tuned : s.tuned = noneTuned ∨ s.lastChList = [] ∨ getlast s.lastChList 0 = s.tuned

variable {chanlist}

theorem number_injOn : Set.InjOn (number chanlist) {id | id ∈ chanlist} := by
  intro a ha b _ h
  exact (List.idxOf_inj ha).mp (Int.ofNat_inj.mp h)

theorem number_nonneg (chanlist : List Nat) (id : Nat) : 0 ≤ number chanlist id :=
  Int.natCast_nonneg _

/-- A channel that is tuned and stored. -/
theorem Tuned.store {s : ChannelList} {t : Trail} (h : Tuned chanlist s t) {id : Nat}
    (hid : id ∈ chanlist) (force : Bool) (now selected : Nat) :
    Tuned chanlist ⟨selected, chanlist.idxOf id,
        Neutrino.store zaphistory s.lastChList (chanlist.idxOf id) id force now⟩
      (t.call zaphistory (.store id force now)) := by
  have hstep := store_abbreviates zaphistory number_injOn
    (fun id _ => number_nonneg chanlist id) h.history hid force now
  refine ⟨hstep, ?_⟩
  cases hcur : (t.call zaphistory (.store id force now)).current with
  | none =>
    refine Or.inr (Or.inl ?_)
    have hfront := hstep.front
    rw [hcur, Option.map_eq_none_iff, List.head?_eq_none_iff] at hfront
    exact hfront
  | some c =>
    refine Or.inr (Or.inr ?_)
    have hid' : c.1 = id := by
      obtain ⟨current, left⟩ := t
      cases current with
      | none =>
        simp only [Trail.call] at hcur
        split at hcur
        · cases hcur
          rfl
        · cases hcur
      | some c' =>
        simp only [Trail.call] at hcur
        split at hcur
        · cases hcur
          rfl
        · cases hcur
          rfl
    have hzero := hstep.getlast_zero
    rw [hcur, Option.map_some, Option.getD_some, hid'] at hzero
    exact hzero

theorem zapTo_eq (s : ChannelList) {id : Nat} (hid : id ∈ chanlist)
    (force : Bool) (now : Nat) :
    zapTo chanlist zaphistory s (number chanlist id) force now =
      ⟨chanlist.idxOf id, chanlist.idxOf id,
        Neutrino.store zaphistory s.lastChList (number chanlist id) id force now⟩ := by
  have hlt : chanlist.idxOf id < chanlist.length := List.idxOf_lt_length_of_mem hid
  have hne : chanlist.isEmpty = false := by
    cases chanlist with
    | nil => simp at hid
    | cons => rfl
  have hpos : ¬ ((chanlist.length : Int) ≤ number chanlist id ∨ number chanlist id < 0) := by
    unfold number
    omega
  have hnat : (number chanlist id).toNat = chanlist.idxOf id := Int.toNat_natCast _
  have hget : chanlist.getD (chanlist.idxOf id) 0 = id := by
    rw [List.getD_eq_getElem?_getD, List.getElem?_eq_getElem hlt, List.getElem_idxOf hlt,
      Option.getD_some]
  have htuned : (if chanlist.idxOf id ≠ s.tuned then chanlist.idxOf id else s.tuned) =
      chanlist.idxOf id := by
    split
    · rfl
    · rename_i h
      exact (not_not.mp h).symm
  unfold zapTo
  simp only [hne, Bool.false_eq_true, if_false, if_neg hpos, hnat, hget, htuned]
  rfl

/-- Every position that is asked for is that of a channel, the first one if there is no other. -/
theorem zapTo_channel (s : ChannelList) (hn : chanlist.Nodup) (pos : Int) (force : Bool)
    (now : Nat) : (chanlist = [] ∧ zapTo chanlist zaphistory s pos force now = s) ∨
      ∃ id ∈ chanlist, zapTo chanlist zaphistory s pos force now =
        zapTo chanlist zaphistory s (number chanlist id) force now := by
  by_cases hne : chanlist = []
  · subst hne
    exact Or.inl ⟨rfl, rfl⟩
  · right
    have hlen : 0 < chanlist.length := List.length_pos_iff.mpr hne
    have hnumber {n : Nat} (h : n < chanlist.length) : number chanlist chanlist[n] = n := by
      unfold number
      rw [hn.idxOf_getElem]
    by_cases hpos : (chanlist.length : Int) ≤ pos ∨ pos < 0
    · refine ⟨chanlist[0], List.getElem_mem hlen, ?_⟩
      rw [hnumber hlen]
      have hzero : ¬ ((chanlist.length : Int) ≤ (0 : Nat) ∨ ((0 : Nat) : Int) < 0) := by omega
      unfold zapTo
      simp only [if_pos hpos, if_neg hzero]
      rfl
    · have hlt : pos.toNat < chanlist.length := by omega
      refine ⟨chanlist[pos.toNat], List.getElem_mem hlt, ?_⟩
      rw [hnumber hlt, Int.toNat_of_nonneg (by omega)]

theorem Tuned.zapTo {s : ChannelList} {t : Trail} (h : Tuned chanlist s t) (hn : chanlist.Nodup)
    (pos : Int) (force : Bool) (now : Nat) :
    ∃ t', Tuned chanlist (zapTo chanlist zaphistory s pos force now) t' := by
  rcases zapTo_channel zaphistory s hn pos force now with ⟨-, heq⟩ | ⟨id, hid, heq⟩
  · exact ⟨t, by rwa [heq]⟩
  · rw [heq, zapTo_eq zaphistory s hid]
    exact ⟨_, h.store zaphistory hid force now _⟩

theorem Tuned.clear_storedelay {s : ChannelList} {t : Trail} (h : Tuned chanlist s t) :
    Tuned chanlist { s with lastChList := clear_storedelay s.lastChList }
      (t.call zaphistory .clear_storedelay) := by
  have hstep := call_abbreviates zaphistory number_injOn
    (fun id _ => number_nonneg chanlist id) h.history (c := .clear_storedelay) trivial
  refine ⟨hstep, ?_⟩
  rcases h.tuned with hnone | hnil | hzero
  · exact Or.inl hnone
  · exact Or.inr (Or.inl (by rw [hnil]; rfl))
  · refine Or.inr (Or.inr ?_)
    cases hl : s.lastChList with
    | nil =>
      rw [hl] at hzero
      exact hzero
    | cons e es =>
      rw [hl] at hzero
      exact hzero

theorem Tuned.step {s : ChannelList} {t : Trail} (h : Tuned chanlist s t) (hn : chanlist.Nodup)
    (e : Event × Nat) : ∃ t', Tuned chanlist (step chanlist zaphistory s e) t' := by
  obtain ⟨e, now⟩ := e
  cases e with
  | zapTo pos force => exact h.zapTo zaphistory hn pos force now
  | zapTo_ChannelID id =>
    by_cases hid : chanlist.idxOf id < chanlist.length
    · have heq : Neutrino.step chanlist zaphistory s (.zapTo_ChannelID id, now) = _ := if_pos hid
      exact heq ▸ h.zapTo zaphistory hn _ false now
    · have heq : Neutrino.step chanlist zaphistory s (.zapTo_ChannelID id, now) = _ := if_neg hid
      exact ⟨t, by rwa [heq]⟩
  | adjustToChannelID id =>
    by_cases hid : chanlist.idxOf id < chanlist.length
    · have heq : Neutrino.step chanlist zaphistory s (.adjustToChannelID id, now) = _ := if_pos hid
      exact ⟨_, heq ▸ h.store zaphistory (List.idxOf_lt_length_iff.mp hid) false now _⟩
    · have heq : Neutrino.step chanlist zaphistory s (.adjustToChannelID id, now) = _ := if_neg hid
      exact ⟨t, by rwa [heq]⟩
  | lastchannel =>
    simp only [Neutrino.step, lastchannel]
    split
    · exact ⟨t, h⟩
    · split
      · exact (h.clear_storedelay zaphistory).zapTo zaphistory hn _ false now
      · exact ⟨t, h⟩
  | zaphistory newChannel =>
    simp only [Neutrino.step, zapHistory]
    split
    · exact ⟨t, h⟩
    · split
      · split
        · exact h.zapTo zaphistory hn _ true now
        · exact ⟨t, h⟩
      · exact ⟨t, h⟩
  | clearTuned => exact ⟨t, h.history, Or.inl rfl⟩

theorem run_tuned (hn : chanlist.Nodup) (events : List (Event × Nat)) :
    ∃ t, Tuned chanlist (run chanlist zaphistory events) t := by
  induction events using List.reverseRecOn with
  | nil =>
    refine ⟨⟨none, []⟩, ⟨?_, rfl, rfl, fun _ => rfl⟩, Or.inl rfl⟩
    intro e he
    cases he
  | append_singleton events e ih =>
    obtain ⟨t, ht⟩ := ih
    unfold run at *
    rw [List.foldl_append]
    exact ht.step zaphistory hn e

/-! ## The key and the menu -/

/-- What is shown behind the current channel are channels of the list. -/
theorem Tuned.shown {s : ChannelList} {t : Trail} (h : Tuned chanlist s t) {n : Nat}
    (hn : getlast s.lastChList (n + 1 : Nat) ≠ -1) :
    ∃ id ∈ chanlist, (Recent.recent 10 t.left)[n]? = some id ∧
      getlast s.lastChList (n + 1 : Nat) = number chanlist id := by
  have hsucc := h.history.getlast_succ n
  cases hid : (Recent.recent 10 t.left)[n]? with
  | none =>
    rw [hid] at hsucc
    exact absurd hsucc hn
  | some id =>
    rw [hid] at hsucc
    refine ⟨id, ?_, rfl, hsucc⟩
    have hmem := List.mem_of_getElem? hid
    rw [← h.history.left] at hmem
    obtain ⟨e, he, rfl⟩ := List.mem_map.mp hmem
    exact (h.history.numbers e (List.mem_of_mem_tail he)).2

theorem Tuned.current {s : ChannelList} {t : Trail} (h : Tuned chanlist s t)
    (hne : s.lastChList ≠ []) : ∃ c, t.current = some c ∧ c.1 ∈ chanlist ∧
      getlast s.lastChList 0 = number chanlist c.1 := by
  obtain ⟨e, es, hl⟩ := List.exists_cons_of_ne_nil hne
  have hfront := h.history.front
  have hzero := h.history.getlast_zero
  rw [hl, List.head?_cons, Option.map_some] at hfront
  rw [← hfront, Option.map_some, Option.getD_some] at hzero
  exact ⟨_, hfront.symm, (h.history.numbers e (by rw [hl]; exact List.mem_cons_self)).2, hzero⟩

theorem ne_nil_of_getlast {l : List LastCh} {n : Int} (h : getlast l n ≠ -1) : l ≠ [] := by
  rintro rfl
  apply h
  unfold getlast
  split <;> rfl

/-- A settled zap to another channel: it is tuned, and the one before is the last one left. -/
theorem Tuned.leave {s : ChannelList} {t : Trail} (h : Tuned chanlist s t) {id : Nat}
    (hid : id ∈ chanlist) {c : Nat × Nat} (hcur : t.current = some c) (hne : c.1 ≠ id)
    {force : Bool} {now : Nat} (hset : settled zaphistory force now c.2 = true) :
    ∃ t', Tuned chanlist (Neutrino.zapTo chanlist zaphistory s (number chanlist id) force now) t' ∧
      t'.current = some (id, now) ∧ t'.left = c.1 :: t.left := by
  have hstore := h.store zaphistory hid force now (chanlist.idxOf id)
  have hcall : t.call zaphistory (.store id force now) = ⟨some (id, now), c.1 :: t.left⟩ := by
    simp only [Trail.call, hcur]
    exact if_pos ⟨hset, hne⟩
  rw [zapTo_eq zaphistory s hid]
  rw [hcall] at hstore
  exact ⟨_, hstore, rfl, rfl⟩

theorem Tuned.after_leave {s : ChannelList} {t : Trail} (h : Tuned chanlist s t) {id cur now : Nat}
    {left : List Nat} (hcur : t.current = some (id, now)) (hleft : t.left = cur :: left) :
    getlast s.lastChList 0 = number chanlist id ∧ getlast s.lastChList 1 = number chanlist cur := by
  have hzero := h.history.getlast_zero
  have hone := h.history.getlast_succ 0
  rw [hcur] at hzero
  rw [hleft, Recent.recent_use] at hone
  exact ⟨hzero, hone⟩

/-- One press of the key, with another channel to go back to. -/
theorem Tuned.press {s : ChannelList} {t : Trail} (h : Tuned chanlist s t)
    (hlen : chanlist.length ≤ noneTuned) {now : Nat} (hnow : zaphistory < delay now 0)
    (hback : getlast s.lastChList 1 ≠ -1)
    (hother : getlast s.lastChList 1 ≠ getlast s.lastChList 0) :
    ∃ t', Tuned chanlist (lastchannel chanlist zaphistory s now) t' ∧
      ((lastchannel chanlist zaphistory s now).tuned : Int) = getlast s.lastChList 1 ∧
      getlast (lastchannel chanlist zaphistory s now).lastChList 0 = getlast s.lastChList 1 ∧
      getlast (lastchannel chanlist zaphistory s now).lastChList 1 = getlast s.lastChList 0 := by
  obtain ⟨id, hid, hhead, hone⟩ := h.shown (n := 0) hback
  replace hone : getlast s.lastChList 1 = number chanlist id := hone
  obtain ⟨c, hcur, hc, hzero⟩ := h.current (ne_nil_of_getlast hback)
  have hlt : chanlist.idxOf id < chanlist.length := List.idxOf_lt_length_of_mem hid
  have hne : chanlist.isEmpty = false := by
    cases chanlist with
    | nil => simp at hid
    | cons => rfl
  have htuned : getlast s.lastChList 1 ≠ s.tuned := by
    rcases h.tuned with hnone | hnil | hcurrent
    · rw [hone, hnone]
      unfold number
      omega
    · exact absurd hnil (ne_nil_of_getlast hback)
    · rw [← hcurrent]
      exact hother
  have hkey : lastchannel chanlist zaphistory s now =
      Neutrino.zapTo chanlist zaphistory
        { s with lastChList := Neutrino.clear_storedelay s.lastChList }
        (number chanlist id) false now := by
    unfold lastchannel
    rw [hone] at hback htuned
    simp only [hne, Bool.false_eq_true, if_false, hone, if_pos (And.intro hback htuned)]
  have hcleared := h.clear_storedelay zaphistory
  have hcur' : (t.call zaphistory .clear_storedelay).current = some (c.1, 0) := by
    simp only [Trail.call, hcur, Option.map_some]
  have hcid : c.1 ≠ id := by
    rintro rfl
    exact hother (hone.trans hzero.symm)
  have hset : settled zaphistory false now 0 = true := by simpa [settled] using hnow
  obtain ⟨t', ht', hcurrent, hleft⟩ := hcleared.leave zaphistory hid hcur' hcid hset
  have hseen := ht'.after_leave hcurrent hleft
  rw [hkey, hone, hzero]
  refine ⟨t', ht', ?_, hseen.1, hseen.2⟩
  rw [zapTo_eq zaphistory _ hid]
  rfl

/-- Every channel of the history is one of the list, so the menu shows all of them. -/
theorem Tuned.menu {s : ChannelList} {t : Trail} (h : Tuned chanlist s t) :
    menu chanlist s.lastChList = (Recent.recent 10 t.left).map (number chanlist) := by
  have hlen : s.lastChList.length - 1 = (Recent.recent 10 t.left).length := by
    rw [← h.history.left, List.length_map, List.length_tail]
  have hall : ((List.range (s.lastChList.length - 1)).map fun i =>
      getlast s.lastChList (i + 1 : Nat)) = (Recent.recent 10 t.left).map (number chanlist) := by
    apply List.ext_getElem
    · rw [List.length_map, List.length_range, List.length_map, hlen]
    · intro n hn hn'
      rw [List.length_map] at hn'
      rw [List.getElem_map, List.getElem_range, h.history.getlast_succ, List.getElem_map,
        List.getElem?_eq_getElem hn']
      rfl
  unfold Neutrino.menu
  rw [hall]
  apply List.filter_eq_self.mpr
  intro k hk
  obtain ⟨id, hid, rfl⟩ := List.mem_map.mp hk
  rw [← h.history.left] at hid
  obtain ⟨e, he, rfl⟩ := List.mem_map.mp hid
  have hmem := (h.history.numbers e (List.mem_of_mem_tail he)).2
  have hlt : chanlist.idxOf e.channel_id < chanlist.length := List.idxOf_lt_length_of_mem hmem
  unfold number
  simpa using hlt

/-- The menu shows different channels, at most ten, and the one that is chosen is tuned; the
current channel then comes first in the history. -/
theorem zapHistory_menu (hn : chanlist.Nodup) (events : List (Event × Nat)) (now : Nat) :
    let s := run chanlist zaphistory events
    (menu chanlist s.lastChList).Nodup ∧ (menu chanlist s.lastChList).length ≤ 10 ∧
      ∀ (n : Nat) (ch : Int), (menu chanlist s.lastChList)[n]? = some ch →
        let s' := zapHistory chanlist zaphistory s n now
        s'.tuned = ch ∧ getlast s'.lastChList 0 = ch ∧
          (ch ≠ getlast s.lastChList 0 → getlast s'.lastChList 1 = getlast s.lastChList 0) := by
  intro s
  obtain ⟨t, ht⟩ := run_tuned zaphistory hn events
  have hmenu := ht.menu
  have hids : ∀ id ∈ Recent.recent 10 t.left, id ∈ chanlist := by
    intro id hid
    rw [← ht.history.left] at hid
    obtain ⟨e, he, rfl⟩ := List.mem_map.mp hid
    exact (ht.history.numbers e (List.mem_of_mem_tail he)).2
  refine ⟨?_, ?_, fun n ch hch => ?_⟩
  · rw [hmenu]
    apply List.Nodup.map_on _ (Recent.recent_nodup 10 t.left)
    exact fun a ha b hb h => number_injOn (hids a ha) (hids b hb) h
  · rw [hmenu, List.length_map]
    exact Recent.recent_length_le 10 t.left
  · intro s'
    have hch' := hch
    rw [hmenu, List.getElem?_map, Option.map_eq_some_iff] at hch'
    obtain ⟨id, hid, rfl⟩ := hch'
    have hmem : id ∈ chanlist := hids id (List.mem_of_getElem? hid)
    have hlast : getlast s.lastChList (n + 1 : Nat) = number chanlist id := by
      have hsucc := ht.history.getlast_succ n
      rw [hid] at hsucc
      exact hsucc
    have hpos := number_nonneg chanlist id
    obtain ⟨c, hcur, hc, hzero⟩ := ht.current (ne_nil_of_getlast (by rw [hlast]; omega))
    have hlen : 1 < s.lastChList.length := by
      have hlt := (List.getElem?_eq_some_iff.mp hid).1
      rw [← ht.history.left, List.length_map, List.length_tail] at hlt
      change n < s.lastChList.length - 1 at hlt
      omega
    have hshown : (menu chanlist s.lastChList).isEmpty = false := by
      cases hm : menu chanlist s.lastChList with
      | nil => simp [hm] at hch
      | cons => rfl
    have hne : chanlist.isEmpty = false := by
      cases chanlist with
      | nil => simp at hmem
      | cons => rfl
    have hzap : s' = zapTo chanlist zaphistory s (number chanlist id) true now := by
      change zapHistory chanlist zaphistory s n now = _
      have hchoice : -1 < (n : Int) := by omega
      have hcond : 1 < s.lastChList.length ∧ (menu chanlist s.lastChList).isEmpty = false ∧
          -1 < (n : Int) := ⟨hlen, hshown, hchoice⟩
      have hlast' : getlast s.lastChList ((n : Int) + 1) = number chanlist id := hlast
      have hshow : -1 < number chanlist id := by omega
      unfold zapHistory
      simp only [hne, Bool.false_eq_true, if_false, if_pos hcond, hlast', if_pos hshow]
    refine ⟨?_, ?_, fun hother => ?_⟩
    · rw [hzap, zapTo_eq zaphistory _ hmem]
      rfl
    · rw [hzap, zapTo_eq zaphistory _ hmem]
      have hstore := (ht.store zaphistory hmem true now 0).history.getlast_zero
      have hnew : (t.call zaphistory (.store id true now)).current = some (id, now) := by
        simp only [Trail.call, hcur]
        split <;> rfl
      rw [hnew] at hstore
      exact hstore
    · have hcid : c.1 ≠ id := by
        rintro rfl
        exact hother hzero.symm
      have hset : settled zaphistory true now c.2 = true := rfl
      obtain ⟨t', ht', hcurrent, hleft⟩ := ht.leave zaphistory hmem hcur hcid hset
      rw [hzap, (ht'.after_leave hcurrent hleft).2]
      exact hzero.symm

/-- The key does nothing where there is no other channel to go back to; where there is, it goes
there, and when pressed again it comes back. -/
theorem lastchannel_toggles (hn : chanlist.Nodup) (hlen : chanlist.length ≤ noneTuned)
    (events : List (Event × Nat)) {now now' : Nat} (hnow : zaphistory < delay now 0)
    (hnow' : zaphistory < delay now' 0) :
    let s := run chanlist zaphistory events
    let once := lastchannel chanlist zaphistory s now
    let twice := lastchannel chanlist zaphistory once now'
    (getlast s.lastChList 1 = -1 ∨ getlast s.lastChList 1 = s.tuned → once = s) ∧
      (getlast s.lastChList 1 ≠ -1 → getlast s.lastChList 1 ≠ getlast s.lastChList 0 →
        once.tuned = getlast s.lastChList 1 ∧ twice.tuned = getlast s.lastChList 0 ∧
          getlast twice.lastChList 0 = getlast s.lastChList 0 ∧
          getlast twice.lastChList 1 = getlast s.lastChList 1) := by
  intro s once twice
  obtain ⟨t, ht⟩ := run_tuned zaphistory hn events
  constructor
  · intro hsame
    have hkey : ¬ (getlast s.lastChList 1 ≠ -1 ∧ getlast s.lastChList 1 ≠ s.tuned) := by
      rcases hsame with h | h
      · exact fun hk => hk.1 h
      · exact fun hk => hk.2 h
    change lastchannel chanlist zaphistory s now = s
    unfold lastchannel
    simp only [if_neg hkey, ite_self]
  · intro hback hother
    obtain ⟨t', ht', htuned, hzero, hone⟩ := ht.press zaphistory hlen hnow hback hother
    have hcur : getlast s.lastChList 0 ≠ -1 := by
      obtain ⟨c, -, -, heq⟩ := ht.current (ne_nil_of_getlast hback)
      rw [heq]
      have := number_nonneg chanlist c.1
      omega
    have hback' : getlast once.lastChList 1 ≠ -1 := by rwa [hone]
    have hother' : getlast once.lastChList 1 ≠ getlast once.lastChList 0 := by
      rw [hone, hzero]
      exact hother.symm
    obtain ⟨t'', -, htuned', hzero', hone'⟩ := ht'.press zaphistory hlen hnow' hback' hother'
    exact ⟨htuned, htuned'.trans hone, hzero'.trans hone, hone'.trans hzero⟩

end

/-- Three channels, zapped through slowly. -/
def threeZaps : List (Event × Nat) :=
  [(.zapTo 0 false, 100), (.zapTo 1 false, 200), (.zapTo 2 false, 300)]

theorem threeZaps_toggle :
    let once := lastchannel [10, 11, 12] 3 (run [10, 11, 12] 3 threeZaps) 301
    once.tuned = 1 ∧ (lastchannel [10, 11, 12] 3 once 302).tuned = 2 := by
  have hn : [10, 11, 12].Nodup := by decide
  have hlen : [10, 11, 12].length ≤ noneTuned := by decide
  have hnow : 3 < delay 301 0 := by decide
  have hnow' : 3 < delay 302 0 := by decide
  have h := (lastchannel_toggles 3 hn hlen threeZaps hnow hnow').2 (by decide) (by decide)
  have hone : getlast (run [10, 11, 12] 3 threeZaps).lastChList 1 = 1 := by decide
  have hzero : getlast (run [10, 11, 12] 3 threeZaps).lastChList 0 = 2 := by decide
  exact ⟨Int.ofNat_inj.mp (h.1.trans hone), Int.ofNat_inj.mp (h.2.1.trans hzero)⟩

theorem threeZaps_menu :
    (zapHistory [10, 11, 12] 3 (run [10, 11, 12] 3 threeZaps) 1 301).tuned = 0 := by
  have hn : [10, 11, 12].Nodup := by decide
  have h := zapHistory_menu 3 hn threeZaps 301
  exact Int.ofNat_inj.mp (h.2.2 1 0 (by decide)).1

end Tuxbox.Neutrino
