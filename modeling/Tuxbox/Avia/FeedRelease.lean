import Tuxbox.Avia.FeedSlots

/-!
# What failed and stopped feeds leave behind
-/

namespace Tuxbox.Avia

/-- The queue of a started feed. -/
def NapiConfig.queueOf (c : NapiConfig) (feed : DvbDemuxFeed) : Option Nat :=
  if c.withoutQueue feed then none else feed.priv

/-- The feed is for a system queue that is free, its interrupt is wanted, and a
user queue running on the pid and mode will have claimed the interrupt before. -/
def Napi.IrqTaken (c : NapiConfig) (s : Napi) (feed : DvbDemuxFeed) : Prop :=
  c.frontend ≠ none ∧ ¬ c.withoutQueue feed ∧ feed.wantsIrq = true ∧
  ∃ n, feed.systemQueue = some n ∧ (s.dmx.queueList n).busy = false ∧
    s.ClientWaits n feed.pid (s.startMode c feed)

namespace Feeds

def owners (c : NapiConfig) (s : Feeds) : List Nat := s.started.filterMap c.queueOf

/-- The feed that is started does not find its interrupt taken. -/
def IrqFree (c : NapiConfig) (s : Feeds) : FeedCall → Prop
  | .start _ feed => ¬ s.napi.IrqTaken c (c.prepare feed)
  | .stop _ => True

/-- The busy queues are those of the started feeds. -/
structure Owned (c : NapiConfig) (s : Feeds) : Prop where
  wired : Wired s.napi
  nodup : (s.owners c).Nodup
  busy : ∀ n ≤ 30, (s.napi.dmx.queueList n).busy = true ↔ n ∈ s.owners c
  bound : ∀ n ∈ s.owners c, n ≤ 30
  pids : ∀ feed ∈ s.started, ∀ n, c.queueOf feed = some n →
    (s.napi.dmx.queueList n).pid = feed.pid
  front : c.frontend = none → s.started = []

theorem Owned.init (c : NapiConfig) : Owned c Feeds.init where
  wired := Wired.init
  nodup := by simp [owners, Feeds.init]
  busy := by
    intro n _
    simp [owners, Feeds.init, Napi.init, Dmx.init, DmxQueue.init]
  bound := by simp [owners, Feeds.init]
  pids := by simp [Feeds.init]
  front := fun _ => rfl

section
variable {c : NapiConfig} {s t : Feeds}

/-- A start fails on its last call only where the interrupt is taken. -/
theorem begins_result {s : Napi} {feed : DvbDemuxFeed} {r : Napi × DvbDemuxFeed × Option Errno}
    (hb : Begins c s feed r) (hf : c.frontend ≠ none) (hq : ¬ c.withoutQueue feed) :
    r.2.2 ≠ none ↔ s.IrqTaken c feed := by
  obtain ⟨n, k, own, mode, hon, -, hres⟩ := hb
  obtain ⟨e, halloc⟩ := hon.alloc
  obtain ⟨-, hfree, -, hsys⟩ := queueAlloc_some halloc
  rw [hres]
  constructor
  · rintro ⟨hirq, hwait⟩
    have hmode := hon.mode_eq hwait.1
    subst hmode
    refine ⟨hf, hq, hirq, n, ?_, hfree, hwait⟩
    rcases hsys with hsys | ⟨-, huser⟩
    · exact hsys
    · exact absurd hwait.1 (by omega)
  · rintro ⟨-, -, hirq, m, hsys', -, hwait⟩
    have hmn : m = n := by
      rcases hsys with hsys | ⟨hnone, -⟩
      · exact Option.some.inj (hsys'.symm.trans hsys)
      · rw [hnone] at hsys'
        cases hsys'
    subst hmn
    rw [hon.mode_eq hwait.1]
    exact ⟨hirq, hwait⟩

/-- A start on a queue takes exactly this queue. -/
theorem startedOn_queues {s t : Napi} {feed : DvbDemuxFeed} {n : Nat} {k : Fin 32} {own : Bool}
    {mode : FeedMode} (hon : StartedOn c s t feed n k own mode) :
    n ≤ 30 ∧ (s.dmx.queueList n).busy = false ∧ (t.dmx.queueList n).busy = true ∧
    (t.dmx.queueList n).pid = feed.pid ∧
    ∀ m, m ≠ n → (t.dmx.queueList m).busy = (s.dmx.queueList m).busy ∧
      (t.dmx.queueList m).pid = (s.dmx.queueList m).pid := by
  obtain ⟨t₀, hopen, -, hsame⟩ := hon.opened
  have hlist : ∀ m, DmxQueue.Same (t₀.dmx.queueList m) (t.dmx.queueList m) := by
    intro m
    have hm := hsame.queues m
    split at hm
    · rwa [handOver_queueList] at hm
    · exact hm
  refine ⟨hopen.le, hopen.free, by rw [(hlist n).busy, hopen.busy],
    by rw [(hlist n).pid, hopen.queuePid], ?_⟩
  intro m hm
  have hother := (hopen.others m hm).trans (hlist m)
  exact ⟨hother.busy, hother.pid⟩

theorem step_start {stack : Stack} {feed : DvbDemuxFeed}
    (ht : s.step c (.start stack feed) = some t) :
    t.napi = (s.napi.startFeed c stack feed).1 ∧
    t.started = if (s.napi.startFeed c stack feed).2.2 = none
      then s.started ++ [(s.napi.startFeed c stack feed).2.1] else s.started := by
  simp only [step] at ht
  split at ht
  · rename_i heq
    cases ht
    simp [heq]
  · rename_i heq
    cases ht
    simp [heq]

theorem Owned.unchanged (h : Owned c s) (hun : Unchanged s.napi t.napi)
    (hst : t.started = s.started) : Owned c t := by
  have howners : t.owners c = s.owners c := by rw [owners, hst, owners]
  refine ⟨hun.wired h.wired, howners ▸ h.nodup, ?_, howners ▸ h.bound, ?_, hst ▸ h.front⟩
  · rw [howners, hun.queueList]
    exact h.busy
  · rw [hst, hun.queueList]
    exact h.pids

/-- A feed of its own queue is added. -/
theorem Owned.add (h : Owned c s) {feed : DvbDemuxFeed} {n : Nat} (hw : Wired t.napi)
    (hst : t.started = s.started ++ [feed]) (hq : c.queueOf feed = some n) (hle : n ≤ 30)
    (hfree : (s.napi.dmx.queueList n).busy = false)
    (hbusy : (t.napi.dmx.queueList n).busy = true)
    (hpid : (t.napi.dmx.queueList n).pid = feed.pid) (hf : c.frontend ≠ none)
    (hother : ∀ m, m ≠ n →
      (t.napi.dmx.queueList m).busy = (s.napi.dmx.queueList m).busy ∧
      (t.napi.dmx.queueList m).pid = (s.napi.dmx.queueList m).pid) : Owned c t := by
  have howners : t.owners c = s.owners c ++ [n] := by
    simp [owners, hst, List.filterMap_append, hq]
  have hnew : n ∉ s.owners c := by
    intro hmem
    rw [(h.busy n hle).mpr hmem] at hfree
    cases hfree
  refine ⟨hw, ?_, ?_, ?_, ?_, fun hfront => absurd hfront hf⟩
  · rw [howners, List.nodup_append]
    refine ⟨h.nodup, by simp, ?_⟩
    intro a ha b hb hab
    rw [List.mem_singleton.mp hb] at hab
    exact hnew (hab ▸ ha)
  · intro m hm
    rw [howners, List.mem_append, List.mem_singleton]
    by_cases hmn : m = n
    · simp [hmn, hbusy]
    · rw [(hother m hmn).1, h.busy m hm]
      simp [hmn]
  · intro m hm
    rw [howners, List.mem_append, List.mem_singleton] at hm
    rcases hm with hm | rfl
    · exact h.bound m hm
    · exact hle
  · intro f hf' m hm
    rw [hst, List.mem_append, List.mem_singleton] at hf'
    rcases hf' with hold | rfl
    · have hmn : m ≠ n := by
        rintro rfl
        exact hnew (List.mem_filterMap.mpr ⟨f, hold, hm⟩)
      rw [(hother m hmn).2]
      exact h.pids f hold m hm
    · rw [hq] at hm
      cases hm
      exact hpid

theorem Owned.start (h : Owned c s) {stack : Stack} {feed : DvbDemuxFeed}
    (hok : s.IrqFree c (.start stack feed)) (ht : s.step c (.start stack feed) = some t) :
    Owned c t := by
  obtain ⟨hnapi, hst⟩ := step_start ht
  rcases h.wired.startFeed stack feed with ⟨err, herr, hun, -⟩ | ⟨hq, hf, hr⟩ | ⟨hq, hf, hbeg⟩
  · rw [herr, if_neg (by simp)] at hst
    exact h.unchanged (hnapi ▸ hun) hst
  · -- a feed without queue
    rw [hr] at hnapi hst
    have hnone : c.queueOf (c.prepare feed) = none := if_pos hq
    have howners : t.owners c = s.owners c := by
      simp [owners, hst, List.filterMap_append, hnone]
    refine ⟨hnapi ▸ h.wired, howners ▸ h.nodup, ?_, howners ▸ h.bound, ?_,
      fun hfront => absurd hfront hf⟩
    · rw [howners, hnapi]
      exact h.busy
    · intro f hf' n hn
      rw [hst, if_pos rfl, List.mem_append, List.mem_singleton] at hf'
      rcases hf' with hold | rfl
      · rw [hnapi]
        exact h.pids f hold n hn
      · rw [hnone] at hn
        cases hn
  · have hres := begins_result hbeg hf hq
    obtain ⟨n, k, own, mode, hon, hfeed, -⟩ := hbeg
    obtain ⟨hle, hfree, hbusy, hpid, hother⟩ := startedOn_queues hon
    rw [← hnapi] at hbusy hpid hother
    have hok' : (s.napi.startFeed c stack feed).2.2 = none := by
      by_contra hne
      exact hok (hres.mp hne)
    rw [if_pos hok', hfeed] at hst
    have hqueue : c.queueOf { c.prepare feed with priv := some n } = some n := if_neg hq
    exact h.add (hnapi ▸ hon.wired) hst hqueue hle hfree hbusy hpid hf hother

/-- The list around an element and without it. -/
theorem split_at {α : Type} {l : List α} {i : Nat} {a : α} (h : l[i]? = some a) :
    ∃ l₁ l₂, l = l₁ ++ a :: l₂ ∧ l.eraseIdx i = l₁ ++ l₂ := by
  obtain ⟨hi, rfl⟩ := List.getElem?_eq_some_iff.mp h
  refine ⟨l.take i, l.drop (i + 1), ?_, List.eraseIdx_eq_take_drop_succ l i⟩
  rw [List.cons_getElem_drop_succ, List.take_append_drop]

/-- A feed of its own queue is removed. -/
theorem Owned.remove (h : Owned c s) {feed : DvbDemuxFeed} {i n : Nat} (hw : Wired t.napi)
    (hi : s.started[i]? = some feed) (hst : t.started = s.started.eraseIdx i)
    (hq : c.queueOf feed = some n) (hfree : (t.napi.dmx.queueList n).busy = false)
    (hother : ∀ m, m ≠ n →
      (t.napi.dmx.queueList m).busy = (s.napi.dmx.queueList m).busy ∧
      (t.napi.dmx.queueList m).pid = (s.napi.dmx.queueList m).pid) : Owned c t := by
  obtain ⟨l₁, l₂, hl, herase⟩ := split_at hi
  have hbefore : s.owners c = l₁.filterMap c.queueOf ++ n :: l₂.filterMap c.queueOf := by
    simp [owners, hl, List.filterMap_append, hq]
  have hafter : t.owners c = l₁.filterMap c.queueOf ++ l₂.filterMap c.queueOf := by
    simp [owners, hst, herase, List.filterMap_append]
  have hnd : (n :: (l₁.filterMap c.queueOf ++ l₂.filterMap c.queueOf)).Nodup := by
    have hold := h.nodup
    rw [hbefore] at hold
    exact (List.perm_middle.nodup_iff).mp hold
  have hmem : ∀ m, m ∈ s.owners c ↔ m = n ∨ m ∈ t.owners c := by
    intro m
    rw [hbefore, hafter]
    exact List.perm_middle.mem_iff.trans List.mem_cons
  obtain ⟨hn, hnd'⟩ := List.nodup_cons.mp hnd
  rw [← hafter] at hn hnd'
  refine ⟨hw, hnd', ?_, ?_, ?_, ?_⟩
  · intro m hm
    by_cases hmn : m = n
    · subst hmn
      simp [hfree, hn]
    · rw [(hother m hmn).1, h.busy m hm, hmem]
      simp [hmn]
  · intro m hm
    exact h.bound m ((hmem m).mpr (.inr hm))
  · intro f hf m hm
    have hmt : m ∈ t.owners c := List.mem_filterMap.mpr ⟨f, hf, hm⟩
    have hmn : m ≠ n := by
      rintro rfl
      exact hn hmt
    rw [(hother m hmn).2]
    refine h.pids f ?_ m hm
    rw [hst] at hf
    exact List.mem_of_mem_eraseIdx hf
  · intro hfront
    rw [hst, h.front hfront]
    rfl

/-- A feed without queue is removed. -/
theorem Owned.forget (h : Owned c s) {feed : DvbDemuxFeed} {i : Nat}
    (hi : s.started[i]? = some feed) (hst : t.started = s.started.eraseIdx i)
    (hnapi : t.napi = s.napi) (hq : c.queueOf feed = none) : Owned c t := by
  obtain ⟨l₁, l₂, hl, herase⟩ := split_at hi
  have howners : t.owners c = s.owners c := by
    rw [owners, owners, hst, herase, hl]
    simp [List.filterMap_append, hq]
  refine ⟨hnapi ▸ h.wired, howners ▸ h.nodup, ?_, howners ▸ h.bound, ?_, ?_⟩
  · rw [howners, hnapi]
    exact h.busy
  · intro f hf n hn
    rw [hnapi]
    rw [hst] at hf
    exact h.pids f (List.mem_of_mem_eraseIdx hf) n hn
  · intro hfront
    rw [hst, h.front hfront]
    rfl

theorem step_stop {i : Nat} (ht : s.step c (.stop i) = some t) :
    ∃ feed r, s.started[i]? = some feed ∧ s.napi.stopFeed c feed = some r ∧ t.napi = r.1 ∧
      t.started = s.started.eraseIdx i := by
  simp only [step] at ht
  split at ht
  · cases ht
  · rename_i feed hi
    obtain ⟨r, hr, rfl⟩ := Option.map_eq_some_iff.mp ht
    exact ⟨feed, r, hi, hr, rfl, rfl⟩

/-- What `stop_feed` does for a started feed: nothing for one without queue,
else the tap is started and the queue given back. -/
theorem Owned.stopFeed (h : Owned c s) {feed : DvbDemuxFeed} {r : Napi × Option Errno}
    (hmem : feed ∈ s.started) (hr : s.napi.stopFeed c feed = some r) :
    (c.queueOf feed = none ∧ r.1 = s.napi) ∨
    ∃ n k, c.queueOf feed = some n ∧
      Closed (if feed.isDecoder then s.napi.handOver c feed.pid true else s.napi) r.1 n k ∧
      Wired (if feed.isDecoder then s.napi.handOver c feed.pid true else s.napi) := by
  unfold Napi.stopFeed at hr
  split at hr
  · rename_i hfront
    rw [h.front hfront] at hmem
    cases hmem
  · rename_i src hfront
    split at hr
    · rename_i hclip
      obtain ⟨m, -, rfl⟩ := Option.map_eq_some_iff.mp hr
      refine .inl ⟨if_pos (.inl ⟨by rw [hfront, hclip.1], by simpa using hclip.2⟩), rfl⟩
    · rename_i hclip
      split at hr
      · rename_i hpcr
        cases hr
        refine .inl ⟨if_pos (.inr ⟨?_, hpcr.2⟩), rfl⟩
        have hdec := hpcr.1
        simp only [DvbDemuxFeed.isDecoder, decide_eq_true_eq] at hdec
        exact hdec.1
      · rename_i hpcr
        obtain ⟨n, hn, rfl⟩ := Option.map_eq_some_iff.mp hr
        right
        have hq : c.queueOf feed = some n := by
          refine (if_neg ?_).trans hn
          rintro (⟨hmemory, hno⟩ | ⟨hsec, honly⟩)
          · rw [hfront] at hmemory
            exact hclip ⟨Option.some.inj hmemory, by simp [hno]⟩
          · have hdec : feed.isDecoder = true := by
              simp only [DvbDemuxFeed.pcrOnly, decide_eq_true_eq] at honly
              simp [DvbDemuxFeed.isDecoder, hsec, honly.2.1]
            exact hpcr ⟨hdec, honly⟩
        have hown : n ∈ s.owners c := List.mem_filterMap.mpr ⟨feed, hmem, hq⟩
        have hle := h.bound n hown
        obtain ⟨k, hk⟩ := h.wired.served n hle ((h.busy n hle).mpr hown)
        have hwired : Wired (if feed.isDecoder then s.napi.handOver c feed.pid true
            else s.napi) ∧ (if feed.isDecoder then s.napi.handOver c feed.pid true
            else s.napi).dmx.ucode.ucodeFeed = s.napi.dmx.ucode.ucodeFeed := by
          split
          · have hho := h.wired.handOver (c := c) feed.pid true
            exact ⟨hho.2, hho.1.ucodeFeed⟩
          · exact ⟨h.wired, rfl⟩
        rw [← hwired.2] at hk
        exact ⟨n, k, hq, (hwired.1.stopQueue c.info hk).1, hwired.1⟩

theorem Owned.stop (h : Owned c s) {i : Nat} (ht : s.step c (.stop i) = some t) : Owned c t := by
  obtain ⟨feed, r, hi, hr, hnapi, hst⟩ := step_stop ht
  rcases h.stopFeed (List.mem_of_getElem? hi) hr with ⟨hq, hsame⟩ | ⟨n, k, hq, hclosed, hwired⟩
  · exact h.forget hi hst (hnapi.trans hsame) hq
  · rw [← hnapi] at hclosed
    refine h.remove (hclosed.wired hwired) hi hst hq hclosed.free ?_
    intro m hm
    have hother := hclosed.others m hm
    split at hother
    · rw [handOver_queueList] at hother
      exact ⟨hother.busy, hother.pid⟩
    · exact ⟨hother.busy, hother.pid⟩

theorem Owned.step (h : Owned c s) {call : FeedCall} (hok : s.IrqFree c call)
    (ht : s.step c call = some t) : Owned c t := by
  cases call with
  | start stack feed => exact h.start hok ht
  | stop i => exact h.stop ht

end

end Feeds

/-- The busy flags, the feeds, the section map, `ts_pid` and whether the
processor takes interrupts. -/
def SameTables (s t : Napi) : Prop :=
  (∀ n, (t.dmx.queueList n).busy = (s.dmx.queueList n).busy) ∧
  t.dmx.ucode.ucodeFeed = s.dmx.ucode.ucodeFeed ∧
  t.dmx.ucode.tables.sectionMap = s.dmx.ucode.tables.sectionMap ∧
  t.tsPid = s.tsPid ∧ t.dmx.ucode.irqsEnabled = s.dmx.ucode.irqsEnabled

/-- A start that fails leaves the tables alone, except where the interrupt was
taken. -/
theorem Wired.failed {c : NapiConfig} {s : Napi} (h : Wired s) (stack : Stack)
    (feed : DvbDemuxFeed) (hfail : (s.startFeed c stack feed).2.2 ≠ none) :
    SameTables s (s.startFeed c stack feed).1 ↔ ¬ s.IrqTaken c (c.prepare feed) := by
  rcases h.startFeed (c := c) stack feed with
    ⟨err, herr, hun, hwhy⟩ | ⟨hq, hf, hr⟩ | ⟨hq, hf, hbeg⟩
  · constructor
    · rintro - ⟨hfront, -, -, n, hsys, hfree, hwait⟩
      rcases hwhy with hnone | hnone
      · exact hfront hnone
      · rw [(queueAlloc_system hsys).2] at hnone
        have hn := hwait.1
        simp only [queueUserStart] at hn
        simp [Dmx.allocQueue, hfree, queueCount, show ¬ 32 ≤ n by omega] at hnone
    · intro _
      exact ⟨fun n => by rw [hun.queueList], hun.ucodeFeed, hun.sectionMap, hun.tsPid,
        hun.irqsEnabled⟩
  · rw [hr] at hfail
    exact absurd rfl hfail
  · have htaken := (Feeds.begins_result hbeg hf hq).mp hfail
    obtain ⟨n, k, own, mode, hon, -, -⟩ := hbeg
    obtain ⟨-, hfree, hbusy, -, -⟩ := Feeds.startedOn_queues hon
    constructor
    · intro hsame
      rw [hsame.1 n, hfree] at hbusy
      cases hbusy
    · exact fun hno => absurd htaken hno

/-- While no feed is started whose interrupt is taken: a start that fails leaves
the tables as they were, and when all feeds are stopped they are empty. -/
theorem feeds_leave_nothing (c : NapiConfig) (s : Feeds)
    (h : Runs (Feeds.step c) (Feeds.IrqFree c) Feeds.init s) :
    (∀ stack feed, (s.napi.startFeed c stack feed).2.2 ≠ none →
      (SameTables s.napi (s.napi.startFeed c stack feed).1 ↔
        ¬ s.napi.IrqTaken c (c.prepare feed))) ∧
    (s.started = [] →
      (∀ n, queueUserStart ≤ n → n ≤ 30 → (s.napi.dmx.queueList n).busy = false) ∧
      (∀ i, (s.napi.dmx.ucode.ucodeFeed i).destQueue = none) ∧
      (∀ i, s.napi.dmx.ucode.tables.sectionMap i = none) ∧
      ∀ n, s.napi.tsPid n = 0xFFFF#16) := by
  have howned : s.Owned c :=
    h.invariant (fun _ _ _ hs hok ht => hs.step hok ht) (Feeds.Owned.init c)
  refine ⟨fun stack feed hfail => howned.wired.failed stack feed hfail, ?_⟩
  intro hnone
  have hfree : ∀ n ≤ 30, (s.napi.dmx.queueList n).busy = false := by
    intro n hn
    by_contra hb
    have hmem := (howned.busy n hn).mp (by simpa using hb)
    simp [Feeds.owners, hnone] at hmem
  have hfeeds : ∀ i, (s.napi.dmx.ucode.ucodeFeed i).destQueue = none := by
    intro i
    by_contra hne
    obtain ⟨n, hn⟩ := Option.ne_none_iff_exists'.mp hne
    obtain ⟨hle, hb⟩ := howned.wired.bound i n hn
    rw [hfree n hle] at hb
    cases hb
  refine ⟨fun n _ hn => hfree n hn, hfeeds, howned.wired.sections.empty hfeeds, ?_⟩
  intro n
  rcases howned.wired.tsPid n with hts | ⟨-, -, i, -, hi⟩
  · exact hts
  · rw [hfeeds i] at hi
    cases hi

/-- A demux in spts mode. -/
def sptsConfig : NapiConfig := ⟨some .hardware, false, ⟨true, true, true, true, 1, fun _ => 0⟩⟩

/-- A feed that records the packets of a pid. -/
def recordFeed (pid : U16) : DvbDemuxFeed :=
  ⟨.ts, ⟨true, false, false⟩, .other, pid, [], none⟩

/-- A video feed for the decoder whose packets are wanted too. -/
def videoFeed (pid : U16) : DvbDemuxFeed := ⟨.ts, ⟨true, false, true⟩, .video, pid, [], none⟩

/-- No section filter is analysed here. -/
def noStack : Stack := fun _ => (0, 0)

/-- A video feed for the decoder alone. -/
def decodeFeed (pid : U16) : DvbDemuxFeed := ⟨.ts, ⟨false, false, true⟩, .video, pid, [], none⟩

/-- Recordings and decoder feeds without packets wait for no other's interrupt. -/
theorem sampleFeeds_irqFree (s : Feeds) (pid : U16) :
    s.IrqFree sptsConfig (.start noStack (recordFeed pid)) ∧
      s.IrqFree sptsConfig (.start noStack (decodeFeed pid)) := by
  constructor
  · rintro ⟨-, -, -, n, hsys, -⟩
    cases hsys
  · rintro ⟨-, -, hwants, -⟩
    cases hwants

/-- A recording and a decoder feed: a second one fails, and when all have been stopped
nothing is left. -/
theorem feeds_leave_nothing_recording :
    ∃ s t, Runs (Feeds.step sptsConfig) (Feeds.IrqFree sptsConfig) Feeds.init s ∧
      (s.napi.startFeed sptsConfig noStack (decodeFeed 0x300#16)).2.2 = some .ebusy ∧
      SameTables s.napi (s.napi.startFeed sptsConfig noStack (decodeFeed 0x300#16)).1 ∧
      Runs (Feeds.step sptsConfig) (Feeds.IrqFree sptsConfig) s t ∧ t.started = [] ∧
      ∀ i, (t.napi.dmx.ucode.ucodeFeed i).destQueue = none := by
  let later : List FeedCall := [.start noStack (decodeFeed 0x300#16), .stop 0, .stop 0]
  let fails (s : Feeds) : Bool :=
    (s.napi.startFeed sptsConfig noStack (decodeFeed 0x300#16)).2.2 = some .ebusy ∧
      (runList (Feeds.step sptsConfig) s later).map (·.started.length) = some 0
  have hlist : (runList (Feeds.step sptsConfig) Feeds.init
      [.start noStack (recordFeed 0x100#16), .start noStack (decodeFeed 0x200#16)]).map fails =
        some true := by decide +kernel
  obtain ⟨s, hs, hres⟩ := Option.map_eq_some_iff.mp hlist
  simp only [fails, decide_eq_true_eq] at hres
  obtain ⟨hbusy, hend⟩ := hres
  obtain ⟨t, ht, hlen⟩ := Option.map_eq_some_iff.mp hend
  have hnone : t.started = [] := List.length_eq_zero_iff.mp hlen
  have hrun : Runs (Feeds.step sptsConfig) (Feeds.IrqFree sptsConfig) Feeds.init s := by
    apply Runs.ofList _ hs
    intro u call hcall
    rcases List.mem_cons.mp hcall with rfl | hcall
    · exact (sampleFeeds_irqFree u _).1
    · rw [List.mem_singleton.mp hcall]
      exact (sampleFeeds_irqFree u _).2
  have hrest : Runs (Feeds.step sptsConfig) (Feeds.IrqFree sptsConfig) s t := by
    refine Runs.ofList_cons (sampleFeeds_irqFree s _).2 ?_ ht
    intro u call hcall
    simp only [List.mem_cons, List.not_mem_nil, or_false, or_self] at hcall
    rw [hcall]
    trivial
  refine ⟨s, t, hrun, hbusy, ?_, hrest, hnone, ?_⟩
  · exact ((feeds_leave_nothing sptsConfig s hrun).1 noStack _ (by simp [hbusy])).mpr
      (sampleFeeds_irqFree s _).2
  · exact ((feeds_leave_nothing sptsConfig t (hrun.trans hrest)).2 hnone).2.1

/-- The user queue of the recording has claimed the interrupt of the video queue
when the video feed asks for it: the feed fails, its queue stays busy and its feed
used, also when the recording has ended. -/
theorem feeds_leak :
    ∃ s, Runs (Feeds.step sptsConfig) (fun _ _ => True) Feeds.init s ∧
      (s.napi.startFeed sptsConfig noStack (videoFeed 0x100#16)).2.2 = some .ebusy ∧
      ¬ SameTables s.napi (s.napi.startFeed sptsConfig noStack (videoFeed 0x100#16)).1 ∧
      ∃ t, Runs (Feeds.step sptsConfig) (fun _ _ => True) s t ∧ t.started = [] ∧
        (t.napi.dmx.ucode.ucodeFeed 1).destQueue = some queueVideo := by
  let leftBehind (s : Feeds) : Option (Nat × Option Nat) :=
    (runList (Feeds.step sptsConfig) s [.start noStack (videoFeed 0x100#16), .stop 0]).map
      fun t => (t.started.length, (t.napi.dmx.ucode.ucodeFeed 1).destQueue)
  let fails (s : Feeds) : Bool :=
    let r := s.napi.startFeed sptsConfig noStack (videoFeed 0x100#16)
    r.2.2 = some .ebusy ∧ (s.napi.dmx.queueList queueVideo).busy = false ∧
      (r.1.dmx.queueList queueVideo).busy = true ∧ leftBehind s = some (0, some queueVideo)
  have hfirst : (runList (Feeds.step sptsConfig) Feeds.init
      [.start noStack (recordFeed 0x100#16)]).map fails = some true := by decide +kernel
  obtain ⟨s, hs, hres⟩ := Option.map_eq_some_iff.mp hfirst
  simp only [fails, decide_eq_true_eq] at hres
  obtain ⟨herr, hbefore, hafter, hthen⟩ := hres
  obtain ⟨t, ht, hend⟩ := Option.map_eq_some_iff.mp hthen
  simp only [Prod.mk.injEq] at hend
  refine ⟨s, Runs.ofList (fun _ _ _ => trivial) hs, herr, ?_, t,
    Runs.ofList (fun _ _ _ => trivial) ht, List.length_eq_zero_iff.mp hend.1, hend.2⟩
  rintro ⟨hbusy, -⟩
  rw [hbusy queueVideo, hbefore] at hafter
  cases hafter

end Tuxbox.Avia
