import Tuxbox.Avia.FeedRelease

/-!
# One active feed per pid

The microcode cannot handle two active feeds of one pid, so that only one of the
entries of a pid in the search table may be valid. Who has it is decided at the
start and the stop of every feed of the pid, and only the first user queue in ts
mode is told when a decoder feed comes or goes.

* `startedOn_valid`, `stopped_valid`: the valid entries after a call;
-/

namespace Tuxbox.Avia

/-- The entry is valid and carries the pid. -/
def Napi.Active (s : Napi) (p : U16) (i : Fin 32) : Prop :=
  (s.dmx.ucode.pidSearchTable i).invalid = false ∧
  (s.dmx.ucode.pidSearchTable i).pid.setWidth 16 = p

instance (s : Napi) (p : U16) (i : Fin 32) : Decidable (s.Active p i) :=
  inferInstanceAs (Decidable (_ ∧ _))

/-- The feed is one of the pid. -/
def Napi.FeedOf (s : Napi) (p : U16) (i : Fin 32) : Prop :=
  ∃ n, (s.dmx.ucode.ucodeFeed i).destQueue = some n ∧ (s.dmx.queueList n).pid = p

/-- The pids in use are real ones. -/
def Napi.SmallPids (s : Napi) : Prop :=
  ∀ n, (s.dmx.queueList n).busy = true → (s.dmx.queueList n).pid.toNat < 0x2000

/-- A real pid has no bits from the tap bit on. -/
theorem small_bits {p : U16} (h : p.toNat < 0x2000) {i : Nat} (hi : 13 ≤ i) :
    p.getLsbD i = false := by
  have hpow : (2 : Nat) ^ 13 ≤ 2 ^ i := Nat.pow_le_pow_right (by decide) hi
  exact Nat.testBit_lt_two_pow (by omega)

theorem tapPid_getLsbD : ∀ i < 16, tapPid.getLsbD i = decide (i = 13) := by decide

theorem small_masked {p : U16} (h : p.toNat < 0x2000) : p &&& tapPid = 0#16 ∧
    ((p &&& ~~~tapPid).setWidth 13).setWidth 16 = p ∧ p ≠ 0xFFFF#16 ∧ tapPid ≠ p := by
  refine ⟨?_, ?_, ?_, ?_⟩
  · apply BitVec.eq_of_getLsbD_eq
    intro i hi
    rw [BitVec.getLsbD_and, tapPid_getLsbD i hi]
    by_cases h13 : i = 13
    · rw [h13, small_bits h (Nat.le_refl 13)]
      rfl
    · simp [h13]
  · apply BitVec.eq_of_getLsbD_eq
    intro i hi
    by_cases h13 : i < 13
    · have hne : i ≠ 13 := by omega
      rw [BitVec.getLsbD_setWidth, BitVec.getLsbD_setWidth, BitVec.getLsbD_and,
        BitVec.getLsbD_not, tapPid_getLsbD i hi]
      simp only [hi, h13, hne, decide_true, decide_false, Bool.not_false, Bool.true_and,
        Bool.and_true]
    · rw [small_bits h (show 13 ≤ i by omega), BitVec.getLsbD_setWidth, BitVec.getLsbD_setWidth]
      simp only [h13, decide_false, Bool.false_and, Bool.and_false]
  · rintro rfl
    exact absurd h (by decide)
  · rintro rfl
    exact absurd h (by decide)

section
variable {c : NapiConfig} {s t : Napi} {p pid : U16} {i : Fin 32} {m n : Nat}

/-- A valid entry is one of its pid's feeds. -/
theorem Wired.feedOf_active (h : Wired s) (hsmall : s.SmallPids) (ha : s.Active p i) :
    s.FeedOf p i := by
  obtain ⟨n, hn, hp⟩ := h.entry i ha.1
  refine ⟨n, hn, ?_⟩
  have hpid := (small_masked (hsmall n (h.bound i n hn).2)).2.1
  rw [← hpid, ← hp]
  exact ha.2

theorem tapQueue_some (h : s.tapQueue pid = some m) :
    s.tsPid m = pid ∧ queueUserStart ≤ m ∧ m < queueCount := by
  have hfound := List.find?_some h
  have hmem := List.mem_of_find?_eq_some h
  simp only [decide_eq_true_eq] at hfound
  simp only [List.mem_range'_1, queueUserStart, queueCount] at hmem ⊢
  exact ⟨hfound, hmem.1, by omega⟩

/-- The queue that is told has a feed of the pid, and knows it. -/
theorem Wired.tapQueue (h : Wired s) (hp : pid ≠ 0xFFFF#16) (hm : s.tapQueue pid = some m) :
    (s.dmx.queueList m).busy = true ∧ (s.dmx.queueList m).pid = pid ∧
    ∃ j, (s.dmx.queueList m).feedIdx = some j ∧
      (s.dmx.ucode.ucodeFeed j).destQueue = some m := by
  have hts := (tapQueue_some hm).1
  rcases h.tsPid m with hnone | ⟨hb, hpid, hfeed⟩
  · exact absurd (hts.symm.trans hnone) hp
  · exact ⟨hb, hpid.symm.trans hts, hfeed⟩

/-- The feed of the queue that is told. -/
def Napi.TapFeed (s : Napi) (pid : U16) (i : Fin 32) : Prop :=
  ∃ m, s.tapQueue pid = some m ∧ (s.dmx.ucode.ucodeFeed i).destQueue = some m

/-- Where a decoder feed of the pid comes, its tap is not active any more. -/
theorem handOver_stop (h : Wired s) (hp : pid ≠ 0xFFFF#16) :
    (s.handOver c pid false).Active p i ↔ s.Active p i ∧ ¬ s.TapFeed pid i := by
  unfold Napi.handOver
  cases hm : s.tapQueue pid with
  | none => simp [Napi.TapFeed, hm]
  | some m =>
    obtain ⟨-, -, j, hidx, hj⟩ := h.tapQueue hp hm
    have hused : (s.dmx.ucode.ucodeFeed j).destQueue ≠ none := by simp [hj]
    have htap : s.TapFeed pid i ↔ i = j := by
      simp only [Napi.TapFeed, hm, Option.some.injEq, exists_eq_left']
      exact ⟨fun hi => h.unique i j m hi hj, fun hij => hij ▸ hj⟩
    rw [htap]
    simp only [Dmx.tap, hidx, Bool.false_eq_true, if_false, Ucode.stopFeed_keep hused,
      Napi.Active, Ucode.setPidTable]
    by_cases hij : i = j
    · simp [hij]
    · simp [hij]

theorem handOver_start (h : Wired s) (hsmall : s.SmallPids) (hp : pid ≠ 0xFFFF#16) :
    (s.handOver c pid true).Active p i ↔ s.Active p i ∨ (p = pid ∧ s.TapFeed pid i) := by
  unfold Napi.handOver
  cases hm : s.tapQueue pid with
  | none => simp [Napi.TapFeed, hm]
  | some m =>
    obtain ⟨hb, hpid, j, hidx, hj⟩ := h.tapQueue hp hm
    have htap : s.TapFeed pid i ↔ i = j := by
      simp only [Napi.TapFeed, hm, Option.some.injEq, exists_eq_left']
      exact ⟨fun hi => h.unique i j m hi hj, fun hij => hij ▸ hj⟩
    have htab : (s.dmx.ucode.startFeed c.info j true).pidSearchTable = _ :=
      Ucode.startFeed_pidSearchTable hj
    rw [htap]
    simp only [Dmx.tap, hidx, if_true, Napi.Active, htab, true_or]
    by_cases hij : i = j
    · subst hij
      simp only [Function.update_self, and_true, true_and]
      have hpidi : (((s.dmx.ucode.ucodeFeed i).pid &&& ~~~tapPid).setWidth 13).setWidth 16 = pid := by
        rw [and_not_tapPid (h.feedPid i m hj), hpid]
        exact (small_masked (hpid ▸ hsmall m hb)).2.1
      rw [hpidi]
      constructor
      · exact fun hp' => .inr hp'.symm
      · rintro (⟨hvalid, hold⟩ | hp')
        · obtain ⟨n, hn, hq⟩ := h.feedOf_active hsmall ⟨hvalid, hold⟩
          rw [hj] at hn
          cases hn
          rw [← hpid, hq]
        · exact hp'.symm
    · simp [hij]

/-! ## The valid entries after a call -/

/-- `ts_pid` when the queue of a feed has been marked. -/
def Napi.tsPidWith (s : Napi) (mark : Bool) (n : Nat) (pid : U16) : Napi :=
  { s with tsPid := if mark then Function.update s.tsPid n pid else s.tsPid }

variable {feed : DvbDemuxFeed} {k : Fin 32} {own : Bool} {mode : FeedMode}

/-- After a start the new feed is active if it has an entry of its own, the others
are as before, and a decoder feed has stopped the feed of the queue that is told. -/
theorem startedOn_active (h : Wired s) (hpid : feed.pid.toNat < 0x2000)
    (hon : StartedOn c s t feed n k own mode) :
    t.Active p i ↔
      ((i = k ∧ own = true ∧ p = feed.pid) ∨ (i ≠ k ∧ s.Active p i)) ∧
      ¬ (feed.isDecoder = true ∧ ∃ m, (s.tsPidWith (feed.marksTs c) n feed.pid).tapQueue feed.pid =
        some m ∧ (i = k ∧ m = n ∨ i ≠ k ∧ (s.dmx.ucode.ucodeFeed i).destQueue = some m)) := by
  obtain ⟨t₀, hopen, -, hsame⟩ := hon.opened
  obtain ⟨htap, hmask, hne, -⟩ := small_masked hpid
  have hnew : t₀.Active p i ↔ (i = k ∧ own = true ∧ p = feed.pid) ∨ (i ≠ k ∧ s.Active p i) := by
    by_cases hik : i = k
    · subst hik
      simp only [Napi.Active, hopen.valid, htap, and_true, true_and, ne_eq, not_true_eq_false,
        false_and, or_false]
      constructor
      · rintro ⟨hown, hp⟩
        have hentry := hopen.entry (hopen.valid.mpr ⟨hown, htap⟩)
        rw [hentry, hmask] at hp
        exact ⟨hown, hp.symm⟩
      · rintro ⟨hown, rfl⟩
        have hentry := hopen.entry (hopen.valid.mpr ⟨hown, htap⟩)
        exact ⟨hown, by rw [hentry, hmask]⟩
    · simp [hik, Napi.Active, hopen.table i hik]
  have htapFeed : t₀.TapFeed feed.pid i ↔
      ∃ m, (s.tsPidWith (feed.marksTs c) n feed.pid).tapQueue feed.pid = some m ∧
        (i = k ∧ m = n ∨ i ≠ k ∧ (s.dmx.ucode.ucodeFeed i).destQueue = some m) := by
    have hq : t₀.tapQueue feed.pid =
        (s.tsPidWith (feed.marksTs c) n feed.pid).tapQueue feed.pid := by
      unfold Napi.tapQueue
      rw [hopen.tsPid]
      rfl
    simp only [Napi.TapFeed, hq]
    refine exists_congr fun m => and_congr_right fun _ => ?_
    by_cases hik : i = k
    · subst hik
      rw [hopen.feed_new.1]
      simp [eq_comm]
    · simp [hik, hopen.feed_other hik]
  have hlast : t.Active p i ↔
      (if feed.isDecoder then t₀.handOver c feed.pid false else t₀).Active p i := by
    simp only [Napi.Active, hsame.ucode]
  rw [hlast]
  split
  · rename_i hdec
    rw [handOver_stop (hopen.wired h) hne, hnew, htapFeed]
    simp [hdec]
  · rename_i hdec
    rw [hnew]
    simp [hdec]

/-- After a stop the feed of the queue has no entry, and a decoder feed has
started the feed of the queue that is told. -/
theorem stopped_active (h : Wired s) (hsmall : s.SmallPids) (hpid : feed.pid ≠ 0xFFFF#16)
    (hclosed : Closed (if feed.isDecoder then s.handOver c feed.pid true else s) t n k) :
    t.Active p i ↔ i ≠ k ∧
      (s.Active p i ∨ (feed.isDecoder = true ∧ p = feed.pid ∧ s.TapFeed feed.pid i)) := by
  have hbefore : (if feed.isDecoder then s.handOver c feed.pid true else s).Active p i ↔
      s.Active p i ∨ (feed.isDecoder = true ∧ p = feed.pid ∧ s.TapFeed feed.pid i) := by
    split
    · rename_i hdec
      rw [handOver_start h hsmall hpid]
      simp [hdec]
    · rename_i hdec
      simp [hdec]
  rw [← hbefore]
  by_cases hik : i = k
  · subst hik
    simp [Napi.Active, hclosed.invalid]
  · simp [hik, Napi.Active, hclosed.table i hik]

/-! ## One active feed -/

/-- Every pid has at most one active feed, and one if a queue is busy with it. -/
structure OneActive (s : Napi) : Prop where
  small : s.SmallPids
  most : ∀ p i j, s.Active p i → s.Active p j → i = j
  least : ∀ n ≤ 30, (s.dmx.queueList n).busy = true → ∃ i, s.Active (s.dmx.queueList n).pid i

/-- Feeds whose start leaves one active feed: the first of its pid, unless it is
told to stop itself; a tap, unless the active feed is told to stop; a decoder
feed, or the first feed besides taps, that has the active feed stopped. -/
def Napi.StartsWell (c : NapiConfig) (s : Napi) (feed : DvbDemuxFeed) : Prop :=
  ∀ e n, s.dmx.queueAlloc feed = some (e, n) → feed.pid.toNat < 0x2000 ∧
    let told := (s.tsPidWith (feed.marksTs c) n feed.pid).tapQueue feed.pid
    (((∀ i, ¬ s.FeedOf feed.pid i) ∧
        ¬ (feed.isDecoder = true ∧ feed.marksTs c = true ∧ queueUserStart ≤ n)) ∨
      (queueUserStart ≤ n ∧
        (∃ i, (s.dmx.ucode.ucodeFeed i).destQueue ≠ none ∧
          (s.dmx.ucode.ucodeFeed i).pid = feed.pid) ∧
        (feed.isDecoder = true → ∀ m i, told = some m →
          (s.dmx.ucode.ucodeFeed i).destQueue = some m → ¬ s.Active feed.pid i)) ∨
      (feed.isDecoder = true ∧
        (n < queueUserStart ∨ ∀ i, (s.dmx.ucode.ucodeFeed i).destQueue ≠ none →
          (s.dmx.ucode.ucodeFeed i).pid ≠ feed.pid) ∧
        ∃ m i, told = some m ∧ (s.dmx.ucode.ucodeFeed i).destQueue = some m ∧
          s.Active feed.pid i))

/-- The first queue that is told when a feed is started, if not its own, has a
feed of the pid. -/
theorem told_other (h : Wired s) (hp : pid ≠ 0xFFFF#16) {mark : Bool} (hmn : m ≠ n)
    (hm : (s.tsPidWith mark n pid).tapQueue pid = some m) :
    ∃ i, (s.dmx.ucode.ucodeFeed i).destQueue = some m ∧ (s.dmx.queueList m).pid = pid := by
  have hts : s.tsPid m = pid := by
    have hfound := (tapQueue_some hm).1
    simp only [Napi.tsPidWith] at hfound
    split at hfound
    · rwa [Function.update_of_ne hmn] at hfound
    · exact hfound
  rcases h.tsPid m with hnone | ⟨-, hpid, i, -, hi⟩
  · exact absurd (hts.symm.trans hnone) hp
  · exact ⟨i, hi, hpid.symm.trans hts⟩

/-- The pid of a feed that is no tap is the pid of its queue. -/
theorem feedOf_plain (h : Wired s)
    (hu : (s.dmx.ucode.ucodeFeed i).destQueue ≠ none) (hp : (s.dmx.ucode.ucodeFeed i).pid = pid)
    (hpid : pid.toNat < 0x2000) : s.FeedOf pid i := by
  obtain ⟨n, hn⟩ := Option.ne_none_iff_exists'.mp hu
  refine ⟨n, hn, ?_⟩
  rcases h.feedPid i n hn with hq | hq
  · rw [← hq, hp]
  · exfalso
    have htap := tap_and_tapPid (s.dmx.queueList n).pid
    rw [← hq, hp] at htap
    exact htap (small_masked hpid).1

/-- A pid in use has an active feed. -/
theorem OneActive.active (h : OneActive s) (hw : Wired s) (hf : s.FeedOf p i) :
    ∃ j, s.Active p j := by
  obtain ⟨n, hn, rfl⟩ := hf
  obtain ⟨hle, hb⟩ := hw.bound i n hn
  exact h.least n hle hb

/-- A start leaves the feeds of other pids alone. -/
theorem startedOn_other (h : Wired s) (hsmall : s.SmallPids) (hpid : feed.pid.toNat < 0x2000)
    (hon : StartedOn c s t feed n k own mode) (hp : p ≠ feed.pid) :
    t.Active p i ↔ s.Active p i := by
  obtain ⟨t₀, hopen, -, -⟩ := hon.opened
  rw [startedOn_active h hpid hon]
  constructor
  · rintro ⟨⟨-, -, hp'⟩ | ⟨-, ha⟩, -⟩
    · exact absurd hp' hp
    · exact ha
  · intro ha
    obtain ⟨q, hq, hqp⟩ := h.feedOf_active hsmall ha
    have hik : i ≠ k := by
      rintro rfl
      rw [hopen.unused] at hq
      cases hq
    refine ⟨.inr ⟨hik, ha⟩, ?_⟩
    rintro ⟨-, m, hm, ⟨hik', -⟩ | ⟨-, hi⟩⟩
    · exact hik hik'
    · rw [hq] at hi
      cases hi
      have hqn : q ≠ n := by
        rintro rfl
        have hb := (h.bound i q hq).2
        rw [hopen.free] at hb
        cases hb
      obtain ⟨j, -, hmp⟩ := told_other h (small_masked hpid).2.2.1 hqn hm
      exact hp (hqp.symm.trans hmp)

/-- After a good start the pid has one active feed. -/
theorem OneActive.start_pid (h : OneActive s) (hw : Wired s)
    (hon : StartedOn c s t feed n k own mode) (hwell : s.StartsWell c feed) :
    ∃ i₀, ∀ i, t.Active feed.pid i ↔ i = i₀ := by
  obtain ⟨e, halloc⟩ := hon.alloc
  obtain ⟨hpid, hcase⟩ := hwell e n halloc
  obtain ⟨t₀, hopen, -, -⟩ := hon.opened
  obtain ⟨-, -, hne, htapne⟩ := small_masked hpid
  have hactive : ∀ i, t.Active feed.pid i ↔ _ := fun i => startedOn_active hw hpid hon
  have hunused : ¬ s.Active feed.pid k := by
    intro ha
    obtain ⟨q, hq, -⟩ := hw.feedOf_active h.small ha
    rw [hopen.unused] at hq
    cases hq
  have hfresh : ∀ j, (s.dmx.ucode.ucodeFeed j).destQueue ≠ some n := by
    intro j hj
    have hb := (hw.bound j n hj).2
    rw [hopen.free] at hb
    cases hb
  rcases hcase with ⟨hnone, hself⟩ | ⟨huser, ⟨j, hju, hjp⟩, hkeep⟩ | ⟨hdec, hplain, m, j, hm, hj, ha⟩
  · -- the first feed of its pid
    refine ⟨k, ?_⟩
    have hown : own = true := by
      refine hopen.own_iff.mpr (.inr ⟨htapne, ?_⟩)
      intro j hj hjp
      exact hnone j (feedOf_plain hw hj hjp hpid)
    intro i
    rw [hactive]
    constructor
    · rintro ⟨⟨hik, -, -⟩ | ⟨-, ha⟩, -⟩
      · exact hik
      · exact absurd (hw.feedOf_active h.small ha) (hnone i)
    · rintro rfl
      refine ⟨.inl ⟨rfl, hown, rfl⟩, ?_⟩
      rintro ⟨hdec, m, hm, ⟨-, rfl⟩ | ⟨hik, -⟩⟩
      · -- the queue that is told is the feed's own only if it is marked
        obtain ⟨hts, huser, -⟩ := tapQueue_some hm
        cases hmark : feed.marksTs c with
        | true => exact hself ⟨hdec, hmark, huser⟩
        | false =>
          simp only [Napi.tsPidWith, hmark, Bool.false_eq_true, if_false] at hts
          rcases hw.tsPid m with hts' | ⟨hb, -⟩
          · exact hne (hts.symm.trans hts')
          · rw [hopen.free] at hb
            cases hb
      · exact hik rfl
  · -- a tap: the active feed stays
    obtain ⟨i₀, hi₀⟩ := h.active hw (feedOf_plain hw hju hjp hpid)
    have hown : own ≠ true := by
      intro hown
      rcases hopen.own_iff.mp hown with hsys | ⟨-, hall⟩
      · omega
      · exact hall j hju hjp
    refine ⟨i₀, ?_⟩
    intro i
    rw [hactive]
    constructor
    · rintro ⟨⟨-, hown', -⟩ | ⟨-, ha⟩, -⟩
      · exact absurd hown' hown
      · exact h.most _ i i₀ ha hi₀
    · rintro rfl
      have hik : i ≠ k := fun hik => hunused (hik ▸ hi₀)
      refine ⟨.inr ⟨hik, hi₀⟩, ?_⟩
      rintro ⟨hdec, m, hm, ⟨hik', -⟩ | ⟨-, hi⟩⟩
      · exact hik hik'
      · exact hkeep hdec m i hm hi hi₀
  · -- the active feed is stopped for the new one
    refine ⟨k, ?_⟩
    have hjk : j ≠ k := fun hjk => hunused (hjk ▸ ha)
    have hown : own = true := by
      rcases hplain with hsys | hall
      · exact hopen.own_iff.mpr (.inl hsys)
      · exact hopen.own_iff.mpr (.inr ⟨htapne, hall⟩)
    intro i
    rw [hactive]
    constructor
    · rintro ⟨⟨hik, -, -⟩ | ⟨-, hai⟩, hno⟩
      · exact hik
      · have hij := h.most _ i j hai ha
        exact absurd ⟨hdec, m, hm, .inr ⟨hij ▸ hjk, hij ▸ hj⟩⟩ hno
    · rintro rfl
      refine ⟨.inl ⟨rfl, hown, rfl⟩, ?_⟩
      rintro ⟨-, m', hm', ⟨-, rfl⟩ | ⟨hik, -⟩⟩
      · rw [hm] at hm'
        cases hm'
        exact hfresh j hj
      · exact hik rfl

theorem OneActive.start (h : OneActive s) (hw : Wired s) (hon : StartedOn c s t feed n k own mode)
    (hwell : s.StartsWell c feed) : OneActive t := by
  obtain ⟨e, halloc⟩ := hon.alloc
  have hpid := (hwell e n halloc).1
  obtain ⟨hle, hfree, hbusy, htpid, hother⟩ := Feeds.startedOn_queues hon
  obtain ⟨i₀, hi₀⟩ := h.start_pid hw hon hwell
  refine ⟨?_, ?_, ?_⟩
  · intro m hm
    by_cases hmn : m = n
    · rw [hmn, htpid]
      exact hpid
    · rw [(hother m hmn).1] at hm
      rw [(hother m hmn).2]
      exact h.small m hm
  · intro p i j hi hj
    by_cases hp : p = feed.pid
    · subst hp
      rw [(hi₀ i).mp hi, (hi₀ j).mp hj]
    · rw [startedOn_other hw h.small hpid hon hp] at hi hj
      exact h.most p i j hi hj
  · intro m hm hb
    by_cases hp : (t.dmx.queueList m).pid = feed.pid
    · rw [hp]
      exact ⟨i₀, (hi₀ i₀).mpr rfl⟩
    · have hmn : m ≠ n := fun hmn => hp (hmn ▸ htpid)
      rw [(hother m hmn).1] at hb
      obtain ⟨i, hi⟩ := h.least m hm hb
      rw [← (hother m hmn).2] at hi
      exact ⟨i, (startedOn_other hw h.small hpid hon hp).mpr hi⟩

/-- Feeds whose stop leaves one active feed: the only one of its pid; one that is
not active, unless another than the active feed is told to start; an active decoder
feed, if another feed than its own is told to start. -/
def Napi.StopsWell (s : Napi) (feed : DvbDemuxFeed) (n : Nat) : Prop :=
  (∀ i, s.FeedOf feed.pid i → (s.dmx.ucode.ucodeFeed i).destQueue = some n) ∨
  ((∀ i, (s.dmx.ucode.ucodeFeed i).destQueue = some n → ¬ s.Active feed.pid i) ∧
    (feed.isDecoder = true → ∀ m, s.tapQueue feed.pid = some m → m = n ∨
      ∀ i, (s.dmx.ucode.ucodeFeed i).destQueue = some m → s.Active feed.pid i)) ∨
  (feed.isDecoder = true ∧
    (∃ i, (s.dmx.ucode.ucodeFeed i).destQueue = some n ∧ s.Active feed.pid i) ∧
    ∃ m, m ≠ n ∧ s.tapQueue feed.pid = some m)

/-- After a good stop the pid has at most one active feed, and one if it is still
in use. -/
theorem OneActive.stop_pid (h : OneActive s) (hw : Wired s) (hne : feed.pid ≠ 0xFFFF#16)
    (hk : (s.dmx.ucode.ucodeFeed k).destQueue = some n)
    (hactive : ∀ i, t.Active feed.pid i ↔ i ≠ k ∧
      (s.Active feed.pid i ∨ (feed.isDecoder = true ∧ s.TapFeed feed.pid i)))
    (hwell : s.StopsWell feed n) :
    (∀ i j, t.Active feed.pid i → t.Active feed.pid j → i = j) ∧
    (∀ i, i ≠ k → s.FeedOf feed.pid i → ∃ j, t.Active feed.pid j) := by
  have hown : ∀ i, (s.dmx.ucode.ucodeFeed i).destQueue = some n → i = k :=
    fun i hi => hw.unique i k n hi hk
  have htapOf : ∀ i, s.TapFeed feed.pid i → s.FeedOf feed.pid i := by
    rintro i ⟨m, hm, hi⟩
    exact ⟨m, hi, (hw.tapQueue hne hm).2.1⟩
  have htapEq : ∀ i j, s.TapFeed feed.pid i → s.TapFeed feed.pid j → i = j := by
    rintro i j ⟨m, hm, hi⟩ ⟨m', hm', hj⟩
    rw [hm] at hm'
    cases hm'
    exact hw.unique i j m hi hj
  rcases hwell with honly | ⟨hinactive, htold⟩ | ⟨hdec, ⟨l, hl, hla⟩, m, hmn, hm⟩
  · -- no other feed of the pid
    constructor
    · intro i j hi _
      obtain ⟨hik, hi'⟩ := (hactive i).mp hi
      have hfeed : s.FeedOf feed.pid i := by
        rcases hi' with ha | ⟨-, htap⟩
        · exact hw.feedOf_active h.small ha
        · exact htapOf i htap
      exact absurd (hown i (honly i hfeed)) hik
    · intro i hik hfeed
      exact absurd (hown i (honly i hfeed)) hik
  · -- another feed is the active one
    have hsame : ∀ i, t.Active feed.pid i → s.Active feed.pid i := by
      intro i hi
      obtain ⟨hik, ha | ⟨hdec, m, hm, him⟩⟩ := (hactive i).mp hi
      · exact ha
      · rcases htold hdec m hm with rfl | hall
        · exact absurd (hown i him) hik
        · exact hall i him
    constructor
    · exact fun i j hi hj => h.most _ i j (hsame i hi) (hsame j hj)
    · intro i hik hfeed
      obtain ⟨j, hj⟩ := h.active hw hfeed
      have hjk : j ≠ k := by
        rintro rfl
        exact hinactive j hk hj
      exact ⟨j, (hactive j).mpr ⟨hjk, .inl hj⟩⟩
  · -- the feed that is told takes over
    have hlk := hown l hl
    have htap : ∀ i, t.Active feed.pid i → s.TapFeed feed.pid i := by
      intro i hi
      obtain ⟨hik, ha | ⟨-, htap⟩⟩ := (hactive i).mp hi
      · exact absurd ((h.most _ i l ha hla).trans hlk) hik
      · exact htap
    constructor
    · exact fun i j hi hj => htapEq i j (htap i hi) (htap j hj)
    · intro _ _ _
      obtain ⟨-, -, j, -, hj⟩ := hw.tapQueue hne hm
      have hjk : j ≠ k := by
        rintro rfl
        rw [hk] at hj
        exact hmn (Option.some.inj hj).symm
      exact ⟨j, (hactive j).mpr ⟨hjk, .inr ⟨hdec, m, hm, hj⟩⟩⟩

theorem OneActive.stop (h : OneActive s) (hw : Wired s)
    (hclosed : Closed (if feed.isDecoder then s.handOver c feed.pid true else s) t n k)
    (hfeed : (if feed.isDecoder then s.handOver c feed.pid true
      else s).dmx.ucode.ucodeFeed = s.dmx.ucode.ucodeFeed)
    (hpid : (s.dmx.queueList n).pid = feed.pid) (hwell : s.StopsWell feed n) : OneActive t := by
  have hk : (s.dmx.ucode.ucodeFeed k).destQueue = some n := by
    rw [← hfeed]
    exact hclosed.feed
  have hsmall := h.small n (hw.bound k n hk).2
  rw [hpid] at hsmall
  obtain ⟨-, -, hne, -⟩ := small_masked hsmall
  have hothers : ∀ m, m ≠ n → DmxQueue.Same (s.dmx.queueList m) (t.dmx.queueList m) := by
    intro m hm
    have hother := hclosed.others m hm
    split at hother
    · rwa [handOver_queueList] at hother
    · exact hother
  have hbusy : ∀ m, (t.dmx.queueList m).busy = true → m ≠ n ∧ (s.dmx.queueList m).busy = true := by
    intro m hb
    have hmn : m ≠ n := by
      rintro rfl
      rw [hclosed.free] at hb
      cases hb
    exact ⟨hmn, (hothers m hmn).busy ▸ hb⟩
  have hactive : ∀ p i, t.Active p i ↔ i ≠ k ∧
      (s.Active p i ∨ (feed.isDecoder = true ∧ p = feed.pid ∧ s.TapFeed feed.pid i)) :=
    fun p i => stopped_active hw h.small hne hclosed
  obtain ⟨hmost, hleast⟩ := h.stop_pid (t := t) hw hne hk
    (fun i => by rw [hactive]; simp) hwell
  have hother : ∀ p i, p ≠ feed.pid → (t.Active p i ↔ s.Active p i) := by
    intro p i hp
    rw [hactive]
    constructor
    · rintro ⟨-, ha | ⟨-, hp', -⟩⟩
      · exact ha
      · exact absurd hp' hp
    · intro ha
      refine ⟨?_, .inl ha⟩
      rintro rfl
      obtain ⟨m, hm, hmp⟩ := hw.feedOf_active h.small ha
      rw [hk] at hm
      cases hm
      exact hp (hmp.symm.trans hpid)
  refine ⟨?_, ?_, ?_⟩
  · intro m hb
    obtain ⟨hmn, hb'⟩ := hbusy m hb
    rw [(hothers m hmn).pid]
    exact h.small m hb'
  · intro p i j hi hj
    by_cases hp : p = feed.pid
    · subst hp
      exact hmost i j hi hj
    · exact h.most p i j ((hother p i hp).mp hi) ((hother p j hp).mp hj)
  · intro m hm hb
    obtain ⟨hmn, hb'⟩ := hbusy m hb
    by_cases hp : (t.dmx.queueList m).pid = feed.pid
    · rw [hp]
      obtain ⟨i, hi⟩ := hw.served m hm hb'
      have hik : i ≠ k := by
        rintro rfl
        rw [hk] at hi
        exact hmn (Option.some.inj hi).symm
      refine hleast i hik ⟨m, hi, ?_⟩
      rw [← (hothers m hmn).pid, hp]
    · obtain ⟨i, hi⟩ := h.least m hm hb'
      rw [← (hothers m hmn).pid] at hi
      exact ⟨i, (hother _ i hp).mpr hi⟩

end

/-! ## Runs -/

namespace Feeds

/-- Calls that leave one active feed for every pid in use. -/
def PidOk (c : NapiConfig) (s : Feeds) : FeedCall → Prop
  | .start stack feed => s.IrqFree c (.start stack feed) ∧
    (¬ c.withoutQueue (c.prepare feed) → s.napi.StartsWell c (c.prepare feed))
  | .stop i => ∀ feed n, s.started[i]? = some feed → c.queueOf feed = some n →
    s.napi.StopsWell feed n

variable {c : NapiConfig} {s t : Feeds}

theorem PidOk.irqFree {call : FeedCall} (h : s.PidOk c call) : s.IrqFree c call := by
  cases call with
  | start stack feed => exact h.1
  | stop i => trivial

theorem OneActive.unchanged {s t : Napi} (h : OneActive s) (hun : Unchanged s t) : OneActive t := by
  have hactive : ∀ p i, t.Active p i ↔ s.Active p i := by
    intro p i
    simp only [Napi.Active, hun.pidSearchTable]
  refine ⟨?_, ?_, ?_⟩
  · intro n
    rw [hun.queueList]
    exact h.small n
  · intro p i j hi hj
    exact h.most p i j ((hactive p i).mp hi) ((hactive p j).mp hj)
  · intro n hn
    rw [hun.queueList]
    intro hb
    obtain ⟨i, hi⟩ := h.least n hn hb
    exact ⟨i, (hactive _ i).mpr hi⟩

theorem step_oneActive (ho : Owned c s) (h : OneActive s.napi) {call : FeedCall}
    (hok : s.PidOk c call) (ht : s.step c call = some t) : OneActive t.napi := by
  cases call with
  | start stack feed =>
    obtain ⟨hnapi, -⟩ := step_start ht
    rw [hnapi]
    rcases ho.wired.startFeed stack feed with ⟨err, -, hun, -⟩ | ⟨-, -, hr⟩ | ⟨hq, -, hbeg⟩
    · exact OneActive.unchanged h hun
    · rw [hr]
      exact h
    · obtain ⟨n, k, own, mode, hon, -, -⟩ := hbeg
      exact h.start ho.wired hon (hok.2 hq)
  | stop i =>
    obtain ⟨feed, r, hi, hr, hnapi, -⟩ := step_stop ht
    have hmem := List.mem_of_getElem? hi
    rw [hnapi]
    rcases ho.stopFeed hmem hr with ⟨-, hsame⟩ | ⟨n, k, hq, hclosed, -⟩
    · rw [hsame]
      exact h
    · refine h.stop ho.wired hclosed ?_ (ho.pids feed hmem n hq) (hok feed n hi hq)
      split
      · exact (ho.wired.handOver feed.pid true).1.ucodeFeed
      · rfl

end Feeds

/-- While all starts and stops are of the kinds that keep it so, at most one valid
entry carries a pid, and one does for every pid of a started feed with a queue. -/
theorem one_active_feed (c : NapiConfig) (s : Feeds)
    (h : Runs (Feeds.step c) (Feeds.PidOk c) Feeds.init s) (p : U16) :
    (∀ i j, s.napi.Active p i → s.napi.Active p j → i = j) ∧
    ((∃ feed ∈ s.started, c.queueOf feed ≠ none ∧ feed.pid = p) → ∃ i, s.napi.Active p i) := by
  have hinv : s.Owned c ∧ OneActive s.napi := by
    refine h.invariant (I := fun s => s.Owned c ∧ OneActive s.napi) ?_
      ⟨Feeds.Owned.init c, ?_, ?_, ?_⟩
    · intro a call b ⟨ho, ha⟩ hok ht
      exact ⟨ho.step hok.irqFree ht, Feeds.step_oneActive ho ha hok ht⟩
    · intro n hb
      cases hb
    · intro p i j hi
      cases hi.1
    · intro n _ hb
      cases hb
  obtain ⟨ho, ha⟩ := hinv
  refine ⟨fun i j => ha.most p i j, ?_⟩
  rintro ⟨feed, hmem, hq, rfl⟩
  obtain ⟨n, hn⟩ := Option.ne_none_iff_exists'.mp hq
  have hown : n ∈ s.owners c := List.mem_filterMap.mpr ⟨feed, hmem, hn⟩
  have hle := ho.bound n hown
  rw [← ho.pids feed hmem n hn]
  exact ha.least n hle ((ho.busy n hle).mpr hown)

/-- The decoder takes the pid over from a recording and gives it back. -/
theorem one_active_feed_recording :
    ∃ s, Runs (Feeds.step sptsConfig) (Feeds.PidOk sptsConfig) Feeds.init s ∧
      s.started.length = 1 ∧ ∃ i, s.napi.Active 0x100#16 i := by
  let recorded (s : Feeds) : Bool :=
    s.started.all (fun f => f.pid = 0x100#16 ∧ sptsConfig.queueOf f ≠ none) ∧ s.started.length = 1
  let takenOver (s : Feeds) : Bool :=
    (s.started[1]?).map (fun f => (f.isDecoder, f.pid, sptsConfig.queueOf f)) =
        some (true, 0x100#16, some queueVideo) ∧
      (s.napi.dmx.ucode.ucodeFeed 1).destQueue = some queueVideo ∧ s.napi.Active 0x100#16 1 ∧
      s.napi.tapQueue 0x100#16 = some 3 ∧
      (Feeds.step sptsConfig s (.stop 1)).map recorded = some true
  let recording (s : Feeds) : Bool :=
    (s.napi.dmx.queueAlloc (decodeFeed 0x100#16)).map (·.2) = some queueVideo ∧
      (s.napi.tsPidWith true queueVideo 0x100#16).tapQueue 0x100#16 = some 3 ∧
      (s.napi.dmx.ucode.ucodeFeed 0).destQueue = some 3 ∧ s.napi.Active 0x100#16 0 ∧
      (Feeds.step sptsConfig s (.start noStack (decodeFeed 0x100#16))).map takenOver = some true
  have hlist : (Feeds.step sptsConfig Feeds.init (.start noStack (recordFeed 0x100#16))).map
      recording = some true := by decide +kernel
  obtain ⟨s₁, hs₁, hres₁⟩ := Option.map_eq_some_iff.mp hlist
  simp only [recording, decide_eq_true_eq] at hres₁
  obtain ⟨halloc, htold, hdest, hactive, hnext⟩ := hres₁
  obtain ⟨s₂, hs₂, hres₂⟩ := Option.map_eq_some_iff.mp hnext
  simp only [takenOver, decide_eq_true_eq] at hres₂
  obtain ⟨hvideo, hdest₂, hactive₂, htap₂, hlast⟩ := hres₂
  obtain ⟨s, hs, hres⟩ := Option.map_eq_some_iff.mp hlast
  simp only [recorded, decide_eq_true_eq, List.all_eq_true] at hres
  obtain ⟨hall, hlen⟩ := hres
  have hfirst : Feeds.init.PidOk sptsConfig (.start noStack (recordFeed 0x100#16)) := by
    refine ⟨(sampleFeeds_irqFree _ _).1, ?_⟩
    intro _ e n _
    have hdec : (sptsConfig.prepare (recordFeed 0x100#16)).isDecoder = false := by decide
    refine ⟨by decide, .inl ⟨?_, by simp [hdec]⟩⟩
    rintro i ⟨m, hm, -⟩
    cases hm
  have hsecond : s₁.PidOk sptsConfig (.start noStack (decodeFeed 0x100#16)) := by
    refine ⟨(sampleFeeds_irqFree _ _).2, ?_⟩
    intro _ e n halloc'
    have hprep : sptsConfig.prepare (decodeFeed 0x100#16) = decodeFeed 0x100#16 := rfl
    rw [hprep] at halloc' ⊢
    obtain rfl : n = queueVideo := by simpa [halloc'] using halloc
    exact ⟨by decide, .inr (.inr ⟨by decide, .inl (by decide), 3, 0, htold, hdest, hactive⟩)⟩
  have hthird : s₂.PidOk sptsConfig (.stop 1) := by
    intro feed n hfeed hn
    simp only [hfeed, hn, Option.map_some, Option.some.injEq, Prod.mk.injEq] at hvideo
    obtain ⟨hdec, hpid, rfl⟩ := hvideo
    rw [← hpid] at hactive₂ htap₂
    exact .inr (.inr ⟨hdec, ⟨1, hdest₂, hactive₂⟩, 3, by decide, htap₂⟩)
  have hrun : Runs (Feeds.step sptsConfig) (Feeds.PidOk sptsConfig) Feeds.init s :=
    ((Runs.refl.tail _ hfirst hs₁).tail _ hsecond hs₂).tail _ hthird hs
  obtain ⟨feed, hfeed⟩ := List.length_eq_one_iff.mp hlen
  have hmem : feed ∈ s.started := by simp [hfeed]
  have hone := (one_active_feed sptsConfig s hrun 0x100#16).2
  exact ⟨s, hrun, hlen, hone ⟨feed, hmem, (hall feed hmem).2, (hall feed hmem).1⟩⟩

/-- The feed that recorded first had the entry; the second stays without when the
first is stopped. -/
theorem second_recording_lost :
    ∃ s, Runs (Feeds.step sptsConfig) (fun _ _ => True) Feeds.init s ∧
      (∃ feed ∈ s.started, sptsConfig.queueOf feed ≠ none ∧ feed.pid = 0x100#16) ∧
      ¬ ∃ i, s.napi.Active 0x100#16 i := by
  let lost (s : Feeds) : Bool :=
    s.started.any (fun f => sptsConfig.queueOf f ≠ none ∧ f.pid = 0x100#16) ∧
      ¬ ∃ i, s.napi.Active 0x100#16 i
  have hlist : (runList (Feeds.step sptsConfig) Feeds.init
      [.start noStack (recordFeed 0x100#16), .start noStack (recordFeed 0x100#16),
        .stop 0]).map lost = some true := by decide +kernel
  obtain ⟨s, hs, hres⟩ := Option.map_eq_some_iff.mp hlist
  simp only [lost, decide_eq_true_eq, List.any_eq_true] at hres
  exact ⟨s, Runs.ofList (fun _ _ _ => trivial) hs, hres.1, hres.2⟩

end Tuxbox.Avia
