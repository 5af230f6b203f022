import Tuxbox.Avia.Queue
import Tuxbox.Avia.SectionMap

/-!
# Starting and stopping feeds

`avia_gt_napi.c` between the demux API and the queues: `start_feed` takes a
section filter, a queue and a feed of the microcode, `stop_feed` gives them back.
What is said to the decoders is left out.
-/

namespace Tuxbox.Avia

/-- `DMX_TYPE_TS`, `DMX_TYPE_SEC`, `DMX_TYPE_PES`, and what is none of these. -/
inductive DmxType
  | ts
  | sec
  | pes
  | unknown
deriving DecidableEq

/-- `dmx_ts_pes_t`; `further` are the types of the other three decoders. -/
inductive DmxTsPes
  | audio
  | video
  | teletext
  | subtitle
  | pcr
  | further (n : Fin 15)
  | other
deriving DecidableEq

/-- `TS_PACKET`, `TS_PAYLOAD_ONLY` and `TS_DECODER` of `ts_type`. -/
structure TsType where
  packet : Bool
  payloadOnly : Bool
  decoder : Bool
deriving DecidableEq

/-- What the driver uses of `struct dvb_demux_feed`. -/
structure DvbDemuxFeed where
  type : DmxType
  tsType : TsType
  pesType : DmxTsPes
  pid : U16
  filter : List DmxSectionFilter
  /-- The queue that `priv` points to. -/
  priv : Option Nat

/-- `DMX_MEMORY_FE` and all others. -/
inductive FrontendSource
  | memory
  | hardware
deriving DecidableEq

/-- What does not change while feeds are started and stopped: the frontend, the
module parameter `mode` (dual pes or spts) and the microcode's abilities. -/
structure NapiConfig where
  frontend : Option FrontendSource
  dualPes : Bool
  info : UcodeInfo

structure Napi where
  dmx : Dmx
  tsPid : Nat → U16

def Napi.init : Napi := ⟨Dmx.init, fun _ => 0xFFFF#16⟩

/-- The decoder feed of the pcr pid needs no queue unless its packets are wanted. -/
def DvbDemuxFeed.pcrOnly (feed : DvbDemuxFeed) : Bool :=
  feed.pesType = .pcr ∧ feed.tsType.decoder ∧ ¬ feed.tsType.packet

/-- `avia_gt_napi_is_clipmode_feed` -/
def DvbDemuxFeed.isClipmodeFeed (feed : DvbDemuxFeed) : Bool :=
  (feed.pesType = .audio ∨ feed.pesType = .video ∨ feed.pesType = .teletext) ∧
    feed.tsType.decoder ∧ feed.type ≠ .sec

/-- A feed for the decoder. -/
def DvbDemuxFeed.isDecoder (feed : DvbDemuxFeed) : Bool := feed.type ≠ .sec ∧ feed.tsType.decoder

/-- `avia_gt_napi_queue_alloc` -/
def Dmx.queueAlloc (d : Dmx) (feed : DvbDemuxFeed) : Option (Dmx × Nat) :=
  match feed.type with
  | .sec => d.allocQueueUser
  | .ts =>
    match feed.pesType with
    | .video => d.allocQueue queueVideo
    | .audio => d.allocQueue queueAudio
    | .teletext => d.allocQueue queueTeletext
    | .pcr | .subtitle | .other => d.allocQueueUser
    | .further _ => none
  | _ => none

namespace Napi

/-- The three ways to start a feed without section filter: the queue, the feed,
and in `ts_pid` if asked for. -/
def startQueue (c : NapiConfig) (s : Napi) (feed : DvbDemuxFeed) (type : FeedMode) (mark : Bool) :
    Napi × DvbDemuxFeed × Option Errno :=
  match s.dmx.queueAlloc feed with
  | none => (s, feed, some .ebusy)
  | some (d, n) =>
    let alloc := d.ucode.allocFeed c.info n type feed.pid
    let d : Dmx :=
      Dmx.setQueue { d with ucode := alloc.1 } n { d.queueList n with feedIdx := alloc.2 }
    match alloc.2 with
    | none => ({ s with dmx := (d.freeQueue n).1 }, feed, some .ebusy)
    | some _ =>
      let tsPid := if mark then Function.update s.tsPid n feed.pid else s.tsPid
      (⟨d.queueStart c.info n type feed.pid, tsPid⟩, { feed with priv := some n }, none)

/-- `avia_gt_napi_start_feed_generic` -/
def startFeedGeneric (c : NapiConfig) (s : Napi) (feed : DvbDemuxFeed) :
    Napi × DvbDemuxFeed × Option Errno :=
  s.startQueue c feed .ts false

/-- `avia_gt_napi_start_feed_ts` -/
def startFeedTs (c : NapiConfig) (s : Napi) (feed : DvbDemuxFeed) :
    Napi × DvbDemuxFeed × Option Errno :=
  if ¬ c.info.capTs then s.startFeedGeneric c feed else s.startQueue c feed .ts true

/-- The pid is active in ts mode. -/
def TsActive (s : Napi) (pid : U16) : Prop := ∃ i < queueCount, s.tsPid i = pid

instance (s : Napi) (pid : U16) : Decidable (s.TsActive pid) :=
  inferInstanceAs (Decidable (∃ i < queueCount, s.tsPid i = pid))

/-- `avia_gt_napi_start_feed_pes` -/
def startFeedPes (c : NapiConfig) (s : Napi) (feed : DvbDemuxFeed) :
    Napi × DvbDemuxFeed × Option Errno :=
  if ¬ c.info.capPes then s.startFeedGeneric c feed
  -- software ts to pes demux
  else if s.TsActive feed.pid then s.startFeedGeneric c feed
  else s.startQueue c feed .pes false

/-- `avia_gt_napi_start_feed_section`; `stack` is what the local arrays of
`prop_ucode_alloc_section_filter` hold on entry. The feed's index is not kept in
the queue. -/
def startFeedSection (c : NapiConfig) (stack : Stack) (s : Napi) (feed : DvbDemuxFeed) :
    Napi × DvbDemuxFeed × Option Errno :=
  if ¬ c.info.capSec then s.startFeedGeneric c feed
  else
    match s.dmx.ucode.tables.allocSectionFilter stack feed.filter with
    | none => s.startFeedGeneric c feed
    | some (tables, sec) =>
      let d : Dmx := { s.dmx with ucode := { s.dmx.ucode with tables } }
      match d.queueAlloc feed with
      | none =>
        ({ s with dmx := { d with ucode := d.ucode.freeSectionFilter sec.idx } }, feed, some .ebusy)
      | some (d, n) =>
        let alloc := d.ucode.allocSectionFeed c.info n sec feed.pid
        match alloc.2 with
        | none =>
          let d : Dmx := { d with ucode := alloc.1.freeSectionFilter sec.idx }
          ({ s with dmx := (d.freeQueue n).1 }, feed, some .ebusy)
        | some _ =>
          let d : Dmx := { d with ucode := alloc.1 }
          (⟨d.queueStart c.info n .section feed.pid, s.tsPid⟩, { feed with priv := some n }, none)

/-- The first user queue with the pid in `ts_pid`. -/
def tapQueue (s : Napi) (pid : U16) : Option Nat :=
  (List.range' queueUserStart (queueCount - queueUserStart)).find? fun i => s.tsPid i = pid

/-- A decoder feed of the pid comes (`start` is false) or goes. -/
def handOver (c : NapiConfig) (s : Napi) (pid : U16) (start : Bool) : Napi :=
  match s.tapQueue pid with
  | none => s
  | some i => { s with dmx := s.dmx.tap c.info i start }

/-- The part of `avia_gt_napi_start_feed` before interrupts: by the type of the
feed. -/
def startByType (c : NapiConfig) (stack : Stack) (s : Napi) (feed : DvbDemuxFeed) :
    Napi × DvbDemuxFeed × Option Errno :=
  match feed.type with
  | .sec => s.startFeedSection c stack feed
  | .unknown => (s, feed, some .einval)
  | _ =>
    let r := if feed.tsType.payloadOnly then s.startFeedPes c feed else s.startFeedTs c feed
    match r with
    | (s, feed, none) => (if feed.tsType.decoder then s.handOver c feed.pid false else s, feed, none)
    | r => r

/-- In dual pes mode the decoder wants audio and video as pes. -/
def forDecoder (c : NapiConfig) (feed : DvbDemuxFeed) : DvbDemuxFeed :=
  if c.dualPes ∧ (feed.pesType = .audio ∨ feed.pesType = .video) ∧ feed.tsType.decoder then
    { feed with tsType := { feed.tsType with payloadOnly := true } }
  else feed

/-- `avia_gt_napi_start_feed` from the test of the type on. -/
def startWithQueue (c : NapiConfig) (stack : Stack) (s : Napi) (feed : DvbDemuxFeed) :
    Napi × DvbDemuxFeed × Option Errno :=
  if (feed.type = .ts ∨ feed.type = .pes) ∧ feed.pcrOnly then (s, feed, none)
  else
    match s.startByType c stack feed with
    | (s, feed, none) =>
      if feed.type = .sec ∨ feed.tsType.packet then
        match feed.priv with
        | none => (s, feed, none)
        | some n => (⟨(s.dmx.irqEnable n).1, s.tsPid⟩, feed, (s.dmx.irqEnable n).2)
      else (s, feed, none)
    | r => r

/-- `avia_gt_napi_start_feed` -/
def startFeed (c : NapiConfig) (stack : Stack) (s : Napi) (feed : DvbDemuxFeed) :
    Napi × DvbDemuxFeed × Option Errno :=
  match c.frontend with
  | none => (s, feed, some .einval)
  | some .memory =>
    if ¬ feed.isClipmodeFeed then (s, feed, none) else s.startWithQueue c stack feed
  | some .hardware => s.startWithQueue c stack (forDecoder c feed)

/-- The end of `avia_gt_napi_stop_feed`, for the queue of the feed. -/
def stopQueue (s : Napi) (n : Nat) : Napi × Option Errno :=
  let d := s.dmx.queueStop n
  (⟨(d.freeQueue n).1, Function.update s.tsPid n 0xFFFF#16⟩, (d.freeQueue n).2)

/-- `avia_gt_napi_stop_feed`; `none` where `priv` is followed and is null. -/
def stopFeed (c : NapiConfig) (s : Napi) (feed : DvbDemuxFeed) : Option (Napi × Option Errno) :=
  match c.frontend with
  | none => some (s, some .einval)
  | some src =>
    if src = .memory ∧ ¬ feed.isClipmodeFeed then
      -- the message names the feed's queue
      feed.priv.map fun _ => (s, none)
    else if feed.isDecoder ∧ feed.pcrOnly then some (s, none)
    else
      let s := if feed.isDecoder then s.handOver c feed.pid true else s
      feed.priv.map fun n => s.stopQueue n

end Napi

/-- The driver with the feeds that are started and not yet stopped. -/
structure Feeds where
  napi : Napi
  started : List DvbDemuxFeed

def Feeds.init : Feeds := ⟨Napi.init, []⟩

inductive FeedCall
  | start (stack : Stack) (feed : DvbDemuxFeed)
  | stop (i : Nat)

namespace Feeds

/-- A feed is started when `start_feed` returns 0; `stop_feed` is for started
feeds, and whatever it returns the feed is not used any more. -/
def step (c : NapiConfig) (s : Feeds) : FeedCall → Option Feeds
  | .start stack feed =>
    match s.napi.startFeed c stack feed with
    | (n, feed, none) => some ⟨n, s.started ++ [feed]⟩
    | (n, _, some _) => some ⟨n, s.started⟩
  | .stop i =>
    match s.started[i]? with
    | none => none
    | some feed => (s.napi.stopFeed c feed).map fun r => ⟨r.1, s.started.eraseIdx i⟩

end Feeds

end Tuxbox.Avia
