import Tuxbox.Lib.Bytes
import Tuxbox.Lib.OrdMap

/-! The channels of zapit and the map that holds them all. -/
namespace Tuxbox

/-- `t_channel_id` of its three parts. -/
def createChannelId (serviceId originalNetworkId transportStreamId : UInt16) : Nat :=
  transportStreamId.toNat <<< 32 ||| (originalNetworkId.toNat <<< 16 ||| serviceId.toNat)

namespace Zapit

/-! `service_type_t`, the types that have a channel list. A channel carries any
`unsigned char`. -/

def ST_RESERVED : UInt8 := 0

def ST_DIGITAL_TELEVISION_SERVICE : UInt8 := 1

def ST_DIGITAL_RADIO_SOUND_SERVICE : UInt8 := 2

def ST_NVOD_REFERENCE_SERVICE : UInt8 := 4

def ST_NVOD_TIME_SHIFTED_SERVICE : UInt8 := 5

def isTv (type : UInt8) : Bool :=
  type = ST_DIGITAL_TELEVISION_SERVICE || type = ST_NVOD_REFERENCE_SERVICE ||
    type = ST_NVOD_TIME_SHIFTED_SERVICE

def isRadio (type : UInt8) : Bool := type = ST_DIGITAL_RADIO_SOUND_SERVICE

theorem not_radio_of_tv {type : UInt8} (h : isTv type = true) : isRadio type = false := by
  simp only [isTv, Bool.or_eq_true, decide_eq_true_eq] at h
  rcases h with (rfl | rfl) | rfl <;> rfl

/-- `CZapitChannel`, what its constructor sets. The pids of a running service
are not part of a list. -/
structure CZapitChannel where
  name : Str
  serviceId : UInt16
  transportStreamId : UInt16
  originalNetworkId : UInt16
  serviceType : UInt8
  diSEqC : UInt8
  satellitePosition : Int16
  frequency : UInt16
  channelNumber : UInt16
  deriving DecidableEq

def CZapitChannel.getChannelID (c : CZapitChannel) : Nat :=
  createChannelId c.serviceId c.originalNetworkId c.transportStreamId

/-- `tallchans`: every channel is kept under its own id. -/
structure Tallchans where
  map : OrdMap Nat CZapitChannel
  keyed : ∀ id c, map.find id = some c → c.getChannelID = id

/-- `findChannelByChannelID`. -/
def Tallchans.find (allchans : Tallchans) (id : Nat) : Option CZapitChannel := allchans.map.find id

/-- `setName` on the channel with this id. -/
def Tallchans.setName (allchans : Tallchans) (id : Nat) (name : Str) : Tallchans where
  map := allchans.map.adjust id fun c => { c with name := name }
  keyed := by
    intro k c h
    rw [OrdMap.find_adjust] at h
    split at h
    · cases hk : allchans.map.find id with
      | none => simp [hk] at h
      | some d =>
        simp only [hk, Option.map_some, Option.some.injEq] at h
        rename_i he
        rw [← h, he]
        exact allchans.keyed id d hk
    · exact allchans.keyed k c h

end Zapit

end Tuxbox
