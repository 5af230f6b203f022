import Tuxbox.Zapit.ChannelIterator
import Tuxbox.Zapit.BouquetUpdate
import Tuxbox.Zapit.CaPmtDecode
import Tuxbox.Zapit.Pat
import Tuxbox.Zapit.Nvod
import Tuxbox.Zapit.ParseNit
import Tuxbox.Zapit.Latin1
import Tuxbox.Sectionsd.Complete
import Tuxbox.Sectionsd.Overlap
import Tuxbox.Sectionsd.EitRoundTrip
import Tuxbox.Sectionsd.DvbText
import Tuxbox.Sectionsd.Freesat
import Tuxbox.Avia.Pcr
import Tuxbox.Tuxtxt.Neighbours
import Tuxbox.Tuxtxt.Extensions
import Tuxbox.Tuxtxt.ObjectWrites
import Tuxbox.Tuxtxt.HtmlRun
import Tuxbox.Avia.TsCallbacks
import Tuxbox.Avia.SectionDelivery
import Tuxbox.Sectionsd.NextEvent
import Tuxbox.Sectionsd.WasteEvents
import Tuxbox.Timerd.Removal
import Tuxbox.Timerd.Survival
import Tuxbox.Timerd.Recording
import Tuxbox.Timerd.RepeatCount
import Tuxbox.Timerd.Wakeup
import Tuxbox.Timerd.Zone
import Tuxbox.Timerd.Persistence
import Tuxbox.Timerd.Protocol
import Tuxbox.Avia.ActivePid
import Tuxbox.Libnet.Edit
import Tuxbox.Dvbsi.DescriptorBounds
import Tuxbox.Dvbsi.NestedLists
import Tuxbox.Nhttpd.CommandRuns
import Tuxbox.Nhttpd.MultipartStored
import Tuxbox.Nhttpd.ParamNumbers
import Tuxbox.Nhttpd.ModCache
import Tuxbox.Enigma.CaHandler
import Tuxbox.Enigma.CiBounds
import Tuxbox.Enigma.EpgLookup
import Tuxbox.Enigma.MhwStored
import Tuxbox.Enigma.TextCoding
import Tuxbox.Enigma.IOBuffer
import Tuxbox.Neutrino.LastChannel
import Tuxbox.Enigma.EventCache
import Tuxbox.Enigma.ESection
import Tuxbox.Enigma.SectionPackets
import Tuxbox.Enigma.PlaylistRoundTrip
import Tuxbox.Enigma.TsAnalysis
import Tuxbox.Enigma.TimerConflicts
import Tuxbox.Enigma.NextEvent
import Tuxbox.Tuxtxt.TableRuns
import Tuxbox.Enigma.CaPmtBuilders
