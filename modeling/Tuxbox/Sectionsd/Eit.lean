import Tuxbox.Lib.Tlv
import Tuxbox.Sectionsd.Event

/-! The event information sections of sectionsd. A pointer into the section is
the rest of the buffer from there on; what is behind the buffer cannot be read,
and a text of a negative length cannot be built, so that the parser then has no
result. Plain characters are unsigned, as on the receiver. -/
namespace Tuxbox.Sectionsd

open Buffer

/-- What the parser asks the rest of the program for. -/
structure Settings where
  languageModeOff : Bool
  changeUTCtoCtime : Str → Int
  noTime : SItime

/-- The key under which a text of a language is kept. -/
def Settings.textKey (settings : Settings) (lang : Str) : Str :=
  if settings.languageModeOff then languageOFF else lang

/-- Two bytes, the high one first. -/
def word (buf : Str) (i : Nat) : Option UInt16 := do
  let high ← read buf i
  let low ← read buf (i + 1)
  pure (UInt16.ofNat (high.toNat * 256 + low.toNat))

/-- The twelve bits of a loop length. -/
def loopLength (buf : Str) (i : Nat) : Option Nat := do
  let high ← read buf i
  let low ← read buf (i + 1)
  pure ((high &&& 0x0F).toNat * 256 + low.toNat)

/-- The two bytes at `i`, and the twelve bits, wherever they are. -/
def wordAt (buf : Str) (i : Nat) : UInt16 :=
  UInt16.ofNat ((buf.getD i 0).toNat * 256 + (buf.getD (i + 1) 0).toNat)

def loopLengthAt (buf : Str) (i : Nat) : Nat :=
  (buf.getD i 0 &&& 0x0F).toNat * 256 + (buf.getD (i + 1) 0).toNat

theorem word_some {buf : Str} {i : Nat} (h : i + 1 < buf.length) :
    word buf i = some (wordAt buf i) := by
  unfold word
  rw [read_bind, read_bind]
  exact ⟨by omega, h, rfl⟩

theorem word_isSome {buf : Str} {i : Nat} : (∃ w, word buf i = some w) ↔ i + 1 < buf.length := by
  constructor
  · rintro ⟨w, hw⟩
    unfold word at hw
    rw [read_bind, read_bind] at hw
    exact hw.2.1
  · exact fun h => ⟨_, word_some h⟩

theorem loopLength_some {buf : Str} {i : Nat} (h : i + 1 < buf.length) :
    loopLength buf i = some (loopLengthAt buf i) := by
  unfold loopLength
  rw [read_bind, read_bind]
  exact ⟨by omega, h, rfl⟩

theorem loopLength_isSome {buf : Str} {i : Nat} :
    (∃ n, loopLength buf i = some n) ↔ i + 1 < buf.length := by
  unfold loopLength
  simp only [exists_read]
  exact ⟨fun h => h.2.1, fun h => ⟨by omega, h, _, rfl⟩⟩

theorem loopLengthAt_drop (buf : Str) (p i : Nat) :
    loopLengthAt (buf.drop p) i = loopLengthAt buf (p + i) := by
  rw [loopLengthAt, loopLengthAt, getD_drop, getD_drop, Nat.add_assoc]

/-- The length of the optional code table in front of a text. -/
def codeTable (c : Byte) : Nat :=
  if c = 0x10 then 3 else if c = 0x1f then 2 else if c < 0x20 then 1 else 0

/-- `n` bytes of text at `i`, without their code table. -/
def plainText (buf : Str) (i n : Nat) : Option Str := do
  let c ← read buf i
  string buf (i + codeTable c) (sub32 n (codeTable c))

/-- The same, cut off where `maxlen` bytes of the descriptor end. -/
def cutText (buf : Str) (maxlen i n : Nat) : Option Str := do
  let c ← read buf i
  string buf (i + codeTable c) (min (sub32 maxlen (i + codeTable c)) (sub32 n (codeTable c)))

/-- `name.erase(0, …)`. -/
def withoutCodeTable (name : Str) : Str := name.drop (codeTable (name.headD 0x20))

def languageCode (buf : Str) (i : Nat) : Option Str := do
  let high ← read buf i
  let mid ← read buf (i + 1)
  let low ← read buf (i + 2)
  pure (cString [high, mid, low])

def SIlinkage.ofDescriptor (buf : Str) : Option SIlinkage := do
  let length ← read buf 1
  let transportStreamId ← word buf 2
  let originalNetworkId ← word buf 4
  let serviceId ← word buf 6
  let linkageType ← read buf 8
  let name ← if length.toNat > 7 then string buf 9 (length.toNat - 7) else some []
  pure ⟨linkageType, name, transportStreamId, originalNetworkId, serviceId⟩

def SIcomponent.ofDescriptor (buf : Str) : Option SIcomponent := do
  let length ← read buf 1
  let content ← read buf 2
  let componentType ← read buf 3
  let componentTag ← read buf 4
  let component ← if length.toNat > 6 then string buf 8 (length.toNat - 6) else some []
  pure ⟨component, componentType, componentTag, content &&& 0x0F⟩

/-- Seconds of a duration in BCD digits; all ones are no duration. -/
def bcdSeconds (high mid low : Byte) : Nat :=
  if high = 0xff ∧ mid = 0xff ∧ low = 0xff then 0
  else (high >>> 4).toNat * 10 * 3600 + (high &&& 0x0f).toNat * 3600 +
    (mid >>> 4).toNat * 10 * 60 + (mid &&& 0x0f).toNat * 60 +
    (low >>> 4).toNat * 10 + (low &&& 0x0f).toNat

namespace SIevent

def ofEitEvent (settings : Settings) (evt : Str) : Option SIevent := do
  let eventID ← word evt 0
  let start ← string evt 2 5
  let high ← read evt 7
  let mid ← read evt 8
  let low ← read evt 9
  let flags ← read evt 10
  let startTime := settings.changeUTCtoCtime start
  let duration := bcdSeconds high mid low
  pure {
    serviceId := 0, originalNetworkId := 0, transportStreamId := 0, eventID := eventID
    langName := .empty, langText := .empty, langExtendedText := .empty
    itemDescription := [], item := [], contentClassification := [], userClassification := []
    components := [], ratings := [], linkageDescs := []
    times := if startTime ≠ 0 ∧ duration ≠ 0 then OrdMap.empty.insertNew startTime duration
      else .empty
    noTime := settings.noTime, tableId := 0xFF, running := (flags >>> 5).toNat }

def setName (settings : Settings) (lang name : Str) (e : SIevent) : SIevent :=
  { e with langName := e.langName.set (settings.textKey lang) name }

def setText (settings : Settings) (lang text : Str) (e : SIevent) : SIevent :=
  { e with langText := e.langText.set (settings.textKey lang) text }

/-- The extended text under a key of the map. -/
def extendedText (e : SIevent) (key : Str) : Str := (e.langExtendedText.find key).getD []

def appendExtendedText (settings : Settings) (lang text : Str) (e : SIevent) : SIevent :=
  { e with
    langExtendedText := e.langExtendedText.set (settings.textKey lang)
      (e.extendedText (settings.textKey lang) ++ text) }

def addItemDescription (e : SIevent) (text : Str) : SIevent :=
  { e with itemDescription := e.itemDescription ++ text ++ [newline] }

def addItem (e : SIevent) (text : Str) : SIevent := { e with item := e.item ++ text ++ [newline] }

end SIevent

namespace SIsectionEIT

/-- A text is taken where its length is not zero. -/
def withText (n : Byte) (text : Option Str) (take : Str → SIevent) (e : SIevent) : Option SIevent :=
  if n ≠ 0 then text.map take else some e

def parseLinkageDescriptor (buf : Str) (maxlen : Nat) (e : SIevent) : Option SIevent :=
  if maxlen ≥ 9 then do
    let l ← SIlinkage.ofDescriptor buf
    pure { e with linkageDescs := e.linkageDescs ++ [{ l with name := withoutCodeTable l.name }] }
  else some e

def parseComponentDescriptor (buf : Str) (maxlen : Nat) (e : SIevent) : Option SIevent :=
  if maxlen ≥ 8 then do
    let c ← SIcomponent.ofDescriptor buf
    pure { e with components :=
      e.components ++ [{ c with component := withoutCodeTable c.component }] }
  else some e

def contentStep (buf : Str) (classification : Nat) (e : SIevent) : Option (Nat × SIevent) := do
  let content ← read buf classification
  let user ← read buf (classification + 1)
  pure (classification + 2, { e with
    contentClassification := e.contentClassification ++ [content]
    userClassification := e.userClassification ++ [user] })

/-- The loop runs as long as `classification <= buf + descriptor_length`. -/
def parseContentDescriptor (buf : Str) (maxlen : Nat) (e : SIevent) : Option SIevent := do
  let length ← read buf 1
  if length.toNat + 2 > maxlen then pure e
  else
    let r ← walk (contentStep buf) (length.toNat + 1) 2 e
    pure r.2

def ratingStep (buf : Str) (s : Nat) (e : SIevent) : Option (Nat × SIevent) := do
  let countryCode ← string buf s 3
  let rating ← read buf (s + 3)
  pure (s + 4, { e with ratings := e.ratings ++ [⟨countryCode, rating⟩] })

/-- The loop runs as long as `s < buf + descriptor_length - 2`. -/
def parseParentalRatingDescriptor (buf : Str) (maxlen : Nat) (e : SIevent) : Option SIevent := do
  let length ← read buf 1
  if length.toNat + 2 > maxlen then pure e
  else
    let r ← walk (ratingStep buf) (length.toNat - 2) 2 e
    pure r.2

/-- One item: its description, and its text, which is taken from its length byte on. -/
def itemStep (buf : Str) (maxlen items : Nat) (e : SIevent) : Option (Nat × SIevent) := do
  let n ← read buf items
  let e ← withText n (cutText buf maxlen (items + 1) n.toNat) e.addItemDescription e
  let items := items + 1 + n.toNat
  let n ← read buf items
  let e ← withText n (string buf items (min (sub32 maxlen (items + 1)) n.toNat)) e.addItem e
  pure (items + 1 + n.toNat, e)

def parseExtendedEventDescriptor (settings : Settings) (buf : Str) (maxlen : Nat) (e : SIevent) :
    Option SIevent := do
  let length ← read buf 1
  if length.toNat + 2 > maxlen ∨ length.toNat < 5 then pure e
  else
    let language ← languageCode buf 3
    let lengthOfItems ← read buf 6
    let r ← walk (itemStep buf maxlen) (7 + lengthOfItems.toNat) 7 e
    let n ← read buf r.1
    withText n (cutText buf maxlen (r.1 + 1) n.toNat)
      (fun text => r.2.appendExtendedText settings language text) r.2

def parseShortEventDescriptor (settings : Settings) (buf : Str) (maxlen : Nat) (e : SIevent) :
    Option SIevent := do
  let length ← read buf 1
  if length.toNat + 2 > maxlen ∨ length.toNat < 4 then pure e
  else
    let language ← languageCode buf 2
    let n ← read buf 5
    let e ← withText n (plainText buf 6 n.toNat) (fun name => e.setName settings language name) e
    let textlength ← read buf (6 + n.toNat)
    withText textlength (plainText buf (7 + n.toNat) textlength.toNat)
      (fun text => e.setText settings language text) e

def parseDescriptor (settings : Settings) (desc : Str) (len : Nat) (e : SIevent) :
    Option SIevent := do
  let tag ← read desc 0
  if tag = 0x4D then parseShortEventDescriptor settings desc len e
  else if tag = 0x4E then parseExtendedEventDescriptor settings desc len e
  else if tag = 0x54 then parseContentDescriptor desc len e
  else if tag = 0x50 then parseComponentDescriptor desc len e
  else if tag = 0x55 then parseParentalRatingDescriptor desc len e
  else if tag = 0x4A then parseLinkageDescriptor desc len e
  else pure e

/-- The loop skips the `eit_event` header and runs while two bytes are left. -/
def parseDescriptors (settings : Settings) (evt : Str) (total : Nat) (e : SIevent) :
    Option SIevent := do
  let r ← walk (checkedStep (parseDescriptor settings) evt total) (total - 1) 12 e
  pure r.2

/-- One event. The set keeps the first event of a key. -/
def eventStep (settings : Settings) (buffer : Str) (actPos : Nat) (evts : OrdMap Nat SIevent) :
    Option (Nat × OrdMap Nat SIevent) := do
  let evt := buffer.drop actPos
  let e ← SIevent.ofEitEvent settings evt
  let serviceId ← word buffer 3
  let originalNetworkId ← word buffer 10
  let transportStreamId ← word buffer 8
  let tableId ← read buffer 0
  let e := { e with
    serviceId := serviceId, originalNetworkId := originalNetworkId
    transportStreamId := transportStreamId, tableId := tableId.toNat }
  let length ← loopLength evt 10
  let e ← parseDescriptors settings evt (min (buffer.length - actPos) (12 + length)) e
  pure (actPos + (12 + length), evts.insertNew e.uniqueKey e)

def parse (settings : Settings) (buffer : Str) : Option (OrdMap Nat SIevent) :=
  if buffer.length < 26 then some .empty
  else do
    let r ← walk (eventStep settings buffer) (buffer.length - 12) 14 .empty
    pure r.2

end SIsectionEIT

end Tuxbox.Sectionsd
