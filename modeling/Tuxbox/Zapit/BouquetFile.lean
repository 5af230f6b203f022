import Tuxbox.Lib.FirstOf
import Tuxbox.Xmltree.Tree
import Tuxbox.Zapit.Bouquets

/-!
# The bouquet file

`saveBouquets` prints `bouquets.xml`, `loadBouquets` reads it back.
-/

namespace Tuxbox.Zapit

open Xml Xmltree

/-- What the two ask the configuration and the frontend. -/
structure Config where
  writeChannelsNames : Bool
  channelNamesFromBouquet : Bool
  /-- `getFrontendName()` is `sat` -/
  sat : Bool

/-- `%0wx` -/
def hex (w n : Nat) : Str := pad w (numeral 16 n)

section
variable (cfg : Config) (allchans : Tallchans)

/-! ## Saving -/

def channelLine (c : CZapitChannel) : Str :=
  chars "\t\t<channel serviceID=\"" ++ hex 4 c.serviceId.toNat ++
  (if cfg.writeChannelsNames then chars "\" name=\"" ++ convertUtf8ToUtf8Xml c.name else []) ++
  chars "\" tsid=\"" ++ hex 4 c.transportStreamId.toNat ++
  chars "\" onid=\"" ++ hex 4 c.originalNetworkId.toNat ++
  (if cfg.sat then chars "\" sat=\"" ++ decInt c.satellitePosition.toInt else []) ++
  chars "\"/>\n"

/-- The channels behind the pointers of a list. -/
def channelsOf (list : List Nat) : List CZapitChannel := list.filterMap allchans.find

def writeChannelList (list : List Nat) : Str := (channelsOf allchans list).flatMap (channelLine cfg)

def bouquetText (b : CBouquet) : Str :=
  chars "\t<Bouquet type=\"" ++ hex 1 b.type.toUInt32.toNat ++
  chars "\" bouquet_id=\"" ++ hex 4 b.bouquetId.toNat ++
  chars "\" name=\"" ++ convertUtf8ToUtf8Xml b.name ++
  chars "\" hidden=\"" ++ hex 1 b.bHidden.toNat ++
  chars "\" locked=\"" ++ hex 1 b.bLocked.toNat ++
  chars "\">\n" ++
  writeChannelList cfg allchans b.tvChannels ++
  writeChannelList cfg allchans b.radioChannels ++
  chars "\t</Bouquet>\n"

/-- `strncmp` with 12 characters of `New Channels`. -/
def isNewChannels (name : Str) : Bool := (cString name).take 12 = chars "New Channels"

/-- The bouquets that are written. -/
def writtenBouquets (includeBouquetOthers : Bool) (m : CBouquetManager) : List CBouquet :=
  (m.bouquets.filter fun b => includeBouquetOthers ||
    (some b.1 ≠ m.remainChannels && !isNewChannels b.2.name)).map Prod.snd

/-- The manager afterwards and the text of the file. -/
def saveBouquets (includeBouquetOthers : Bool) (m : CBouquetManager) : CBouquetManager × Str :=
  let m' := if includeBouquetOthers then makeRemainingChannelsBouquet allchans m else m
  (m', chars "<?xml version=\"1.0\" encoding=\"UTF-8\"?>\n<zapit>\n" ++
    (writtenBouquets includeBouquetOthers m').flatMap (bouquetText cfg allchans) ++
    chars "</zapit>\n")

/-! ## Loading -/

/-- `GET_ATTR` with `%hx`. -/
def getAttrHx (n : XMLTreeNode) (name : String) : UInt16 :=
  match xmlGetAttribute n name with
  | none => 0
  | some s => UInt16.ofNat (strtoul 16 s)

/-- One `channel` element of the bouquet at `bnum`. A name that is not in the
file cannot be set: the string it would be made of is a null pointer. -/
def parseChannel (bnum : Nat) (st : CBouquetManager × Tallchans) (n : XMLTreeNode) :
    Option (CBouquetManager × Tallchans) :=
  let id := createChannelId (getAttrHx n "serviceID") (getAttrHx n "onid") (getAttrHx n "tsid")
  match st.2.find id with
  | none => some st
  | some c =>
    let named :=
      if cfg.channelNamesFromBouquet then (xmlGetAttribute n "name").map (st.2.setName id)
      else some st.2
    match named with
    | none => none
    | some named =>
      if st.1.existsChannelInBouquet bnum id then some (st.1, named)
      else some (st.1.modify bnum fun b => b.addService id c.serviceType, named)

/-- A bouquet as its element describes it. -/
def newBouquet (name : Str) (n : XMLTreeNode) : CBouquet where
  name := name
  bHidden := xmlGetAttribute n "hidden" = some (chars "1")
  bLocked := xmlGetAttribute n "locked" = some (chars "1")
  type := (UInt32.ofNat (xmlGetNumericAttribute n "type" 16)).toInt32
  bouquetId := UInt16.ofNat (xmlGetNumericAttribute n "bouquet_id" 16)
  tvChannels := []
  radioChannels := []

/-- One `Bouquet` element. A bouquet that exists takes the channels in. -/
def parseBouquet (st : CBouquetManager × Tallchans) (n : XMLTreeNode) :
    Option (CBouquetManager × Tallchans) :=
  match xmlGetAttribute n "name" with
  | none => none
  | some name =>
    match st.1.existsBouquet name with
    | some bnum => (occurrences n.children "channel").foldlM (parseChannel cfg bnum) st
    | none =>
      (occurrences n.children "channel").foldlM (parseChannel cfg st.1.bouquets.length)
        (st.1.addBouquet (newBouquet name n), st.2)

def parseBouquetsXml (st : CBouquetManager × Tallchans) (root : XMLTreeNode) :
    Option (CBouquetManager × Tallchans) :=
  (occurrences root.children "Bouquet").foldlM (parseBouquet cfg) st

/-- `loadBouquets` where there is no `ubouquets.xml` and no
`currentservices.xml`. A file that does not parse is as good as none. -/
def loadBouquets (expat : Str → Option (List Event)) (file : Str)
    (st : CBouquetManager × Tallchans) : Option (CBouquetManager × Tallchans) :=
  let parsed := match parseXml expat file with
    | none => some st
    | some root => parseBouquetsXml cfg st root
  parsed.map fun st => (renumServices st.2 st.1, st.2)

/-! ## The text as a document -/

def channelAtts (c : CZapitChannel) : Atts :=
  [(chars "serviceID", hex 4 c.serviceId.toNat)] ++
  (if cfg.writeChannelsNames then [(chars "name", printable c.name)] else []) ++
  [(chars "tsid", hex 4 c.transportStreamId.toNat),
    (chars "onid", hex 4 c.originalNetworkId.toNat)] ++
  (if cfg.sat then [(chars "sat", decInt c.satellitePosition.toInt)] else [])

def channelPieces (c : CZapitChannel) : List Piece :=
  [.space (chars "\t\t"), .empty (chars "channel") (channelAtts cfg c), .space (chars "\n")]

def bouquetAtts (b : CBouquet) : Atts :=
  [(chars "type", hex 1 b.type.toUInt32.toNat), (chars "bouquet_id", hex 4 b.bouquetId.toNat),
    (chars "name", printable b.name), (chars "hidden", hex 1 b.bHidden.toNat),
    (chars "locked", hex 1 b.bLocked.toNat)]

def channelsOfBouquet (b : CBouquet) : List CZapitChannel :=
  channelsOf allchans b.tvChannels ++ channelsOf allchans b.radioChannels

def bouquetPieces (b : CBouquet) : List Piece :=
  [.space (chars "\t"), .start (chars "Bouquet") (bouquetAtts b), .space (chars "\n")] ++
  (channelsOfBouquet allchans b).flatMap (channelPieces cfg) ++
  [.space (chars "\t"), .close (chars "Bouquet"), .space (chars "\n")]

/-- The document whose text `saveBouquets` prints. -/
def bouquetsDocument (m : CBouquetManager) : List Piece :=
  [.space (chars "\n"), .start (chars "zapit") [], .space (chars "\n")] ++
  (writtenBouquets false m).flatMap (bouquetPieces cfg allchans) ++
  [.close (chars "zapit"), .space (chars "\n")]

theorem special_of_digitIn {c : Byte} (h : digitIn 16 c = true) : special c = false := by
  by_contra hs
  simp only [special, Bool.not_eq_false, Bool.or_eq_true, decide_eq_true_eq] at hs
  rcases hs with (((rfl | rfl) | rfl) | rfl) | rfl <;> exact absurd h (by decide)

theorem escape_hex (w n : Nat) : escape (hex w n) = hex w n :=
  escape_of_plain fun _ hc =>
    special_of_digitIn (pad_digits (by omega) (numeral_digits (by omega) (by omega) n) _ hc)

theorem escape_decInt (z : Int) : escape (decInt z) = decInt z := by
  refine escape_of_plain fun c hc => ?_
  rcases mem_decInt hc with h | rfl
  · by_contra hs
    simp only [special, Bool.not_eq_false, Bool.or_eq_true, decide_eq_true_eq] at hs
    rcases hs with (((rfl | rfl) | rfl) | rfl) | rfl <;> exact absurd h (by decide)
  · decide

theorem channelLine_eq (c : CZapitChannel) :
    channelLine cfg c = (channelPieces cfg c).flatMap Piece.text := by
  have h1 : chars "\t\t<channel serviceID=\"" =
      chars "\t\t" ++ (chars "<" ++ (chars "channel" ++ (chars " " ++ (chars "serviceID" ++
        chars "=\"")))) := by rfl
  have h2 : chars "\" name=\"" =
      chars "\"" ++ (chars " " ++ (chars "name" ++ chars "=\"")) := by rfl
  have h3 : chars "\" tsid=\"" =
      chars "\"" ++ (chars " " ++ (chars "tsid" ++ chars "=\"")) := by rfl
  have h4 : chars "\" onid=\"" =
      chars "\"" ++ (chars " " ++ (chars "onid" ++ chars "=\"")) := by rfl
  have h5 : chars "\" sat=\"" = chars "\"" ++ (chars " " ++ (chars "sat" ++ chars "=\"")) := by rfl
  have h6 : chars "\"/>\n" = chars "\"" ++ (chars "/>" ++ chars "\n") := by rfl
  unfold channelLine channelPieces channelAtts
  rw [h1, h2, h3, h4, h5, h6]
  cases cfg.writeChannelsNames <;> cases cfg.sat <;>
    simp [Piece.text, attText, escape_hex, escape_decInt, convertUtf8_eq]

theorem writeChannelList_eq (tv radio : List Nat) :
    writeChannelList cfg allchans tv ++ writeChannelList cfg allchans radio =
      ((channelsOf allchans tv ++ channelsOf allchans radio).flatMap (channelPieces cfg)).flatMap
        Piece.text := by
  have hline : channelLine cfg = fun c => (channelPieces cfg c).flatMap Piece.text :=
    funext (channelLine_eq cfg)
  simp only [writeChannelList, ← List.flatMap_append, List.flatMap_assoc, hline]

theorem bouquetText_eq (b : CBouquet) :
    bouquetText cfg allchans b = (bouquetPieces cfg allchans b).flatMap Piece.text := by
  have h1 : chars "\t<Bouquet type=\"" =
      chars "\t" ++ (chars "<" ++ (chars "Bouquet" ++ (chars " " ++ (chars "type" ++
        chars "=\"")))) := by rfl
  have h2 : chars "\" bouquet_id=\"" =
      chars "\"" ++ (chars " " ++ (chars "bouquet_id" ++ chars "=\"")) := by rfl
  have h3 : chars "\" name=\"" =
      chars "\"" ++ (chars " " ++ (chars "name" ++ chars "=\"")) := by rfl
  have h4 : chars "\" hidden=\"" =
      chars "\"" ++ (chars " " ++ (chars "hidden" ++ chars "=\"")) := by rfl
  have h5 : chars "\" locked=\"" =
      chars "\"" ++ (chars " " ++ (chars "locked" ++ chars "=\"")) := by rfl
  have h6 : chars "\">\n" = chars "\"" ++ (chars ">" ++ chars "\n") := by rfl
  have h7 : chars "\t</Bouquet>\n" =
      chars "\t" ++ (chars "</" ++ (chars "Bouquet" ++ (chars ">" ++ chars "\n"))) := by rfl
  have hlists := writeChannelList_eq cfg allchans b.tvChannels b.radioChannels
  unfold bouquetText bouquetPieces bouquetAtts
  rw [List.flatMap_append, List.flatMap_append, channelsOfBouquet, ← hlists,
    h1, h2, h3, h4, h5, h6, h7]
  simp [Piece.text, attText, escape_hex, convertUtf8_eq]

/-- The printed text is that of a document. -/
theorem saveBouquets_text (m : CBouquetManager) :
    (saveBouquets cfg allchans false m).2 = text (bouquetsDocument cfg allchans m) := by
  have hhead : chars "<?xml version=\"1.0\" encoding=\"UTF-8\"?>\n<zapit>\n" =
      declaration ++ (chars "\n" ++ (chars "<" ++ (chars "zapit" ++ (chars ">" ++
        chars "\n")))) := by rfl
  have hfoot : chars "</zapit>\n" = chars "</" ++ (chars "zapit" ++ (chars ">" ++ chars "\n")) := by
    rfl
  have hbouquets : bouquetText cfg allchans =
      fun b => (bouquetPieces cfg allchans b).flatMap Piece.text :=
    funext (bouquetText_eq cfg allchans)
  simp only [saveBouquets, Bool.false_eq_true, if_false, hhead, hfoot, hbouquets, text,
    bouquetsDocument, List.flatMap_append, List.flatMap_assoc]
  simp [Piece.text]

/-! ## The tree of the document -/

def channelNode (c : CZapitChannel) : XMLTreeNode :=
  .node (chars "channel") (channelAtts cfg c) []

def bouquetNode (b : CBouquet) : XMLTreeNode :=
  .node (chars "Bouquet") (bouquetAtts b) ((channelsOfBouquet allchans b).map (channelNode cfg))

/-- The attribute names of a `channel` element. -/
def channelAttNames (names sat : Bool) : List Str :=
  [chars "serviceID"] ++ (if names then [chars "name"] else []) ++ [chars "tsid", chars "onid"] ++
    (if sat then [chars "sat"] else [])

theorem distinct_channelAtts (c : CZapitChannel) :
    Distinct ((channelAtts cfg c).map Prod.fst) := by
  have hnames : (channelAtts cfg c).map Prod.fst =
      channelAttNames cfg.writeChannelsNames cfg.sat := by
    unfold channelAtts channelAttNames
    cases cfg.writeChannelsNames <;> cases cfg.sat <;> rfl
  have hall : ∀ names sat, Distinct (channelAttNames names sat) := by decide
  rw [hnames]
  exact hall _ _

theorem builds_channel (c : CZapitChannel) :
    Builds ((channelPieces cfg c).flatMap Piece.events) [channelNode cfg c] :=
  builds_element builds_nil (distinct_channelAtts cfg c)

theorem builds_bouquet (b : CBouquet) :
    Builds ((bouquetPieces cfg allchans b).flatMap Piece.events) [bouquetNode cfg allchans b] := by
  have hchannels : Builds
      (((channelsOfBouquet allchans b).flatMap (channelPieces cfg)).flatMap Piece.events)
      ((channelsOfBouquet allchans b).map (channelNode cfg)) := by
    rw [List.flatMap_assoc]
    exact builds_flatMap fun c _ => builds_channel cfg c
  have hnames : Distinct ((bouquetAtts b).map Prod.fst) := by
    have hclosed : Distinct [chars "type", chars "bouquet_id", chars "name", chars "hidden",
        chars "locked"] := by decide
    exact hclosed
  have hb : Builds _ [bouquetNode cfg allchans b] := builds_element hchannels hnames
  simpa [bouquetPieces, Piece.events] using hb

/-- The tree that a parser makes of it, where it undoes the escapes. -/
theorem parseXml_document {expat : Str → Option (List Event)} {m : CBouquetManager}
    (h : Reads expat (bouquetsDocument cfg allchans m)) :
    parseXml expat (saveBouquets cfg allchans false m).2 =
      some (.node (chars "zapit") []
        ((writtenBouquets false m).map (bouquetNode cfg allchans))) := by
  have hb : Builds
      (((writtenBouquets false m).flatMap (bouquetPieces cfg allchans)).flatMap Piece.events)
      ((writtenBouquets false m).map (bouquetNode cfg allchans)) := by
    rw [List.flatMap_assoc]
    exact builds_flatMap fun b _ => builds_bouquet cfg allchans b
  have hevents : events (bouquetsDocument cfg allchans m) =
      .start (chars "zapit") [] ::
        ((writtenBouquets false m).flatMap (bouquetPieces cfg allchans)).flatMap Piece.events ++
        [.close (chars "zapit")] := by
    simp [events, bouquetsDocument, Piece.events]
  rw [saveBouquets_text]
  exact parseXml_element hb List.Pairwise.nil (h.trans (congrArg some hevents))

/-! ## What the elements say -/

theorem strtoul_hex16 (w : Nat) (n : UInt16) :
    UInt16.ofNat (strtoul 16 (hex w n.toNat)) = n := by
  have hn : n.toNat ≤ ulongMax := by
    have := n.toNat_lt
    unfold ulongMax
    omega
  rw [hex, strtoul_hex w hn, UInt16.ofNat_toNat]

/-- The ids, the type and the flags that the reader finds in the tree. -/
theorem getAttrHx_channel (c : CZapitChannel) :
    getAttrHx (channelNode cfg c) "serviceID" = c.serviceId ∧
    getAttrHx (channelNode cfg c) "onid" = c.originalNetworkId ∧
    getAttrHx (channelNode cfg c) "tsid" = c.transportStreamId := by
  have hsid : xmlGetAttribute (channelNode cfg c) "serviceID" = some (hex 4 c.serviceId.toNat) := by
    rfl
  have hrest : xmlGetAttribute (channelNode cfg c) "onid" = some (hex 4 c.originalNetworkId.toNat) ∧
      xmlGetAttribute (channelNode cfg c) "tsid" = some (hex 4 c.transportStreamId.toNat) := by
    unfold channelNode channelAtts
    cases cfg.writeChannelsNames <;> exact ⟨rfl, rfl⟩
  unfold getAttrHx
  rw [hsid, hrest.1, hrest.2]
  exact ⟨strtoul_hex16 4 _, strtoul_hex16 4 _, strtoul_hex16 4 _⟩

theorem name_bouquet (b : CBouquet) :
    xmlGetAttribute (bouquetNode cfg allchans b) "name" = some (printable b.name) := rfl

/-- Type, id and flags come back. -/
theorem newBouquet_node (b : CBouquet) (name : Str) :
    newBouquet name (bouquetNode cfg allchans b) =
      { b with name := name, tvChannels := [], radioChannels := [] } := by
  have flag : ∀ f : Bool, decide (some (hex 1 f.toNat) = some (chars "1")) = f := by decide
  have htype : b.type.toUInt32.toNat ≤ ulongMax := by
    have := b.type.toUInt32.toNat_lt
    unfold ulongMax
    omega
  have h1 : xmlGetNumericAttribute (bouquetNode cfg allchans b) "type" 16 =
      b.type.toUInt32.toNat := strtoul_hex 1 htype
  have h2 : UInt16.ofNat (xmlGetNumericAttribute (bouquetNode cfg allchans b) "bouquet_id" 16) =
      b.bouquetId := strtoul_hex16 4 b.bouquetId
  have h3 : decide (xmlGetAttribute (bouquetNode cfg allchans b) "hidden" = some (chars "1")) =
      b.bHidden := flag b.bHidden
  have h4 : decide (xmlGetAttribute (bouquetNode cfg allchans b) "locked" = some (chars "1")) =
      b.bLocked := flag b.bLocked
  unfold newBouquet
  rw [h1, h2, h3, h4, UInt32.ofNat_toNat, Int32.toInt32_toUInt32]

end

end Tuxbox.Zapit
