import Tuxbox.Sectionsd.EitBounds

/-!
# Event information sections in the layout of the standard
-/

namespace Tuxbox.Sectionsd.SIsectionEIT

open Buffer

/-! ## The layout -/

/-- A text that begins with a character, not with a code table. -/
structure Text where
  first : Byte
  rest : Str
  printable : 0x20 ≤ first

namespace Text

def bytes (t : Text) : Str := t.first :: t.rest

/-- The text behind its length. -/
def field (t : Text) : Str := UInt8.ofNat t.bytes.length :: t.bytes

/-- What the parser takes of the text of an item: the length byte, and not the last character. -/
def fromLength (t : Text) : Str := UInt8.ofNat t.bytes.length :: t.bytes.dropLast

end Text

structure Rating where
  countryCode : Byte × Byte × Byte
  rating : Byte

def Rating.bytes (r : Rating) : Str :=
  [r.countryCode.1, r.countryCode.2.1, r.countryCode.2.2, r.rating]

def Rating.parental (r : Rating) : SIparentalRating :=
  ⟨[r.countryCode.1, r.countryCode.2.1, r.countryCode.2.2], r.rating⟩

structure Content where
  nibbles : Byte
  user : Byte

def Content.bytes (c : Content) : Str := [c.nibbles, c.user]

structure Item where
  description : Text
  text : Text

def Item.bytes (i : Item) : Str := i.description.field ++ i.text.field

inductive Descriptor where
  | rating (entries : List Rating)
  | content (entries : List Content)
  | extendedEvent (number : Byte) (language : Byte × Byte × Byte) (items : List Item) (text : Text)

namespace Descriptor

def tag : Descriptor → Byte
  | rating _ => 0x55
  | content _ => 0x54
  | extendedEvent .. => 0x4E

def body : Descriptor → Str
  | rating entries => entries.flatMap Rating.bytes
  | content entries => entries.flatMap Content.bytes
  | extendedEvent number language items text =>
    number :: language.1 :: language.2.1 :: language.2.2 ::
      UInt8.ofNat (items.flatMap Item.bytes).length :: (items.flatMap Item.bytes ++ text.field)

/-- The bytes of the layout. -/
def encode (d : Descriptor) : Str := d.tag :: UInt8.ofNat d.body.length :: d.body

end Descriptor

/-- An event with its descriptors. `status` is the running status and the CA mode. -/
structure Event where
  id : UInt16
  start : Byte × Byte × Byte × Byte × Byte
  duration : Byte × Byte × Byte
  status : Fin 16
  descriptors : List Descriptor
  short : ∀ d ∈ descriptors, d.body.length < 256
  fits : (descriptors.flatMap Descriptor.encode).length < 4096

namespace Event

def loop (e : Event) : Str := e.descriptors.flatMap Descriptor.encode

def head (e : Event) : Str :=
  [UInt8.ofNat (e.id.toNat / 256), UInt8.ofNat (e.id.toNat % 256),
    e.start.1, e.start.2.1, e.start.2.2.1, e.start.2.2.2.1, e.start.2.2.2.2,
    e.duration.1, e.duration.2.1, e.duration.2.2,
    UInt8.ofNat (e.status.val * 16 + e.loop.length / 256), UInt8.ofNat (e.loop.length % 256)]

def encode (e : Event) : Str := e.head ++ e.loop

end Event

/-- A section: its header, the events, and the CRC. -/
structure Layout where
  header : Str
  header_length : header.length = 14
  events : List Event
  crc : Str
  crc_length : crc.length = 4

def Layout.encode (s : Layout) : Str := s.header ++ s.events.flatMap Event.encode ++ s.crc

/-! ## What is encoded -/

namespace Descriptor

def ratings : Descriptor → List SIparentalRating
  | rating entries => entries.map Rating.parental
  | _ => []

def contents : Descriptor → Str
  | content entries => entries.map Content.nibbles
  | _ => []

def users : Descriptor → Str
  | content entries => entries.map Content.user
  | _ => []

def itemDescriptions : Descriptor → Str
  | extendedEvent _ _ items _ => items.flatMap fun i => i.description.bytes ++ [newline]
  | _ => []

def items : Descriptor → Str
  | extendedEvent _ _ items _ => items.flatMap fun i => i.text.bytes ++ [newline]
  | _ => []

/-- The extended text that is stored under a key. -/
def extendedText (settings : Settings) (key : Str) : Descriptor → Str
  | extendedEvent _ language _ text =>
    if key = settings.textKey (cString [language.1, language.2.1, language.2.2]) then text.bytes
    else []
  | _ => []

/-! ## What is taken -/

/-- The loop over the ratings ends in front of the last one. -/
def ratingsTaken : Descriptor → List SIparentalRating
  | rating entries => entries.dropLast.map Rating.parental
  | _ => []

def itemsTaken : Descriptor → Str
  | extendedEvent _ _ items _ => items.flatMap fun i => i.text.fromLength ++ [newline]
  | _ => []

end Descriptor

/-- The data of an event. -/
structure Data where
  ratings : List SIparentalRating
  contents : Str
  users : Str
  itemDescription : Str
  item : Str
  extendedText : Str → Str

/-- The data of an event. -/
def Event.data (settings : Settings) (e : Event) : Data where
  ratings := e.descriptors.flatMap Descriptor.ratings
  contents := e.descriptors.flatMap Descriptor.contents
  users := e.descriptors.flatMap Descriptor.users
  itemDescription := e.descriptors.flatMap Descriptor.itemDescriptions
  item := e.descriptors.flatMap Descriptor.items
  extendedText key := e.descriptors.flatMap (Descriptor.extendedText settings key)

def Event.dataTaken (settings : Settings) (e : Event) : Data :=
  { e.data settings with
    ratings := e.descriptors.flatMap Descriptor.ratingsTaken
    item := e.descriptors.flatMap Descriptor.itemsTaken }

/-! ## Descriptors -/

def takeRating (e : SIevent) (r : Rating) : SIevent := { e with ratings := e.ratings ++ [r.parental] }

def takeContent (e : SIevent) (c : Content) : SIevent :=
  { e with
    contentClassification := e.contentClassification ++ [c.nibbles]
    userClassification := e.userClassification ++ [c.user] }

def takeItem (e : SIevent) (i : Item) : SIevent :=
  (e.addItemDescription i.description.bytes).addItem i.text.fromLength

/-- What the parser takes of a descriptor. -/
def Descriptor.take (settings : Settings) (e : SIevent) : Descriptor → SIevent
  | rating entries => entries.dropLast.foldl takeRating e
  | content entries => entries.foldl takeContent e
  | extendedEvent _ language items text =>
    (items.foldl takeItem e).appendExtendedText settings
      (cString [language.1, language.2.1, language.2.2]) text.bytes

theorem codeTable_printable {c : Byte} (h : 0x20 ≤ c) : codeTable c = 0 := by
  unfold codeTable
  rw [if_neg, if_neg, if_neg (UInt8.not_lt.mpr h)]
  · rintro rfl
    exact absurd h (by decide)
  · rintro rfl
    exact absurd h (by decide)

theorem toNat_ofNat {n : Nat} (h : n < 256) : (UInt8.ofNat n).toNat = n := by
  rw [UInt8.toNat_ofNat', Nat.mod_eq_of_lt h]

namespace Text

variable (t : Text)

theorem bytes_pos : 0 < t.bytes.length := Nat.succ_pos _

theorem field_length : t.field.length = t.bytes.length + 1 := rfl

theorem length_ne_zero (h : t.bytes.length < 256) : UInt8.ofNat t.bytes.length ≠ 0 := by
  rw [ne_zero_iff, toNat_ofNat h]
  exact Nat.pos_iff_ne_zero.mp t.bytes_pos

theorem fromLength_length : t.fromLength.length = t.bytes.length := by
  rw [fromLength, List.length_cons, List.length_dropLast]
  have := t.bytes_pos
  omega

/-- A field is what the parser takes of an item, and the last character. -/
theorem field_eq : ∃ last, t.field = t.fromLength ++ [last] := by
  refine ⟨t.bytes.getLast (List.length_pos_iff.mp t.bytes_pos), ?_⟩
  rw [field, fromLength, List.cons_append, List.dropLast_append_getLast]

end Text

section
variable {buf rest : Str} {maxlen i : Nat}

theorem drop_succ {c : Byte} (h : buf.drop i = c :: rest) : buf.drop (i + 1) = rest :=
  drop_behind (s := [c]) h

theorem cutText_of_drop {t : Text} (h : buf.drop i = t.bytes ++ rest)
    (hfit : i + t.bytes.length ≤ maxlen) (hsmall : maxlen < 2 ^ 31) :
    cutText buf maxlen i t.bytes.length = some t.bytes := by
  unfold cutText
  rw [bind_of_some (read_of_drop h), codeTable_printable t.printable, Nat.add_zero,
    sub32_of_le (by omega) (by omega), sub32_of_le (Nat.zero_le _) (by omega),
    Nat.min_eq_right (by omega)]
  exact string_of_drop h (by omega)

theorem itemStep_of_drop {x : Item} (e : SIevent) (h : buf.drop i = x.bytes ++ rest)
    (hfit : i + x.bytes.length ≤ maxlen) (hsmall : maxlen < 2 ^ 31) (hbyte : x.bytes.length < 256) :
    itemStep buf maxlen i e = some (i + x.bytes.length, takeItem e x) := by
  have hlength : x.bytes.length = x.description.bytes.length + 1 + (x.text.bytes.length + 1) := by
    rw [Item.bytes, List.length_append, Text.field_length, Text.field_length]
  rw [Item.bytes, List.append_assoc, Text.field, List.cons_append] at h
  have hdescription := drop_succ h
  have htext := drop_behind hdescription
  obtain ⟨last, hfield⟩ := x.text.field_eq
  have hfrom :
    buf.drop (i + 1 + x.description.bytes.length) = x.text.fromLength ++ (last :: rest) := by
    rw [htext, hfield, List.append_assoc]
    rfl
  have hstring := string_of_drop hfrom (by rw [Text.fromLength_length]; omega)
  rw [Text.fromLength_length] at hstring
  unfold itemStep
  rw [bind_of_some (read_of_drop h)]
  have hn := toNat_ofNat (n := x.description.bytes.length) (by omega)
  have hm := toNat_ofNat (n := x.text.bytes.length) (by omega)
  rw [withText, if_pos (x.description.length_ne_zero (by omega)), hn,
    cutText_of_drop hdescription (by omega) hsmall, Option.map_some,
    bind_of_some rfl, bind_of_some (read_of_drop htext), withText,
    if_pos (x.text.length_ne_zero (by omega)), hm, sub32_of_le (by omega) (by omega),
    Nat.min_eq_right (by omega), hstring, Option.map_some]
  have hnext : i + 1 + x.description.bytes.length + 1 + x.text.bytes.length =
      i + x.bytes.length := by omega
  rw [← hnext]
  rfl

/-- An entry is in the loop as a whole. -/
theorem length_le_flatMap {α : Type} (enc : α → Str) {x : α} {xs : List α} (h : x ∈ xs) :
    (enc x).length ≤ (xs.flatMap enc).length := by
  obtain ⟨before, behind, rfl⟩ := List.append_of_mem h
  rw [List.flatMap_append, List.flatMap_cons, List.length_append, List.length_append]
  omega

theorem contentStep_of_drop {c : Content} (e : SIevent) (h : buf.drop i = c.bytes ++ rest) :
    contentStep buf i e = some (i + c.bytes.length, takeContent e c) := by
  have huser : buf.drop (i + 1) = c.user :: rest := drop_succ h
  unfold contentStep
  rw [bind_of_some (read_of_drop h), bind_of_some (read_of_drop huser)]
  rfl

theorem ratingStep_of_drop {r : Rating} (e : SIevent) (h : buf.drop i = r.bytes ++ rest) :
    ratingStep buf i e = some (i + r.bytes.length, takeRating e r) := by
  have hcountry : buf.drop i = r.parental.countryCode ++ (r.rating :: rest) := h
  have hrating : buf.drop (i + 3) = r.rating :: rest := drop_behind hcountry
  have hstring : string buf i 3 = some r.parental.countryCode :=
    string_of_drop hcountry (Nat.lt_of_le_of_lt (m := 3) (Nat.le_refl 3) (by decide))
  unfold ratingStep
  rw [bind_of_some hstring, bind_of_some (read_of_drop hrating)]
  rfl

theorem read_length (d : Descriptor) (rest : Str) :
    Buffer.read (d.encode ++ rest) 1 = some (UInt8.ofNat d.body.length) := rfl

theorem parseContentDescriptor_of_layout (settings : Settings) (entries : List Content)
    (e : SIevent) (rest : Str) (hshort : (Descriptor.content entries).body.length < 256)
    (hfit : (Descriptor.content entries).body.length + 2 ≤ maxlen) :
    parseContentDescriptor ((Descriptor.content entries).encode ++ rest) maxlen e =
      some ((Descriptor.content entries).take settings e) := by
  unfold parseContentDescriptor
  rw [bind_of_some (read_length _ rest), toNat_ofNat hshort, if_neg (by omega)]
  have hmoves := contentStep_moves ((Descriptor.content entries).encode ++ rest)
    ((Descriptor.content entries).body.length + 1)
  have hwalk : walk (contentStep ((Descriptor.content entries).encode ++ rest)) _ 2 e = _ :=
    walk_segments Content.bytes takeContent 1 hmoves entries
      (fun c _ i e rest h _ _ => contentStep_of_drop e h) (fun _ _ => Nat.lt_succ_self 1) rfl
      (by change _ ≤ 2 + (Descriptor.content entries).body.length; omega)
      (by change 2 + (Descriptor.content entries).body.length ≤ _; omega)
  rw [bind_of_some hwalk]
  rfl

theorem parseParentalRatingDescriptor_of_layout (settings : Settings) (entries : List Rating)
    (e : SIevent) (rest : Str) (hshort : (Descriptor.rating entries).body.length < 256)
    (hfit : (Descriptor.rating entries).body.length + 2 ≤ maxlen) :
    parseParentalRatingDescriptor ((Descriptor.rating entries).encode ++ rest) maxlen e =
      some ((Descriptor.rating entries).take settings e) := by
  unfold parseParentalRatingDescriptor
  rw [bind_of_some (read_length _ rest), toNat_ofNat hshort, if_neg (by omega)]
  rcases List.eq_nil_or_concat entries with rfl | ⟨front, last, rfl⟩
  · rfl
  · -- the loop ends where the last entry begins
    rw [List.concat_eq_append]
    have hlength : (Descriptor.rating (front ++ [last])).body.length =
        (front.flatMap Rating.bytes).length + 4 := by
      rw [Descriptor.body, List.flatMap_append, List.length_append]
      rfl
    have hdrop : ((Descriptor.rating (front ++ [last])).encode ++ rest).drop 2 =
        front.flatMap Rating.bytes ++ (last.bytes ++ rest) := by
      change (Descriptor.rating (front ++ [last])).body ++ rest = _
      rw [Descriptor.body, List.flatMap_append, List.append_assoc]
      rfl
    have hmoves := ratingStep_moves ((Descriptor.rating (front ++ [last])).encode ++ rest)
      ((Descriptor.rating (front ++ [last])).body.length - 2)
    have hwalk :
        walk (ratingStep ((Descriptor.rating (front ++ [last])).encode ++ rest)) _ 2 e = _ :=
      walk_segments Rating.bytes takeRating 0 hmoves front
        (fun r _ i e rest h _ _ => ratingStep_of_drop e h) (fun _ _ => Nat.succ_pos 3) hdrop
        (by omega) (by omega)
    rw [bind_of_some hwalk, Descriptor.take, List.dropLast_concat]
    rfl

theorem parseExtendedEventDescriptor_of_layout (settings : Settings) (number : Byte)
    (language : Byte × Byte × Byte) (items : List Item) (text : Text) (e : SIevent) (rest : Str)
    (hshort : (Descriptor.extendedEvent number language items text).body.length < 256)
    (hfit : (Descriptor.extendedEvent number language items text).body.length + 2 ≤ maxlen)
    (hsmall : maxlen < 2 ^ 31) :
    parseExtendedEventDescriptor settings
        ((Descriptor.extendedEvent number language items text).encode ++ rest) maxlen e =
      some ((Descriptor.extendedEvent number language items text).take settings e) := by
  have hlength : (Descriptor.extendedEvent number language items text).body.length =
      (items.flatMap Item.bytes).length + text.bytes.length + 6 := by
    simp only [Descriptor.body, List.length_cons, List.length_append, Text.field_length]
    omega
  generalize hbuf : (Descriptor.extendedEvent number language items text).encode ++ rest = buf
  have hdrop : buf.drop 7 = items.flatMap Item.bytes ++ (text.field ++ rest) := by
    rw [← hbuf, ← List.append_assoc]
    rfl
  have hlanguage : languageCode buf 3 = some (cString [language.1, language.2.1, language.2.2]) := by
    rw [← hbuf]
    rfl
  have hread1 := read_length (.extendedEvent number language items text) rest
  rw [hbuf] at hread1
  have hread6 : Buffer.read buf 6 = some (UInt8.ofNat (items.flatMap Item.bytes).length) := by
    rw [← hbuf]
    rfl
  have htext := drop_behind hdrop
  have hbytes := drop_succ htext
  have hpos := text.bytes_pos
  have hmoves := itemStep_moves buf maxlen (7 + (items.flatMap Item.bytes).length)
  have hwalk : walk (itemStep buf maxlen) _ 7 e = _ :=
    walk_segments Item.bytes takeItem 0 hmoves items
      (fun x hx i e rest h _ hi => by
        have hle := length_le_flatMap Item.bytes hx
        exact itemStep_of_drop e h (by omega) hsmall (by omega))
      (fun x _ => Nat.succ_pos _) hdrop (by omega) (by omega)
  unfold parseExtendedEventDescriptor
  rw [bind_of_some hread1, toNat_ofNat hshort, if_neg (by omega), bind_of_some hlanguage,
    bind_of_some hread6, toNat_ofNat (by omega), bind_of_some hwalk,
    bind_of_some (read_of_drop htext), withText, if_pos (text.length_ne_zero (by omega)),
    toNat_ofNat (by omega), cutText_of_drop hbytes (by omega) hsmall]
  rfl

theorem parseDescriptor_of_layout (settings : Settings) (d : Descriptor) (e : SIevent) (rest : Str)
    (hshort : d.body.length < 256) (hfit : d.body.length + 2 ≤ maxlen) (hsmall : maxlen < 2 ^ 31) :
    parseDescriptor settings (d.encode ++ rest) maxlen e = some (d.take settings e) := by
  have htag : Buffer.read (d.encode ++ rest) 0 = some d.tag := rfl
  unfold parseDescriptor
  rw [bind_of_some htag]
  cases d with
  | rating entries =>
    rw [Descriptor.tag, if_neg (by decide), if_neg (by decide), if_neg (by decide),
      if_neg (by decide), if_pos rfl]
    exact parseParentalRatingDescriptor_of_layout settings entries e rest hshort hfit
  | content entries =>
    rw [Descriptor.tag, if_neg (by decide), if_neg (by decide), if_pos rfl]
    exact parseContentDescriptor_of_layout settings entries e rest hshort hfit
  | extendedEvent number language items text =>
    rw [Descriptor.tag, if_neg (by decide), if_pos rfl]
    exact parseExtendedEventDescriptor_of_layout settings number language items text e rest hshort
      hfit hsmall

theorem encode_length (d : Descriptor) : d.encode.length = d.body.length + 2 := rfl

theorem checkedStep_of_drop (settings : Settings) {d : Descriptor} {total : Nat} (e : SIevent)
    (h : buf.drop i = d.encode ++ rest) (hshort : d.body.length < 256)
    (hfit : i + d.encode.length ≤ total) (hsmall : total < 2 ^ 31) :
    checkedStep (parseDescriptor settings) buf total i e =
      some (i + d.encode.length, d.take settings e) := by
  rw [encode_length] at hfit ⊢
  have hlength := read_of_drop (drop_succ h)
  unfold checkedStep
  rw [h, bind_of_some (parseDescriptor_of_layout settings d e rest hshort (by omega) (by omega)),
    bind_of_some hlength, toNat_ofNat hshort, if_neg (by omega)]
  rfl

/-! ## Events -/

theorem parseDescriptors_of_layout (settings : Settings) (x : Event) (e : SIevent) (rest : Str) :
    parseDescriptors settings (x.encode ++ rest) (12 + x.loop.length) e =
      some (x.descriptors.foldl (Descriptor.take settings) e) := by
  have hfits := x.fits
  have hlast :
    12 + (x.descriptors.flatMap Descriptor.encode).length ≤ 12 + x.loop.length - 1 + 1 := by
    rw [Event.loop]
    omega
  have hdrop : (x.encode ++ rest).drop 12 = x.descriptors.flatMap Descriptor.encode ++ rest := by
    rw [Event.encode, List.append_assoc]
    rfl
  have hmoves := checkedStep_moves (parseDescriptor settings) (x.encode ++ rest) (12 + x.loop.length)
  have hwalk : walk (checkedStep (parseDescriptor settings) (x.encode ++ rest) _) _ 12 e = _ :=
    walk_segments Descriptor.encode (Descriptor.take settings) 1 hmoves x.descriptors
      (fun d hd i e rest h _ hi => checkedStep_of_drop settings e h (x.short d hd) (by omega)
        (by rw [Event.loop]; omega))
      (fun d _ => by rw [encode_length]; omega) hdrop (by rw [Event.loop]; omega) hlast
  unfold parseDescriptors
  rw [bind_of_some hwalk]
  rfl

/-- What is taken of the header of an event. -/
def Event.initial (settings : Settings) (header : Str) (x : Event) : SIevent :=
  let startTime := settings.changeUTCtoCtime
    [x.start.1, x.start.2.1, x.start.2.2.1, x.start.2.2.2.1, x.start.2.2.2.2]
  let duration := bcdSeconds x.duration.1 x.duration.2.1 x.duration.2.2
  { serviceId := wordAt header 3, originalNetworkId := wordAt header 10
    transportStreamId := wordAt header 8, eventID := x.id
    langName := .empty, langText := .empty, langExtendedText := .empty
    itemDescription := [], item := [], contentClassification := [], userClassification := []
    components := [], ratings := [], linkageDescs := []
    times := if startTime ≠ 0 ∧ duration ≠ 0 then OrdMap.empty.insertNew startTime duration
      else .empty
    noTime := settings.noTime, tableId := (header.getD 0 0).toNat
    running := (UInt8.ofNat (x.status.val * 16 + x.loop.length / 256) >>> 5).toNat }

theorem word_of_bytes (w : UInt16) : UInt16.ofNat ((UInt8.ofNat (w.toNat / 256)).toNat * 256 +
    (UInt8.ofNat (w.toNat % 256)).toNat) = w := by
  have hw := w.toNat_lt
  rw [toNat_ofNat (by omega), toNat_ofNat (by omega), Nat.mul_comm, Nat.div_add_mod,
    UInt16.ofNat_toNat]

theorem ofEitEvent_of_layout (settings : Settings) (x : Event) (rest : Str) :
    ∃ e, SIevent.ofEitEvent settings (x.encode ++ rest) = some e ∧ ∀ header,
      { e with
        serviceId := wordAt header 3, originalNetworkId := wordAt header 10
        transportStreamId := wordAt header 8, tableId := (header.getD 0 0).toNat } =
        x.initial settings header := by
  have hid : word (x.encode ++ rest) 0 = some x.id := congrArg some (word_of_bytes x.id)
  have hdrop : (x.encode ++ rest).drop 2 =
      [x.start.1, x.start.2.1, x.start.2.2.1, x.start.2.2.2.1, x.start.2.2.2.2] ++
        ((x.encode ++ rest).drop 7) := rfl
  have hstart : string (x.encode ++ rest) 2 5 = some _ :=
    string_of_drop hdrop (Nat.lt_of_le_of_lt (m := 5) (Nat.le_refl 5) (by decide))
  unfold SIevent.ofEitEvent
  rw [bind_of_some hid, bind_of_some hstart]
  exact ⟨_, rfl, fun header => rfl⟩

theorem loopLength_of_layout (x : Event) (rest : Str) :
    loopLength (x.encode ++ rest) 10 = some x.loop.length := by
  have hfits : x.loop.length < 4096 := x.fits
  have hstatus := x.status.isLt
  have hloop : loopLength (x.encode ++ rest) 10 =
      some ((UInt8.ofNat (x.status.val * 16 + x.loop.length / 256) &&& 0x0F).toNat * 256 +
        (UInt8.ofNat (x.loop.length % 256)).toNat) := rfl
  have hmask (c : Byte) : (c &&& 0x0F).toNat = c.toNat % 16 := by
    rw [UInt8.toNat_and]
    exact Nat.and_two_pow_sub_one_eq_mod c.toNat 4
  rw [hloop, hmask, toNat_ofNat (by omega), toNat_ofNat (by omega)]
  congr 1
  omega

theorem word_of_header {header : Str} {i : Nat} (rest : Str) (h : i + 1 < header.length) :
    word (header ++ rest) i = some (wordAt header i) := by
  unfold word Buffer.read wordAt
  rw [List.getElem?_append_left (by omega), List.getElem?_append_left h, List.getD, List.getD,
    List.getElem?_eq_getElem (by omega), List.getElem?_eq_getElem h]
  rfl

/-- The event that the set is given. -/
def Event.taken (settings : Settings) (header : Str) (x : Event) : SIevent :=
  x.descriptors.foldl (Descriptor.take settings) (x.initial settings header)

def addEvent (settings : Settings) (header : Str) (evts : OrdMap Nat SIevent) (x : Event) :
    OrdMap Nat SIevent :=
  evts.insertNew (x.taken settings header).uniqueKey (x.taken settings header)

theorem encode_length_event (x : Event) : x.encode.length = 12 + x.loop.length := by
  rw [Event.encode, List.length_append]
  rfl

theorem eventStep_of_drop (settings : Settings) {header behind : Str} (hheader : header.length = 14)
    (hbuf : buf = header ++ behind) {x : Event} (evts : OrdMap Nat SIevent)
    (h : buf.drop i = x.encode ++ rest) :
    eventStep settings buf i evts =
      some (i + x.encode.length, addEvent settings header evts x) := by
  obtain ⟨e, he, hinitial⟩ := ofEitEvent_of_layout settings x rest
  have hword {i : Nat} (hi : i + 1 < 14) : word buf i = some (wordAt header i) := by
    rw [hbuf]
    exact word_of_header behind (by omega)
  have htable : Buffer.read buf 0 = some (header.getD 0 0) := by
    rw [hbuf, Buffer.read, List.getElem?_append_left (by omega), List.getD,
      List.getElem?_eq_getElem (by omega)]
    rfl
  have htotal : min (buf.length - i) (12 + x.loop.length) = 12 + x.loop.length := by
    have hlength := congrArg List.length h
    rw [List.length_drop, List.length_append, encode_length_event] at hlength
    omega
  unfold eventStep
  rw [h]
  simp only [bind_of_some he, bind_of_some (hword (i := 3) (by decide)),
    bind_of_some (hword (i := 10) (by decide)), bind_of_some (hword (i := 8) (by decide)),
    bind_of_some htable, bind_of_some (loopLength_of_layout x rest), hinitial header, htotal,
    bind_of_some (parseDescriptors_of_layout settings x _ rest), encode_length_event]
  rfl

/-- What the parser makes of a section in the layout. -/
theorem parse_encode (settings : Settings) (s : Layout) :
    parse settings s.encode = some (s.events.foldl (addEvent settings s.header) .empty) := by
  have hlength : s.encode.length = 14 + (s.events.flatMap Event.encode).length + 4 := by
    rw [Layout.encode, List.length_append, List.length_append, s.header_length, s.crc_length]
  have hbuf : s.encode = s.header ++ (s.events.flatMap Event.encode ++ s.crc) := by
    rw [Layout.encode, List.append_assoc]
  unfold parse
  split
  · rename_i hshort
    -- a section as short as this has no event
    cases hevents : s.events with
    | nil => rfl
    | cons x xs =>
      rw [hevents, List.flatMap_cons, List.length_append, encode_length_event] at hlength
      omega
  · rename_i hlong
    have h26 : 26 ≤ s.encode.length := Nat.not_lt.mp hlong
    have hdrop : s.encode.drop 14 = s.events.flatMap Event.encode ++ s.crc := by
      rw [hbuf, ← s.header_length, List.drop_left]
    have hwalk : walk (eventStep settings s.encode) _ 14 .empty = _ :=
      walk_segments Event.encode (addEvent settings s.header) 8 (eventStep_moves settings h26)
        s.events
        (fun x _ i evts rest h _ _ => eventStep_of_drop settings s.header_length hbuf evts h)
        (fun x _ => by rw [encode_length_event]; omega) hdrop (by omega) (by omega)
    rw [bind_of_some hwalk]
    rfl

end

end Tuxbox.Sectionsd.SIsectionEIT
