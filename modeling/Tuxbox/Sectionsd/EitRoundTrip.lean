import Tuxbox.Sectionsd.EitLayout

/-!
# Reading an event information section back
-/

namespace Tuxbox.Sectionsd.SIsectionEIT

open Buffer

/-! ## What is taken -/

theorem foldl_takeRating (entries : List Rating) (e : SIevent) :
    entries.foldl takeRating e = { e with ratings := e.ratings ++ entries.map Rating.parental } := by
  induction entries generalizing e with
  | nil => simp
  | cons r entries ih => simp [ih, takeRating]

theorem foldl_takeContent (entries : List Content) (e : SIevent) :
    entries.foldl takeContent e = { e with
      contentClassification := e.contentClassification ++ entries.map Content.nibbles
      userClassification := e.userClassification ++ entries.map Content.user } := by
  induction entries generalizing e with
  | nil => simp
  | cons c entries ih => simp [ih, takeContent]

theorem foldl_takeItem (items : List Item) (e : SIevent) :
    items.foldl takeItem e = { e with
      itemDescription := e.itemDescription ++ items.flatMap fun i => i.description.bytes ++ [newline]
      item := e.item ++ items.flatMap fun i => i.text.fromLength ++ [newline] } := by
  induction items generalizing e with
  | nil => simp
  | cons i items ih => simp [ih, takeItem, SIevent.addItemDescription, SIevent.addItem]

/-- A descriptor adds to the data of the event, and changes nothing else. -/
theorem take_frame (settings : Settings) (e : SIevent) (d : Descriptor) :
    ∃ texts : OrdMap Str Str, d.take settings e = { e with
        ratings := e.ratings ++ d.ratingsTaken
        contentClassification := e.contentClassification ++ d.contents
        userClassification := e.userClassification ++ d.users
        itemDescription := e.itemDescription ++ d.itemDescriptions
        item := e.item ++ d.itemsTaken
        langExtendedText := texts } ∧
      ∀ key, (texts.find key).getD [] = e.extendedText key ++ d.extendedText settings key := by
  cases d with
  | rating entries =>
    refine ⟨e.langExtendedText, ?_, fun key => (List.append_nil _).symm⟩
    simp [Descriptor.take, foldl_takeRating, Descriptor.ratingsTaken, Descriptor.contents,
      Descriptor.users, Descriptor.itemDescriptions, Descriptor.itemsTaken]
  | content entries =>
    refine ⟨e.langExtendedText, ?_, fun key => (List.append_nil _).symm⟩
    simp [Descriptor.take, foldl_takeContent, Descriptor.ratingsTaken, Descriptor.contents,
      Descriptor.users, Descriptor.itemDescriptions, Descriptor.itemsTaken]
  | extendedEvent number language items text =>
    let key := settings.textKey (cString [language.1, language.2.1, language.2.2])
    refine ⟨e.langExtendedText.set key (e.extendedText key ++ text.bytes), ?_, fun key' => ?_⟩
    · simp [Descriptor.take, foldl_takeItem, Descriptor.ratingsTaken, Descriptor.contents,
        Descriptor.users, Descriptor.itemDescriptions, Descriptor.itemsTaken,
        SIevent.appendExtendedText, SIevent.extendedText, key]
    · rw [OrdMap.find_set]
      split
      · rename_i heq
        rw [heq, Option.getD_some, Descriptor.extendedText, if_pos rfl]
      · rename_i hne
        rw [Descriptor.extendedText, if_neg hne, List.append_nil]
        rfl

/-- The same of all descriptors of an event. -/
theorem foldl_take_frame (settings : Settings) (ds : List Descriptor) (e : SIevent) :
    ∃ texts : OrdMap Str Str, ds.foldl (Descriptor.take settings) e = { e with
        ratings := e.ratings ++ ds.flatMap Descriptor.ratingsTaken
        contentClassification := e.contentClassification ++ ds.flatMap Descriptor.contents
        userClassification := e.userClassification ++ ds.flatMap Descriptor.users
        itemDescription := e.itemDescription ++ ds.flatMap Descriptor.itemDescriptions
        item := e.item ++ ds.flatMap Descriptor.itemsTaken
        langExtendedText := texts } ∧
      ∀ key, (texts.find key).getD [] =
        e.extendedText key ++ ds.flatMap (Descriptor.extendedText settings key) := by
  induction ds generalizing e with
  | nil => exact ⟨e.langExtendedText, by simp, fun key => (List.append_nil _).symm⟩
  | cons d ds ih =>
    obtain ⟨texts, htake, htexts⟩ := take_frame settings e d
    obtain ⟨texts', hrest, htexts'⟩ := ih (d.take settings e)
    rw [htake] at hrest htexts'
    refine ⟨texts', ?_, fun key => ?_⟩
    · rw [List.foldl_cons, htake, hrest]
      simp only [List.flatMap_cons, List.append_assoc]
    · rw [htexts' key, List.flatMap_cons, ← List.append_assoc, ← htexts key]
      rfl

/-- The same data of an event that is stored. -/
def dataOf (v : SIevent) : Data :=
  ⟨v.ratings, v.contentClassification, v.userClassification, v.itemDescription, v.item,
    v.extendedText⟩

/-- The key of an event in a section. -/
def eventKey (header : Str) (id : UInt16) : Nat :=
  createEventId (createChannelId (wordAt header 3) (wordAt header 10) (wordAt header 8)) id

section
variable (settings : Settings) (header : Str)

theorem taken_uniqueKey (x : Event) : (x.taken settings header).uniqueKey = eventKey header x.id := by
  obtain ⟨texts, heq, -⟩ := foldl_take_frame settings x.descriptors (x.initial settings header)
  rw [Event.taken, heq]
  rfl

/-- The data that the parser takes of an event. -/
theorem taken_data (x : Event) : dataOf (x.taken settings header) = x.dataTaken settings := by
  obtain ⟨texts, heq, htexts⟩ := foldl_take_frame settings x.descriptors (x.initial settings header)
  rw [Event.taken, heq]
  have hext : ({ x.initial settings header with langExtendedText := texts } : SIevent).extendedText =
      fun key => x.descriptors.flatMap (Descriptor.extendedText settings key) := funext htexts
  unfold dataOf Event.dataTaken Event.data
  simp only [Event.initial, List.nil_append, Data.mk.injEq, true_and]
  exact hext

theorem eventKey_inj {id id' : UInt16} : eventKey header id = eventKey header id' ↔ id = id' := by
  constructor
  · intro h
    unfold eventKey createEventId at h
    rw [or_shift _ id.toNat_lt, or_shift _ id'.toNat_lt] at h
    exact UInt16.toNat_inj.mp (by omega)
  · rintro rfl
    rfl

/-- The set holds the first event of every key. -/
theorem find_addEvents (xs : List Event) (m : OrdMap Nat SIevent) (key : Nat) :
    (xs.foldl (addEvent settings header) m).find key = (m.find key).or
      ((xs.find? fun x => eventKey header x.id = key).map (Event.taken settings header)) := by
  induction xs generalizing m with
  | nil => simp
  | cons x xs ih =>
    rw [List.foldl_cons, ih, addEvent, OrdMap.find_insertNew, taken_uniqueKey, List.find?_cons]
    by_cases hkey : eventKey header x.id = key
    · subst hkey
      cases m.find (eventKey header x.id) <;> simp
    · simp [hkey, Ne.symm hkey]

end

/-! ## When it is what was encoded -/

/-- Concatenations of parts that are not longer than the others are equal part by part. -/
theorem flatMap_eq_iff {α β : Type} {f g : α → List β} {xs : List α}
    (hle : ∀ x ∈ xs, (f x).length ≤ (g x).length) :
    xs.flatMap f = xs.flatMap g ↔ ∀ x ∈ xs, f x = g x := by
  have hsum {ys : List α} (h : ∀ x ∈ ys, (f x).length ≤ (g x).length) :
      (ys.flatMap f).length ≤ (ys.flatMap g).length := by
    induction ys with
    | nil => exact Nat.le_refl 0
    | cons y ys ih =>
      rw [List.flatMap_cons, List.flatMap_cons, List.length_append, List.length_append]
      exact Nat.add_le_add (h y List.mem_cons_self) (ih fun x hx => h x (List.mem_cons_of_mem y hx))
  constructor
  · intro h
    induction xs with
    | nil => exact fun x hx => nomatch hx
    | cons x xs ih =>
      have hhead := hle x List.mem_cons_self
      have htail (y : α) (hy : y ∈ xs) := hle y (List.mem_cons_of_mem x hy)
      have hlength := congrArg List.length h
      have hrest := hsum htail
      rw [List.flatMap_cons, List.flatMap_cons] at h
      simp only [List.flatMap_cons, List.length_append] at hlength
      obtain ⟨hx, hxs⟩ := List.append_inj h (by omega)
      intro y hy
      rcases List.mem_cons.mp hy with rfl | hy
      · exact hx
      · exact ih htail hxs y hy
  · exact fun h => List.flatMap_congr h

/-- A shifted list is the list itself only if it has one value. -/
theorem cons_dropLast_eq_iff {α : Type} {c : α} {l : List α} (hl : l ≠ []) :
    c :: l.dropLast = l ↔ ∀ b ∈ l, b = c := by
  induction l generalizing c with
  | nil => exact absurd rfl hl
  | cons a l ih =>
    cases l with
    | nil => simp [eq_comm]
    | cons b l =>
      rw [List.dropLast_cons_of_ne_nil (List.cons_ne_nil b l), List.cons.injEq,
        ih (List.cons_ne_nil b l)]
      simp only [List.mem_cons, forall_eq_or_imp]
      constructor
      · rintro ⟨rfl, hb, hrest⟩
        exact ⟨rfl, hb, hrest⟩
      · rintro ⟨rfl, hb, hrest⟩
        exact ⟨rfl, hb, hrest⟩

/-- A text of as many characters as their code. -/
def Text.Plain (t : Text) : Prop := ∀ c ∈ t.bytes, c = UInt8.ofNat t.bytes.length

theorem Text.fromLength_eq_iff (t : Text) : t.fromLength = t.bytes ↔ t.Plain :=
  cons_dropLast_eq_iff (List.length_pos_iff.mp t.bytes_pos)

/-- No ratings, and all texts of items plain. -/
def Descriptor.Plain : Descriptor → Prop
  | rating entries => entries = []
  | content _ => True
  | extendedEvent _ _ items _ => ∀ i ∈ items, i.text.Plain

theorem plain_iff (d : Descriptor) :
    d.Plain ↔ d.ratingsTaken = d.ratings ∧ d.itemsTaken = d.items := by
  cases d with
  | rating entries =>
    constructor
    · rintro rfl
      exact ⟨rfl, rfl⟩
    · rintro ⟨h, -⟩
      have hlength := congrArg List.length h
      rw [Descriptor.ratingsTaken, Descriptor.ratings, List.length_map, List.length_map,
        List.length_dropLast] at hlength
      exact List.length_eq_zero_iff.mp (by omega)
  | content entries => exact iff_of_true trivial ⟨rfl, rfl⟩
  | extendedEvent number language items text =>
    have hlength (i : Item) : (i.text.fromLength ++ [newline]).length =
        (i.text.bytes ++ [newline]).length := by
      rw [List.length_append, List.length_append, Text.fromLength_length]
    rw [Descriptor.itemsTaken, Descriptor.items, flatMap_eq_iff fun i _ => (hlength i).le]
    simp only [List.append_cancel_right_eq, Text.fromLength_eq_iff]
    exact ⟨fun h => ⟨rfl, h⟩, fun h => h.2⟩

def Event.Plain (x : Event) : Prop := ∀ d ∈ x.descriptors, d.Plain

theorem ratingsTaken_length (d : Descriptor) : d.ratingsTaken.length ≤ d.ratings.length := by
  cases d with
  | rating entries =>
    rw [Descriptor.ratingsTaken, Descriptor.ratings, List.length_map, List.length_map,
      List.length_dropLast]
    omega
  | content entries => exact Nat.le_refl 0
  | extendedEvent number language items text => exact Nat.le_refl 0

theorem itemsTaken_length (d : Descriptor) : d.itemsTaken.length = d.items.length := by
  cases d with
  | rating entries => rfl
  | content entries => rfl
  | extendedEvent number language items text =>
    simp only [Descriptor.itemsTaken, Descriptor.items, List.length_flatMap, List.length_append,
      Text.fromLength_length]

/-- When the data taken is that of the event. -/
theorem dataTaken_eq_iff (settings : Settings) (x : Event) :
    x.dataTaken settings = x.data settings ↔ x.Plain := by
  have hratings : x.descriptors.flatMap Descriptor.ratingsTaken = _ ↔ _ :=
    flatMap_eq_iff fun d _ => ratingsTaken_length d
  have hitems : x.descriptors.flatMap Descriptor.itemsTaken = _ ↔ _ :=
    flatMap_eq_iff fun d _ => (itemsTaken_length d).le
  simp only [Event.dataTaken, Event.data, Data.mk.injEq, true_and, and_true, hratings, hitems]
  unfold Event.Plain
  simp only [plain_iff, forall_and]

/-! ## The round trip -/

/-- The parser ends with a set that holds every event of the section, with its data. -/
def ReadsBack (settings : Settings) (s : Layout) : Prop :=
  ∃ evts, parse settings s.encode = some evts ∧ ∀ x ∈ s.events,
    ∃ v, evts.find (eventKey s.header x.id) = some v ∧ dataOf v = x.data settings

theorem find_of_layout (settings : Settings) (s : Layout) (id : UInt16) :
    (s.events.foldl (addEvent settings s.header) .empty).find (eventKey s.header id) =
      (s.events.find? fun y => y.id = id).map (Event.taken settings s.header) := by
  rw [find_addEvents, OrdMap.find_empty, Option.none_or]
  simp only [eventKey_inj]

/-- A section is read back if and only if the first event of every number has neither ratings
nor texts of items that are not plain, and the others of that number carry its data. -/
theorem readsBack_iff (settings : Settings) (s : Layout) :
    ReadsBack settings s ↔ ∀ x ∈ s.events, ∃ y, s.events.find? (fun y => y.id = x.id) = some y ∧
      y.Plain ∧ y.data settings = x.data settings := by
  unfold ReadsBack
  rw [parse_encode]
  constructor
  · rintro ⟨evts, hevts, h⟩ x hx
    obtain rfl := Option.some_inj.mp hevts
    obtain ⟨v, hv, hdata⟩ := h x hx
    rw [find_of_layout] at hv
    obtain ⟨y, hy, rfl⟩ := Option.map_eq_some_iff.mp hv
    rw [taken_data] at hdata
    have hid : y.id = x.id := by simpa using List.find?_some hy
    -- the first event of the number is one of the events itself
    obtain ⟨v', hv', hself⟩ := h y (List.mem_of_find?_eq_some hy)
    rw [find_of_layout, hid, hy, Option.map_some, Option.some_inj] at hv'
    rw [← hv', taken_data] at hself
    exact ⟨y, hy, (dataTaken_eq_iff settings y).mp hself, hself.symm.trans hdata⟩
  · intro h
    refine ⟨_, rfl, fun x hx => ?_⟩
    obtain ⟨y, hy, hplain, hdata⟩ := h x hx
    refine ⟨y.taken settings s.header, ?_, ?_⟩
    · rw [find_of_layout, hy, Option.map_some]
    · rw [taken_data, (dataTaken_eq_iff settings y).mpr hplain, hdata]

/-- An event with one parental rating. -/
def rated : Event where
  id := 1
  start := (0xC0, 0x79, 0x12, 0x45, 0)
  duration := (1, 0x30, 0)
  status := 0
  descriptors := [.rating [⟨(68, 69, 85), 3⟩]]
  short := fun d hd => by
    obtain rfl := List.mem_singleton.mp hd
    decide
  fits := by decide

def ratedSection : Layout where
  header := [0x4E, 0xF0, 33, 0, 1, 0xC1, 0, 0, 0, 2, 0, 3, 0, 0x4E]
  header_length := rfl
  events := [rated]
  crc := [0, 0, 0, 0]
  crc_length := rfl

/-- The rating is not taken. -/
theorem rating_not_read : ¬ ∀ settings s, ReadsBack settings s := by
  intro h
  obtain ⟨evts, hparse, hall⟩ := h ⟨true, fun _ => 0, ⟨0, 0⟩⟩ ratedSection
  obtain ⟨v, hv, hdata⟩ := hall rated List.mem_cons_self
  have hnone : ((parse ⟨true, fun _ => 0, ⟨0, 0⟩⟩ ratedSection.encode).bind fun evts =>
      (evts.find (eventKey ratedSection.header 1)).map fun v => v.ratings.length) = some 0 := by
    decide
  rw [hparse, Option.bind_some] at hnone
  rw [show evts.find (eventKey ratedSection.header 1) = some v from hv] at hnone
  have hlength := congrArg (fun d => d.ratings.length) hdata
  have hzero : v.ratings.length = 0 := Option.some_inj.mp hnone
  exact absurd (hzero.symm.trans hlength) (by decide)

end Tuxbox.Sectionsd.SIsectionEIT
