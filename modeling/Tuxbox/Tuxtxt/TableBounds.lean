import Tuxbox.Tuxtxt.CacheFold
import Tuxbox.Tuxtxt.Tables

/-!
# Indices of the teletext tables
-/

namespace Tuxbox.Tuxtxt

open Prog

/-- Pages and subpages in use are in range, and what a magazine collects is allocated. -/
structure Cache.Bounded (c : Cache) : Prop where
  collecting : ∀ m p s, c.collecting m = some (p, s) →
    p < 0x900 ∧ s < 0x80 ∧ c.astCachetable (p, s) ≠ none
  subpages : ∀ p s, c.subpagetable p = some s → s < 0x80

structure Tables.Bounded (t : Tables) : Prop where
  cache : t.cache.Bounded
  flofpages : ∀ p l, t.flofpages p l < 0x900
  maxadippg : -1 ≤ t.maxadippg ∧ t.maxadippg ≤ 9

/-- A page that is looked up: its subpage is the one the table gives. -/
def Cache.cachedPage (c : Cache) (p : Nat) : Option PageData :=
  (c.subpagetable p).bind fun s => (c.astCachetable (p, s)).map TstCachedPage.decompress

section
variable {c c' c'' : Cache} {r : Row} {m p s : Nat}

/-! ## The cache -/

theorem Cache.Bounded.frame (h : c.Bounded) (hcollecting : c'.collecting = c.collecting)
    (hpages : ∀ key, c.astCachetable key ≠ none → c'.astCachetable key ≠ none)
    (hsubpages : c'.subpagetable = c.subpagetable) : c'.Bounded := by
  refine ⟨fun m p s hc => ?_, fun p s hs => h.subpages p s (hsubpages ▸ hs)⟩
  rw [hcollecting] at hc
  obtain ⟨hp, hs, hpage⟩ := h.collecting m p s hc
  exact ⟨hp, hs, hpages _ hpage⟩

@[simp] theorem compressPage_subpagetable (c : Cache) (p s : Nat) (buffer : PageData) :
    (c.compressPage p s buffer).subpagetable = c.subpagetable := by
  unfold Cache.compressPage
  split <;> rfl

@[simp] theorem allocateCache_subpagetable (c : Cache) (p s : Nat) :
    (c.allocateCache p s).subpagetable = c.subpagetable := by
  unfold Cache.allocateCache
  split <;> rfl

@[simp] theorem setUpdate_subpagetable (c : Cache) (m : Nat) :
    (c.setUpdate m).subpagetable = c.subpagetable := by
  unfold Cache.setUpdate
  split
  · split
    · exact compressPage_subpagetable _ _ _ _
    · rfl
  · rfl

theorem Cache.Bounded.compressPage (h : c.Bounded) (p s : Nat) (buffer : PageData) :
    (c.compressPage p s buffer).Bounded := by
  obtain ⟨hcollecting, -, hothers⟩ := compressPage_frame c p s buffer
  refine h.frame hcollecting (fun key hkey => ?_) (compressPage_subpagetable _ _ _ _)
  by_cases heq : key = (p, s)
  · subst heq
    rw [compressPage_page hkey]
    exact Option.some_ne_none _
  · rwa [hothers key heq]

theorem Cache.Bounded.setUpdate (h : c.Bounded) (m : Nat) : (c.setUpdate m).Bounded := by
  unfold Cache.setUpdate
  split
  case h_1 p s hc =>
    split
    · exact (h.compressPage p s (c.pagedata m)).frame rfl (fun _ hkey => hkey) rfl
    · exact h
  case h_2 => exact h

theorem Cache.Bounded.writeBack (h : c.Bounded) (m : Nat) : (c.writeBack m).Bounded := by
  unfold Cache.writeBack
  split
  case h_1 p s hc => exact h.compressPage p s (c.pagedata m)
  case h_2 => exact h

theorem Cache.Bounded.storeRow (h : c.Bounded) (m p n : Nat) (r : Row) :
    (c.storeRow m p n r).Bounded := by
  unfold Cache.storeRow
  split
  · exact h.frame rfl (fun _ hkey => hkey) rfl
  · exact h

theorem Row.magazine_le (r : Row) : r.magazine ≤ 8 := by
  unfold Row.magazine
  split <;> omega

theorem names_bounded (h : r.names = some (p, s)) : p < 0x900 ∧ s < 0x80 := by
  obtain ⟨h2, h3, hp⟩ := Row.names_eq h
  have hm := r.magazine_le
  have h4 := r.dehammed_cases 4
  refine ⟨by rw [hp, Row.pageNumber]; omega, ?_⟩
  unfold Row.names at h
  split at h
  case isTrue => cases h
  split at h
  case isTrue => cases h
  split at h
  case isTrue => cases h
  case isFalse hham =>
    cases h
    unfold Row.subpageNumber
    split <;> omega

theorem openPage_subpagetable (c : Cache) (m p s : Nat) (r : Row) :
    (c.openPage m p s r).subpagetable = Function.update c.subpagetable p (some s) := by
  unfold Cache.openPage
  dsimp only
  split <;> split <;> split <;> simp [Cache.erasePage]

theorem Cache.Bounded.openPage (h : c.Bounded) (hnames : r.names = some (p, s))
    (h5 : r.dehammed 5 < 16) (m : Nat) : (c.openPage m p s r).Bounded := by
  obtain ⟨hp, hs⟩ := names_bounded hnames
  obtain ⟨opened, hopened, heq⟩ := openPage_opened (c := c) (m := m) (p := p) (s := s) h5
  have hsubpages : opened.subpagetable = Function.update c.subpagetable p (some s) := by
    rw [← openPage_subpagetable c m p s r]
    rcases heq with heq | heq
    · rw [heq]
    · rw [heq, setUpdate_subpagetable]
  have hbounded : opened.Bounded := by
    constructor
    · intro m' p' s' hc
      rw [hopened.collecting] at hc
      obtain ⟨pg, hpg, -⟩ := hopened.page
      have hkeep : ∀ key, key ≠ (p, s) → c.astCachetable key ≠ none →
          opened.astCachetable key ≠ none := fun key hkey hpage => by
        rwa [hopened.others key hkey]
      have hhere : opened.astCachetable (p, s) ≠ none := by
        rw [hpg]
        exact Option.some_ne_none _
      split at hc
      · cases hc
        exact ⟨hp, hs, hhere⟩
      · obtain ⟨hp', hs', hpage⟩ := h.collecting m' p' s' hc
        refine ⟨hp', hs', ?_⟩
        by_cases hkey : (p', s') = (p, s)
        · rw [hkey]
          exact hhere
        · exact hkeep _ hkey hpage
    · intro p' s' hs'
      rw [hsubpages] at hs'
      by_cases hp' : p' = p
      · subst hp'
        rw [Function.update_self] at hs'
        cases hs'
        exact hs
      · rw [Function.update_of_ne hp'] at hs'
        exact h.subpages p' s' hs'
  rcases heq with heq | heq
  · rwa [heq]
  · rw [heq]
    exact hbounded.setUpdate m

theorem Cache.Bounded.dropped (h : c.Bounded) (hd : Dropped c c' m)
    (hsubpages : c'.subpagetable = c.subpagetable) : c'.Bounded := by
  refine ⟨fun m' p s hc => ?_, fun p s hs => h.subpages p s (hsubpages ▸ hs)⟩
  rw [hd.collecting] at hc
  split at hc
  · cases hc
  · rw [hd.pages]
    exact h.collecting m' p s hc

/-- A header without a page changes no subpage. -/
theorem header_nameless_subpagetable (h : r.names = none) :
    (c.header r.magazine r).subpagetable = c.subpagetable := by
  simp only [Cache.header]
  split
  · rfl
  · split
    · rfl
    · split
      · rfl
      · rw [Row.names, if_neg (by omega), if_neg (by omega), if_neg (by omega)] at h
        cases h

theorem Cache.Bounded.header (h : c.Bounded) (r : Row) : (c.header r.magazine r).Bounded := by
  cases hnames : r.names with
  | none => exact h.dropped (header_nameless hnames) (header_nameless_subpagetable hnames)
  | some page =>
    obtain ⟨hheader, h5⟩ := header_named (c := c) (p := page.1) (s := page.2) hnames
    rw [hheader]
    exact h.openPage hnames h5 r.magazine

/-! ## Programs -/

/-- From bounded tables the program ends, having used indices in range only, with
bounded tables and with what is expected of the cache. -/
def Turns {α : Type} (c : Cache) (p : Thread α) (c' : Cache) : Prop :=
  Triple Access.InRange (fun t => t.Bounded ∧ t.cache = c) p fun _ t => t.Bounded ∧ t.cache = c'

namespace Thread

@[simp] theorem ends_use {a : Access} {u : Unit} {t t' : Tables} :
    Ends Access.InRange (use a) t u t' ↔ a.InRange ∧ t' = t := by
  unfold use
  by_cases ha : a.InRange
  · simp [ha]
  · simp [ha]

variable {α β : Type}

theorem turns_pure (a : α) : Turns c (pure a : Thread α) c := triple_pure fun _ ht => ht

theorem turns_use {a : Access} (h : a.InRange) : Turns c (use a) c :=
  fun t ht => ⟨(), t, ends_use.mpr ⟨h, rfl⟩, ht⟩

theorem turns_bind {p : Thread α} {f : α → Thread β} (hp : Turns c p c')
    (hf : ∀ a, Turns c' (f a) c'') : Turns c (p >>= f) c'' := Triple.bind hp hf

/-- What follows may use what it reads. -/
theorem turns_get {f : Tables → Thread α} (hf : ∀ t, t.Bounded → t.cache = c → Turns c (f t) c') :
    Turns c (get >>= f) c' := by
  intro t ht
  obtain ⟨a, t', hend, ht'⟩ := hf t ht.1 ht.2 t ht
  exact ⟨a, t', ends_bind.mpr ⟨t, t, ends_get.mpr ⟨rfl, rfl⟩, hend⟩, ht'⟩

theorem turns_modify {f : Tables → Tables}
    (hf : ∀ t, t.Bounded → t.cache = c → (f t).Bounded ∧ (f t).cache = c') :
    Turns c (modify f) c' := triple_modify fun t ht => hf t ht.1 ht.2

theorem turns_modifyCache {f : Cache → Cache} (hf : c.Bounded → (f c).Bounded) :
    Turns c (modifyCache f) (f c) := by
  refine turns_modify fun t ht hc => ?_
  subst hc
  exact ⟨⟨hf ht.cache, ht.flofpages, ht.maxadippg⟩, rfl⟩

/-! ## Rows -/

theorem turns_useCached {page : Option (Nat × Nat)}
    (h : ∀ p s, page = some (p, s) → p < 0x900 ∧ s < 0x80) : Turns c (useCached page) c := by
  cases page with
  | none => exact turns_pure ()
  | some page => exact turns_use (h page.1 page.2 rfl)

theorem turns_writeBack (m : Nat) : Turns c (writeBack m) (c.writeBack m) := by
  refine turns_get fun t ht _ => turns_bind (turns_useCached fun p s hcol => ?_) fun _ =>
    turns_modifyCache fun h => h.writeBack m
  obtain ⟨hp, hs, -⟩ := ht.cache.collecting m p s hcol
  exact ⟨hp, hs⟩

theorem turns_setUpdate (m : Nat) : Turns c (setUpdate m) (c.setUpdate m) := by
  refine turns_get fun t ht _ => turns_bind (turns_useCached fun p s hcol => ?_) fun _ =>
    turns_modifyCache fun h => h.setUpdate m
  obtain ⟨hp, hs, -⟩ := ht.cache.collecting m p s (Option.filter_eq_some_iff.mp hcol).1
  exact ⟨hp, hs⟩

theorem allocateCache_tables (t : Tables) (p s : Nat) :
    (t.allocateCache p s).cache = t.cache ∧ (t.Bounded → (t.allocateCache p s).Bounded) := by
  unfold Tables.allocateCache
  split
  · exact ⟨rfl, fun ht => ht⟩
  · exact ⟨rfl, fun ht => ⟨ht.cache, ht.flofpages, ht.maxadippg⟩⟩

theorem turns_openPage (hnames : r.names = some (p, s)) (h5 : r.dehammed 5 < 16) (m : Nat) :
    Turns c (openPage m p s r) (c.openPage m p s r) := by
  obtain ⟨hp, hs⟩ := names_bounded hnames
  refine turns_bind (turns_use hp) fun _ => turns_bind (turns_use ⟨hp, hs⟩) fun _ => ?_
  refine @turns_bind _ c _ _ _ _ _ (turns_modify fun t ht hc => ?_) fun _ =>
    turns_modifyCache fun h => h.openPage hnames h5 m
  obtain ⟨hcache, hbounded⟩ := allocateCache_tables t p s
  exact ⟨hbounded ht, hcache.trans hc⟩

theorem turns_header (r : Row) : Turns c (header r.magazine r) (c.header r.magazine r) := by
  have hleft : Turns c (modifyCache fun c => c.header r.magazine r) (c.header r.magazine r) :=
    turns_modifyCache fun h => h.header r
  have h2 := r.dehammed_cases 2
  have h3 := r.dehammed_cases 3
  have h4 := r.dehammed_cases 4
  have h5 := r.dehammed_cases 5
  unfold header
  dsimp only
  split
  case isTrue => exact hleft
  case isFalse hpage =>
    split
    case isTrue => exact hleft
    case isFalse hdata =>
      split
      case isTrue => exact hleft
      case isFalse hsubpage =>
        have hnames : r.names = some (r.pageNumber, r.subpageNumber) := by
          rw [Row.names, if_neg (by omega), if_neg (by omega), if_neg (by omega)]
        have hp : r.magazine <<< 8 ||| r.dehammed 3 <<< 4 ||| r.dehammed 2 = r.pageNumber :=
          pageNumber_bits (by omega) (by omega)
        have hmod : r.dehammed 5 % 8 < 16 := by omega
        have hdigits := digits_bits hmod (show r.dehammed 4 < 16 by omega)
        rw [(header_named hnames).1, hp, and_seven, hdigits]
        exact turns_openPage hnames (by omega) r.magazine

theorem turns_storeRow (m p s n : Nat) (r : Row) :
    Turns c (storeRow m p s n r) (c.storeRow m p n r) := by
  unfold storeRow
  split
  case isTrue => exact turns_modifyCache fun h => h.storeRow m p n r
  case isFalse hlast =>
    have hstore : c.storeRow m p n r = c := dif_neg (by omega)
    rw [hstore]
    exact turns_modify fun t ht hc => ⟨⟨ht.cache, ht.flofpages, ht.maxadippg⟩, hc⟩

theorem flofLink_lt {b1 byte link : Nat} (h : r.flofLink b1 byte = some link) : link < 0x900 := by
  unfold Row.flofLink at h
  dsimp only at h
  split at h
  case isTrue => cases h
  case isFalse =>
    split at h
    case isFalse => cases h
    case isTrue hdec =>
      cases h
      obtain ⟨h2, h3⟩ := hdec
      rw [pageNumber_bits (by omega) (by omega)]
      have hmag : ∀ a b : Nat, (if a &&& 6 ||| b &&& 1 = 0 then 8 else a &&& 6 ||| b &&& 1) ≤ 8 := by
        intro a b
        have hsix : a &&& 6 < 2 ^ 3 := Nat.and_lt_two_pow a (by decide)
        have hone : b &&& 1 < 2 ^ 3 := Nat.and_lt_two_pow b (by decide)
        have hor := Nat.or_lt_two_pow hsix hone
        split <;> omega
      have hle :=
        hmag (b1 ^^^ r.dehammed (8 + byte * 6) >>> 1) (b1 ^^^ r.dehammed (6 + byte * 6) >>> 3)
      omega

theorem turns_storeLinks (hp : p < 0x900) (b1 : Nat) (r : Row) (bytes : List Nat) :
    Turns c (storeLinks p b1 r bytes) c := by
  induction bytes with
  | nil => exact turns_pure ()
  | cons byte bytes ih =>
    refine @turns_bind _ c _ _ _ _ _ ?_ fun _ => ih
    cases hlink : r.flofLink b1 byte with
    | none => exact turns_pure ()
    | some link =>
      refine turns_bind (turns_use hp) fun _ => turns_modify fun t ht hc => ⟨⟨ht.cache, ?_,
        ht.maxadippg⟩, hc⟩
      intro p' l
      have hlt := flofLink_lt hlink
      dsimp only
      by_cases hp' : p' = p
      · subst hp'
        rw [Function.update_self, Function.update_apply]
        split
        · exact hlt
        · exact ht.flofpages p' l
      · rw [Function.update_of_ne hp']
        exact ht.flofpages p' l

theorem turns_copyLinks (hp : p < 0x900) (text : List Byte) (l e : Nat) :
    Turns c (copyLinks p text l e) c := by
  induction l generalizing e with
  | zero => exact turns_pure ()
  | succ l ih =>
    cases l with
    | zero => exact turns_pure ()
    | succ l =>
      rw [copyLinks]
      refine turns_bind (turns_use hp) fun _ => turns_get fun t ht hc => ?_
      split
      · exact ih e
      · split
        · exact turns_bind (turns_use (ht.flofpages _ _)) fun _ => ih _
        · exact ih 0

theorem turns_extendedLink (r : Row) (i : Nat) : Turns c (extendedLink r i) c := by
  unfold extendedLink
  split
  case h_1 =>
    dsimp only
    split
    · exact turns_pure ()
    · split
      · exact turns_pure ()
      · refine turns_use ⟨?_, by decide⟩
        omega
  case h_2 => exact turns_pure ()

theorem turns_extendedLinks (r : Row) (is : List Nat) : Turns c (extendedLinks r is) c := by
  induction is with
  | nil => exact turns_pure ()
  | cons i is ih => exact turns_bind (turns_extendedLink r i) fun _ => ih

theorem turns_pageLinks (hp : p < 0x900) (s : Nat) (r : Row) : Turns c (pageLinks p s r) c := by
  unfold pageLinks
  dsimp only
  split
  · split
    · exact turns_pure ()
    · refine turns_bind (turns_storeLinks hp _ r _) fun _ => turns_get fun t ht hc => ?_
      split
      · exact turns_copyLinks hp _ 3 39
      · exact turns_pure ()
  · split
    · exact turns_extendedLinks r _
    · exact turns_pure ()

/-- The thread keeps the tables bounded and treats the cache as `Cache.receiveRow`. -/
theorem turns_receiveRow (r : Row) : Turns c (receiveRow r) (c.receiveRow r) := by
  have h0 := r.dehammed_cases 0
  have h1 := r.dehammed_cases 1
  unfold receiveRow Cache.receiveRow
  dsimp only
  split
  case isTrue => exact turns_pure ()
  case isFalse hham =>
    have hpacket : (r.dehammed 0 &&& 8) >>> 3 ||| r.dehammed 1 <<< 1 = r.packetNumber :=
      packetNumber_bits (by omega) (by omega)
    have hmagazine : (if r.dehammed 0 &&& 7 = 0 then 8 else r.dehammed 0 &&& 7) = r.magazine := by
      rw [and_seven]
      rfl
    rw [hpacket, hmagazine]
    split
    case isTrue => exact turns_bind (turns_writeBack r.magazine) fun _ => turns_header r
    case isFalse hheader =>
      split
      case isTrue => exact turns_setUpdate r.magazine
      case isFalse =>
        refine turns_get fun t ht hc => ?_
        subst hc
        cases hcol : t.cache.collecting r.magazine with
        | none => exact turns_setUpdate r.magazine
        | some page =>
          obtain ⟨hp, hs, -⟩ := ht.cache.collecting r.magazine page.1 page.2 hcol
          refine turns_bind (turns_use ⟨hp, hs⟩) fun _ => ?_
          split
          case isTrue =>
            exact turns_bind (turns_storeRow _ _ _ _ r) fun _ =>
              turns_setUpdate r.magazine
          case isFalse =>
            split
            case isTrue => exact turns_pure ()
            case isFalse =>
              split
              case isTrue =>
                exact turns_bind (turns_pageLinks hp page.2 r) fun _ => turns_setUpdate r.magazine
              case isFalse => exact turns_setUpdate r.magazine

/-! ## The basic top table -/

theorem ends_cachedPage {t t' : Tables} (hc : t.cache.Bounded) {p : Nat} {page : Option PageData} :
    Ends Access.InRange (cachedPage p) t page t' ↔
      p < 0x900 ∧ page = t.cache.cachedPage p ∧ t' = t := by
  have hrange : (Access.page .subpagetable p).InRange ↔ p < 0x900 := Iff.rfl
  unfold cachedPage Cache.cachedPage
  simp only [ends_bind, ends_use, ends_get]
  cases hsub : t.cache.subpagetable p with
  | none => simp [hsub, hrange]
  | some s =>
    have hs := hc.subpages p s hsub
    have hcached : (Access.cached p s).InRange ↔ p < 0x900 := ⟨fun h => h.1, fun h => ⟨h, hs⟩⟩
    have hrest : ∀ {q : Prop}, p < 0x900 → ((p < 0x900 ∧ t' = t) ∧ q ↔ q ∧ t' = t) := fun hp =>
      ⟨fun h => ⟨h.2, h.1.2⟩, fun h => ⟨⟨hp, h.2⟩, h.1⟩⟩
    simpa [hsub, hrange, hcached] using hrest

theorem turns_cachedPage (hp : p < 0x900) : Turns c (cachedPage p) c := by
  intro t ht
  exact ⟨_, t, (ends_cachedPage ht.1.cache).mpr ⟨hp, rfl, rfl⟩, ht⟩

theorem nextDec_lt (i : Nat) : nextDec i < 0x900 := by
  have hcap : ∀ i : Nat, (if 0x899 < i then 0x100 else i) < 0x900 := fun i => by split <;> omega
  exact hcap _

theorem turns_topTable (btt : PageData) (is : List Nat) {current : Nat} (h : current < 0x900) :
    Turns c (topTable btt is current) c := by
  induction is generalizing current with
  | nil => exact turns_pure true
  | cons i is ih =>
    unfold topTable
    dsimp only
    generalize (if btt.get i = 32 then 0 else btt.dehammed i) = b1
    split
    · exact turns_pure false
    · refine turns_bind (turns_use (a := .page .basictop current) h) fun _ => ?_
      refine @turns_bind _ c _ _ _ _ _ (turns_modify fun t ht hc => ?_) fun _ =>
        ih (nextDec_lt current)
      exact ⟨⟨ht.cache, ht.flofpages, ht.maxadippg⟩, hc⟩

/-- There is a place for each entry that follows. -/
theorem triple_linkTable (btt : PageData) (is : List Nat) :
    Triple Access.InRange
      (fun t => (t.Bounded ∧ t.cache = c) ∧ t.maxadippg + (is.length : Int) ≤ 9) (linkTable btt is)
      fun _ t => t.Bounded ∧ t.cache = c := by
  induction is with
  | nil => exact triple_pure fun _ ht => ht.1
  | cons i is ih =>
    have hrest : Triple Access.InRange
        (fun t => (t.Bounded ∧ t.cache = c) ∧ t.maxadippg + ((i :: is).length : Int) ≤ 9)
          (linkTable btt is)
        fun _ t => t.Bounded ∧ t.cache = c := by
      refine ih.weaken (fun t ht => ⟨ht.1, ?_⟩) fun _ _ ht => ht
      have hmax := ht.2
      rw [List.length_cons] at hmax
      omega
    have hdone : ∀ b : Bool, Triple Access.InRange
        (fun t => (t.Bounded ∧ t.cache = c) ∧ t.maxadippg + ((i :: is).length : Int) ≤ 9)
        (pure b : Thread Bool) fun _ t => t.Bounded ∧ t.cache = c :=
      fun _ => triple_pure fun _ ht => ht.1
    unfold linkTable
    dsimp only
    split
    · exact hrest
    · split
      · exact hdone true
      · split
        · exact hrest
        · split
          · exact hdone false
          · intro t ht
            obtain ⟨⟨hbounded, hc⟩, hmax⟩ := ht
            have hrange := hbounded.maxadippg
            rw [List.length_cons] at hmax
            let t' := { t with
              maxadippg := t.maxadippg + 1
              adippg := Function.update t.adippg (t.maxadippg + 1).toNat
                (btt.dehammed (800 + 8 * i) <<< 8 ||| btt.dehammed (800 + 8 * i + 1) <<< 4 |||
                  btt.dehammed (800 + 8 * i + 2)) }
            have ht' : (t'.Bounded ∧ t'.cache = c) ∧ t'.maxadippg + (is.length : Int) ≤ 9 := by
              refine ⟨⟨⟨hbounded.cache, hbounded.flofpages, ?_⟩, hc⟩, ?_⟩
              · show -1 ≤ t.maxadippg + 1 ∧ t.maxadippg + 1 ≤ 9
                omega
              · show t.maxadippg + 1 + (is.length : Int) ≤ 9
                omega
            obtain ⟨b, u, hend, hu⟩ := ih t' ht'
            have hplace : (Access.adippg (t.maxadippg + 1)).InRange :=
              ⟨by omega, by omega⟩
            refine ⟨b, u, ?_, hu⟩
            simp only [ends_bind, ends_get, ends_use, ends_modify]
            exact ⟨t, t, ⟨rfl, rfl⟩, (), t, ⟨hplace, rfl⟩, (), t', rfl, hend⟩

/-- `tuxtxt_decode_btt` keeps the tables bounded. -/
theorem turns_decodeBtt : Turns c decodeBtt c := by
  unfold decodeBtt
  refine turns_bind (turns_cachedPage (by decide)) fun page => ?_
  cases page with
  | none => exact turns_pure ()
  | some btt =>
    refine Triple.ite (fun _ => turns_pure ()) fun _ => ?_
    refine turns_bind (turns_topTable btt _ (by decide)) fun whole => ?_
    refine Triple.ite (fun _ => ?_) fun _ => turns_pure ()
    refine Triple.bind (Q := fun _ t => (t.Bounded ∧ t.cache = c) ∧
      t.maxadippg + ((List.range 10).length : Int) ≤ 9) (triple_modify fun t ht => ?_) fun _ => ?_
    · have hstart : (-1 : Int) ≤ -1 ∧ (-1 : Int) ≤ 9 := by decide
      have hlen : (-1 : Int) + ((List.range 10).length : Int) ≤ 9 := by decide
      exact ⟨⟨⟨ht.1.cache, ht.1.flofpages, hstart⟩, ht.2⟩, hlen⟩
    · refine (triple_linkTable btt _).bind fun whole => ?_
      refine Triple.ite (fun _ => ?_) fun _ => turns_pure ()
      exact turns_modify fun t ht hc => ⟨⟨ht.cache, ht.flofpages, ht.maxadippg⟩, hc⟩

end Thread

end

end Tuxbox.Tuxtxt
