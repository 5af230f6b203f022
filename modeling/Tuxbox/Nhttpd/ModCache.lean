import Tuxbox.Lib.OrdMap
import Tuxbox.Lib.Bytes
import Tuxbox.Lib.Run

/-!
# The web cache

`CmodCache` keeps answers in files and a list that says which url is in which
file. A file is named by the number of entries the list has.
-/

namespace Tuxbox.Nhttpd

structure TCache where
  filename : Str
  mimeType : Str
  category : Str
  created : Int
  deriving DecidableEq

abbrev TCacheList := OrdMap Str TCache

/-- The list, and the files of the box. -/
structure CmodCache where
  cacheList : TCacheList
  files : Str → Option Str

/-- The first entry of the category, taken out. -/
def TCacheList.erasePass (category : Str) (l : TCacheList) : Option TCacheList :=
  (l.entries.find? fun e => e.2.category = category).map fun e => OrdMap.erase l e.1

/-- Passes over the list until one takes nothing out. -/
def TCacheList.restart (category : Str) : Nat → TCacheList → TCacheList
  | 0, l => l
  | n + 1, l =>
    match l.erasePass category with
    | none => l
    | some l' => restart category n l'

namespace CmodCache

/-- The name of the file the next content is written to. -/
def nextFile (dir : Str) (s : CmodCache) : Str := dir ++ chars "/" ++ decNat s.cacheList.size

/-- `fopen` empties the file. `fwrite` of an empty content does not return 1. -/
def addToCache (dir : Str) (s : CmodCache) (url content mimeType category : Str) (now : Int) :
    CmodCache :=
  let filename := s.nextFile dir
  let written := Function.update s.files filename (some content)
  if content ≠ [] then ⟨s.cacheList.set url ⟨filename, mimeType, category, now⟩, written⟩
  else ⟨s.cacheList, written⟩

def removeURLFromCache (s : CmodCache) (url : Str) : CmodCache :=
  match s.cacheList.find url with
  | none => s
  | some e => ⟨s.cacheList.erase url, Function.update s.files e.filename none⟩

def removeCategoryFromCache (s : CmodCache) (category : Str) : CmodCache :=
  { s with cacheList := TCacheList.restart category s.cacheList.size s.cacheList }

def deleteCache (s : CmodCache) : CmodCache := { s with cacheList := .empty }

/-- The file that is sent for the url, if it is in the cache. -/
def sendFile (s : CmodCache) (url : Str) : Option (Option Str) :=
  (s.cacheList.find url).map fun e => s.files e.filename

end CmodCache

inductive CacheCall where
  | addToCache (url content mimeType category : Str) (now : Int)
  | removeURLFromCache (url : Str)
  | removeCategoryFromCache (category : Str)
  | deleteCache

/-- The cache, and the content most recently added for each url. -/
structure Cached where
  cache : CmodCache
  latest : Str → Option Str

def Cached.start (files : Str → Option Str) : Cached := ⟨⟨.empty, files⟩, fun _ => none⟩

def Cached.step (dir : Str) (s : Cached) : CacheCall → Cached
  | .addToCache url content mimeType category now =>
    ⟨s.cache.addToCache dir url content mimeType category now,
      Function.update s.latest url (some content)⟩
  | .removeURLFromCache url => { s with cache := s.cache.removeURLFromCache url }
  | .removeCategoryFromCache category => { s with cache := s.cache.removeCategoryFromCache category }
  | .deleteCache => { s with cache := s.cache.deleteCache }

/-! ## Removal -/

section
variable {l : TCacheList} {category url : Str}

theorem size_erase_lt {e : TCache} (h : l.find url = some e) : (l.erase url).size < l.size := by
  apply List.length_filter_lt_length_iff_exists.mpr
  exact ⟨(url, e), (OrdMap.find_eq_some l url e).mp h, by simp⟩

theorem find_restart (n : Nat) (hn : l.size ≤ n) :
    (TCacheList.restart category n l).find url =
      (l.find url).filter fun e => e.category ≠ category := by
  induction n generalizing l with
  | zero =>
    have hnone : l.find url = none := by
      apply Option.eq_none_iff_forall_not_mem.mpr
      intro e he
      have hmem := (OrdMap.find_eq_some l url e).mp he
      have hpos := List.length_pos_of_mem hmem
      have hsize : l.entries.length ≤ 0 := hn
      omega
    rw [TCacheList.restart, hnone]
    rfl
  | succ n ih =>
    rw [TCacheList.restart, TCacheList.erasePass]
    cases hfind : l.entries.find? fun e => decide (e.2.category = category) with
    | none =>
      have hkeep : ∀ e, l.find url = some e → e.category ≠ category := fun e he => by
        have hmem := (OrdMap.find_eq_some l url e).mp he
        simpa using List.find?_eq_none.mp hfind _ hmem
      cases hurl : l.find url with
      | none => exact hurl
      | some e =>
        have hne := hkeep e hurl
        simpa [Option.filter, hne] using hurl
    | some e =>
      have hcat : e.2.category = category := by simpa using List.find?_some hfind
      have hmem : l.find e.1 = some e.2 :=
        (OrdMap.find_eq_some l e.1 e.2).mpr (List.mem_of_find?_eq_some hfind)
      have hless : (l.erase e.1).size ≤ n := by
        have := size_erase_lt hmem
        omega
      have hrest := ih hless
      dsimp only [Option.map_some]
      rw [hrest, OrdMap.find_erase]
      by_cases hurl : url = e.1
      · subst hurl
        rw [if_pos rfl, hmem]
        simp [Option.filter, hcat]
      · rw [if_neg hurl]

end


/-! ## Each url its own content -/

/-- Every url in the list has a file with what was last added for it, and no other
url has that file. -/
structure Cached.Serves (s : Cached) : Prop where
  content : ∀ url e, s.cache.cacheList.find url = some e →
    ∃ text, s.latest url = some text ∧ s.cache.files e.filename = some text
  apart : ∀ url url' e e', s.cache.cacheList.find url = some e →
    s.cache.cacheList.find url' = some e' → e.filename = e'.filename → url = url'

/-- What a removal promises. -/
def CacheCall.Removed (s : Cached) : CacheCall → Prop
  | .removeURLFromCache url => s.cache.cacheList.find url = none
  | .removeCategoryFromCache category =>
    ∀ url e, s.cache.cacheList.find url = some e → e.category ≠ category
  | .deleteCache => ∀ url, s.cache.cacheList.find url = none
  | .addToCache .. => True

/-- The file the number of entries names is not in use for another url. Empty
content is not entered: it may only meet a file that it was to be written to, or
that is empty as well. -/
def CacheCall.Permitted (dir : Str) (s : Cached) : CacheCall → Prop
  | .addToCache url content _ _ _ =>
    (∀ url' e, s.cache.cacheList.find url' = some e → e.filename = s.cache.nextFile dir →
      url' = url ∨ content = [] ∧ s.cache.files e.filename = some []) ∧
    (content = [] → ∀ e, s.cache.cacheList.find url = some e →
      e.filename = s.cache.nextFile dir ∨ s.cache.files e.filename = some [])
  | _ => True

section
variable {dir url content mimeType category : Str} {now : Int} {s : Cached}

theorem Cached.Serves.subset (h : s.Serves) {l : TCacheList}
    (hl : ∀ url e, l.find url = some e → s.cache.cacheList.find url = some e) :
    Cached.Serves { s with cache := { s.cache with cacheList := l } } where
  content url e he := h.content url e (hl url e he)
  apart url url' e e' he he' := h.apart url url' e e' (hl url e he) (hl url' e' he')

/-- What is left when a category is removed. -/
theorem find_removeCategory (category url : Str) :
    (s.cache.removeCategoryFromCache category).cacheList.find url =
      (s.cache.cacheList.find url).filter fun e => e.category ≠ category :=
  find_restart s.cache.cacheList.size (Nat.le_refl _)

theorem Cached.Serves.removeURL (h : s.Serves) (url : Str) :
    Cached.Serves { s with cache := s.cache.removeURLFromCache url } := by
  unfold CmodCache.removeURLFromCache
  cases hurl : s.cache.cacheList.find url with
  | none => exact h
  | some e =>
    have hother : ∀ url' e', (s.cache.cacheList.erase url).find url' = some e' →
        url' ≠ url ∧ s.cache.cacheList.find url' = some e' := fun url' e' he => by
      rw [OrdMap.find_erase] at he
      by_cases hsame : url' = url
      · rw [if_pos hsame] at he
        cases he
      · rw [if_neg hsame] at he
        exact ⟨hsame, he⟩
    constructor
    · intro url' e' he
      obtain ⟨hne, he⟩ := hother url' e' he
      obtain ⟨text, hlatest, hfile⟩ := h.content url' e' he
      have hname : e'.filename ≠ e.filename := fun heq => hne (h.apart url' url e' e he hurl heq)
      exact ⟨text, hlatest, (Function.update_of_ne hname _ _).trans hfile⟩
    · intro url' url'' e' e'' he he'
      exact h.apart url' url'' e' e'' (hother url' e' he).2 (hother url'' e'' he').2

/-- Content that is written and entered. -/
theorem serves_entered_iff (h : s.Serves) (hne : content ≠ []) :
    (s.step dir (.addToCache url content mimeType category now)).Serves ↔
      ∀ url' e, s.cache.cacheList.find url' = some e → e.filename = s.cache.nextFile dir →
        url' = url := by
  have hstep : s.step dir (.addToCache url content mimeType category now) =
      ⟨⟨s.cache.cacheList.set url ⟨s.cache.nextFile dir, mimeType, category, now⟩,
        Function.update s.cache.files (s.cache.nextFile dir) (some content)⟩,
        Function.update s.latest url (some content)⟩ := by
    simp only [Cached.step, CmodCache.addToCache, if_pos hne]
  rw [hstep]
  constructor
  · intro hafter url' e he hname
    by_contra hother
    have hkept : (s.cache.cacheList.set url ⟨s.cache.nextFile dir, mimeType, category, now⟩).find
        url' = some e := by rw [OrdMap.find_set_ne _ _ hother, he]
    exact hother (hafter.apart url' url e _ hkept (OrdMap.find_set_self _ _ _) hname)
  · intro hfree
    have hkept : ∀ url' e, url' ≠ url →
        (s.cache.cacheList.set url ⟨s.cache.nextFile dir, mimeType, category, now⟩).find url' =
          some e → s.cache.cacheList.find url' = some e ∧ e.filename ≠ s.cache.nextFile dir :=
      fun url' e hother he => by
        rw [OrdMap.find_set_ne _ _ hother] at he
        exact ⟨he, fun hname => hother (hfree url' e he hname)⟩
    have hown : ∀ e, (s.cache.cacheList.set url
        ⟨s.cache.nextFile dir, mimeType, category, now⟩).find url = some e →
          e.filename = s.cache.nextFile dir := fun e he => by
      rw [OrdMap.find_set_self] at he
      cases he
      rfl
    constructor
    · intro url' e he
      by_cases hother : url' = url
      · subst hother
        exact ⟨content, Function.update_self ..,
          (congrArg _ (hown e he)).trans (Function.update_self ..)⟩
      · obtain ⟨he, hname⟩ := hkept url' e hother he
        obtain ⟨text, hlatest, hfile⟩ := h.content url' e he
        exact ⟨text, (Function.update_of_ne hother _ _).trans hlatest,
          (Function.update_of_ne hname _ _).trans hfile⟩
    · intro url₁ url₂ e₁ e₂ he₁ he₂ heq
      by_cases h₁ : url₁ = url
      · by_cases h₂ : url₂ = url
        · rw [h₁, h₂]
        · subst h₁
          exact absurd (heq.symm.trans (hown e₁ he₁)) (hkept url₂ e₂ h₂ he₂).2
      · by_cases h₂ : url₂ = url
        · subst h₂
          exact absurd (heq.trans (hown e₂ he₂)) (hkept url₁ e₁ h₁ he₁).2
        · exact h.apart url₁ url₂ e₁ e₂ (hkept url₁ e₁ h₁ he₁).1 (hkept url₂ e₂ h₂ he₂).1 heq

/-- Empty content is written, and the list stays as it is. -/
theorem serves_empty_iff (h : s.Serves) :
    (s.step dir (.addToCache url [] mimeType category now)).Serves ↔
      CacheCall.Permitted dir s (.addToCache url [] mimeType category now) := by
  have hstep : s.step dir (.addToCache url [] mimeType category now) =
      ⟨⟨s.cache.cacheList, Function.update s.cache.files (s.cache.nextFile dir) (some [])⟩,
        Function.update s.latest url (some [])⟩ := by
    simp only [Cached.step, CmodCache.addToCache, ne_eq, not_true_eq_false, if_false]
  rw [hstep]
  constructor
  · intro hafter
    constructor
    · intro url' e he hname
      by_cases hother : url' = url
      · exact .inl hother
      · obtain ⟨text, hlatest, hfile⟩ := hafter.content url' e he
        obtain ⟨text', hlatest', hfile'⟩ := h.content url' e he
        dsimp only at hlatest hfile
        rw [Function.update_of_ne hother] at hlatest
        rw [hname, Function.update_self] at hfile
        obtain rfl := Option.some_inj.mp hfile
        exact .inr ⟨rfl, by rw [hfile', ← hlatest', hlatest]⟩
    · intro _ e he
      by_cases hname : e.filename = s.cache.nextFile dir
      · exact .inl hname
      · obtain ⟨text, hlatest, hfile⟩ := hafter.content url e he
        dsimp only at hlatest hfile
        rw [Function.update_self] at hlatest
        rw [Function.update_of_ne hname] at hfile
        exact .inr (hfile.trans hlatest.symm)
  · rintro ⟨hother, hown⟩
    constructor
    · intro url' e he
      obtain ⟨text, hlatest, hfile⟩ := h.content url' e he
      by_cases hurl : url' = url
      · subst hurl
        apply Exists.intro []
        rcases hown rfl e he with hname | hempty
        · exact ⟨Function.update_self .., (congrArg _ hname).trans (Function.update_self ..)⟩
        · by_cases hname : e.filename = s.cache.nextFile dir
          · exact ⟨Function.update_self .., (congrArg _ hname).trans (Function.update_self ..)⟩
          · exact ⟨Function.update_self .., (Function.update_of_ne hname _ _).trans hempty⟩
      · have hlatest' := (Function.update_of_ne hurl (some []) s.latest).trans hlatest
        apply Exists.intro text
        by_cases hname : e.filename = s.cache.nextFile dir
        · obtain ⟨-, hempty⟩ := (hother url' e he hname).resolve_left hurl
          have htext : text = [] := Option.some_inj.mp (hfile.symm.trans hempty)
          exact ⟨hlatest', by rw [htext]; exact (congrArg _ hname).trans (Function.update_self ..)⟩
        · exact ⟨hlatest', (Function.update_of_ne hname _ _).trans hfile⟩
    · exact h.apart

/-- When one call keeps every url with its own content. -/
theorem serves_step_iff (h : s.Serves) (call : CacheCall) :
    (s.step dir call).Serves ↔ call.Permitted dir s := by
  cases call with
  | addToCache url content mimeType category now =>
    by_cases hempty : content = []
    · subst hempty
      exact serves_empty_iff h
    · rw [serves_entered_iff h hempty]
      simp only [CacheCall.Permitted, hempty, false_and, or_false, false_imp_iff, and_true]
  | removeURLFromCache url => exact iff_of_true (h.removeURL url) trivial
  | removeCategoryFromCache category =>
    have hkept : ∀ url e, (s.cache.removeCategoryFromCache category).cacheList.find url = some e →
        s.cache.cacheList.find url = some e := fun url e he => by
      rw [find_removeCategory] at he
      exact (Option.filter_eq_some_iff.mp he).1
    exact iff_of_true (h.subset hkept) trivial
  | deleteCache =>
    have hnone : ∀ url e, OrdMap.find (OrdMap.empty : TCacheList) url = some e →
        s.cache.cacheList.find url = some e := fun url e he => by cases he
    exact iff_of_true (h.subset hnone) trivial

theorem step_removed (s : Cached) (call : CacheCall) : call.Removed (s.step dir call) := by
  cases call with
  | addToCache => trivial
  | removeURLFromCache url =>
    change (s.cache.removeURLFromCache url).cacheList.find url = none
    unfold CmodCache.removeURLFromCache
    cases hurl : s.cache.cacheList.find url with
    | none => exact hurl
    | some e => simp
  | removeCategoryFromCache category =>
    intro url e he
    change (s.cache.removeCategoryFromCache category).cacheList.find url = some e at he
    rw [find_removeCategory] at he
    simpa using (Option.filter_eq_some_iff.mp he).2
  | deleteCache => exact fun url => rfl

end

/-- What the cache sends is what was added. -/
theorem Cached.Serves.sendFile {s : Cached} (h : s.Serves) {url : Str} {sent : Option Str}
    (hs : s.cache.sendFile url = some sent) : sent = s.latest url ∧ sent ≠ none := by
  obtain ⟨e, he, rfl⟩ := Option.map_eq_some_iff.mp hs
  obtain ⟨text, hlatest, hfile⟩ := h.content url e he
  rw [hfile, hlatest]
  exact ⟨rfl, Option.some_ne_none text⟩

/-- In all states of a sequence of calls each url has its own content, if and only if
each call meets the condition. A removal always removes, and what is sent for a url
in such a state is the content last added for it. -/
theorem served_iff_permitted (dir : Str) (files : Str → Option Str) (calls : List CacheCall) :
    (Keeps (fun s call => some (s.step dir call)) Cached.Serves (.start files) calls ↔
      Permits (fun s call => some (s.step dir call)) (fun s call => call.Permitted dir s)
        (.start files) calls) ∧
    (∀ (s : Cached) (call : CacheCall), call.Removed (s.step dir call)) ∧
    ∀ (s : Cached), s.Serves → ∀ url sent, s.cache.sendFile url = some sent →
      sent = s.latest url ∧ sent ≠ none := by
  have hstart : (Cached.start files).Serves := by
    constructor
    · intro url e he
      cases he
    · intro url url' e e' he
      cases he
  refine ⟨?_, step_removed, fun s h url sent => h.sendFile⟩
  exact keeps_iff_permits_total (I := fun _ => True) (P := Cached.Serves)
    (f := Cached.step dir) (fun _ _ _ => trivial) (fun s call _ hs => serves_step_iff hs call)
    trivial hstart calls

/-- A url that is added again, and another one: both are served from file 1. -/
def addedTwice : List CacheCall :=
  [.addToCache (chars "/a") (chars "1") [] (chars "c") 0,
    .addToCache (chars "/a") (chars "2") [] (chars "c") 0,
    .addToCache (chars "/b") (chars "3") [] (chars "c") 0]

theorem addedTwice_not_served :
    ¬ Keeps (fun s call => some (s.step (chars "/tmp") call)) Cached.Serves
      (.start fun _ => none) addedTwice := by
  intro h
  have hserves := h.run rfl
  have hurl := hserves.apart (chars "/a") (chars "/b") ⟨chars "/tmp/1", [], chars "c", 0⟩
    ⟨chars "/tmp/1", [], chars "c", 0⟩ (by decide) (by decide) rfl
  revert hurl
  decide

end Tuxbox.Nhttpd
