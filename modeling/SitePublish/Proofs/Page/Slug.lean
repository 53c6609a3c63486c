import SitePublish.Proofs.Page.Place

/-!
# Slugs

A component gives its module the name of its type as a slug: words of small letters and digits with
single dashes between them, or nothing at all. What is written so is its own slug. With no slash and no
dot in it a slug leaves the module in the directory of its page, and the digits in front of it, which
end at the first dash, tell the modules of a page apart.
-/

set_option autoImplicit false

namespace SitePublish

namespace Generator

theorem twoDigits_eq (n : Nat) : twoDigits n = Decimal.padded 2 n := by
  have small : ∀ n < 10, twoDigits n = Decimal.padded 2 n := by decide
  by_cases single : n < 10
  · exact small n single
  · have front := List.length_pos_of_ne_nil (Decimal.natDigits_ne_nil (n / 10))
    have wide : 2 - (toString n).length = 0 := by
      rw [Decimal.length_toString, Decimal.natDigits_eq, if_neg single, List.length_append,
        List.length_singleton]
      omega
    rw [twoDigits, if_neg single, Decimal.padded, wide]
    exact String.empty_append.symm

def isSlugChar (c : Char) : Bool := ('a' ≤ c && c ≤ 'z') || ('0' ≤ c && c ≤ '9')

/-- No words at all, or words of small letters and digits with single dashes between them. -/
def IsSlug (s : String) : Prop :=
  s = "" ∨ ∃ words : List String, words ≠ [] ∧
    (∀ w ∈ words, w ≠ "" ∧ ∀ c ∈ w.toList, isSlugChar c = true) ∧ s = Text.joinWith '-' words

/-- Such characters with single dashes among them. The flag tells whether a dash may come first, as it
may behind a character, but not at the start and not behind another dash. -/
inductive Spaced : Bool → List Char → Prop
  | nil (behind : Bool) : Spaced behind []
  | letter {behind : Bool} {c : Char} {s : List Char} (known : isSlugChar c = true)
      (rest : Spaced true s) : Spaced behind (c :: s)
  | dash {s : List Char} (rest : Spaced false s) : Spaced true ('-' :: s)

def mayDash (last : Option Char) : Bool := last.isSome && last ≠ some '-'

section Characters

variable {c : Char}

theorem lt_of_isSlugChar (h : isSlugChar c = true) : c.toNat < 128 := by
  have route : Route.isRouteChar c = true := by
    rw [isSlugChar] at h
    rw [Route.isRouteChar, h]
    rfl
  rcases Text.isNameChar_of_isRouteChar route with name | rfl
  · exact Text.lt_of_isNameChar name
  · decide

theorem isSlugChar_toLower (h : c.isUpper = true) : isSlugChar c.toLower = true := by
  have small : c.toNat < 128 := Text.toNat_lt_of_isUpper h
  revert h
  exact Text.of_ascii (P := fun c => c.isUpper = true → isSlugChar c.toLower = true) (by decide) small

theorem isSlugChar_of_isAlphanum (h : c.isAlphanum = true) (small : ¬ c.isUpper = true) :
    isSlugChar c = true := by
  have ascii : c.toNat < 128 := Text.toNat_lt_of_isAlphanum h
  revert h small
  exact Text.of_ascii (P := fun c => c.isAlphanum = true → ¬ c.isUpper = true → isSlugChar c = true)
    (by decide) ascii

theorem plain_of_isSlugChar (h : isSlugChar c = true) :
    c.isUpper = false ∧ c.isAlphanum = true ∧ c ≠ '-' := by
  have ascii := lt_of_isSlugChar h
  revert h
  exact Text.of_ascii (P := fun c => isSlugChar c = true →
    c.isUpper = false ∧ c.isAlphanum = true ∧ c ≠ '-') (by decide) ascii

theorem mayDash_some (h : isSlugChar c = true) : mayDash (some c) = true := by
  simp [mayDash, (plain_of_isSlugChar h).2.2]

end Characters

section Spacing

variable {behind : Bool} {s t : List Char}

theorem spaced_kebabFrom {last : Option Char} {afterSmall : Bool}
    (known : afterSmall = true → mayDash last = true) (s : List Char) :
    Spaced (mayDash last) (kebabFrom last afterSmall s) := by
  induction s generalizing last afterSmall with
  | nil => exact .nil _
  | cons c s ih =>
    rw [kebabFrom]
    split
    · next upper =>
      have lower := isSlugChar_toLower upper
      have rest : Spaced true (kebabFrom (some c.toLower) false s) := mayDash_some lower ▸ ih (by simp)
      cases afterSmall with
      | false => exact .letter lower rest
      | true =>
        rw [known rfl]
        exact .dash (.letter lower rest)
    · next small =>
      split
      · next letter =>
        have slug := isSlugChar_of_isAlphanum letter small
        have rest : Spaced true (kebabFrom (some c) true s) :=
          mayDash_some slug ▸ ih fun _ => mayDash_some slug
        exact .letter slug rest
      · split
        · next may =>
          have rest : Spaced (mayDash (some '-')) (kebabFrom (some '-') false s) := ih (by simp)
          have behind : mayDash last = true := may
          rw [behind]
          exact .dash rest
        · exact ih (by simp)

theorem kebabFrom_of_spaced (h : Spaced behind s) {last : Option Char} (same : mayDash last = behind)
    (afterSmall : Bool) : kebabFrom last afterSmall s = s := by
  induction h generalizing last afterSmall with
  | nil => rfl
  | letter known _ ih =>
    obtain ⟨small, letter, -⟩ := plain_of_isSlugChar known
    rw [kebabFrom, small, letter, ih (mayDash_some known), if_neg Bool.false_ne_true, if_pos rfl]
  | dash _ ih =>
    have may : (last.isSome && last ≠ some '-') = true := same
    have upper : ¬ '-'.isUpper = true := by decide
    have letter : ¬ '-'.isAlphanum = true := by decide
    rw [kebabFrom, if_neg upper, if_neg letter, if_pos may, ih rfl]

theorem Spaced.front (h : Spaced behind (s ++ t)) : Spaced behind s := by
  induction s generalizing behind with
  | nil => exact .nil _
  | cons c s ih =>
    cases h with
    | letter known rest => exact .letter known (ih rest)
    | dash rest => exact .dash (ih rest)

theorem Spaced.known (h : Spaced behind s) : ∀ c ∈ s, isSlugChar c = true ∨ c = '-' := by
  induction h with
  | nil => exact nofun
  | letter known _ ih => exact List.forall_mem_cons.mpr ⟨Or.inl known, ih⟩
  | dash _ ih => exact List.forall_mem_cons.mpr ⟨Or.inr rfl, ih⟩

theorem nil_not_mem_splitChars_cons {c : Char} (ne : c ≠ '-') {s : List Char}
    (filled : [] ∉ Text.splitChars '-' s) : [] ∉ Text.splitChars '-' (c :: s) := by
  rw [Text.splitChars, if_neg ne]
  split
  · simp
  · next p ps split_eq =>
    rw [split_eq] at filled
    simpa using fun mem => filled (List.mem_cons_of_mem p mem)

/-- Without a dash at its end, what is spaced has no empty word, be it behind a character or not. -/
theorem Spaced.filled (h : Spaced behind s) (ends : ∀ c ∈ s.getLast?, c ≠ '-') :
    (∀ c, c ≠ '-' → [] ∉ Text.splitChars '-' (c :: s)) ∧
      (behind = false → s ≠ [] → [] ∉ Text.splitChars '-' s) := by
  induction h with
  | nil =>
    refine ⟨fun c ne => ?_, fun _ ne => absurd rfl ne⟩
    simp [Text.splitChars, ne]
  | @letter behind c s known rest ih =>
    have plain := (plain_of_isSlugChar known).2.2
    have word := (ih (Text.forall_getLast?_of_cons ends)).1 c plain
    exact ⟨fun d ne => nil_not_mem_splitChars_cons ne word, fun _ _ => word⟩
  | @dash s rest ih =>
    refine ⟨fun c ne => ?_, by simp⟩
    have more : s ≠ [] := by
      rintro rfl
      exact ends '-' rfl rfl
    have alone : Text.splitChars '-' [c] = [[c]] := by simp [Text.splitChars, ne]
    rw [← List.singleton_append, Text.splitChars_append, alone]
    simpa using (ih (Text.forall_getLast?_of_cons ends)).2 rfl more

theorem isSlug_of_spaced (h : Spaced false s) (ends : ∀ c ∈ s.getLast?, c ≠ '-') :
    IsSlug (String.ofList s) := by
  by_cases empty : s = []
  · exact Or.inl (by rw [empty, String.ofList_nil])
  · exact Or.inr (Text.exists_words ((h.filled ends).2 rfl empty) h.known)

end Spacing

theorem spaced_kebabCase (name : String) : Spaced false (kebabCase name).toList ∧
    ∀ c ∈ (kebabCase name).toList.getLast?, c ≠ '-' := by
  have whole : Spaced false (kebabFrom none false name.toList) :=
    @spaced_kebabFrom none false (by simp) name.toList
  rw [kebabCase, String.toList_ofList]
  constructor
  · obtain ⟨dashes, rest, -⟩ := Text.exists_dropWhileEnd (· = '-') (kebabFrom none false name.toList)
    exact (rest ▸ whole).front
  · intro c hc
    rw [Text.dropWhileEnd, List.getLast?_reverse] at hc
    simpa using Text.head?_dropWhile (· = '-') _ c hc

theorem isSlug_kebabCase (name : String) : IsSlug (kebabCase name) := by
  obtain ⟨spaced, ends⟩ := spaced_kebabCase name
  simpa using isSlug_of_spaced spaced ends

theorem kebabCase_kebabCase (name : String) : kebabCase (kebabCase name) = kebabCase name := by
  obtain ⟨spaced, ends⟩ := spaced_kebabCase name
  conv => lhs; rw [kebabCase]
  rw [kebabFrom_of_spaced spaced rfl, Text.dropWhileEnd_eq_self (by simpa using ends),
    String.ofList_toList]

section Modules

variable {l : Layout} {key : String} {r : Route} {index : Nat} {type : String}

/-- The place of the module of a component of this type at an index of a page: in the directory for
the modules of the page, under a name of the index and the slug of the type. -/
structure Confined (l : Layout) (r : Route) (index : Nat) (type : String) (p : SitePath) : Prop where
  text : p.text = l.dataDir.text ++ "/" ++ r.fileStem ++ "/components/" ++
    Decimal.padded 2 index ++ "-" ++ kebabCase type ++ ".ts"
  segments : p.segments = Text.splitOn '/' (l.dataDir.text ++ "/" ++ r.fileStem ++ "/components") ++
    [Decimal.padded 2 index ++ "-" ++ kebabCase type ++ ".ts"]
  slug : IsSlug (kebabCase type)
  settled : kebabCase (kebabCase type) = kebabCase type

theorem slash_not_mem_moduleName (index : Nat) (type : String) :
    '/' ∉ (Decimal.padded 2 index ++ "-" ++ kebabCase type ++ ".ts").toList := by
  have digits : '/' ∉ (Decimal.padded 2 index).toList := fun mem =>
    absurd (Decimal.isDigit_of_mem_padded 2 index _ mem) (by decide)
  have slug : '/' ∉ (kebabCase type).toList := fun mem =>
    absurd (isNameChar_of_mem_kebabCase type _ mem) (by decide)
  simp [digits, slug]

theorem confined_of_text {p : SitePath} (h : p.text = l.dataDir.below (componentName r index type)) :
    Confined l r index type p := by
  have text : p.text = l.dataDir.text ++ "/" ++ r.fileStem ++ "/components/" ++
      Decimal.padded 2 index ++ "-" ++ kebabCase type ++ ".ts" := by
    rw [h, SitePath.below, componentName, twoDigits_eq]
    simp [String.append_assoc]
  refine ⟨text, ?_, isSlug_kebabCase type, kebabCase_kebabCase type⟩
  have cut : p.text.toList = (l.dataDir.text ++ "/" ++ r.fileStem ++ "/components").toList ++
      '/' :: (Decimal.padded 2 index ++ "-" ++ kebabCase type ++ ".ts").toList := by
    rw [text]
    simp
  rw [SitePath.segments_eq, cut, SitePath.segmentsOf_append,
    SitePath.segmentsOf_of_not_mem (slash_not_mem_moduleName index type), String.ofList_toList]
  rfl

theorem index_eq_of_componentName {i j : Nat} {t u : String}
    (same : componentName r i t = componentName r j u) : i = j := by
  have free (n : Nat) : '-' ∉ (Decimal.padded 2 n).toList := fun mem =>
    absurd (Decimal.isDigit_of_mem_padded 2 n _ mem) (by decide)
  have names : (Decimal.padded 2 i).toList ++ '-' :: ((kebabCase t).toList ++ ".ts".toList) =
      (Decimal.padded 2 j).toList ++ '-' :: ((kebabCase u).toList ++ ".ts".toList) := by
    simpa [componentName, twoDigits_eq, ← String.toList_inj] using same
  have cut := congrArg (Text.cutFirst '-') names
  rw [Text.cutFirst_append_sep (free i), Text.cutFirst_append_sep (free j)] at cut
  exact Decimal.padded_injective 2 (String.toList_injective (Prod.mk.inj (Option.some.inj cut)).1)

section Flush

variable (data : l.dataDir.IsFlush) (route : Route.ofKey key = .ok r)
include data route

theorem exists_componentFiles (index : Nat) (placed : List PlacedComponent) :
    ∃ files, componentFiles l r index placed = .ok files := by
  induction placed generalizing index with
  | nil => exact ⟨[], rfl⟩
  | cons c rest ih =>
    obtain ⟨path, ok, -⟩ := exists_join_of_flush data (tidy_componentName route index c.type)
    obtain ⟨files, more⟩ := ih (index + 1)
    have first : componentModulePath l r index c.type = .ok path := ok
    exact ⟨_, by rw [componentFiles, first, more]⟩

theorem confined_of_moduled {placed : List (PlacedComponent × Nat)} {files : List GeneratedFile}
    (h : List.Forall₂ (Moduled l r) placed files) :
    List.Forall₂ (fun c f => Confined l r c.2 c.1.type f.path) placed files := by
  refine h.imp fun c f moduled => ?_
  cases moduled with
  | intro path => exact confined_of_text (text_of_join data (tidy_componentName route _ _) path)

theorem nodup_paths_of_moduled {placed : List PlacedComponent} {files : List GeneratedFile}
    (h : List.Forall₂ (Moduled l r) placed.zipIdx files) :
    (files.map GeneratedFile.path).Nodup := by
  have indices : placed.zipIdx.Pairwise fun c d => c.2 ≠ d.2 := by
    refine List.pairwise_map.mp ?_
    rw [List.zipIdx_map_snd]
    exact List.nodup_range'
  have places : (files.map place).Nodup := by
    rw [places_of_moduled data route h]
    exact List.pairwise_map.mpr (indices.imp fun ne same =>
      ne (index_eq_of_componentName (SitePath.below_inj.mp same)))
  refine List.Nodup.of_map SitePath.text ?_
  rwa [List.map_map]

end Flush

/-- All components of a page get their modules, each in the directory for the modules of the page and
under a name of its own, whatever their types are. -/
theorem component_modules_confined (own : SitePath.ofText l.dataDir.text = .ok l.dataDir)
    (route : Route.ofKey key = .ok r) (placed : List PlacedComponent) :
    ∃ files, componentFiles l r 0 placed = .ok files ∧
      List.Forall₂ (fun c f => Confined l r c.2 c.1.type f.path) placed.zipIdx files ∧
      (files.map GeneratedFile.path).Nodup := by
  have data := ((SitePath.ofText_text_iff _).mp own).isFlush
  obtain ⟨files, ok⟩ := exists_componentFiles data route 0 placed
  have moduled := moduled_of_componentFiles ok
  exact ⟨files, ok, confined_of_moduled data route moduled, nodup_paths_of_moduled data route moduled⟩

/-- Types that would lead elsewhere, have no letters, or begin with a digit. -/
theorem odd_modules_confined : ∃ files,
    componentFiles .standard ⟨"/blog/launch"⟩ 0
      [⟨"a", "../../Etc\\Passwd", []⟩, ⟨"b", "...", []⟩, ⟨"c", "3DView", []⟩, ⟨"d", "3DView", []⟩] =
        .ok files ∧
      files.map (fun f => f.path.text) =
        ["src/data/pages/blog/launch/components/00-etc-passwd.ts",
          "src/data/pages/blog/launch/components/01-.ts",
          "src/data/pages/blog/launch/components/02-3-dview.ts",
          "src/data/pages/blog/launch/components/03-3-dview.ts"] ∧
      (files.map GeneratedFile.path).Nodup := by
  have own : SitePath.ofText Layout.standard.dataDir.text = .ok Layout.standard.dataDir := by
    decide
  have route : Route.ofKey "Blog/Launch" = .ok ⟨"/blog/launch"⟩ := by decide
  obtain ⟨files, ok, confined, apart⟩ := component_modules_confined own route
    [⟨"a", "../../Etc\\Passwd", []⟩, ⟨"b", "...", []⟩, ⟨"c", "3DView", []⟩, ⟨"d", "3DView", []⟩]
  refine ⟨files, ok, ?_, apart⟩
  obtain _ | ⟨a, _ | ⟨b, _ | ⟨c, _ | ⟨d, _ | _⟩⟩⟩⟩ := confined
  simp only [List.map_cons, List.map_nil, a.text, b.text, c.text, d.text]
  rfl

end Modules

end Generator

end SitePublish
