import SitePublish.Page.Generation
import SitePublish.Proofs.Decimal.Digits
import SitePublish.Proofs.Site.Joining

/-!
# Names of generated files

Routes and component types turn into names of letters and digits of ASCII, dashes and underscores, so
a generated file has the same name below every directory. It lies where the text of the directory, a
slash and that name lead to.
-/

set_option autoImplicit false

namespace SitePublish

namespace Text

def isNameChar (c : Char) : Bool := c.isAlphanum || c = '-' || c = '_'

theorem forall_of_all {P : Char → Prop} [DecidablePred P] {s : List Char}
    (h : s.all (fun c => decide (P c)) = true) : ∀ c ∈ s, P c := by
  simpa using h

theorem of_ascii {P : Char → Prop} (small : ∀ n < 128, P (Char.ofNat n)) {c : Char}
    (h : c.toNat < 128) : P c := by
  rw [← Char.ofNat_toNat c]
  exact small _ h

theorem toNat_lt_of_isAlphanum {c : Char} (h : c.isAlphanum = true) : c.toNat < 128 := by
  have same : c.toNat = c.val.toNat := rfl
  change (decide (c.val ≥ 'A'.val ∧ c.val ≤ 'Z'.val) || (c.val ≥ 'a'.val && c.val ≤ 'z'.val) ||
    (c.val ≥ '0'.val && c.val ≤ '9'.val)) = true at h
  simp only [Bool.or_eq_true, Bool.and_eq_true, decide_eq_true_eq, ge_iff_le,
    UInt32.le_iff_toNat_le] at h
  have upper : 'Z'.val.toNat = 90 := rfl
  have lower : 'z'.val.toNat = 122 := rfl
  have digit : '9'.val.toNat = 57 := rfl
  omega

theorem toNat_lt_of_isUpper {c : Char} (h : c.isUpper = true) : c.toNat < 128 := by
  refine toNat_lt_of_isAlphanum ?_
  change (c.isUpper || c.isLower || c.isDigit) = true
  rw [h, Bool.true_or, Bool.true_or]

theorem isNameChar_toLower {c : Char} (h : c.isUpper = true) : isNameChar c.toLower = true := by
  have small : c.toNat < 128 := toNat_lt_of_isUpper h
  revert h
  exact of_ascii (P := fun c => c.isUpper = true → isNameChar c.toLower = true) (by decide) small

theorem isNameChar_of_isRouteChar {c : Char} (h : Route.isRouteChar c = true) :
    isNameChar c = true ∨ c = '/' := by
  have small : c.toNat < 128 := by
    have same : c.toNat = c.val.toNat := rfl
    simp only [Route.isRouteChar, Bool.or_eq_true, Bool.and_eq_true, decide_eq_true_eq,
      Char.le_def, UInt32.le_iff_toNat_le] at h
    have lower : 'z'.val.toNat = 122 := rfl
    have digit : '9'.val.toNat = 57 := rfl
    rcases h with (((h | h) | rfl) | rfl) | rfl
    · omega
    · omega
    · decide
    · decide
    · decide
  revert h
  exact of_ascii (P := fun c => Route.isRouteChar c = true → isNameChar c = true ∨ c = '/')
    (by decide) small

theorem lt_of_isNameChar {c : Char} (h : isNameChar c = true) : c.toNat < 128 := by
  simp only [isNameChar, Bool.or_eq_true, decide_eq_true_eq] at h
  rcases h with (h | rfl) | rfl
  · exact toNat_lt_of_isAlphanum h
  · decide
  · decide

theorem plain_of_isNameChar {c : Char} (h : isNameChar c = true) :
    c ≠ '/' ∧ c ≠ '\\' ∧ c ≠ '.' ∧ isBlank c = false := by
  have small := lt_of_isNameChar h
  revert h
  exact of_ascii (P := fun c => isNameChar c = true → c ≠ '/' ∧ c ≠ '\\' ∧ c ≠ '.' ∧
    isBlank c = false) (by decide) small

end Text

namespace Text

theorem exists_splitChars_append {sep : Char} (a : List Char) {b : List Char} (free : sep ∉ b) :
    ∃ front last, splitChars sep a = front ++ [last] ∧
      splitChars sep (a ++ b) = front ++ [last ++ b] := by
  induction a with
  | nil => exact ⟨[], [], rfl, splitChars_of_not_mem free⟩
  | cons c a ih =>
    obtain ⟨front, last, split, split_append⟩ := ih
    rw [List.cons_append, splitChars, splitChars, split, split_append]
    split
    · exact ⟨[] :: front, last, rfl, rfl⟩
    · cases front with
      | nil => exact ⟨[], c :: last, rfl, rfl⟩
      | cons p ps => exact ⟨(c :: p) :: ps, last, rfl, rfl⟩

theorem exists_words {sep : Char} {P : Char → Prop} {s : List Char} (filled : [] ∉ splitChars sep s)
    (known : ∀ c ∈ s, P c ∨ c = sep) : ∃ words : List String, words ≠ [] ∧
      (∀ w ∈ words, w ≠ "" ∧ ∀ c ∈ w.toList, P c) ∧ String.ofList s = joinWith sep words := by
  refine ⟨(splitChars sep s).map String.ofList, ?_, fun w hw => ?_, ?_⟩
  · exact mt List.map_eq_nil_iff.mp (splitChars_ne_nil sep s)
  · obtain ⟨piece, hp, rfl⟩ := List.mem_map.mp hw
    rw [String.toList_ofList]
    constructor
    · intro none
      have nil : piece = [] := by simpa using congrArg String.toList none
      exact filled (nil ▸ hp)
    · intro c hc
      refine (known c (SitePath.subset_of_mem_splitChars hp c hc)).resolve_right ?_
      rintro rfl
      exact SitePath.not_mem_of_mem_splitChars hp hc
  · have joined := joinWith_splitOn sep (String.ofList s)
    rw [splitOn, String.toList_ofList] at joined
    exact joined.symm

end Text

namespace SitePath

theorem isSegment_of_name {s : List Char} (ne : s ≠ [])
    (name : ∀ c ∈ s, Text.isNameChar c = true) : IsSegment s := by
  have plain := fun c hc => Text.plain_of_isNameChar (name c hc)
  have dotless : '.' ∉ s := fun mem => (plain _ mem).2.2.1 rfl
  refine ⟨ne, ?_, ?_, fun mem => (plain _ mem).1 rfl, fun mem => (plain _ mem).2.1 rfl⟩
  · rintro rfl
    exact dotless (by simp)
  · rintro rfl
    exact dotless (by simp)

theorem tidy_of_name {s : List Char} (ne : s ≠ []) (name : ∀ c ∈ s, Text.isNameChar c = true) :
    Tidy s where
  normal := ⟨[s], List.cons_ne_nil s [],
    List.forall_mem_singleton.mpr (isSegment_of_name ne name), rfl⟩
  solid c hc := (Text.plain_of_isNameChar (name c hc)).2.2.2

theorem Tidy.extend {s : List Char} (h : Tidy s) (ext : List Char) (long : 2 < ext.length)
    (plain : ∀ c ∈ ext, c ≠ '/' ∧ c ≠ '\\' ∧ Text.isBlank c = false) : Tidy (s ++ ext) where
  normal := by
    have proper := h.normal.proper
    have slash : '/' ∉ ext := fun mem => (plain _ mem).1 rfl
    have backslash : '\\' ∉ ext := fun mem => (plain _ mem).2.1 rfl
    obtain ⟨front, last, split, split_append⟩ := Text.exists_splitChars_append s slash
    rw [isNormal_iff, split_append]
    rw [split] at proper
    intro p hp
    rcases List.mem_append.mp hp with hp | hp
    · exact proper p (List.mem_append_left _ hp)
    · obtain rfl := List.mem_singleton.mp hp
      obtain ⟨-, -, -, slash_last, backslash_last⟩ := proper last (by simp)
      have length : 2 < (last ++ ext).length := by
        rw [List.length_append]
        omega
      refine ⟨fun short => ?_, fun short => ?_, fun short => ?_, ?_, ?_⟩
      · simp [short] at length
      · simp [short] at length
      · simp [short] at length
      · simp [slash, slash_last]
      · simp [backslash, backslash_last]
  solid c hc := by
    rcases List.mem_append.mp hc with hc | hc
    · exact h.solid c hc
    · exact (plain c hc).2.2

end SitePath

namespace Route

variable {key : String} {r : Route}

theorem isRouteChar_of_dashed {pending : Bool} {s t : List Char} (h : dashed pending s = .ok t) :
    ∀ c ∈ t, isRouteChar c = true := by
  induction s generalizing pending t with
  | nil =>
    cases h
    exact nofun
  | cons c s ih =>
    rw [dashed] at h
    split at h
    · exact ih h
    · split at h
      · next good =>
        split at h
        · next tail rest =>
          have all : ∀ d ∈ c :: tail, isRouteChar d = true :=
            List.forall_mem_cons.mpr ⟨good, ih rest⟩
          cases h
          split
          · exact List.forall_mem_cons.mpr ⟨by decide, all⟩
          · exact all
        · cases h
      · cases h

/-- A route is the root or, behind a slash, segments that are not empty. -/
theorem spelled_of_ofKey (h : ofKey key = .ok r) : r = root ∨ ∃ s, r.text.toList = '/' :: s ∧
    (∀ c ∈ s, isRouteChar c = true) ∧ [] ∉ Text.splitChars '/' s := by
  unfold ofKey at h
  dsimp only at h
  split at h
  · cases h
    exact Or.inl rfl
  · split at h
    · cases h
    · next s dashed =>
      split at h
      · cases h
      · next filled =>
        cases h
        exact Or.inr ⟨s, String.toList_ofList, isRouteChar_of_dashed dashed,
          fun empty => filled (List.any_eq_true.mpr ⟨[], empty, rfl⟩)⟩

theorem cases_of_ofKey (h : ofKey key = .ok r) : r = root ∨ ∃ s, r.text.toList = '/' :: s ∧
    SitePath.IsNormal s ∧ ∀ c ∈ s, Text.isNameChar c = true ∨ c = '/' := by
  rcases spelled_of_ofKey h with rfl | ⟨s, text, route, filled⟩
  · exact Or.inl rfl
  · have name := fun c hc => Text.isNameChar_of_isRouteChar (route c hc)
    refine Or.inr ⟨s, text, SitePath.isNormal_iff.mpr fun p hp => ?_, name⟩
    refine SitePath.isSegment_of_name (fun empty => filled (empty ▸ hp)) fun c hc => ?_
    refine (name c (SitePath.subset_of_mem_splitChars hp c hc)).resolve_right ?_
    rintro rfl
    exact SitePath.not_mem_of_mem_splitChars hp hc

theorem isRoot_eq_false {s : List Char} (text : r.text.toList = '/' :: s) (ne : s ≠ []) :
    r.isRoot = false := by
  rw [isRoot, decide_eq_false_iff_not]
  intro root
  rw [root] at text
  exact ne (List.cons.inj text).2.symm

theorem isNameChar_of_mem_text (h : ofKey key = .ok r) :
    ∀ c ∈ r.text.toList, Text.isNameChar c = true ∨ c = '/' := by
  rcases cases_of_ofKey h with rfl | ⟨s, text, -, name⟩
  · exact Text.forall_of_all rfl
  · rw [text]
    exact List.forall_mem_cons.mpr ⟨Or.inr rfl, name⟩

theorem isNameChar_of_mem_fileStem (h : ofKey key = .ok r) :
    ∀ c ∈ r.fileStem.toList, Text.isNameChar c = true ∨ c = '/' := by
  intro c hc
  unfold fileStem at hc
  split at hc
  · have letters : ∀ c ∈ "index".toList, Text.isNameChar c = true ∨ c = '/' :=
      Text.forall_of_all rfl
    exact letters c hc
  · rw [relative, String.toList_ofList] at hc
    exact isNameChar_of_mem_text h c (List.mem_of_mem_drop hc)

theorem tidy_fileStem (h : ofKey key = .ok r) : SitePath.Tidy r.fileStem.toList where
  normal := by
    rcases cases_of_ofKey h with rfl | ⟨s, text, normal, -⟩
    · exact (SitePath.tidy_of_name (by decide) (Text.forall_of_all rfl)).normal
    · rw [fileStem, isRoot_eq_false text normal.ne_nil, if_neg Bool.false_ne_true, relative, text]
      simpa using normal
  solid c hc := by
    rcases isNameChar_of_mem_fileStem h c hc with name | rfl
    · exact (Text.plain_of_isNameChar name).2.2.2
    · decide

end Route

namespace Generator

open SitePath (Tidy)

theorem isNameChar_of_mem_kebabFrom {last : Option Char} {afterSmall : Bool} {s : List Char} :
    ∀ c ∈ kebabFrom last afterSmall s, Text.isNameChar c = true := by
  induction s generalizing last afterSmall with
  | nil => exact nofun
  | cons d s ih =>
    rw [kebabFrom]
    split
    · next upper =>
      refine List.forall_mem_append.mpr ⟨?_, List.forall_mem_cons.mpr
        ⟨Text.isNameChar_toLower upper, ih⟩⟩
      cases afterSmall <;> simp [Text.isNameChar]
    · split
      · next small =>
        refine List.forall_mem_cons.mpr ⟨?_, ih⟩
        rw [Text.isNameChar, small]
        rfl
      · split
        · exact List.forall_mem_cons.mpr ⟨by decide, ih⟩
        · exact ih

theorem isNameChar_of_mem_digits (n : Nat) : ∀ c ∈ (toString n).toList, Text.isNameChar c = true := by
  intro c hc
  simp [Text.isNameChar, Char.isAlphanum, Decimal.isDigit_of_mem_toString n c hc]

theorem isNameChar_of_mem_twoDigits (n : Nat) : ∀ c ∈ (twoDigits n).toList, Text.isNameChar c = true := by
  unfold twoDigits
  split
  · rw [String.toList_append]
    exact List.forall_mem_append.mpr ⟨Text.forall_of_all rfl, isNameChar_of_mem_digits n⟩
  · exact isNameChar_of_mem_digits n

theorem isNameChar_of_mem_kebabCase (name : String) :
    ∀ c ∈ (kebabCase name).toList, Text.isNameChar c = true := by
  intro c hc
  rw [kebabCase, String.toList_ofList, Text.dropWhileEnd, List.mem_reverse] at hc
  exact isNameChar_of_mem_kebabFrom c (List.mem_reverse.mp ((List.dropWhile_suffix _).mem hc))

section Names

variable {key : String} {r : Route} (h : Route.ofKey key = .ok r)
include h

theorem tidy_dataName : Tidy (r.fileStem ++ ".ts").toList := by
  rw [String.toList_append]
  exact (Route.tidy_fileStem h).extend _ (by decide) (Text.forall_of_all rfl)

theorem tidy_componentName (index : Nat) (type : String) :
    Tidy (r.fileStem ++ "/components/" ++ twoDigits index ++ "-" ++ kebabCase type ++ ".ts").toList := by
  have name : Tidy ((twoDigits index).toList ++ '-' :: (kebabCase type).toList) :=
    SitePath.tidy_of_name (by simp) (List.forall_mem_append.mpr
      ⟨isNameChar_of_mem_twoDigits index, List.forall_mem_cons.mpr
        ⟨by decide, isNameChar_of_mem_kebabCase type⟩⟩)
  have directory : Tidy "components".toList := SitePath.tidy_of_name (by decide) (Text.forall_of_all rfl)
  have whole := ((Route.tidy_fileStem h).append (directory.append name)).extend
    ".ts".toList (by decide) (Text.forall_of_all rfl)
  simpa using whole

end Names

theorem tidy_indexName : Tidy Layout.indexFile.toList :=
  (SitePath.tidy_of_name (s := "_index".toList) (by decide) (Text.forall_of_all rfl)).extend
    ".ts".toList (by decide) (Text.forall_of_all rfl)

theorem tidy_routeModuleName : Tidy Layout.routeModuleFile.toList :=
  (SitePath.tidy_of_name (s := "page".toList) (by decide) (Text.forall_of_all rfl)).extend
    ".tsx".toList (by decide) (Text.forall_of_all rfl)

def moduleName (r : Route) : String :=
  if r.isRoot then Layout.routeModuleFile else r.relative ++ "/" ++ Layout.routeModuleFile

theorem routeModulePath_eq (l : Layout) (r : Route) :
    routeModulePath l r = join l.appDir (moduleName r) := by
  unfold routeModulePath moduleName
  split <;> rfl

theorem tidy_moduleName {key : String} {r : Route} (h : Route.ofKey key = .ok r) :
    Tidy (moduleName r).toList := by
  unfold moduleName
  split
  · exact tidy_routeModuleName
  · next below =>
    have stem := Route.tidy_fileStem h
    rw [Route.fileStem, if_neg below] at stem
    simpa using stem.append tidy_routeModuleName

theorem lastSegment_moduleName (r : Route) :
    SitePath.lastSegment (moduleName r).toList = Layout.routeModuleFile.toList := by
  have single : SitePath.lastSegment Layout.routeModuleFile.toList = Layout.routeModuleFile.toList := by
    decide
  unfold moduleName
  split
  · exact single
  · rw [String.toList_append, String.toList_append, List.append_assoc]
    exact (SitePath.lastSegment_append _ _).trans single

section Joins

variable {dir p : SitePath} {rest : String}

theorem join_eq_ok_iff : join dir rest = .ok p ↔
    SitePath.ofText (dir.text ++ "/" ++ rest) = .ok p := by
  unfold join
  cases h : SitePath.ofText (dir.text ++ "/" ++ rest) <;> simp [h]

variable (tidy : Tidy rest.toList)
include tidy

theorem join_of_opened {q : SitePath} (h : dir.opened = .ok q) :
    ∃ p, join dir rest = .ok p ∧ p.text.toList = q.text.toList ++ '/' :: rest.toList := by
  obtain ⟨p, ok, text⟩ := SitePath.below_of_opened tidy h
  exact ⟨p, join_eq_ok_iff.mpr ok, text⟩

theorem join_of_traversal (h : dir.opened = .error .containsTraversal) :
    join dir rest = .error (.invalidPath (dir.text ++ "/" ++ rest)) := by
  simp only [join, SitePath.below_of_traversal tidy h]

theorem join_of_empty (h : dir.opened = .error .empty) :
    ∃ p, join dir rest = .ok p ∧ p.text.toList = rest.toList := by
  obtain ⟨p, ok, text⟩ := SitePath.below_of_empty tidy h
  exact ⟨p, join_eq_ok_iff.mpr ok, text⟩

theorem isUnder_of_join (flush : dir.IsFlush) (h : join dir rest = .ok p) :
    p.isUnder dir.text = true := by
  obtain ⟨q, ok, text⟩ := join_of_opened tidy (SitePath.opened_of_flush flush)
  cases ok.symm.trans h
  exact SitePath.within_append text

theorem not_isUnder_of_join (blank : ¬ dir.IsFlush) (h : join dir rest = .ok p) :
    p.isUnder dir.text = false :=
  SitePath.not_isUnder_of_not_flush tidy blank (join_eq_ok_iff.mp h)

theorem fileName_of_join (h : join dir rest = .ok p) :
    p.fileName = String.ofList (SitePath.lastSegment rest.toList) := by
  cases hd : dir.opened with
  | ok q =>
    obtain ⟨p', ok, text⟩ := join_of_opened tidy hd
    cases ok.symm.trans h
    rw [SitePath.fileName, text, SitePath.lastSegment_append]
  | error e =>
    cases e with
    | containsTraversal =>
      rw [join_of_traversal tidy hd] at h
      cases h
    | empty =>
      obtain ⟨p', ok, text⟩ := join_of_empty tidy hd
      cases ok.symm.trans h
      rw [SitePath.fileName, text]

end Joins

end Generator

end SitePublish
