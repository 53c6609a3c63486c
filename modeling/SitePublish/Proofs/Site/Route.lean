import SitePublish.Proofs.Page.Naming
import SitePublish.Proofs.Text.Trimming

/-!
# Routes and file names

The files of a page are named after its route, and the root has a name of its own. No other route has
that name: what a key loses on its way to a route are blanks at the end, there are none left after the
trimming, and lowercasing makes none. So different routes have different files.
-/

set_option autoImplicit false

namespace SitePublish

namespace Text

theorem lowerRuns_apart : ∀ run ∈ lowerRuns, ∀ r ∈ blankRanges,
    (run.2.1 : Int) + run.2.2.2 < r.1 ∨ (r.2 : Int) < run.1 + run.2.2.2 := by
  decide +kernel

theorem isBlank_iff {c : Char} :
    isBlank c = true ↔ ∃ r ∈ blankRanges, r.1 ≤ c.toNat ∧ c.toNat ≤ r.2 := by
  simp [isBlank]

theorem toNat_ofNat (n : Nat) : (Char.ofNat n).toNat = n ∨ (Char.ofNat n).toNat = 0 := by
  by_cases valid : n.isValidChar
  · rw [Char.ofNat, dif_pos valid]
    exact Or.inl rfl
  · rw [Char.ofNat, dif_neg valid]
    exact Or.inr rfl

theorem isBlank_ofNat {n : Nat} (h : isBlank (Char.ofNat n) = true) :
    ∃ r ∈ blankRanges, r.1 ≤ n ∧ n ≤ r.2 := by
  obtain ⟨r, mem, low, high⟩ := isBlank_iff.mp h
  rcases toNat_ofNat n with same | zero
  · rw [same] at low high
    exact ⟨r, mem, low, high⟩
  · have positive : ∀ r ∈ blankRanges, 0 < r.1 := by decide
    rw [zero] at low
    exact absurd low (Nat.not_le_of_lt (positive r mem))

theorem isBlank_lowerChar {c : Char} (h : isBlank c = false) : isBlank (lowerChar c) = false := by
  unfold lowerChar
  dsimp only
  split
  · next small =>
    revert h
    exact of_ascii (P := fun c => isBlank c = false → isBlank c.toLower = false) (by decide)
      (Nat.lt_of_lt_of_le small (by decide))
  · split
    · next first last step offset found =>
      rw [← Bool.not_eq_true]
      intro blank
      obtain ⟨r, mem, low, high⟩ := isBlank_ofNat blank
      have inside := List.find?_some found
      have apart := lowerRuns_apart _ (List.mem_of_find?_eq_some found) r mem
      simp only [Bool.and_eq_true, decide_eq_true_eq] at inside
      have positive : ∀ r ∈ blankRanges, 0 < r.1 := by decide
      have := positive r mem
      dsimp only at apart
      omega
    · exact h

def EndsSolid (s : List Char) : Prop := ∀ c ∈ s.getLast?, isBlank c = false

theorem EndsSolid.tail {c : Char} {s : List Char} (h : EndsSolid (c :: s)) : EndsSolid s :=
  forall_getLast?_of_cons h

theorem EndsSolid.cons {s : List Char} (h : EndsSolid s) (ne : s ≠ []) (c : Char) :
    EndsSolid (c :: s) := by
  cases s with
  | nil => exact absurd rfl ne
  | cons d s =>
    intro e he
    exact h e (by rwa [List.getLast?_cons_cons] at he)

theorem endsSolid_singleton {c : Char} (h : isBlank c = false) : EndsSolid [c] := by
  rintro _ ⟨⟩
  exact h

theorem endsSolid_trimChars (s : List Char) : EndsSolid (trimChars s) :=
  (solid_dropWhileEnds isBlank s).last

theorem lowerFrom_ne_nil {s : List Char} (before : List Char) (ne : s ≠ []) :
    lowerFrom before s ≠ [] := by
  cases s with
  | nil => exact absurd rfl ne
  | cons c s =>
    rw [lowerFrom]
    split
    · simp
    · split <;> simp

theorem EndsSolid.lowerFrom {s : List Char} (h : EndsSolid s) (before : List Char) :
    EndsSolid (lowerFrom before s) := by
  induction s generalizing before with
  | nil => exact nofun
  | cons c s ih =>
    have rest := ih h.tail (c :: before)
    rw [Text.lowerFrom]
    by_cases hs : s = []
    · subst hs
      have solid : isBlank c = false := h c rfl
      rw [Text.lowerFrom]
      split
      · refine endsSolid_singleton ?_
        split <;> decide
      · split
        · exact (endsSolid_singleton (by decide)).cons (List.cons_ne_nil _ _) _
        · exact endsSolid_singleton (isBlank_lowerChar solid)
    · have ne := lowerFrom_ne_nil (c :: before) hs
      split
      · exact rest.cons ne _
      · split
        · exact (rest.cons ne _).cons (List.cons_ne_nil _ _) _
        · exact rest.cons ne _

end Text

namespace Route

open Text (EndsSolid)

variable {key key' : String} {r r' : Route}

theorem dash_mem_of_pending {s t : List Char} (h : dashed true s = .ok t) (solid : EndsSolid s)
    (ne : s ≠ []) : '-' ∈ t := by
  induction s with
  | nil => exact absurd rfl ne
  | cons c s ih =>
    rw [dashed] at h
    split at h
    · next blank =>
      refine ih h solid.tail ?_
      rintro rfl
      exact absurd blank (by simp [solid c rfl])
    · split at h
      · split at h
        · cases h
          exact List.mem_cons_self
        · cases h
      · cases h

theorem eq_of_dashed {s t : List Char} (h : dashed false s = .ok t) (solid : EndsSolid s)
    (plain : '-' ∉ t) : t = s := by
  induction s generalizing t with
  | nil =>
    cases h
    rfl
  | cons c s ih =>
    rw [dashed] at h
    split at h
    · next blank =>
      refine absurd (dash_mem_of_pending h solid.tail ?_) plain
      rintro rfl
      exact absurd blank (by simp [solid c rfl])
    · split at h
      · split at h
        · next tail rest =>
          cases h
          rw [if_neg Bool.false_ne_true, List.mem_cons, not_or] at plain
          rw [if_neg Bool.false_ne_true, ih rest solid.tail plain.2]
        · cases h
      · cases h

theorem text_ne_rootKey (h : ofKey key = .ok r) {name : String} (named : name ∈ rootKeys) :
    r.text ≠ "/" ++ name := by
  have plain : ∀ name ∈ rootKeys, '-' ∉ name.toList ∧ "/" ≠ "/" ++ name := by decide
  unfold ofKey at h
  dsimp only at h
  split at h
  · cases h
    exact (plain name named).2
  · next other =>
    split at h
    · cases h
    · next s dashed =>
      split at h
      · cases h
      · cases h
        intro same
        have spelled : s = name.toList := by
          have text := congrArg String.toList same
          rw [String.toList_ofList, String.toList_append] at text
          exact (List.cons.inj text).2
        have solid : EndsSolid (Text.lowerChars (trimKey key.toList)) :=
          (Text.endsSolid_trimChars _).lowerFrom []
        rw [← eq_of_dashed dashed solid (spelled ▸ (plain name named).1), spelled,
          String.ofList_toList] at other
        exact other (by simp [named])

theorem text_ne_index (h : ofKey key = .ok r) : r.text ≠ "/index" := by
  have named : "index" ∈ rootKeys := by decide
  exact text_ne_rootKey h named

theorem cases_of_isRoot (h : ofKey key = .ok r) :
    r = root ∨ ∃ s, s ≠ [] ∧ r.text.toList = '/' :: s ∧ r.isRoot = false ∧
      r.fileStem.toList = s ∧ r.relative.toList = s := by
  rcases cases_of_ofKey h with rfl | ⟨s, text, normal, -⟩
  · exact Or.inl rfl
  · have below := isRoot_eq_false text normal.ne_nil
    have relative_eq : r.relative.toList = s := by
      rw [relative, String.toList_ofList, text]
      rfl
    refine Or.inr ⟨s, normal.ne_nil, text, below, ?_, relative_eq⟩
    rw [fileStem, if_neg (by simp [below]), relative_eq]

theorem eq_of_toList {s : List Char} (h : r.text.toList = '/' :: s) (h' : r'.text.toList = '/' :: s) :
    r = r' := by
  obtain ⟨t⟩ := r
  obtain ⟨t'⟩ := r'
  exact congrArg Route.mk (String.toList_injective (h.trans h'.symm))

theorem fileStem_ne_index {s : List Char} (h : ofKey key = .ok r) (text : r.text.toList = '/' :: s) :
    s ≠ "index".toList := by
  rintro rfl
  exact text_ne_index h (String.toList_injective text)

theorem fileStem_injective (h : ofKey key = .ok r) (h' : ofKey key' = .ok r')
    (same : r.fileStem = r'.fileStem) : r = r' := by
  have root_stem : root.fileStem.toList = "index".toList := by decide
  rcases cases_of_isRoot h with rfl | ⟨s, -, text, -, stem, -⟩
  · rcases cases_of_isRoot h' with rfl | ⟨s, -, text, -, stem, -⟩
    · rfl
    · exact absurd (stem.symm.trans (same ▸ root_stem)) (fileStem_ne_index h' text)
  · rcases cases_of_isRoot h' with rfl | ⟨s', -, text', -, stem', -⟩
    · exact absurd (stem.symm.trans (same ▸ root_stem)) (fileStem_ne_index h text)
    · rw [same, stem'] at stem
      subst stem
      exact eq_of_toList text text'

end Route

namespace Generator

theorem moduleName_injective {key key' : String} {r r' : Route} (h : Route.ofKey key = .ok r)
    (h' : Route.ofKey key' = .ok r') (same : moduleName r = moduleName r') : r = r' := by
  have root_name : moduleName .root = Layout.routeModuleFile := by decide
  have below {r : Route} {s : List Char} (lower : r.isRoot = false) (text : r.relative.toList = s) :
      (moduleName r).toList = s ++ '/' :: Layout.routeModuleFile.toList := by
    rw [moduleName, if_neg (by simp [lower]), String.toList_append, String.toList_append, text,
      List.append_assoc]
    rfl
  have longer (s : List Char) :
      s ++ '/' :: Layout.routeModuleFile.toList ≠ Layout.routeModuleFile.toList := by
    intro h
    have length := congrArg List.length h
    rw [List.length_append, List.length_cons] at length
    omega
  rcases Route.cases_of_isRoot h with rfl | ⟨s, -, text, lower, -, relative⟩
  · rcases Route.cases_of_isRoot h' with rfl | ⟨s', -, text', lower', -, relative'⟩
    · rfl
    · have name := below lower' relative'
      rw [← same, root_name] at name
      exact absurd name.symm (longer s')
  · rcases Route.cases_of_isRoot h' with rfl | ⟨s', -, text', lower', -, relative'⟩
    · have name := below lower relative
      rw [same, root_name] at name
      exact absurd name.symm (longer s)
    · have name := below lower relative
      rw [same, below lower' relative', List.append_cancel_right_eq] at name
      subst name
      exact Route.eq_of_toList text text'

end Generator

end SitePublish
