import SitePublish.Proofs.Except
import SitePublish.Proofs.Filter.Rules
import SitePublish.Proofs.Json.Rereading
import SitePublish.Proofs.Site.Joining

/-!
# Paths that are given again

The text of a path is taken for a path again when it is stored and read, and when the filter is asked
about it. Blanks are trimmed from a text as a whole, and only then the slashes and dots in front of
the first name and behind the last one are dropped. So a name that had blanks behind such a slash
keeps them, and loses them the next time. Paths without blanks around them stay what they are, and no
others do.
-/

set_option autoImplicit false

namespace SitePublish

namespace SitePath

def IsTrimmed (p : SitePath) : Prop := Text.trimChars p.text.toList = p.text.toList

instance (p : SitePath) : Decidable p.IsTrimmed := inferInstanceAs (Decidable (_ = _))

variable {raw : String} {p : SitePath}

/-- A path denotes itself just when there are no blanks around it. -/
theorem ofText_text_iff (p : SitePath) : ofText p.text = .ok p ↔ p.IsTrimmed := by
  constructor
  · intro h
    exact ((text_eq_iff h).mp rfl).2.1
  · intro trimmed
    have pieces : rawSegments p.text = [] ++ Text.splitChars '/' p.text.toList ++ [] := by
      rw [rawSegments, trimmed, map_slashed_of_not_mem p.normal.backslash_free, List.nil_append,
        List.append_nil]
    exact ofText_of_pieces pieces (List.forall_mem_nil _) (List.forall_mem_nil _)

theorem IsTrimmed.isFlush (h : p.IsTrimmed) : p.IsFlush := by
  intro c hc
  by_contra blank
  rw [Bool.not_eq_false] at blank
  obtain ⟨rest, text⟩ := List.head?_eq_some_iff.mp hc
  have shorter : (Text.trimChars p.text.toList).Sublist rest := by
    rw [text, Text.trimChars, Text.dropWhileEnds, List.dropWhile_cons_of_pos blank]
    exact trimChars_sublist rest
  rw [h, text] at shorter
  exact absurd shorter.length_le (by simp)

def toJson (p : SitePath) : Json := .str p.text

def shape : Json.Shape SitePath := fun budget t =>
  (Json.Shape.string budget t).bind fun s => (ofText s).toOption

theorem parse?_toJson (p : SitePath) : shape.parse? p.toJson.pretty = (ofText p.text).toOption := by
  rw [Json.Shape.parse?_pretty]
  rfl

/-- What the text of a path says is what the text says that the path was made of. -/
structure Restates (raw : String) (p : SitePath) : Prop where
  again : ofText p.text = .ok p
  stored : shape.parse? p.toJson.pretty = some p
  classified (f : ProductionFilter) (content : Option String) :
    f.classify raw content = f.classify p.text content
  inside : ofText p.text ≠ .error .containsTraversal

theorem restates_of_again (h : ofText raw = .ok p) (again : ofText p.text = .ok p) :
    Restates raw p where
  again := again
  stored := by
    rw [parse?_toJson, again]
    rfl
  classified f content := by
    rw [ProductionFilter.classify_of_ok h, ProductionFilter.classify_of_ok again]
  inside := by
    rw [again]
    exact nofun

/-- The text of a path restates the path just when there are no blanks around it. -/
theorem restates_iff_trimmed (h : ofText raw = .ok p) : Restates raw p ↔ p.IsTrimmed := by
  constructor
  · intro restates
    exact (ofText_text_iff p).mp restates.again
  · intro trimmed
    exact restates_of_again h ((ofText_text_iff p).mpr trimmed)

/-- Blanks inside a path and around the text that it is made of do no harm. -/
theorem page_restates : ∃ p, ofText " ./src\\my page.tsx/ " = .ok p ∧ p.text = "src/my page.tsx" ∧
    p.IsTrimmed ∧ Restates " ./src\\my page.tsx/ " p := by
  have same : (ofText " ./src\\my page.tsx/ ").map SitePath.text = .ok "src/my page.tsx" := by
    decide
  obtain ⟨p, ok, text⟩ := exists_of_map_eq_ok same
  have trimmed : p.IsTrimmed := by
    rw [IsTrimmed, text]
    decide
  exact ⟨p, ok, text, trimmed, (restates_iff_trimmed ok).mpr trimmed⟩

/-- The path that `/ ..` denotes is refused the next time. The one that `/ src/a.ts` denotes is another
one then, which the filter takes after it has dropped the first. -/
theorem paths_not_restated :
    (∃ p, ofText "/ .." = .ok p ∧ ofText p.text = .error .containsTraversal ∧
      ¬ Restates "/ .." p) ∧
    ∃ p, ofText "/ src/a.ts" = .ok p ∧ ofText p.text ≠ .ok p ∧
      (ProductionFilter.plain.classify "/ src/a.ts" none).included = false ∧
      (ProductionFilter.plain.classify p.text none).included = true ∧ ¬ Restates "/ src/a.ts" p := by
  constructor
  · have same : (ofText "/ ..").map SitePath.text = .ok " .." := by rfl
    obtain ⟨p, ok, text⟩ := exists_of_map_eq_ok same
    have refused : ofText p.text = .error .containsTraversal := by
      rw [text]
      rfl
    exact ⟨p, ok, refused, fun restates => restates.inside refused⟩
  · have same : (ofText "/ src/a.ts").map SitePath.text = .ok " src/a.ts" := by decide +kernel
    obtain ⟨p, ok, text⟩ := exists_of_map_eq_ok same
    have dropped : (ProductionFilter.plain.classify "/ src/a.ts" none).included = false := by
      decide
    have taken : (ProductionFilter.plain.classify p.text none).included = true := by
      rw [text]
      decide +kernel
    have moved : ¬ Restates "/ src/a.ts" p := by
      intro restates
      rw [restates.classified, taken] at dropped
      cases dropped
    exact ⟨p, ok, fun again => moved (restates_of_again ok again), dropped, taken, moved⟩

end SitePath

end SitePublish
