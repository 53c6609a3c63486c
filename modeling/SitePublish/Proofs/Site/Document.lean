import SitePublish.Proofs.Json.Number
import SitePublish.Proofs.Json.Printer
import SitePublish.Site.Document

/-!
# The text of a document

A document is written as the JSON that it is, with its version as the last member. The version can
be read alone, whatever the pages look like, and it is read from a document that was written.
-/

set_option autoImplicit false

namespace SitePublish

namespace Json.Shape

variable {n budget : Nat}

theorem lt_of_natBelow {limit : Nat} {t : Tree} (h : natBelow limit budget t = some n) :
    n < limit := by
  unfold natBelow at h
  split at h
  · split at h
    · next number _ =>
      rw [Option.ite_none_right_eq_some] at h
      obtain ⟨⟨nonnegative, small⟩, hn⟩ := h
      cases hn
      omega
    · cases h
  · cases h

theorem natBelow_toTree (fits : n < Word.limit64) :
    natBelow Word.limit64 budget (ofNat n).toTree = some n := by
  have number : (Literal.ofInt n).toJson? = some (.int n) := Literal.toJson?_ofInt fits
  rw [ofNat, toTree, natBelow, number]
  simp [fits]

end Json.Shape

namespace Document

open Json (Shape Tree)

variable {d : Document} {s : String}

theorem tree_render (d : Document) : Tree.parse? d.render = some d.toJson.toTree :=
  Tree.parse?_pretty d.toJson (Json.cuts_newline 0) ⟨by decide, by decide⟩

def versionShape : Shape Nat :=
  Shape.record [["pages"], ["currentVersionNumber", "current_version_number"]]
    fun budget fields =>
      match fields with
      | [_, version] => Shape.field (Shape.natBelow Word.limit64) 0 budget version
      | _ => none

theorem versionShape_of_parse? (h : parse? s = some d) :
    versionShape.parse? s = some d.currentVersion := by
  obtain ⟨t, ht, read⟩ := Option.bind_eq_some_iff.mp h
  obtain ⟨trees, hf, built⟩ := Option.bind_eq_some_iff.mp read
  rw [Shape.parse?, ht]
  change (Shape.fieldTrees _ t).bind _ = _
  rw [hf, Option.bind_some]
  dsimp only at built ⊢
  split at built
  · next pages version =>
    obtain ⟨pages, -, built⟩ := Option.bind_eq_some_iff.mp built
    obtain ⟨number, hv, built⟩ := Option.bind_eq_some_iff.mp built
    cases built
    exact hv
  · cases built

theorem versionShape_render (fits : d.currentVersion < Word.limit64) :
    versionShape.parse? d.render = some d.currentVersion := by
  have number : Shape.natBelow Word.limit64 (Json.depthLimit - 1)
      (Json.ofNat d.currentVersion).toTree = some d.currentVersion := Shape.natBelow_toTree fits
  rw [Shape.parse?, tree_render]
  exact number

end Document

end SitePublish
