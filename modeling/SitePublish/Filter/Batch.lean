import SitePublish.Content
import SitePublish.Filter.Classify
import SitePublish.Json.Reader

/-!
# Batches

Files with their decisions, split into the included and the excluded in the order given, and how
many files each rule decided.
-/

set_option autoImplicit false

namespace SitePublish

structure FileInput where
  path : String
  content : Option String
deriving DecidableEq

def FileInput.shape : Json.Shape FileInput :=
  Json.Shape.record [["path"], ["content"]] fun budget fields =>
    match fields with
    | [path, content] => do
      let path ← Json.Shape.required Json.Shape.string budget path
      let content ← Json.Shape.field (Json.Shape.optional Json.Shape.string) none budget content
      return ⟨path, content⟩
    | _ => none

structure Classified (α : Type) where
  file : α
  decision : FilterDecision

structure FilterStats where
  total : Nat
  included : Nat
  excluded : Nat
  /-- In the order of the rules, without rules that decided nothing. -/
  byRule : List (FilterRule × Nat)
  conflicts : Nat
deriving DecidableEq

structure FilterBatch (α : Type) where
  included : List (Classified α)
  excluded : List (Classified α)
  stats : FilterStats

namespace FilterStats

def countRule (rule : FilterRule) (decisions : List FilterDecision) : Nat :=
  decisions.countP fun d => d.rule = rule

def ofDecisions (decisions : List FilterDecision) : FilterStats where
  total := decisions.length
  included := decisions.countP fun d => d.included
  excluded := decisions.countP fun d => !d.included
  byRule := (FilterRule.order.map fun r => (r, countRule r decisions)).filter fun e => e.2 ≠ 0
  conflicts := decisions.countP fun d => d.conflict.isSome

end FilterStats

namespace FilterBatch

variable {α : Type}

def ofClassified (files : List (Classified α)) : FilterBatch α where
  included := files.filter fun c => c.decision.included
  excluded := files.filter fun c => !c.decision.included
  stats := .ofDecisions (files.map fun c => c.decision)

def conflict? (b : FilterBatch α) : Option PatternConflict :=
  (b.included ++ b.excluded).findSome? fun c => c.decision.conflict

end FilterBatch

namespace ProductionFilter

def classifyInput (f : ProductionFilter) (i : FileInput) : Classified FileInput :=
  ⟨i, f.classify i.path i.content⟩

/-- A candidate's own path is read again, as any path from outside. -/
def classifyCandidate (f : ProductionFilter) (c : Candidate) : Classified Candidate :=
  ⟨c, f.classify c.path.text c.content.text?⟩

def classifyInputs (f : ProductionFilter) (files : List FileInput) : FilterBatch FileInput :=
  .ofClassified (files.map f.classifyInput)

def classifyCandidates (f : ProductionFilter) (files : List Candidate) : FilterBatch Candidate :=
  .ofClassified (files.map f.classifyCandidate)

end ProductionFilter

end SitePublish
