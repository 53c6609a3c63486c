/-!
# Filter rules

The rules of the production filter by name, in the order in which they are tried.
-/

set_option autoImplicit false

namespace SitePublish

inductive FilterRule where
  | pathEscape
  | editorApi
  | editorUi
  | deployInfra
  | configPattern
  | nonProject
  | editorMarker
  | siteContent
deriving DecidableEq

namespace FilterRule

def order : List FilterRule :=
  [.pathEscape, .editorApi, .editorUi, .deployInfra, .configPattern, .nonProject, .editorMarker,
   .siteContent]

def name : FilterRule → String
  | .pathEscape => "path-escape"
  | .editorApi => "editor-api"
  | .editorUi => "editor-ui"
  | .deployInfra => "deploy-infra"
  | .configPattern => "config-pattern"
  | .nonProject => "non-project"
  | .editorMarker => "editor-marker"
  | .siteContent => "site-content"

end FilterRule

structure PatternConflict where
  path : String
  includePattern : String
  excludePattern : String
deriving DecidableEq

def PatternConflict.message (c : PatternConflict) : String :=
  "'" ++ c.path ++ "' matches include pattern '" ++ c.includePattern ++
    "' and exclude pattern '" ++ c.excludePattern ++ "'"

structure FilterDecision where
  included : Bool
  rule : FilterRule
  reason : String
  conflict : Option PatternConflict
deriving DecidableEq

namespace FilterDecision

def take (rule : FilterRule) (reason : String) : FilterDecision := ⟨true, rule, reason, none⟩

def drop (rule : FilterRule) (reason : String) : FilterDecision := ⟨false, rule, reason, none⟩

end FilterDecision

end SitePublish
