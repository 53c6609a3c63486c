import SitePublish.Filter.Batch
import SitePublish.Json.Basic

/-!
# Filter decisions as JSON

How single decisions, statistics and whole batches of files are shown to scripts.
-/

set_option autoImplicit false

namespace SitePublish

namespace PatternConflict

def toJson (c : PatternConflict) : Json :=
  Json.ofMembers
    [("path", .str c.path), ("include", .str c.includePattern),
     ("exclude", .str c.excludePattern)]

end PatternConflict

namespace FilterDecision

def toJson (d : FilterDecision) : Json :=
  Json.ofMembers
    ([("include", .bool d.included), ("reason", .str d.reason), ("rule", .str d.rule.name)] ++
      (d.conflict.map fun c => ("config_error", c.toJson)).toList)

end FilterDecision

namespace FilterStats

def toJson (s : FilterStats) : Json :=
  Json.ofMembers
    [("total", Json.ofNat s.total), ("included", Json.ofNat s.included),
     ("excluded", Json.ofNat s.excluded),
     ("by_rule", Json.ofMembers (s.byRule.map fun e => (e.1.name, Json.ofNat e.2))),
     ("config_errors", Json.ofNat s.conflicts)]

end FilterStats

namespace FileInput

def toJson (i : FileInput) : Json :=
  Json.ofMembers
    (("path", .str i.path) :: (i.content.map fun c => ("content", Json.str c)).toList)

end FileInput

namespace FilterBatch

def classifiedJson (c : Classified FileInput) : Json :=
  Json.ofMembers [("file", c.file.toJson), ("decision", c.decision.toJson)]

def toJson (b : FilterBatch FileInput) : Json :=
  Json.ofMembers
    [("included", .arr (b.included.map classifiedJson)),
     ("excluded", .arr (b.excluded.map classifiedJson)), ("stats", b.stats.toJson)]

end FilterBatch

end SitePublish
