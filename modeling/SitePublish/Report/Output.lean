import SitePublish.Report.Deployment
import SitePublish.Version.History

/-!
# Outputs of commands

What a command yields, as an envelope for scripts and as lines for people.
-/

set_option autoImplicit false

namespace SitePublish

structure VersionsPage where
  branch : String
  versions : List VersionRecord
deriving DecidableEq

namespace VersionsPage

def toJson (p : VersionsPage) : Json :=
  Json.ofMembers
    [("branch", .str p.branch), ("versions", .arr (p.versions.map VersionRecord.toJson))]

def row (r : VersionRecord) : String :=
  let time := (r.commit.timestamp.map Instant.shortText).getD ""
  "v" ++ Report.column 4 (toString r.number) ++ " " ++ r.shortId ++ " " ++
    Report.column 16 time ++ " " ++ r.commit.author ++ " " ++ r.title

def lines (p : VersionsPage) : List String :=
  if p.versions.isEmpty then ["No versions on '" ++ p.branch ++ "'"] else p.versions.map row

end VersionsPage

namespace FilterBatch

def row (verdict : String) (c : Classified FileInput) : String :=
  Report.column 8 verdict ++ " " ++ Report.column 15 c.decision.rule.name ++ " " ++ c.file.path

def lines (b : FilterBatch FileInput) : List String :=
  b.included.map (row "include") ++ b.excluded.map (row "exclude") ++
  [toString b.stats.total ++ " files: " ++ toString b.stats.included ++ " included, " ++
    toString b.stats.excluded ++ " excluded"]

end FilterBatch

inductive Output where
  | deploy (result : DeployResult)
  | republish (result : RepublishResult)
  | bootstrap (result : BootstrapResult)
  | versions (page : VersionsPage)
  | classify (batch : FilterBatch FileInput)

namespace Output

def data : Output → Json
  | .deploy r => r.toJson
  | .republish r => r.toJson
  | .bootstrap r => r.toJson
  | .versions p => p.toJson
  | .classify b => b.toJson

def envelope (o : Output) : Json := Json.ofMembers [("success", .bool true), ("data", o.data)]

def lines (detailed : Bool) : Output → List String
  | .deploy r => r.lines detailed
  | .republish r => r.lines
  | .bootstrap r => r.lines detailed
  | .versions p => p.lines
  | .classify b => b.lines

def text (o : Output) (detailed : Bool) : String := Report.unlines (o.lines detailed)

end Output

end SitePublish
