import SitePublish.Deploy.Result
import SitePublish.Report.Filter
import SitePublish.Report.Lines

/-!
# Reports on deployments

The results of deployments, publications and bootstraps for scripts and for people. With more detail
every file that ships is listed.
-/

set_option autoImplicit false

namespace SitePublish

def ExcludedFile.toJson (f : ExcludedFile) : Json :=
  Json.ofMembers
    [("path", .str f.path), ("rule", .str f.rule.name), ("reason", .str f.reason)]

def CommitReceipt.toJson (r : CommitReceipt) : Json :=
  Json.ofMembers [("id", .str r.id), ("url", .str r.url)]

def Deployment.toJson (d : Deployment) : Json :=
  Json.ofMembers [("id", .str d.id), ("url", .str d.url)]

def HostingProject.toJson (p : HostingProject) : Json :=
  Json.ofMembers
    ([("id", .str p.id), ("url", .str p.url)] ++
      (p.domain.map fun d => ("domain", Json.str d)).toList)

namespace DeployResult

def toJson (r : DeployResult) : Json :=
  Json.ofMembers
    [("target", .str r.target.name), ("branch", .str r.branch), ("dryRun", .bool r.dryRun),
     ("phase", .str r.phase.name), ("files", Json.ofStrings r.files),
     ("excluded", .arr (r.excluded.map ExcludedFile.toJson)), ("stats", r.stats.toJson),
     ("fingerprint", .str r.fingerprint.text), ("written", Json.ofStrings r.written),
     ("deleted", Json.ofStrings r.deleted), ("unchanged", Json.ofNat r.unchanged),
     ("noChanges", .bool r.noChanges), ("commit", Json.ofOption CommitReceipt.toJson r.commit),
     ("deployment", Json.ofOption Deployment.toJson r.deployment),
     ("versionNumber", Json.ofNat r.version)]

def headline (r : DeployResult) : String :=
  if r.dryRun then
    "Preview (" ++ r.target.name ++ ") of '" ++ r.branch ++ "': " ++ toString r.files.length ++
      " files would ship"
  else if r.noChanges then "Already up to date on '" ++ r.branch ++ "'"
  else "Deployed to '" ++ r.branch ++ "'"

def excludedLines (r : DeployResult) : List String :=
  if r.excluded.isEmpty then []
  else
    let verb := if r.target.appliesExclusions then "Excluded" else "Would exclude"
    ("  " ++ verb ++ " (" ++ toString r.excluded.length ++ "):") ::
      r.excluded.map fun f => "    - " ++ f.path ++ " [" ++ f.rule.name ++ "] " ++ f.reason

def commitLines (r : DeployResult) (detailed : Bool) : List String :=
  match r.commit with
  | none => []
  | some c =>
    ("  commit: " ++ c.id ++ " (" ++ toString r.written.length ++ " written, " ++
      toString r.deleted.length ++ " deleted, " ++ toString r.unchanged ++ " unchanged)") ::
    if detailed then r.deleted.map fun p => "    x " ++ p else []

def lines (r : DeployResult) (detailed : Bool) : List String :=
  [r.headline, "  fingerprint: " ++ r.fingerprint.text] ++
  (if detailed then r.files.map fun p => "    + " ++ p else []) ++
  r.excludedLines ++ r.commitLines detailed ++
  (r.deployment.map fun d => "  deployment: " ++ d.id ++ " " ++ d.url).toList ++
  (if r.dryRun then [] else ["  version: " ++ toString r.version])

end DeployResult

namespace RepublishResult

def toJson (r : RepublishResult) : Json :=
  Json.ofMembers
    [("target", .str r.target.name), ("branch", .str r.branch),
     ("deployment", r.deployment.toJson)]

def lines (r : RepublishResult) : List String :=
  ["Republished '" ++ r.branch ++ "': " ++ r.deployment.id ++ " " ++ r.deployment.url]

end RepublishResult

namespace BootstrapResult

def toJson (r : BootstrapResult) : Json :=
  Json.ofMembers [("preview", r.preview.toJson), ("project", r.project.toJson)]

def lines (r : BootstrapResult) (detailed : Bool) : List String :=
  r.preview.lines detailed ++
  ["Provisioned " ++ r.project.id ++ " at " ++ r.project.url] ++
  (r.project.domain.map fun d => "  domain: " ++ d).toList

end BootstrapResult

end SitePublish
