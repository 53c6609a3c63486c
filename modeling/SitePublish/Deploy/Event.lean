import SitePublish.Deploy.Phase
import SitePublish.Deploy.Target
import SitePublish.Filter.Rule
import SitePublish.Json.Basic

/-!
# Deployment events

The progress of a deployment, one event at a time, and each event as JSON.
-/

set_option autoImplicit false

namespace SitePublish

inductive DeployEvent where
  | started (target : Target) (branch : String) (dryRun : Bool) (pages : Nat)
  | entered (phase : Phase)
  | generated (files : Nat)
  | fileExcluded (path : String) (rule : FilterRule) (reason : String)
  | filtered (included excluded : Nat) (fingerprint : String)
  | planned (writes skips deletions : Nat)
  | committed (commit : String) (files : Nat)
  /-- The branch already holds the files. -/
  | commitSkipped (head : Option String)
  | published (deployment url : String)
  | failed (phase : Phase) (error : String)
  | completed (commit deployment : Option String) (dryRun : Bool)
deriving DecidableEq

def DeployEvent.toJson : DeployEvent → Json
  | .started target branch dryRun pages => Json.ofMembers
    [("event", .str "start"), ("command", .str "deploy"), ("target", .str target.name),
     ("branch", .str branch), ("dry_run", .bool dryRun), ("page_count", Json.ofNat pages)]
  | .entered phase => Json.ofMembers [("event", .str "phase"), ("phase", .str phase.name)]
  | .generated files => Json.ofMembers
    [("event", .str "generated"), ("file_count", Json.ofNat files)]
  | .fileExcluded path rule reason => Json.ofMembers
    [("event", .str "item_excluded"), ("path", .str path), ("rule", .str rule.name),
     ("reason", .str reason)]
  | .filtered included excluded fingerprint => Json.ofMembers
    [("event", .str "filtered"), ("included", Json.ofNat included),
     ("excluded", Json.ofNat excluded), ("fingerprint", .str fingerprint)]
  | .planned writes skips deletions => Json.ofMembers
    [("event", .str "planned"), ("write", Json.ofNat writes), ("unchanged", Json.ofNat skips),
     ("delete", Json.ofNat deletions)]
  | .committed commit files => Json.ofMembers
    [("event", .str "committed"), ("commit", .str commit), ("file_count", Json.ofNat files)]
  | .commitSkipped head => Json.ofMembers
    [("event", .str "commit_skipped"), ("head", Json.ofOption .str head)]
  | .published deployment url => Json.ofMembers
    [("event", .str "published"), ("deployment", .str deployment), ("url", .str url)]
  | .failed phase error => Json.ofMembers
    [("event", .str "error"), ("phase", .str phase.name), ("error", .str error)]
  | .completed commit deployment dryRun => Json.ofMembers
    [("event", .str "complete"), ("command", .str "deploy"), ("status", .str "success"),
     ("commit", Json.ofOption .str commit), ("deployment", Json.ofOption .str deployment),
     ("dry_run", .bool dryRun)]

end SitePublish
