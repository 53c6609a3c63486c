import SitePublish.Component.RegistryFile
import SitePublish.Deploy.Failure
import SitePublish.Report.Lines
import SitePublish.Settings.Config
import SitePublish.Site.DocumentFile
import SitePublish.Version.History

/-!
# Failures of commands

Every way in which a command can fail, the kind of fault behind it and how it is reported. A failed
deployment also tells where it stopped, and which commit is left to publish.
-/

set_option autoImplicit false

namespace SitePublish

inductive InputError where
  | noPaths
  | unreadable (what path : String) (cause : FileError)
  | malformed (what path : String)
  | other (text : String)
deriving DecidableEq

def InputError.message (detail : String) : InputError → String
  | .noPaths => "no paths to classify"
  | .unreadable what path cause => "cannot read " ++ what ++ " " ++ path ++ ": " ++ cause.message
  | .malformed what path => "invalid " ++ what ++ " " ++ path ++ ": " ++ detail
  | .other text => text

inductive CommandError where
  | config (cause : ConfigError)
  | document (cause : DocumentFileError)
  | registry (cause : RegistryFileError)
  | generation (cause : GenerationError)
  | filter (cause : PatternConflict)
  | deploy (cause : DeployError)
  | versions (cause : VersionFetchError)
  | sourceControl (cause : RemoteError)
  | hosting (cause : HostingError)
  | input (cause : InputError)
  | io (cause : FileError)

inductive FaultKind where
  | invalidInput
  | forbidden
  /-- A service outside, or the way to it. -/
  | service
  | internal
deriving DecidableEq

namespace FaultKind

def name : FaultKind → String
  | .invalidInput => "invalid_input"
  | .forbidden => "forbidden"
  | .service => "upstream"
  | .internal => "internal"

def status : FaultKind → Nat
  | .invalidInput => 400
  | .forbidden => 403
  | .service | .internal => 500

def ofService (isUnauthorized : Bool) : FaultKind :=
  if isUnauthorized then .forbidden else .service

end FaultKind

def DeployFailure.kind : DeployFailure → FaultKind
  | .generation _ | .generatedFileExcluded _ _ _ => .invalidInput
  | .ownership _ => .forbidden
  | .sourceControl e => .ofService e.isUnauthorized
  | .hosting e => .ofService e.isUnauthorized
  | .project _ | .lock _ | .notBootstrapped => .internal

namespace CommandError

def kind : CommandError → FaultKind
  | .config _ | .registry _ | .io _ => .internal
  | .document (.unreadable _) => .internal
  | .document _ | .generation _ | .filter _ | .input _ => .invalidInput
  | .deploy e => e.cause.kind
  | .versions e => .ofService e.isUnauthorized
  | .sourceControl e => .ofService e.isUnauthorized
  | .hosting e => .ofService e.isUnauthorized

def message (detail : String) : CommandError → String
  | .config e => e.message detail
  | .document e => e.message detail
  | .registry e => e.message detail
  | .generation e => e.message
  | .filter e => e.message
  | .deploy e => e.message
  | .versions e => e.message
  | .sourceControl e => e.message
  | .hosting e => e.message
  | .input e => "invalid input: " ++ e.message detail
  | .io e => "IO error: " ++ e.message

def deployMembers (e : DeployError) : List (String × Json) :=
  [("phase", .str e.phase.name), ("branch", .str e.branch), ("dryRun", .bool e.dryRun)] ++
    (e.commit.map fun c => ("commitId", Json.str c)).toList

def envelope (detail : String) (e : CommandError) : Json :=
  Json.ofMembers
    ([("success", .bool false), ("error", .str (e.message detail)),
      ("reason", .str e.kind.name), ("status", Json.ofNat e.kind.status)] ++
      match e with
      | .deploy d => deployMembers d
      | _ => [])

def lines (detail : String) (e : CommandError) : List String :=
  ("error: " ++ e.message detail) ::
    match e with
    | .deploy d =>
      (d.commit.map fun c => "  commit " ++ c ++ " is on '" ++ d.branch ++
        "'; run `siteforge republish` to retry publishing").toList
    | _ => []

def text (detail : String) (e : CommandError) : String := Report.unlines (e.lines detail)

end CommandError

end SitePublish
