import SitePublish.Command.Scan
import SitePublish.Deploy.Target

/-!
# The command line

The commands of the program with their options. Options of the program may stand in front of the
command or behind it; behind it they count first.
-/

set_option autoImplicit false

namespace SitePublish

structure DocumentInput where
  document : String
  seo : Option String
deriving DecidableEq

inductive Command where
  | preview (input : DocumentInput) (target : Target) (branch : Option String)
  | deploy (input : DocumentInput) (target : Target) (branch : Option String) (dryRun : Bool)
      (message : Option String) (noSave : Bool)
  | republish (target : Target) (branch : Option String)
  | bootstrap (input : DocumentInput) (customDomain : Option String)
  | versions (branch : Option String) (perPage : Option Nat)
  | classify (paths : List String) (source : Option String) (strict : Bool)
deriving DecidableEq

structure Invocation where
  json : Bool
  verbosity : Nat
  config : Option String
  projectDir : Option String
  events : Bool
  command : Command
deriving DecidableEq

namespace Usage

def helpOption : OptionSpec := ⟨"help", some 'h', .help⟩

def globalOptions : List OptionSpec :=
  [⟨"json", none, .flag⟩, ⟨"verbose", some 'v', .count⟩, ⟨"config", none, .value .path⟩,
   ⟨"project-dir", none, .value .path⟩, ⟨"events", none, .flag⟩]

def targetOption : OptionSpec := ⟨"target", some 't', .value .target⟩

def branchOption : OptionSpec := ⟨"branch", some 'b', .value .text⟩

def seoOption : OptionSpec := ⟨"seo", none, .value .path⟩

def commandNames : List String :=
  ["preview", "deploy", "republish", "bootstrap", "versions", "classify", "help"]

def topLevel : Level :=
  ⟨helpOption :: ⟨"version", some 'V', .version⟩ :: globalOptions, .absent, commandNames⟩

def levelOf (positional : PositionalSpec) (options : List OptionSpec) : Level :=
  ⟨helpOption :: globalOptions ++ options, positional, []⟩

def levelOfCommand (name : String) : Level :=
  if name = "preview" then levelOf (.one .path) [seoOption, targetOption, branchOption]
  else if name = "deploy" then
    levelOf (.one .path)
      [seoOption, targetOption, branchOption, ⟨"dry-run", none, .flag⟩,
       ⟨"message", some 'm', .value .text⟩, ⟨"no-save", none, .flag⟩]
  else if name = "republish" then levelOf .absent [targetOption, branchOption]
  else if name = "bootstrap" then
    levelOf (.one .path) [seoOption, ⟨"custom-domain", none, .value .text⟩]
  else if name = "versions" then
    levelOf .absent [branchOption, ⟨"per-page", none, .value .number⟩]
  else levelOf (.many .text) [⟨"from", none, .value .path⟩, ⟨"strict", none, .flag⟩]

def helpOn : List String → UsageError
  | [] => .help
  | [name] => if commandNames.contains name then .help else .unknownCommand
  | _ => .unknownCommand

def target (s : Scan) (default : Target) : Target :=
  match s.values.get? "target" with
  | some "preview" => .preview
  | some "production" => .production
  | _ => default

def documentInput (s : Scan) : Except UsageError DocumentInput :=
  match s.positionals.head? with
  | some path => .ok ⟨path, s.values.get? "seo"⟩
  | none => .error .missingArgument

def commandOf (name : String) (s : Scan) : Except UsageError Command :=
  let branch := s.values.get? "branch"
  if name = "preview" then
    (documentInput s).map fun input => .preview input (target s .production) branch
  else if name = "deploy" then
    (documentInput s).map fun input =>
      .deploy input (target s .preview) branch (s.isSet "dry-run") (s.values.get? "message")
        (s.isSet "no-save")
  else if name = "republish" then .ok (.republish (target s .preview) branch)
  else if name = "bootstrap" then
    (documentInput s).map fun input => .bootstrap input (s.values.get? "custom-domain")
  else if name = "versions" then
    .ok (.versions branch ((s.values.get? "per-page").bind ValueKind.number?))
  else if (s.isSet "from") && !s.positionals.isEmpty then .error .conflict
  else .ok (.classify s.positionals (s.values.get? "from") (s.isSet "strict"))

def invocation (top sub : Scan) (command : Command) : Invocation where
  json := top.isSet "json" || sub.isSet "json"
  verbosity := min 255 (if sub.count = 0 then top.count else sub.count)
  config := (sub.values.get? "config").or (top.values.get? "config")
  projectDir := (sub.values.get? "project-dir").or (top.values.get? "project-dir")
  events := top.isSet "events" || sub.isSet "events"
  command := command

def readCommand (name : String) (words : List String) : Except UsageError (Scan × Command) :=
  let level := levelOfCommand name
  match Scan.empty.read level false words with
  | .error e => .error e
  | .ok (s, _) =>
    match s.settle level with
    | .error e => .error e
    | .ok s =>
      match commandOf name s with
      | .error e => .error e
      | .ok c => .ok (s, c)

end Usage

def Invocation.ofArguments (words : List String) : Except UsageError Invocation :=
  match Usage.Scan.empty.read Usage.topLevel false words with
  | .error e => .error e
  | .ok (top, none) =>
    match top.settle Usage.topLevel with
    | .error e => .error e
    | .ok top => .error (if top.isEmpty then .nothingGiven else .missingCommand)
  | .ok (top, some (name, rest)) =>
    if name = "help" then .error (Usage.helpOn rest)
    else
      match Usage.readCommand name rest with
      | .error e => .error e
      | .ok (sub, command) =>
        match top.settle Usage.topLevel with
        | .error e => .error e
        | .ok top => .ok (Usage.invocation top sub command)

end SitePublish
