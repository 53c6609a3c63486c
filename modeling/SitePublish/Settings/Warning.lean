import SitePublish.Text.Bytes
import SitePublish.Text.EditDistance
import SitePublish.Text.Split

/-!
# Warnings about settings

An unknown key is reported with the first line of the file that holds its last segment and with the
known key that is nearest to it, if one is near.
-/

set_option autoImplicit false

namespace SitePublish

structure ConfigWarning where
  key : String
  file : String
  line : Option Nat
  suggestion : Option String
deriving DecidableEq

namespace ConfigWarning

def message (w : ConfigWarning) : String :=
  "unknown config key '" ++ w.key ++ "' in " ++ w.file ++
    ((w.line.map fun n => ":" ++ toString n).getD "") ++
    ((w.suggestion.map fun s => " (did you mean '" ++ s ++ "'?)").getD "")

def knownKeys : List String :=
  ["source_control", "owner", "repo", "production_branch", "preview_branch", "api_url",
   "token_env", "timeout_secs", "hosting", "project", "team_id", "custom_domain", "generator",
   "data_dir", "app_dir", "renderer_import", "component_modules", "registry", "filter", "exclude",
   "include", "root", "versions", "per_page", "locks", "dir"]

def distance (a b : String) : Nat := Text.editDistance (Text.utf8 a) (Text.utf8 b)

def nearest (unknown : String) : List String → Option (String × Nat)
  | [] => none
  | c :: rest =>
    match nearest unknown rest with
    | none => some (c, distance unknown c)
    | some (b, n) => if distance unknown c ≤ n then some (c, distance unknown c) else some (b, n)

def editLimit : Nat := 2

def suggest (unknown : String) : Option String :=
  match nearest unknown knownKeys with
  | some (c, n) => if n ≤ editLimit ∧ n < unknown.utf8ByteSize then some c else none
  | none => none

def lineOf (content needle : String) : Option Nat :=
  ((Text.lines content).findIdx? (Text.contains needle)).map (· + 1)

def leaf (key : String) : String := ((Text.splitOn '.' key).getLast?).getD ""

def ofKey (file content key : String) : ConfigWarning :=
  ⟨key, file, lineOf content (leaf key), suggest (leaf key)⟩

end ConfigWarning

end SitePublish
