import SitePublish.Component.Registry
import SitePublish.Decimal.Shortest
import SitePublish.FileTree.Basic
import SitePublish.Toml.Document
import SitePublish.Toml.Record
import SitePublish.Word

/-!
# Registry files

Designs written in TOML, which take the place of the built-in designs or add to them. Of designs
with one name only the last counts, so a file may replace a built-in design.
-/

set_option autoImplicit false

namespace SitePublish

inductive RegistryFileError where
  | notFound (path : String)
  | unreadable (path : String) (cause : FileError)
  | malformed (path : String)
  | invalid (path : String) (cause : RegistryError)
deriving DecidableEq

/-- The message, with `detail` in the place of what a reader of the format says about a fault. -/
def RegistryFileError.message (detail : String) : RegistryFileError → String
  | .notFound path => "registry file not found: " ++ path
  | .unreadable path cause => "failed to read registry " ++ path ++ ": " ++ cause.message
  | .malformed path => "invalid registry " ++ path ++ ": " ++ detail
  | .invalid path cause => "invalid registry " ++ path ++ ": " ++ cause.message

namespace RegistryFile

def floatJson (bits : UInt64) : Json :=
  match Decimal.Binary.ofBits? bits with
  | some _ => .float bits
  | none => if bits.toNat % Word.signBit = 0 then .float bits else .null

mutual

def toJson : Toml.Value → Json
  | .string s => .str s
  | .integer n => .int n
  | .float bits => floatJson bits
  | .boolean b => .bool b
  | .datetime text => .obj [(Toml.datetimeKey, .str text)]
  | .array items => .arr (toJsons items)
  | .table entries => Json.ofMembers (toMembers entries)

def toJsons : List Toml.Value → List Json
  | [] => []
  | v :: rest => toJson v :: toJsons rest

def toMembers : List (String × Toml.Value) → List (String × Json)
  | [] => []
  | (k, v) :: rest => (k, toJson v) :: toMembers rest

end

def isEmptyValue : Toml.Value → Bool
  | .array items => items.isEmpty
  | .table entries => entries.isEmpty
  | _ => false

def kind? : Toml.Value → Option FieldKind
  | .string name => FieldKind.ofName? name
  | .table [(name, v)] => if isEmptyValue v then FieldKind.ofName? name else none
  | _ => none

def field? (v : Toml.Value) : Option Field := do
  match ← Toml.fields? ["key", "kind", "default"] v with
  | ([key, kind, default], _) =>
    return ⟨← Toml.required? Toml.text? key, ← Toml.required? kind? kind,
      (default.map toJson).getD .null⟩
  | _ => none

def design? (v : Toml.Value) : Option Design := do
  match ← Toml.fields? ["name", "field"] v with
  | ([name, fields], []) =>
    return ⟨← Toml.required? Toml.text? name, ← Toml.field? (Toml.list? field?) [] fields⟩
  | _ => none

def contents? (entries : List (String × Toml.Value)) : Option (Bool × List Design) := do
  match ← Toml.fields? ["extend_builtin", "design"] (.table entries) with
  | ([extend, designs], []) =>
    return (← Toml.field? Toml.bool? false extend, ← Toml.field? (Toml.list? design?) [] designs)
  | _ => none

def replace (designs : List Design) (d : Design) : List Design :=
  designs.filter (fun e => e.name ≠ d.name) ++ [d]

def designsOf (extend : Bool) (designs : List Design) : List Design :=
  designs.foldl replace (if extend then Registry.builtin.designs.values else [])

def parse (path content : String) : Except RegistryFileError Registry :=
  match (Toml.parse? content).bind contents? with
  | none => .error (.malformed path)
  | some (extend, designs) =>
    match Registry.ofDesigns (designsOf extend designs) with
    | .ok r => .ok r
    | .error e => .error (.invalid path e)

def load (files : FileTree) (path : String) : Except RegistryFileError Registry :=
  match files.readText path with
  | .ok content => parse path content
  | .error .notFound => .error (.notFound path)
  | .error e => .error (.unreadable path e)

end RegistryFile

end SitePublish
