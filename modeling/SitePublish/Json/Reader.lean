import SitePublish.Json.Number
import SitePublish.Json.Tree

/-!
# From trees to values

A tree becomes a value when its numbers fit, its strings decode and it is nested no deeper than
a given budget. Of repeated keys the last member counts. Shapes of the library read trees with the
combinators at the end of this module; what they do not look at is never turned into a value, so
its depth and its numbers do not matter.
-/

set_option autoImplicit false

namespace SitePublish.Json

def depthLimit : Nat := 127

mutual

def ofTree? (budget : Nat) : Tree → Option Json
  | .null => some .null
  | .bool b => some (.bool b)
  | .number l => l.toJson?
  | .str text => text.map .str
  | .arr items =>
    if budget = 0 then none else (ofTrees? (budget - 1) items).map .arr
  | .obj members =>
    if budget = 0 then none
    else (ofMembers? (budget - 1) members).map fun ms => .obj (Dict.ofList ms)

def ofTrees? (budget : Nat) : List Tree → Option (List Json)
  | [] => some []
  | t :: rest =>
    match ofTree? budget t, ofTrees? budget rest with
    | some v, some vs => some (v :: vs)
    | _, _ => none

def ofMembers? (budget : Nat) : List (Option String × Tree) → Option (List (String × Json))
  | [] => some []
  | (key, t) :: rest =>
    match key, ofTree? budget t, ofMembers? budget rest with
    | some k, some v, some ms => some ((k, v) :: ms)
    | _, _, _ => none

end

def parse? (s : String) : Option Json := (Tree.parse? s).bind (ofTree? depthLimit)

/-- Reads something out of a tree within a nesting budget. -/
abbrev Shape (α : Type) := Nat → Tree → Option α

namespace Shape

def value : Shape Json := ofTree?

def string : Shape String
  | _, .str text => text
  | _, _ => none

def bool : Shape Bool
  | _, .bool b => some b
  | _, _ => none

def natBelow (limit : Nat) : Shape Nat
  | _, .number l =>
    match l.toJson? with
    | some (.int n) => if 0 ≤ n ∧ n < limit then some n.toNat else none
    | _ => none
  | _, _ => none

/-- Null is absence. -/
def optional {α : Type} (shape : Shape α) : Shape (Option α)
  | _, .null => some none
  | budget, t => (shape budget t).map some

def list {α : Type} (shape : Shape α) : Shape (List α)
  | budget, .arr items => if budget = 0 then none else items.mapM (shape (budget - 1))
  | _, _ => none

def entries {α : Type} (shape : Shape α) (budget : Nat) (members : List (Option String × Tree)) :
    Option (List (String × α)) :=
  members.mapM fun m =>
    match m.1, shape budget m.2 with
    | some k, some a => some (k, a)
    | _, _ => none

def members {α : Type} (shape : Shape α) : Shape (List (String × α))
  | budget, .obj ms => if budget = 0 then none else entries shape (budget - 1) ms
  | _, _ => none

/-- The names under which a field may be written. -/
abbrev Names := List String

/-- The tree of the only member with one of the names; two such members are refused. -/
def fieldOf (names : Names) (members : List (String × Tree)) : Option (Option Tree) :=
  match members.filter fun m => names.contains m.1 with
  | [] => some none
  | [m] => some (some m.2)
  | _ => none

/-- Every key has to decode. -/
def decodedKeys (members : List (Option String × Tree)) : Option (List (String × Tree)) :=
  members.mapM fun m => m.1.map fun k => (k, m.2)

/-- The trees of a record's fields. A record is an object, whose unknown members are skipped, or an
array of its first fields in order. A missing field is `none`. -/
def fieldTrees (fields : List Names) : Tree → Option (List (Option Tree))
  | .obj ms => (decodedKeys ms).bind fun ms => fields.mapM (fieldOf · ms)
  | .arr items =>
    if items.length ≤ fields.length then
      some (items.map some ++ List.replicate (fields.length - items.length) none)
    else none
  | _ => none

def record {α : Type} (fields : List Names) (build : Nat → List (Option Tree) → Option α) : Shape α
  | 0, _ => none
  | budget + 1, t => (fieldTrees fields t).bind (build budget)

def field {α : Type} (shape : Shape α) (default : α) (budget : Nat) : Option Tree → Option α
  | none => some default
  | some t => shape budget t

def required {α : Type} (shape : Shape α) (budget : Nat) : Option Tree → Option α
  | none => none
  | some t => shape budget t

def parse? {α : Type} (shape : Shape α) (s : String) : Option α :=
  (Tree.parse? s).bind (shape depthLimit)

end Shape

end SitePublish.Json
