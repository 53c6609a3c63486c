import SitePublish.Toml.Value

/-!
# Records of TOML

A record is written as a table, or as an array of its first fields in order, of which further items
are not looked at. A date or a time counts as a table with one entry of a name of its own.
-/

set_option autoImplicit false

namespace SitePublish.Toml

def datetimeKey : String := "$__toml_private_datetime"

/-- The entries of a value that counts as a table. -/
def Value.entries? : Value → Option (List (String × Value))
  | .table es => some es
  | .datetime text => some [(datetimeKey, .string text)]
  | _ => none

def entry (key : String) (es : List (String × Value)) : Option Value :=
  (es.find? fun e => e.1 = key).map Prod.snd

/-- What a record holds for each field, and the keys that are not fields. -/
def fields? (names : List String) (v : Value) : Option (List (Option Value) × List String) :=
  match v with
  | .array items =>
    some (items.take names.length |>.map some |>.append
      (List.replicate (names.length - items.length) none), [])
  | v =>
    v.entries?.map fun es =>
      (names.map (entry · es), (es.map Prod.fst).filter fun k => !names.contains k)

def text? : Value → Option String
  | .string s => some s
  | _ => none

def bool? : Value → Option Bool
  | .boolean b => some b
  | _ => none

def natBelow? (limit : Nat) : Value → Option Nat
  | .integer n => if 0 ≤ n ∧ n < limit then some n.toNat else none
  | _ => none

def list? {α : Type} (read : Value → Option α) : Value → Option (List α)
  | .array vs => vs.mapM read
  | _ => none

def field? {α : Type} (read : Value → Option α) (default : α) : Option Value → Option α
  | none => some default
  | some v => read v

def optionalText? : Option Value → Option (Option String)
  | none => some none
  | some v => (text? v).map some

def required? {α : Type} (read : Value → Option α) (v : Option Value) : Option α := v.bind read

end SitePublish.Toml
