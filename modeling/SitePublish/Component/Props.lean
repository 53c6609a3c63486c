import SitePublish.Component.Registry

/-!
# Resolved properties

A placed component carries a flat map of possibly dotted keys. Resolving it yields the nested object
that the page is rendered from: the defaults of the fields it leaves out in the order of the design,
then its own values in the order of their keys. A null value counts as left out.
-/

set_option autoImplicit false

namespace SitePublish

structure Component where
  type : String
  props : Dict String Json
deriving DecidableEq

inductive PropError where
  | invalidValue (key : String) (kind : FieldKind)
  | pathConflict (key blockedAt : String)
deriving DecidableEq

namespace Props

def dotted (walked segment : String) : String :=
  if walked = "" then segment else walked ++ "." ++ segment

/-- Inserts at a path, making objects on the way. At the end of the path an object takes in the
members of an object; nothing else replaces an object. Returns the map as the walk leaves it. -/
def insertAt (key : String) (value : Json) (walked : String) :
    List String → Dict String Json → Dict String Json × Option PropError
  | [], target => (target, none)
  | [leaf], target =>
    match target.get? leaf, value with
    | some (.obj existing), .obj incoming =>
      (target.insert leaf (.obj (Dict.insertAll existing incoming)), none)
    | some (.obj _), _ => (target, some (.pathConflict key key))
    | _, _ => (target.insert leaf value, none)
  | segment :: next :: rest, target =>
    match target.get? segment with
    | some (.obj inner) =>
      let (inner, e) := insertAt key value (dotted walked segment) (next :: rest) inner
      (target.insert segment (.obj inner), e)
    | none =>
      let (inner, e) := insertAt key value (dotted walked segment) (next :: rest) []
      (target.insert segment (.obj inner), e)
    | some _ => (target, some (.pathConflict key (dotted walked segment)))

def insertDotted (target : Dict String Json) (key : String) (value : Json) :
    Dict String Json × Option PropError :=
  insertAt key value "" (Text.splitOn '.' key) target

def isSet (c : Component) (key : String) : Bool :=
  match c.props.get? key with
  | some v => !v.isNull
  | none => false

def insertDefaults (c : Component) :
    List Field → Dict String Json → Except PropError (Dict String Json)
  | [], m => .ok m
  | f :: rest, m =>
    if isSet c f.key then insertDefaults c rest m
    else
      match insertDotted m f.key f.default with
      | (m, none) => insertDefaults c rest m
      | (_, some e) => .error e

def insertValues (d : Design) :
    List (String × Json) → Dict String Json → Except PropError (Dict String Json)
  | [], m => .ok m
  | (key, value) :: rest, m =>
    if value.isNull then insertValues d rest m
    else
      match d.field? key with
      | some f =>
        if f.kind.accepts value then
          match insertDotted m key value with
          | (m, none) => insertValues d rest m
          | (_, some e) => .error e
        else .error (.invalidValue key f.kind)
      | none =>
        match insertDotted m key value with
        | (m, none) => insertValues d rest m
        | (_, some e) => .error e

def resolve (d : Design) (c : Component) : Except PropError (Dict String Json) :=
  match insertDefaults c d.fields [] with
  | .ok m => insertValues d c.props m
  | .error e => .error e

end Props

end SitePublish
