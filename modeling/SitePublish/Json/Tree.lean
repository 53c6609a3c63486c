import SitePublish.Json.Token

/-!
# JSON syntax trees

The tree of a text keeps what a value forgets: the order of the members, repeated keys, and numbers
by their digits. A stack of open brackets reads the tokens, so a text of any depth is read; who
turns a tree into something else bounds the depth it accepts.
-/

set_option autoImplicit false

namespace SitePublish.Json

inductive Tree where
  | null
  | bool (b : Bool)
  | number (l : Literal)
  | str (text : Option String)
  | arr (items : List Tree)
  | obj (members : List (Option String × Tree))

/-- An open bracket with what stands before the hole, the nearest first. -/
inductive Frame where
  /-- `afterComma` asks for another item. -/
  | inArray (reversed : List Tree) (afterComma : Bool)
  /-- An item has been read; a comma or the closing bracket follows. -/
  | pastItem (reversed : List Tree)
  | inObject (reversed : List (Option String × Tree)) (afterComma : Bool)
  /-- A key has been read; a colon follows. -/
  | pastKey (reversed : List (Option String × Tree)) (key : Option String)
  /-- A key and its colon have been read; a value follows. -/
  | atValue (reversed : List (Option String × Tree)) (key : Option String)
  | pastMember (reversed : List (Option String × Tree))

/-- Either a value is still to come, or the whole value has been read. -/
inductive ReadState where
  | reading (stack : List Frame)
  | done (t : Tree)

def place (t : Tree) : List Frame → Option ReadState
  | [] => some (.done t)
  | .inArray r _ :: stack => some (.reading (.pastItem (t :: r) :: stack))
  | .atValue r key :: stack => some (.reading (.pastMember ((key, t) :: r) :: stack))
  | _ => none

def placeString (text : Option String) : List Frame → Option ReadState
  | .inObject r _ :: stack => some (.reading (.pastKey r text :: stack))
  | stack => place (.str text) stack

def acceptsValue : List Frame → Bool
  | [] => true
  | .inArray _ _ :: _ => true
  | .atValue _ _ :: _ => true
  | _ => false

def readToken (stack : List Frame) (t : Token) : Option ReadState :=
  match t with
  | .openArray =>
    if acceptsValue stack then some (.reading (.inArray [] false :: stack)) else none
  | .openObject =>
    if acceptsValue stack then some (.reading (.inObject [] false :: stack)) else none
  | .closeArray =>
    match stack with
    | .inArray [] false :: rest => place (.arr []) rest
    | .pastItem r :: rest => place (.arr r.reverse) rest
    | _ => none
  | .closeObject =>
    match stack with
    | .inObject [] false :: rest => place (.obj []) rest
    | .pastMember r :: rest => place (.obj r.reverse) rest
    | _ => none
  | .comma =>
    match stack with
    | .pastItem r :: rest => some (.reading (.inArray r true :: rest))
    | .pastMember r :: rest => some (.reading (.inObject r true :: rest))
    | _ => none
  | .colon =>
    match stack with
    | .pastKey r key :: rest => some (.reading (.atValue r key :: rest))
    | _ => none
  | .word .null => place .null stack
  | .word .yes => place (.bool true) stack
  | .word .no => place (.bool false) stack
  | .number l => place (.number l) stack
  | .string text => placeString text stack

def readFrom : ReadState → List Token → Option Tree
  | .done t, [] => some t
  | .reading _, [] => none
  | .done _, _ :: _ => none
  | .reading stack, t :: rest =>
    match readToken stack t with
    | some state => readFrom state rest
    | none => none

def Tree.ofTokens? (ts : List Token) : Option Tree := readFrom (.reading []) ts

def Tree.parse? (s : String) : Option Tree := (tokens? s.toList).bind Tree.ofTokens?

end SitePublish.Json
