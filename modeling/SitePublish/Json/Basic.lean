import SitePublish.Dict

/-!
# JSON values

A value as the program computes with it. A number is an integer or the bit pattern of a double, so
equality is decidable and tells the two zeros apart. A value that is read has the members of an
object in ascending order of their keys; a printer writes members in the order in which they stand.
-/

set_option autoImplicit false

namespace SitePublish

inductive Json where
  | null
  | bool (b : Bool)
  | int (n : Int)
  | float (bits : UInt64)
  | str (s : String)
  | arr (items : List Json)
  | obj (members : List (String × Json))

namespace Json

mutual

def decEq : (a b : Json) → Decidable (a = b)
  | .null, .null => isTrue rfl
  | .bool a, .bool b => decidable_of_iff (a = b) (by simp)
  | .int a, .int b => decidable_of_iff (a = b) (by simp)
  | .float a, .float b => decidable_of_iff (a = b) (by simp)
  | .str a, .str b => decidable_of_iff (a = b) (by simp)
  | .arr a, .arr b =>
    match decEqItems a b with
    | isTrue h => isTrue (by rw [h])
    | isFalse h => isFalse (by simpa using h)
  | .obj a, .obj b =>
    match decEqMembers a b with
    | isTrue h => isTrue (by rw [h])
    | isFalse h => isFalse (by simpa using h)
  | .null, .bool _ | .null, .int _ | .null, .float _ | .null, .str _ | .null, .arr _
  | .null, .obj _ | .bool _, .null | .bool _, .int _ | .bool _, .float _ | .bool _, .str _
  | .bool _, .arr _ | .bool _, .obj _ | .int _, .null | .int _, .bool _ | .int _, .float _
  | .int _, .str _ | .int _, .arr _ | .int _, .obj _ | .float _, .null | .float _, .bool _
  | .float _, .int _ | .float _, .str _ | .float _, .arr _ | .float _, .obj _ | .str _, .null
  | .str _, .bool _ | .str _, .int _ | .str _, .float _ | .str _, .arr _ | .str _, .obj _
  | .arr _, .null | .arr _, .bool _ | .arr _, .int _ | .arr _, .float _ | .arr _, .str _
  | .arr _, .obj _ | .obj _, .null | .obj _, .bool _ | .obj _, .int _ | .obj _, .float _
  | .obj _, .str _ | .obj _, .arr _ => isFalse (by simp)

def decEqItems : (a b : List Json) → Decidable (a = b)
  | [], [] => isTrue rfl
  | [], _ :: _ => isFalse (by simp)
  | _ :: _, [] => isFalse (by simp)
  | a :: as, b :: bs =>
    match decEq a b with
    | isFalse h => isFalse (by simp [h])
    | isTrue h =>
      match decEqItems as bs with
      | isFalse g => isFalse (by simp [g])
      | isTrue g => isTrue (by rw [h, g])

def decEqMembers : (a b : List (String × Json)) → Decidable (a = b)
  | [], [] => isTrue rfl
  | [], _ :: _ => isFalse (by simp)
  | _ :: _, [] => isFalse (by simp)
  | (k, a) :: as, (l, b) :: bs =>
    match decEq a b with
    | isFalse h => isFalse (by simp [h])
    | isTrue h =>
      if hk : k = l then
        match decEqMembers as bs with
        | isFalse g => isFalse (by simp [g])
        | isTrue g => isTrue (by rw [h, g, hk])
      else isFalse (by simp [hk])

end

instance : DecidableEq Json := decEq

def isNull : Json → Bool
  | .null => true
  | _ => false

def isStr : Json → Bool
  | .str _ => true
  | _ => false

def str? : Json → Option String
  | .str s => some s
  | _ => none

def items? : Json → Option (List Json)
  | .arr items => some items
  | _ => none

def members? : Json → Option (Dict String Json)
  | .obj members => some members
  | _ => none

def member? (v : Json) (key : String) : Option Json := v.members?.bind (Dict.get? · key)

/-- The object with these members; of equal keys the last one counts. -/
def ofMembers (entries : List (String × Json)) : Json := .obj (Dict.ofList entries)

def ofStrings (texts : List String) : Json := .arr (texts.map .str)

def ofOption {α : Type} (value : α → Json) : Option α → Json
  | some a => value a
  | none => .null

def ofNat (n : Nat) : Json := .int n

end Json

end SitePublish
