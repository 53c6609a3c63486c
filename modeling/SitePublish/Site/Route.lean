import SitePublish.Text.Blank
import SitePublish.Text.LetterCase
import SitePublish.Text.Split

/-!
# Routes

The address of a page. A page key is trimmed of blanks, then of slashes, then of blanks again, and
lowercased; runs of blanks inside become dashes. The keys `index` and `home` and the empty key name
the root.
-/

set_option autoImplicit false

namespace SitePublish

inductive RouteError where
  | invalidCharacter (c : Char)
  | invalidSegment (segment : String)
deriving DecidableEq

def RouteError.message : RouteError → String
  | .invalidCharacter c => "character '" ++ String.singleton c ++ "' is not allowed in a route"
  | .invalidSegment s => "route segment '" ++ s ++ "' is not allowed"

structure Route where
  text : String
deriving DecidableEq

instance : LT Route := ⟨fun r s => r.text < s.text⟩

instance : DecidableLT Route := fun r s => inferInstanceAs (Decidable (r.text < s.text))

namespace Route

def root : Route := ⟨"/"⟩

def rootKeys : List String := ["index", "home"]

def isRouteChar (c : Char) : Bool :=
  ('a' ≤ c && c ≤ 'z') || ('0' ≤ c && c ≤ '9') || c = '-' || c = '_' || c = '/'

/-- Blanks become one dash in front of the next character; blanks at the end vanish. -/
def dashed (pending : Bool) : List Char → Except RouteError (List Char)
  | [] => .ok []
  | c :: rest =>
    if Text.isBlank c then dashed true rest
    else if isRouteChar c then
      match dashed false rest with
      | .ok r => .ok (if pending then '-' :: c :: r else c :: r)
      | .error e => .error e
    else .error (.invalidCharacter c)

def trimKey (key : List Char) : List Char :=
  Text.trimChars (Text.dropWhileEnds (· = '/') (Text.trimChars key))

def ofKey (key : String) : Except RouteError Route :=
  let lowered := Text.lowerChars (trimKey key.toList)
  if lowered.isEmpty || rootKeys.contains (String.ofList lowered) then .ok root
  else
    match dashed false lowered with
    | .error e => .error e
    | .ok r =>
      if (Text.splitChars '/' r).any List.isEmpty then .error (.invalidSegment "")
      else .ok ⟨String.ofList ('/' :: r)⟩

def isRoot (r : Route) : Bool := r.text = "/"

def relative (r : Route) : String := String.ofList (r.text.toList.drop 1)

def fileStem (r : Route) : String := if r.isRoot then "index" else r.relative

def capitalized : List Char → List Char
  | [] => []
  | c :: rest => c.toUpper :: rest

def words (s : List Char) : List (List Char) :=
  ((Text.splitChars '-' s).flatMap (Text.splitChars '_')).filter (· ≠ [])

def humanized (r : Route) : String :=
  if r.isRoot then "Home"
  else
    let last := ((Text.splitChars '/' r.relative.toList).getLast?).getD []
    String.ofList (Text.joinChars ' ' ((words last).map capitalized))

end Route

end SitePublish
