import SitePublish.Json.Basic
import SitePublish.Text.Blank
import SitePublish.Text.Split

/-!
# Fields of a design

A field has a dotted key, a kind that says which values it takes, and a default.
-/

set_option autoImplicit false

namespace SitePublish

inductive FieldKind where
  | text
  | color
  | image
  | gradient
  | items
  | testimonials
deriving DecidableEq

namespace FieldKind

def all : List FieldKind := [.text, .color, .image, .gradient, .items, .testimonials]

def name : FieldKind → String
  | .text => "text"
  | .color => "color"
  | .image => "image"
  | .gradient => "gradient"
  | .items => "items"
  | .testimonials => "testimonials"

def ofName? (s : String) : Option FieldKind := all.find? fun k => k.name = s

def expectation : FieldKind → String
  | .text => "a string"
  | .color => "a color string (#rgb, #rgba, #rrggbb, #rrggbbaa or CSS color)"
  | .image => "an image path/URL or an object with a string `src`"
  | .gradient => "a CSS gradient string or an object with string `from` and `to`"
  | .items => "an array of objects with a string `title`"
  | .testimonials => "an array of objects with string `quote` and `author`"

def isHexDigit (c : Char) : Bool :=
  c.isDigit || ('a' ≤ c && c ≤ 'f') || ('A' ≤ c && c ≤ 'F')

/-- Hex digits behind a hash sign, or any other text that is not blank. -/
def isColor (s : String) : Bool :=
  match Text.trimChars s.toList with
  | [] => false
  | '#' :: digits => [3, 4, 6, 8].contains digits.length && digits.all isHexDigit
  | _ => true

def hasStrings (keys : List String) (v : Json) : Bool :=
  v.members?.isSome && keys.all fun k => ((v.member? k).map Json.isStr).getD false

def isListOf (keys : List String) : Json → Bool
  | .arr values => values.all (hasStrings keys)
  | _ => false

def accepts : FieldKind → Json → Bool
  | .text, v => v.isStr
  | .color, .str s => isColor s
  | .color, _ => false
  | .image, .str _ => true
  | .image, v => hasStrings ["src"] v
  | .gradient, .str s => Text.contains "gradient(" s
  | .gradient, v => hasStrings ["from", "to"] v
  | .items, v => isListOf ["title"] v
  | .testimonials, v => isListOf ["quote", "author"] v

end FieldKind

structure Field where
  key : String
  kind : FieldKind
  default : Json
deriving DecidableEq

def Field.hasValidKey (f : Field) : Bool := !(Text.splitChars '.' f.key.toList).contains []

end SitePublish
