/-!
# Blank characters

The Unicode property `White_Space` as ascending ranges of code points, and what trimming does with
it. The table is closed: no later Unicode version has added a character to the property.
-/

set_option autoImplicit false

namespace SitePublish.Text

def blankRanges : List (Nat × Nat) :=
  [(0x09, 0x0D), (0x20, 0x20), (0x85, 0x85), (0xA0, 0xA0), (0x1680, 0x1680), (0x2000, 0x200A),
   (0x2028, 0x2029), (0x202F, 0x202F), (0x205F, 0x205F), (0x3000, 0x3000)]

def isBlank (c : Char) : Bool :=
  blankRanges.any fun r => r.1 ≤ c.toNat && c.toNat ≤ r.2

def dropWhileEnd {α : Type} (p : α → Bool) (l : List α) : List α :=
  (l.reverse.dropWhile p).reverse

def dropWhileEnds {α : Type} (p : α → Bool) (l : List α) : List α :=
  dropWhileEnd p (l.dropWhile p)

def trimChars (s : List Char) : List Char := dropWhileEnds isBlank s

def trim (s : String) : String := String.ofList (trimChars s.toList)

def trimEnd (s : String) : String := String.ofList (dropWhileEnd isBlank s.toList)

end SitePublish.Text
