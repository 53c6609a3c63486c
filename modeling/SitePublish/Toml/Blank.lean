/-!
# Blanks, comments and line ends of TOML

What may stand between the parts of a TOML text. A reader takes the characters that remain and
hands back those after what it read; `none` means that the text is malformed.
-/

set_option autoImplicit false

namespace SitePublish.Toml

def isSpace (c : Char) : Bool := c = ' ' || c = '\t'

def skipSpace (s : List Char) : List Char := s.dropWhile isSpace

/-- A character that comments and strings may hold: no control character but the tab. -/
def isText (c : Char) : Bool := c = '\t' || (0x20 ≤ c.toNat && c.toNat ≤ 0x7E) || 0x80 ≤ c.toNat

def newline? : List Char → Option (List Char)
  | '\n' :: rest => some rest
  | '\r' :: '\n' :: rest => some rest
  | _ => none

def skipComment : List Char → List Char
  | '#' :: rest => rest.dropWhile isText
  | s => s

def lineEnd? (s : List Char) : Option (List Char) := if s.isEmpty then some [] else newline? s

def lineTail? (s : List Char) : Option (List Char) := lineEnd? (skipComment (skipSpace s))

def skipGaps (inComment : Bool) : List Char → List Char
  | [] => []
  | '\n' :: rest => skipGaps false rest
  | '\r' :: '\n' :: rest => skipGaps false rest
  | c :: rest =>
    if inComment then if isText c then skipGaps true rest else c :: rest
    else if isSpace c then skipGaps false rest
    else if c = '#' then skipGaps true rest
    else c :: rest

end SitePublish.Toml
