/-!
# Splitting, joining and searching text

Text is taken apart as a list of characters. `splitOn` and `joinWith` are inverse to each other on
pieces that do not hold the separator; `lines` follows the convention that a line feed ends a line
and a carriage return right before it belongs to the ending.
-/

set_option autoImplicit false

namespace SitePublish.Text

def splitChars (sep : Char) : List Char → List (List Char)
  | [] => [[]]
  | c :: rest =>
    if c = sep then [] :: splitChars sep rest
    else match splitChars sep rest with
      | [] => [[c]]
      | piece :: pieces => (c :: piece) :: pieces

def joinChars (sep : Char) : List (List Char) → List Char
  | [] => []
  | [piece] => piece
  | piece :: pieces => piece ++ sep :: joinChars sep pieces

def splitOn (sep : Char) (s : String) : List String :=
  (splitChars sep s.toList).map String.ofList

def joinWith (sep : Char) (pieces : List String) : String :=
  String.ofList (joinChars sep (pieces.map String.toList))

theorem splitChars_ne_nil (sep : Char) (s : List Char) : splitChars sep s ≠ [] := by
  cases s with
  | nil => simp [splitChars]
  | cons c s =>
    simp only [splitChars]
    split
    · simp
    · split <;> simp

theorem joinChars_splitChars (sep : Char) (s : List Char) :
    joinChars sep (splitChars sep s) = s := by
  induction s with
  | nil => rfl
  | cons c s ih =>
    simp only [splitChars]
    split
    · next h =>
      cases hs : splitChars sep s with
      | nil => exact absurd hs (splitChars_ne_nil sep s)
      | cons p ps => rw [hs] at ih; simp [joinChars, ih, h]
    · cases hs : splitChars sep s with
      | nil => exact absurd hs (splitChars_ne_nil sep s)
      | cons p ps =>
        rw [hs] at ih
        cases ps with
        | nil => simpa [joinChars] using ih
        | cons q qs => simpa [joinChars] using ih

def cutFirst (sep : Char) : List Char → Option (List Char × List Char)
  | [] => none
  | c :: rest =>
    if c = sep then some ([], rest)
    else (cutFirst sep rest).map fun (before, after) => (c :: before, after)

def cutLast (sep : Char) (s : List Char) : Option (List Char × List Char) :=
  (cutFirst sep s.reverse).map fun (after, before) => (before.reverse, after.reverse)

def stripPrefix (start s : List Char) : Option (List Char) :=
  if start.isPrefixOf s then some (s.drop start.length) else none

def occursIn (needle : List Char) : List Char → Bool
  | [] => needle.isEmpty
  | c :: rest => needle.isPrefixOf (c :: rest) || occursIn needle rest

def contains (needle s : String) : Bool := occursIn needle.toList s.toList

def startsWith (start s : String) : Bool := start.toList.isPrefixOf s.toList

def withoutReturn (line : List Char) : List Char :=
  if line.getLast? = some '\r' then line.dropLast else line

/-- All pieces but the last are ended by a line feed; the last is a line if it is not empty. -/
def endedLines : List (List Char) → List (List Char)
  | [] => []
  | [last] => if last.isEmpty then [] else [last]
  | line :: rest => withoutReturn line :: endedLines rest

def linesOf (s : List Char) : List (List Char) := endedLines (splitChars '\n' s)

def lines (s : String) : List String := (linesOf s.toList).map String.ofList

end SitePublish.Text
