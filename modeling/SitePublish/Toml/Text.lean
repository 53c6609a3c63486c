import SitePublish.Digest.Hex
import SitePublish.Toml.Blank

/-!
# Strings and keys of TOML

Basic strings with escapes and literal strings without, on one line or on several. A string on
several lines loses a line end right behind its opening quotes; a backslash at the end of a line
joins it with what follows, without the blanks between; and one or two quotes in front of the
closing ones belong to the string.
-/

set_option autoImplicit false

namespace SitePublish.Toml

def charOfHex? (digits : List Char) : Option Char := do
  let values ← digits.mapM Digest.hexValue?
  let n := values.foldl (fun n d => 16 * n + d) 0
  if n.isValidChar then return Char.ofNat n else none

def escaped? : Char → Option Char
  | 'b' => some '\x08'
  | 'f' => some '\x0c'
  | 'n' => some '\n'
  | 'r' => some '\r'
  | 't' => some '\t'
  | '"' => some '"'
  | '\\' => some '\\'
  | _ => none

def push (c : Option Char) (tail : Option (List Char × List Char)) :
    Option (List Char × List Char) :=
  match c, tail with
  | some c, some (s, rest) => some (c :: s, rest)
  | _, _ => none

def basicBody : List Char → Option (List Char × List Char)
  | [] => none
  | '"' :: rest => some ([], rest)
  | '\\' :: 'u' :: a :: b :: c :: d :: rest => push (charOfHex? [a, b, c, d]) (basicBody rest)
  | '\\' :: 'U' :: a :: b :: c :: d :: e :: f :: g :: h :: rest =>
    push (charOfHex? [a, b, c, d, e, f, g, h]) (basicBody rest)
  | '\\' :: c :: rest => push (escaped? c) (basicBody rest)
  | c :: rest => if isText c then push (some c) (basicBody rest) else none

def endsLine (s : List Char) : Bool := (newline? (skipSpace s)).isSome

/-- The rest of a basic string on several lines; `joining` skips blanks and line ends. -/
def longBasicBody (joining : Bool) : List Char → Option (List Char × List Char)
  | [] => none
  | '"' :: '"' :: '"' :: '"' :: '"' :: rest => some (['"', '"'], rest)
  | '"' :: '"' :: '"' :: '"' :: rest => some (['"'], rest)
  | '"' :: '"' :: '"' :: rest => some ([], rest)
  | '\n' :: rest =>
    if joining then longBasicBody true rest else push (some '\n') (longBasicBody false rest)
  | '\r' :: '\n' :: rest =>
    if joining then longBasicBody true rest else push (some '\n') (longBasicBody false rest)
  | '\\' :: 'u' :: a :: b :: c :: d :: rest =>
    push (charOfHex? [a, b, c, d]) (longBasicBody false rest)
  | '\\' :: 'U' :: a :: b :: c :: d :: e :: f :: g :: h :: rest =>
    push (charOfHex? [a, b, c, d, e, f, g, h]) (longBasicBody false rest)
  | '\\' :: c :: rest =>
    if endsLine (c :: rest) then longBasicBody true (c :: rest)
    else push (escaped? c) (longBasicBody false rest)
  | c :: rest =>
    if joining && isSpace c then longBasicBody true rest
    else if isText c then push (some c) (longBasicBody false rest)
    else none

def literalBody : List Char → Option (List Char × List Char)
  | [] => none
  | '\'' :: rest => some ([], rest)
  | c :: rest => if isText c then push (some c) (literalBody rest) else none

def longLiteralBody : List Char → Option (List Char × List Char)
  | [] => none
  | '\'' :: '\'' :: '\'' :: '\'' :: '\'' :: rest => some (['\'', '\''], rest)
  | '\'' :: '\'' :: '\'' :: '\'' :: rest => some (['\''], rest)
  | '\'' :: '\'' :: '\'' :: rest => some ([], rest)
  | '\n' :: rest => push (some '\n') (longLiteralBody rest)
  | '\r' :: '\n' :: rest => push (some '\n') (longLiteralBody rest)
  | c :: rest => if isText c then push (some c) (longLiteralBody rest) else none

def dropNewline (s : List Char) : List Char := (newline? s).getD s

def toText (read : Option (List Char × List Char)) : Option (String × List Char) :=
  read.map fun (s, rest) => (String.ofList s, rest)

def string? : List Char → Option (String × List Char)
  | '"' :: '"' :: '"' :: rest => toText (longBasicBody false (dropNewline rest))
  | '"' :: rest => toText (basicBody rest)
  | '\'' :: '\'' :: '\'' :: rest => toText (longLiteralBody (dropNewline rest))
  | '\'' :: rest => toText (literalBody rest)
  | _ => none

def isBareKeyChar (c : Char) : Bool := c.isAlphanum || c = '-' || c = '_'

def simpleKey? : List Char → Option (String × List Char)
  | '"' :: rest => toText (basicBody rest)
  | '\'' :: rest => toText (literalBody rest)
  | s =>
    match s.takeWhile isBareKeyChar with
    | [] => none
    | key => some (String.ofList key, s.dropWhile isBareKeyChar)

/-- How many segments a key may have and how deep values may be nested, both less one. -/
def nestingLimit : Nat := 79

/-- Simple keys between dots, with blanks around them; at most `room` of them. -/
def segments? : Nat → List Char → Option (List String × List Char)
  | 0, _ => none
  | room + 1, s =>
    match simpleKey? (skipSpace s) with
    | none => none
    | some (key, rest) =>
      match skipSpace rest with
      | '.' :: rest => (segments? room rest).map fun (keys, rest) => (key :: keys, rest)
      | rest => some ([key], rest)

def key? (s : List Char) : Option (List String × List Char) := segments? nestingLimit s

end SitePublish.Toml
