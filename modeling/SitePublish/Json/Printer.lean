import SitePublish.Decimal.Shortest
import SitePublish.Digest.Hex
import SitePublish.Json.Basic
import SitePublish.Word

/-!
# Writing JSON

A value has a compact form on one line and a pretty form with two blanks per level. A double is
written with the fewest digits that read back, positionally when its leading digit stands for
`10 ^ -5` to `10 ^ 15` and with a signed exponent otherwise; a double always shows a fraction or an
exponent. Doubles that are no numbers are written as null.
-/

set_option autoImplicit false

namespace SitePublish.Json

/-- The least and greatest exponent of the leading digit that is written positionally. -/
def positional : Int × Int := (-5, 15)

def digitChars (ds : List Nat) : List Char := ds.map Digest.hexDigit

def intChars (n : Int) : List Char :=
  if n < 0 then '-' :: Nat.toDigits 10 n.natAbs else Nat.toDigits 10 n.natAbs

def zeros (n : Nat) : List Char := List.replicate n '0'

def decimalChars (d : Decimal.Digits) : List Char :=
  let ds := digitChars d.digits
  let e := d.exponent
  if positional.1 ≤ e ∧ e ≤ positional.2 then
    if e < 0 then '0' :: '.' :: zeros (e.natAbs - 1) ++ ds
    else
      let whole := e.natAbs + 1
      if ds.length ≤ whole then ds ++ zeros (whole - ds.length) ++ ['.', '0']
      else ds.take whole ++ '.' :: ds.drop whole
  else
    let sign := if e < 0 then '-' else '+'
    match ds with
    | [d] => d :: 'e' :: sign :: Nat.toDigits 10 e.natAbs
    | d :: rest => d :: '.' :: rest ++ 'e' :: sign :: Nat.toDigits 10 e.natAbs
    | [] => []

def floatChars (bits : UInt64) : List Char :=
  let sign := if Decimal.isNegative bits then ['-'] else []
  match Decimal.Binary.ofBits? bits with
  | some b => sign ++ decimalChars (Decimal.shortest b)
  | none =>
    if bits.toNat % Word.signBit = 0 then sign ++ ['0', '.', '0'] else ['n', 'u', 'l', 'l']

def escapeChar (c : Char) : List Char :=
  if c = '"' then ['\\', '"']
  else if c = '\\' then ['\\', '\\']
  else if c = '\x08' then ['\\', 'b']
  else if c = '\x0c' then ['\\', 'f']
  else if c = '\n' then ['\\', 'n']
  else if c = '\r' then ['\\', 'r']
  else if c = '\t' then ['\\', 't']
  else if c.toNat < 0x20 then
    ['\\', 'u', '0', '0', Digest.hexDigit (c.toNat / 16), Digest.hexDigit (c.toNat % 16)]
  else [c]

def quoted (s : String) : List Char := '"' :: s.toList.flatMap escapeChar ++ ['"']

def scalarChars : Json → List Char
  | .null => ['n', 'u', 'l', 'l']
  | .bool true => ['t', 'r', 'u', 'e']
  | .bool false => ['f', 'a', 'l', 's', 'e']
  | .int n => intChars n
  | .float bits => floatChars bits
  | .str s => quoted s
  | .arr _ => ['[', ']']
  | .obj _ => ['\x7b', '\x7d']

mutual

def compactChars : Json → List Char
  | .arr items => '[' :: compactItems items
  | .obj members => '\x7b' :: compactMembers members
  | v => scalarChars v

def compactItems : List Json → List Char
  | [] => [']']
  | [v] => compactChars v ++ [']']
  | v :: w :: rest => compactChars v ++ ',' :: compactItems (w :: rest)

def compactMembers : List (String × Json) → List Char
  | [] => ['\x7d']
  | [(k, v)] => quoted k ++ ':' :: compactChars v ++ ['\x7d']
  | (k, v) :: m :: rest => quoted k ++ ':' :: compactChars v ++ ',' :: compactMembers (m :: rest)

end

def newline (level : Nat) : List Char := '\n' :: List.replicate (2 * level) ' '

mutual

def prettyChars (level : Nat) : Json → List Char
  | .arr [] => ['[', ']']
  | .arr (v :: rest) => '[' :: prettyItems (level + 1) (v :: rest)
  | .obj [] => ['\x7b', '\x7d']
  | .obj (m :: rest) => '\x7b' :: prettyMembers (level + 1) (m :: rest)
  | v => scalarChars v

def prettyItems (level : Nat) : List Json → List Char
  | [] => newline (level - 1) ++ [']']
  | [v] => newline level ++ prettyChars level v ++ newline (level - 1) ++ [']']
  | v :: w :: rest =>
    newline level ++ prettyChars level v ++ ',' :: prettyItems level (w :: rest)

def prettyMembers (level : Nat) : List (String × Json) → List Char
  | [] => newline (level - 1) ++ ['\x7d']
  | [(k, v)] =>
    newline level ++ quoted k ++ ':' :: ' ' :: prettyChars level v ++
      newline (level - 1) ++ ['\x7d']
  | (k, v) :: m :: rest =>
    newline level ++ quoted k ++ ':' :: ' ' :: prettyChars level v ++
      ',' :: prettyMembers level (m :: rest)

end

def compact (v : Json) : String := String.ofList (compactChars v)

def pretty (v : Json) : String := String.ofList (prettyChars 0 v)

end SitePublish.Json
