import SitePublish.Digest.Hex
import SitePublish.Text.Bytes
import SitePublish.Text.Split

/-!
# Web addresses

Absolute addresses of web services. Reading one escapes what an address may not hold, resolves dot
segments and takes a backslash for a slash; what follows a hash sign is kept, but never sent.
-/

set_option autoImplicit false

namespace SitePublish.Http

structure Url where
  scheme : String
  /-- The host, with the number of its service unless that is the usual one. -/
  authority : String
  path : String
  query : Option String
  fragment : Option String
deriving DecidableEq

namespace Url

def hexUpper (n : Nat) : Char := if n < 10 then Char.ofNat (48 + n) else Char.ofNat (55 + n)

def escapeByte (b : UInt8) : List Char := ['%', hexUpper (b.toNat / 16), hexUpper (b.toNat % 16)]

def isNeverPlain (c : Char) : Bool := c.toNat < 0x20 || 0x7F ≤ c.toNat

/-- Escapes the bytes of a character that is in a set or never plain. -/
def escapeIn (set : List Char) (c : Char) : List Char :=
  if isNeverPlain c || set.contains c then
    (Text.utf8 (String.singleton c)).flatMap escapeByte
  else [c]

def pathSet : List Char := [' ', '"', '<', '>', '`', '#', '?', '\x7b', '\x7d']

def querySet : List Char := [' ', '"', '#', '<', '>', '\'']

def fragmentSet : List Char := [' ', '"', '<', '>', '`']

def escape (set s : List Char) : List Char := s.flatMap (escapeIn set)

def isSlash (c : Char) : Bool := c = '/' || c = '\\'

def segments (s : List Char) : List (List Char) :=
  Text.splitChars '/' (s.map fun c => if isSlash c then '/' else c)

/-- A segment with its escaped dots written plainly. -/
def plainDots : List Char → List Char
  | '%' :: '2' :: e :: rest =>
    if e = 'e' || e = 'E' then '.' :: plainDots rest else '%' :: plainDots ('2' :: e :: rest)
  | c :: rest => c :: plainDots rest
  | [] => []

/-- Resolves dot segments; `done` holds the segments in front, the last one first. -/
def resolve (done : List (List Char)) : List (List Char) → List (List Char)
  | [] => done.reverse
  | s :: rest =>
    let isLast := rest.isEmpty
    if plainDots s = ['.', '.'] then
      resolve (if isLast then [] :: done.drop 1 else done.drop 1) rest
    else if plainDots s = ['.'] then resolve (if isLast then [] :: done else done) rest
    else resolve (escape pathSet s :: done) rest

def pathOf (s : List Char) : List Char :=
  match s with
  | [] => ['/']
  | _ :: rest => '/' :: Text.joinChars '/' (resolve [] (segments rest))

def cutAt (mark : Char) (s : List Char) : List Char × Option (List Char) :=
  match Text.cutFirst mark s with
  | some (before, after) => (before, some after)
  | none => (s, none)

def usualNumber (scheme : List Char) : List Char :=
  if scheme = "https".toList then "443".toList else "80".toList

def isForbiddenInHost (c : Char) : Bool :=
  c.toNat ≤ 0x20 || c.toNat = 0x7F ||
    ['#', '%', '/', ':', '<', '>', '?', '@', '[', '\\', ']', '^', '|'].contains c

/-- The number of a service behind its colon, without zeros in front; nothing for the usual one. -/
def numberText? (scheme digits : List Char) : Option (List Char) :=
  if !digits.all Char.isDigit then none
  else
    let n := digits.foldl (fun n c => 10 * n + (c.toNat - 48)) 0
    let text := Nat.toDigits 10 n
    if 65535 < n then none
    else if digits.isEmpty || text = usualNumber scheme then some []
    else some (':' :: text)

def authorityOf? (scheme s : List Char) : Option (List Char) := do
  let (host, digits) := cutAt ':' s
  let number ← numberText? scheme (digits.getD [])
  if host.isEmpty || host.any isForbiddenInHost then none
  else return host.map Char.toLower ++ number

def schemeOf? (s : List Char) : Option (List Char × List Char) := do
  let (scheme, rest) ← Text.cutFirst ':' s
  let scheme := scheme.map Char.toLower
  if scheme = "http".toList ∨ scheme = "https".toList then return (scheme, rest) else none

/-- Blanks and control characters around an address and line ends inside it do not count. -/
def cleaned (s : List Char) : List Char :=
  let isEdge (c : Char) : Bool := c.toNat ≤ 0x20
  (((s.dropWhile isEdge).reverse.dropWhile isEdge).reverse).filter fun c =>
    c ≠ '\t' && c ≠ '\n' && c ≠ '\r'

def endsAuthority (c : Char) : Bool := isSlash c || c = '?' || c = '#'

def parse? (text : String) : Option Url := do
  let (scheme, rest) ← schemeOf? (cleaned text.toList)
  let rest := rest.dropWhile isSlash
  let authority ← authorityOf? scheme (rest.takeWhile fun c => !endsAuthority c)
  let (rest, fragment) := cutAt '#' (rest.dropWhile fun c => !endsAuthority c)
  let (path, query) := cutAt '?' rest
  return {
    scheme := String.ofList scheme
    authority := String.ofList authority
    path := String.ofList (pathOf path)
    query := query.map fun q => String.ofList (escape querySet q)
    fragment := fragment.map fun f => String.ofList (escape fragmentSet f) }

def target (u : Url) : String := u.path ++ ((u.query.map fun q => "?" ++ q).getD "")

def text (u : Url) : String :=
  u.scheme ++ "://" ++ u.authority ++ u.target ++ ((u.fragment.map fun f => "#" ++ f).getD "")

def formByte (b : UInt8) : List Char :=
  let c := Char.ofNat b.toNat
  if b = 0x20 then ['+']
  else if b < 0x80 && (c.isAlphanum || ['*', '-', '.', '_'].contains c) then [c]
  else escapeByte b

def formText (s : String) : String := String.ofList ((Text.utf8 s).flatMap formByte)

def withField (u : Url) (name value : String) : Url :=
  let before := match u.query with
    | none | some "" => ""
    | some q => q ++ "&"
  { u with query := some (before ++ formText name ++ "=" ++ formText value) }

end Url

end SitePublish.Http
