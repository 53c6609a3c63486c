import SitePublish.Digest.Hex

/-!
# JSON tokens

A text is cut into tokens one character at a time. The reader of tokens is in one of four states:
between tokens, inside a number, inside a word, or inside a string; a number and a word end with the
first character that cannot belong to them.

A string whose escapes hold half of a surrogate pair is a token without a text: it has the form of
a string, and whoever needs its text must refuse it.
-/

set_option autoImplicit false

namespace SitePublish.Json

structure Literal where
  negative : Bool
  whole : List Nat
  fraction : Option (List Nat)
  /-- Sign (`true` is minus) and digits. -/
  exponent : Option (Bool × List Nat)
deriving DecidableEq

inductive Word where
  | null
  | yes
  | no
deriving DecidableEq

inductive Token where
  | openObject
  | closeObject
  | openArray
  | closeArray
  | colon
  | comma
  | word (w : Word)
  | number (l : Literal)
  | string (text : Option String)
deriving DecidableEq

def isSpace (c : Char) : Bool := c = ' ' || c = '\n' || c = '\t' || c = '\r'

def digit? (c : Char) : Option Nat := if c.isDigit then some (c.toNat - 48) else none

def takeDigits : List Char → List Nat × List Char
  | [] => ([], [])
  | c :: rest =>
    match digit? c with
    | some d => let (ds, after) := takeDigits rest; (d :: ds, after)
    | none => ([], c :: rest)

/-- `none` stands for a dot without digits. -/
def takeFraction : List Char → Option (Option (List Nat) × List Char)
  | '.' :: rest =>
    match takeDigits rest with
    | ([], _) => none
    | (ds, after) => some (some ds, after)
  | s => some (none, s)

def takeSign : List Char → Bool × List Char
  | '-' :: rest => (true, rest)
  | '+' :: rest => (false, rest)
  | s => (false, s)

/-- What may follow the fraction: nothing, or an exponent up to the end. -/
def readExponent? : List Char → Option (Option (Bool × List Nat))
  | [] => some none
  | c :: rest =>
    if c = 'e' || c = 'E' then
      let (minus, rest) := takeSign rest
      match takeDigits rest with
      | (d :: ds, []) => some (some (minus, d :: ds))
      | _ => none
    else none

/-- A number that spans the whole text; only a single zero may start with a zero. -/
def Literal.ofChars? (s : List Char) : Option Literal := do
  let (negative, s) := match s with
    | '-' :: rest => (true, rest)
    | s => (false, s)
  let (whole, s) := takeDigits s
  guard (whole ≠ [] ∧ (whole.head? = some 0 → whole = [0]))
  let (fraction, s) ← takeFraction s
  let exponent ← readExponent? s
  return ⟨negative, whole, fraction, exponent⟩

def Word.ofChars? (s : List Char) : Option Word :=
  if s = ['n', 'u', 'l', 'l'] then some .null
  else if s = ['t', 'r', 'u', 'e'] then some .yes
  else if s = ['f', 'a', 'l', 's', 'e'] then some .no
  else none

/-- Half of a surrogate pair, or a code point. -/
inductive Unit16 where
  | point (c : Char)
  | high (n : Nat)
  | low (n : Nat)
deriving DecidableEq

/-- The characters of a string before decoding: plain ones, and the values of `\u` escapes. -/
def Unit16.ofNat (n : Nat) : Unit16 :=
  if 0xD800 ≤ n ∧ n < 0xDC00 then .high n
  else if 0xDC00 ≤ n ∧ n < 0xE000 then .low n
  else .point (Char.ofNat n)

def decodeUnits : List Unit16 → Option (List Char)
  | [] => some []
  | .point c :: rest => (decodeUnits rest).map (c :: ·)
  | .high h :: .low l :: rest =>
    (decodeUnits rest).map (Char.ofNat (0x10000 + (h - 0xD800) * 0x400 + (l - 0xDC00)) :: ·)
  | .high _ :: _ => none
  | .low _ :: _ => none

inductive Escape where
  | none
  | started
  | hex (digits : Nat) (value : Nat)
deriving DecidableEq

inductive LexState where
  | between
  | number (reversed : List Char)
  | word (reversed : List Char)
  | string (reversed : List Unit16) (escape : Escape)
deriving DecidableEq

def isNumberChar (c : Char) : Bool :=
  c.isDigit || c = '-' || c = '+' || c = '.' || c = 'e' || c = 'E'

def isWordChar (c : Char) : Bool := c.isAlpha

def punctuation? (c : Char) : Option Token :=
  if c = '\x7b' then some .openObject
  else if c = '\x7d' then some .closeObject
  else if c = '[' then some .openArray
  else if c = ']' then some .closeArray
  else if c = ':' then some .colon
  else if c = ',' then some .comma
  else none

def lexBetween (c : Char) : Option (LexState × List Token) :=
  if isSpace c then some (.between, [])
  else if c = '"' then some (.string [] .none, [])
  else if c.isDigit || c = '-' then some (.number [c], [])
  else if isWordChar c then some (.word [c], [])
  else (punctuation? c).map fun t => (.between, [t])

def simpleEscape? (c : Char) : Option Char :=
  if c = '"' then some '"'
  else if c = '\\' then some '\\'
  else if c = '/' then some '/'
  else if c = 'b' then some '\x08'
  else if c = 'f' then some '\x0c'
  else if c = 'n' then some '\n'
  else if c = 'r' then some '\r'
  else if c = 't' then some '\t'
  else none

/-- Reads a character inside a string; the closing quote yields the token. -/
def lexString (reversed : List Unit16) (escape : Escape) (c : Char) :
    Option (LexState × List Token) :=
  match escape with
  | .none =>
    if c = '"' then
      some (.between, [.string ((decodeUnits reversed.reverse).map String.ofList)])
    else if c = '\\' then some (.string reversed .started, [])
    else if c.toNat < 0x20 then none
    else some (.string (.point c :: reversed) .none, [])
  | .started =>
    if c = 'u' then some (.string reversed (.hex 4 0), [])
    else (simpleEscape? c).map fun d => (.string (.point d :: reversed) .none, [])
  | .hex digits value =>
    (Digest.hexValue? c).map fun v =>
      if digits ≤ 1 then (.string (Unit16.ofNat (16 * value + v) :: reversed) .none, [])
      else (.string reversed (.hex (digits - 1) (16 * value + v)), [])

def closeNumber (reversed : List Char) : Option Token :=
  (Literal.ofChars? reversed.reverse).map .number

def closeWord (reversed : List Char) : Option Token :=
  (Word.ofChars? reversed.reverse).map .word

def lexStep (state : LexState) (c : Char) : Option (LexState × List Token) :=
  match state with
  | .between => lexBetween c
  | .number r =>
    if isNumberChar c then some (.number (c :: r), [])
    else do
      let t ← closeNumber r
      let (state, ts) ← lexBetween c
      return (state, t :: ts)
  | .word r =>
    if isWordChar c then some (.word (c :: r), [])
    else do
      let t ← closeWord r
      let (state, ts) ← lexBetween c
      return (state, t :: ts)
  | .string r escape => lexString r escape c

def lexEnd : LexState → Option (List Token)
  | .between => some []
  | .number r => (closeNumber r).map ([·])
  | .word r => (closeWord r).map ([·])
  | .string _ _ => none

def lexFrom (state : LexState) (reversed : List Token) : List Char → Option (List Token)
  | [] => (lexEnd state).map fun ts => reversed.reverse ++ ts
  | c :: rest =>
    match lexStep state c with
    | some (next, ts) => lexFrom next (ts.reverse ++ reversed) rest
    | none => none

def tokens? (s : List Char) : Option (List Token) := lexFrom .between [] s

end SitePublish.Json
