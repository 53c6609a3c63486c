import SitePublish.Text.Bytes

/-!
# Globs

A glob is a list of tokens over bytes. Matching computes, token by token, what can be left of the
text behind the part matched so far; a text matches when nothing is left in one of the ways. A star
and a question mark stop at slashes, a double star between slashes spans any number of directories.

A bracket that is never closed stands for itself, and so does every later one.
-/

set_option autoImplicit false

namespace SitePublish

inductive GlobError where
  | unclosedAlternates
  | unopenedAlternates
  | invalidRange (low high : Char)
  | danglingEscape
deriving DecidableEq

def GlobError.message : GlobError → String
  | .unclosedAlternates =>
    "unclosed alternate group; missing '\x7d' (maybe escape '\x7b' with '[\x7b]'?)"
  | .unopenedAlternates =>
    "unopened alternate group; missing '\x7b' (maybe escape '\x7d' with '[\x7d]'?)"
  | .invalidRange low high =>
    "invalid range; '" ++ String.singleton low ++ "' > '" ++ String.singleton high ++ "'"
  | .danglingEscape => "dangling '\\'"

namespace Glob

inductive Token where
  | byte (b : UInt8)
  /-- One byte other than a slash. -/
  | anyByte
  /-- Any bytes other than slashes. -/
  | star
  /-- A double star in front: nothing, a slash, or anything up to a slash. -/
  | leadingDirs
  /-- A double star at the end: a slash and anything. -/
  | inside
  /-- A double star between slashes. -/
  | innerDirs
  | oneOf (negated : Bool) (ranges : List (UInt8 × UInt8))
  | alternates (branches : List (List Token))

def slash : UInt8 := 47

def suffixes : List UInt8 → List (List UInt8)
  | [] => [[]]
  | b :: rest => (b :: rest) :: suffixes rest

def withinSegment : List UInt8 → List (List UInt8)
  | [] => [[]]
  | b :: rest => if b = slash then [b :: rest] else (b :: rest) :: withinSegment rest

def afterSlashes : List UInt8 → List (List UInt8)
  | [] => []
  | b :: rest => if b = slash then rest :: afterSlashes rest else afterSlashes rest

mutual

/-- Whether a token demands nothing at all: alternates none of which has a demand. -/
def Token.isVoid : Token → Bool
  | .alternates branches => areVoid branches
  | _ => false

def isVoid : List Token → Bool
  | [] => true
  | t :: rest => t.isVoid && isVoid rest

def areVoid : List (List Token) → Bool
  | [] => true
  | b :: rest => isVoid b && areVoid rest

end

def inRange (b : UInt8) (r : UInt8 × UInt8) : Bool := r.1 ≤ b && b ≤ r.2

def plainRemainders : Token → List UInt8 → List (List UInt8)
  | .byte b, c :: rest => if b = c then [rest] else []
  | .anyByte, c :: rest => if c = slash then [] else [rest]
  | .star, s => withinSegment s
  | .leadingDirs, s =>
    s :: (match s with
      | c :: rest => if c = slash then [rest] else []
      | [] => []) ++ afterSlashes s
  | .inside, c :: rest => if c = slash then suffixes rest else []
  | .innerDirs, c :: rest => if c = slash then rest :: afterSlashes rest else []
  | .oneOf negated ranges, c :: rest => if ranges.any (inRange c) = negated then [] else [rest]
  | _, _ => []

mutual

def remainders : Token → List UInt8 → List (List UInt8)
  | .alternates branches, s => if areVoid branches then [s] else branchRemainders branches s
  | t, s => plainRemainders t s

/-- Branches that demand nothing are left out. -/
def branchRemainders : List (List Token) → List UInt8 → List (List UInt8)
  | [], _ => []
  | b :: rest, s =>
    if isVoid b then branchRemainders rest s
    else listRemainders b [s] ++ branchRemainders rest s

def listRemainders : List Token → List (List UInt8) → List (List UInt8)
  | [], texts => texts
  | t :: rest, texts => listRemainders rest (texts.flatMap (remainders t)).eraseDups

end

/-- A lone double star matches everything. -/
def isMatch (glob : List Token) (s : List UInt8) : Bool :=
  match glob with
  | [.leadingDirs] => true
  | _ => (listRemainders glob [s]).contains []

def charBytes (c : Char) : List UInt8 := Text.utf8 (String.singleton c)

def literal (c : Char) : List Token := (charBytes c).map .byte

/-- The bytes that a range of characters stands for: its end points byte by byte, with a range only
between the last byte of the first and the first byte of the second. -/
def rangeBytes (r : Char × Char) : List (UInt8 × UInt8) :=
  let low := charBytes r.1
  let high := charBytes r.2
  if r.1 = r.2 then low.map fun b => (b, b)
  else
    (low.dropLast.map fun b => (b, b)) ++ [(low.getLast?.getD 0, high.head?.getD 0)] ++
      (high.drop 1).map fun b => (b, b)

structure ClassState where
  ranges : List (Char × Char)
  isFirst : Bool
  inRange : Bool

def extendRange (ranges : List (Char × Char)) (c : Char) :
    Except GlobError (List (Char × Char)) :=
  match ranges with
  | (low, _) :: rest =>
    if c < low then .error (.invalidRange low c) else .ok ((low, c) :: rest)
  | [] => .ok [(c, c)]

def readClass (st : ClassState) :
    List Char → Except GlobError (Option (List (Char × Char) × List Char))
  | [] => .ok none
  | c :: rest =>
    if c = ']' && !st.isFirst then
      .ok (some ((if st.inRange then ('-', '-') :: st.ranges else st.ranges).reverse, rest))
    else if c = '-' && !st.isFirst && !st.inRange then
      readClass ⟨st.ranges, false, true⟩ rest
    else if st.inRange then
      match extendRange st.ranges c with
      | .ok ranges => readClass ⟨ranges, false, false⟩ rest
      | .error e => .error e
    else readClass ⟨(c, c) :: st.ranges, false, false⟩ rest

structure Group where
  branches : List (List Token)
  before : List Token

structure ParseState where
  groups : List Group
  /-- The current branch in reverse. -/
  tokens : List Token
  /-- The character read last. -/
  last : Option Char
  /-- A bracket without an end has been met. -/
  unclosed : Bool

def ParseState.push (st : ParseState) (ts : List Token) : ParseState :=
  { st with tokens := ts.reverse ++ st.tokens }

/-- Where a second star ends up, given what follows it. -/
inductive StarPlace where
  | doubleStar
  | atEnd
  | beforeSlash

def starPlace (inGroup : Bool) : List Char → StarPlace
  | [] => .atEnd
  | c :: _ =>
    if (c = ',' || c = '\x7d') && inGroup then .atEnd
    else if c = '/' then .beforeSlash
    else .doubleStar

/-- A double star takes the place of the slash in front of it; two of them in a row are one. -/
def spanDirs (isSuffix : Bool) : List Token → List Token
  | .leadingDirs :: rest => .leadingDirs :: rest
  | .inside :: rest => .inside :: rest
  | _ :: rest => (if isSuffix then Token.inside else .innerDirs) :: rest
  | [] => [if isSuffix then Token.inside else .innerDirs]

/-- Reads what follows two stars; `prev` stands in front of them. -/
def readDoubleStar (st : ParseState) (prev : Option Char) (rest : List Char) :
    ParseState × List Char :=
  let plain := (st.push [.star, .star], rest)
  if st.tokens.isEmpty then
    match rest with
    | [] => (st.push [.leadingDirs], [])
    | c :: after =>
      if c = '/' then ({ st.push [.leadingDirs] with last := some '/' }, after) else plain
  else if prev ≠ some '/' &&
      (st.groups.isEmpty || (prev ≠ some ',' && prev ≠ some '\x7b')) then plain
  else
    match starPlace (!st.groups.isEmpty) rest with
    | .doubleStar => plain
    | .atEnd => ({ st with tokens := spanDirs true st.tokens }, rest)
    | .beforeSlash =>
      ({ st with tokens := spanDirs false st.tokens, last := some '/' }, rest.drop 1)

def readStar (st : ParseState) (rest : List Char) : ParseState × List Char :=
  match rest with
  | '*' :: rest => readDoubleStar { st with last := some '*' } st.last rest
  | _ => ({ st.push [.star] with last := some '*' }, rest)

def closeGroup (st : ParseState) : Except GlobError ParseState :=
  match st.groups with
  | [] => .error .unopenedAlternates
  | g :: groups =>
    .ok ⟨groups, .alternates (st.tokens.reverse :: g.branches).reverse :: g.before, some '\x7d',
      st.unclosed⟩

def startsNegation : List Char → Bool × List Char
  | c :: rest => if c = '!' || c = '^' then (true, rest) else (false, c :: rest)
  | [] => (false, [])

def readBracket (st : ParseState) (rest : List Char) : Except GlobError (ParseState × List Char) :=
  let (negated, inside) := startsNegation rest
  match readClass ⟨[], true, false⟩ inside with
  | .error e => .error e
  | .ok (some (ranges, after)) =>
    .ok ({ st.push [.oneOf negated (ranges.flatMap rangeBytes)] with last := some ']' }, after)
  | .ok none => .ok ({ st.push (literal '[') with last := some '[', unclosed := true }, rest)

def readStep (st : ParseState) (c : Char) (rest : List Char) :
    Except GlobError (ParseState × List Char) :=
  let st' := { st with last := some c }
  if c = '?' then .ok (st'.push [.anyByte], rest)
  else if c = '*' then .ok (readStar st rest)
  else if c = '[' && !st.unclosed then readBracket st' rest
  else if c = '\x7b' then
    .ok ({ st' with groups := ⟨[], st.tokens⟩ :: st.groups, tokens := [] }, rest)
  else if c = '\x7d' then (closeGroup st').map fun st => (st, rest)
  else if c = ',' then
    match st.groups with
    | [] => .ok (st'.push (literal ','), rest)
    | g :: groups =>
      .ok ({ st' with
        groups := { g with branches := st.tokens.reverse :: g.branches } :: groups
        tokens := [] }, rest)
  else if c = '\\' then
    match rest with
    | [] => .error .danglingEscape
    | d :: rest => .ok ({ st'.push (literal d) with last := some d }, rest)
  else .ok (st'.push (literal c), rest)

/-- Every step reads at least one character, so a fuel of the length suffices. -/
def readFrom : Nat → ParseState → List Char → Except GlobError ParseState
  | _, st, [] => .ok st
  | 0, st, _ => .ok st
  | fuel + 1, st, c :: rest =>
    match readStep st c rest with
    | .ok (st, rest) => readFrom fuel st rest
    | .error e => .error e

def parse (s : List Char) : Except GlobError (List Token) :=
  match readFrom s.length ⟨[], [], none, false⟩ s with
  | .error e => .error e
  | .ok st => if st.groups.isEmpty then .ok st.tokens.reverse else .error .unclosedAlternates

end Glob

end SitePublish
