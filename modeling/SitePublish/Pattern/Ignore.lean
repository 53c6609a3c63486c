import SitePublish.Pattern.Glob
import SitePublish.Text.Blank
import SitePublish.Text.Split

/-!
# Ignore rules

A list of rules as in an ignore file. A rule without a slash applies at any depth, one with a slash
from the top; one that ends with a slash applies to directories only, and an exclamation mark takes
paths out again. The last rule that matches decides. When no rule matches a path itself, its parent
directories are asked, the nearest first.
-/

set_option autoImplicit false

namespace SitePublish

structure IgnoreRule where
  /-- The rule as it was written. -/
  written : String
  negated : Bool
  onlyDir : Bool
  glob : List Glob.Token

namespace IgnoreRule

structure Draft where
  written : List Char
  negated : Bool
  anchored : Bool
  onlyDir : Bool
  body : List Char

/-- Blanks at the end are dropped, unless the last one is escaped. -/
def trimLine (line : List Char) : List Char :=
  if ['\\', ' '].isSuffixOf line then line else Text.dropWhileEnd Text.isBlank line

def stripMarks (line : List Char) : Bool × Bool × List Char :=
  match line with
  | '\\' :: '!' :: rest => (false, false, '!' :: rest)
  | '\\' :: '#' :: rest => (false, false, '#' :: rest)
  | '!' :: '/' :: rest => (true, true, rest)
  | '!' :: rest => (true, false, rest)
  | '/' :: rest => (false, true, rest)
  | rest => (false, false, rest)

def stripDirMark (body : List Char) : Bool × List Char :=
  match body.reverse with
  | '/' :: '\\' :: rest => (true, rest.reverse)
  | '/' :: rest => (true, rest.reverse)
  | _ => (false, body)

def draft (line : List Char) : Draft :=
  let (negated, anchored, body) := stripMarks line
  let (onlyDir, body) := stripDirMark body
  ⟨line, negated, anchored, onlyDir, body⟩

def startsAnywhere (body : List Char) : Bool :=
  ['*', '*', '/'].isPrefixOf body || body = ['*', '*']

/-- The glob of a rule: one without a slash starts at any directory, and a double star at the end
asks for something below the directory. -/
def Draft.globText (d : Draft) : List Char :=
  let text :=
    if !d.anchored && !d.body.contains '/' && !startsAnywhere d.body then
      '*' :: '*' :: '/' :: d.body
    else d.body
  if ['/', '*', '*'].isSuffixOf text then text ++ ['/', '*'] else text

/-- The rule of a line; blank lines and comments have none. -/
def ofLine? (line : List Char) : Except GlobError (Option IgnoreRule) :=
  if line.head? = some '#' then .ok none
  else
    let line := trimLine line
    if line.isEmpty then .ok none
    else
      let d := draft line
      match Glob.parse d.globText with
      | .error e => .error e
      | .ok glob => .ok (some ⟨String.ofList d.written, d.negated, d.onlyDir, glob⟩)

def applies (r : IgnoreRule) (path : List UInt8) (isDir : Bool) : Bool :=
  (isDir || !r.onlyDir) && Glob.isMatch r.glob path

end IgnoreRule

abbrev IgnoreRules := List IgnoreRule

namespace IgnoreRules

/-- The last rule that applies to this very path. -/
def lastMatch (rules : IgnoreRules) (path : List Char) (isDir : Bool) : Option IgnoreRule :=
  let bytes := Text.utf8 (String.ofList path)
  rules.reverse.find? fun r => r.applies bytes isDir

/-- Drops slashes and dot segments at the end; a lone dot in front stays. -/
def trimEndSegments (reversed : List Char) : List Char :=
  match reversed with
  | '/' :: rest => trimEndSegments rest
  | '.' :: '/' :: rest => trimEndSegments rest
  | s => s

/-- The parent directories of a path, the nearest first and the empty path last; text in reverse. -/
def parentsFrom : Nat → List Char → List (List Char)
  | 0, _ => []
  | fuel + 1, reversed =>
    match trimEndSegments reversed with
    | [] => []
    | s =>
      let parent := trimEndSegments (s.dropWhile (· ≠ '/'))
      parent.reverse :: parentsFrom fuel parent

def parents (path : List Char) : List (List Char) := parentsFrom (path.length + 1) path.reverse

def relative (path : List Char) : List Char :=
  let path := match path with
    | '.' :: '/' :: rest => rest
    | s => s
  match path with
  | '/' :: rest => rest
  | s => s

def decide (rules : IgnoreRules) (path : List Char) : Option IgnoreRule :=
  let path := relative path
  (rules.lastMatch path false).or ((parents path).findSome? fun dir => rules.lastMatch dir true)

end IgnoreRules

end SitePublish
