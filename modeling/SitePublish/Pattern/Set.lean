import SitePublish.Pattern.Ignore

/-!
# Pattern sets

User-given patterns with the meaning of ignore rules relative to the project root. A set holds at
most a thousand patterns; blank patterns and comments do not count.
-/

set_option autoImplicit false

namespace SitePublish

inductive PatternError where
  | tooMany (count limit : Nat)
  | invalid (pattern written : String) (cause : GlobError)
deriving DecidableEq

def PatternError.message : PatternError → String
  | .tooMany count limit =>
    toString count ++ " patterns exceed the limit of " ++ toString limit
  | .invalid pattern written cause =>
    "invalid pattern '" ++ pattern ++ "': error parsing glob '" ++ written ++ "': " ++ cause.message

structure PatternSet where
  /-- The patterns that count, trimmed. -/
  patterns : List String
  rules : IgnoreRules

namespace PatternSet

def limit : Nat := 1000

def empty : PatternSet := ⟨[], []⟩

/-- A pattern without blanks around it, unless nothing or a comment is left. -/
def kept? (pattern : String) : Option (List Char) :=
  match Text.trimChars pattern.toList with
  | [] => none
  | '#' :: _ => none
  | s => some s

def rulesFrom (count : Nat) : List (List Char) → Except PatternError IgnoreRules
  | [] => .ok []
  | p :: rest =>
    if limit < count + 1 then .error (.tooMany (count + 1) limit)
    else
      match IgnoreRule.ofLine? p with
      | .error e =>
        .error (.invalid (String.ofList p) (String.ofList (IgnoreRule.trimLine p)) e)
      | .ok rule =>
        match rulesFrom (count + 1) rest with
        | .error e => .error e
        | .ok rules => .ok (rule.toList ++ rules)

def ofPatterns (patterns : List String) : Except PatternError PatternSet :=
  let kept := patterns.filterMap kept?
  match rulesFrom 0 kept with
  | .error e => .error e
  | .ok rules => .ok ⟨kept.map String.ofList, rules⟩

/-- The pattern that matches a path or one of its parent directories, unless a negated pattern takes
the path out. -/
def matching (s : PatternSet) (path : String) : Option String :=
  match s.rules.decide path.toList with
  | some r => if r.negated then none else some r.written
  | none => none

def isMatch (s : PatternSet) (path : String) : Bool := (s.matching path).isSome

end PatternSet

end SitePublish
