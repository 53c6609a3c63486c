import SitePublish.FileTree.Basic
import SitePublish.Pattern.Ignore

/-!
# Project listings

The files of an editor project as candidates. Directories of tools are left out, and so is what the
ignore files of a directory or of one above it name: the nearest file with a verdict decides, and a
verdict of an `.ignore` file goes before those of all `.gitignore` files. An ignored directory is
not entered.
-/

set_option autoImplicit false

namespace SitePublish

inductive ProjectError where
  | rootNotFound (root : String)
  | read (path : String) (cause : FileError)
  | walk (message : String)
deriving DecidableEq

def ProjectError.message : ProjectError → String
  | .rootNotFound root => "project root not found: " ++ root
  | .read path cause => "failed to read " ++ path ++ ": " ++ cause.message
  | .walk message => "failed to walk project: " ++ message

namespace Project

def toolDirs : List String := [".git", "node_modules", ".next", ".vercel"]

def byteOrderMark : Char := '\ufeff'

def ruleLines (bytes : List UInt8) : List (List Char) :=
  (((Text.byteLines bytes).map Text.ofUtf8?).takeWhile Option.isSome).filterMap
    (Option.map String.toList)

/-- The rules of a rule file. A byte order mark in front does not count, nor do lines that hold no
glob. -/
def rulesOf (bytes : List UInt8) : IgnoreRules :=
  let lines := match ruleLines bytes with
    | first :: rest => first.dropWhile (· = byteOrderMark) :: rest
    | [] => []
  lines.filterMap fun line =>
    match IgnoreRule.ofLine? line with
    | .ok rule => rule
    | .error _ => none

structure DirRules where
  key : List String
  ignore : IgnoreRules
  gitignore : IgnoreRules

def rulesIn (t : FileTree) (key : List String) (name : String) : IgnoreRules :=
  match t.entries.get? (key ++ [name]) with
  | some (.file bytes) => rulesOf bytes
  | _ => []

def DirRules.ofTree (t : FileTree) (key : List String) : DirRules :=
  ⟨key, rulesIn t key ".ignore", rulesIn t key ".gitignore"⟩

def verdict (rules : DirRules → IgnoreRules) (chain : List DirRules) (key : List String)
    (isDir : Bool) : Option IgnoreRule :=
  chain.findSome? fun d =>
    let path := Text.joinWith '/' (key.drop d.key.length)
    (rules d).lastMatch path.toList isDir

/-- Whether ignore files leave an entry out; `chain` holds the directories above it, the nearest
first. -/
def isIgnored (chain : List DirRules) (key : List String) (isDir : Bool) : Bool :=
  match (verdict DirRules.ignore chain key isDir).or
      (verdict DirRules.gitignore chain key isDir) with
  | some r => !r.negated
  | none => false

/-- The files below a directory that are not left out, with their keys; `depth` bounds the
nesting. -/
def walk (t : FileTree) (depth : Nat) (chain : List DirRules) (dir : List String) :
    List (List String × List UInt8) :=
  match depth with
  | 0 => []
  | depth + 1 =>
    (t.children dir).flatMap fun e =>
      let key := dir ++ [e.1]
      match e.2 with
      | .file bytes => if isIgnored chain key false then [] else [(key, bytes)]
      | .dir =>
        if isIgnored chain key true || toolDirs.contains e.1 then []
        else walk t depth (.ofTree t key :: chain) key

/-- The directories from the working directory down to `dir`, the nearest first. -/
def chainOf (t : FileTree) (dir : List String) : List DirRules :=
  (List.range (dir.length + 1)).reverse.map fun n => .ofTree t (dir.take n)

def treeDepth (t : FileTree) : Nat := t.entries.foldl (fun d e => max d e.1.length) 0

def filesBelow (t : FileTree) (dir : List String) : List (String × List UInt8) :=
  (walk t (treeDepth t + 1) (chainOf t dir) dir).map fun f =>
    (Text.joinWith '/' (f.1.drop dir.length), f.2)

/-- The candidate for a file, unless its relative path names no site path. -/
def candidate? (file : String × List UInt8) : Option Candidate :=
  match SitePath.ofText file.1 with
  | .ok p => some (.ofProject p file.2)
  | .error _ => none

def candidates (files : List (String × List UInt8)) : List Candidate :=
  (files.filterMap candidate?).mergeSort fun a b => !(b.path.text < a.path.text)

def listFiles (t : FileTree) (root : String) : Except ProjectError (List Candidate) :=
  match t.place root with
  | .ok (.dir key) => .ok (candidates (filesBelow t key))
  | _ => .error (.rootNotFound root)

end Project

end SitePublish
