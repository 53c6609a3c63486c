import SitePublish.Content
import SitePublish.Dict

/-!
# File trees

The files below a working directory, by the names that lead to them. Paths are read as the system
reads them: empty and dot segments stay where they are, two dots lead to the parent, and a segment
behind a file is an error. Nothing outside the working directory exists.
-/

set_option autoImplicit false

namespace SitePublish

inductive FileError where
  | notFound
  | alreadyExists
  | notADirectory
  | isADirectory
  | nameTooLong
  | notText
  | nulInName
  /-- Any other complaint of the system. -/
  | other (text : String)
deriving DecidableEq

def FileError.message : FileError → String
  | .notFound => "No such file or directory (os error 2)"
  | .alreadyExists => "File exists (os error 17)"
  | .notADirectory => "Not a directory (os error 20)"
  | .isADirectory => "Is a directory (os error 21)"
  | .nameTooLong => "File name too long (os error 36)"
  | .notText => "stream did not contain valid UTF-8"
  | .nulInName => "file name contained an unexpected NUL byte"
  | .other text => text

inductive FileEntry where
  | dir
  | file (bytes : List UInt8)
deriving DecidableEq

structure FileTree where
  /-- The absolute path of the working directory. -/
  root : String
  /-- By the segments below the working directory, which itself is not listed. -/
  entries : Dict (List String) FileEntry
deriving DecidableEq

namespace FileTree

/-- What a path leads to; a free place is a name that is not taken in an existing directory. -/
inductive Place where
  | dir (key : List String)
  | file (key : List String) (bytes : List UInt8)
  | free (key : List String)
deriving DecidableEq

def segmentLimit : Nat := 255

def pathLimit : Nat := 4095

/-- The text of a path below the working directory. -/
def belowRoot (t : FileTree) (path : String) : Except FileError (List Char) :=
  match path.toList with
  | [] => .error .notFound
  | c :: rest =>
    if (c :: rest).contains '\x00' then .error .nulInName
    else if pathLimit < path.utf8ByteSize then .error .nameTooLong
    else
      match Text.stripPrefix t.root.toList (c :: rest) with
      | some [] => .ok []
      | some ('/' :: below) => .ok below
      | _ => if c = '/' then .error .notFound else .ok (c :: rest)

def segments (t : FileTree) (path : String) : Except FileError (List String) :=
  (t.belowRoot path).map fun s => (Text.splitChars '/' s).map String.ofList

def follow (t : FileTree) (here : List String) : List String → Except FileError Place
  | [] => .ok (.dir here)
  | s :: rest =>
    if s = "" ∨ s = "." then t.follow here rest
    else if s = ".." then
      if here = [] then .error .notFound else t.follow here.dropLast rest
    else if segmentLimit < s.utf8ByteSize then .error .nameTooLong
    else
      match t.entries.get? (here ++ [s]) with
      | some .dir => t.follow (here ++ [s]) rest
      | some (.file bytes) =>
        if rest = [] then .ok (.file (here ++ [s]) bytes) else .error .notADirectory
      | none => if rest.all (· = "") then .ok (.free (here ++ [s])) else .error .notFound

def place (t : FileTree) (path : String) : Except FileError Place :=
  match t.segments path with
  | .error e => .error e
  | .ok ss => t.follow [] ss

def isDir (t : FileTree) (path : String) : Bool :=
  match t.place path with
  | .ok (.dir _) => true
  | _ => false

def isFile (t : FileTree) (path : String) : Bool :=
  match t.place path with
  | .ok (.file _ _) => true
  | _ => false

def readBytes (t : FileTree) (path : String) : Except FileError (List UInt8) :=
  match t.place path with
  | .ok (.file _ bytes) => .ok bytes
  | .ok (.dir _) => .error .isADirectory
  | .ok (.free _) => .error .notFound
  | .error e => .error e

def readText (t : FileTree) (path : String) : Except FileError String :=
  match t.readBytes path with
  | .error e => .error e
  | .ok bytes =>
    match Text.ofUtf8? bytes with
    | some s => .ok s
    | none => .error .notText

def put (t : FileTree) (key : List String) (e : FileEntry) : FileTree :=
  { t with entries := t.entries.insert key e }

def makeDirs (t : FileTree) (here : List String) : List String → Except FileError FileTree
  | [] => .ok t
  | s :: rest =>
    if s = "" ∨ s = "." then t.makeDirs here rest
    else if s = ".." then
      if here = [] then .error .notFound else t.makeDirs here.dropLast rest
    else if segmentLimit < s.utf8ByteSize then .error .nameTooLong
    else
      match t.entries.get? (here ++ [s]) with
      | some .dir => t.makeDirs (here ++ [s]) rest
      | some (.file _) => if rest = [] then .error .alreadyExists else .error .notADirectory
      | none => (t.put (here ++ [s]) .dir).makeDirs (here ++ [s]) rest

def createDirs (t : FileTree) (path : String) : Except FileError FileTree :=
  if path = "" then .ok t
  else
    match t.segments path with
    | .error e => .error e
    | .ok ss => t.makeDirs [] ss

/-- Replaces a file or makes one in an existing directory. Only a directory has a slash behind its
name. -/
def write (t : FileTree) (path : String) (bytes : List UInt8) : Except FileError FileTree :=
  match t.place path with
  | .ok (.file key _) => .ok (t.put key (.file bytes))
  | .ok (.free key) =>
    if path.toList.getLast? = some '/' then .error .notADirectory
    else .ok (t.put key (.file bytes))
  | .ok (.dir _) => .error .isADirectory
  | .error e => .error e

def children (t : FileTree) (key : List String) : List (String × FileEntry) :=
  t.entries.reverse.filterMap fun e =>
    match e.1.reverse with
    | name :: above => if above.reverse = key then some (name, e.2) else none
    | [] => none

/-- Puts a path behind a directory; an absolute path stands for itself. -/
def join (dir path : String) : String :=
  if dir = "" ∨ Text.startsWith "/" path then path
  else if dir.toList.getLast? = some '/' then dir ++ path
  else dir ++ "/" ++ path

/-- Text in reverse without the slashes and dot segments at its end. -/
def trimEnd (reversed : List Char) : List Char :=
  match reversed with
  | ['/'] => ['/']
  | '/' :: rest => trimEnd rest
  | '.' :: '/' :: rest => trimEnd ('/' :: rest)
  | s => s

/-- The directory of a path; the working directory is the empty path. -/
def parent? (path : String) : Option String :=
  match trimEnd path.toList.reverse with
  | [] | ['/'] => none
  | s => some (String.ofList (trimEnd (s.dropWhile (· ≠ '/'))).reverse)

end FileTree

end SitePublish
