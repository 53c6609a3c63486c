import SitePublish.Digest.Sha256
import SitePublish.FileTree.Basic

/-!
# Branch locks

Whoever commits to a branch and publishes it holds the branch meanwhile. A branch that is held has
to be waited for; other branches can be taken at any time. With a lock directory each branch also
has a lock file there, whose name shows the branch and tells branches apart that look alike.
-/

set_option autoImplicit false

namespace SitePublish

structure LockError where
  branch : String
  cause : FileError
deriving DecidableEq

def LockError.message (e : LockError) : String :=
  "failed to lock branch '" ++ e.branch ++ "': " ++ e.cause.message

structure LockTable where
  held : List String
deriving DecidableEq

namespace LockTable

def empty : LockTable := ⟨[]⟩

def isFree (t : LockTable) (branch : String) : Bool := !t.held.contains branch

def acquire (t : LockTable) (branch : String) : LockTable := ⟨branch :: t.held⟩

def release (t : LockTable) (branch : String) : LockTable := ⟨t.held.erase branch⟩

theorem release_acquire (t : LockTable) (branch : String) :
    (t.acquire branch).release branch = t := by
  simp [acquire, release]

end LockTable

namespace LockFile

def isPlain (c : Char) : Bool := c.isAlphanum || c = '-' || c = '_' || c = '.'

def digestDigits : Nat := 8

def name (branch : String) : String :=
  String.ofList (branch.toList.map fun c => if isPlain c then c else '_') ++ "-" ++
    String.ofList ((Digest.Sha256.hex (Text.utf8 branch)).toList.take digestDigits) ++ ".lock"

def path (dir branch : String) : String := FileTree.join dir (name branch)

def create (t : FileTree) (dir branch : String) : Except LockError Unit × FileTree :=
  match t.createDirs dir with
  | .error e => (.error ⟨branch, e⟩, t)
  | .ok made =>
    match made.write (path dir branch) [] with
    | .error e => (.error ⟨branch, e⟩, made)
    | .ok written => (.ok (), written)

end LockFile

end SitePublish
