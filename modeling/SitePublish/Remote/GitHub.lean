import SitePublish.Base64
import SitePublish.Http.Exchange
import SitePublish.Remote.Basic

/-!
# The remote on GitHub

Reads branches and writes commits through the git data interface: the blobs of binary files, a tree
on top of the tree of the expected head, a commit, and last the reference of the branch. Only the
last request can move a branch, and it never forces it: a branch that has moved meanwhile refuses
the commit.
-/

set_option autoImplicit false

namespace SitePublish

structure GitHub where
  apiUrl : String
  token : String
  repo : RepoRef
deriving DecidableEq

namespace GitHub

variable {σ : Type}

abbrev Call (σ α : Type) := Http.Call σ RemoteError α

def connect (apiUrl token : String) (repo : RepoRef) : GitHub :=
  ⟨String.ofList (Text.dropWhileEnd (· = '/') apiUrl.toList), token, repo⟩

def address (g : GitHub) (resource : String) : String :=
  g.apiUrl ++ "/repos/" ++ g.repo.owner ++ "/" ++ g.repo.repo ++ "/" ++ resource

def accept : String := "application/vnd.github+json"

def apiVersion : String := "2022-11-28"

def request (g : GitHub) (method : Http.Method) (url : Http.Url) (body : Option Json) :
    Http.Request :=
  ⟨method, url, Http.headers accept g.token [("x-github-api-version", apiVersion)] body, body⟩

def failure (g : GitHub) (what : String) (r : Http.Response) : RemoteError :=
  if r.status = 401 ∨ r.status = 403 then .unauthorized g.repo.display r.status r.message
  else if r.status = 404 then .notFound what
  else .http r.status r.message

def decode {α : Type} (g : GitHub) (what : String) (shape : Json.Shape α) (r : Http.Response) :
    Except RemoteError α :=
  if r.isSuccess then
    match shape.parse? r.body with
    | some a => .ok a
    | none => .error (.invalidResponse (what ++ ": " ++ Http.malformedBody))
  else .error (g.failure what r)

def request? (g : GitHub) (method : Http.Method) (resource : String)
    (fields : List (String × String)) (body : Option Json) : Option Http.Request := do
  let url ← Http.Url.parse? (g.address resource)
  guard (Http.isHeaderText g.token)
  return g.request method (fields.foldl (fun u f => u.withField f.1 f.2) url) body

/-- Makes one request and reads its response; `what` names the resource in errors. -/
def send {α : Type} (g : GitHub) (exchange : Http.Exchange σ) (what : String)
    (shape : Json.Shape α) (method : Http.Method) (resource : String)
    (fields : List (String × String)) (body : Option Json) : Call σ α := fun s =>
  match g.request? method resource fields body with
  | none => (.error (.transport Http.malformedRequest), s)
  | some q =>
    match exchange q s with
    | (none, s) => (.error (.transport (Http.unanswered q.url)), s)
    | (some r, s) => (g.decode what shape r, s)

def shaShape : Json.Shape String :=
  Json.Shape.record [["sha"]] fun budget fields =>
    match fields with
    | [sha] => Json.Shape.required Json.Shape.string budget sha
    | _ => none

def refShape : Json.Shape String :=
  Json.Shape.record [["object"]] fun budget fields =>
    match fields with
    | [object] => Json.Shape.required shaShape budget object
    | _ => none

def commitShape : Json.Shape String :=
  Json.Shape.record [["tree"]] fun budget fields =>
    match fields with
    | [tree] => Json.Shape.required shaShape budget tree
    | _ => none

def createdShape : Json.Shape (String × Option String) :=
  Json.Shape.record [["sha"], ["html_url"]] fun budget fields =>
    match fields with
    | [sha, url] => do
      let sha ← Json.Shape.required Json.Shape.string budget sha
      let url ← Json.Shape.field (Json.Shape.optional Json.Shape.string) none budget url
      return (sha, url)
    | _ => none

structure TreeItem where
  path : String
  kind : String
  sha : String
deriving DecidableEq

def itemShape : Json.Shape TreeItem :=
  Json.Shape.record [["path"], ["type"], ["sha"]] fun budget fields =>
    match fields with
    | [path, kind, sha] => do
      let text := Json.Shape.required Json.Shape.string budget
      return ⟨← text path, ← text kind, ← text sha⟩
    | _ => none

/-- The items of a tree. Whether the listing is complete makes no difference. -/
def treeShape : Json.Shape (List TreeItem) :=
  Json.Shape.record [["tree"], ["truncated"]] fun budget fields =>
    match fields with
    | [tree, truncated] => do
      let items ← Json.Shape.field (Json.Shape.list itemShape) [] budget tree
      let _ ← Json.Shape.field Json.Shape.bool false budget truncated
      return items
    | _ => none

def instantShape : Json.Shape Instant := fun budget t =>
  (Json.Shape.string budget t).bind Instant.parse?

def authorShape : Json.Shape (String × Option Instant) :=
  Json.Shape.record [["name"], ["date"]] fun budget fields =>
    match fields with
    | [name, date] => do
      let name ← Json.Shape.field (Json.Shape.optional Json.Shape.string) none budget name
      let date ← Json.Shape.field (Json.Shape.optional instantShape) none budget date
      return (name.getD "", date)
    | _ => none

def detailShape : Json.Shape (String × Option (String × Option Instant)) :=
  Json.Shape.record [["message"], ["author"]] fun budget fields =>
    match fields with
    | [message, author] => do
      let message ← Json.Shape.required Json.Shape.string budget message
      let author ← Json.Shape.field (Json.Shape.optional authorShape) none budget author
      return (message, author)
    | _ => none

def listedShape : Json.Shape Commit :=
  Json.Shape.record [["sha"], ["html_url"], ["commit"]] fun budget fields =>
    match fields with
    | [sha, url, detail] => do
      let text := Json.Shape.required Json.Shape.string budget
      let sha ← text sha
      let url ← text url
      let (message, author) ← Json.Shape.required detailShape budget detail
      let (name, date) := author.getD ("", none)
      return ⟨sha, message, name, date, url⟩
    | _ => none

def branchName (branch : String) : String := "branch '" ++ branch ++ "'"

/-- The head of a branch; none for a branch that does not exist. -/
def head (g : GitHub) (exchange : Http.Exchange σ) (branch : String) : Call σ (Option String) :=
  fun s =>
    match g.send exchange (branchName branch) refShape .get ("git/ref/heads/" ++ branch) [] none s
    with
    | (.ok sha, s) => (.ok (some sha), s)
    | (.error (.notFound _), s) => (.ok none, s)
    | (.error e, s) => (.error e, s)

def treeOf (g : GitHub) (exchange : Http.Exchange σ) (commit : String) : Call σ String :=
  g.send exchange ("commit " ++ commit) commitShape .get ("git/commits/" ++ commit) [] none

/-- The blobs of a tree by their paths; a path that cannot be represented is skipped. -/
def blobsOf (items : List TreeItem) : Dict SitePath BlobId :=
  items.foldl (fun blobs i =>
    if i.kind = "blob" then
      match SitePath.ofText i.path with
      | .ok p => blobs.insert p (BlobId.ofText i.sha)
      | .error _ => blobs
    else blobs) []

def snapshot (g : GitHub) (exchange : Http.Exchange σ) (branch : String) :
    Call σ (Option Snapshot) := do
  match ← g.head exchange branch with
  | none => return none
  | some head =>
    let tree ← g.treeOf exchange head
    let items ← g.send exchange "tree" treeShape .get ("git/trees/" ++ tree) [("recursive", "1")]
      none
    return some ⟨head, blobsOf items⟩

def listCommits (g : GitHub) (exchange : Http.Exchange σ) (branch : String) (count : Nat) :
    Call σ (List Commit) :=
  g.send exchange (branchName branch) (Json.Shape.list listedShape) .get "commits"
    [("sha", branch), ("per_page", toString count)] none

def createBlob (g : GitHub) (exchange : Http.Exchange σ) (bytes : List UInt8) : Call σ String :=
  g.send exchange "blob" shaShape .post "git/blobs" []
    (some (Json.ofMembers [("content", .str (Base64.encode bytes)), ("encoding", .str "base64")]))

def treeEntry (path : SitePath) (change : String × Json) : Json :=
  Json.ofMembers [("path", .str path.text), ("mode", .str "100644"), ("type", .str "blob"), change]

/-- What a write does to its entry: a text stands in it, a binary file is named by a blob made for
it, and a null takes the path out. -/
def entryChange (g : GitHub) (exchange : Http.Exchange σ) : FileChange → Call σ (String × Json)
  | .put (.text text) => return ("content", .str text)
  | .put (.binary bytes) => return ("sha", .str (← g.createBlob exchange bytes))
  | .delete => return ("sha", .null)

def treeEntries (g : GitHub) (exchange : Http.Exchange σ) : List FileWrite → Call σ (List Json)
  | [] => return []
  | w :: rest => do
    let change ← g.entryChange exchange w.change
    let entries ← g.treeEntries exchange rest
    return treeEntry w.path change :: entries

def createTree (g : GitHub) (exchange : Http.Exchange σ) (base : Option String)
    (entries : List Json) : Call σ String :=
  g.send exchange "tree" shaShape .post "git/trees" []
    (some (Json.ofMembers
      (("tree", .arr entries) :: (base.map fun b => ("base_tree", Json.str b)).toList)))

def createCommit (g : GitHub) (exchange : Http.Exchange σ) (message tree : String)
    (parents : List String) : Call σ (String × Option String) :=
  g.send exchange "commit" createdShape .post "git/commits" []
    (some (Json.ofMembers
      [("message", .str message), ("tree", .str tree), ("parents", Json.ofStrings parents)]))

def setBranch (g : GitHub) (exchange : Http.Exchange σ) (branch : String)
    (expected : Option String) (commit : String) : Call σ Json :=
  match expected with
  | some _ =>
    g.send exchange "ref" Json.Shape.value .patch ("git/refs/heads/" ++ branch) []
      (some (Json.ofMembers [("sha", .str commit), ("force", .bool false)]))
  | none =>
    g.send exchange "ref" Json.Shape.value .post "git/refs" []
      (some (Json.ofMembers [("ref", .str ("refs/heads/" ++ branch)), ("sha", .str commit)]))

def asMoved (branch : String) (expected : Option String) : RemoteError → RemoteError
  | .http status message =>
    if status = 409 ∨ status = 422 then .headMoved branch (expected.getD "none")
    else .http status message
  | e => e

def commitPage (g : GitHub) (commit : String) : String :=
  "https://github.com/" ++ g.repo.owner ++ "/" ++ g.repo.repo ++ "/commit/" ++ commit

def baseTree (g : GitHub) (exchange : Http.Exchange σ) : Option String → Call σ (Option String)
  | some head => return some (← g.treeOf exchange head)
  | none => return none

def write (g : GitHub) (exchange : Http.Exchange σ) (branch : String) (expected : Option String)
    (files : List FileWrite) (message : String) : Call σ CommitReceipt := do
  let base ← g.baseTree exchange expected
  let entries ← g.treeEntries exchange files
  let tree ← g.createTree exchange base entries
  let (commit, url) ← g.createCommit exchange message tree expected.toList
  let _ ← ExceptT.adapt (asMoved branch expected) (g.setBranch exchange branch expected commit)
  return ⟨commit, url.getD (g.commitPage commit)⟩

end GitHub

end SitePublish
