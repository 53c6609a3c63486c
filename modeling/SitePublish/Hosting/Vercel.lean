import SitePublish.Hosting.Basic
import SitePublish.Http.Exchange

/-!
# The host on Vercel

Deployments are made from a branch of the repository, perhaps pinned to a commit, so the host builds
what was committed. A team is named in the query of every request.
-/

set_option autoImplicit false

namespace SitePublish

structure Vercel where
  apiUrl : String
  token : String
  team : Option String
deriving DecidableEq

namespace Vercel

variable {σ : Type}

abbrev Call (σ α : Type) := Http.Call σ HostingError α

def connect (apiUrl token : String) (team : Option String) : Vercel :=
  ⟨String.ofList (Text.dropWhileEnd (· = '/') apiUrl.toList), token, team⟩

def address (v : Vercel) (resource : String) : String := v.apiUrl ++ "/" ++ resource

def request? (v : Vercel) (resource : String) (body : Json) : Option Http.Request := do
  let url ← Http.Url.parse? (v.address resource)
  guard (Http.isHeaderText v.token)
  let url := match v.team with
    | some team => url.withField "teamId" team
    | none => url
  return ⟨.post, url, Http.headers "*/*" v.token [] (some body), some body⟩

def failure (r : Http.Response) : HostingError :=
  if r.status = 401 ∨ r.status = 403 then .unauthorized r.status r.message
  else .http r.status r.message

def decode {α : Type} (what : String) (shape : Json.Shape α) (r : Http.Response) :
    Except HostingError α :=
  if r.isSuccess then
    match shape.parse? r.body with
    | some a => .ok a
    | none => .error (.invalidResponse (what ++ ": " ++ Http.malformedBody))
  else .error (failure r)

/-- Sends a body and reads the response; `what` names the resource in errors. -/
def send {α : Type} (v : Vercel) (exchange : Http.Exchange σ) (what : String)
    (shape : Json.Shape α) (resource : String) (body : Json) : Call σ α := fun s =>
  match v.request? resource body with
  | none => (.error (.transport Http.malformedRequest), s)
  | some q =>
    match exchange q s with
    | (none, s) => (.error (.transport (Http.unanswered q.url)), s)
    | (some r, s) => (decode what shape r, s)

def pairShape (first second : String) : Json.Shape (String × String) :=
  Json.Shape.record [[first], [second]] fun budget fields =>
    match fields with
    | [a, b] => do
      let text := Json.Shape.required Json.Shape.string budget
      return (← text a, ← text b)
    | _ => none

def withScheme (host : String) : String :=
  if Text.startsWith "http://" host || Text.startsWith "https://" host then host
  else "https://" ++ host

def source (q : DeploymentRequest) : Json :=
  Json.ofMembers
    ([("type", .str "github"), ("org", .str q.repo.owner), ("repo", .str q.repo.repo),
      ("ref", .str q.branch)] ++ (q.commit.map fun c => ("sha", Json.str c)).toList)

def deploymentBody (q : DeploymentRequest) : Json :=
  Json.ofMembers
    ([("name", .str q.project), ("project", .str q.project), ("gitSource", source q)] ++
      if q.target = .production then [("target", .str "production")] else [])

def deploy (v : Vercel) (exchange : Http.Exchange σ) (q : DeploymentRequest) :
    Call σ Deployment := do
  let (id, url) ← v.send exchange "deployment" (pairShape "id" "url") "v13/deployments"
    (deploymentBody q)
  return ⟨id, withScheme url⟩

def projectBody (repo : RepoRef) : Json :=
  Json.ofMembers
    [("name", .str repo.repo), ("framework", .str "nextjs"),
     ("gitRepository", Json.ofMembers [("type", .str "github"), ("repo", .str repo.display)])]

def bindDomain (v : Vercel) (exchange : Http.Exchange σ) (project : String) :
    Option String → Call σ Unit
  | none => return ()
  | some domain => do
    let _ ← v.send exchange "domain" Json.Shape.value
      ("v10/projects/" ++ project ++ "/domains") (Json.ofMembers [("name", .str domain)])
    return ()

def provision (v : Vercel) (exchange : Http.Exchange σ) (repo : RepoRef)
    (domain : Option String) : Call σ HostingProject := do
  let (id, name) ← v.send exchange "project" (pairShape "id" "name") "v10/projects"
    (projectBody repo)
  v.bindDomain exchange id domain
  return ⟨id, "https://" ++ name ++ ".vercel.app", domain⟩

end Vercel

end SitePublish
