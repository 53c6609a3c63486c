import SitePublish.Proofs.Deploy.Rehearsal
import SitePublish.Proofs.Remote.Reference

/-!
# Previews and the production branch

A preview may go to every branch but the one for production, and the two are told apart by their
names. On GitHub a preview stays away from the reference of the production branch if both names are
plain. Else it reaches that reference whenever its name leads to the same place: a preview for
`main#x` is let through, plans against the head of `main` and moves `main`.
-/

set_option autoImplicit false

namespace SitePublish

open Http (Exchange Request)
open Http.Url (Front Plain)

theorem DeploySettings.ne_production {settings : DeploySettings} {branch : String}
    (own : settings.checkOwnership .preview branch = .ok ()) :
    branch ≠ settings.productionBranch := by
  rintro rfl
  rw [checkOwnership, if_pos ⟨rfl, rfl⟩] at own
  cases own

/-- More has been asked, all of a kind. -/
def Asked (P : Request → Prop) (before after : List Request) : Prop :=
  ∃ more, after = before ++ more ∧ ∀ q ∈ more, P q

theorem Asked.refl {P : Request → Prop} (log : List Request) : Asked P log log :=
  ⟨[], (List.append_nil log).symm, by simp⟩

theorem Asked.trans {P : Request → Prop} {a b c : List Request} (h : Asked P a b)
    (h' : Asked P b c) : Asked P a c := by
  obtain ⟨more, rfl, hm⟩ := h
  obtain ⟨rest, rfl, hr⟩ := h'
  exact ⟨more ++ rest, List.append_assoc a more rest, List.forall_mem_append.mpr ⟨hm, hr⟩⟩

/-- Services that keep in their state what is asked of the remote, by the branch it is asked for. -/
structure Services.Asking {σ : Type} (v : Services σ) (log : σ → List Request)
    (P : String → Request → Prop) : Prop where
  snapshot : ∀ branch s, Asked (P branch) (log s) (log (v.snapshot branch s).2)
  write : ∀ branch expected files message s,
    Asked (P branch) (log s) (log (v.write branch expected files message s).2)
  publish : ∀ request s, log (v.publish request s).2 = log s
  lock : ∀ branch s, log (v.lock branch s).2 = log s
  unlock : ∀ branch s, log (v.unlock branch s) = log s

namespace World

variable {τ : Type}

def asked (w : World (List Request × τ)) : List Request := w.connection.1

theorem asked_through {α : Type} {P : Request → Prop} {call : GitHub.Call (List Request × τ) α}
    (h : GitHub.Asks P call) (w : World (List Request × τ)) :
    Asked P w.asked (through call w).2.asked := by
  obtain ⟨more, log, kinds⟩ := h w.connection.1 w.connection.2
  exact ⟨more, log, kinds⟩

theorem withRemote_asking (dir : Option String) (g : GitHub) (exchange : Exchange τ) :
    (withRemote (offline dir) g exchange.recorded).Asking asked g.MovesOnly where
  snapshot branch w := by
    dsimp only [withRemote]
    exact asked_through (g.asks_snapshot exchange branch) w
  write branch expected files message w := by
    dsimp only [withRemote]
    exact asked_through (g.asks_write exchange branch expected files message) w
  publish _ _ := rfl
  lock := lock_keeps asked (fun _ _ _ => rfl) dir
  unlock _ _ := rfl

end World

namespace Deployer

section Asking

variable {σ : Type} {d : Deployer σ} {document : Document} {options : DeployOptions} {s : σ}
  {branch : String} {log : σ → List Request} {P : String → Request → Prop}
  (ha : d.services.Asking log P)
include ha

theorem CommitEnds.asking {message : String} {plan : CommitPlan}
    {out : Except RemoteError Committed × List DeployEvent × σ}
    (h : CommitEnds d branch message plan s out) : Asked (P branch) (log s) (log out.2.2) := by
  rw [h.state_eq]
  split
  · exact .refl _
  · exact ha.write branch plan.base plan.writes message s

theorem ShipEnds.asking {prepared : Prepared}
    {out : Except Fault (Committed × Deployment) × List DeployEvent × σ}
    (h : ShipEnds d document options branch prepared s out) :
    Asked (P branch) (log s) (log out.2.2) := by
  have hr := ha.snapshot branch s
  cases h with
  | unread read => rwa [read] at hr
  | uncommitted read planned commit =>
    rw [read] at hr
    exact hr.trans (commit.asking ha)
  | unpublished read planned commit publish =>
    rw [read] at hr
    rw [publish.keeps log ha.publish]
    exact hr.trans (commit.asking ha)
  | done read planned commit publish =>
    rw [read] at hr
    rw [publish.keeps log ha.publish]
    exact hr.trans (commit.asking ha)

theorem LockedEnds.asking {prepared : Prepared}
    {out : Except Fault (Committed × Deployment) × List DeployEvent × σ}
    (h : LockedEnds d document options branch prepared s out) :
    Asked (P branch) (log s) (log out.2.2) := by
  have hl := ha.lock branch s
  cases h with
  | barred lock =>
    rw [← hl, lock]
    exact .refl _
  | shipped lock ship =>
    rw [ha.unlock, ← hl, lock]
    exact ship.asking ha

theorem ExecuteEnds.asking {project : Except ProjectError (List Candidate)}
    {out : Outcome σ DeployResult} (h : ExecuteEnds d document options project branch s out) :
    Asked (P branch) (log s) (log out.state) := by
  cases h with
  | failed own prepare real ship => exact ship.asking ha
  | done own prepare real ship => exact ship.asking ha
  | _ => exact .refl _

end Asking

/-- A preview by plain names asks of GitHub no change of the production branch. -/
theorem preview_spares_production {τ : Type} (pipeline : Pipeline) (settings : DeploySettings)
    (lockDir : Option String) (g : GitHub) (exchange : Exchange τ) (document : Document)
    (options : DeployOptions) (project : Except ProjectError (List Candidate))
    (w : World (List Request × τ)) (straight : g.Straight)
    (own : settings.checkOwnership .preview (settings.resolveBranch .preview options.branch) =
      .ok ()) (preview : options.target = .preview) :
    let d : Deployer (World (List Request × τ)) :=
      ⟨pipeline, settings, World.withRemote (World.offline lockDir) g exchange.recorded⟩
    Plain (settings.resolveBranch .preview options.branch).toList →
    Plain settings.productionBranch.toList →
    ∃ more, (d.execute document options project w).state.asked = w.asked ++ more ∧
      ∀ q ∈ more, q.method = .patch → ∀ q',
        g.RefRequest settings.productionBranch "git/refs/heads" q' →
        q.url.target ≠ q'.url.target := by
  intro d plain plain'
  have ha : d.services.Asking World.asked g.MovesOnly :=
    World.withRemote_asking lockDir g exchange
  obtain ⟨more, log, kinds⟩ := (d.execute_ends document options project w).asking ha
  refine ⟨more, log, fun q hq patch q' made' => ?_⟩
  obtain ⟨body, hmove⟩ := kinds q hq patch
  rw [preview] at hmove
  obtain ⟨clean, method', body', hq'⟩ := made'.made
  exact GitHub.target_ne_of_plain straight clean hmove hq' plain plain'
    (DeploySettings.ne_production own)

end Deployer

namespace GitHub

/-- For whatever branch is asked for a preview that is let through. The address in front of the names
has no query and no fragment. -/
theorem preview_reaches_production_iff (g : GitHub) (settings : DeploySettings)
    (asked : Option String) (straight : g.Straight)
    (own : settings.checkOwnership .preview (settings.resolveBranch .preview asked) = .ok ())
    {folder : String} {q q' : Request}
    (made : g.RefRequest (settings.resolveBranch .preview asked) folder q)
    (made' : g.RefRequest settings.productionBranch folder q') :
    (q.url.target = q'.url.target ↔
      g.placeOf folder (settings.resolveBranch .preview asked) =
        g.placeOf folder settings.productionBranch) ∧
    (Plain (settings.resolveBranch .preview asked).toList →
      Plain settings.productionBranch.toList → q.url.target ≠ q'.url.target) := by
  obtain ⟨clean, method, body, hq⟩ := made.made
  obtain ⟨-, method', body', hq'⟩ := made'.made
  exact ⟨target_eq_iff straight clean hq hq', fun plain plain' =>
    target_ne_of_plain straight clean hq hq' plain plain' (DeploySettings.ne_production own)⟩

end GitHub

namespace Bakery

def github : GitHub := .connect "https://api.github.com" "token" settings.repo

/-- A service that is content with everything and has one empty commit on every branch. -/
def agreeable : Exchange Unit := fun q s =>
  (some ⟨200, if q.url.query.isSome then "\x7b\"tree\":[]\x7d" else
    "\x7b\"sha\":\"c0\",\"object\":\x7b\"sha\":\"c0\"\x7d,\"tree\":\x7b\"sha\":\"t0\"\x7d\x7d"⟩, s)

def listed : Json.Tree := .obj [(some "tree", .arr [])]

def named : Json.Tree :=
  .obj [(some "sha", .str (some "c0")), (some "object", .obj [(some "sha", .str (some "c0"))]),
    (some "tree", .obj [(some "sha", .str (some "t0"))])]

def told {α : Type} (what : String) (shape : Json.Shape α) (url : Http.Url) :
    Except RemoteError α :=
  match shape Json.depthLimit (if url.query.isSome then listed else named) with
  | some a => .ok a
  | none => .error (.invalidResponse (what ++ ": " ++ Http.malformedBody))

theorem exists_response {α : Type} (g : GitHub) (what : String) (shape : Json.Shape α)
    (q : Request) :
    ∃ r, agreeable q () = (some r, ()) ∧ g.decode what shape r = told what shape q.url := by
  refine ⟨_, rfl, ?_⟩
  have listing : Json.Tree.parse? "\x7b\"tree\":[]\x7d" = some listed := by rfl
  have naming : Json.Tree.parse?
      "\x7b\"sha\":\"c0\",\"object\":\x7b\"sha\":\"c0\"\x7d,\"tree\":\x7b\"sha\":\"t0\"\x7d\x7d" =
      some named := by rfl
  rw [GitHub.decode, told, Json.Shape.parse?]
  dsimp only [Http.Response.isSuccess]
  cases q.url.query.isSome
  · simp only [Bool.false_eq_true, ↓reduceIte, naming, Option.bind_some]
    rfl
  · simp only [↓reduceIte, listing, Option.bind_some]
    rfl

section Agreeable

variable {α : Type} {g : GitHub} {f : Front} (read : Front.read? g.root.toList = some f)
  (token : Http.isHeaderText g.token = true) (what : String) (shape : Json.Shape α)
  (method : Http.Method) (resource : String) (fields : List (String × String))
  (body : Option Json)
include read token

theorem send_agreeable : g.send agreeable what shape method resource fields body = fun s =>
    (told what shape (GitHub.resourceUrl f resource fields), s) := by
  funext s
  obtain ⟨r, answer, said⟩ :=
    exists_response g what shape (g.request method (GitHub.resourceUrl f resource fields) body)
  exact (GitHub.send_of_front read token answer what shape).trans (congrArg (·, s) said)

theorem send_agreeable_recorded :
    g.send agreeable.recorded what shape method resource fields body = fun s =>
      (told what shape (GitHub.resourceUrl f resource fields),
        s.1 ++ [g.request method (GitHub.resourceUrl f resource fields) body], s.2) := by
  funext ⟨log, s⟩
  obtain ⟨r, answer, said⟩ :=
    exists_response g what shape (g.request method (GitHub.resourceUrl f resource fields) body)
  have kept : agreeable.recorded (g.request method (GitHub.resourceUrl f resource fields) body)
      (log, s) =
        (some r, log ++ [g.request method (GitHub.resourceUrl f resource fields) body], s) := by
    rw [Exchange.recorded, answer]
  exact (GitHub.send_of_front read token kept what shape).trans (congrArg (·, _) said)

end Agreeable

def front : Front := ⟨"https".toList, "api.github.com".toList, "/repos/acme/bakery".toList⟩

theorem front_github : Front.read? github.root.toList = some front := by
  have parts : (Front.read? github.root.toList).map (fun f => (f.scheme, f.authority, f.path)) =
      some (front.scheme, front.authority, front.path) := by decide +kernel
  obtain ⟨f, read, same⟩ := Option.map_eq_some_iff.mp parts
  cases f
  cases same
  exact read

theorem token_github : Http.isHeaderText github.token = true := by decide

theorem head_agreeable (branch : String) :
    (github.snapshotRequests agreeable branch ()).head? =
      some (github.request .get (GitHub.resourceUrl front ("git/ref/heads/" ++ branch) []) none) := by
  rw [GitHub.head?_snapshotRequests, GitHub.request?_of_front front_github token_github]

theorem staging_apart :
    ∃ q q', (github.snapshotRequests agreeable "staging" ()).head? = some q ∧
      (github.snapshotRequests agreeable settings.productionBranch ()).head? = some q' ∧
      q.url.target ≠ q'.url.target := by
  have made := head_agreeable "staging"
  have made' := head_agreeable settings.productionBranch
  have resolved : settings.resolveBranch .preview (some "staging") = "staging" := by decide +kernel
  obtain ⟨-, apart⟩ := GitHub.preview_reaches_production_iff github settings (some "staging")
    (by rw [GitHub.Straight]; decide +kernel) (by rw [resolved]; decide +kernel)
    (by rw [resolved]; exact .read made) (.read made')
  rw [resolved] at apart
  exact ⟨_, _, made, made', apart (by decide +kernel) (by decide +kernel)⟩

def outside : Deployer (World (List Request × Unit)) :=
  ⟨pipeline, settings, World.withRemote (World.offline none) github agreeable.recorded⟩

/-- The last request of a preview that is let through moves the production branch. -/
theorem preview_moves_production :
    settings.checkOwnership .preview "main#x" = .ok () ∧
      ((outside.execute blank (options .preview "main#x") (.ok [])
          (workshop ([], ()))).state.connection.1.getLast?.map fun q => (q.method, q.url.target)) =
        some (.patch, "/repos/acme/bakery/git/refs/heads/main") ∧
      ((github.writeRequests agreeable settings.productionBranch (some "c0") [] ""
          ()).getLast?.map fun q => (q.method, q.url.target)) =
        some (.patch, "/repos/acme/bakery/git/refs/heads/main") := by
  have own : settings.checkOwnership .preview "main#x" = .ok () := by decide +kernel
  have rehearsed : outside.rehearsal blank (options .preview "main#x") (.ok []) =
      .ok (.ofBatch .preview bareBatch) :=
    rehearsal_blank rfl rfl (by decide +kernel) batch_bare rfl
  refine ⟨own, ?_, ?_⟩
  · rw [(Deployer.execute_of_rehearsal_real rehearsed rfl).1]
    unfold outside World.withRemote GitHub.write GitHub.snapshot GitHub.head GitHub.baseTree
      GitHub.createTree GitHub.createCommit GitHub.setBranch GitHub.treeOf
    simp only [send_agreeable_recorded front_github token_github]
    decide +kernel
  · rw [GitHub.writeRequests, GitHub.write, GitHub.baseTree]
    dsimp only
    rw [GitHub.treeOf, send_agreeable_recorded front_github token_github]
    simp only [GitHub.createTree, GitHub.createCommit, GitHub.setBranch,
      send_agreeable_recorded front_github token_github]
    decide +kernel

end Bakery

end SitePublish
