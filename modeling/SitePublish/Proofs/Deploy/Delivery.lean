import SitePublish.Proofs.Deploy.Preparation
import SitePublish.Proofs.Deploy.Remote
import SitePublish.Proofs.Site.Path

/-!
# What a deployment leaves that succeeded

The branch holds every file that ships, no other path that is owned, and whatever else it held
before; the result tells which files were written, deleted and left as they were; there is a new
commit if and only if something had to change; and the host was asked once, for the head of the
branch. A file that was left as it was has the blob that it should have, so its bytes are the ones
that ship unless two contents share a digest.
-/

set_option autoImplicit false

namespace SitePublish

namespace MemoryHost

theorem deploy_cases (h : MemoryHost) (q : DeploymentRequest) :
    (∃ e, h.failNext = some e ∧ h.deploy q = (.error e, { h with failNext := none })) ∨
    (h.failNext = none ∧ ∃ deployment, h.deploy q = (.ok deployment,
      { h with deployments := h.deployments ++ [⟨q.project, q.branch, q.commit⟩] })) := by
  unfold deploy
  cases hf : h.failNext with
  | some e => exact Or.inl ⟨e, rfl, rfl⟩
  | none => exact Or.inr ⟨rfl, _, rfl⟩

theorem deployments_of_ok {h later : MemoryHost} {q : DeploymentRequest}
    {deployment : Deployment} (ok : h.deploy q = (.ok deployment, later)) :
    later.deployments = h.deployments ++ [⟨q.project, q.branch, q.commit⟩] := by
  rcases h.deploy_cases q with ⟨e, -, he⟩ | ⟨-, made, he⟩ <;> rw [he] at ok <;> cases ok
  rfl

end MemoryHost

structure Services.HostInMemory {σ : Type} (v : Services σ) (host : σ → MemoryHost) : Prop where
  snapshot : ∀ branch s, host (v.snapshot branch s).2 = host s
  write : ∀ branch expected files message s,
    host (v.write branch expected files message s).2 = host s
  publish : ∀ request s,
    ((v.publish request s).1, host (v.publish request s).2) = (host s).deploy request
  provision : ∀ repo domain s,
    ((v.provision repo domain s).1, host (v.provision repo domain s).2) =
      (host s).provision repo domain
  lock : ∀ branch s, host (v.lock branch s).2 = host s
  unlock : ∀ branch s, host (v.unlock branch s) = host s

theorem Services.HostInMemory.of_lock {σ : Type} {v : Services σ} {host : σ → MemoryHost}
    (hh : v.HostInMemory host) {branch : String} {s t : σ} {result : Except LockError Unit}
    (lock : v.lock branch s = (result, t)) : host t = host s := by
  rw [← hh.lock branch s, lock]

theorem World.offline_hostInMemory {τ : Type} (dir : Option String) :
    (offline dir : Services (World τ)).HostInMemory World.host where
  snapshot _ _ := rfl
  write _ _ _ _ _ := rfl
  publish _ _ := rfl
  provision _ _ _ := rfl
  lock := lock_keeps World.host (fun _ _ _ => rfl) dir
  unlock _ _ := rfl

namespace MemoryRemote

/-- Files that land on a branch, from the plan for its snapshot. -/
structure Landing (r later : MemoryRemote) (branch message : String) (files : List Candidate)
    (owned : SitePath → Bool) (c : Committed) : Prop where
  sound : r.Sound
  distinct : (files.map Candidate.path).Nodup
  planned : c.plan = .ofSnapshot files (r.snapshot branch) owned
  lands : r.Lands branch message c later

namespace Landing

variable {r later : MemoryRemote} {branch message : String} {files : List Candidate}
  {owned : SitePath → Bool} {c : Committed} (h : Landing r later branch message files owned c)
include h

theorem blobsOf_eq : CommitPlan.blobsOf (r.snapshot branch) = r.blobs branch :=
  h.sound.snapshot_blobs branch

theorem keys_eq : (CommitPlan.blobsOf (r.snapshot branch)).keys = (r.files branch).keys := by
  rw [h.blobsOf_eq, h.sound.blobs_eq, Dict.keys_mapValues]

theorem keys_nodup : (CommitPlan.blobsOf (r.snapshot branch)).keys.Nodup := by
  rw [h.keys_eq]
  exact (h.sound.files_sorted branch).nodup

theorem get?_claimed {f : Candidate} (hf : f ∈ files) :
    (later.files branch).get? f.path =
      if f.differs (r.blobs branch) then some f.content.bytes
      else (r.files branch).get? f.path := by
  rw [h.lands.files, h.planned, CommitPlan.get?_applied_claimed h.distinct h.keys_nodup hf,
    h.blobsOf_eq]

theorem get?_unclaimed {p : SitePath} (hp : ∀ f ∈ files, f.path ≠ p) :
    (later.files branch).get? p = if owned p then none else (r.files branch).get? p := by
  rw [h.lands.files, h.planned,
    CommitPlan.get?_applied_unclaimed h.distinct h.keys_nodup h.keys_eq hp]

theorem blob_before (p : SitePath) :
    (r.blobs branch).get? p = ((r.files branch).get? p).map BlobId.ofBytes := by
  rw [h.sound.blobs_eq, Dict.get?_mapValues]

theorem blob_after (p : SitePath) :
    (later.blobs branch).get? p = ((later.files branch).get? p).map BlobId.ofBytes := by
  rw [(h.lands.sound h.sound).blobs_eq, Dict.get?_mapValues]

theorem blob_claimed {f : Candidate} (hf : f ∈ files) :
    (later.blobs branch).get? f.path = some f.blob := by
  rw [h.blob_after, h.get?_claimed hf]
  split
  · rfl
  · next hd =>
    rw [← h.blob_before]
    simpa [Candidate.differs] using hd

theorem bytes_claimed {f : Candidate} (hf : f ∈ files) :
    ∃ bytes, (later.files branch).get? f.path = some bytes ∧ BlobId.ofBytes bytes = f.blob ∧
      (bytes = f.content.bytes ∨ (r.files branch).get? f.path = some bytes) := by
  have hb := h.blob_claimed hf
  rw [h.blob_after] at hb
  obtain ⟨bytes, hbytes, hid⟩ := Option.map_eq_some_iff.mp hb
  refine ⟨bytes, hbytes, hid, ?_⟩
  rw [h.get?_claimed hf] at hbytes
  split at hbytes
  · exact Or.inl (Option.some.inj hbytes).symm
  · exact Or.inr hbytes

theorem mem_of_new (hb : r.branch? branch = none) {f : Candidate} (hf : f ∈ files) :
    (f.path, f.content.bytes) ∈ later.files branch := by
  have hd : f.differs (r.blobs branch) = true := by
    simp [Candidate.differs, blobs, hb, MemoryBranch.empty, Dict.get?]
  have hget := h.get?_claimed hf
  rw [if_pos hd] at hget
  exact Dict.mem_of_get? hget

theorem mem_keys_owned {p : SitePath} (ho : owned p = true) :
    p ∈ (later.files branch).keys ↔ p ∈ files.map Candidate.path := by
  rw [List.mem_map]
  constructor
  · intro hp
    by_contra hn
    have hp' := h.get?_unclaimed (p := p) fun f hf he => hn ⟨f, hf, he⟩
    rw [if_pos ho] at hp'
    exact Dict.get?_eq_none_iff.mp hp' hp
  · rintro ⟨f, hf, rfl⟩
    obtain ⟨bytes, hb, -⟩ := h.bytes_claimed hf
    exact Dict.mem_keys_iff.mpr ⟨bytes, hb⟩

theorem written_paths :
    (c.writes.filter fun w => !w.isDelete).map FileWrite.path =
      (files.filter (Candidate.differs (r.blobs branch))).map Candidate.path := by
  rw [h.lands.writes, h.planned, CommitPlan.puts_ofSnapshot, h.blobsOf_eq]

theorem deleted_paths :
    (c.writes.filter FileWrite.isDelete).map FileWrite.path = c.plan.deletions := by
  rw [h.lands.writes, h.planned, CommitPlan.deletes_ofSnapshot]

theorem deletions_eq : c.plan.deletions =
    (r.files branch).keys.filter
      fun p => !(files.map Candidate.path).contains p && owned p := by
  rw [h.planned, CommitPlan.deletions_ofSnapshot, h.keys_eq]

theorem skipCount_eq :
    c.plan.skipCount = files.countP fun f => !f.differs (r.blobs branch) := by
  rw [h.planned, CommitPlan.skipCount_ofSnapshot, h.blobsOf_eq]

theorem noop_iff : c.plan.isNoop = true ↔
    r.branch? branch ≠ none ∧ files.filter (Candidate.differs (r.blobs branch)) = [] ∧
      c.plan.deletions = [] := by
  rw [h.planned, CommitPlan.isNoop_ofSnapshot, h.blobsOf_eq]
  have hb : (r.snapshot branch).isSome = true ↔ r.branch? branch ≠ none := by
    rw [ne_eq, ← h.sound.head?_eq_none_iff, ← r.snapshot_base]
    cases r.snapshot branch <;> simp
  rw [hb]

theorem commit_of_change (hn : c.plan.isNoop = false) :
    ∃ commit, c.receipt = some ⟨commit.id, commit.url⟩ ∧
      later.history branch = commit :: r.history branch := by
  have hl := h.lands
  cases hl with
  | idle noop =>
    rw [hn] at noop
    cases noop
  | landed noop base receipt_eq =>
    refine ⟨newCommit (r.commits + 1) message, congrArg some receipt_eq, ?_⟩
    rw [history_commit, if_pos rfl]

theorem same_of_noop (hn : c.plan.isNoop = true) : c.receipt = none ∧ later = r := by
  have hl := h.lands
  cases hl with
  | idle noop => exact ⟨rfl, rfl⟩
  | landed noop base receipt_eq =>
    rw [hn] at noop
    cases noop

theorem exists_head : ∃ head, c.head = some head ∧ later.head? branch = some head := by
  obtain ⟨head, hh⟩ := Option.isSome_iff_exists.mp h.lands.head_isSome
  have hb : c.plan.base = r.head? branch := by
    rw [h.planned]
    exact r.snapshot_base branch
  exact ⟨head, hh, by rw [h.lands.head hb, hh]⟩

end Landing

end MemoryRemote

namespace Deployer

variable {τ : Type}

/-- How a real deployment ends that succeeds, for the files that it retained. -/
structure Delivered (owned : SitePath → Bool) (retained : List Candidate) (branch home : String)
    (before after : World τ) (result : DeployResult) : Prop where
  to_branch : result.branch = branch
  files : result.files = retained.map fun f => f.path.text
  distinct : (retained.map Candidate.path).Nodup
  /-- Every file that ships is there by its blob. -/
  blobs : ∀ f ∈ retained, (after.remote.blobs branch).get? f.path = some f.blob
  contents : ∀ f ∈ retained, ∃ bytes, (after.remote.files branch).get? f.path = some bytes ∧
    BlobId.ofBytes bytes = f.blob ∧
    (bytes = f.content.bytes ∨ (before.remote.files branch).get? f.path = some bytes)
  /-- Every other path that is there was there with the same bytes and is not owned. -/
  rest : ∀ p, (∀ f ∈ retained, f.path ≠ p) → ∀ bytes,
    (after.remote.files branch).get? p = some bytes ↔
      (before.remote.files branch).get? p = some bytes ∧ owned p = false
  owned_paths : ∀ p, owned p = true →
    (p ∈ (after.remote.files branch).keys ↔ p ∈ retained.map Candidate.path)
  written : result.written =
    (retained.filter (Candidate.differs (before.remote.blobs branch))).map fun f => f.path.text
  deleted : result.deleted =
    ((before.remote.files branch).keys.filter
      fun p => !(retained.map Candidate.path).contains p && owned p).map SitePath.text
  unchanged : result.unchanged =
    retained.countP fun f => !f.differs (before.remote.blobs branch)
  total : result.written.length + result.unchanged = result.files.length
  apart : ∀ p ∈ result.written, p ∉ result.deleted
  /-- There is one more commit on the branch if something had to change. -/
  committed : result.written ≠ [] ∨ result.deleted ≠ [] ∨ before.remote.branch? branch = none →
    ∃ commit, result.commit = some ⟨commit.id, commit.url⟩ ∧
      after.remote.history branch = commit :: before.remote.history branch
  idle : result.written = [] → result.deleted = [] → before.remote.branch? branch ≠ none →
    result.commit = none ∧ after.remote = before.remote
  others : ∀ other, other ≠ branch →
    after.remote.branch? other = before.remote.branch? other
  /-- The host is asked once, for the head. -/
  asked : ∃ head, after.remote.head? branch = some head ∧
    after.host.deployments = before.host.deployments ++ [⟨home, branch, some head⟩]

theorem Delivered.of_landing {owned : SitePath → Bool} {prepared : Prepared}
    {branch home message : String} {before after : World τ} {c : Committed}
    (h : MemoryRemote.Landing before.remote after.remote branch message prepared.retained owned c)
    (document : Document) (target : Target) (deployment : Deployment)
    (asked : after.host.deployments = before.host.deployments ++ [⟨home, branch, c.head⟩]) :
    Delivered owned prepared.retained branch home before after
      (resultOf document target branch prepared c deployment) := by
  have hwritten : (resultOf document target branch prepared c deployment).written =
      (prepared.retained.filter (Candidate.differs (before.remote.blobs branch))).map
        fun f => f.path.text := by
    have hp := congrArg (List.map SitePath.text) h.written_paths
    rwa [List.map_map, List.map_map] at hp
  have hdeleted : (resultOf document target branch prepared c deployment).deleted =
      c.plan.deletions.map SitePath.text := by
    rw [← h.deleted_paths, List.map_map]
    rfl
  have hidle : c.plan.isNoop = true ↔ before.remote.branch? branch ≠ none ∧
      (resultOf document target branch prepared c deployment).written = [] ∧
      (resultOf document target branch prepared c deployment).deleted = [] := by
    rw [h.noop_iff, hwritten, hdeleted, List.map_eq_nil_iff, List.map_eq_nil_iff]
  refine {
    to_branch := rfl
    files := rfl
    distinct := h.distinct
    blobs := fun f hf => h.blob_claimed hf
    contents := fun f hf => h.bytes_claimed hf
    rest := fun p hp bytes => ?_
    owned_paths := fun p ho => h.mem_keys_owned ho
    written := hwritten
    deleted := by rw [hdeleted, h.deletions_eq]
    unchanged := h.skipCount_eq
    total := ?_
    apart := fun p hw hd => ?_
    committed := fun hc => ?_
    idle := fun hw hd hb => h.same_of_noop (hidle.mpr ⟨hb, hw, hd⟩)
    others := fun other ho => h.lands.others ho
    asked := ?_ }
  · rw [h.get?_unclaimed hp]
    cases owned p <;> simp
  · change _ + c.plan.skipCount = (prepared.retained.map fun f => f.path.text).length
    rw [hwritten, List.length_map, List.length_map, h.skipCount_eq,
      ← List.countP_eq_length_filter]
    have hl := List.length_eq_countP_add_countP (l := prepared.retained)
      (Candidate.differs (before.remote.blobs branch))
    simpa using hl.symm
  · rw [hwritten] at hw
    rw [hdeleted, h.planned] at hd
    obtain ⟨f, hf, rfl⟩ := List.mem_map.mp hw
    obtain ⟨q, hq, he⟩ := List.mem_map.mp hd
    have hpath : f.path = q := SitePath.text_injective he.symm
    exact (CommitPlan.mem_deletions.mp hq).2.1 f (List.mem_filter.mp hf).1 hpath
  · apply h.commit_of_change
    rw [← Bool.not_eq_true, hidle]
    rintro ⟨there, unwritten, undeleted⟩
    rcases hc with written | deleted | absent
    · exact written unwritten
    · exact deleted undeleted
    · exact there absent
  · obtain ⟨head, hc, hh⟩ := h.exists_head
    exact ⟨head, hh, hc ▸ asked⟩

section InMemory

variable {σ : Type} {d : Deployer σ} {view : σ → MemoryRemote} {host : σ → MemoryHost}
  (hv : d.services.InMemory view) (hh : d.services.HostInMemory host)
include hh

theorem PublishEnds.home_of_ok {target : Target} {branch : String} {head : Option String}
    {s t : σ} {deployment : Deployment} {events : List DeployEvent}
    (h : PublishEnds d target branch head s (.ok deployment, events, t)) :
    ∃ home, d.settings.hostingProject = some home ∧
      (host t).deployments = (host s).deployments ++ [⟨home, branch, head⟩] := by
  cases h with
  | @made home _ _ home_eq ask =>
    have hp := hh.publish ⟨home, d.settings.repo, branch, head, target⟩ s
    rw [ask] at hp
    exact ⟨home, home_eq, MemoryHost.deployments_of_ok hp.symm⟩

theorem PublishEnds.ok_of_flag {target : Target} {branch home : String} {head : Option String}
    {s : σ}
    {out : Except DeployFailure Deployment × List DeployEvent × σ}
    (h : PublishEnds d target branch head s out) (home_eq : d.settings.hostingProject = some home)
    (flag : (host s).failNext = none) : ∃ deployment, out.1 = .ok deployment := by
  cases h with
  | homeless unset =>
    rw [home_eq] at unset
    cases unset
  | @refused project e t _ ask =>
    have hp := congrArg Prod.fst (hh.publish ⟨project, d.settings.repo, branch, head, target⟩ s)
    rw [ask] at hp
    rcases (host s).deploy_cases ⟨project, d.settings.repo, branch, head, target⟩
      with ⟨_, set, -⟩ | ⟨-, _, he⟩
    · rw [flag] at set
      cases set
    · rw [he] at hp
      cases hp
  | made _ ask => exact ⟨_, rfl⟩

include hv

theorem ExecuteEnds.landing_of_ok {document : Document} {options : DeployOptions}
    {project : Except ProjectError (List Candidate)} {branch : String} {s : σ}
    {out : Outcome σ DeployResult} {result : DeployResult}
    (h : ExecuteEnds d document options project branch s out) (hs : (view s).Sound)
    (real : options.dryRun = false) (ok : out.result = .ok result) :
    ∃ prepared committed deployment home,
      (d.pipeline.prepare options.target document options.overrides project).1 = .ok prepared ∧
      d.settings.hostingProject = some home ∧
      result = resultOf document options.target branch prepared committed deployment ∧
      MemoryRemote.Landing (view s) (view out.state) branch
        (commitMessage document options committed.plan) prepared.retained
        d.pipeline.generator.layout.owns committed ∧
      (host out.state).deployments = (host s).deployments ++ [⟨home, branch, committed.head⟩] := by
  cases h with
  | disowned own => cases ok
  | unprepared own prepare => cases ok
  | rehearsed own prepare dry =>
    rw [real] at dry
    cases dry
  | failed own prepare real ship => cases ok
  | @done prepared committed deployment _ _ _ own prepare real ship =>
    cases ok
    have prepare := congrArg Prod.fst prepare
    have hvl := hv.lock branch s
    have hhl := hh.lock branch s
    cases ship with
    | shipped lock ship =>
      rw [lock] at hvl hhl
      cases ship with
      | done read planned commit publish =>
        rw [hv.snapshot] at read
        cases read
        obtain ⟨rfl, hlands⟩ := commit.lands hv
        obtain ⟨home, home_eq, hasked⟩ := publish.home_of_ok hh
        have hhc := commit.keeps host hh.write
        have hvp := publish.remote hv
        refine ⟨prepared, committed, deployment, home, prepare, home_eq, rfl, ?_, ?_⟩
        · rw [hv.unlock, hvp, ← hvl]
          exact ⟨hvl ▸ hs, Pipeline.prepared_paths_nodup prepare, planned, hlands⟩
        · rw [hh.unlock, hasked, hhc, hhl]

end InMemory

/-- On every branch of every state that the remote can get into, and whatever the document, the
options and the project are. -/
theorem delivered_of_execute_ok (pipeline : Pipeline) (settings : DeploySettings)
    (lockDir : Option String) (document : Document) (options : DeployOptions)
    (project : Except ProjectError (List Candidate)) {w : World τ} {result : DeployResult}
    (hw : w.remote.Reachable) (real : options.dryRun = false)
    (ok : ((⟨pipeline, settings, World.offline lockDir⟩ : Deployer (World τ)).execute
      document options project w).result = .ok result) :
    ∃ prepared home,
      (pipeline.prepare options.target document options.overrides project).1 = .ok prepared ∧
      settings.hostingProject = some home ∧
      Delivered pipeline.generator.layout.owns prepared.retained
        (settings.resolveBranch options.target options.branch) home w
        ((⟨pipeline, settings, World.offline lockDir⟩ : Deployer (World τ)).execute
          document options project w).state result := by
  obtain ⟨prepared, c, deployment, home, prepare, home_eq, rfl, landing, asked⟩ :=
    (execute_ends _ document options project w).landing_of_ok (World.offline_inMemory lockDir)
      (World.offline_hostInMemory lockDir) hw.sound real ok
  exact ⟨prepared, home, prepare, home_eq,
    .of_landing landing document options.target deployment asked⟩

end Deployer

namespace Bakery

def guidePath : SitePath :=
  { text := "docs/guide.md"
    normal := ⟨["docs".toList, "guide.md".toList], by simp, by simp [SitePath.IsSegment], rfl⟩ }

def guide : ListedFile := ⟨guidePath, Text.utf8 "notes", .project⟩

def blank : Document := ⟨[], 0⟩

def settings : DeploySettings := ⟨⟨"acme", "bakery"⟩, "main", "preview", some "bakery"⟩

def pipeline : Pipeline := ⟨⟨.builtin, .standard⟩, .plain⟩

def options (target : Target) (branch : String) : DeployOptions :=
  ⟨target, some branch, false, [], none⟩

def workshop {τ : Type} (connection : τ) : World τ := .ofFiles ⟨"/", []⟩ connection

def closed : World Unit :=
  { workshop () with host := { MemoryHost.empty with failNext := some (.transport "closed") } }

def deployer : Deployer (World Unit) := ⟨pipeline, settings, World.offline none⟩

theorem delivered_preview :
    let out := deployer.execute blank (options .preview "staging") (.ok [guide.candidate]) (workshop ())
    ∃ result prepared, out.result = .ok result ∧
      Deployer.Delivered Layout.standard.owns (Prepared.retained prepared) "staging" "bakery"
        (workshop ()) out.state result := by
  intro out
  obtain ⟨prepared, home, -, home_eq, h⟩ :=
    Deployer.delivered_of_execute_ok pipeline settings none blank (options .preview "staging")
      (.ok [guide.candidate]) (w := workshop ()) ⟨[], rfl⟩ rfl rfl
  cases home_eq
  exact ⟨_, prepared, rfl, h⟩

end Bakery

end SitePublish
