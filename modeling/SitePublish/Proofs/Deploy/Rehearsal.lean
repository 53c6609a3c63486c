import SitePublish.Proofs.Deploy.Delivery
import SitePublish.Proofs.Filter.Rules

/-!
# Rehearsals

A dry run and a real one decide alike whether the branch may be deployed to and what there is to
ship. A dry run ends there. A real run ships just what the dry run reports, and whatever else makes
it fail comes later; so the two fail in the first two phases together, for the same cause.
-/

set_option autoImplicit false

namespace SitePublish

namespace Deployer

variable {σ : Type}

def branchFor (d : Deployer σ) (options : DeployOptions) : String :=
  d.settings.resolveBranch options.target options.branch

/-- What a run decides before it calls on the services. -/
def rehearsal (d : Deployer σ) (document : Document) (options : DeployOptions)
    (project : Except ProjectError (List Candidate)) : Except (Phase × DeployFailure) Prepared :=
  match d.settings.checkOwnership options.target (d.branchFor options) with
  | .error e => .error (.generating, e)
  | .ok () => (d.pipeline.prepare options.target document options.overrides project).1

variable {d : Deployer σ} {document : Document} {options : DeployOptions}
  {project : Except ProjectError (List Candidate)} {s : σ}

theorem rehearsal_dryRun (dryRun : Bool) :
    d.rehearsal document { options with dryRun } project = d.rehearsal document options project :=
  rfl

theorem rehearsal_eq_ok {prepared : Prepared} :
    d.rehearsal document options project = .ok prepared ↔
      d.settings.checkOwnership options.target (d.branchFor options) = .ok () ∧
        ∃ events, d.pipeline.prepare options.target document options.overrides project =
          (.ok prepared, events) := by
  unfold rehearsal
  rcases d.pipeline.prepare options.target document options.overrides project with ⟨result, events⟩
  split
  · next own => simp [own]
  · next own => simp [own]

theorem rehearsal_eq_error {phase : Phase} {e : DeployFailure} :
    d.rehearsal document options project = .error (phase, e) ↔
      (d.settings.checkOwnership options.target (d.branchFor options) = .error e ∧
          phase = .generating) ∨
        (d.settings.checkOwnership options.target (d.branchFor options) = .ok () ∧
          ∃ events, d.pipeline.prepare options.target document options.overrides project =
            (.error (phase, e), events)) := by
  unfold rehearsal
  rcases d.pipeline.prepare options.target document options.overrides project with ⟨result, events⟩
  split
  · next own => simp [own, and_comm, eq_comm]
  · next own => simp [own]

theorem phase_of_rehearsal_error {phase : Phase} {e : DeployFailure}
    (h : d.rehearsal document options project = .error (phase, e)) :
    phase = .generating ∨ phase = .filtering := by
  rcases rehearsal_eq_error.mp h with ⟨-, hp⟩ | ⟨-, events, prepare⟩
  · exact Or.inl hp
  · exact (Pipeline.prepare_error_cases (congrArg Prod.fst prepare)).imp And.left And.left

theorem execute_of_rehearsal_error {phase : Phase} {e : DeployFailure}
    (h : d.rehearsal document options project = .error (phase, e)) :
    (d.execute document options project s).result =
        .error ⟨phase, d.branchFor options, options.dryRun, none, e⟩ ∧
      (d.execute document options project s).state = s := by
  unfold execute
  rcases rehearsal_eq_error.mp h with ⟨own, rfl⟩ | ⟨own, events, prepare⟩
  · rw [branchFor] at own
    simp only [own]
    exact ⟨rfl, rfl⟩
  · rw [branchFor] at own
    simp only [own, prepare]
    exact ⟨rfl, rfl⟩

theorem execute_of_rehearsal_dry {prepared : Prepared}
    (h : d.rehearsal document options project = .ok prepared) (dry : options.dryRun = true) :
    (d.execute document options project s).result =
        .ok (.ofPrepared options.target (d.branchFor options) document prepared) ∧
      (d.execute document options project s).state = s := by
  obtain ⟨own, events, prepare⟩ := rehearsal_eq_ok.mp h
  rw [branchFor] at own
  unfold execute
  simp only [own, prepare, dry, if_true, branchFor, and_self]

theorem execute_of_rehearsal_real {prepared : Prepared}
    (h : d.rehearsal document options project = .ok prepared) (real : options.dryRun = false) :
    (d.execute document options project s).state =
        (d.shipLocked document options (d.branchFor options) prepared s).2.2 ∧
      (d.execute document options project s).result =
        match (d.shipLocked document options (d.branchFor options) prepared s).1 with
        | .error f => .error ⟨f.phase, d.branchFor options, false, f.commit, f.cause⟩
        | .ok (committed, deployment) =>
          .ok (resultOf document options.target (d.branchFor options) prepared committed
            deployment) := by
  obtain ⟨own, events, prepare⟩ := rehearsal_eq_ok.mp h
  rw [branchFor] at own
  unfold execute
  simp only [own, prepare, real, branchFor]
  rcases d.shipLocked document options (d.settings.resolveBranch options.target options.branch)
    prepared s with ⟨fault | ⟨committed, deployment⟩, more, t⟩
  · exact ⟨rfl, rfl⟩
  · exact ⟨rfl, rfl⟩

theorem fingerprint_of_rehearsal {prepared : Prepared}
    (h : d.rehearsal document options project = .ok prepared) :
    prepared.fingerprint = .ofEntries (Prepared.entries prepared.retained) := by
  obtain ⟨-, events, prepare⟩ := rehearsal_eq_ok.mp h
  obtain ⟨generated, files, -, -, rfl⟩ := Pipeline.prepare_eq_ok (congrArg Prod.fst prepare)
  rfl

/-- A real run whose rehearsal succeeds fails only while it ships. -/
theorem phase_of_real_error {prepared : Prepared} {e : DeployError}
    (h : d.rehearsal document options project = .ok prepared) (real : options.dryRun = false)
    (failed : (d.execute document options project s).result = .error e) :
    e.phase = .committing ∨ e.phase = .publishing := by
  have ends := d.shipLocked_ends document options (d.branchFor options) prepared s
  rw [(execute_of_rehearsal_real h real).2] at failed
  rcases hs : d.shipLocked document options (d.branchFor options) prepared s
    with ⟨fault | ⟨committed, deployment⟩, events, t⟩
  · rw [hs] at ends failed
    cases failed
    exact ends.phase_of_error
  · rw [hs] at failed
    cases failed

theorem real_eq_ok {r : DeployResult} (real : options.dryRun = false)
    (ok : (d.execute document options project s).result = .ok r) :
    ∃ prepared committed deployment, d.rehearsal document options project = .ok prepared ∧
      r = resultOf document options.target (d.branchFor options) prepared committed deployment := by
  rcases h : d.rehearsal document options project with ⟨phase, e⟩ | prepared
  · rw [(execute_of_rehearsal_error h).1] at ok
    cases ok
  · rw [(execute_of_rehearsal_real h real).2] at ok
    split at ok
    · cases ok
    · next committed deployment _ =>
      cases ok
      exact ⟨prepared, committed, deployment, rfl, rfl⟩

theorem state_of_dry (dry : options.dryRun = true) :
    (d.execute document options project s).state = s :=
  (d.execute_ends document options project s).state_of_dry dry

theorem dry_error_iff {e : DeployError} :
    (d.execute document { options with dryRun := true } project s).result = .error e ↔
      ∃ f, (d.execute document { options with dryRun := false } project s).result = .error f ∧
        (f.phase = .generating ∨ f.phase = .filtering) ∧ e = { f with dryRun := true } := by
  rcases h : d.rehearsal document options project with ⟨phase, cause⟩ | prepared
  · have dry := (execute_of_rehearsal_error (s := s) ((rehearsal_dryRun true).trans h)).1
    have real := (execute_of_rehearsal_error (s := s) ((rehearsal_dryRun false).trans h)).1
    rw [dry, real]
    constructor
    · rintro ⟨⟩
      exact ⟨_, rfl, phase_of_rehearsal_error h, rfl⟩
    · rintro ⟨f, ⟨⟩, -, rfl⟩
      rfl
  · have dry := (execute_of_rehearsal_dry (s := s) ((rehearsal_dryRun true).trans h) rfl).1
    rw [dry]
    constructor
    · rintro ⟨⟩
    · rintro ⟨f, hf, early, -⟩
      have late := phase_of_real_error ((rehearsal_dryRun false).trans h) rfl hf
      rcases early with hp | hp <;> simp [hp] at late

theorem preview_of_bootstrap_ok {domain : Option String} {overrides : SeoOverrides}
    {b : BootstrapResult}
    (ok : (d.bootstrap document domain overrides project s).result = .ok b) :
    (d.execute document (bootstrapOptions overrides) project s).result = .ok b.preview := by
  have ends := d.bootstrap_ends document domain overrides project s
  generalize d.bootstrap document domain overrides project s = out at ok ends
  cases ends with
  | unready rehearse => cases ok
  | refused rehearse provision => cases ok
  | done rehearse provision =>
    cases ok
    rw [rehearse]

/-- A dry run fails just when the real one fails in the first two phases, and alike. Otherwise it
reports what the real run ships, and all that a real run that succeeds reports of it. It leaves
every service alone, and it is what a bootstrap shows of the initial document. -/
theorem rehearsal_reports_shipment (d : Deployer σ) (document : Document) (options : DeployOptions)
    (project : Except ProjectError (List Candidate)) (s : σ) :
    let dry := d.execute document { options with dryRun := true } project s
    let real := d.execute document { options with dryRun := false } project s
    (∀ e, dry.result = .error e ↔ ∃ f, real.result = .error f ∧
      (f.phase = .generating ∨ f.phase = .filtering) ∧ e = { f with dryRun := true }) ∧
    (∀ p, dry.result = .ok p → ∃ prepared,
      p.files = prepared.retained.map (fun c => c.path.text) ∧
      p.fingerprint = .ofEntries (Prepared.entries prepared.retained) ∧
      real.state = (d.shipLocked document { options with dryRun := false } p.branch prepared
        s).2.2) ∧
    (∀ r, real.result = .ok r → ∃ p, dry.result = .ok p ∧ p.branch = r.branch ∧
      p.files = r.files ∧ p.excluded = r.excluded ∧ p.stats = r.stats ∧
      p.fingerprint = r.fingerprint) ∧
    dry.state = s ∧
    ∀ domain b, (d.bootstrap document domain options.overrides project s).result = .ok b →
      (d.execute document ⟨.production, none, true, options.overrides, options.message⟩ project
        s).result = .ok b.preview := by
  intro dry real
  refine ⟨fun e => dry_error_iff, fun p hp => ?_, fun r hr => ?_, state_of_dry rfl,
    fun domain b hb => ?_⟩
  · rcases h : d.rehearsal document options project with ⟨phase, cause⟩ | prepared
    · have failed := (execute_of_rehearsal_error (s := s) ((rehearsal_dryRun true).trans h)).1
      rw [failed] at hp
      cases hp
    · have ended := (execute_of_rehearsal_dry (s := s) ((rehearsal_dryRun true).trans h) rfl).1
      rw [ended] at hp
      cases hp
      exact ⟨prepared, rfl, fingerprint_of_rehearsal h,
        (execute_of_rehearsal_real ((rehearsal_dryRun false).trans h) rfl).1⟩
  · obtain ⟨prepared, committed, deployment, h, rfl⟩ := real_eq_ok rfl hr
    exact ⟨_, (execute_of_rehearsal_dry ((rehearsal_dryRun true).trans h) rfl).1,
      rfl, rfl, rfl, rfl, rfl⟩
  · have hpreview := preview_of_bootstrap_ok hb
    rcases h : d.rehearsal document (bootstrapOptions options.overrides) project
      with ⟨phase, cause⟩ | prepared
    · rw [(execute_of_rehearsal_error h).1] at hpreview
      cases hpreview
    · rw [(execute_of_rehearsal_dry h rfl).1] at hpreview
      rw [← hpreview]
      exact (execute_of_rehearsal_dry h rfl).1

end Deployer

namespace Bakery

theorem rehearsal_reports_guide :
    let run (dryRun : Bool) := deployer.execute blank { options .preview "staging" with dryRun }
      (.ok [guide.candidate]) (workshop ())
    ∃ p r, (run true).result = .ok p ∧ (run false).result = .ok r ∧ p.files = r.files ∧
      p.fingerprint = r.fingerprint := by
  intro run
  obtain ⟨r, hr⟩ : ∃ r, (run false).result = .ok r := ⟨_, rfl⟩
  obtain ⟨-, -, agree, -⟩ := Deployer.rehearsal_reports_shipment deployer blank
    (options .preview "staging") (.ok [guide.candidate]) (workshop ())
  obtain ⟨p, hp, -, hfiles, -, -, hfingerprint⟩ := agree r hr
  exact ⟨p, r, hp, hr, hfiles, hfingerprint⟩

def indexPath : SitePath :=
  { text := "src/data/pages/_index.ts"
    normal := ⟨["src".toList, "data".toList, "pages".toList, "_index.ts".toList], by simp,
      by simp [SitePath.IsSegment], rfl⟩ }

def index : GeneratedFile := ⟨indexPath, Generator.indexModule indexPath []⟩

theorem generate_blank : pipeline.generator.generate blank [] = .ok [index] := by
  decide +kernel

theorem index_unmarked : ¬ ProductionFilter.Marked (some index.content) := by
  apply ProductionFilter.not_marked_of_free
  change '@' ∉ (Generator.header ++ "\n\n" ++ "" ++ "" ++ "export const pages = \x7b\n" ++ "" ++
    "\x7d as const;\n\nexport default pages;\n").toList
  simp only [Generator.header, String.toList_append, List.mem_append, not_or,
    -String.reduceToList, -String.reduceAppend]
  rw [String.toList_ofList, String.toList_ofList, String.toList_ofList, String.toList_ofList,
    String.toList_ofList]
  decide

theorem classify_index : pipeline.filter.classifyCandidate index.toCandidate =
    ⟨index.toCandidate, .take .siteContent "site content"⟩ := by
  have unread : ¬ ProductionFilter.Marked none := by
    rintro ⟨_, ⟨⟩, -⟩
  have taken : pipeline.filter.classify indexPath.text none = .take .siteContent "site content" := by
    decide +kernel
  rw [← pipeline.filter.classify_congr indexPath.text index_unmarked unread] at taken
  exact congrArg (Classified.mk index.toCandidate) taken

theorem classify_guide : pipeline.filter.classifyCandidate guide.candidate =
    ⟨guide.candidate, .drop .nonProject "documentation"⟩ := by
  have dropped : pipeline.filter.classify guidePath.text (some "notes") =
      .drop .nonProject "documentation" := by
    decide +kernel
  exact congrArg (Classified.mk guide.candidate) dropped

def bareBatch : FilterBatch Candidate :=
  .ofClassified [⟨index.toCandidate, .take .siteContent "site content"⟩]

def guideBatch : FilterBatch Candidate :=
  .ofClassified [⟨guide.candidate, .drop .nonProject "documentation"⟩,
    ⟨index.toCandidate, .take .siteContent "site content"⟩]

theorem batch_bare : pipeline.batch [] [index] = bareBatch := by
  have merged : mergeCandidates [] [index.toCandidate] = [index.toCandidate] := by decide
  rw [Pipeline.batch, List.map_singleton, merged, ProductionFilter.classifyCandidates,
    List.map_singleton, classify_index, bareBatch]

theorem batch_guide {files : List Candidate}
    (merged : mergeCandidates files [index.toCandidate] = [guide.candidate, index.toCandidate]) :
    pipeline.batch files [index] = guideBatch := by
  rw [Pipeline.batch, List.map_singleton, merged, ProductionFilter.classifyCandidates,
    List.map_cons, List.map_singleton, classify_guide, classify_index, guideBatch]

theorem rehearsal_blank {σ : Type} {d : Deployer σ} {options : DeployOptions}
    {files : List Candidate} {b : FilterBatch Candidate} (standard : d.pipeline = pipeline)
    (plain : options.overrides = [])
    (own : d.settings.checkOwnership options.target (d.branchFor options) = .ok ())
    (batch : pipeline.batch files [index] = b) (kept : Pipeline.droppedFile b = none) :
    d.rehearsal blank options (.ok files) = .ok (.ofBatch options.target b) := by
  rw [Deployer.rehearsal, own, standard, plain, Pipeline.prepare, generate_blank]
  dsimp only
  rw [Pipeline.select, batch, kept]
  cases options.target <;> rfl

end Bakery

end SitePublish
