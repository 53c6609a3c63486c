import SitePublish.Proofs.Deploy.Rehearsal
import SitePublish.Proofs.Page.Fault

/-!
# Generated files over those of a project

A generated file takes the place of a file of the project at its path. The filter then decides about
each file that is left, and no page is published by halves: either all generated files ship, each as
it was generated, or a production deployment fails over the first one that the filter excludes. A
preview ships whatever the filter excludes as well.
-/

set_option autoImplicit false

namespace SitePublish

/-- A file that the filter decides about: a generated one, or one of the project with no generated
one at its path, the last where the project has the path several times. -/
inductive Offered (files : List Candidate) (generated : List GeneratedFile) : Candidate → Prop
  | generated {g : GeneratedFile} (mem : g ∈ generated) :
      Offered files generated ⟨g.path, .text g.content, .generated⟩
  | project {before after : List Candidate} {c : Candidate} (split : files = before ++ c :: after)
      (last : ∀ later ∈ after, later.path ≠ c.path) (free : ∀ g ∈ generated, g.path ≠ c.path) :
      Offered files generated c

/-- How the files fall into those that ship and those that are reported as excluded. -/
structure Sifted (f : ProductionFilter) (target : Target) (files : List Candidate)
    (generated : List GeneratedFile) (shipped : List Candidate) (excluded : List ExcludedFile) :
    Prop where
  shipped_sorted : (shipped.map fun c => c.path.text).Pairwise (· < ·)
  mem_shipped : ∀ c, c ∈ shipped ↔ Offered files generated c ∧
    (target = .production → (f.classifyCandidate c).decision.included = true)
  /-- No generated file is left out. -/
  whole : ∀ g ∈ generated, ⟨g.path, .text g.content, .generated⟩ ∈ shipped
  excluded_sorted : (excluded.map ExcludedFile.path).Pairwise (· < ·)
  mem_excluded : ∀ e, e ∈ excluded ↔ ∃ c, Offered files generated c ∧
    (f.classifyCandidate c).decision.included = false ∧ e = .ofClassified (f.classifyCandidate c)

/-- The excluded file marked as generated that has the smallest path. -/
structure FirstDropped (f : ProductionFilter) (files : List Candidate)
    (generated : List GeneratedFile) (c : Candidate) : Prop where
  offered : Offered files generated c
  marked : c.origin = .generated
  excluded : (f.classifyCandidate c).decision.included = false
  first : ∀ c', Offered files generated c' → c'.origin = .generated → c'.path.text < c.path.text →
    (f.classifyCandidate c').decision.included = true

theorem FirstDropped.exists_generated {f : ProductionFilter} {files : List Candidate}
    {generated : List GeneratedFile} {c : Candidate} (h : FirstDropped f files generated c)
    (listed : ∀ f ∈ files, f.origin = .project) :
    ∃ g ∈ generated, c = ⟨g.path, .text g.content, .generated⟩ := by
  have marked := h.marked
  cases h.offered with
  | @generated g mem => exact ⟨g, mem, rfl⟩
  | project split last free =>
    rw [listed c (by simp [split])] at marked
    cases marked

@[simp] theorem ProductionFilter.file_classifyCandidate (f : ProductionFilter) (c : Candidate) :
    (f.classifyCandidate c).file = c := rfl

namespace Pipeline

variable {p : Pipeline} {target : Target} {files : List Candidate} {generated : List GeneratedFile}

theorem mem_merged_iff (distinct : (generated.map GeneratedFile.path).Nodup) {c : Candidate} :
    c ∈ merged files generated ↔ Offered files generated c := by
  rw [merged, mem_mergeCandidates_iff]
  constructor
  · rintro (⟨before, after, split, -⟩ | ⟨free, before, after, split, last⟩)
    · have mem : c ∈ generated.map GeneratedFile.toCandidate := by simp [split]
      obtain ⟨g, hg, rfl⟩ := List.mem_map.mp mem
      exact .generated hg
    · exact .project split last (by simpa [GeneratedFile.toCandidate] using free)
  · intro offered
    cases offered with
    | @generated g mem =>
      refine Or.inl (Candidate.lastIn_of_mem ?_ (List.mem_map_of_mem mem))
      rwa [List.map_map]
    | @project before after c split last free =>
      refine Or.inr ⟨by simpa [GeneratedFile.toCandidate] using free, before, after, split, last⟩

theorem offered_unique (distinct : (generated.map GeneratedFile.path).Nodup) {c c' : Candidate}
    (h : Offered files generated c) (h' : Offered files generated c') (same : c.path = c'.path) :
    c = c' :=
  List.inj_on_of_nodup_map (mergeCandidates_nodup _ _) ((mem_merged_iff distinct).mpr h)
    ((mem_merged_iff distinct).mpr h') same

theorem firstDropped_unique {f : ProductionFilter}
    (distinct : (generated.map GeneratedFile.path).Nodup)
    {c c' : Candidate} (h : FirstDropped f files generated c)
    (h' : FirstDropped f files generated c') : c = c' := by
  have not_before {a b : Candidate} (ha : FirstDropped f files generated a)
      (hb : FirstDropped f files generated b) : ¬ a.path.text < b.path.text := by
    intro smaller
    have included := hb.first a ha.offered ha.marked smaller
    rw [ha.excluded] at included
    cases included
  have same : c.path.text = c'.path.text :=
    le_antisymm (not_lt.mp (not_before h' h)) (not_lt.mp (not_before h h'))
  exact offered_unique distinct h.offered h'.offered (SitePath.text_injective same)

theorem exists_offered_iff (distinct : (generated.map GeneratedFile.path).Nodup) {path : String} :
    (∃ c, Offered files generated c ∧ c.path.text = path) ↔
      path ∈ files.map (fun c => c.path.text) ∨ path ∈ generated.map fun g => g.path.text := by
  simp only [← mem_merged_iff distinct]
  constructor
  · rintro ⟨c, hc, rfl⟩
    rcases mem_mergeCandidates_paths.mp (List.mem_map_of_mem hc) with lower | upper
    · obtain ⟨f, hf, same⟩ := List.mem_map.mp lower
      exact Or.inl (List.mem_map.mpr ⟨f, hf, congrArg SitePath.text same⟩)
    · rw [List.map_map] at upper
      obtain ⟨g, hg, same⟩ := List.mem_map.mp upper
      exact Or.inr (List.mem_map.mpr ⟨g, hg, congrArg SitePath.text same⟩)
  · have there {path : SitePath} (h : path ∈ files.map Candidate.path ∨
        path ∈ (generated.map GeneratedFile.toCandidate).map Candidate.path) :
        ∃ c ∈ merged files generated, c.path.text = path.text := by
      obtain ⟨c, hc, rfl⟩ := List.mem_map.mp (mem_mergeCandidates_paths.mpr h)
      exact ⟨c, hc, rfl⟩
    rintro (lower | upper)
    · obtain ⟨f, hf, rfl⟩ := List.mem_map.mp lower
      exact there (Or.inl (List.mem_map_of_mem hf))
    · obtain ⟨g, hg, rfl⟩ := List.mem_map.mp upper
      exact there (Or.inr (List.mem_map_of_mem (List.mem_map_of_mem hg)))

theorem mem_batch_excluded_iff {k : Classified Candidate} :
    k ∈ (p.batch files generated).excluded ↔ ∃ c ∈ merged files generated,
      (p.filter.classifyCandidate c).decision.included = false ∧ p.filter.classifyCandidate c = k := by
  rw [batch_excluded, List.mem_filter, List.mem_map]
  constructor
  · rintro ⟨⟨c, hc, rfl⟩, excluded⟩
    exact ⟨c, hc, by simpa using excluded, rfl⟩
  · rintro ⟨c, hc, excluded, rfl⟩
    exact ⟨⟨c, hc, rfl⟩, by simp [excluded]⟩

theorem batch_excluded_sorted :
    (p.batch files generated).excluded.Pairwise fun k k' => k.file.path.text < k'.file.path.text := by
  have sorted := List.pairwise_map.mp
    (mergeCandidates_sorted files (generated.map GeneratedFile.toCandidate))
  rw [batch_excluded]
  apply List.Pairwise.filter
  rw [List.pairwise_map]
  exact sorted

theorem excluded_paths_sorted :
    ((Prepared.ofBatch target (p.batch files generated)).excluded.map
      ExcludedFile.path).Pairwise (· < ·) := by
  rw [Prepared.excluded_ofBatch, List.map_map, List.pairwise_map]
  exact batch_excluded_sorted

theorem mem_excluded_iff {e : ExcludedFile} :
    e ∈ (Prepared.ofBatch target (p.batch files generated)).excluded ↔
      ∃ c ∈ merged files generated, (p.filter.classifyCandidate c).decision.included = false ∧
        e = .ofClassified (p.filter.classifyCandidate c) := by
  rw [Prepared.excluded_ofBatch, List.mem_map]
  constructor
  · rintro ⟨k, hk, rfl⟩
    obtain ⟨c, hc, excluded, rfl⟩ := mem_batch_excluded_iff.mp hk
    exact ⟨c, hc, excluded, rfl⟩
  · rintro ⟨c, hc, excluded, rfl⟩
    exact ⟨_, mem_batch_excluded_iff.mpr ⟨c, hc, excluded, rfl⟩, rfl⟩

theorem firstDropped_of_droppedFile (distinct : (generated.map GeneratedFile.path).Nodup)
    {k : Classified Candidate} (dropped : droppedFile (p.batch files generated) = some k) :
    ∃ c, FirstDropped p.filter files generated c ∧ p.filter.classifyCandidate c = k := by
  obtain ⟨marked, before, after, split, unmarked⟩ := List.find?_eq_some_iff_append.mp dropped
  have mem : k ∈ (p.batch files generated).excluded := by simp [split]
  obtain ⟨c, hc, excluded, rfl⟩ := mem_batch_excluded_iff.mp mem
  refine ⟨c, ⟨(mem_merged_iff distinct).mp hc, of_decide_eq_true marked, excluded, ?_⟩, rfl⟩
  intro c' offered marked' smaller
  by_contra excluded'
  have mem' : p.filter.classifyCandidate c' ∈ (p.batch files generated).excluded :=
    mem_batch_excluded_iff.mpr
      ⟨c', (mem_merged_iff distinct).mpr offered, by simpa using excluded', rfl⟩
  have sorted := @batch_excluded_sorted p files generated
  rw [split] at mem' sorted
  -- In order, a file with a smaller path stands in front, where none is marked.
  rcases List.mem_append.mp mem' with front | behind
  · have := unmarked _ front
    simp [marked'] at this
  · have least := (List.pairwise_cons.mp (List.pairwise_append.mp sorted).2.1).1
    rcases List.mem_cons.mp behind with same | later
    · have samePath : c'.path.text = c.path.text := congrArg (fun k => k.file.path.text) same
      exact smaller.ne samePath
    · exact lt_asymm smaller (least _ later)

theorem included_of_no_droppedFile (none : droppedFile (p.batch files generated) = none)
    {c : Candidate} (mem : c ∈ merged files generated) (marked : c.origin = .generated) :
    (p.filter.classifyCandidate c).decision.included = true := by
  by_contra excluded
  refine List.find?_eq_none.mp none (p.filter.classifyCandidate c) ?_ ?_
  · exact mem_batch_excluded_iff.mpr ⟨c, mem, by simpa using excluded, rfl⟩
  · exact decide_eq_true marked

theorem sifted_of_select (distinct : (generated.map GeneratedFile.path).Nodup) {prepared : Prepared}
    (selected : p.select target files generated = .ok prepared) :
    Sifted p.filter target files generated prepared.retained prepared.excluded := by
  obtain ⟨kept, rfl⟩ := select_eq_ok_iff.mp selected
  have shipped (c : Candidate) :
      c ∈ (Prepared.ofBatch target (p.batch files generated)).retained ↔
        Offered files generated c ∧
          (target = .production → (p.filter.classifyCandidate c).decision.included = true) := by
    rw [mem_retained_iff, mem_merged_iff distinct]
    exact Iff.rfl
  refine {
    shipped_sorted := p.retained_sorted target files generated
    mem_shipped := shipped
    whole := fun g hg => (shipped _).mpr ⟨.generated hg, fun production => ?_⟩
    excluded_sorted := excluded_paths_sorted
    mem_excluded := fun e => by simp only [mem_excluded_iff, mem_merged_iff distinct] }
  apply included_of_no_droppedFile (kept production) _ rfl
  exact (mem_merged_iff distinct).mpr (.generated hg)

end Pipeline

namespace Sifted

variable {f : ProductionFilter} {target : Target} {files shipped : List Candidate}
  {generated : List GeneratedFile} {excluded : List ExcludedFile}
  (h : Sifted f target files generated shipped excluded)
include h

theorem mem_excluded_paths {path : String} : path ∈ excluded.map ExcludedFile.path ↔
    ∃ c, Offered files generated c ∧ (f.classifyCandidate c).decision.included = false ∧
      c.path.text = path := by
  rw [List.mem_map]
  constructor
  · rintro ⟨e, he, rfl⟩
    obtain ⟨c, offered, dropped, rfl⟩ := (h.mem_excluded e).mp he
    exact ⟨c, offered, dropped, rfl⟩
  · rintro ⟨c, offered, dropped, rfl⟩
    exact ⟨_, (h.mem_excluded _).mpr ⟨c, offered, dropped, rfl⟩, rfl⟩

theorem union (distinct : (generated.map GeneratedFile.path).Nodup) (path : String) :
    path ∈ shipped.map (fun c => c.path.text) ∨ path ∈ excluded.map ExcludedFile.path ↔
      path ∈ files.map (fun c => c.path.text) ∨ path ∈ generated.map fun g => g.path.text := by
  rw [← Pipeline.exists_offered_iff distinct, h.mem_excluded_paths]
  constructor
  · rintro (there | ⟨c, offered, -, same⟩)
    · obtain ⟨c, hc, same⟩ := List.mem_map.mp there
      exact ⟨c, ((h.mem_shipped c).mp hc).1, same⟩
    · exact ⟨c, offered, same⟩
  · rintro ⟨c, offered, rfl⟩
    by_cases included : (f.classifyCandidate c).decision.included = true
    · exact Or.inl (List.mem_map_of_mem ((h.mem_shipped c).mpr ⟨offered, fun _ => included⟩))
    · exact Or.inr ⟨c, offered, by simpa using included, rfl⟩

theorem disjoint (distinct : (generated.map GeneratedFile.path).Nodup)
    (production : target = .production) :
    (shipped.map fun c => c.path.text).Disjoint (excluded.map ExcludedFile.path) := by
  intro path there here
  obtain ⟨c, hc, rfl⟩ := List.mem_map.mp there
  obtain ⟨offered, included⟩ := (h.mem_shipped c).mp hc
  obtain ⟨c', offered', dropped, same⟩ := h.mem_excluded_paths.mp here
  have one : c' = c :=
    Pipeline.offered_unique distinct offered' offered (SitePath.text_injective same)
  rw [one, included production] at dropped
  cases dropped

theorem contained (preview : target = .preview) :
    excluded.map ExcludedFile.path ⊆ shipped.map fun c => c.path.text := by
  intro path there
  obtain ⟨c, offered, -, rfl⟩ := h.mem_excluded_paths.mp there
  refine List.mem_map_of_mem ((h.mem_shipped c).mpr ⟨offered, fun production => ?_⟩)
  rw [preview] at production
  cases production

end Sifted

namespace Deployer

variable {σ : Type} {d : Deployer σ} {document : Document} {options : DeployOptions}
  {project : Except ProjectError (List Candidate)} {s : σ}

/-- A commit that leaves each of the files on the branch: the snapshot shows the blob of the file, or
the commit puts the file there, and nothing else is written to its path. -/
inductive Brought (d : Deployer σ) (branch : String) (snapshot : Option Snapshot)
    (shipped : List Candidate) : σ → σ → Prop
  | there {s : σ}
      (same : ∀ f ∈ shipped, (CommitPlan.blobsOf snapshot).get? f.path = some f.blob) :
      Brought d branch snapshot shipped s s
  | written {writes : List FileWrite} {message : String} {receipt : CommitReceipt} {s t : σ}
      (write : d.services.write branch (snapshot.map Snapshot.head) writes message s =
        (.ok receipt, t))
      (put : ∀ f ∈ shipped, (CommitPlan.blobsOf snapshot).get? f.path = some f.blob ∨
        ⟨f.path, .put f.content⟩ ∈ writes)
      (only : ∀ f ∈ shipped, ∀ w ∈ writes, w.path = f.path → w.change = .put f.content) :
      Brought d branch snapshot shipped s t

/-- The calls from one state to the other bring the files to the branch and publish it. -/
def Publishes (d : Deployer σ) (target : Target) (branch : String) (shipped : List Candidate)
    (s s' : σ) : Prop :=
  ∃ snapshot head home deployment t u v w, d.services.lock branch s = (.ok (), t) ∧
    d.services.snapshot branch t = (.ok snapshot, u) ∧ Brought d branch snapshot shipped u v ∧
    d.services.publish ⟨home, d.settings.repo, branch, head, target⟩ v = (.ok deployment, w) ∧
    s' = d.services.unlock branch w

theorem CommitEnds.brought {branch message : String} {prepared : Prepared}
    {snapshot : Option Snapshot} {u v : σ} {committed : Committed} {events : List DeployEvent}
    (h : CommitEnds d branch message (d.planFor prepared snapshot) u (.ok committed, events, v))
    (distinct : (prepared.retained.map Candidate.path).Nodup) :
    Brought d branch snapshot prepared.retained u v := by
  have same_iff (f : Candidate) : ¬ f.differs (CommitPlan.blobsOf snapshot) = true ↔
      (CommitPlan.blobsOf snapshot).get? f.path = some f.blob := by
    simp [Candidate.differs]
  cases h with
  | skipped noop =>
    have idle := ((CommitPlan.isNoop_ofSnapshot ..).mp noop).2.1
    exact .there fun f hf => (same_iff f).mp (List.filter_eq_nil_iff.mp idle f hf)
  | made noop write =>
    refine .written write (fun f hf => ?_) fun f hf w hw at_path => ?_
    · by_cases differs : f.differs (CommitPlan.blobsOf snapshot) = true
      · exact Or.inr (CommitPlan.mem_writes.mpr (Or.inl ⟨f, hf, differs, rfl⟩))
      · exact Or.inl ((same_iff f).mp differs)
    · rcases CommitPlan.mem_writes.mp hw with ⟨c, hc, -, rfl⟩ | ⟨deleted, -⟩
      · cases List.inj_on_of_nodup_map distinct hc hf at_path
        rfl
      · exact absurd at_path.symm ((CommitPlan.mem_deletions.mp deleted).2.1 f hf)

theorem LockedEnds.publishes {branch : String} {prepared : Prepared} {committed : Committed}
    {deployment : Deployment} {events : List DeployEvent} {t : σ}
    (h : LockedEnds d document options branch prepared s (.ok (committed, deployment), events, t))
    (distinct : (prepared.retained.map Candidate.path).Nodup) :
    Publishes d options.target branch prepared.retained s t := by
  cases h with
  | shipped lock ship =>
    cases ship with
    | done read planned commit publish =>
      subst planned
      cases publish with
      | made home ask =>
        exact ⟨_, _, _, _, _, _, _, _, lock, read, commit.brought distinct, ask, rfl⟩

/-- A run that has been rehearsed reports the files that it was rehearsed with and brings them to the
branch, or it fails over something else than a file. -/
theorem ends_of_rehearsal {prepared : Prepared}
    (h : d.rehearsal document options project = .ok prepared) :
    (∃ r, (d.execute document options project s).result = .ok r ∧
      r.files = prepared.retained.map (fun c => c.path.text) ∧ r.excluded = prepared.excluded ∧
      r.fingerprint = prepared.fingerprint ∧
      (options.dryRun = false → Publishes d options.target (d.branchFor options) prepared.retained s
        (d.execute document options project s).state)) ∨
    ∃ e, (d.execute document options project s).result = .error e ∧
      ∀ path rule reason, e.cause ≠ .generatedFileExcluded path rule reason := by
  by_cases dry : options.dryRun = true
  · refine Or.inl ⟨_, (execute_of_rehearsal_dry h dry).1, rfl, rfl, rfl, fun real => ?_⟩
    rw [real] at dry
    cases dry
  · have real : options.dryRun = false := by simpa using dry
    obtain ⟨-, events, prepare⟩ := rehearsal_eq_ok.mp h
    have distinct := Pipeline.prepared_paths_nodup (congrArg Prod.fst prepare)
    have ends := d.shipLocked_ends document options (d.branchFor options) prepared s
    obtain ⟨state, result⟩ := execute_of_rehearsal_real (s := s) h real
    rw [state, result]
    rcases hs : d.shipLocked document options (d.branchFor options) prepared s
      with ⟨fault | ⟨committed, deployment⟩, events, t⟩
    · rw [hs] at ends
      exact Or.inr ⟨_, rfl, ends.not_generatedFileExcluded⟩
    · rw [hs] at ends
      exact Or.inl ⟨_, rfl, rfl, rfl, rfl, fun _ => ends.publishes distinct⟩

theorem rehearsal_of_ok {r : DeployResult}
    (ok : (d.execute document options project s).result = .ok r) :
    ∃ prepared, d.rehearsal document options project = .ok prepared ∧
      r.files = prepared.retained.map (fun c => c.path.text) ∧ r.excluded = prepared.excluded ∧
      r.fingerprint = prepared.fingerprint ∧
      (options.dryRun = false → Publishes d options.target (d.branchFor options) prepared.retained s
        (d.execute document options project s).state) := by
  rcases h : d.rehearsal document options project with ⟨phase, e⟩ | prepared
  · rw [(execute_of_rehearsal_error h).1] at ok
    cases ok
  · rcases ends_of_rehearsal (s := s) h with ⟨r', ended, reported⟩ | ⟨e, failed, -⟩
    · cases ok.symm.trans ended
      exact ⟨prepared, rfl, reported⟩
    · cases ok.symm.trans failed

theorem rehearsal_of_generatedFileExcluded {e : DeployError} {path : String} {rule : FilterRule}
    {reason : String} (failed : (d.execute document options project s).result = .error e)
    (cause : e.cause = .generatedFileExcluded path rule reason) :
    d.rehearsal document options project =
      .error (e.phase, .generatedFileExcluded path rule reason) := by
  rcases h : d.rehearsal document options project with ⟨phase, failure⟩ | prepared
  · cases failed.symm.trans (execute_of_rehearsal_error h).1
    exact congrArg (fun c => Except.error (phase, c)) cause
  · rcases ends_of_rehearsal (s := s) h with ⟨r, ended, -⟩ | ⟨e', failed', other⟩
    · cases failed.symm.trans ended
    · cases failed.symm.trans failed'
      exact absurd cause (other path rule reason)

theorem sifted_of_rehearsal {prepared : Prepared}
    (h : d.rehearsal document options project = .ok prepared) :
    ∃ files generated, project = .ok files ∧
      d.pipeline.generator.generate document options.overrides = .ok generated ∧
      (generated.map GeneratedFile.path).Nodup ∧
      Sifted d.pipeline.filter options.target files generated prepared.retained
        prepared.excluded := by
  obtain ⟨-, events, prepare⟩ := rehearsal_eq_ok.mp h
  obtain ⟨generated, files, hg, hf, selected⟩ :=
    Pipeline.select_of_prepare_ok (congrArg Prod.fst prepare)
  have distinct := Generator.nodup_paths_of_generate hg
  exact ⟨files, generated, hf, hg, distinct, Pipeline.sifted_of_select distinct selected⟩

theorem firstDropped_of_rehearsal {phase : Phase} {path : String} {rule : FilterRule}
    {reason : String} (h : d.rehearsal document options project =
      .error (phase, .generatedFileExcluded path rule reason)) :
    phase = .filtering ∧ options.target = .production ∧ ∃ files generated c, project = .ok files ∧
      d.pipeline.generator.generate document options.overrides = .ok generated ∧
      FirstDropped d.pipeline.filter files generated c ∧
      ExcludedFile.ofClassified (d.pipeline.filter.classifyCandidate c) = ⟨path, rule, reason⟩ := by
  rcases rehearsal_eq_error.mp h with ⟨own, -⟩ | ⟨-, events, prepare⟩
  · simp only [DeploySettings.checkOwnership] at own
    split at own <;> cases own
  · obtain ⟨rfl, generated, files, hg, hf, refused⟩ :=
      Pipeline.select_of_prepare_error (congrArg Prod.fst prepare)
    obtain ⟨production, k, dropped, cause⟩ := Pipeline.select_eq_error_iff.mp refused
    obtain ⟨c, first, rfl⟩ :=
      Pipeline.firstDropped_of_droppedFile (Generator.nodup_paths_of_generate hg) dropped
    cases cause
    exact ⟨rfl, production, files, generated, c, hf, hg, first, rfl⟩

theorem rehearsal_of_firstDropped {files : List Candidate} {generated : List GeneratedFile}
    {c : Candidate} (production : options.target = .production)
    (generate : d.pipeline.generator.generate document options.overrides = .ok generated)
    (first : FirstDropped d.pipeline.filter files generated c) :
    d.rehearsal document options (.ok files) = .error (.filtering, .generatedFileExcluded
      c.path.text (d.pipeline.filter.classifyCandidate c).decision.rule
      (d.pipeline.filter.classifyCandidate c).decision.reason) := by
  have distinct := Generator.nodup_paths_of_generate generate
  have own : d.settings.checkOwnership options.target (d.branchFor options) = .ok () := by
    rw [DeploySettings.checkOwnership, production]
    rfl
  have refused : d.pipeline.select options.target files generated = .error (.generatedFileExcluded
      c.path.text (d.pipeline.filter.classifyCandidate c).decision.rule
      (d.pipeline.filter.classifyCandidate c).decision.reason) := by
    refine Pipeline.select_eq_error_iff.mpr ⟨production, ?_⟩
    cases dropped : Pipeline.droppedFile (d.pipeline.batch files generated) with
    | none =>
      have there := (Pipeline.mem_merged_iff distinct).mpr first.offered
      have included := Pipeline.included_of_no_droppedFile dropped there first.marked
      rw [first.excluded] at included
      cases included
    | some k =>
      obtain ⟨c', first', rfl⟩ := Pipeline.firstDropped_of_droppedFile distinct dropped
      obtain rfl := Pipeline.firstDropped_unique distinct first first'
      exact ⟨_, rfl, rfl⟩
  unfold rehearsal Pipeline.prepare
  simp only [own, generate, refused]

/-- A deployment that succeeds ships every generated file as it was generated, whatever the project
has at its path; what ships and what is reported as excluded is in order and makes up all paths of
the project and of the generated files, apart for production and one within the other for a preview.
One that fails over an excluded file is for production, and names the first generated file that the
filter excludes. -/
theorem generated_files_whole (d : Deployer σ) (document : Document) (options : DeployOptions)
    (project : Except ProjectError (List Candidate)) (s : σ) :
    (∀ r, (d.execute document options project s).result = .ok r →
      ∃ files generated shipped, project = .ok files ∧
        d.pipeline.generator.generate document options.overrides = .ok generated ∧
        r.files = shipped.map (fun c => c.path.text) ∧
        r.fingerprint = .ofEntries (Prepared.entries shipped) ∧
        Sifted d.pipeline.filter options.target files generated shipped r.excluded ∧
        (options.dryRun = false → Publishes d options.target (d.branchFor options) shipped s
          (d.execute document options project s).state) ∧
        (∀ path, path ∈ r.files ∨ path ∈ r.excluded.map ExcludedFile.path ↔
          path ∈ files.map (fun c => c.path.text) ∨ path ∈ generated.map fun g => g.path.text) ∧
        (options.target = .production →
          r.files.Disjoint (r.excluded.map ExcludedFile.path)) ∧
        (options.target = .preview → r.excluded.map ExcludedFile.path ⊆ r.files)) ∧
    ∀ e path rule reason, (d.execute document options project s).result = .error e →
      e.cause = .generatedFileExcluded path rule reason →
      e.phase = .filtering ∧ options.target = .production ∧ ∃ files generated c,
        project = .ok files ∧
        d.pipeline.generator.generate document options.overrides = .ok generated ∧
        FirstDropped d.pipeline.filter files generated c ∧
        ExcludedFile.ofClassified (d.pipeline.filter.classifyCandidate c) = ⟨path, rule, reason⟩ ∧
        ((∀ f ∈ files, f.origin = .project) →
          ∃ g ∈ generated, c = ⟨g.path, .text g.content, .generated⟩) := by
  constructor
  · intro r ok
    obtain ⟨prepared, rehearsal, hfiles, hexcluded, hfingerprint, published⟩ := rehearsal_of_ok ok
    obtain ⟨files, generated, hf, hg, distinct, sifted⟩ := sifted_of_rehearsal rehearsal
    rw [hfiles, hexcluded, hfingerprint, fingerprint_of_rehearsal rehearsal]
    exact ⟨files, generated, prepared.retained, hf, hg, rfl, rfl, sifted, published,
      sifted.union distinct, sifted.disjoint distinct, sifted.contained⟩
  · intro e path rule reason failed cause
    obtain ⟨phase, production, files, generated, c, hf, hg, first, blamed⟩ :=
      firstDropped_of_rehearsal (rehearsal_of_generatedFileExcluded failed cause)
    exact ⟨phase, production, files, generated, c, hf, hg, first, blamed, first.exists_generated⟩

end Deployer

namespace Bakery

def oldIndex : ListedFile := ⟨indexPath, Text.utf8 "old", .project⟩

def editor : Document := ⟨[("editor", ⟨[], none⟩)], 0⟩

def overOldIndex (document : Document) : Outcome (World Unit) DeployResult :=
  deployer.execute document (options .production "main")
    (.ok [guide.candidate, oldIndex.candidate]) (workshop ())

theorem overOldIndex_isOk : (overOldIndex blank).result.isOk = true := by
  have rehearsed : deployer.rehearsal blank (options .production "main")
      (.ok [guide.candidate, oldIndex.candidate]) = .ok (.ofBatch .production guideBatch) :=
    rehearsal_blank rfl rfl rfl (batch_guide (by decide)) rfl
  rw [overOldIndex, (Deployer.execute_of_rehearsal_real rehearsed rfl).2]
  decide

theorem index_whole_and_editor_refused :
    (∃ r generated shipped, (overOldIndex blank).result = .ok r ∧
      pipeline.generator.generate blank [] = .ok generated ∧
      (∀ g ∈ generated, ⟨g.path, .text g.content, .generated⟩ ∈ shipped) ∧
      r.files = shipped.map (fun c => c.path.text) ∧
      deployer.Publishes .production "main" shipped (workshop ()) (overOldIndex blank).state) ∧
    ∃ e generated c, (overOldIndex editor).result = .error e ∧ e.phase = .filtering ∧
      FirstDropped pipeline.filter [guide.candidate, oldIndex.candidate] generated c ∧
      c.path.text = "src/app/editor/page.tsx" ∧
      ∃ g ∈ generated, c = ⟨g.path, .text g.content, .generated⟩ := by
  have listed : ∀ f ∈ [guide.candidate, oldIndex.candidate], f.origin = .project := by
    simp [ListedFile.candidate, guide, oldIndex]
  constructor
  · obtain ⟨r, hr⟩ := exists_of_isOk overOldIndex_isOk
    obtain ⟨files, generated, shipped, -, hg, hfiles, -, sifted, published, -⟩ :=
      (Deployer.generated_files_whole deployer blank (options .production "main")
        (.ok [guide.candidate, oldIndex.candidate]) (workshop ())).1 r hr
    exact ⟨r, generated, shipped, hr, hg, sifted.whole, hfiles, published rfl⟩
  · have failed : (overOldIndex editor).result = .error ⟨.filtering, "main", false, none,
        .generatedFileExcluded "src/app/editor/page.tsx" .editorUi
          "editor UI source (app/editor/)"⟩ := by
      decide +kernel
    obtain ⟨phase, -, files, generated, c, hf, -, first, blamed, produced⟩ :=
      (Deployer.generated_files_whole deployer editor (options .production "main")
        (.ok [guide.candidate, oldIndex.candidate]) (workshop ())).2 _ _ _ _ failed rfl
    cases hf
    exact ⟨_, generated, c, failed, phase, first, congrArg ExcludedFile.path blamed,
      produced listed⟩

end Bakery

end SitePublish
