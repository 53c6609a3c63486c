import SitePublish.Proofs.Deploy.Overlay

/-!
# Layers of files

Merging lays one list of files over another: at each path stands the last file that the upper list
has there, or else the last one of the lower list, in the order of the paths. Where no list has a
path twice nothing hangs on the order in which the files come, so a deployment goes the same way in
whatever order the files of the project are found.
-/

set_option autoImplicit false

namespace SitePublish

section Order

variable {files files' : List Candidate} (perm : files.Perm files')
  (distinct : (files.map Candidate.path).Nodup)
include perm distinct

theorem Pipeline.batch_perm (p : Pipeline) (generated : List GeneratedFile) :
    p.batch files generated = p.batch files' generated :=
  congrArg p.filter.classifyCandidates
    (mergeCandidates_congr (lastAt?_perm perm distinct) fun _ => rfl)

theorem Pipeline.prepare_perm (p : Pipeline) (target : Target) (document : Document)
    (overrides : SeoOverrides) :
    p.prepare target document overrides (.ok files) =
      p.prepare target document overrides (.ok files') := by
  simp only [prepare, select, p.batch_perm perm distinct]

theorem Deployer.execute_perm {σ : Type} (d : Deployer σ) (document : Document)
    (options : DeployOptions) (s : σ) :
    d.execute document options (.ok files) s = d.execute document options (.ok files') s := by
  simp only [execute, d.pipeline.prepare_perm perm distinct]

theorem Deployer.bootstrap_perm {σ : Type} (d : Deployer σ) (document : Document)
    (domain : Option String) (overrides : SeoOverrides) (s : σ) :
    d.bootstrap document domain overrides (.ok files) s =
      d.bootstrap document domain overrides (.ok files') s := by
  simp only [bootstrap, d.execute_perm perm distinct]

end Order

/-- What stands where after a merge; that nothing hangs on the order of lists with different paths;
and that a deployment and a bootstrap end alike, with the same events and in the same state, in
whatever order the files of the project come. -/
theorem merging_layers :
    (∀ project generated : List Candidate,
      ((mergeCandidates project generated).map Candidate.path).Pairwise (· < ·) ∧
      (∀ p, p ∈ (mergeCandidates project generated).map Candidate.path ↔
        p ∈ project.map Candidate.path ∨ p ∈ generated.map Candidate.path) ∧
      ∀ c, c ∈ mergeCandidates project generated ↔
        c.LastIn generated ∨ c.path ∉ generated.map Candidate.path ∧ c.LastIn project) ∧
    (∀ project project' generated generated' : List Candidate, project.Perm project' →
      generated.Perm generated' → (project.map Candidate.path).Nodup →
      (generated.map Candidate.path).Nodup →
      mergeCandidates project generated = mergeCandidates project' generated') ∧
    ∀ (σ : Type) (d : Deployer σ) (files files' : List Candidate), files.Perm files' →
      (files.map Candidate.path).Nodup →
      (∀ document options s,
        d.execute document options (.ok files) s = d.execute document options (.ok files') s) ∧
      ∀ document domain overrides s,
        d.bootstrap document domain overrides (.ok files) s =
          d.bootstrap document domain overrides (.ok files') s := by
  refine ⟨fun project generated => ?_, ?_, ?_⟩
  · exact ⟨mergeCandidates_sorted project generated, fun p => mem_mergeCandidates_paths,
      fun c => mem_mergeCandidates_iff⟩
  · intro project project' generated generated' lower upper lower_distinct upper_distinct
    exact mergeCandidates_congr (lastAt?_perm lower lower_distinct)
      (lastAt?_perm upper upper_distinct)
  · intro σ d files files' perm distinct
    exact ⟨d.execute_perm perm distinct, d.bootstrap_perm perm distinct⟩

namespace Bakery

def upper : List Candidate :=
  [⟨indexPath, .text "new", .generated⟩, ⟨guidePath, .text "guide", .generated⟩]

/-- The project has two files, and the old index does not come through in either order. -/
theorem listing_reordered :
    let files := [guide.candidate, oldIndex.candidate]
    files.Perm files.reverse ∧ (files.map Candidate.path).Nodup ∧ upper.Perm upper.reverse ∧
      (upper.map Candidate.path).Nodup ∧
      mergeCandidates files upper = mergeCandidates files.reverse upper.reverse ∧
      (overOldIndex blank).result.isOk = true ∧
      overOldIndex blank =
        deployer.execute blank (options .production "main") (.ok files.reverse) (workshop ()) := by
  intro files
  have perm : files.Perm files.reverse := (List.reverse_perm files).symm
  have distinct : (files.map Candidate.path).Nodup := by decide
  have upper_perm : upper.Perm upper.reverse := (List.reverse_perm upper).symm
  have upper_distinct : (upper.map Candidate.path).Nodup := by decide
  obtain ⟨-, merges, runs⟩ := merging_layers
  exact ⟨perm, distinct, upper_perm, upper_distinct,
    merges files files.reverse upper upper.reverse perm upper_perm distinct upper_distinct,
    overOldIndex_isOk,
    (runs _ deployer files files.reverse perm distinct).1 blank (options .production "main")
      (workshop ())⟩

end Bakery

end SitePublish
