import SitePublish.Proofs.Deploy.Account
import SitePublish.Proofs.Deploy.Overlay
import SitePublish.Proofs.Digest.Framing

/-!
# Fingerprints

A run names the files that it ships by the hash of their paths and bytes: in the event that ends the
filtering, however the run goes on, and in its result. The files are in strict order, so the hash
does not depend on how they came together, and two runs give the same one just when they ship the
same bytes at the same paths.
-/

set_option autoImplicit false

namespace SitePublish

/-- Whether a file of the list has these bytes at this path. -/
def Candidate.Holds (files : List Candidate) (path : SitePath) (bytes : List UInt8) : Prop :=
  ∃ c ∈ files, c.path = path ∧ c.content.bytes = bytes

/-- The hashes that a run names its files by. -/
inductive Outcome.Reports {σ : Type} (out : Outcome σ DeployResult) : ContentHash → Prop
  | result {r : DeployResult} (ok : out.result = .ok r) : out.Reports r.fingerprint
  | event {included excluded : Nat} {h : ContentHash}
      (told : .filtered included excluded h.text ∈ out.events) : out.Reports h

namespace Prepared

theorem mem_entries_iff {files : List Candidate} {path : SitePath} {bytes : List UInt8} :
    (path.text, bytes) ∈ entries files ↔ Candidate.Holds files path bytes := by
  simp only [entries, List.mem_map, Prod.mk.injEq, Candidate.Holds]
  refine exists_congr fun c => and_congr_right fun _ => and_congr_left fun _ => ?_
  exact SitePath.text_injective.eq_iff

theorem sortedKeys_entries {files : List Candidate}
    (sorted : (files.map fun c => c.path.text).Pairwise (· < ·)) :
    Dict.SortedKeys (entries files) := by
  rwa [Dict.SortedKeys, Dict.keys, entries, List.map_map]

/-- Files in order make the same entries just when they have the same bytes at the same paths. -/
theorem entries_eq_iff {files files' : List Candidate}
    (sorted : (files.map fun c => c.path.text).Pairwise (· < ·))
    (sorted' : (files'.map fun c => c.path.text).Pairwise (· < ·)) :
    entries files = entries files' ↔
      ∀ path bytes, Candidate.Holds files path bytes ↔ Candidate.Holds files' path bytes := by
  constructor
  · intro same path bytes
    rw [← mem_entries_iff, same, mem_entries_iff]
  · intro alike
    have subset {a b : List Candidate}
        (held : ∀ path bytes, Candidate.Holds a path bytes → Candidate.Holds b path bytes) :
        entries a ⊆ entries b := by
      intro e he
      obtain ⟨c, hc, rfl⟩ := List.mem_map.mp he
      exact mem_entries_iff.mpr (held _ _ ⟨c, hc, rfl, rfl⟩)
    have keys := sortedKeys_entries sorted
    have keys' := sortedKeys_entries sorted'
    refine keys.ext keys' fun path => Option.ext fun bytes => ?_
    constructor
    · intro found
      have there := subset (fun path bytes => (alike path bytes).mp) (Dict.mem_of_get? found)
      exact Dict.get?_of_mem keys'.nodup there
    · intro found
      have there := subset (fun path bytes => (alike path bytes).mpr) (Dict.mem_of_get? found)
      exact Dict.get?_of_mem keys.nodup there

end Prepared

namespace Deployer

variable {σ τ : Type} {d : Deployer σ} {document : Document} {options : DeployOptions}
  {project : Except ProjectError (List Candidate)} {s : σ}

theorem reports_iff {h : ContentHash} :
    (d.execute document options project s).Reports h ↔
      ∃ prepared, d.rehearsal document options project = .ok prepared ∧
        h = prepared.fingerprint := by
  -- with all details the stream is the events themselves
  have listed := (d.execute_ends document options project s).listed true
  rw [show ∀ events, DeployEvent.told true events = events from List.filter_true] at listed
  constructor
  · rintro (⟨ok⟩ | ⟨told⟩)
    · obtain ⟨prepared, rehearsal, -, -, same, -⟩ := rehearsal_of_ok ok
      exact ⟨prepared, rehearsal, same⟩
    · cases rehearsal : d.rehearsal document options project with
      | error e =>
        rw [rehearsal] at listed
        cases listed _ told
      | ok prepared =>
        rw [rehearsal] at listed
        obtain ⟨front, back, events, silent⟩ := listed
        rw [events, List.append_assoc, List.mem_append, List.mem_append, List.mem_cons] at told
        rcases told with before | exclusion | same | after
        · cases silent _ (List.mem_append_left _ before)
        · simp at exclusion
        · exact ⟨prepared, rfl, congrArg ContentHash.mk (DeployEvent.filtered.inj same).2.2⟩
        · cases silent _ (List.mem_append_right _ after)
  · rintro ⟨prepared, rehearsal, rfl⟩
    rw [rehearsal] at listed
    obtain ⟨front, back, events, -⟩ := listed
    exact .event (by rw [events]; exact List.mem_append_right _ List.mem_cons_self)

theorem prepared_of_reports {h : ContentHash}
    (reports : (d.execute document options project s).Reports h) :
    ∃ prepared,
      (d.pipeline.prepare options.target document options.overrides project).1 = .ok prepared ∧
      h = .ofEntries (Prepared.entries prepared.retained) ∧
      (prepared.retained.map fun c => c.path.text).Pairwise (· < ·) := by
  obtain ⟨prepared, rehearsal, rfl⟩ := reports_iff.mp reports
  obtain ⟨-, events, prepare⟩ := rehearsal_eq_ok.mp rehearsal
  have ready := congrArg Prod.fst prepare
  refine ⟨prepared, ready, fingerprint_of_rehearsal rehearsal, ?_⟩
  obtain ⟨generated, files, -, -, rfl⟩ := Pipeline.prepare_eq_ok ready
  exact d.pipeline.retained_sorted options.target files generated

/-- The bytes that a hash is taken of are those of one sequence of entries only. So two runs, dry
ones or not, whose bytes the digest tells apart report the same hash just when they retain the same
bytes at the same paths. -/
theorem fingerprints_identify :
    (∀ entries entries' : List (String × List UInt8), ContentHash.Framable entries →
      ContentHash.Framable entries' →
      ContentHash.stream entries = ContentHash.stream entries' → entries = entries') ∧
    ∀ {σ τ : Type} (d : Deployer σ) (d' : Deployer τ) (document document' : Document)
      (options options' : DeployOptions) (project project' : Except ProjectError (List Candidate))
      (s : σ) (s' : τ) (h h' : ContentHash),
      (d.execute document options project s).Reports h →
      (d'.execute document' options' project' s').Reports h' →
      ∃ prepared prepared',
        (d.pipeline.prepare options.target document options.overrides project).1 = .ok prepared ∧
        (d'.pipeline.prepare options'.target document' options'.overrides project').1 =
          .ok prepared' ∧
        (ContentHash.Framable (Prepared.entries prepared.retained) →
          ContentHash.Framable (Prepared.entries prepared'.retained) →
          ¬ Digest.Sha256.Collide (ContentHash.stream (Prepared.entries prepared.retained))
            (ContentHash.stream (Prepared.entries prepared'.retained)) →
          (h = h' ↔ ∀ path bytes, Candidate.Holds prepared.retained path bytes ↔
            Candidate.Holds prepared'.retained path bytes)) := by
  refine ⟨fun entries entries' => ContentHash.stream_inj, ?_⟩
  intro σ τ d d' document document' options options' project project' s s' h h' reports reports'
  obtain ⟨prepared, ready, rfl, sorted⟩ := prepared_of_reports reports
  obtain ⟨prepared', ready', rfl, sorted'⟩ := prepared_of_reports reports'
  refine ⟨prepared, prepared', ready, ready', fun framable framable' apart => ?_⟩
  rw [ContentHash.ofEntries_eq_iff framable framable' apart, Prepared.entries_eq_iff sorted sorted']

end Deployer

namespace Bakery

def shelf (files : List Candidate) : Prepared :=
  .ofBatch .preview (pipeline.batch files [index])

theorem prepare_shelf (files : List Candidate) :
    (pipeline.prepare .preview blank [] (.ok files)).1 = .ok (shelf files) := by
  rw [Pipeline.prepare, generate_blank]
  rfl

def toStaging (dryRun : Bool) (files : List Candidate) : Outcome (World Unit) DeployResult :=
  deployer.execute blank { options .preview "staging" with dryRun } (.ok files) (workshop ())

theorem retained_shelf (files : List Candidate) :
    (shelf files).retained = mergeCandidates files [index.toCandidate] :=
  pipeline.retained_preview_eq files _

/-- The dry run tells the hash of the real run, and another one once the guide is gone. -/
theorem guide_in_fingerprint :
    ∃ p r e, (toStaging true [guide.candidate]).result = .ok p ∧
      (toStaging false [guide.candidate]).result = .ok r ∧ (toStaging true []).result = .ok e ∧
      p.fingerprint = r.fingerprint ∧ p.fingerprint ≠ e.fingerprint := by
  have ok : (toStaging true [guide.candidate]).result.isOk = true ∧
      (toStaging false [guide.candidate]).result.isOk = true ∧
      (toStaging true []).result.isOk = true := by
    decide
  obtain ⟨p, hp⟩ := exists_of_isOk ok.1
  obtain ⟨r, hr⟩ := exists_of_isOk ok.2.1
  obtain ⟨e, he⟩ := exists_of_isOk ok.2.2
  have identify {dryRun dryRun' : Bool} {files files' : List Candidate} {r r' : DeployResult}
      (hr : (toStaging dryRun files).result = .ok r)
      (hr' : (toStaging dryRun' files').result = .ok r') :
      ContentHash.Framable (Prepared.entries (shelf files).retained) →
      ContentHash.Framable (Prepared.entries (shelf files').retained) →
      ¬ Digest.Sha256.Collide (ContentHash.stream (Prepared.entries (shelf files).retained))
        (ContentHash.stream (Prepared.entries (shelf files').retained)) →
      (r.fingerprint = r'.fingerprint ↔ ∀ path bytes,
        Candidate.Holds (shelf files).retained path bytes ↔
          Candidate.Holds (shelf files').retained path bytes) := by
    obtain ⟨prepared, prepared', ready, ready', same⟩ :=
      Deployer.fingerprints_identify.2 deployer deployer blank blank
        { options .preview "staging" with dryRun }
        { options .preview "staging" with dryRun := dryRun' }
        (.ok files) (.ok files') (workshop ()) (workshop ()) _ _ (.result hr) (.result hr')
    obtain rfl := Except.ok.inj (ready.symm.trans (prepare_shelf files))
    obtain rfl := Except.ok.inj (ready'.symm.trans (prepare_shelf files'))
    exact same
  have both : mergeCandidates [guide.candidate] [index.toCandidate] =
      [guide.candidate, index.toCandidate] := by decide
  have alone : mergeCandidates [] [index.toCandidate] = [index.toCandidate] := by decide
  have framable : ContentHash.Framable (Prepared.entries [guide.candidate, index.toCandidate]) := by
    decide +kernel
  have dry := identify hp hr
  have bare := identify hp he
  rw [retained_shelf, both] at dry bare
  rw [retained_shelf, alone] at bare
  refine ⟨p, r, e, hp, hr, he, ?_, fun told => ?_⟩
  · exact (dry framable framable fun collide => collide.1 rfl).mpr fun _ _ => Iff.rfl
  · have alike := (bare framable (by decide +kernel) (by decide +kernel)).mp told
    obtain ⟨c, hc, at_guide, -⟩ := (alike guidePath guide.candidate.content.bytes).mp
      ⟨guide.candidate, List.mem_cons_self, rfl, rfl⟩
    obtain rfl := List.mem_singleton.mp hc
    exact absurd at_guide (by decide)

end Bakery

end SitePublish
