import SitePublish.Deploy.Event
import SitePublish.Deploy.Settings
import SitePublish.Filter.Batch

/-!
# What a deployment ships

The part of a deployment that dry runs and real runs share: the generated files are laid over those
of the project, the filter decides about each, and the files that remain are put in order and
named by one fingerprint. A preview keeps what the filter would drop.
-/

set_option autoImplicit false

namespace SitePublish

/-- Generated files win over project files, later files over earlier ones; in ascending order of
the paths. -/
def mergeCandidates (project generated : List Candidate) : List Candidate :=
  (Dict.ofList ((project ++ generated).map fun c => (c.path, c))).values

structure ExcludedFile where
  path : String
  rule : FilterRule
  reason : String
deriving DecidableEq

def ExcludedFile.ofClassified (c : Classified Candidate) : ExcludedFile :=
  ⟨c.file.path.text, c.decision.rule, c.decision.reason⟩

structure Prepared where
  /-- The files that ship, in ascending order of their paths. -/
  retained : List Candidate
  excluded : List ExcludedFile
  stats : FilterStats
  fingerprint : ContentHash
deriving DecidableEq

namespace Prepared

def sortCandidates (files : List Candidate) : List Candidate :=
  files.mergeSort fun a b => !(b.path.text < a.path.text)

def entries (files : List Candidate) : List (String × List UInt8) :=
  files.map fun c => (c.path.text, c.content.bytes)

def ofBatch (target : Target) (b : FilterBatch Candidate) : Prepared :=
  let kept := if target.appliesExclusions then b.included else b.included ++ b.excluded
  let retained := sortCandidates (kept.map fun c => c.file)
  ⟨retained, b.excluded.map .ofClassified, b.stats, .ofEntries (entries retained)⟩

def events (p : Prepared) : List DeployEvent :=
  p.excluded.map (fun f => .fileExcluded f.path f.rule f.reason) ++
    [.filtered p.stats.included p.stats.excluded p.fingerprint.text]

end Prepared

structure Pipeline where
  generator : Generator
  filter : ProductionFilter

namespace Pipeline

def droppedFile (b : FilterBatch Candidate) : Option (Classified Candidate) :=
  b.excluded.find? fun c => c.file.origin = .generated

def batch (p : Pipeline) (project : List Candidate) (generated : List GeneratedFile) :
    FilterBatch Candidate :=
  p.filter.classifyCandidates (mergeCandidates project (generated.map GeneratedFile.toCandidate))

/-- Splits generated and project files; production takes all generated files or none. -/
def select (p : Pipeline) (target : Target) (project : List Candidate)
    (generated : List GeneratedFile) : Except DeployFailure Prepared :=
  let b := p.batch project generated
  match if target.appliesExclusions then droppedFile b else none with
  | some c =>
    .error (.generatedFileExcluded c.file.path.text c.decision.rule c.decision.reason)
  | none => .ok (.ofBatch target b)

/-- Generating and filtering. A failure comes with its phase; the events are those on the way. -/
def prepare (p : Pipeline) (target : Target) (document : Document) (overrides : SeoOverrides)
    (project : Except ProjectError (List Candidate)) :
    Except (Phase × DeployFailure) Prepared × List DeployEvent :=
  match p.generator.generate document overrides with
  | .error e => (.error (.generating, .generation e), [])
  | .ok generated =>
    let sofar : List DeployEvent := [.generated generated.length, .entered .filtering]
    match project with
    | .error e => (.error (.filtering, .project e), sofar)
    | .ok files =>
      match p.select target files generated with
      | .error e => (.error (.filtering, e), sofar)
      | .ok prepared => (.ok prepared, sofar ++ prepared.events)

end Pipeline

end SitePublish
