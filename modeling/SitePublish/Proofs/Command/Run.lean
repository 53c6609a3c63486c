import SitePublish.Command.Run
import SitePublish.Proofs.Deploy.Run
import SitePublish.Proofs.Except

/-!
# How deploy commands end

The ways in which a deployment of a document file ends: what was read, how the deployment ended, and
what became of the file. A relation lists them for the part that has read the document and one for
the whole, and the command always ends in one of them.
-/

set_option autoImplicit false

namespace SitePublish

namespace Command

variable {τ : Type}

inductive SaveEnds (deployer : Deployer (World τ)) (document : Document) (options : DeployOptions)
    (project : Except ProjectError (List Candidate)) (path : String) (save : Bool) (w : World τ) :
    Worked τ → Prop
  | failed {e : DeployError} {events : List DeployEvent} {left : World τ}
      (deploy : deployer.execute document options project w = ⟨.error e, events, left⟩) :
      SaveEnds deployer document options project path save w ⟨.error (.deploy e), events, left⟩
  | unsaved {r : DeployResult} {events : List DeployEvent} {left : World τ}
      (deploy : deployer.execute document options project w = ⟨.ok r, events, left⟩)
      (idle : r.hasChanges = false ∨ save = false) :
      SaveEnds deployer document options project path save w ⟨.ok (.deploy r), events, left⟩
  | stuck {r : DeployResult} {events : List DeployEvent} {left : World τ} {e : DocumentFileError}
      (deploy : deployer.execute document options project w = ⟨.ok r, events, left⟩)
      (changed : r.hasChanges = true) (asked : save = true)
      (write : saveVersion left.files path document r = .error e) :
      SaveEnds deployer document options project path save w ⟨.error (.document e), events, left⟩
  | saved {r : DeployResult} {events : List DeployEvent} {left : World τ} {files : FileTree}
      (deploy : deployer.execute document options project w = ⟨.ok r, events, left⟩)
      (changed : r.hasChanges = true) (asked : save = true)
      (write : saveVersion left.files path document r = .ok files) :
      SaveEnds deployer document options project path save w
        ⟨.ok (.deploy r), events, { left with files := files }⟩

inductive DocumentEnds (place : Workplace τ) (input : DocumentInput)
    (options : SeoOverrides → DeployOptions) (save : Bool) (w : World τ) : Worked τ → Prop
  | unread {e : CommandError} (read : readDocument w.files input = .error e) :
      DocumentEnds place input options save w (.fail e w)
  | unequipped {document : Document} {overrides : SeoOverrides} {e : CommandError}
      (read : readDocument w.files input = .ok (document, overrides))
      (equip : place.deployer w.files (if (options overrides).dryRun then .none else .all) =
        .error e) :
      DocumentEnds place input options save w (.fail e w)
  | deployed {document : Document} {overrides : SeoOverrides} {deployer : Deployer (World τ)}
      {out : Worked τ} (read : readDocument w.files input = .ok (document, overrides))
      (equip : place.deployer w.files (if (options overrides).dryRun then .none else .all) =
        .ok deployer)
      (ends : SaveEnds deployer document (options overrides) (place.project w.files)
        input.document save w out) :
      DocumentEnds place input options save w out

theorem deployAndSave_ends (deployer : Deployer (World τ)) (document : Document)
    (options : DeployOptions) (project : Except ProjectError (List Candidate)) (path : String)
    (save : Bool) (w : World τ) :
    SaveEnds deployer document options project path save w
      (deployAndSave deployer document options project path save w) := by
  unfold deployAndSave
  dsimp only
  rcases hx : deployer.execute document options project w with ⟨e | r, events, left⟩
  · exact .failed hx
  · dsimp only
    split
    · next asked =>
      obtain ⟨changed, asked⟩ := (Bool.and_eq_true _ _).mp asked
      split
      · next write => exact .stuck hx changed asked write
      · next write => exact .saved hx changed asked write
    · next idle => exact .unsaved hx (by simpa [Classical.or_iff_not_imp_left] using idle)

theorem deployDocument_ends (place : Workplace τ) (input : DocumentInput)
    (options : SeoOverrides → DeployOptions) (save : Bool) (w : World τ) :
    DocumentEnds place input options save w (deployDocument place input options save w) := by
  unfold deployDocument
  split
  · next read => exact .unread read
  · next read =>
    dsimp only
    split
    · next equip => exact .unequipped read equip
    · next equip => exact .deployed read equip (deployAndSave_ends _ _ _ _ _ _ _)

theorem DocumentEnds.of_failed {place : Workplace τ} {input : DocumentInput}
    {options : SeoOverrides → DeployOptions} {save : Bool} {w : World τ} {out : Worked τ}
    {document : Document} {overrides : SeoOverrides} {d : Deployer (World τ)} {e : DeployError}
    (h : DocumentEnds place input options save w out)
    (read : readDocument w.files input = .ok (document, overrides))
    (equip : place.deployer w.files (if (options overrides).dryRun then .none else .all) = .ok d)
    (failed : (d.execute document (options overrides) (place.project w.files) w).result =
      .error e) :
    out.result.isOk = false ∧
      out.world = (d.execute document (options overrides) (place.project w.files) w).state := by
  cases h with
  | unread seen => simp [read] at seen
  | unequipped seen had =>
    cases read.symm.trans seen
    simp [equip] at had
  | deployed seen had saving =>
    cases read.symm.trans seen
    cases equip.symm.trans had
    cases saving with
    | failed run =>
      rw [run]
      exact ⟨rfl, rfl⟩
    | unsaved run => simp [run] at failed
    | stuck run => simp [run] at failed
    | saved run => simp [run] at failed

theorem load_of_readDocument {files : FileTree} {input : DocumentInput} {document : Document}
    {overrides : SeoOverrides} (h : readDocument files input = .ok (document, overrides)) :
    DocumentFile.load files input.document = .ok document := by
  obtain ⟨d, load, h⟩ := exists_of_bind_eq_ok h
  rw [of_mapError_eq_ok load]
  rcases input with ⟨path, - | seo⟩
  · cases h
    rfl
  · obtain ⟨o, -, h⟩ := exists_of_bind_eq_ok h
    cases h
    rfl

end Command

end SitePublish
