import SitePublish.Proofs.Command.Run
import SitePublish.Proofs.Deploy.Delivery
import SitePublish.Proofs.FileTree.Write
import SitePublish.Proofs.Site.Document

/-!
# Saving the version

After a commit the document is written back as it was read before the deployment, with the next
version, which is read from it again. So the pages and whatever else the program knows of are those
that were deployed. What it does not know of is lost, and so is whatever was saved in the meantime.
-/

set_option autoImplicit false

namespace SitePublish

namespace Deployer

variable {σ : Type} {d : Deployer σ} {document : Document} {options : DeployOptions}
  {project : Except ProjectError (List Candidate)} {s : σ} {r : DeployResult}

theorem ExecuteEnds.version_of_hasChanges {branch : String} {out : Outcome σ DeployResult}
    (h : ExecuteEnds d document options project branch s out) (ok : out.result = .ok r)
    (changed : r.hasChanges = true) : r.version = document.currentVersion + 1 := by
  cases h with
  | disowned own => cases ok
  | unprepared own prepare => cases ok
  | rehearsed own prepare dry =>
    cases ok
    cases changed
  | failed own prepare real ship => cases ok
  | done own prepare real ship =>
    cases ok
    exact congrArg (document.currentVersion + ·) (if_pos changed)

end Deployer

namespace Command

variable {τ : Type}

theorem SaveEnds.readText_saved {deployer : Deployer (World τ)} {document : Document}
    {options : DeployOptions} {project : Except ProjectError (List Candidate)} {path : String}
    {w : World τ} {out : Worked τ} {r : DeployResult}
    (h : SaveEnds deployer document options project path true w out)
    (load : DocumentFile.load w.files path = .ok document)
    (ok : out.result = .ok (.deploy r)) (changed : r.hasChanges = true) :
    out.world.files.readText path =
      .ok ({ document with currentVersion := document.currentVersion + 1 } : Document).render := by
  obtain ⟨text, there, -⟩ := DocumentFile.exists_readText_of_load load
  have named := FileTree.lastName_of_readBytes (FileTree.readBytes_of_readText there)
  cases h with
  | failed deploy => cases ok
  | unsaved deploy idle =>
    cases ok
    rcases idle with idle | idle
    · rw [idle] at changed
      cases changed
    · cases idle
  | stuck deploy changed asked write => cases ok
  | saved deploy changed asked write =>
    cases ok
    have ends := deployer.execute_ends document options project w
    rw [deploy] at ends
    rw [saveVersion, Document.advanceVersion, ends.version_of_hasChanges rfl changed,
      Nat.max_eq_right (Nat.le_succ _)] at write
    exact FileTree.readText_of_readBytes (DocumentFile.readBytes_of_save write named)

/-- A deployment that commits leaves the document as it was read, with the next version, whatever
the services do to its file meanwhile. -/
theorem document_saved_as_read (place : Workplace τ) (input : DocumentInput)
    (options : SeoOverrides → DeployOptions) (w : World τ) {r : DeployResult}
    (fits : ∀ read, DocumentFile.load w.files input.document = .ok read →
      read.currentVersion + 1 < Word.limit64)
    (ok : (deployDocument place input options true w).result = .ok (.deploy r))
    (changed : r.hasChanges = true) :
    ∃ read, DocumentFile.load w.files input.document = .ok read ∧
      let next : Document := { read with currentVersion := read.currentVersion + 1 }
      (deployDocument place input options true w).world.files.readText input.document =
        .ok next.render ∧
      Json.Tree.parse? next.render = some next.toJson.toTree ∧
      Document.versionShape.parse? next.render = some (read.currentVersion + 1) := by
  have ends := deployDocument_ends place input options true w
  generalize deployDocument place input options true w = out at ok ends
  cases ends with
  | unread read => cases ok
  | unequipped read equip => cases ok
  | deployed read equip ends =>
    have load := load_of_readDocument read
    exact ⟨_, load, ends.readText_saved load ok changed, Document.tree_render _,
      Document.versionShape_render (fits _ load)⟩

end Command

namespace Bakery

def themedSite : String := "\x7b\"pages\": \x7b\x7d, \"theme\": \"dark\"\x7d"

def editedSite : String :=
  "\x7b\"pages\": \x7b\"about\": \x7b\x7d\x7d, \"theme\": \"dark\"\x7d"

def withSite (text : String) : World Unit :=
  .ofFiles ⟨"/", [(["site.json"], .file (Text.utf8 text))]⟩ ()

def interrupted : Deployer (World Unit) :=
  ⟨pipeline, settings, { World.offline none with lock := fun _ _ => (.ok (), withSite editedSite) }⟩

def previewEdited : Worked Unit :=
  Command.deployDocument ⟨fun _ _ => .ok interrupted, fun _ => .ok []⟩ ⟨"site.json", none⟩
    (⟨.preview, none, false, ·, none⟩) true (withSite themedSite)

theorem themedSite_loads : DocumentFile.load (withSite themedSite).files "site.json" = .ok blank := by
  decide

theorem previewEdited_saved_as_read :
    blank.currentVersion + 1 < Word.limit64 ∧
      previewEdited.world.files.readText "site.json" = .ok (Document.render ⟨[], 1⟩) ∧
      Document.versionShape.parse? (Document.render ⟨[], 1⟩) = some 1 := by
  obtain ⟨r, ok, changed⟩ :
      ∃ r, previewEdited.result = .ok (.deploy r) ∧ r.hasChanges = true := ⟨_, rfl, rfl⟩
  have fits : ∀ read, DocumentFile.load (withSite themedSite).files "site.json" = .ok read →
      read.currentVersion + 1 < Word.limit64 := by
    intro read load
    cases themedSite_loads.symm.trans load
    decide
  obtain ⟨read, load, saved, -, version⟩ :=
    Command.document_saved_as_read _ _ _ _ fits ok changed
  cases themedSite_loads.symm.trans load
  exact ⟨by decide, saved, version⟩

/-- Before the document is saved its file has a page and a theme, and afterwards neither. -/
theorem edited_site_overwritten :
    let left := (interrupted.execute blank ⟨.preview, none, false, [], none⟩ (.ok [])
      (withSite themedSite)).state
    let saved := Document.render ⟨[], 1⟩
    left.files.readText "site.json" = .ok editedSite ∧
      previewEdited.world.files.readText "site.json" = .ok saved ∧
      ((Json.parse? editedSite).bind fun v => v.member? "theme") = some (.str "dark") ∧
      ((Json.parse? saved).bind fun v => v.member? "theme") = none ∧
      ((Json.parse? editedSite).bind fun v => v.member? "pages") ≠
        (Json.parse? saved).bind fun v => v.member? "pages" := by
  decide +kernel

end Bakery

end SitePublish
