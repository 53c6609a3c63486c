import SitePublish.Proofs.FileTree.Write
import SitePublish.Proofs.Json.Rereading
import SitePublish.Proofs.Site.Document

/-!
# Documents that are saved

A document that was loaded is saved as a text from which it is loaded again, whatever versions it
has moved to in between. Each record is read from what it is written as, by the lemmas of its
members. Members that were left out are written, so a record asks for room for their brackets; a
document has plenty.
-/

set_option autoImplicit false

namespace SitePublish

open Json (Shape)

theorem Component.rereads : Shape.Rereads 2 Component.shape Component.toJson := by
  intro budget t c deep read exact
  obtain ⟨budget, trees, rfl, -, built⟩ := Shape.exists_of_record read
  split at built
  · next type props =>
    obtain ⟨name, -, built⟩ := Option.bind_eq_some_iff.mp built
    obtain ⟨es, entries, built⟩ := Option.bind_eq_some_iff.mp built
    cases built
    have back := Shape.rereads_value.members (by omega) entries
      (fun e he => Dict.mem_of_mem_ofList he) (by simpa [Component.toJson] using exact)
    simp only [id, Prod.mk.eta, List.map_id'] at back
    change Option.bind (Shape.members Shape.value budget (Json.obj (Dict.ofList es)).toTree) _ = _
    rw [back, Option.bind_some, (Dict.sortedKeys_ofList es).ofList_eq]
    rfl
  · cases built

theorem Seo.rereads : Shape.Rereads 2 Seo.shape fun s => Json.obj s.members := by
  intro budget t s deep read exact
  obtain ⟨budget, trees, rfl, -, built⟩ := Shape.exists_of_record read
  split at built
  · next titleTree descriptionTree keywordsTree imageTree =>
    obtain ⟨title, -, built⟩ := Option.bind_eq_some_iff.mp built
    obtain ⟨description, -, built⟩ := Option.bind_eq_some_iff.mp built
    obtain ⟨keywords, listed, built⟩ := Option.bind_eq_some_iff.mp built
    obtain ⟨image, -, built⟩ := Option.bind_eq_some_iff.mp built
    cases built
    -- Texts are read as they stand, present or not; only keywords take brackets.
    cases keywords with
    | none => cases title <;> cases description <;> cases image <;> rfl
    | some words =>
      have back := Shape.rereads_string.list.present (by omega) listed (by simp)
      have present : Shape.field (Shape.optional (Shape.list Shape.string)) none budget
          (some (Json.ofStrings words).toTree) = some (some words) :=
        congrArg (Option.map some) back
      cases title <;> cases description <;> cases image <;>
      · change Option.bind (Shape.field _ none budget (some (Json.ofStrings words).toTree)) _ = _
        rw [present]
        rfl
  · cases built

theorem Page.rereads : Shape.Rereads 4 Page.shape Page.toJson := by
  intro budget t p deep read exact
  obtain ⟨budget, trees, rfl, -, built⟩ := Shape.exists_of_record read
  split at built
  · next componentsTree seoTree =>
    obtain ⟨components, listed, built⟩ := Option.bind_eq_some_iff.mp built
    obtain ⟨seo, described, built⟩ := Option.bind_eq_some_iff.mp built
    cases built
    rw [Page.toJson, Json.exact_obj_iff, List.forall_mem_cons] at exact
    have back := Component.rereads.list.field
      (Shape.list_toTree (by omega) fun _ h => absurd h List.not_mem_nil) (by omega) listed exact.1
    let written := (Json.arr (components.map Component.toJson)).toTree
    cases seo with
    | none =>
      change Option.bind (Shape.list Component.shape budget written) _ = _
      rw [back]
      rfl
    | some s =>
      have members := Seo.rereads.present (by omega) described
        (exact.2 _ (List.mem_singleton.mpr rfl))
      have present : Shape.field (Shape.optional Seo.shape) none budget
          (some (Json.obj s.members).toTree) = some (some s) :=
        congrArg (Option.map some) members
      change Option.bind (Shape.list Component.shape budget written) (fun components =>
        Option.bind (Shape.field (Shape.optional Seo.shape) none budget
          (some (Json.obj s.members).toTree)) fun seo => some (Page.mk components seo)) = _
      rw [back, Option.bind_some, present, Option.bind_some]
  · cases built

namespace Document

structure Storable (d : Document) : Prop where
  distinct : (Dict.keys d.pages).Nodup
  pages : Shape.members Page.shape (Json.depthLimit - 1)
    (Json.obj (d.pages.map fun e => (e.1, e.2.toJson))).toTree = some d.pages
  version : d.currentVersion < Word.limit64

variable {d : Document} {s : String}

theorem storable_of_parse? (h : parse? s = some d) (exact : d.toJson.Exact) : d.Storable := by
  obtain ⟨t, -, read⟩ := Option.bind_eq_some_iff.mp h
  obtain ⟨trees, -, built⟩ := Option.bind_eq_some_iff.mp read
  dsimp only at built
  split at built
  · next pagesTree versionTree =>
    obtain ⟨entries, listed, built⟩ := Option.bind_eq_some_iff.mp built
    obtain ⟨number, numbered, built⟩ := Option.bind_eq_some_iff.mp built
    cases built
    rw [toJson, Json.exact_obj_iff, List.forall_mem_cons] at exact
    refine ⟨Dict.nodup_foldl_put (d := []) List.nodup_nil entries, ?_, ?_⟩
    · refine Page.rereads.members (by decide) listed (fun e he => ?_) exact.1
      exact (Dict.mem_or_mem_of_mem_foldl_put he).resolve_left List.not_mem_nil
    · cases versionTree with
      | none =>
        cases numbered
        exact (by decide : 0 < Word.limit64)
      | some t => exact Shape.lt_of_natBelow numbered
  · cases built

theorem Storable.parse?_render (h : d.Storable) : parse? d.render = some d := by
  rw [parse?, Shape.parse?, tree_render, Option.bind_some]
  change Option.bind (Shape.members Page.shape (Json.depthLimit - 1)
    (Json.obj (d.pages.map fun e => (e.1, e.2.toJson))).toTree) (fun entries =>
      Option.bind (Shape.natBelow Word.limit64 (Json.depthLimit - 1)
        (Json.ofNat d.currentVersion).toTree) fun number =>
          some (Document.mk (orderedPages entries) number)) = some d
  have ordered : orderedPages d.pages = d.pages := Dict.foldl_put_of_nodup h.distinct
  rw [h.pages, Option.bind_some, Shape.natBelow_toTree h.version, Option.bind_some, ordered]

theorem Storable.advanceVersion (h : d.Storable) {version : Nat} (fits : version < Word.limit64) :
    (d.advanceVersion version).Storable :=
  ⟨h.distinct, h.pages, max_lt h.version fits⟩

def advanceAll (d : Document) (versions : List Nat) : Document :=
  versions.foldl Document.advanceVersion d

theorem Storable.advanceAll (h : d.Storable) {versions : List Nat}
    (fit : ∀ n ∈ versions, n < Word.limit64) : (d.advanceAll versions).Storable := by
  induction versions generalizing d with
  | nil => exact h
  | cons n versions ih =>
    obtain ⟨first, rest⟩ := List.forall_mem_cons.mp fit
    exact ih (h.advanceVersion first) rest

theorem pages_advanceAll (d : Document) (versions : List Nat) :
    (d.advanceAll versions).pages = d.pages := by
  induction versions generalizing d with
  | nil => rfl
  | cons n versions ih => exact ih (d.advanceVersion n)

theorem currentVersion_le_advanceAll (d : Document) (versions : List Nat) :
    d.currentVersion ≤ (d.advanceAll versions).currentVersion := by
  induction versions generalizing d with
  | nil => exact le_rfl
  | cons n versions ih => exact (le_max_left _ n).trans (ih (d.advanceVersion n))

end Document

namespace DocumentFile

variable {files t u : FileTree} {path : String} {d : Document}

theorem load_of_save (h : d.Storable) (saved : save t path d = .ok u) : load u path = .ok d := by
  have read := readBytes_of_save saved (lastName_of_save saved)
  rw [load, FileTree.readText_of_readBytes read]
  dsimp only
  rw [h.parse?_render]

/-- A document that was loaded, and moved to any versions, is saved wherever documents can be saved,
is loaded from there, and saved there again as the same bytes. -/
theorem loaded_is_saved (loaded : load files path = .ok d) (exact : d.toJson.Exact)
    {versions : List Nat} (fit : ∀ n ∈ versions, n < Word.limit64) :
    let next := d.advanceAll versions
    next.pages = d.pages ∧ d.currentVersion ≤ next.currentVersion ∧
      ∀ (tree : FileTree) (target : String),
        (∃ e, ∀ other, save tree target other = .error e) ∨
        ∃ saved again, save tree target next = .ok saved ∧ load saved target = .ok next ∧
          save saved target next = .ok again ∧
          saved.readBytes target = .ok (Text.utf8 next.render) ∧
          again.readBytes target = saved.readBytes target := by
  obtain ⟨text, -, parsed⟩ := exists_readText_of_load loaded
  have storable := (Document.storable_of_parse? parsed exact).advanceAll fit
  refine ⟨d.pages_advanceAll versions, d.currentVersion_le_advanceAll versions, ?_⟩
  intro tree target
  cases first : save tree target (d.advanceAll versions) with
  | error e => exact Or.inl ⟨e, save_eq_error first⟩
  | ok saved =>
    obtain ⟨again, second⟩ := exists_save_again first (d.advanceAll versions)
    have there := readBytes_of_save first (lastName_of_save first)
    have same := readBytes_of_save second (lastName_of_save second)
    have back := load_of_save storable first
    exact Or.inr ⟨saved, again, rfl, back, second, there, same.trans there.symm⟩

/-- A file with a record written as an array, a page and a member that occur twice, other names of
members, and an empty description. -/
def editorFile : FileTree :=
  ⟨"/", [(["site.json"], .file (Text.utf8 (
    "\x7b\"pages\":\x7b\"b\":[[[\"Hero\"]]],\"a\":\x7b\"seo\":\x7b\x7d\x7d," ++
    "\"b\":\x7b\"components\":[[\"Hero\",\x7b\"w\":1,\"w\":0.5\x7d]]\x7d\x7d," ++
    "\"current_version_number\":4\x7d")))]⟩

def editorDocument : Document :=
  ⟨[("b", ⟨[⟨"Hero", [("w", .float 0x3fe0000000000000)]⟩], none⟩), ("a", ⟨[], some Seo.empty⟩)], 4⟩

theorem editorFile_loads : load editorFile "site.json" = .ok editorDocument := by
  decide +kernel

theorem exact_editorDocument : editorDocument.toJson.Exact := by
  have half : Json.parse? (Json.float 0x3fe0000000000000).pretty =
      some (.float 0x3fe0000000000000) := by decide
  simp [editorDocument, Document.toJson, Page.toJson, Component.toJson, Seo.members, Seo.empty,
    Json.ofNat, Json.exact_float_iff, half]

/-- The versions do not matter for what is saved of the pages. -/
theorem editorDocument_is_saved :
    ∃ saved, save editorFile "out/site.json" (editorDocument.advanceAll [7, 5]) = .ok saved ∧
      load saved "out/site.json" = .ok ⟨editorDocument.pages, 7⟩ := by
  obtain ⟨-, -, places⟩ := loaded_is_saved editorFile_loads exact_editorDocument
    (show ∀ n ∈ [7, 5], n < Word.limit64 by decide)
  rcases places editorFile "out/site.json" with ⟨e, refused⟩ | ⟨saved, again, first, load, -⟩
  · have := refused editorDocument
    cases this
  · exact ⟨saved, first, load⟩

end DocumentFile

end SitePublish
