import SitePublish.Proofs.Deploy.Overlay
import SitePublish.Proofs.Page.Locality
import SitePublish.Proofs.Page.Marking

/-!
# Texts of a document and the filter

No text of a document decides whether its files ship. No generated file is marked as one of the
editor, so the filter looks at nothing but the paths of generated files, and these come from the
keys of the pages. A production deployment is refused over an excluded file for all documents with the
same keys or for none, over the same path and by the same rule.
-/

set_option autoImplicit false

namespace SitePublish

namespace ProductionFilter

variable {content : Option String}

theorem rule_ne_editorMarker (f : ProductionFilter) (path : String) (h : ¬ Marked content) :
    (f.classify path content).rule ≠ .editorMarker := by
  cases read : SitePath.ofText path with
  | error e =>
    rw [(classify_of_error read f content).2.2]
    exact nofun
  | ok p =>
    rw [classify_of_ok read]
    intro marked
    have speaks := (f.decide_isFirst p content).1
    rw [marked] at speaks
    exact h speaks

end ProductionFilter

namespace Document

/-- Two documents with the same keys of pages, in any order. -/
def SameKeys (d d' : Document) : Prop := ∀ key, key ∈ Dict.keys d.pages ↔ key ∈ Dict.keys d'.pages

theorem SameKeys.symm {d d' : Document} (h : d.SameKeys d') : d'.SameKeys d :=
  fun key => (h key).symm

end Document

namespace Generator

variable {g : Generator} {d d' : Document} {o o' : SeoOverrides} {works works' : List PageWork}
  {index index' : SitePath} {files files' : List GeneratedFile}

theorem paths_subset (off : g.layout.componentModules = false)
    (composed : Composed g d o works index files)
    (composed' : Composed g d' o' works' index' files') (same : d.SameKeys d') :
    files.map GeneratedFile.path ⊆ files'.map GeneratedFile.path := by
  intro path mem
  obtain ⟨f, hf, rfl⟩ := List.mem_map.mp mem
  rw [composed.files_eq] at hf
  rw [composed'.files_eq, List.map_append, List.mem_append]
  rcases List.mem_append.mp hf with page | last
  · obtain ⟨w, hw, hf⟩ := List.mem_flatMap.mp page
    have key : w.key ∈ Dict.keys d.pages := by
      rw [← composed.pages]
      exact List.mem_map_of_mem (List.mem_map_of_mem hw)
    obtain ⟨source, there, key_eq⟩ := List.mem_map.mp ((same w.key).mp key)
    obtain ⟨w', hw', rfl⟩ := List.mem_map.mp (composed'.pages ▸ there)
    have beside := (composed.made w hw).beside (composed'.made w' hw') key_eq.symm
    have none := (composed.made w hw).modules
    rw [off, if_neg Bool.false_ne_true] at none
    refine Or.inl (List.mem_map.mpr ?_)
    rw [PageWork.files, none, List.mem_cons, List.mem_singleton] at hf
    rcases hf with rfl | rfl
    · exact ⟨w'.dataFile o', List.mem_flatMap.mpr ⟨w', hw', List.mem_cons_self⟩,
        beside.data.symm⟩
    · exact ⟨w'.routeFile g o', List.mem_flatMap.mpr ⟨w', hw',
        List.mem_cons_of_mem _ List.mem_cons_self⟩, beside.module.symm⟩
  · rw [List.mem_singleton.mp last]
    have here := index_eq_of_composed composed composed'
    exact Or.inr (List.mem_singleton.mpr here)

/-- Generated files at the same paths, none of them marked. -/
structure Alike (generated generated' : List GeneratedFile) : Prop where
  paths : ∀ p, p ∈ generated.map GeneratedFile.path ↔ p ∈ generated'.map GeneratedFile.path
  unmarked : ∀ f ∈ generated, ¬ ProductionFilter.Marked (some f.content)
  unmarked' : ∀ f ∈ generated', ¬ ProductionFilter.Marked (some f.content)

theorem Alike.symm {generated generated' : List GeneratedFile} (h : Alike generated generated') :
    Alike generated' generated :=
  ⟨fun p => (h.paths p).symm, h.unmarked', h.unmarked⟩

theorem alike_of_generate (unmarked : g.layout.Unmarked) (off : g.layout.componentModules = false)
    (same : d.SameKeys d') (h : g.generate d o = .ok files) (h' : g.generate d' o' = .ok files') :
    Alike files files' := by
  obtain ⟨works, index, composed⟩ := composed_of_generate h
  obtain ⟨works', index', composed'⟩ := composed_of_generate h'
  refine ⟨fun p => ⟨fun mem => ?_, fun mem => ?_⟩, not_marked_of_generate unmarked h,
    not_marked_of_generate unmarked h'⟩
  · exact paths_subset off composed composed' same mem
  · exact paths_subset off composed' composed same.symm mem

end Generator

section Alike

variable {f : ProductionFilter} {files : List Candidate} {generated generated' : List GeneratedFile}
  (alike : Generator.Alike generated generated') {c : Candidate}
include alike

theorem Offered.exists_like (h : Offered files generated c) : ∃ c', Offered files generated' c' ∧
    c'.path = c.path ∧ c'.origin = c.origin ∧ ∀ f : ProductionFilter,
      (f.classifyCandidate c').decision = (f.classifyCandidate c).decision := by
  cases h with
  | @generated g mem =>
    obtain ⟨g', mem', path⟩ := List.mem_map.mp ((alike.paths _).mp (List.mem_map_of_mem mem))
    refine ⟨_, .generated mem', path, rfl, fun f => ?_⟩
    simp only [ProductionFilter.classifyCandidate, FileContent.text?]
    rw [path]
    exact f.classify_congr _ (alike.unmarked' g' mem') (alike.unmarked g mem)
  | project split last free =>
    refine ⟨c, .project split last fun g' mem' taken => ?_, rfl, rfl, fun _ => rfl⟩
    obtain ⟨g, mem, path⟩ := List.mem_map.mp ((alike.paths _).mpr (List.mem_map_of_mem mem'))
    exact free g mem (path.trans taken)

theorem FirstDropped.exists_like (h : FirstDropped f files generated c) :
    ∃ c', FirstDropped f files generated' c' ∧
      ExcludedFile.ofClassified (f.classifyCandidate c') =
        ExcludedFile.ofClassified (f.classifyCandidate c) := by
  obtain ⟨c', offered, path, origin, decides⟩ := h.offered.exists_like alike
  refine ⟨c', ⟨offered, origin.trans h.marked, by rw [decides, h.excluded], ?_⟩, ?_⟩
  · intro b' offered' marked' smaller
    obtain ⟨b, there, path', origin', decides'⟩ := offered'.exists_like alike.symm
    rw [← decides' f]
    exact h.first b there (origin'.trans marked') (by rwa [path', ← path])
  · rw [ExcludedFile.ofClassified, ExcludedFile.ofClassified, decides,
      ProductionFilter.file_classifyCandidate, ProductionFilter.file_classifyCandidate, path]

end Alike

namespace Deployer

variable {σ : Type} {d : Deployer σ} {document document' : Document}
  {options options' : DeployOptions} {project : Except ProjectError (List Candidate)} {s s' : σ}

def FailsOver (d : Deployer σ) (document : Document) (options : DeployOptions)
    (project : Except ProjectError (List Candidate)) (s : σ) (x : ExcludedFile) : Prop :=
  ∃ e, (d.execute document options project s).result = .error e ∧
    e.cause = .generatedFileExcluded x.path x.rule x.reason

theorem failsOver_iff {x : ExcludedFile} : d.FailsOver document options project s x ↔
    options.target = .production ∧ ∃ files generated c, project = .ok files ∧
      d.pipeline.generator.generate document options.overrides = .ok generated ∧
      FirstDropped d.pipeline.filter files generated c ∧
      ExcludedFile.ofClassified (d.pipeline.filter.classifyCandidate c) = x := by
  constructor
  · rintro ⟨e, failed, cause⟩
    exact (firstDropped_of_rehearsal (rehearsal_of_generatedFileExcluded failed cause)).2
  · rintro ⟨production, files, generated, c, rfl, generate, first, rfl⟩
    exact ⟨_, (execute_of_rehearsal_error (rehearsal_of_firstDropped production generate first)).1,
      rfl⟩

theorem failsOver_of_alike {generated generated' : List GeneratedFile} {x : ExcludedFile}
    (alike : Generator.Alike generated generated')
    (generate : d.pipeline.generator.generate document options.overrides = .ok generated)
    (generate' : d.pipeline.generator.generate document' options'.overrides = .ok generated')
    (production' : options'.target = .production)
    (h : d.FailsOver document options project s x) :
    d.FailsOver document' options' project s' x := by
  obtain ⟨-, files, generated₁, c, hp, same, first, rfl⟩ := failsOver_iff.mp h
  cases generate.symm.trans same
  obtain ⟨c', first', blame⟩ := first.exists_like alike
  exact failsOver_iff.mpr ⟨production', files, generated', c', hp, generate', first', blame⟩

/-- No file of a document is excluded for its mark, whatever the document says, and whether a
production deployment fails over an excluded file depends on the keys of the document alone. -/
theorem texts_never_exclude (d : Deployer σ) (unmarked : d.pipeline.generator.layout.Unmarked) :
    (∀ document overrides files, d.pipeline.generator.generate document overrides = .ok files →
      ∀ (filter : ProductionFilter), ∀ f ∈ files,
        (filter.classifyCandidate ⟨f.path, .text f.content, .generated⟩).decision.rule ≠
          .editorMarker) ∧
    (d.pipeline.generator.layout.componentModules = false →
      ∀ (document document' : Document) (options options' : DeployOptions)
        (files files' : List GeneratedFile), document.SameKeys document' →
      d.pipeline.generator.generate document options.overrides = .ok files →
      d.pipeline.generator.generate document' options'.overrides = .ok files' →
      options.target = .production → options'.target = .production →
      ∀ project s s' x, d.FailsOver document options project s x ↔
        d.FailsOver document' options' project s' x) := by
  constructor
  · intro document overrides files generate filter f mem
    exact filter.rule_ne_editorMarker _ (Generator.not_marked_of_generate unmarked generate f mem)
  · intro off document document' options options' files files' same generate generate' production
      production' project s s' x
    have alike := Generator.alike_of_generate unmarked off same generate generate'
    exact ⟨failsOver_of_alike alike generate generate' production',
      failsOver_of_alike alike.symm generate' generate production⟩

end Deployer

namespace Bakery

def signed : Document :=
  ⟨[("editor", ⟨[], some ⟨some "@editor-only", some "// @editor-only", none, none⟩⟩)], 0⟩

/-- Both are refused for the route, and the one with the mark not for the mark. -/
theorem signed_refused_alike :
    pipeline.generator.layout.Unmarked ∧ editor.SameKeys signed ∧
    (∃ files, pipeline.generator.generate signed [] = .ok files ∧ files.length = 3 ∧ ∀ f ∈ files,
      (pipeline.filter.classifyCandidate ⟨f.path, .text f.content, .generated⟩).decision.rule ≠
        .editorMarker) ∧
    ∃ x : ExcludedFile, x.rule = .editorUi ∧
      deployer.FailsOver editor (options .production "main") (.ok [guide.candidate]) (workshop ())
        x ∧
      deployer.FailsOver signed (options .production "main") (.ok [guide.candidate]) (workshop ())
        x := by
  have unmarked : pipeline.generator.layout.Unmarked := ⟨by decide, by decide⟩
  have count : (pipeline.generator.generate editor []).map List.length = .ok 3 := by rfl
  have count' : (pipeline.generator.generate signed []).map List.length = .ok 3 := by
    rfl
  obtain ⟨files, ok, -⟩ := exists_of_map_eq_ok count
  obtain ⟨files', ok', length⟩ := exists_of_map_eq_ok count'
  have failed : (deployer.execute editor (options .production "main") (.ok [guide.candidate])
      (workshop ())).result = .error ⟨.filtering, "main", false, none,
        .generatedFileExcluded "src/app/editor/page.tsx" .editorUi
          "editor UI source (app/editor/)"⟩ := by
    decide +kernel
  let x : ExcludedFile := ⟨"src/app/editor/page.tsx", .editorUi, "editor UI source (app/editor/)"⟩
  have refused : deployer.FailsOver editor (options .production "main") (.ok [guide.candidate])
      (workshop ()) x := ⟨_, failed, rfl⟩
  obtain ⟨never, alike⟩ := Deployer.texts_never_exclude deployer unmarked
  have both := alike rfl editor signed (options .production "main") (options .production "main")
    files files' (fun _ => Iff.rfl) ok ok' rfl rfl (.ok [guide.candidate]) (workshop ())
    (workshop ()) x
  exact ⟨unmarked, fun _ => Iff.rfl,
    ⟨files', ok', length, never signed [] files' ok' pipeline.filter⟩, x, rfl, refused,
    both.mp refused⟩

end Bakery

end SitePublish
