import SitePublish.Filter.Classify
import SitePublish.Proofs.Site.Path
import SitePublish.Proofs.Text.Occurrence

/-!
# What the rules of the filter say

Each rule as a statement about the segments of a path, and the decision of the filter as the verdict
of the first rule that says anything. The three rules for the editor and the deployment machinery
come before all patterns and look at nothing but the path, so no pattern, no content and no spelling
of a path changes what they drop, and they treat a path and the same path below the source directory
alike.
-/

set_option autoImplicit false

namespace SitePublish

/-- The first rule, in their order, with a property. -/
def FilterRule.IsFirst (speaks : FilterRule → Prop) (r : FilterRule) : Prop :=
  speaks r ∧ ∀ q ∈ order.takeWhile (· ≠ r), ¬ speaks q

namespace ProductionFilter

/-- The segments without one leading source directory. -/
def innerSegments (segments : List String) : List String :=
  if Inside "src" segments then segments.tail else segments

def InEditorApi (p : SitePath) : Prop :=
  ∃ ns ∈ editorNamespaces, Inside ("app/api/" ++ ns) (innerSegments p.segments)

def InEditorUi (p : SitePath) : Prop :=
  ∃ dir ∈ editorDirs, Inside dir (innerSegments p.segments)

def InDeployInfra (p : SitePath) : Prop :=
  (∃ dir ∈ deployDirs, Inside dir (innerSegments p.segments)) ∨ p.fileStem ∈ deployStems

/-- The editor or the deployment machinery, which never ship. -/
def Guarded (p : SitePath) : Prop := InEditorApi p ∨ InEditorUi p ∨ InDeployInfra p

def IsDocument (p : SitePath) : Prop :=
  Within "docs" p.segments ∨
    (p.extension = some "md" ∨ p.extension = some "mdx") ∧
      ¬ Within "src/app" p.segments ∧ ¬ Within "app" p.segments

def IsShellScript (p : SitePath) : Prop :=
  p.extension = some "sh" ∨ Within "scripts" p.segments

/-- At the root without being one of the files that a project has there. -/
def IsStray (p : SitePath) : Prop := ∃ name, p.segments = [name] ∧ isRootConfig name = false

def OutsideRoots (p : SitePath) : Prop :=
  ∃ top next rest, p.segments = top :: next :: rest ∧ top ∉ sourceRoots

/-- Nothing that a project is built from. -/
def Foreign (p : SitePath) : Prop :=
  IsDocument p ∨ IsShellScript p ∨ IsStray p ∨ OutsideRoots p

def Marked (content : Option String) : Prop :=
  ∃ s, content = some s ∧ ∃ line ∈ (Text.lines s).take markerLines, Text.contains marker line = true

/-- Whether a rule has something to say about a path of the project. -/
def Speaks (f : ProductionFilter) (p : SitePath) (content : Option String) : FilterRule → Prop
  | .pathEscape => False
  | .editorApi => InEditorApi p
  | .editorUi => InEditorUi p
  | .deployInfra => InDeployInfra p
  | .configPattern => f.includes.isMatch p.text = true ∨ f.excludes.isMatch p.text = true
  | .nonProject => Foreign p
  | .editorMarker => Marked content
  | .siteContent => True

def Applies (f : ProductionFilter) (path : String) (content : Option String) (r : FilterRule) :
    Prop :=
  match SitePath.ofText path with
  | .error _ => r = .pathEscape
  | .ok p => f.Speaks p content r

def verdict (f : ProductionFilter) (p : SitePath) (content : Option String) :
    FilterRule → Option FilterDecision
  | .pathEscape => none
  | .editorApi => editorApi p
  | .editorUi => editorUi p
  | .deployInfra => deployInfra p
  | .configPattern => configPattern f p
  | .nonProject => nonProject p
  | .editorMarker => editorMarker content
  | .siteContent => some (.take .siteContent "site content")

theorem exists_of_findSome {α β : Type} [DecidableEq α] {g : α → Option β} {l : List α} {b : β}
    (h : l.findSome? g = some b) :
    ∃ a ∈ l, g a = some b ∧ ∀ x ∈ l.takeWhile (· ≠ a), g x = none := by
  induction l with
  | nil => cases h
  | cons c l ih =>
    rw [List.findSome?_cons] at h
    cases hc : g c with
    | some d =>
      rw [hc] at h
      exact ⟨c, List.mem_cons_self, hc.trans h, by simp⟩
    | none =>
      rw [hc] at h
      obtain ⟨a, ha, hg, before⟩ := ih h
      refine ⟨a, List.mem_cons_of_mem c ha, hg, fun x hx => ?_⟩
      rw [List.takeWhile_cons] at hx
      split at hx
      · rcases List.mem_cons.mp hx with rfl | hx
        · exact hc
        · exact before x hx
      · cases hx

section Directories

theorem isBelow_iff {path : List Char} {dir : String} :
    isBelow path dir = true ↔ ∃ rest, path = dir.toList ++ '/' :: rest := by
  rw [isBelow]
  constructor
  · intro h
    split at h
    · next c rest hs =>
      rw [decide_eq_true_iff] at h
      exact ⟨rest, by rw [Text.stripPrefix_eq_some_iff.mp hs, h]⟩
    · cases h
  · rintro ⟨rest, rfl⟩
    rw [Text.stripPrefix_append]
    rfl

variable (p : SitePath)

theorem segmentsOf_withoutSource :
    SitePath.segmentsOf (withoutSource p) = innerSegments p.segments := by
  have hsrc : Inside "src" p.segments ↔ ∃ rest, p.text.toList = "src".toList ++ '/' :: rest :=
    SitePath.inside_segmentsOf_iff
  have hstart (rest : List Char) : "src".toList ++ '/' :: rest = "src/".toList ++ rest := rfl
  rw [withoutSource, innerSegments]
  split
  · next h =>
    obtain ⟨rest, hp⟩ := hsrc.mp h
    rw [SitePath.segments_eq, hp, SitePath.segmentsOf_cons (by decide), hstart,
      Text.stripPrefix_append]
    rfl
  · next h =>
    cases hs : Text.stripPrefix "src/".toList p.text.toList with
    | none => rfl
    | some rest =>
      rw [Text.stripPrefix_eq_some_iff, ← hstart] at hs
      exact absurd (hsrc.mpr ⟨rest, hs⟩) h

theorem inside_inner_iff {dir : String} :
    Inside dir (innerSegments p.segments) ↔ isBelow (withoutSource p) dir = true := by
  rw [← segmentsOf_withoutSource, SitePath.inside_segmentsOf_iff, isBelow_iff]

theorem withoutSource_inSource (outside : Text.startsWith "src/" p.text = false) :
    withoutSource p.inSource = withoutSource p := by
  have hn : Text.stripPrefix "src/".toList p.text.toList = none := by
    rw [Text.startsWith] at outside
    rw [Text.stripPrefix, outside]
    rfl
  have hs : p.inSource.text.toList = "src/".toList ++ p.text.toList := SitePath.inSource_text p
  rw [withoutSource, withoutSource, hn, hs, Text.stripPrefix_append]
  rfl

end Directories

section Verdicts

variable (f : ProductionFilter) (p : SitePath) (content : Option String)

theorem editorApi_isSome_iff : (editorApi p).isSome = true ↔ InEditorApi p := by
  have hbelow (ns : String) : Inside ("app/api/" ++ ns) (innerSegments p.segments) ↔
      ∃ rest, withoutSource p = "app/api/".toList ++ (ns.toList ++ '/' :: rest) := by
    rw [inside_inner_iff, isBelow_iff, String.toList_append]
    simp only [List.append_assoc]
  simp only [InEditorApi, hbelow, editorApi]
  cases hs : Text.stripPrefix "app/api/".toList (withoutSource p) with
  | none =>
    refine ⟨fun h => absurd h (by simp), ?_⟩
    rintro ⟨ns, -, rest, hp⟩
    rw [hp, Text.stripPrefix_append] at hs
    cases hs
  | some tail =>
    rw [Text.stripPrefix_eq_some_iff] at hs
    simp only [hs, List.append_cancel_left_eq, ← isBelow_iff, ← List.find?_isSome]
    change ((editorNamespaces.find? fun ns => isBelow tail ns).bind _).isSome = true ↔ _
    cases editorNamespaces.find? fun ns => isBelow tail ns <;> simp

theorem editorUi_isSome_iff : (editorUi p).isSome = true ↔ InEditorUi p := by
  simp only [InEditorUi, inside_inner_iff, editorUi, ← List.find?_isSome]
  cases editorDirs.find? (isBelow (withoutSource p)) <;> simp

theorem deployInfra_isSome_iff : (deployInfra p).isSome = true ↔ InDeployInfra p := by
  simp only [InDeployInfra, inside_inner_iff, deployInfra, ← List.find?_isSome]
  cases deployDirs.find? (isBelow (withoutSource p)) <;> simp

theorem configPattern_isSome_iff : (configPattern f p).isSome = true ↔
    f.includes.isMatch p.text = true ∨ f.excludes.isMatch p.text = true := by
  unfold configPattern PatternSet.isMatch
  cases f.includes.matching p.text <;> cases f.excludes.matching p.text <;> simp

theorem isDocumentation_iff : isDocumentation p = true ↔ IsDocument p := by
  simp only [isDocumentation, IsDocument, Bool.or_eq_true, Bool.and_eq_true, Bool.not_eq_true',
    decide_eq_true_iff, ← Bool.not_eq_true, SitePath.isUnder_iff p "docs" rfl,
    SitePath.isUnder_iff p "src/app" rfl, SitePath.isUnder_iff p "app" rfl,
    and_assoc]

theorem isScript_iff : isScript p = true ↔ IsShellScript p := by
  simp only [isScript, IsShellScript, Bool.or_eq_true, decide_eq_true_iff,
    SitePath.isUnder_iff p "scripts" rfl]

theorem isStray_iff :
    IsStray p ↔ p.isRootFile = true ∧ isRootConfig p.fileName = false := by
  rw [IsStray, SitePath.isRootFile_iff]
  constructor
  · rintro ⟨name, h, unknown⟩
    exact ⟨⟨name, h⟩, by rwa [SitePath.fileName_of_segments h]⟩
  · rintro ⟨⟨name, h⟩, unknown⟩
    exact ⟨name, h, by rwa [SitePath.fileName_of_segments h] at unknown⟩

theorem outsideRoots_iff :
    OutsideRoots p ↔ p.isRootFile = false ∧ sourceRoots.contains (topSegment p) = false := by
  have hroot := SitePath.isRootFile_iff p
  rw [OutsideRoots, topSegment, ← Bool.not_eq_true, hroot, ← Bool.not_eq_true,
    List.contains_iff_mem]
  cases h : p.segments with
  | nil => exact absurd h p.segments_ne_nil
  | cons top below =>
    cases below with
    | nil => simp
    | cons next rest => simp

theorem nonProject_isSome_iff : (nonProject p).isSome = true ↔ Foreign p := by
  rw [Foreign, ← isDocumentation_iff, ← isScript_iff, isStray_iff, outsideRoots_iff, nonProject]
  cases isDocumentation p <;> cases isScript p <;> cases p.isRootFile <;>
    cases isRootConfig p.fileName <;> cases sourceRoots.contains (topSegment p) <;> simp

theorem editorMarker_isSome_iff : (editorMarker content).isSome = true ↔ Marked content := by
  unfold editorMarker Marked
  cases content with
  | none => simp
  | some s =>
    have hm : isMarked s = true ↔
        ∃ line ∈ (Text.lines s).take markerLines, Text.contains marker line = true :=
      List.any_eq_true
    simp only [Option.some.injEq, exists_eq_left', ← hm]
    cases isMarked s <;> simp

theorem at_mem_marker : '@' ∈ marker.toList := by decide

theorem not_marked_of_free {s : String} (free : '@' ∉ s.toList) : ¬ Marked (some s) := by
  rintro ⟨_, ⟨⟩, line, first, mark⟩
  obtain ⟨chars, mem, rfl⟩ := List.mem_map.mp (List.mem_of_mem_take first)
  rw [Text.contains_iff, String.toList_ofList] at mark
  exact free ((mark.trans (Text.infix_of_mem_linesOf mem)).mem at_mem_marker)

theorem classify_congr (f : ProductionFilter) (path : String) {content content' : Option String}
    (h : ¬ Marked content) (h' : ¬ Marked content') :
    f.classify path content = f.classify path content' := by
  have quiet {c : Option String} (h : ¬ Marked c) : editorMarker c = none := by
    rw [← Option.not_isSome_iff_eq_none, editorMarker_isSome_iff]
    exact h
  simp only [classify, ProductionFilter.decide, quiet h, quiet h']

theorem verdict_isSome_iff (r : FilterRule) :
    (f.verdict p content r).isSome = true ↔ f.Speaks p content r := by
  cases r with
  | pathEscape => simp [verdict, Speaks]
  | editorApi => exact editorApi_isSome_iff p
  | editorUi => exact editorUi_isSome_iff p
  | deployInfra => exact deployInfra_isSome_iff p
  | configPattern => exact configPattern_isSome_iff f p
  | nonProject => exact nonProject_isSome_iff p
  | editorMarker => exact editorMarker_isSome_iff content
  | siteContent => simp [verdict, Speaks]

theorem verdict_spec {r : FilterRule} {d : FilterDecision} (h : f.verdict p content r = some d) :
    d.rule = r ∧
      (d.included = true ↔
        r = .siteContent ∨ r = .configPattern ∧ ¬ f.excludes.isMatch p.text = true) ∧
      (d.conflict.isSome = true ↔
        r = .configPattern ∧
          f.includes.isMatch p.text = true ∧ f.excludes.isMatch p.text = true) := by
  cases r with
  | pathEscape => cases h
  | editorApi =>
    simp only [verdict, editorApi] at h
    obtain ⟨rest, -, h⟩ := Option.bind_eq_some_iff.mp h
    obtain ⟨ns, -, h⟩ := Option.bind_eq_some_iff.mp h
    cases h
    simp [FilterDecision.drop]
  | editorUi =>
    simp only [verdict, editorUi] at h
    obtain ⟨dir, -, h⟩ := Option.bind_eq_some_iff.mp h
    cases h
    simp [FilterDecision.drop]
  | deployInfra =>
    simp only [verdict, deployInfra] at h
    split at h
    · cases h
      simp [FilterDecision.drop]
    · split at h <;> cases h
      simp [FilterDecision.drop]
  | configPattern =>
    simp only [verdict, configPattern] at h
    simp only [PatternSet.isMatch]
    split at h <;> cases h <;> simp [FilterDecision.drop, FilterDecision.take, *]
  | nonProject =>
    simp only [verdict, nonProject] at h
    split_ifs at h <;> cases h <;> simp [FilterDecision.drop]
  | editorMarker =>
    simp only [verdict, editorMarker] at h
    split at h
    · split_ifs at h
      cases h
      simp [FilterDecision.drop]
    · cases h
  | siteContent =>
    cases h
    simp [FilterDecision.take]

theorem decide_eq_findSome :
    FilterRule.order.findSome? (f.verdict p content) = some (f.decide p content) := by
  simp only [FilterRule.order, List.findSome?, verdict, ProductionFilter.decide]
  cases editorApi p <;> cases editorUi p <;> cases deployInfra p <;> cases configPattern f p <;>
    cases nonProject p <;> cases editorMarker content <;> rfl

end Verdicts

section Decisions

variable (f : ProductionFilter) (p : SitePath) (content : Option String)

theorem decide_isFirst : FilterRule.IsFirst (f.Speaks p content) (f.decide p content).rule := by
  obtain ⟨r, -, hv, before⟩ := exists_of_findSome (f.decide_eq_findSome p content)
  obtain ⟨hr, -⟩ := f.verdict_spec p content hv
  rw [hr]
  refine ⟨(f.verdict_isSome_iff p content r).mp (Option.isSome_of_eq_some hv),
    fun q hq speaks => ?_⟩
  rw [← f.verdict_isSome_iff, before q hq] at speaks
  cases speaks

theorem decide_spec :
    ((f.decide p content).included = true ↔
      (f.decide p content).rule = .siteContent ∨
        (f.decide p content).rule = .configPattern ∧ ¬ f.excludes.isMatch p.text = true) ∧
    ((f.decide p content).conflict.isSome = true ↔
      (f.decide p content).rule = .configPattern ∧
        f.includes.isMatch p.text = true ∧ f.excludes.isMatch p.text = true) := by
  obtain ⟨r, -, hv, -⟩ := exists_of_findSome (f.decide_eq_findSome p content)
  obtain ⟨rfl, spec⟩ := f.verdict_spec p content hv
  exact spec

theorem guarded_iff_rule : Guarded p ↔
    (f.decide p content).rule = .editorApi ∨ (f.decide p content).rule = .editorUi ∨
      (f.decide p content).rule = .deployInfra := by
  obtain ⟨speaks, before⟩ := f.decide_isFirst p content
  generalize (f.decide p content).rule = r at speaks before
  have free (behind : ∀ q ∈ [FilterRule.editorApi, .editorUi, .deployInfra],
      q ∈ FilterRule.order.takeWhile (· ≠ r)) : ¬ Guarded p := by
    rintro (h | h | h)
    · exact before .editorApi (behind _ (by decide)) h
    · exact before .editorUi (behind _ (by decide)) h
    · exact before .deployInfra (behind _ (by decide)) h
  cases r with
  | pathEscape => exact absurd speaks id
  | editorApi => exact iff_of_true (Or.inl speaks) (by decide)
  | editorUi => exact iff_of_true (Or.inr (Or.inl speaks)) (by decide)
  | deployInfra => exact iff_of_true (Or.inr (Or.inr speaks)) (by decide)
  | configPattern | nonProject | editorMarker | siteContent =>
    exact iff_of_false (free (by decide)) (by decide)

theorem rule_eq_configPattern_iff : (f.decide p content).rule = .configPattern ↔
    ¬ Guarded p ∧ f.Speaks p content .configPattern := by
  rw [f.guarded_iff_rule p content]
  obtain ⟨speaks, before⟩ := f.decide_isFirst p content
  generalize (f.decide p content).rule = r at speaks before
  cases r with
  | pathEscape => exact absurd speaks id
  | configPattern => simpa using speaks
  | editorApi | editorUi | deployInfra => simp
  | nonProject | editorMarker | siteContent => simpa using before .configPattern (by decide)

theorem rule_eq_siteContent_iff : (f.decide p content).rule = .siteContent ↔
    ¬ Guarded p ∧ ¬ f.Speaks p content .configPattern ∧ ¬ Foreign p ∧ ¬ Marked content := by
  rw [f.guarded_iff_rule p content]
  obtain ⟨speaks, before⟩ := f.decide_isFirst p content
  generalize (f.decide p content).rule = r at speaks before
  cases r with
  | pathEscape => exact absurd speaks id
  | editorApi | editorUi | deployInfra => simp
  | configPattern => simp [speaks]
  | nonProject =>
    have foreign : Foreign p := speaks
    simp [foreign]
  | editorMarker =>
    have marked : Marked content := speaks
    simp [marked]
  | siteContent =>
    simpa using ⟨before .configPattern (by decide), before .nonProject (by decide),
      before .editorMarker (by decide)⟩

theorem decide_included_iff : (f.decide p content).included = true ↔
    ¬ Guarded p ∧
      (f.includes.isMatch p.text = true ∧ ¬ f.excludes.isMatch p.text = true ∨
        ¬ f.includes.isMatch p.text = true ∧ ¬ f.excludes.isMatch p.text = true ∧
          ¬ Foreign p ∧ ¬ Marked content) := by
  rw [(f.decide_spec p content).1, f.rule_eq_configPattern_iff, f.rule_eq_siteContent_iff, Speaks]
  by_cases excluded : f.excludes.isMatch p.text = true
  · simp [excluded]
  · by_cases included : f.includes.isMatch p.text = true
    · simp [excluded, included]
    · simp [excluded, included]

end Decisions

section Guard

def guard (p : SitePath) : Option FilterDecision :=
  ((editorApi p).or (editorUi p)).or (deployInfra p)

theorem guard_isSome_iff (p : SitePath) : (guard p).isSome = true ↔ Guarded p := by
  rw [guard, Option.isSome_or, Option.isSome_or, Bool.or_eq_true, Bool.or_eq_true,
    editorApi_isSome_iff, editorUi_isSome_iff, deployInfra_isSome_iff, or_assoc, Guarded]

theorem decide_of_guard {p : SitePath} {d : FilterDecision} (h : guard p = some d)
    (f : ProductionFilter) (content : Option String) : f.decide p content = d := by
  rw [guard] at h
  rw [ProductionFilter.decide, h]
  rfl

theorem guard_inSource {p : SitePath} (outside : Text.startsWith "src/" p.text = false) :
    guard p.inSource = guard p := by
  simp only [guard, editorApi, editorUi, deployInfra, withoutSource_inSource p outside,
    SitePath.fileStem_inSource]

end Guard

theorem classify_of_ok {path : String} {p : SitePath} (h : SitePath.ofText path = .ok p)
    (f : ProductionFilter) (content : Option String) :
    f.classify path content = f.decide p content := by
  rw [classify, h]

theorem applies_of_ok {path : String} {p : SitePath} (h : SitePath.ofText path = .ok p)
    (f : ProductionFilter) (content : Option String) :
    f.Applies path content = f.Speaks p content := by
  funext r
  rw [Applies, h]

/-- A path without a normal form is dropped by the rule that comes first. -/
theorem classify_of_error {path : String} {e : PathError} (h : SitePath.ofText path = .error e)
    (f : ProductionFilter) (content : Option String) :
    (f.classify path content).included = false ∧ (f.classify path content).conflict = none ∧
      (f.classify path content).rule = .pathEscape := by
  rw [classify, h]
  cases e <;> exact ⟨rfl, rfl, rfl⟩

/-- What the filter ships, by which rule it decides and when it reports a conflict; and that what is
guarded stays out by whatever patterns, spelling and content, with and without a source directory in
front. -/
theorem classify_by_rules (f : ProductionFilter) (path : String) (content : Option String) :
    ((f.classify path content).included = true ↔
      ∃ p, SitePath.ofText path = .ok p ∧ ¬ Guarded p ∧
        (f.includes.isMatch p.text = true ∧ ¬ f.excludes.isMatch p.text = true ∨
          ¬ f.includes.isMatch p.text = true ∧ ¬ f.excludes.isMatch p.text = true ∧
            ¬ Foreign p ∧ ¬ Marked content)) ∧
    FilterRule.IsFirst (f.Applies path content) (f.classify path content).rule ∧
    ((f.classify path content).conflict.isSome = true ↔
      ∃ p, SitePath.ofText path = .ok p ∧ ¬ Guarded p ∧
        f.includes.isMatch p.text = true ∧ f.excludes.isMatch p.text = true) ∧
    (∀ p, SitePath.ofText path = .ok p → Guarded p →
      (f.classify path content).included = false ∧
      ∀ (g : ProductionFilter) (path' : String) (content' : Option String),
        SitePath.ofText path' = .ok p → g.classify path' content' = f.classify path content) ∧
    (∀ p, SitePath.ofText path = .ok p → Text.startsWith "src/" p.text = false →
      (Guarded p.inSource ↔ Guarded p) ∧
      ∀ (g : ProductionFilter) (path' : String) (content' : Option String),
        SitePath.ofText path' = .ok p.inSource → Guarded p →
          g.classify path' content' = f.classify path content) := by
  cases h : SitePath.ofText path with
  | error e =>
    obtain ⟨dropped, quiet, rule⟩ := classify_of_error h f content
    have first : FilterRule.IsFirst (f.Applies path content) .pathEscape :=
      ⟨by rw [Applies, h], fun q hq => absurd hq (by simp [FilterRule.order])⟩
    simp [dropped, quiet, rule, first]
  | ok p =>
    rw [classify_of_ok h, applies_of_ok h]
    have conflict := (f.decide_spec p content).2
    rw [f.rule_eq_configPattern_iff p content, Speaks] at conflict
    refine ⟨?_, f.decide_isFirst p content, ?_, ?_, ?_⟩
    · simpa using f.decide_included_iff p content
    · rw [conflict]
      simp only [Except.ok.injEq, exists_eq_left']
      exact ⟨fun ⟨⟨free, _⟩, both⟩ => ⟨free, both⟩,
        fun ⟨free, both⟩ => ⟨⟨free, Or.inl both.1⟩, both⟩⟩
    · rintro _ ⟨⟩ guarded
      obtain ⟨d, hd⟩ := Option.isSome_iff_exists.mp ((guard_isSome_iff p).mpr guarded)
      refine ⟨?_, fun g path' content' h' => ?_⟩
      · rw [← Bool.not_eq_true, f.decide_included_iff p content]
        exact fun ships => ships.1 guarded
      · rw [classify_of_ok h', decide_of_guard hd, decide_of_guard hd]
    · rintro _ ⟨⟩ outside
      have same := guard_inSource outside
      refine ⟨by rw [← guard_isSome_iff, same, guard_isSome_iff],
        fun g path' content' h' guarded => ?_⟩
      obtain ⟨d, hd⟩ := Option.isSome_iff_exists.mp ((guard_isSome_iff p).mpr guarded)
      rw [classify_of_ok h', decide_of_guard hd, decide_of_guard (same.trans hd)]

end ProductionFilter

end SitePublish
