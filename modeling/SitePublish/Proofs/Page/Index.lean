import Mathlib.Data.List.Nodup
import SitePublish.Proofs.Decimal.Digits
import SitePublish.Proofs.Json.Legible
import SitePublish.Proofs.Page.Generation
import SitePublish.Proofs.Page.Naming

/-!
# The index of the pages

The index imports the data of every page under a name of its own and binds the route of the page to
that name, in the order of the pages. The data lies in the directory of the index, or below it, so
the specifier is the name of the data file behind a dot, whatever the layout is.
-/

set_option autoImplicit false

namespace SitePublish

namespace Text

theorem cutLast_append {sep : Char} (a : List Char) {b : List Char} (free : sep ∉ b) :
    cutLast sep (a ++ sep :: b) = some (a, b) := by
  have reversed : (a ++ sep :: b).reverse = b.reverse ++ sep :: a.reverse := by simp
  rw [cutLast, reversed, cutFirst_append_sep (by simpa using free)]
  simp

end Text

namespace Json

theorem reads_quoted {s : String} (plain : ∀ c ∈ s.toList, escapeChar c = [c]) :
    Reads ("\"" ++ s ++ "\"") (.str s) := by
  have escaped : s.toList.flatMap escapeChar = s.toList := by
    rw [List.flatMap_congr plain, List.flatMap_singleton']
  have same : pretty (.str s) = "\"" ++ s ++ "\"" := by
    refine String.toList_injective ?_
    rw [pretty, String.toList_ofList]
    change '"' :: s.toList.flatMap escapeChar ++ ['"'] = _
    rw [escaped, String.toList_append, String.toList_append]
    rfl
  exact same ▸ (Legible.str s).reads_pretty

end Json

theorem escapeChar_of_isNameChar {c : Char} (h : Text.isNameChar c = true ∨ c = '/') :
    Json.escapeChar c = [c] := by
  rcases h with name | rfl
  · have small := Text.lt_of_isNameChar name
    revert name
    exact Text.of_ascii (P := fun c => Text.isNameChar c = true → Json.escapeChar c = [c])
      (by decide) small
  · decide

namespace Generator

theorem commonLength_append (as bs : List String) : commonLength as (as ++ bs) = as.length := by
  induction as with
  | nil => cases bs <;> rfl
  | cons a as ih => rw [List.cons_append, commonLength, if_pos rfl, ih, List.length_cons]

theorem withoutExtension_ts (stem : String) : withoutExtension (stem ++ ".ts") = stem := by
  have cut : Text.cutLast '.' (stem ++ ".ts").toList = some (stem.toList, ['t', 's']) := by
    rw [String.toList_append]
    exact Text.cutLast_append stem.toList (by decide)
  rw [withoutExtension, cut]
  exact String.ofList_toList

theorem exists_segments_ts (s : String) : ∃ dirs last,
    SitePath.segmentsOf s.toList = dirs ++ [last] ∧
      SitePath.segmentsOf (s ++ ".ts").toList = dirs ++ [last ++ ".ts"] := by
  have slash : '/' ∉ ".ts".toList := by decide
  obtain ⟨dirs, last, split, split_ts⟩ := Text.exists_splitChars_append s.toList slash
  refine ⟨dirs.map String.ofList, String.ofList last, ?_, ?_⟩
  · rw [SitePath.segmentsOf, split, List.map_append]
    rfl
  · have extended : String.ofList (last ++ ".ts".toList) = String.ofList last ++ ".ts" :=
      String.toList_injective (by simp)
    rw [SitePath.segmentsOf, String.toList_append, split_ts, List.map_append, ← extended]
    rfl

/-- A module in the directory of another one, or below it, is imported by its name without the
extension. -/
theorem relativeImport_of_beside {source target : SitePath} {front : List String} {name stem : String}
    (from_eq : source.segments = front ++ [name])
    (to_eq : target.segments = front ++ SitePath.segmentsOf (stem ++ ".ts").toList)
    (dotless : '.' ∉ stem.toList) : relativeImport source target = "./" ++ stem := by
  obtain ⟨dirs, last, split, split_ts⟩ := exists_segments_ts stem
  have whole : Text.joinWith '/' (dirs ++ [last]) = stem := by
    rw [← split]
    exact Text.joinWith_splitOn '/' stem
  have inside : Text.startsWith ".." stem = false := by
    rw [Text.startsWith, Bool.eq_false_iff]
    exact fun dots => dotless ((List.isPrefixOf_iff_prefix.mp dots).mem (by simp))
  unfold relativeImport
  rw [from_eq, to_eq, List.dropLast_concat]
  dsimp only
  rw [commonLength_append, List.drop_left, Nat.sub_self, split_ts]
  simp only [List.replicate_zero, List.nil_append, List.dropLast_concat, List.getLast?_concat,
    Option.map_some, withoutExtension_ts, Option.toList_some, whole, inside, if_neg Bool.false_ne_true]

/-- The specifier leads from the directory of a module to another module, whose extension it leaves
out. -/
def Imports (source : SitePath) (specifier : String) (target : SitePath) : Prop :=
  ∃ dir name : String, source.text = dir ++ source.fileName ∧ specifier = "./" ++ name ∧
    target.text = dir ++ name ++ ".ts"

theorem exists_place_of_join {d p : SitePath} {rest : String} (tidy : SitePath.Tidy rest.toList)
    (h : join d rest = .ok p) : ∃ (dir : String) (front : List String), ∀ {name : String} {q : SitePath},
      SitePath.Tidy name.toList → join d name = .ok q →
        q.text = dir ++ name ∧ q.segments = front ++ SitePath.segmentsOf name.toList := by
  cases opened : d.opened with
  | ok base =>
    refine ⟨base.text ++ "/", base.segments, fun {name q} tidy ok => ?_⟩
    obtain ⟨_, same, text⟩ := join_of_opened tidy opened
    cases same.symm.trans ok
    refine ⟨String.toList_injective ?_, ?_⟩
    · rw [text, String.toList_append, String.toList_append, List.append_assoc]
      rfl
    · rw [SitePath.segments_eq, text, SitePath.segmentsOf_append]
      rfl
  | error e =>
    cases e with
    | containsTraversal =>
      rw [join_of_traversal tidy opened] at h
      cases h
    | empty =>
      refine ⟨"", [], fun {name q} tidy ok => ?_⟩
      obtain ⟨_, same, text⟩ := join_of_empty tidy opened
      cases same.symm.trans ok
      refine ⟨String.toList_injective (by rw [text, String.empty_append]), ?_⟩
      rw [SitePath.segments_eq, text, List.nil_append]

variable {l : Layout} {key : String} {r : Route} {index data : SitePath}

theorem imports_of_join (route : Route.ofKey key = .ok r)
    (index_eq : join l.dataDir Layout.indexFile = .ok index) (data_eq : dataPath l r = .ok data) :
    relativeImport index data = "./" ++ r.fileStem ∧ Imports index (relativeImport index data) data := by
  have name : index.fileName = Layout.indexFile := by
    rw [fileName_of_join tidy_indexName index_eq]
    decide
  obtain ⟨dir, front, place⟩ := exists_place_of_join tidy_indexName index_eq
  obtain ⟨index_text, index_segments⟩ := place tidy_indexName index_eq
  obtain ⟨data_text, data_segments⟩ := place (tidy_dataName route) data_eq
  have dotless : '.' ∉ r.fileStem.toList := fun dot =>
    absurd (Route.isNameChar_of_mem_fileStem route '.' dot) (by decide)
  have specifier : relativeImport index data = "./" ++ r.fileStem :=
    relativeImport_of_beside index_segments data_segments dotless
  refine ⟨specifier, dir, r.fileStem, ?_, specifier, ?_⟩
  · rw [name, index_text]
  · rw [data_text, String.append_assoc]

/-- What an index binds a route to: the name of an import. The texts in quotes are held as they are
written. -/
structure Binding where
  name : String
  route : String
  specifier : String

namespace Binding

def importLine (b : Binding) : String := "import " ++ b.name ++ " from " ++ b.specifier ++ ";\n"

def rowLine (b : Binding) : String := "  " ++ b.route ++ ": " ++ b.name ++ ",\n"

def ofEntry (index : SitePath) (e : (Route × SitePath) × Nat) : Binding :=
  ⟨"page" ++ toString e.2, "\"" ++ e.1.1.text ++ "\"", "\"" ++ relativeImport index e.1.2 ++ "\""⟩

end Binding

def indexing (bs : List Binding) : String :=
  header ++ "\n\n" ++ String.join (bs.map Binding.importLine) ++ (if bs.isEmpty then "" else "\n") ++
    "export const pages = \x7b\n" ++ String.join (bs.map Binding.rowLine) ++
    "\x7d as const;\n\nexport default pages;\n"

theorem indexImports_eq (index : SitePath) (n : Nat) (entries : List (Route × SitePath)) :
    indexImports index n entries =
      String.join (((entries.zipIdx n).map (Binding.ofEntry index)).map Binding.importLine) := by
  induction entries generalizing n with
  | nil => rfl
  | cons e rest ih =>
    rw [indexImports_cons, ih, List.zipIdx_cons, List.map_cons, List.map_cons, String.join_cons]
    refine String.toList_injective ?_
    simp [Binding.ofEntry, Binding.importLine]

theorem indexRows_eq (index : SitePath) (n : Nat) (entries : List (Route × SitePath)) :
    indexRows n entries =
      String.join (((entries.zipIdx n).map (Binding.ofEntry index)).map Binding.rowLine) := by
  induction entries generalizing n with
  | nil => rfl
  | cons e rest ih =>
    rw [indexRows, ih, List.zipIdx_cons, List.map_cons, List.map_cons, String.join_cons]
    refine String.toList_injective ?_
    simp [Binding.ofEntry, Binding.rowLine]

theorem indexModule_eq (index : SitePath) (entries : List (Route × SitePath)) :
    indexModule index entries = indexing (entries.zipIdx.map (Binding.ofEntry index)) := by
  have none : (entries.zipIdx.map (Binding.ofEntry index)).isEmpty = entries.isEmpty := by
    cases entries <;> rfl
  rw [indexModule, indexing, indexImports_eq, indexRows_eq index, none]

theorem nodup_names (index : SitePath) (entries : List (Route × SitePath)) :
    ((entries.zipIdx.map (Binding.ofEntry index)).map Binding.name).Nodup := by
  have names : (entries.zipIdx.map (Binding.ofEntry index)).map Binding.name =
      (entries.zipIdx.map Prod.snd).map fun n => "page" ++ toString n := by
    rw [List.map_map, List.map_map]
    rfl
  rw [names, List.zipIdx_map_snd]
  refine List.Nodup.map (fun m n same => ?_) List.nodup_range'
  exact Decimal.toString_injective (by simpa using same)

/-- A binding binds the route of a page to the import of its data. -/
structure Binds (index : SitePath) (w : PageWork) (b : Binding) : Prop where
  route : Json.Reads b.route (.str w.route.text)
  specifier : ∃ s, Json.Reads b.specifier (.str s) ∧ Imports index s w.dataPath

/-- The text of an index binds the route of each page in turn, each to an import of its own. -/
def Indexes (index : SitePath) (works : List PageWork) (content : String) : Prop :=
  ∃ bs, content = indexing bs ∧ List.Forall₂ (Binds index) works bs ∧ (bs.map Binding.name).Nodup

theorem binds_ofEntry {g : Generator} {index : SitePath} {w : PageWork} (made : w.Made g)
    (index_eq : join g.layout.dataDir Layout.indexFile = .ok index) (n : Nat) :
    Binds index w (.ofEntry index (w.entry, n)) where
  route := Json.reads_quoted fun c hc =>
    escapeChar_of_isNameChar (Route.isNameChar_of_mem_text made.route c hc)
  specifier := by
    obtain ⟨specifier, leads⟩ := imports_of_join made.route index_eq made.data
    refine ⟨_, Json.reads_quoted fun c hc => ?_, leads⟩
    change c ∈ (relativeImport index w.dataPath).toList at hc
    rw [specifier, String.toList_append, List.mem_append] at hc
    rcases hc with hc | hc
    · have plain : ∀ c ∈ "./".toList, Json.escapeChar c = [c] := Text.forall_of_all rfl
      exact plain c hc
    · exact escapeChar_of_isNameChar (Route.isNameChar_of_mem_fileStem made.route c hc)

theorem indexes_indexModule {g : Generator} {index : SitePath} {works : List PageWork}
    (made : ∀ w ∈ works, w.Made g)
    (index_eq : join g.layout.dataDir Layout.indexFile = .ok index) :
    Indexes index works (indexModule index (works.map PageWork.entry)) := by
  refine ⟨_, indexModule_eq index _, ?_, nodup_names index _⟩
  generalize 0 = n
  induction works generalizing n with
  | nil => exact .nil
  | cons w works ih =>
    obtain ⟨here, made⟩ := List.forall_mem_cons.mp made
    exact .cons (binds_ofEntry here index_eq n) (ih made (n + 1))

end Generator

end SitePublish
