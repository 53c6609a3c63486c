import SitePublish.Proofs.Text.Occurrence
import SitePublish.Proofs.Toml.Writing
import SitePublish.Settings.Load
import Mathlib.Order.Bounds.Basic

/-!
# Lines of warnings

A warning about an unknown key carries the first line that holds the letters of its last segment, be it in
a comment, a value or another key. That line is one on which the key is written exactly if no line before
it has these letters.
-/

set_option autoImplicit false

namespace SitePublish

namespace Config

open Toml (Value)

def schema : Dict String (List String) :=
  [("source_control", ["owner", "repo", "production_branch", "preview_branch", "api_url", "token_env",
      "timeout_secs"]),
   ("hosting", ["project", "team_id", "api_url", "token_env", "custom_domain", "timeout_secs"]),
   ("generator", ["data_dir", "app_dir", "renderer_import", "component_modules", "registry"]),
   ("filter", ["exclude", "include"]), ("project", ["root"]), ("versions", ["per_page"]),
   ("locks", ["dir"])]

/-- The keys of a value that counts as a table, but for the given ones. -/
def keysBut (names : List String) (v : Value) : List String :=
  ((v.entries?.getD []).map Prod.fst).filter fun k => !names.contains k

def unknownIn (key : String) (v : Value) : List (List String) :=
  match schema.get? key with
  | some names => (keysBut names v).map fun k => [key, k]
  | none => [[key]]

def unknownPaths (entries : List (String × Value)) : List (List String) :=
  entries.flatMap fun e => unknownIn e.1 e.2

/-- The path leads to the key by which a date or a time counts as a table. -/
def IntoDate (entries : List (String × Value)) (keys : List String) : Prop :=
  ∃ key text, keys = [key, Toml.datetimeKey] ∧ (key, .datetime text) ∈ entries

def dotted (keys : List String) : String := Text.joinWith '.' keys

theorem dotted_singleton (key : String) : dotted [key] = key := String.ofList_toList

theorem dotted_pair (key k : String) : dotted [key, k] = key ++ "." ++ k := by
  rw [dotted, Text.joinWith, ← String.toList_inj]
  simp [Text.joinChars]

section Sections

variable {v : Value} {unknown : List String}

theorem unknown_of_fields? {names : List String} {fs : List (Option Value)}
    (h : Toml.fields? names v = some (fs, unknown)) : unknown = keysBut names v := by
  unfold Toml.fields? at h
  split at h
  · cases h
    rfl
  · obtain ⟨es, hes, same⟩ := Option.map_eq_some_iff.mp h
    cases same
    rw [keysBut, hes, Option.getD_some]

def Reports {α : Type} (names : List String) (read : Value → Option (Found α)) : Prop :=
  ∀ v a unknown, read v = some (a, unknown) → unknown = keysBut names v

theorem reports_readFields {α : Type} (names : List String)
    (build : List (Option Value) → Option α) : Reports names (readFields names build) := by
  intro v a unknown h
  obtain ⟨⟨fs, found⟩, hf, h⟩ := Option.bind_eq_some_iff.mp h
  obtain ⟨b, -, same⟩ := Option.bind_eq_some_iff.mp h
  cases same
  exact unknown_of_fields? hf

theorem Reports.section_eq {α : Type} {names : List String} {read : Value → Option (Found α)}
    {key : String} {place : Found α → Found Config} {c : Config} (reports : Reports names read)
    (fields : schema.get? key = some names)
    (below : ∀ found, (place found).2 = found.2.map fun k => key ++ "." ++ k)
    (h : (read v).map place = some (c, unknown)) :
    unknown = (unknownIn key v).map dotted := by
  obtain ⟨⟨a, found⟩, hread, same⟩ := Option.map_eq_some_iff.mp h
  have brought : unknown = found.map fun k => key ++ "." ++ k := by rw [← below (a, found), same]
  rw [brought, reports v a found hread, unknownIn, fields, List.map_map]
  exact List.map_congr_left fun k _ => (dotted_pair key k).symm

theorem readSection_unknown {c c' : Config} {key : String}
    (h : readSection c key v = some (c', unknown)) : unknown = (unknownIn key v).map dotted := by
  simp only [readSection] at h
  split_ifs at h
  case neg =>
    cases h
    have strange : schema.get? key = none := by
      simp [schema, Dict.get?, *, eq_comm]
    rw [unknownIn, strange, List.map_singleton, dotted_singleton]
  all_goals
    subst key
    exact (reports_readFields _ _).section_eq rfl (fun _ => rfl) h

theorem readSections_unknown {entries : List (String × Value)} {c c' : Config}
    (h : readSections c entries = some (c', unknown)) :
    unknown = (unknownPaths entries).map dotted := by
  induction entries generalizing c unknown with
  | nil =>
    cases h
    rfl
  | cons e entries ih =>
    simp only [readSections, Option.bind_eq_bind, Option.bind_eq_some_iff] at h
    obtain ⟨⟨c₁, first⟩, hfirst, ⟨c₂, more⟩, hmore, same⟩ := h
    cases same
    rw [unknownPaths, List.flatMap_cons, List.map_append, readSection_unknown hfirst, ih hmore,
      unknownPaths]

theorem reaches_of_mem_unknownPaths {entries : List (String × Value)} {keys : List String}
    (h : keys ∈ unknownPaths entries) : Toml.Reaches entries keys ∨ IntoDate entries keys := by
  obtain ⟨⟨key, v⟩, mem, h⟩ := List.mem_flatMap.mp h
  rw [unknownIn] at h
  split at h
  · next names _ =>
    obtain ⟨k, hk, rfl⟩ := List.mem_map.mp h
    obtain ⟨e, he, rfl⟩ := List.mem_map.mp (List.mem_of_mem_filter hk)
    cases v with
    | table inner => exact Or.inl (.inner mem (.key he))
    | datetime text =>
      cases List.mem_singleton.mp he
      exact Or.inr ⟨key, text, rfl, mem⟩
    | _ => cases he
  · rw [List.mem_singleton.mp h]
    exact Or.inl (.key mem)

end Sections

end Config

namespace ConfigWarning

open Config (IntoDate dotted unknownPaths)
open Toml (WrittenAt)

variable {content needle : String} {keys : List String} {entries : List (String × Toml.Value)} {n : Nat}

def Mentions (content needle : String) (n : Nat) : Prop :=
  ∃ i line, n = i + 1 ∧ (Text.lines content)[i]? = some line ∧ Text.contains needle line = true

/-- The key with this path is written on the line with this number. -/
def WrittenOn (content : String) (keys : List String) (n : Nat) : Prop :=
  ∃ front place, content.toList = front ++ place ∧
    WrittenAt (Toml.withoutMark content.toList) keys place ∧ n = front.count '\n' + 1

theorem lineOf_eq_some_iff :
    lineOf content needle = some n ↔ IsLeast {j | Mentions content needle j} n := by
  rw [lineOf, Option.map_eq_some_iff]
  constructor
  · rintro ⟨i, found, rfl⟩
    obtain ⟨bound, holds, first⟩ := List.findIdx?_eq_some_iff_getElem.mp found
    refine ⟨⟨i, _, rfl, List.getElem?_eq_getElem bound, holds⟩, ?_⟩
    rintro j ⟨i', line, rfl, at_line, mentions⟩
    by_contra before
    obtain ⟨bound', rfl⟩ := List.getElem?_eq_some_iff.mp at_line
    exact first i' (by omega) mentions
  · rintro ⟨⟨i, line, rfl, at_line, mentions⟩, least⟩
    obtain ⟨bound, rfl⟩ := List.getElem?_eq_some_iff.mp at_line
    refine ⟨i, List.findIdx?_eq_some_iff_getElem.mpr ⟨bound, mentions, fun j before holds => ?_⟩, rfl⟩
    have earlier : i + 1 ≤ j + 1 :=
      least ⟨j, _, rfl, List.getElem?_eq_getElem (before.trans bound), holds⟩
    omega

theorem exists_lineOf_le (h : Mentions content needle n) :
    ∃ m ≤ n, lineOf content needle = some m := by
  cases found : lineOf content needle with
  | some m => exact ⟨m, (lineOf_eq_some_iff.mp found).2 h, rfl⟩
  | none =>
    obtain ⟨i, line, -, at_line, mentions⟩ := h
    have unmentioned := List.findIdx?_eq_none_iff.mp (Option.map_eq_none_iff.mp found)
    exact absurd mentions (by simp [unmentioned line (List.mem_of_getElem? at_line)])

theorem exists_writtenOn {place : List Char}
    (h : WrittenAt (Toml.withoutMark content.toList) keys place) : ∃ n, WrittenOn content keys n := by
  obtain ⟨front, same⟩ := h.spot.1.trans (Toml.withoutMark_suffix content.toList)
  exact ⟨_, front, place, same.symm, h, rfl⟩

theorem exists_writtenOn_of_unknown (parsed : Toml.parse? content = some entries)
    (unknown : keys ∈ unknownPaths entries) :
    (∃ n, WrittenOn content keys n) ∨ IntoDate entries keys := by
  refine (Config.reaches_of_mem_unknownPaths unknown).imp_left fun reaches => ?_
  obtain ⟨place, written⟩ := Toml.exists_writtenAt parsed reaches
  exact exists_writtenOn written

theorem leaf_dotted {k : String} (h : keys.getLast? = some k) : leaf (dotted keys) = leaf k := by
  have last : (keys.map String.toList).getLast? = some k.toList := by
    rw [List.getLast?_map, h, Option.map_some]
  rw [leaf, leaf, Text.splitOn, Text.splitOn, List.getLast?_map, List.getLast?_map, dotted,
    Text.joinWith, String.toList_ofList, Text.getLast?_splitChars_joinChars last]

theorem leaf_inside (k : String) : (leaf k).toList <:+: k.toList := by
  rw [leaf, Text.splitOn, List.getLast?_map]
  cases last : (Text.splitChars '.' k.toList).getLast? with
  | none => exact List.nil_infix
  | some p =>
    rw [Option.map_some, Option.getD_some, String.toList_ofList]
    exact Text.infix_of_mem_splitChars (List.mem_of_getLast? last)

theorem WrittenOn.mentions (h : WrittenOn content keys n) :
    Mentions content (leaf (dotted keys)) n ∨ Mentions content "\\" n := by
  obtain ⟨front, place, same, written, rfl⟩ := h
  obtain ⟨path, rest, k, read, last, mem⟩ := written.spot.2
  obtain ⟨spelled, rfl, ne, spells⟩ := Toml.key?_spelled read
  have feed : '\n' ∉ spelled := fun h => absurd (spells.isText _ h) (by decide)
  have ret : '\r' ∉ spelled := fun h => absurd (spells.isText _ h) (by decide)
  obtain ⟨line, at_line, inside⟩ := Text.exists_line_of_append front rest feed ret ne
  rw [← same] at at_line
  have number : (Text.lines content)[front.count '\n']? = some (String.ofList line) := by
    rw [Text.lines, List.getElem?_map, at_line, Option.map_some]
  have holds {needle : String} (h : needle.toList <:+: spelled) :
      Mentions content needle (front.count '\n' + 1) :=
    ⟨_, _, rfl, number, Text.contains_iff.mpr (by rw [String.toList_ofList]; exact h.trans inside)⟩
  rcases spells.letters k mem with letters | escape
  · rw [leaf_dotted last]
    exact Or.inl (holds ((leaf_inside k).trans letters))
  · exact Or.inr (holds ((List.singleton_infix_iff _ _).mpr escape))

/-- The line of a warning, if it has one, is one on which the key is written. -/
def PointsAt (content : String) (keys : List String) (w : ConfigWarning) : Prop :=
  ∀ n, w.line = some n → WrittenOn content keys n

/-- What the line of a warning has to do with the lines on which the key is written. -/
structure Locates (content : String) (entries : List (String × Toml.Value)) (keys : List String)
    (w : ConfigWarning) : Prop where
  /-- The line is the first one with the letters of the last segment. -/
  line_eq : ∀ n, w.line = some n ↔ IsLeast {j | Mentions content (leaf w.key) j} n
  /-- The key is written, unless it stands for what a date holds. -/
  written : (∃ n, WrittenOn content keys n) ∨ IntoDate entries keys
  /-- Where the key is written are its letters, unless one of them is escaped. -/
  mentioned : ∀ n, WrittenOn content keys n →
    Mentions content (leaf w.key) n ∨ Mentions content "\\" n
  /-- Then there is a line, and it is not behind the key. -/
  reached : ∀ n, WrittenOn content keys n →
    (∃ m ≤ n, w.line = some m) ∨ Mentions content "\\" n
  /-- The line is right exactly if the letters do not come before the key. -/
  pointsAt_iff : PointsAt content keys w ↔ ∀ j, Mentions content (leaf w.key) j →
    ∃ m ≤ j, Mentions content (leaf w.key) m ∧ WrittenOn content keys m

theorem pointsAt_ofKey_iff {file key : String} :
    PointsAt content keys (ofKey file content key) ↔
      ∀ j, Mentions content (leaf key) j →
        ∃ m ≤ j, Mentions content (leaf key) m ∧ WrittenOn content keys m := by
  constructor
  · intro points j mentions
    obtain ⟨m, before, line⟩ := exists_lineOf_le mentions
    exact ⟨m, before, (lineOf_eq_some_iff.mp line).1, points m line⟩
  · intro own n line
    obtain ⟨mentions, least⟩ := lineOf_eq_some_iff.mp line
    obtain ⟨m, before, mentions', written⟩ := own n mentions
    rwa [Nat.le_antisymm (least mentions') before]

/-- Every warning of a file that loads is about an unknown key, and it points at the key exactly if the
first line with the letters of its last segment is one on which it is written. -/
theorem warned_lines {files : FileTree} {path : String} {c : Config} {ws : List ConfigWarning}
    (loads : Config.load files path = .ok (c, ws)) :
    ∃ content entries, files.readText path = .ok content ∧ Toml.parse? content = some entries ∧
      ws = (unknownPaths entries).map (fun keys => ofKey path content (dotted keys)) ∧
      ∀ keys ∈ unknownPaths entries,
        Locates content entries keys (ofKey path content (dotted keys)) := by
  unfold Config.load at loads
  split at loads
  · cases loads
  · next content read =>
    split at loads
    · cases loads
    · next c' unknown parsed =>
      cases loads
      obtain ⟨entries, hentries, sections⟩ := Option.bind_eq_some_iff.mp parsed
      refine ⟨content, entries, read, hentries, ?_, fun keys mem => ?_⟩
      · rw [Config.readSections_unknown sections, List.map_map]
        rfl
      · exact ⟨fun n => lineOf_eq_some_iff, exists_writtenOn_of_unknown hentries mem,
          fun n written => written.mentions,
          fun n written => written.mentions.imp_left exists_lineOf_le, pointsAt_ofKey_iff⟩

theorem not_writtenOn_comment {comment rest : List Char}
    (same : content.toList = '#' :: comment ++ '\n' :: rest)
    (text : ∀ c ∈ comment, Toml.isText c = true) : ¬ WrittenOn content keys 1 := by
  rintro ⟨front, place, cut, ⟨d, s, reads, writes⟩, number⟩
  rw [same] at reads
  rcases reads.start_or_behind with ⟨-, rfl⟩ | ⟨d', left, step, behind⟩
  · rcases writes.head_or_key with header | entry
    · cases header
    · cases entry
  · have ended : (comment ++ '\n' :: rest).dropWhile Toml.isText = '\n' :: rest := by
      rw [List.dropWhile_append_of_pos text]
      rfl
    have line : Toml.line? .empty ('#' :: comment ++ '\n' :: rest) = some (.empty, rest) := by
      rw [List.cons_append, Toml.line?, ended]
      rfl
    cases line.symm.trans step
    obtain ⟨between, rfl⟩ := (writes.spot.1.trans (Toml.skipSpace_suffix s)).trans behind
    have split : '#' :: comment ++ '\n' :: between ++ place = front ++ place := by
      rw [← cut, same]
      simp
    rw [← List.append_cancel_right split] at number
    simp at number

def settingsTree (content : String) : FileTree :=
  ⟨"/work", [(["siteforge.toml"], .file (Text.utf8 content))]⟩

theorem load_settingsTree {content key : String}
    (read : (settingsTree content).readText "siteforge.toml" = .ok content)
    (parsed : (Config.parse? content).map Prod.snd = some [key]) :
    ∃ c, Config.load (settingsTree content) "siteforge.toml" =
      .ok (c, [ofKey "siteforge.toml" content key]) := by
  obtain ⟨⟨c, unknown⟩, hparse, rfl⟩ := Option.map_eq_some_iff.mp parsed
  exact ⟨c, by rw [Config.load, read]; simp only [hparse, List.map_singleton]⟩

theorem not_intoDate {key k : String} (h : k ≠ Toml.datetimeKey) : ¬ IntoDate entries [key, k] := by
  rintro ⟨key', text, same, -⟩
  cases same
  exact h rfl

theorem Mentions.mem {numbers : List Nat} (h : Mentions content needle n)
    (all : ∀ i < (Text.lines content).length,
      ((Text.lines content)[i]?).any (Text.contains needle) = true → i + 1 ∈ numbers) :
    n ∈ numbers := by
  obtain ⟨i, line, rfl, at_line, holds⟩ := h
  refine all i (List.getElem?_eq_some_iff.mp at_line).1 ?_
  rw [at_line, Option.any_some, holds]

def misspelled : String := "[hosting]\nprojct = \"bakery\"\n"

/-- A warning that points at its key. -/
theorem misspelled_key_located : ∃ c w,
    Config.load (settingsTree misspelled) "siteforge.toml" = .ok (c, [w]) ∧
      w.key = "hosting.projct" ∧ w.line = some 2 ∧ WrittenOn misspelled ["hosting", "projct"] 2 := by
  have read : (settingsTree misspelled).readText "siteforge.toml" = .ok misspelled := by
    decide +kernel
  have parsed : (Config.parse? misspelled).map Prod.snd = some ["hosting.projct"] := by decide +kernel
  have paths : (Toml.parse? misspelled).map unknownPaths = some [["hosting", "projct"]] := by
    decide +kernel
  have line : lineOf misspelled (leaf "hosting.projct") = some 2 := by decide +kernel
  obtain ⟨c, loads⟩ := load_settingsTree read parsed
  obtain ⟨content, entries, hread, hentries, -, located⟩ := warned_lines loads
  rw [read] at hread
  cases hread
  rw [hentries, Option.map_some, Option.some.injEq] at paths
  rw [paths, List.forall_mem_singleton] at located
  refine ⟨c, _, loads, rfl, line, ?_⟩
  obtain ⟨n, written⟩ := located.written.resolve_right (not_intoDate (by decide))
  rcases located.mentioned n written with mentions | escape
  · have here : n ∈ [2] := mentions.mem (by decide)
    exact List.mem_singleton.mp here ▸ written
  · have nowhere : n ∈ [] := escape.mem (by decide)
    cases nowhere

def commented : String := "# projct is not a key\n[hosting]\nprojct = \"bakery\"\n"

/-- The letters of a key in a comment above it. -/
theorem comment_pointed_at : ∃ c w,
    Config.load (settingsTree commented) "siteforge.toml" = .ok (c, [w]) ∧
      w.key = "hosting.projct" ∧ w.line = some 1 ∧ ¬ WrittenOn commented ["hosting", "projct"] 1 ∧
      WrittenOn commented ["hosting", "projct"] 3 := by
  have read : (settingsTree commented).readText "siteforge.toml" = .ok commented := by
    decide
  have parsed : (Config.parse? commented).map Prod.snd = some ["hosting.projct"] := by decide +kernel
  have paths : (Toml.parse? commented).map unknownPaths = some [["hosting", "projct"]] := by
    decide +kernel
  have line : lineOf commented (leaf "hosting.projct") = some 1 := by decide +kernel
  obtain ⟨c, loads⟩ := load_settingsTree read parsed
  have start : commented.toList = '#' :: " projct is not a key".toList ++
      '\n' :: "[hosting]\nprojct = \"bakery\"\n".toList := by
    decide +kernel
  have text : " projct is not a key".toList.all Toml.isText = true := by decide +kernel
  have unwritten : ¬ WrittenOn commented ["hosting", "projct"] 1 :=
    not_writtenOn_comment start (List.all_eq_true.mp text)
  refine ⟨c, _, loads, rfl, line, unwritten, ?_⟩
  obtain ⟨entries, hentries, hpaths⟩ := Option.map_eq_some_iff.mp paths
  obtain ⟨n, written⟩ := (exists_writtenOn_of_unknown hentries
    (hpaths ▸ List.mem_singleton_self ["hosting", "projct"])).resolve_right (not_intoDate (by decide))
  rcases written.mentions with mentions | escape
  · have here : n ∈ [1, 3] := mentions.mem (by decide +kernel)
    rw [List.mem_cons, List.mem_singleton] at here
    rcases here with rfl | rfl
    · exact absurd written unwritten
    · exact written
  · have nowhere : n ∈ [] := escape.mem (by decide +kernel)
    cases nowhere

end ConfigWarning

end SitePublish
