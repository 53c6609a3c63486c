import SitePublish.Component.RegistryFile
import SitePublish.Proofs.Component.Registry
import SitePublish.Proofs.Except

/-!
# Designs of a registry file

A design of a file takes the place of whatever is there under its name, a built-in design or an
earlier design of the same file. So a file is checked like the list of its designs, behind the
built-in ones that it leaves, as long as it has each name once. A repeated name is never reported:
only the last design under it is checked and kept.
-/

set_option autoImplicit false

namespace SitePublish

namespace RegistryFile

/-- The built-in designs that a file adds to, without those that it replaces. -/
def remaining (extend : Bool) (designs : List Design) : List Design :=
  (if extend then Registry.builtin.designs.values else []).filter
    fun d => d.name ∉ designs.map Design.name

def lasts : List Design → List Design
  | [] => []
  | d :: rest => if d.name ∈ rest.map Design.name then lasts rest else d :: lasts rest

section Lasts

variable {designs : List Design}

theorem lasts_sublist (designs : List Design) : (lasts designs).Sublist designs := by
  induction designs with
  | nil => exact List.Sublist.refl []
  | cons d rest ih =>
    rw [lasts]
    split
    · exact ih.cons d
    · exact ih.cons_cons d

theorem lasts_of_nodup (apart : (designs.map Design.name).Nodup) : lasts designs = designs := by
  induction designs with
  | nil => rfl
  | cons d rest ih =>
    obtain ⟨fresh, apart⟩ := List.nodup_cons.mp apart
    rw [lasts, if_neg fresh, ih apart]

theorem nodup_lasts (designs : List Design) : ((lasts designs).map Design.name).Nodup := by
  induction designs with
  | nil => exact List.nodup_nil
  | cons d rest ih =>
    rw [lasts]
    split
    · exact ih
    · next fresh =>
      exact List.nodup_cons.mpr
        ⟨fun mem => fresh (((lasts_sublist rest).map Design.name).mem mem), ih⟩

theorem foldl_replace (there designs : List Design) : designs.foldl replace there =
    there.filter (fun d => d.name ∉ designs.map Design.name) ++ lasts designs := by
  induction designs generalizing there with
  | nil => simp [lasts]
  | cons d rest ih =>
    have both : (there.filter fun e => e.name ≠ d.name).filter
        (fun e => e.name ∉ rest.map Design.name) =
          there.filter fun e => e.name ∉ (d :: rest).map Design.name := by
      rw [List.filter_filter]
      refine List.filter_congr fun e _ => ?_
      rw [List.map_cons, ← Bool.decide_and, decide_eq_decide, List.mem_cons, not_or, and_comm]
    rw [List.foldl_cons, ih, replace, List.filter_append, both, lasts]
    by_cases later : d.name ∈ rest.map Design.name
    · rw [if_pos later, List.filter_cons_of_neg (by simpa using later), List.filter_nil,
        List.append_nil]
    · rw [if_neg later, List.filter_cons_of_pos (by simpa using later), List.filter_nil,
        List.append_assoc, List.singleton_append]

theorem designsOf_eq (extend : Bool) (designs : List Design) :
    designsOf extend designs = remaining extend designs ++ lasts designs :=
  foldl_replace _ designs

end Lasts

section Remaining

variable {extend : Bool} {designs : List Design}

theorem acceptable_builtin : Registry.Acceptable Registry.builtin.designs.values := by
  have registered : Registry.ofDesigns Registry.builtin.designs.values = .ok Registry.builtin := by
    decide +kernel
  exact (Registry.ofDesigns_decides _).1.mp ⟨_, registered⟩

theorem acceptable_remaining : Registry.Acceptable (remaining extend designs) := by
  have there : Registry.Acceptable (if extend then Registry.builtin.designs.values else []) := by
    split
    · exact acceptable_builtin
    · exact Registry.acceptable_nil
  exact there.sublist List.filter_sublist

theorem remaining_apart {d : Design} (hd : d ∈ remaining extend designs) :
    d.name ∉ designs.map Design.name :=
  of_decide_eq_true (List.mem_filter.mp hd).2

theorem remaining_apart_lasts {d : Design} (hd : d ∈ remaining extend designs) :
    d.name ∉ (lasts designs).map Design.name :=
  fun mem => remaining_apart hd (((lasts_sublist designs).map Design.name).mem mem)

theorem nodup_kept : ((remaining extend designs ++ lasts designs).map Design.name).Nodup := by
  rw [List.map_append]
  refine List.nodup_append.mpr ⟨acceptable_remaining.apart, nodup_lasts designs, ?_⟩
  rintro _ mem _ mem' rfl
  obtain ⟨d, hd, he⟩ := List.mem_map.mp mem
  exact remaining_apart_lasts hd (he ▸ mem')

end Remaining

/-- Without the designs that are replaced a list is checked like with them just when none is, or when
it has a first fault that stays. -/
theorem ofDesigns_lasts_eq_iff (extend : Bool) (designs : List Design) :
    Registry.ofDesigns (remaining extend designs ++ lasts designs) =
        Registry.ofDesigns (remaining extend designs ++ designs) ↔
      (designs.map Design.name).Nodup ∨
        ∃ e, Registry.Refuses designs e ∧ Registry.Refuses (lasts designs) e := by
  obtain ⟨accepts, refuses⟩ := Registry.ofDesigns_decides (remaining extend designs ++ designs)
  obtain ⟨-, refuses'⟩ := Registry.ofDesigns_decides (remaining extend designs ++ lasts designs)
  have whole_iff (e : RegistryError) : Registry.Refuses (remaining extend designs ++ designs) e ↔
      Registry.Refuses designs e :=
    Registry.refuses_append_iff acceptable_remaining fun _ => remaining_apart
  have lasts_iff (e : RegistryError) :
      Registry.Refuses (remaining extend designs ++ lasts designs) e ↔
        Registry.Refuses (lasts designs) e :=
    Registry.refuses_append_iff acceptable_remaining fun _ => remaining_apart_lasts
  constructor
  · intro same
    by_cases apart : (designs.map Design.name).Nodup
    · exact Or.inl apart
    · cases whole : Registry.ofDesigns (remaining extend designs ++ designs) with
      | ok r =>
        have apart' := (accepts.mp ⟨r, whole⟩).apart
        rw [List.map_append] at apart'
        exact absurd apart'.of_append_right apart
      | error e =>
        rw [whole] at same
        exact Or.inr ⟨e, (whole_iff e).mp ((refuses e).mp whole),
          (lasts_iff e).mp ((refuses' e).mp same)⟩
  · rintro (apart | ⟨e, whole, kept⟩)
    · rw [lasts_of_nodup apart]
    · rw [(refuses e).mpr ((whole_iff e).mpr whole), (refuses' e).mpr ((lasts_iff e).mpr kept)]

section Loading

variable {files : FileTree} {path content : String} {extend : Bool} {designs : List Design}
  (read : files.readText path = .ok content)
  (parsed : (Toml.parse? content).bind contents? = some (extend, designs))
include read parsed

theorem load_eq : load files path =
    (Registry.ofDesigns (remaining extend designs ++ lasts designs)).mapError (.invalid path) := by
  simp only [load, read, parse, parsed, ← designsOf_eq]
  cases Registry.ofDesigns (designsOf extend designs) <;> rfl

/-- What is checked are the last designs of a file under their names, behind the built-in ones that
it leaves, so no name is repeated. This comes to what checking all designs of the file does just when
it has each name once, or when all its designs have a first fault that the last ones have as well. -/
theorem load_eq_ofDesigns_iff :
    load files path =
        (Registry.ofDesigns (remaining extend designs ++ lasts designs)).mapError (.invalid path) ∧
    (∀ name, load files path ≠ .error (.invalid path (.duplicateDesign name))) ∧
    (load files path =
        (Registry.ofDesigns (remaining extend designs ++ designs)).mapError (.invalid path) ↔
      (designs.map Design.name).Nodup ∨
        ∃ e, Registry.Refuses designs e ∧ Registry.Refuses (lasts designs) e) := by
  have invalid (e e' : RegistryError)
      (h : RegistryFileError.invalid path e = .invalid path e') : e = e' :=
    (RegistryFileError.invalid.inj h).2
  have loaded := load_eq read parsed
  refine ⟨loaded, fun name failed => ?_, ?_⟩
  · have duplicate : Registry.ofDesigns (remaining extend designs ++ lasts designs) =
        .error (.duplicateDesign name) := mapError_injective invalid (loaded.symm.trans failed)
    exact Registry.not_refuses_duplicate nodup_kept name
      (((Registry.ofDesigns_decides _).2 _).mp duplicate)
  · rw [loaded, ← ofDesigns_lasts_eq_iff]
    exact ⟨mapError_injective invalid, congrArg _⟩

end Loading

def fileTree (content : String) : FileTree :=
  ⟨"/work", [(["designs.toml"], .file (Text.utf8 content))]⟩

def extending : String :=
  "extend_builtin = true\n[[design]]\nname = \"Hero\"\n[[design]]\nname = \"Menu\"\n"

theorem extending_checked_whole :
    load (fileTree extending) "designs.toml" =
        (Registry.ofDesigns (remaining true [⟨"Hero", []⟩, ⟨"Menu", []⟩] ++
          [⟨"Hero", []⟩, ⟨"Menu", []⟩])).mapError (.invalid "designs.toml") ∧
      (remaining true [⟨"Hero", []⟩, ⟨"Menu", []⟩]).length = 6 := by
  have read : (fileTree extending).readText "designs.toml" = .ok extending := by decide +kernel
  have parsed : (Toml.parse? extending).bind contents? =
      some (true, [⟨"Hero", []⟩, ⟨"Menu", []⟩]) := by
    decide +kernel
  obtain ⟨-, -, whole⟩ := load_eq_ofDesigns_iff read parsed
  exact ⟨whole.mpr (Or.inl (by decide)), by decide⟩

def repeating : String :=
  "[[design]]\nname = \"Card\"\n[[design.field]]\nkey = \"title\"\nkind = \"text\"\ndefault = \"\"\n" ++
  "[[design]]\nname = \"Card\"\n"

/-- A list with a repeated name is refused, the file with that list is not. -/
theorem repeated_design_dropped :
    (fileTree repeating).readText "designs.toml" = .ok repeating ∧
    (Toml.parse? repeating).bind contents? =
      some (false, [⟨"Card", [⟨"title", .text, .str ""⟩]⟩, ⟨"Card", []⟩]) ∧
    load (fileTree repeating) "designs.toml" = .ok ⟨[("Card", ⟨"Card", []⟩)]⟩ ∧
    (Registry.ofDesigns (remaining false [⟨"Card", [⟨"title", .text, .str ""⟩]⟩, ⟨"Card", []⟩] ++
      [⟨"Card", [⟨"title", .text, .str ""⟩]⟩, ⟨"Card", []⟩])).mapError
        (RegistryFileError.invalid "designs.toml") =
      .error (.invalid "designs.toml" (.duplicateDesign "Card")) := by
  have read : (fileTree repeating).readText "designs.toml" = .ok repeating := by decide +kernel
  have parsed : (Toml.parse? repeating).bind contents? =
      some (false, [⟨"Card", [⟨"title", .text, .str ""⟩]⟩, ⟨"Card", []⟩]) := by
    decide +kernel
  refine ⟨read, parsed, ?_, ?_⟩
  · rw [load_eq read parsed]
    decide +kernel
  · decide +kernel

end RegistryFile

end SitePublish
