import Mathlib.Data.List.Nodup
import SitePublish.Component.Registry
import SitePublish.Proofs.Dict
import SitePublish.Proofs.FirstFault
import SitePublish.Proofs.Text.Split

/-!
# Designs of a registry

What a registry has been checked for: each of its designs has distinct keys without empty segments,
and defaults that its fields take. A list of designs is accepted just when this and the names allow
it, and the registry then holds these designs and no others; else it is refused for its first fault,
where the fields of a design come before its name, and the key of a field before its default.
-/

set_option autoImplicit false

namespace SitePublish

structure Design.WellFormed (d : Design) : Prop where
  valid : ∀ f ∈ d.fields, f.hasValidKey = true
  distinct : (d.fields.map Field.key).Nodup
  accepted : ∀ f ∈ d.fields, f.kind.accepts f.default = true

theorem Design.WellFormed.field?_eq {d : Design} (h : d.WellFormed) {f : Field}
    (hf : f ∈ d.fields) : d.field? f.key = some f := by
  obtain ⟨-, distinct, -⟩ := h
  unfold Design.field?
  generalize d.fields = fields at hf distinct
  induction fields with
  | nil => exact absurd hf List.not_mem_nil
  | cons g rest ih =>
    rw [List.map_cons, List.nodup_cons] at distinct
    rcases List.mem_cons.mp hf with rfl | hf
    · simp
    · have hne : g.key ≠ f.key := fun he => distinct.1 (he ▸ List.mem_map_of_mem hf)
      rw [List.find?_cons_of_neg (by simpa using hne)]
      exact ih hf distinct.2

def DottedKey (key : String) : Prop :=
  ∃ names : List String, names ≠ [] ∧ (∀ n ∈ names, n ≠ "" ∧ '.' ∉ n.toList) ∧
    key = Text.joinWith '.' names

theorem Field.hasValidKey_iff (f : Field) : f.hasValidKey = true ↔ DottedKey f.key := by
  have pieces : f.hasValidKey = true ↔ "" ∉ Text.splitOn '.' f.key := by
    have empty (p : List Char) : String.ofList p = "" ↔ p = [] := String.ofList_eq_empty_iff
    simp [hasValidKey, Text.splitOn, empty]
  rw [pieces]
  constructor
  · intro solid
    refine ⟨Text.splitOn '.' f.key, mt List.map_eq_nil_iff.mp (Text.splitChars_ne_nil _ _),
      fun n hn => ⟨fun he => solid (he ▸ hn), ?_⟩, (Text.joinWith_splitOn '.' f.key).symm⟩
    obtain ⟨p, hp, rfl⟩ := List.mem_map.mp hn
    rw [String.toList_ofList]
    exact SitePath.not_mem_of_mem_splitChars hp
  · rintro ⟨names, ne, solid, joined⟩ mem
    rw [joined, Text.splitOn_joinWith ne fun n hn => (solid n hn).2] at mem
    exact (solid "" mem).1 rfl

namespace Registry

/-- Fields with keys of their own and defaults that they take. -/
structure FieldsSound (fields : List Field) : Prop where
  dotted : ∀ f ∈ fields, DottedKey f.key
  apart : (fields.map Field.key).Nodup
  taken : ∀ f ∈ fields, f.kind.accepts f.default = true

theorem FieldsSound.wellFormed {d : Design} (h : FieldsSound d.fields) : d.WellFormed :=
  ⟨fun f hf => f.hasValidKey_iff.mpr (h.dotted f hf), h.apart, h.taken⟩

theorem fieldsSound_nil : FieldsSound [] :=
  ⟨List.forall_mem_nil _, List.nodup_nil, List.forall_mem_nil _⟩

theorem FieldsSound.front (a b : List Field) (h : FieldsSound (a ++ b)) : FieldsSound a where
  dotted f hf := h.dotted f (List.mem_append_left b hf)
  apart := (List.map_append ▸ h.apart).of_append_left
  taken f hf := h.taken f (List.mem_append_left b hf)

/-- What is wrong with a field behind sound ones: its key, else that it is there again, else its
default. -/
inductive FieldBlame (design : String) (before : List Field) (f : Field) : RegistryError → Prop
  | key (broken : ¬ DottedKey f.key) : FieldBlame design before f (.invalidKey design f.key)
  | again (dotted : DottedKey f.key) (mem : f.key ∈ before.map Field.key) :
      FieldBlame design before f (.duplicateField design f.key)
  | default (dotted : DottedKey f.key) (fresh : f.key ∉ before.map Field.key)
      (refused : f.kind.accepts f.default = false) :
      FieldBlame design before f (.invalidDefault design f.key f.kind)

def FieldFault (design : String) (fields : List Field) : RegistryError → Prop :=
  FirstFault FieldsSound (FieldBlame design) fields

section Fields

variable {design : String} {before fields : List Field} {f : Field} {seen : List String}

theorem FieldsSound.snoc (h : FieldsSound before) (dotted : DottedKey f.key)
    (fresh : f.key ∉ before.map Field.key) (taken : f.kind.accepts f.default = true) :
    FieldsSound (before ++ [f]) where
  dotted := List.forall_mem_append.mpr ⟨h.dotted, List.forall_mem_singleton.mpr dotted⟩
  apart := by
    rw [List.map_append, List.map_singleton, ← List.concat_eq_append]
    exact h.apart.concat fresh
  taken := List.forall_mem_append.mpr ⟨h.taken, List.forall_mem_singleton.mpr taken⟩

theorem not_fieldsSound_of_blame (before : List Field) (f : Field) (e : RegistryError)
    (h : FieldBlame design before f e) : ¬ FieldsSound (before ++ [f]) := by
  intro sound
  cases h with
  | key broken => exact broken (sound.dotted f (by simp))
  | again _ mem =>
    have apart := sound.apart
    rw [List.map_append, List.map_singleton] at apart
    exact (List.nodup_append.mp apart).2.2 _ mem _ (List.mem_singleton_self _) rfl
  | default _ _ refused =>
    rw [sound.taken f (by simp)] at refused
    cases refused

theorem fieldBlame_unique (before : List Field) (f : Field) (e e' : RegistryError)
    (_ : FieldsSound before) (h : FieldBlame design before f e) (h' : FieldBlame design before f e') :
    e = e' := by
  cases h with
  | key broken =>
    cases h' with
    | key => rfl
    | again dotted | default dotted => exact absurd dotted broken
  | again dotted mem =>
    cases h' with
    | key broken => exact absurd dotted broken
    | again => rfl
    | default _ fresh => exact absurd mem fresh
  | default dotted fresh =>
    cases h' with
    | key broken => exact absurd dotted broken
    | again _ mem => exact absurd mem fresh
    | default => rfl

theorem checkFields_spec (sound : FieldsSound before)
    (known : ∀ key, key ∈ seen ↔ key ∈ before.map Field.key) :
    (checkFields design seen fields = .ok () → FieldsSound (before ++ fields)) ∧
      ∀ e, checkFields design seen fields = .error e → FieldFault design (before ++ fields) e := by
  induction fields generalizing before seen with
  | nil =>
    rw [List.append_nil]
    exact ⟨fun _ => sound, fun _ h => (by cases h)⟩
  | cons f rest ih =>
    rw [checkFields]
    split
    · next broken =>
      refine ⟨fun h => (by cases h), ?_⟩
      rintro _ ⟨⟩
      exact .intro rfl sound (.key fun dotted => by simp [f.hasValidKey_iff.mpr dotted] at broken)
    · next valid =>
      have dotted : DottedKey f.key := f.hasValidKey_iff.mp (by simpa using valid)
      split
      · next again =>
        refine ⟨fun h => (by cases h), ?_⟩
        rintro _ ⟨⟩
        exact .intro rfl sound (.again dotted ((known f.key).mp (by simpa using again)))
      · next unseen =>
        have fresh : f.key ∉ before.map Field.key :=
          fun mem => unseen (by simpa using (known f.key).mpr mem)
        split
        · next refused =>
          refine ⟨fun h => (by cases h), ?_⟩
          rintro _ ⟨⟩
          exact .intro rfl sound (.default dotted fresh (by simpa using refused))
        · next taken =>
          have known' : ∀ key, key ∈ f.key :: seen ↔ key ∈ (before ++ [f]).map Field.key := by
            intro key
            rw [List.mem_cons, known, List.map_append, List.mem_append, List.map_singleton,
              List.mem_singleton, or_comm]
          have more := ih (sound.snoc dotted fresh (by simpa using taken)) known'
          rwa [← List.append_cons] at more

theorem checkFields_decides (design : String) (fields : List Field) :
    ((∃ u, checkFields design [] fields = .ok u) ↔ FieldsSound fields) ∧
      ∀ e, checkFields design [] fields = .error e ↔ FieldFault design fields e := by
  obtain ⟨accepts, refuses⟩ : (checkFields design [] fields = .ok () → FieldsSound ([] ++ fields)) ∧
      ∀ e, checkFields design [] fields = .error e → FieldFault design ([] ++ fields) e :=
    checkFields_spec fieldsSound_nil fun _ => Iff.rfl
  exact FirstFault.decides FieldsSound.front not_fieldsSound_of_blame fieldBlame_unique
    (fun _ ok => accepts ok) refuses

end Fields

/-- Designs that can be registered together. -/
structure Acceptable (designs : List Design) : Prop where
  apart : (designs.map Design.name).Nodup
  sound : ∀ d ∈ designs, FieldsSound d.fields

theorem acceptable_nil : Acceptable [] := ⟨List.nodup_nil, List.forall_mem_nil _⟩

theorem Acceptable.sublist {a b : List Design} (h : Acceptable b) (sub : a.Sublist b) :
    Acceptable a :=
  ⟨h.apart.sublist (sub.map Design.name), fun d hd => h.sound d (sub.mem hd)⟩

theorem Acceptable.front (a b : List Design) (h : Acceptable (a ++ b)) : Acceptable a :=
  h.sublist (List.sublist_append_left a b)

/-- What is wrong with a design behind acceptable ones: one of its fields, else its name. -/
inductive DesignBlame (before : List Design) (d : Design) : RegistryError → Prop
  | fields {e : RegistryError} (fault : FieldFault d.name d.fields e) : DesignBlame before d e
  | again (sound : FieldsSound d.fields) (mem : d.name ∈ before.map Design.name) :
      DesignBlame before d (.duplicateDesign d.name)

/-- What a list of designs is refused for. -/
def Refuses (designs : List Design) : RegistryError → Prop :=
  FirstFault Acceptable DesignBlame designs

structure Holds (registered : Dict String Design) (designs : List Design) : Prop where
  ordered : registered.SortedKeys
  found : ∀ name d, registered.get? name = some d ↔ d ∈ designs ∧ d.name = name

section Designs

variable {before designs : List Design} {d : Design} {accepted : Dict String Design}

theorem Acceptable.snoc (h : Acceptable before) (sound : FieldsSound d.fields)
    (fresh : d.name ∉ before.map Design.name) : Acceptable (before ++ [d]) where
  apart := by
    rw [List.map_append, List.map_singleton, ← List.concat_eq_append]
    exact h.apart.concat fresh
  sound := List.forall_mem_append.mpr ⟨h.sound, List.forall_mem_singleton.mpr sound⟩

theorem not_acceptable_of_blame (before : List Design) (d : Design) (e : RegistryError)
    (h : DesignBlame before d e) : ¬ Acceptable (before ++ [d]) := by
  intro acceptable
  cases h with
  | fields fault =>
    exact fault.not_sound FieldsSound.front not_fieldsSound_of_blame (acceptable.sound d (by simp))
  | again _ mem =>
    have apart := acceptable.apart
    rw [List.map_append, List.map_singleton] at apart
    exact (List.nodup_append.mp apart).2.2 _ mem _ (List.mem_singleton_self _) rfl

theorem designBlame_unique (before : List Design) (d : Design) (e e' : RegistryError)
    (_ : Acceptable before) (h : DesignBlame before d e) (h' : DesignBlame before d e') : e = e' := by
  cases h with
  | fields fault =>
    cases h' with
    | fields fault' =>
      exact fault.unique FieldsSound.front not_fieldsSound_of_blame fieldBlame_unique fault'
    | again sound =>
      exact absurd sound (fault.not_sound FieldsSound.front not_fieldsSound_of_blame)
  | again sound =>
    cases h' with
    | fields fault =>
      exact absurd sound (fault.not_sound FieldsSound.front not_fieldsSound_of_blame)
    | again => rfl

theorem not_refuses_duplicate (apart : (designs.map Design.name).Nodup) (name : String) :
    ¬ Refuses designs (.duplicateDesign name) := by
  rintro ⟨rfl, -, blame⟩
  cases blame with
  | fields fault =>
    obtain ⟨-, -, blame⟩ := fault
    cases blame
  | again _ mem =>
    rw [List.map_append, List.map_cons] at apart
    exact (List.nodup_append.mp apart).2.2 _ mem _ List.mem_cons_self rfl

theorem holds_nil : Holds [] [] where
  ordered := Dict.sortedKeys_nil
  found _ _ := ⟨fun found => (nomatch found), fun mem => absurd mem.1 List.not_mem_nil⟩

theorem Holds.mem_keys_iff (h : Holds accepted before) (name : String) :
    name ∈ accepted.keys ↔ name ∈ before.map Design.name := by
  rw [Dict.mem_keys_iff, List.mem_map]
  exact exists_congr fun d => h.found name d

theorem Holds.contains_iff (h : Holds accepted before) (name : String) :
    accepted.contains name = true ↔ name ∈ before.map Design.name := by
  rw [Dict.contains, Option.isSome_iff_exists, ← Dict.mem_keys_iff, h.mem_keys_iff]

theorem Holds.length_eq (h : Holds accepted before) (apart : (before.map Design.name).Nodup) :
    accepted.length = before.length := by
  have same : accepted.keys.Perm (before.map Design.name) :=
    (List.perm_ext_iff_of_nodup h.ordered.nodup apart).mpr h.mem_keys_iff
  simpa [Dict.keys] using same.length_eq

theorem Holds.snoc (h : Holds accepted before) (fresh : d.name ∉ before.map Design.name) :
    Holds (accepted.insert d.name d) (before ++ [d]) where
  ordered := h.ordered.insert d.name d
  found name e := by
    rw [Dict.get?_insert, List.mem_append, List.mem_singleton, or_and_right, ← h.found]
    have absent (e : Design) : ¬ accepted.get? d.name = some e := fun found =>
      fresh (List.mem_map.mpr ⟨e, (h.found d.name e).mp found⟩)
    split
    · next same =>
      subst same
      simp only [Option.some.injEq, absent, false_or]
      exact ⟨fun he => he ▸ ⟨rfl, rfl⟩, fun he => he.1.symm⟩
    · next other =>
      refine ⟨Or.inl, fun he => he.resolve_right ?_⟩
      rintro ⟨rfl, rfl⟩
      exact other rfl

theorem addDesigns_spec (acceptable : Acceptable before) (holds : Holds accepted before) :
    (∀ r, addDesigns accepted designs = .ok r →
      Acceptable (before ++ designs) ∧ Holds r.designs (before ++ designs)) ∧
      ∀ e, addDesigns accepted designs = .error e → Refuses (before ++ designs) e := by
  induction designs generalizing before accepted with
  | nil =>
    rw [List.append_nil]
    refine ⟨?_, fun _ h => (by cases h)⟩
    rintro _ ⟨⟩
    exact ⟨acceptable, holds⟩
  | cons d rest ih =>
    obtain ⟨checked, faults⟩ := checkFields_decides d.name d.fields
    rw [addDesigns]
    split
    · next e failed =>
      refine ⟨fun _ h => (by cases h), ?_⟩
      rintro _ ⟨⟩
      exact .intro rfl acceptable (.fields ((faults e).mp failed))
    · next ok =>
      have sound := checked.mp ⟨_, ok⟩
      split
      · next again =>
        refine ⟨fun _ h => (by cases h), ?_⟩
        rintro _ ⟨⟩
        exact .intro rfl acceptable (.again sound ((holds.contains_iff d.name).mp again))
      · next unseen =>
        have fresh := mt (holds.contains_iff d.name).mpr unseen
        have more := ih (acceptable.snoc sound fresh) (holds.snoc fresh)
        rwa [← List.append_cons] at more

theorem ofDesigns_spec (designs : List Design) :
    (∀ r, ofDesigns designs = .ok r → Acceptable designs ∧ Holds r.designs designs) ∧
      ∀ e, ofDesigns designs = .error e → Refuses designs e :=
  addDesigns_spec acceptable_nil holds_nil

theorem ofDesigns_decides (designs : List Design) :
    ((∃ r, ofDesigns designs = .ok r) ↔ Acceptable designs) ∧
      ∀ e, ofDesigns designs = .error e ↔ Refuses designs e :=
  have spec := ofDesigns_spec designs
  FirstFault.decides Acceptable.front not_acceptable_of_blame designBlame_unique
    (fun r ok => (spec.1 r ok).1) spec.2

theorem Acceptable.append {a b : List Design} (ha : Acceptable a) (hb : Acceptable b)
    (apart : ∀ d ∈ a, d.name ∉ b.map Design.name) : Acceptable (a ++ b) where
  apart := by
    rw [List.map_append]
    refine List.nodup_append.mpr ⟨ha.apart, hb.apart, ?_⟩
    rintro _ mem _ mem' rfl
    obtain ⟨d, hd, he⟩ := List.mem_map.mp mem
    exact apart d hd (he ▸ mem')
  sound := List.forall_mem_append.mpr ⟨ha.sound, hb.sound⟩

section Behind

variable {front : List Design} (sound : Acceptable front)
  (apart : ∀ d ∈ front, d.name ∉ designs.map Design.name) {e : RegistryError}
include apart

theorem designBlame_append_iff (mem : d ∈ designs) :
    DesignBlame (front ++ before) d e ↔ DesignBlame before d e := by
  have name_iff : d.name ∈ (front ++ before).map Design.name ↔ d.name ∈ before.map Design.name := by
    rw [List.map_append, List.mem_append]
    refine or_iff_right fun there => ?_
    obtain ⟨b, hb, same⟩ := List.mem_map.mp there
    exact apart b hb (same ▸ List.mem_map_of_mem mem)
  constructor
  · intro h
    cases h with
    | fields fault => exact .fields fault
    | again sound there => exact .again sound (name_iff.mp there)
  · intro h
    cases h with
    | fields fault => exact .fields fault
    | again sound there => exact .again sound (name_iff.mpr there)

include sound

/-- In front of what is refused acceptable designs with other names do not matter. -/
theorem refuses_append_iff : Refuses (front ++ designs) e ↔ Refuses designs e := by
  constructor
  · intro h
    cases h with
    | @intro before after x place acceptable blame =>
      -- The fault is behind the front, as no member of an acceptable list is to blame.
      obtain ⟨more, rfl, behind⟩ : ∃ more, before = front ++ more ∧ designs = more ++ x :: after := by
        rcases List.append_eq_append_iff.mp place with ⟨more, hm, rest⟩ | ⟨_ | ⟨y, more⟩, rfl, rest⟩
        · exact ⟨more, hm, rest⟩
        · exact ⟨[], by simp, rest.symm⟩
        · obtain ⟨rfl, -⟩ := List.cons.inj rest
          rw [List.append_cons] at sound
          exact absurd (sound.front _ _) (not_acceptable_of_blame _ _ _ blame)
      have later : Acceptable more := acceptable.sublist (List.sublist_append_right front more)
      exact .intro behind later ((designBlame_append_iff apart (by simp [behind])).mp blame)
  · intro h
    cases h with
    | @intro before after x behind acceptable blame =>
      have both : Acceptable (front ++ before) := sound.append acceptable fun d hd mem =>
        apart d hd (by rw [behind, List.map_append]; exact List.mem_append_left _ mem)
      exact .intro (by rw [behind, List.append_assoc]) both
        ((designBlame_append_iff apart (by simp [behind])).mpr blame)

end Behind

end Designs

theorem wellFormed_of_ofDesigns {designs : List Design} {r : Registry} {name : String} {d : Design}
    (h : ofDesigns designs = .ok r) (hd : r.get? name = some d) : d.WellFormed := by
  obtain ⟨acceptable, holds⟩ := (ofDesigns_spec designs).1 r h
  exact (acceptable.sound d ((holds.found name d).mp hd).1).wellFormed

/-- Which lists of designs are accepted, what a registry holds then, and what they are refused for
otherwise. -/
theorem accepted_or_blamed (designs : List Design) :
    ((∃ r, ofDesigns designs = .ok r) ↔ Acceptable designs) ∧
    (∀ r, ofDesigns designs = .ok r →
      (∀ name d, r.get? name = some d ↔ d ∈ designs ∧ d.name = name) ∧
      (∀ name, name ∈ r.names ↔ name ∈ designs.map Design.name) ∧ r.names.Pairwise (· < ·) ∧
      r.size = designs.length) ∧
    ∀ e, ofDesigns designs = .error e ↔ Refuses designs e := by
  obtain ⟨accepts, refuses⟩ := ofDesigns_decides designs
  refine ⟨accepts, fun r ok => ?_, refuses⟩
  obtain ⟨acceptable, holds⟩ := (ofDesigns_spec designs).1 r ok
  exact ⟨holds.found, holds.mem_keys_iff, holds.ordered, holds.length_eq acceptable.apart⟩

/-- The repetition goes before the default of the same field, and both before the name. -/
example : ofDesigns [⟨"Card", []⟩, ⟨"Card", [⟨"a", .text, .str ""⟩, ⟨"a", .text, .null⟩]⟩] =
    .error (.duplicateField "Card" "a") := by
  decide

end Registry

end SitePublish
