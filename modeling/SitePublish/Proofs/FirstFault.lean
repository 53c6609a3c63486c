import Mathlib.Data.List.Basic

/-!
# First faults

A list is checked member by member, and the first member that does not fit to those in front of it gets
the blame. If what is sound in front stays sound, and no member to blame fits, then a list has a first
fault only if it is not sound, and never two.
-/

set_option autoImplicit false

namespace SitePublish

/-- What holds of the members in front ends at this one, which gets the blame. -/
inductive FirstFault {α ε : Type} (Sound : List α → Prop) (Blame : List α → α → ε → Prop)
    (l : List α) (e : ε) : Prop
  | intro {before after : List α} {x : α} (place : l = before ++ x :: after) (sound : Sound before)
      (blame : Blame before x e)

namespace FirstFault

variable {α ε : Type} {Sound : List α → Prop} {Blame : List α → α → ε → Prop} {l : List α} {e e' : ε}
  (front : ∀ a b, Sound (a ++ b) → Sound a)
  (faulty : ∀ before x e, Blame before x e → ¬ Sound (before ++ [x]))
include front faulty

theorem not_sound (h : FirstFault Sound Blame l e) : ¬ Sound l := by
  obtain ⟨rfl, -, blame⟩ := h
  rw [List.append_cons]
  exact fun sound => faulty _ _ _ blame (front _ _ sound)

theorem unique
    (single : ∀ before x e e', Sound before → Blame before x e → Blame before x e' → e = e')
    (h : FirstFault Sound Blame l e) (h' : FirstFault Sound Blame l e') : e = e' := by
  obtain ⟨rfl, sound, blame⟩ := h
  obtain ⟨place, sound', blame'⟩ := h'
  rcases List.append_eq_append_iff.mp place with ⟨more, rfl, rest⟩ | ⟨more, rfl, rest⟩
  · cases more with
    | nil =>
      obtain ⟨rfl, -⟩ := List.cons.inj rest
      rw [List.append_nil] at blame'
      exact single _ _ _ _ sound blame blame'
    | cons y more =>
      obtain ⟨rfl, -⟩ := List.cons.inj rest
      rw [List.append_cons] at sound'
      exact absurd (front _ _ sound') (faulty _ _ _ blame)
  · cases more with
    | nil =>
      obtain ⟨rfl, -⟩ := List.cons.inj rest
      rw [List.append_nil] at blame
      exact single _ _ _ _ sound' blame blame'
    | cons y more =>
      obtain ⟨rfl, -⟩ := List.cons.inj rest
      rw [List.append_cons] at sound
      exact absurd (front _ _ sound) (faulty _ _ _ blame')

/-- A check that finds lists sound or else their first fault accepts just the sound ones, and reports
just the first faults. -/
theorem decides {β : Type}
    (single : ∀ before x e e', Sound before → Blame before x e → Blame before x e' → e = e')
    {check : Except ε β} (accepts : ∀ b, check = .ok b → Sound l)
    (refuses : ∀ e, check = .error e → FirstFault Sound Blame l e) :
    ((∃ b, check = .ok b) ↔ Sound l) ∧ ∀ e, check = .error e ↔ FirstFault Sound Blame l e := by
  cases check with
  | ok b =>
    have sound := accepts b rfl
    exact ⟨⟨fun _ => sound, fun _ => ⟨b, rfl⟩⟩, fun e => ⟨fun failed => (by cases failed),
      fun fault => absurd sound (fault.not_sound front faulty)⟩⟩
  | error e' =>
    have fault := refuses e' rfl
    refine ⟨⟨?_, fun sound => absurd sound (fault.not_sound front faulty)⟩,
      fun e => ⟨refuses e, fun other => ?_⟩⟩
    · rintro ⟨b, ⟨⟩⟩
    · rw [fault.unique front faulty single other]

end FirstFault

end SitePublish
