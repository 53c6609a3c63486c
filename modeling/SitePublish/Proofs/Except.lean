/-!
# Steps that succeed

What a computation of several steps says when its result is known: each of its steps succeeded, or one
of them failed and the ones before it succeeded.
-/

set_option autoImplicit false

namespace SitePublish

variable {ε δ α β : Type}

theorem exists_of_bind_eq_ok {x : Except ε α} {f : α → Except ε β} {b : β}
    (h : (x >>= f) = .ok b) : ∃ a, x = .ok a ∧ f a = .ok b := by
  cases x with
  | error e => cases h
  | ok a => exact ⟨a, rfl, h⟩

theorem cases_of_bind_eq_error {x : Except ε α} {f : α → Except ε β} {e : ε}
    (h : (x >>= f) = .error e) : x = .error e ∨ ∃ a, x = .ok a ∧ f a = .error e := by
  cases x with
  | error e' =>
    cases h
    exact Or.inl rfl
  | ok a => exact Or.inr ⟨a, rfl, h⟩

theorem exists_of_map_eq_ok {x : Except ε α} {f : α → β} {b : β} (h : x.map f = .ok b) :
    ∃ a, x = .ok a ∧ f a = b := by
  cases x with
  | error e => cases h
  | ok a => exact ⟨a, rfl, Except.ok.inj h⟩

theorem exists_of_isOk {x : Except ε α} (h : x.isOk = true) : ∃ a, x = .ok a := by
  cases x with
  | error e => cases h
  | ok a => exact ⟨a, rfl⟩

theorem of_mapError_eq_ok {x : Except ε α} {f : ε → δ} {a : α} (h : x.mapError f = .ok a) :
    x = .ok a := by
  cases x with
  | error e => cases h
  | ok a' => exact congrArg Except.ok (Except.ok.inj h)

theorem mapError_injective {f : ε → δ} (hf : ∀ e e', f e = f e' → e = e') {x y : Except ε α}
    (h : x.mapError f = y.mapError f) : x = y := by
  rcases x with e | a <;> rcases y with e' | a'
  · rw [hf e e' (Except.error.inj h)]
  · cases h
  · cases h
  · rw [Except.ok.inj h]

end SitePublish
