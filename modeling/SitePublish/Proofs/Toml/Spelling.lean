import SitePublish.Proofs.Toml.Rest
import Mathlib.Data.List.Infix
import Mathlib.Data.List.TakeWhile

/-!
# How keys are spelled

A key is spelled on one line. Its segments stand there letter by letter, unless a segment in quotes has
an escape.
-/

set_option autoImplicit false

namespace SitePublish.Toml

variable {s rest : List Char}

section Letters

variable {c : Char}

theorem isText_of_isAscii (low : 0x20 ≤ c.toNat) (high : c.toNat ≤ 0x7E) : isText c = true := by
  simp only [isText, Bool.or_eq_true, Bool.and_eq_true, decide_eq_true_eq]
  exact Or.inl (Or.inr ⟨low, high⟩)

theorem isText_of_isSome_hexValue? (h : (Digest.hexValue? c).isSome) : isText c = true := by
  have bounds : 48 ≤ c.toNat ∧ c.toNat ≤ 102 := by
    simp only [Digest.hexValue?, Char.le_def, UInt32.le_iff_toNat_le, Char.reduceVal,
      UInt32.reduceToNat] at h
    unfold Char.toNat
    grind
  exact isText_of_isAscii (by omega) (by omega)

theorem isText_of_isBareKeyChar (h : isBareKeyChar c = true) : isText c = true := by
  delta isBareKeyChar Char.isAlphanum Char.isAlpha Char.isUpper Char.isLower Char.isDigit at h
  simp only [Bool.or_eq_true, Bool.and_eq_true, decide_eq_true_eq, UInt32.le_iff_toNat_le,
    Char.reduceVal, UInt32.reduceToNat] at h
  rcases h with (h | rfl) | rfl
  · refine isText_of_isAscii ?_ ?_ <;> unfold Char.toNat <;> omega
  · rfl
  · rfl

theorem isText_of_isSpace (h : isSpace c = true) : isText c = true := by
  simp only [isSpace, Bool.or_eq_true, decide_eq_true_eq] at h
  rcases h with rfl | rfl <;> rfl

theorem isText_of_escaped? {d : Char} (h : escaped? c = some d) : isText c = true := by
  unfold escaped? at h
  split at h
  all_goals first | rfl | cases h

theorem isSome_of_mapM {α β : Type} {f : α → Option β} {as : List α} {bs : List β}
    (h : as.mapM f = some bs) : ∀ a ∈ as, (f a).isSome := by
  induction as generalizing bs with
  | nil => simp
  | cons a as ih =>
    simp only [List.mapM_cons, Option.bind_eq_bind, Option.bind_eq_some_iff] at h
    obtain ⟨b, hb, bs', hbs, -⟩ := h
    intro a' ha'
    rcases List.mem_cons.mp ha' with rfl | later
    · rw [hb, Option.isSome_some]
    · exact ih hbs a' later

theorem isText_of_charOfHex? {digits : List Char} {d : Char} (h : charOfHex? digits = some d) :
    ∀ c ∈ digits, isText c = true := by
  simp only [charOfHex?, Option.bind_eq_bind, Option.bind_eq_some_iff] at h
  obtain ⟨values, read, -⟩ := h
  exact fun c hc => isText_of_isSome_hexValue? (isSome_of_mapM read c hc)

end Letters

section Bodies

variable {t : List Char}

theorem isText_escape {mark : Char} {digits body : List Char} (hmark : isText mark = true)
    (hdigits : ∀ c ∈ digits, isText c = true) (hbody : ∀ c ∈ body, isText c = true) :
    ∀ c ∈ '\\' :: mark :: (digits ++ body), isText c = true :=
  List.forall_mem_cons.mpr ⟨rfl, List.forall_mem_cons.mpr
    ⟨hmark, List.forall_mem_append.mpr ⟨hdigits, hbody⟩⟩⟩

theorem basicBody_spelled (h : basicBody s = some (t, rest)) :
    ∃ body, s = body ++ rest ∧ (∀ c ∈ body, isText c = true) ∧ (t <+: body ∨ '\\' ∈ body) := by
  fun_induction basicBody s generalizing t with
  | case1 | case7 => cases h
  | case2 s =>
    cases h
    exact ⟨['"'], rfl, by simp [isText], Or.inl List.nil_prefix⟩
  | case3 a b c d s ih =>
    obtain ⟨x, t', hex, later, rfl⟩ := exists_of_push h
    obtain ⟨body, rfl, text, -⟩ := ih later
    exact ⟨'\\' :: 'u' :: ([a, b, c, d] ++ body), rfl,
      isText_escape rfl (isText_of_charOfHex? hex) text, Or.inr List.mem_cons_self⟩
  | case4 a b c d e f g i s ih =>
    obtain ⟨x, t', hex, later, rfl⟩ := exists_of_push h
    obtain ⟨body, rfl, text, -⟩ := ih later
    exact ⟨'\\' :: 'U' :: ([a, b, c, d, e, f, g, i] ++ body), rfl,
      isText_escape rfl (isText_of_charOfHex? hex) text, Or.inr List.mem_cons_self⟩
  | case5 c s _ _ ih =>
    obtain ⟨x, t', escape, later, rfl⟩ := exists_of_push h
    obtain ⟨body, rfl, text, -⟩ := ih later
    exact ⟨'\\' :: c :: ([] ++ body), rfl,
      isText_escape (isText_of_escaped? escape) (fun _ h => absurd h List.not_mem_nil) text,
      Or.inr List.mem_cons_self⟩
  | case6 c s _ _ _ _ plain ih =>
    obtain ⟨x, t', same, later, rfl⟩ := exists_of_push h
    cases same
    obtain ⟨body, rfl, text, letters⟩ := ih later
    refine ⟨c :: body, rfl, List.forall_mem_cons.mpr ⟨plain, text⟩, ?_⟩
    exact letters.imp (List.prefix_cons_inj c).mpr (List.mem_cons_of_mem c)

theorem literalBody_spelled (h : literalBody s = some (t, rest)) :
    ∃ body, s = body ++ rest ∧ (∀ c ∈ body, isText c = true) ∧ t <+: body := by
  fun_induction literalBody s generalizing t with
  | case1 | case4 => cases h
  | case2 s =>
    cases h
    exact ⟨['\''], rfl, by simp [isText], List.nil_prefix⟩
  | case3 c s _ plain ih =>
    obtain ⟨x, t', same, later, rfl⟩ := exists_of_push h
    cases same
    obtain ⟨body, rfl, text, letters⟩ := ih later
    exact ⟨c :: body, rfl, List.forall_mem_cons.mpr ⟨plain, text⟩,
      (List.prefix_cons_inj c).mpr letters⟩

end Bodies

/-- The letters spell these keys on one line: each key stands there, or else there is a backslash. -/
structure Spells (spelled : List Char) (keys : List String) : Prop where
  isText : ∀ c ∈ spelled, isText c = true
  letters : ∀ k ∈ keys, k.toList <:+: spelled ∨ '\\' ∈ spelled

theorem Spells.append {a b : List Char} {ks js : List String} (ha : Spells a ks) (hb : Spells b js) :
    Spells (a ++ b) (ks ++ js) := by
  refine ⟨List.forall_mem_append.mpr ⟨ha.isText, hb.isText⟩, List.forall_mem_append.mpr ⟨?_, ?_⟩⟩
  · intro k hk
    exact (ha.letters k hk).imp (fun h => h.trans (List.prefix_append a b).isInfix)
      (List.mem_append_left b)
  · intro k hk
    exact (hb.letters k hk).imp (fun h => h.trans (List.suffix_append a b).isInfix)
      (List.mem_append_right a)

theorem spells_of_text {a : List Char} (h : ∀ c ∈ a, isText c = true) : Spells a [] :=
  ⟨h, fun _ hk => absurd hk List.not_mem_nil⟩

theorem exists_skipSpace (s : List Char) : ∃ blanks, s = blanks ++ skipSpace s ∧ Spells blanks [] :=
  ⟨s.takeWhile isSpace, List.takeWhile_append_dropWhile.symm,
    spells_of_text fun _ hc => isText_of_isSpace (List.mem_takeWhile_imp hc)⟩

theorem simpleKey?_spelled {key : String} (h : simpleKey? s = some (key, rest)) :
    ∃ spelled, s = spelled ++ rest ∧ spelled ≠ [] ∧ Spells spelled [key] := by
  unfold simpleKey? at h
  split at h
  · obtain ⟨body, rfl, text, letters⟩ := basicBody_spelled (exists_of_toText h)
    refine ⟨'"' :: body, rfl, List.cons_ne_nil _ _, List.forall_mem_cons.mpr ⟨rfl, text⟩, ?_⟩
    exact List.forall_mem_singleton.mpr
      (letters.imp (fun h => List.infix_cons h.isInfix) (List.mem_cons_of_mem _))
  · obtain ⟨body, rfl, text, letters⟩ := literalBody_spelled (exists_of_toText h)
    refine ⟨'\'' :: body, rfl, List.cons_ne_nil _ _, List.forall_mem_cons.mpr ⟨rfl, text⟩, ?_⟩
    exact List.forall_mem_singleton.mpr (Or.inl (List.infix_cons letters.isInfix))
  · split at h
    · cases h
    · next some_letters =>
      cases h
      refine ⟨s.takeWhile isBareKeyChar, List.takeWhile_append_dropWhile.symm, some_letters, ?_, ?_⟩
      · exact fun c hc => isText_of_isBareKeyChar (List.mem_takeWhile_imp hc)
      · exact List.forall_mem_singleton.mpr (Or.inl (by rw [String.toList_ofList]))

theorem segments?_spelled {room : Nat} {keys : List String}
    (h : segments? room s = some (keys, rest)) :
    ∃ spelled, s = spelled ++ rest ∧ spelled ≠ [] ∧ Spells spelled keys := by
  induction room generalizing s keys with
  | zero => cases h
  | succ room ih =>
    rw [segments?] at h
    split at h
    · cases h
    · next key more read =>
      obtain ⟨front, hfront, blank⟩ := exists_skipSpace s
      obtain ⟨spelled, hspelled, some_letters, spells⟩ := simpleKey?_spelled read
      obtain ⟨back, hback, blank'⟩ := exists_skipSpace more
      have first : Spells (front ++ spelled ++ back) [key] := (blank.append spells).append blank'
      have cut : s = front ++ spelled ++ back ++ skipSpace more := by
        rw [hfront, hspelled, List.append_assoc _ back, ← hback, List.append_assoc]
      have ne : front ++ spelled ++ back ≠ [] := by simp [some_letters]
      split at h
      · next later dot =>
        obtain ⟨⟨keys', s₁⟩, further, same⟩ := Option.map_eq_some_iff.mp h
        cases same
        obtain ⟨spelled', rfl, -, spells'⟩ := ih further
        refine ⟨front ++ spelled ++ back ++ '.' :: spelled', ?_, by simp, ?_⟩
        · rw [cut, dot]
          simp
        · refine (first.append ⟨?_, ?_⟩ : Spells _ ([key] ++ keys'))
          · exact List.forall_mem_cons.mpr ⟨rfl, spells'.isText⟩
          · exact fun k hk => (spells'.letters k hk).imp List.infix_cons (List.mem_cons_of_mem '.')
      · cases h
        exact ⟨front ++ spelled ++ back, cut, ne, first⟩

theorem key?_spelled {keys : List String} (h : key? s = some (keys, rest)) :
    ∃ spelled, s = spelled ++ rest ∧ spelled ≠ [] ∧ Spells spelled keys :=
  segments?_spelled h

end SitePublish.Toml
