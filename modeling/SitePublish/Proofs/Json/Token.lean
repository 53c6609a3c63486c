import SitePublish.Proofs.Json.Number

/-!
# Cutting text into tokens

What a piece of text between two tokens is cut into does not depend on what stands before it. What
follows matters only behind a number and a word: it has to begin with a character that ends them.
-/

set_option autoImplicit false

namespace SitePublish.Json

/-- The text does not go on with a number or a word. -/
def Delimits : List Char → Prop
  | [] => True
  | c :: _ => isNumberChar c = false ∧ isWordChar c = false

/-- Between two tokens the text is cut into these tokens, whatever follows. -/
def Cuts (s : List Char) (ts : List Token) : Prop :=
  ∀ before rest, lexFrom .between before (s ++ rest) = lexFrom .between (ts.reverse ++ before) rest

/-- The text is cut into these tokens if a number or a word at its end does not go on behind it. -/
def CutsBefore (s : List Char) (ts : List Token) : Prop :=
  ∀ before rest, Delimits rest →
    lexFrom .between before (s ++ rest) = lexFrom .between (ts.reverse ++ before) rest

section Pieces

variable {s s' : List Char} {ts ts' : List Token} {c : Char}

theorem Cuts.cutsBefore (h : Cuts s ts) : CutsBefore s ts := fun before rest _ => h before rest

theorem Cuts.append (h : Cuts s ts) (h' : Cuts s' ts') : Cuts (s ++ s') (ts ++ ts') := by
  intro before rest
  rw [List.append_assoc, h, h', List.reverse_append, List.append_assoc]

theorem Cuts.appendBefore (h : Cuts s ts) (h' : CutsBefore s' ts') :
    CutsBefore (s ++ s') (ts ++ ts') := by
  intro before rest ends
  rw [List.append_assoc, h, h' _ _ ends, List.reverse_append, List.append_assoc]

theorem CutsBefore.append (h : CutsBefore s ts) (h' : Cuts (c :: s') ts')
    (ends : Delimits (c :: s')) : Cuts (s ++ c :: s') (ts ++ ts') := by
  intro before rest
  rw [List.append_assoc, h before (c :: s' ++ rest) ends, h', List.reverse_append,
    List.append_assoc]

theorem cuts_nil : Cuts [] [] := fun _ _ => rfl

theorem cuts_of_lexBetween (h : lexBetween c = some (.between, ts)) : Cuts [c] ts := by
  intro before rest
  simp only [List.singleton_append, lexFrom, lexStep, h]

theorem cuts_cons (h : lexBetween c = some (.between, ts)) (h' : Cuts s ts') :
    Cuts (c :: s) (ts ++ ts') := (cuts_of_lexBetween h).append h'

theorem cuts_blank (h : lexBetween c = some (.between, [])) (h' : Cuts s ts) : Cuts (c :: s) ts :=
  (cuts_of_lexBetween h).append h'

theorem cuts_spaces (n : Nat) : Cuts (List.replicate n ' ') [] := by
  induction n with
  | zero => exact cuts_nil
  | succ n ih => exact cuts_blank (by decide) ih

theorem cuts_newline (level : Nat) : Cuts (newline level) [] :=
  cuts_blank (by decide) (cuts_spaces (2 * level))

theorem cuts_closing (level : Nat) {t : Token} (h : lexBetween c = some (.between, [t])) :
    Cuts (newline level ++ [c]) [t] :=
  (cuts_newline level).append (cuts_of_lexBetween h)

end Pieces

section Numbers

variable {before : List Token} {held s rest : List Char} {t : Token}

theorem lexFrom_number_append (all : ∀ c ∈ s, isNumberChar c = true) :
    lexFrom (.number held) before (s ++ rest) =
      lexFrom (.number (s.reverse ++ held)) before rest := by
  induction s generalizing held with
  | nil => rfl
  | cons c s ih =>
    rw [List.forall_mem_cons] at all
    rw [List.cons_append, lexFrom, lexStep, if_pos all.1]
    simpa using ih all.2

theorem lexFrom_number_close (closed : closeNumber held = some t) (ends : Delimits rest) :
    lexFrom (.number held) before rest = lexFrom .between (t :: before) rest := by
  cases rest with
  | nil => simp [lexFrom, lexEnd, closed]
  | cons c rest =>
    simp only [lexFrom, lexStep, ends.1, Bool.false_eq_true, if_false, closed, Option.bind_eq_bind,
      Option.bind_some]
    rcases lexBetween c with - | ⟨next, ts⟩ <;> simp

theorem Literal.Proper.cutsBefore {l : Literal} (h : l.Proper) :
    CutsBefore l.chars [.number l] := by
  intro before rest ends
  obtain ⟨c, s, hs, start⟩ := h.exists_chars_cons
  have all := h.isNumberChar
  have read := h.ofChars?_chars
  rw [hs, List.forall_mem_cons] at all
  rw [hs] at read ⊢
  have first : lexBetween c = some (.number [c], []) := by
    have unspaced : isSpace c = false ∧ c ≠ '"' := by
      rw [Bool.or_eq_true, decide_eq_true_eq] at start
      rcases start with digit | rfl
      · constructor
        · rw [← Bool.not_eq_true, isSpace]
          simp only [Bool.or_eq_true, decide_eq_true_eq]
          rintro (((rfl | rfl) | rfl) | rfl) <;> cases digit
        · rintro rfl
          cases digit
      · exact ⟨rfl, by decide⟩
    rw [lexBetween, unspaced.1, if_neg Bool.false_ne_true, if_neg unspaced.2, if_pos start]
  have closed : closeNumber (s.reverse ++ [c]) = some (.number l) := by
    rw [closeNumber, List.reverse_append, List.reverse_reverse, List.reverse_singleton,
      List.singleton_append, read, Option.map_some]
  rw [List.cons_append, lexFrom, lexStep, first]
  dsimp only
  rw [lexFrom_number_append all.2, lexFrom_number_close closed ends]
  rfl

end Numbers

section Words

variable {before : List Token} {held s rest : List Char} {t : Token}

theorem lexFrom_word_append (all : ∀ c ∈ s, isWordChar c = true) :
    lexFrom (.word held) before (s ++ rest) =
      lexFrom (.word (s.reverse ++ held)) before rest := by
  induction s generalizing held with
  | nil => rfl
  | cons c s ih =>
    rw [List.forall_mem_cons] at all
    rw [List.cons_append, lexFrom, lexStep, if_pos all.1]
    simpa using ih all.2

theorem lexFrom_word_close (closed : closeWord held = some t) (ends : Delimits rest) :
    lexFrom (.word held) before rest = lexFrom .between (t :: before) rest := by
  cases rest with
  | nil => simp [lexFrom, lexEnd, closed]
  | cons c rest =>
    simp only [lexFrom, lexStep, ends.2, Bool.false_eq_true, if_false, closed, Option.bind_eq_bind,
      Option.bind_some]
    rcases lexBetween c with - | ⟨next, ts⟩ <;> simp

theorem cutsBefore_word {c : Char} {w : Word} (first : lexBetween c = some (.word [c], []))
    (all : s.all isWordChar = true) (read : Word.ofChars? (c :: s) = some w) :
    CutsBefore (c :: s) [.word w] := by
  intro before rest ends
  have closed : closeWord (s.reverse ++ [c]) = some (.word w) := by
    rw [closeWord, List.reverse_append, List.reverse_reverse, List.reverse_singleton,
      List.singleton_append, read, Option.map_some]
  rw [List.cons_append, lexFrom, lexStep, first]
  dsimp only
  rw [lexFrom_word_append (List.all_eq_true.mp all), lexFrom_word_close closed ends]
  rfl

end Words

section Strings

variable {before : List Token} {held : List Unit16} {rest : List Char}

theorem lexFrom_escapeChar (c : Char) :
    lexFrom (.string held .none) before (escapeChar c ++ rest) =
      lexFrom (.string (.point c :: held) .none) before rest := by
  unfold escapeChar
  split_ifs with quote backslash b f n r t control
  · subst quote; rfl
  · subst backslash; rfl
  · subst b; rfl
  · subst f; rfl
  · subst n; rfl
  · subst r; rfl
  · subst t; rfl
  · have high := Digest.hexValue?_hexDigit (c.toNat / 16) (by omega)
    have low := Digest.hexValue?_hexDigit (c.toNat % 16) (by omega)
    have zero : Digest.hexValue? '0' = some 0 := by decide
    have value : Unit16.ofNat (16 * (c.toNat / 16) + c.toNat % 16) = .point c := by
      rw [Nat.div_add_mod, Unit16.ofNat, if_neg (by omega), if_neg (by omega), Char.ofNat_toNat]
    simp [lexFrom, lexStep, lexString, high, low, zero, value]
  · simp [lexFrom, lexStep, lexString, quote, backslash, control]

theorem lexFrom_escapeChars (s : List Char) :
    lexFrom (.string held .none) before (s.flatMap escapeChar ++ rest) =
      lexFrom (.string ((s.map Unit16.point).reverse ++ held) .none) before rest := by
  induction s generalizing held with
  | nil => rfl
  | cons c s ih =>
    rw [List.flatMap_cons, List.append_assoc, lexFrom_escapeChar, ih]
    simp

theorem decodeUnits_points (s : List Char) : decodeUnits (s.map .point) = some s := by
  induction s with
  | nil => rfl
  | cons c s ih => rw [List.map_cons, decodeUnits, ih, Option.map_some]

theorem cuts_quoted (s : String) : Cuts (quoted s) [.string (some s)] := by
  intro before rest
  have opened : lexBetween '"' = some (.string [] .none, []) := by decide
  rw [quoted, List.cons_append, List.cons_append, List.append_assoc, lexFrom, lexStep, opened]
  dsimp only
  rw [lexFrom_escapeChars]
  simp [lexFrom, lexStep, lexString, decodeUnits_points]

end Strings

end SitePublish.Json
