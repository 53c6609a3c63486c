import SitePublish.Proofs.Text.Split

/-!
# Occurrences of a text

A text occurs in another one when it stands there in one piece. Where the other one is put together
around a character that the text does not have, the text occurs in one of the parts. Lines are
pieces of a text, and the first lines are those of its beginning as soon as that has as many line
feeds.
-/

set_option autoImplicit false

namespace SitePublish.Text

variable {needle s a b : List Char} {sep : Char}

theorem occursIn_iff : occursIn needle s = true ↔ needle <:+: s := by
  induction s with
  | nil => simp [occursIn]
  | cons c s ih =>
    rw [occursIn, Bool.or_eq_true, ih, List.isPrefixOf_iff_prefix, List.infix_cons_iff]

theorem contains_iff {needle s : String} :
    contains needle s = true ↔ needle.toList <:+: s.toList := occursIn_iff

section Parts

theorem prefix_append_sep (free : sep ∉ needle) (h : needle <+: a ++ sep :: b) : needle <+: a := by
  induction a generalizing needle with
  | nil =>
    cases needle with
    | nil => exact List.prefix_rfl
    | cons c needle =>
      obtain ⟨rfl, -⟩ := List.cons_prefix_cons.mp h
      exact absurd List.mem_cons_self free
  | cons c a ih =>
    cases needle with
    | nil => exact List.nil_prefix
    | cons d needle =>
      obtain ⟨rfl, rest⟩ := List.cons_prefix_cons.mp h
      exact List.cons_prefix_cons.mpr ⟨rfl, ih (fun mem => free (List.mem_cons_of_mem _ mem)) rest⟩

theorem infix_append_sep (free : sep ∉ needle) (h : needle <:+: a ++ sep :: b) :
    needle <:+: a ∨ needle <:+: b := by
  induction a with
  | nil =>
    rcases List.infix_cons_iff.mp h with start | inside
    · exact Or.inl (prefix_append_sep (a := []) free start).isInfix
    · exact Or.inr inside
  | cons c a ih =>
    rcases List.infix_cons_iff.mp h with start | inside
    · exact Or.inl (prefix_append_sep (a := c :: a) free start).isInfix
    · exact (ih inside).imp_left List.infix_cons

theorem infix_joinChars {ps : List (List Char)} (ne : needle ≠ []) (free : sep ∉ needle)
    (h : needle <:+: joinChars sep ps) : ∃ p ∈ ps, needle <:+: p := by
  induction ps with
  | nil => exact absurd (List.infix_nil.mp h) ne
  | cons p ps ih =>
    by_cases last : ps = []
    · subst last
      exact ⟨p, List.mem_cons_self, h⟩
    · rw [joinChars_cons last] at h
      rcases infix_append_sep free h with here | later
      · exact ⟨p, List.mem_cons_self, here⟩
      · obtain ⟨q, hq, there⟩ := ih later
        exact ⟨q, List.mem_cons_of_mem p hq, there⟩

theorem infix_joinChars_of_mem {ps : List (List Char)} {p : List Char} (hp : p ∈ ps) :
    p <:+: joinChars sep ps := by
  induction ps with
  | nil => cases hp
  | cons q qs ih =>
    by_cases last : qs = []
    · subst last
      rw [List.mem_singleton.mp hp]
      exact List.infix_rfl
    · rw [joinChars_cons last]
      rcases List.mem_cons.mp hp with rfl | later
      · exact (List.prefix_append p _).isInfix
      · have behind : joinChars sep qs <:+: q ++ sep :: joinChars sep qs :=
          ((List.suffix_cons sep _).trans (List.suffix_append q _)).isInfix
        exact (ih later).trans behind

theorem infix_of_mem_splitChars {p : List Char} (hp : p ∈ splitChars sep s) : p <:+: s := by
  rw [← joinChars_splitChars sep s]
  exact infix_joinChars_of_mem hp

theorem eq_of_cutFirst (h : cutFirst sep s = some (a, b)) : s = a ++ sep :: b := by
  induction s generalizing a with
  | nil => cases h
  | cons c s ih =>
    rw [cutFirst] at h
    split at h
    · next same =>
      cases h
      rw [same, List.nil_append]
    · obtain ⟨⟨before, after⟩, cut, same⟩ := Option.map_eq_some_iff.mp h
      cases same
      rw [ih cut, List.cons_append]

theorem eq_of_cutLast (h : cutLast sep s = some (a, b)) : s = a ++ sep :: b := by
  obtain ⟨⟨after, before⟩, cut, same⟩ := Option.map_eq_some_iff.mp h
  cases same
  have reversed := congrArg List.reverse (eq_of_cutFirst cut)
  simpa using reversed

end Parts

section Lines

theorem prefix_of_withoutReturn (line : List Char) : withoutReturn line <+: line := by
  unfold withoutReturn
  split
  · exact List.dropLast_prefix line
  · exact List.prefix_rfl

theorem infix_withoutReturn {line : List Char} (free : '\r' ∉ needle) (h : needle <:+: line) :
    needle <:+: withoutReturn line := by
  unfold withoutReturn
  split
  · next last =>
    obtain ⟨line, rfl⟩ := List.getLast?_eq_some_iff.mp last
    rw [List.dropLast_concat]
    rcases infix_append_sep free h with inside | behind
    · exact inside
    · rw [List.infix_nil.mp behind]
      exact List.nil_infix
  · exact h

theorem infix_of_mem_endedLines {pieces : List (List Char)} {line : List Char}
    (h : line ∈ endedLines pieces) : ∃ p ∈ pieces, line <:+: p := by
  induction pieces with
  | nil => cases h
  | cons p ps ih =>
    cases ps with
    | nil =>
      rw [endedLines] at h
      split at h
      · cases h
      · exact ⟨p, List.mem_cons_self, List.mem_singleton.mp h ▸ List.infix_rfl⟩
    | cons q qs =>
      rcases List.mem_cons.mp h with rfl | later
      · exact ⟨p, List.mem_cons_self, (prefix_of_withoutReturn p).isInfix⟩
      · obtain ⟨r, hr, inside⟩ := ih later
        exact ⟨r, List.mem_cons_of_mem p hr, inside⟩

theorem infix_of_mem_linesOf {line : List Char} (h : line ∈ linesOf s) : line <:+: s := by
  obtain ⟨p, hp, inside⟩ := infix_of_mem_endedLines h
  exact inside.trans (infix_of_mem_splitChars hp)

theorem linesOf_append (free : '\n' ∉ a) (b : List Char) :
    linesOf (a ++ '\n' :: b) = withoutReturn a :: linesOf b := by
  rw [linesOf, splitChars_append, splitChars_of_not_mem free, linesOf]
  cases pieces : splitChars '\n' b with
  | nil => exact absurd pieces (splitChars_ne_nil '\n' b)
  | cons p ps => rfl

theorem linesOf_of_not_mem (free : '\n' ∉ s) (ne : s ≠ []) : linesOf s = [s] := by
  rw [linesOf, splitChars_of_not_mem free, endedLines, if_neg (by simpa using ne)]

theorem take_linesOf_append {n : Nat} (enough : n ≤ a.count '\n') (b : List Char) :
    (linesOf (a ++ b)).take n = (linesOf a).take n := by
  induction n generalizing a with
  | zero => rw [List.take_zero, List.take_zero]
  | succ n ih =>
    have mem : '\n' ∈ a := List.count_pos_iff.mp (by omega)
    obtain ⟨first, rest, rfl, free⟩ := List.eq_append_cons_of_mem mem
    have fewer : n ≤ rest.count '\n' := by
      rw [List.count_append, List.count_cons_self, List.count_eq_zero.mpr free] at enough
      omega
    rw [List.append_assoc, List.cons_append, linesOf_append free, linesOf_append free,
      List.take_succ_cons, List.take_succ_cons, ih fewer]

theorem exists_line_of_append (front rest : List Char) (feed : '\n' ∉ needle) (ret : '\r' ∉ needle)
    (ne : needle ≠ []) :
    ∃ line, (linesOf (front ++ (needle ++ rest)))[front.count '\n']? = some line ∧
      needle <:+: line := by
  induction count : front.count '\n' generalizing front with
  | zero =>
    have free : '\n' ∉ front ++ needle := by
      rw [List.mem_append, not_or]
      exact ⟨List.count_eq_zero.mp count, feed⟩
    rw [← List.append_assoc]
    by_cases mem : '\n' ∈ rest
    · obtain ⟨first, later, rfl, pure⟩ := List.eq_append_cons_of_mem mem
      have whole : '\n' ∉ front ++ needle ++ first := by
        rw [List.mem_append, not_or]
        exact ⟨free, pure⟩
      rw [← List.append_assoc, linesOf_append whole]
      exact ⟨_, rfl, infix_withoutReturn ret ⟨front, first, rfl⟩⟩
    · have whole : '\n' ∉ front ++ needle ++ rest := by
        rw [List.mem_append, not_or]
        exact ⟨free, mem⟩
      rw [linesOf_of_not_mem whole (by simp [ne])]
      exact ⟨_, rfl, front, rest, rfl⟩
  | succ n ih =>
    have mem : '\n' ∈ front := List.count_pos_iff.mp (by omega)
    obtain ⟨first, later, rfl, pure⟩ := List.eq_append_cons_of_mem mem
    have fewer : later.count '\n' = n := by
      rw [List.count_append, List.count_cons_self, List.count_eq_zero.mpr pure] at count
      omega
    rw [List.append_assoc, List.cons_append, linesOf_append pure, List.getElem?_cons_succ]
    exact ih later fewer

end Lines

/-- The text begins with this many lines, each with its line feed, that lack the character. -/
def LinesLack (c : Char) (n : Nat) (s : List Char) : Prop :=
  ∃ front back, s = front ++ back ∧ c ∉ front ∧ n ≤ front.count '\n'

namespace LinesLack

variable {c : Char} {n : Nat}

theorem zero (c : Char) (s : List Char) : LinesLack c 0 s :=
  ⟨[], s, rfl, List.not_mem_nil, Nat.le_refl 0⟩

theorem append {m : Nat} (h : LinesLack c n b) (free : c ∉ a) (total : m ≤ a.count '\n' + n) :
    LinesLack c m (a ++ b) := by
  obtain ⟨front, back, rfl, lacks, enough⟩ := h
  refine ⟨a ++ front, back, (List.append_assoc a front back).symm, ?_, ?_⟩
  · rw [List.mem_append, not_or]
    exact ⟨free, lacks⟩
  · rw [List.count_append]
    omega

theorem extend (h : LinesLack c n a) (b : List Char) : LinesLack c n (a ++ b) := by
  obtain ⟨front, back, rfl, lacks, enough⟩ := h
  exact ⟨front, back ++ b, List.append_assoc front back b, lacks, enough⟩

end LinesLack

end SitePublish.Text
