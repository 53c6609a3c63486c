import SitePublish.Filter.Batch
import SitePublish.Proofs.Filter.Rules

/-!
# One more exclude pattern

A rule that is put into a list of ignore rules changes no decision but to its own: wherever it is
put, the last rule that matches is the one from before or the new one, for a path and for each of
its directories. An exclude pattern without an exclamation mark therefore takes files out of the
site and decides about none of the others anew, whatever patterns stand before and behind it.
-/

set_option autoImplicit false

namespace SitePublish

namespace IgnoreRule

variable {line : List Char} {r : IgnoreRule}

theorem prefix_of_trimLine (line : List Char) : trimLine line <+: line := by
  unfold trimLine
  split
  · exact List.prefix_rfl
  · have trimmed : (line.reverse.dropWhile Text.isBlank) <:+ line.reverse :=
      List.dropWhile_suffix Text.isBlank
    simpa [Text.dropWhileEnd] using List.reverse_prefix.mpr trimmed

theorem stripMarks_negated (line : List Char) :
    (stripMarks line).1 = true ↔ line.head? = some '!' := by
  unfold stripMarks
  split
  case h_6 rest _ _ _ plain _ =>
    have other : line.head? ≠ some '!' := fun h => by
      obtain ⟨rest, rfl⟩ := List.head?_eq_some_iff.mp h
      exact plain rest rfl
    simp [other]
  all_goals simp

theorem negated_iff (h : ofLine? line = .ok (some r)) :
    r.negated = true ↔ line.head? = some '!' := by
  unfold ofLine? at h
  split at h
  · cases h
  · dsimp only at h
    split at h
    · cases h
    · next filled =>
      split at h
      · cases h
      · cases h
        have head : (trimLine line).head? = line.head? := by
          obtain ⟨rest, whole⟩ := prefix_of_trimLine line
          cases trimmed : trimLine line with
          | nil => simp [trimmed] at filled
          | cons c cs => rw [← whole, trimmed]; rfl
        exact (stripMarks_negated (trimLine line)).trans (by rw [head])

end IgnoreRule

namespace IgnoreRules

variable {α β : Type} {q : β}

theorem findSome?_eq_or {f g : α → Option β} (h : ∀ a, g a = f a ∨ g a = some q) (l : List α) :
    l.findSome? g = l.findSome? f ∨ l.findSome? g = some q := by
  induction l with
  | nil => exact Or.inl rfl
  | cons a l ih =>
    rw [List.findSome?_cons, List.findSome?_cons]
    rcases h a with same | new
    · rw [same]
      cases f a with
      | none => exact ih
      | some b => exact Or.inl rfl
    · rw [new]
      exact Or.inr rfl

variable (front back : IgnoreRules) (r : IgnoreRule)

theorem lastMatch_insert (path : List Char) (isDir : Bool) :
    lastMatch (front ++ r :: back) path isDir = lastMatch (front ++ back) path isDir ∨
      lastMatch (front ++ r :: back) path isDir = some r := by
  simp only [lastMatch, List.reverse_append, List.reverse_cons, List.append_assoc,
    List.find?_append]
  cases List.find? _ back.reverse with
  | some later => exact Or.inl rfl
  | none =>
    by_cases applies : r.applies (Text.utf8 (String.ofList path)) isDir = true
    · exact Or.inr (by simp [applies])
    · exact Or.inl (by simp [applies])

theorem decide_insert (path : List Char) :
    decide (front ++ r :: back) path = decide (front ++ back) path ∨
      decide (front ++ r :: back) path = some r := by
  unfold decide
  dsimp only
  rcases lastMatch_insert front back r (relative path) false with same | new
  · rw [same]
    cases lastMatch (front ++ back) (relative path) false with
    | some own => exact Or.inl rfl
    | none => exact findSome?_eq_or (fun dir => lastMatch_insert front back r dir true) _
  · rw [new]
    exact Or.inr rfl

end IgnoreRules

namespace PatternSet

/-- The pattern takes paths out again. -/
def Negates (pattern : String) : Prop := (Text.trimChars pattern.toList).head? = some '!'

instance (pattern : String) : Decidable (Negates pattern) := inferInstanceAs (Decidable (_ = _))

def ruleOf? (pattern : String) : Option IgnoreRule := do
  let line ← kept? pattern
  let rule ← (IgnoreRule.ofLine? line).toOption
  rule

theorem rulesFrom_eq_ok {count : Nat} {lines : List (List Char)} {rules : IgnoreRules}
    (h : rulesFrom count lines = .ok rules) :
    rules = lines.filterMap fun line => (IgnoreRule.ofLine? line).toOption.join := by
  induction lines generalizing count rules with
  | nil =>
    cases h
    rfl
  | cons line rest ih =>
    unfold rulesFrom at h
    split at h
    · cases h
    · split at h
      · cases h
      · next rule read =>
        split at h
        · cases h
        · next others accepted =>
          cases h
          rw [List.filterMap_cons, read, ← ih accepted]
          cases rule <;> rfl

theorem rules_of_ofPatterns {patterns : List String} {s : PatternSet}
    (h : ofPatterns patterns = .ok s) : s.rules = patterns.filterMap ruleOf? := by
  unfold ofPatterns at h
  dsimp only at h
  split at h
  · cases h
  · next rules accepted =>
    cases h
    rw [rulesFrom_eq_ok accepted, List.filterMap_filterMap]
    rfl

theorem eq_of_kept? {pattern : String} {line : List Char} (h : kept? pattern = some line) :
    line = Text.trimChars pattern.toList := by
  unfold kept? at h
  split at h
  · cases h
  · cases h
  · exact (Option.some.inj h).symm

theorem negated_of_ruleOf? {pattern : String} {r : IgnoreRule} (h : ruleOf? pattern = some r) :
    r.negated = true ↔ Negates pattern := by
  obtain ⟨line, kept, h⟩ := Option.bind_eq_some_iff.mp h
  obtain ⟨rule, read, rfl⟩ := Option.bind_eq_some_iff.mp h
  rw [Negates, ← eq_of_kept? kept]
  cases parsed : IgnoreRule.ofLine? line with
  | error e =>
    rw [parsed] at read
    cases read
  | ok rule =>
    rw [parsed] at read
    cases read
    exact IgnoreRule.negated_iff parsed

variable {front back : List String} {pattern : String} {s s' : PatternSet}

theorem matching_insert (plain : ¬ Negates pattern) (old : ofPatterns (front ++ back) = .ok s)
    (new : ofPatterns (front ++ pattern :: back) = .ok s') (path : String) :
    s'.matching path = s.matching path ∨ (s'.matching path).isSome = true := by
  have rules := rules_of_ofPatterns old
  have rules' := rules_of_ofPatterns new
  rw [List.filterMap_append] at rules
  rw [List.filterMap_append, List.filterMap_cons] at rules'
  cases rule : ruleOf? pattern with
  | none =>
    rw [rule] at rules'
    exact Or.inl (by rw [matching, matching, rules, rules'])
  | some r =>
    rw [rule] at rules'
    have positive : r.negated = false :=
      Bool.eq_false_iff.mpr fun negated => plain ((negated_of_ruleOf? rule).mp negated)
    rcases IgnoreRules.decide_insert (front.filterMap ruleOf?) (back.filterMap ruleOf?) r
      path.toList with same | own
    · exact Or.inl (by rw [matching, matching, rules, rules', same])
    · exact Or.inr (by simp [matching, rules', own, positive])

end PatternSet

namespace ProductionFilter

variable {f f' : ProductionFilter} {includes front back : List String} {pattern : String}

theorem ofPatterns_eq_ok {excludes : List String} (h : ofPatterns includes excludes = .ok f) :
    PatternSet.ofPatterns includes = .ok f.includes ∧
      PatternSet.ofPatterns excludes = .ok f.excludes := by
  unfold ofPatterns at h
  split at h
  · cases h
  · next i readIncludes =>
    split at h
    · cases h
    · next x readExcludes =>
      cases h
      exact ⟨readIncludes, readExcludes⟩

theorem decide_congr {p : SitePath}
    (includes : f'.includes.matching p.text = f.includes.matching p.text)
    (excludes : f'.excludes.matching p.text = f.excludes.matching p.text)
    (content : Option String) : f'.decide p content = f.decide p content := by
  have patterns : configPattern f' p = configPattern f p := by
    rw [configPattern, configPattern, includes, excludes]
  rw [ProductionFilter.decide, ProductionFilter.decide, patterns]

theorem classify_insert (plain : ¬ PatternSet.Negates pattern)
    (old : ofPatterns includes (front ++ back) = .ok f)
    (new : ofPatterns includes (front ++ pattern :: back) = .ok f') (path : String)
    (content : Option String) :
    f'.classify path content = f.classify path content ∨
      (f'.classify path content).included = false := by
  obtain ⟨included, excluded⟩ := ofPatterns_eq_ok old
  obtain ⟨included', excluded'⟩ := ofPatterns_eq_ok new
  have sameIncludes : f'.includes = f.includes := Except.ok.inj (included'.symm.trans included)
  cases read : SitePath.ofText path with
  | error e => exact Or.inr (classify_of_error read f' content).1
  | ok p =>
    rw [classify_of_ok read, classify_of_ok read]
    rcases PatternSet.matching_insert plain excluded excluded' p.text with same | matches'
    · exact Or.inl (decide_congr (by rw [sameIncludes]) same content)
    · refine Or.inr (Bool.eq_false_iff.mpr fun ships => ?_)
      rw [decide_included_iff] at ships
      have excludes : f'.excludes.isMatch p.text = true := matches'
      exact ships.2.elim (fun taken => taken.2 excludes) fun taken => taken.2.1 excludes

theorem filter_map_sublist {α β : Type} {g g' : α → β} {keep : β → Bool}
    (h : ∀ a, keep (g' a) = true → g' a = g a) (l : List α) :
    ((l.map g').filter keep).Sublist ((l.map g).filter keep) := by
  induction l with
  | nil => exact List.Sublist.refl _
  | cons a l ih =>
    rw [List.map_cons, List.map_cons, List.filter_cons, List.filter_cons]
    by_cases kept : keep (g' a) = true
    · rw [← h a kept, if_pos kept, if_pos kept]
      exact ih.cons_cons _
    · rw [if_neg kept]
      split
      · exact ih.cons _
      · exact ih

/-- An exclude pattern that takes nothing out again, put anywhere into the list, ships no file that
was excluded, and leaves the decision about every file that it does not exclude. -/
theorem excluding_more_ships_less (plain : ¬ PatternSet.Negates pattern)
    (old : ofPatterns includes (front ++ back) = .ok f)
    (new : ofPatterns includes (front ++ pattern :: back) = .ok f') :
    (∀ path content, (f.classify path content).included = false →
      (f'.classify path content).included = false) ∧
    (∀ path content, (f'.classify path content).included = true →
      f'.classify path content = f.classify path content) ∧
    ∀ files, (f'.classifyInputs files).included.Sublist (f.classifyInputs files).included := by
  have step := classify_insert plain old new
  have kept (path : String) (content : Option String)
      (ships : (f'.classify path content).included = true) :
      f'.classify path content = f.classify path content :=
    (step path content).resolve_right (by simp [ships])
  refine ⟨fun path content dropped => ?_, kept, fun files => ?_⟩
  · rcases step path content with same | out
    · rw [same, dropped]
    · exact out
  · exact filter_map_sublist
      (fun i ships => congrArg (Classified.mk i) (kept i.path i.content ships)) files

/-- Stories are excluded between a directory and the file of it that is taken out again. -/
theorem stories_ship_less :
    ¬ PatternSet.Negates "*.stories.tsx" ∧
    ∃ f f', ofPatterns [] (["src/app/internal/"] ++ ["!src/app/internal/open.tsx"]) = .ok f ∧
      ofPatterns [] (["src/app/internal/"] ++ "*.stories.tsx" :: ["!src/app/internal/open.tsx"]) =
        .ok f' ∧
      (f.classify "src/app/internal/page.tsx" none).included = false ∧
      (f'.classify "src/app/internal/page.tsx" none).included = false ∧
      (f.classify "src/Hero.stories.tsx" none).included = true ∧
      (f'.classify "src/Hero.stories.tsx" none).included = false ∧
      (f'.classify "src/app/internal/open.tsx" none).included = true ∧
      f'.classify "src/app/internal/open.tsx" none =
        f.classify "src/app/internal/open.tsx" none := by
  have plain : ¬ PatternSet.Negates "*.stories.tsx" := by decide
  have before : ((ofPatterns [] (["src/app/internal/"] ++ ["!src/app/internal/open.tsx"])).map
      fun f => ((f.classify "src/app/internal/page.tsx" none).included,
        (f.classify "src/Hero.stories.tsx" none).included)).toOption = some (false, true) := by
    decide +kernel
  have after : ((ofPatterns []
      (["src/app/internal/"] ++ "*.stories.tsx" :: ["!src/app/internal/open.tsx"])).map
      fun f => ((f.classify "src/Hero.stories.tsx" none).included,
        (f.classify "src/app/internal/open.tsx" none).included)).toOption = some (false, true) := by
    decide +kernel
  cases old : ofPatterns [] (["src/app/internal/"] ++ ["!src/app/internal/open.tsx"]) with
  | error e =>
    rw [old] at before
    cases before
  | ok f =>
    cases new : ofPatterns []
        (["src/app/internal/"] ++ "*.stories.tsx" :: ["!src/app/internal/open.tsx"]) with
    | error e =>
      rw [new] at after
      cases after
    | ok f' =>
      rw [old] at before
      rw [new] at after
      obtain ⟨page, hero⟩ := Prod.mk.inj (Option.some.inj before)
      obtain ⟨hero', opened⟩ := Prod.mk.inj (Option.some.inj after)
      obtain ⟨less, kept, -⟩ := excluding_more_ships_less plain old new
      exact ⟨plain, f, f', rfl, rfl, page, less _ _ page, hero, hero', opened, kept _ _ opened⟩

end ProductionFilter

end SitePublish
