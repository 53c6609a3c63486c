import SitePublish.Proofs.Site.Route

/-!
# Padding of page keys

Slashes and blanks around a key are dropped in three passes: blanks, slashes, blanks. That takes away
everything that stands around the key as long as on either side the slashes are in one run. Where blanks
part them, slashes are left, and a key that has a route without its padding is refused. What is wrong
with a key in itself is found whatever stands around it: padding has no case, so it does not even
change how the letters next to it are lowercased.
-/

set_option autoImplicit false

namespace SitePublish

namespace Route

def isPadding (c : Char) : Bool := Text.isBlank c || c = '/'

def core (key : List Char) : List Char := Text.dropWhileEnds isPadding key

/-- Blanks, one run of slashes, blanks. -/
def IsRim (s : List Char) : Prop :=
  ∃ a m b, s = a ++ m ++ b ∧ (∀ c ∈ a, Text.isBlank c = true) ∧ (∀ c ∈ m, c = '/') ∧
    ∀ c ∈ b, Text.isBlank c = true

/-- A key with no more around it than a rim on either side. -/
def IsRimmed (key : List Char) : Prop :=
  ∃ before after, key = before ++ core key ++ after ∧ IsRim before ∧ IsRim after

section Characters

variable {c : Char} {s a b : List Char}

theorem isPadding_of_blank (h : Text.isBlank c = true) : isPadding c = true := by
  rw [isPadding, h, Bool.true_or]

theorem isPadding_slash : isPadding '/' = true := by decide

theorem eq_slash_of_padding (h : isPadding c = true) (solid : Text.isBlank c = false) : c = '/' := by
  simpa [isPadding, solid] using h

theorem of_padding {P : Char → Prop}
    (blank : ∀ r ∈ Text.blankRanges, ∀ n ∈ List.range' r.1 (r.2 + 1 - r.1), P (Char.ofNat n))
    (slash : P '/') (h : isPadding c = true) : P c := by
  by_cases solid : Text.isBlank c = false
  · rw [eq_slash_of_padding h solid]
    exact slash
  · obtain ⟨r, mem, low, high⟩ := Text.isBlank_iff.mp (by simpa using solid)
    rw [← Char.ofNat_toNat c]
    apply blank r mem
    rw [List.mem_range'_1]
    omega

theorem meetsCased_cons (h : Text.meetsCased [c, 'a'] = false) (s : List Char) :
    Text.meetsCased (c :: s) = false := by
  rw [← List.singleton_append, Text.meetsCased, List.find?_append] at h ⊢
  revert h
  cases [c].find? _ with
  | none => exact fun h => absurd h (by decide +kernel)
  | some d => exact id

theorem caseless_of_padding (h : isPadding c = true) :
    c ≠ 'Σ' ∧ c ≠ '\u0130' ∧ Text.lowerChar c = c ∧ Text.meetsCased [c, 'a'] = false :=
  of_padding (P := fun c => c ≠ 'Σ' ∧ c ≠ '\u0130' ∧ Text.lowerChar c = c ∧
    Text.meetsCased [c, 'a'] = false) (by decide +kernel) (by decide +kernel) h

theorem meetsCased_append (s : List Char) (ha : ∀ c ∈ a, isPadding c = true) :
    Text.meetsCased (s ++ a) = Text.meetsCased s := by
  have padding : Text.meetsCased a = false := by
    cases a with
    | nil => rfl
    | cons c a => exact meetsCased_cons (caseless_of_padding (ha c List.mem_cons_self)).2.2.2 a
  unfold Text.meetsCased at *
  rw [List.find?_append]
  cases s.find? _ with
  | none => exact padding
  | some d => rfl

theorem lowerFrom_before (before s : List Char) (ha : ∀ c ∈ a, isPadding c = true) :
    Text.lowerFrom (before ++ a) s = Text.lowerFrom before s := by
  induction s generalizing before with
  | nil => rfl
  | cons c s ih =>
    rw [Text.lowerFrom, Text.lowerFrom, meetsCased_append before ha, ← List.cons_append, ih]

theorem lowerFrom_padding (before : List Char) (ha : ∀ c ∈ a, isPadding c = true) (s : List Char) :
    Text.lowerFrom before (a ++ s) = a ++ Text.lowerFrom (a.reverse ++ before) s := by
  induction a generalizing before with
  | nil => rfl
  | cons c a ih =>
    obtain ⟨hc, ha⟩ := List.forall_mem_cons.mp ha
    obtain ⟨sigma, dotted, same, -⟩ := caseless_of_padding hc
    rw [List.cons_append, Text.lowerFrom, if_neg sigma, if_neg dotted, same, ih (c :: before) ha]
    simp

theorem lowerFrom_behind (before s : List Char) (hb : ∀ c ∈ b, isPadding c = true) :
    Text.lowerFrom before (s ++ b) = Text.lowerFrom before s ++ b := by
  induction s generalizing before with
  | nil =>
    have padding := lowerFrom_padding before hb []
    rwa [List.append_nil, Text.lowerFrom, List.append_nil] at padding
  | cons c s ih =>
    rw [List.cons_append, Text.lowerFrom, Text.lowerFrom, meetsCased_append s hb, ih]
    split
    · rw [List.cons_append]
    · split
      · rw [List.cons_append, List.cons_append]
      · rw [List.cons_append]

theorem lowerChars_padding (ha : ∀ c ∈ a, isPadding c = true) (hb : ∀ c ∈ b, isPadding c = true)
    (s : List Char) : Text.lowerChars (a ++ s ++ b) = a ++ Text.lowerChars s ++ b := by
  have reversed : ∀ c ∈ a.reverse, isPadding c = true := by simpa using ha
  have alone := lowerFrom_before [] s reversed
  rw [List.nil_append] at alone
  rw [Text.lowerChars, lowerFrom_behind [] _ hb, lowerFrom_padding [] ha, List.append_nil, alone,
    Text.lowerChars]

end Characters

section Rims

variable {key s a b : List Char}

theorem isRim_nil : IsRim [] := ⟨[], [], [], rfl, nofun, nofun, nofun⟩

theorem IsRim.reverse (h : IsRim s) : IsRim s.reverse := by
  obtain ⟨a, m, b, rfl, ha, hm, hb⟩ := h
  refine ⟨b.reverse, m.reverse, a.reverse, ?_, ?_, ?_, ?_⟩
  · simp
  · simpa using hb
  · simpa using hm
  · simpa using ha

theorem IsRim.padding (h : IsRim s) : ∀ c ∈ s, isPadding c = true := by
  obtain ⟨a, m, b, rfl, ha, hm, hb⟩ := h
  intro c hc
  simp only [List.mem_append] at hc
  rcases hc with (hc | hc) | hc
  · exact isPadding_of_blank (ha c hc)
  · exact hm c hc ▸ isPadding_slash
  · exact isPadding_of_blank (hb c hc)

theorem slash_solid_of_blank (h : ∀ c ∈ s, Text.isBlank c = true) : Text.Solid (· = '/') s :=
  Text.solid_of_forall fun c hc => by
    by_cases slash : c = '/'
    · exact absurd (h c hc) (slash ▸ by decide)
    · simp [slash]

theorem IsRim.dropWhile_eq_nil (h : IsRim s) :
    ((s.dropWhile Text.isBlank).dropWhile (· = '/')).dropWhile Text.isBlank = [] := by
  obtain ⟨a, m, b, rfl, ha, hm, hb⟩ := h
  have slashes : ∀ c ∈ m, decide (c = '/') = true := fun c hc => by simp [hm c hc]
  rw [List.append_assoc, List.dropWhile_append_of_pos ha]
  cases m with
  | nil => rw [List.nil_append, List.dropWhile_eq_nil_iff.mpr hb]; rfl
  | cons c m =>
    have solid : Text.isBlank c = false := hm c List.mem_cons_self ▸ by decide
    rw [List.cons_append, List.dropWhile_cons_of_neg (by simp [solid]), ← List.cons_append,
      List.dropWhile_append_of_pos slashes, Text.dropWhile_eq_self (slash_solid_of_blank hb).head]
    exact List.dropWhile_eq_nil_iff.mpr hb

theorem slash_solid (h : Text.Solid isPadding s) : Text.Solid (· = '/') s :=
  h.mono fun c hc => by
    rw [decide_eq_true_eq] at hc
    exact hc ▸ isPadding_slash

theorem blank_solid (h : Text.Solid isPadding s) : Text.Solid Text.isBlank s :=
  h.mono fun _ hc => isPadding_of_blank hc

theorem trimKey_eq (key : List Char) : trimKey key = Text.dropWhileEnds Text.isBlank
    (Text.dropWhileEnds (· = '/') (Text.dropWhileEnds Text.isBlank key)) := rfl

theorem trimKey_rims (ha : IsRim a) (hb : IsRim b) : trimKey (a ++ b) = [] := by
  obtain ⟨a₁, m, b₁, rfl, ha₁, hm, hb₁⟩ := ha
  obtain ⟨a₂, n, b₂, rfl, ha₂, hn, hb₂⟩ := hb
  have slashes {s : List Char} (hs : ∀ c ∈ s, c = '/') : ∀ c ∈ s, decide (c = '/') = true :=
    fun c hc => by simp [hs c hc]
  have solid {s : List Char} (hs : ∀ c ∈ s, c = '/') : Text.Solid Text.isBlank s :=
    Text.solid_of_forall fun c hc => hs c hc ▸ by decide
  have gap : ∀ c ∈ b₁ ++ a₂, Text.isBlank c = true := List.forall_mem_append.mpr ⟨hb₁, ha₂⟩
  have whole : a₁ ++ m ++ b₁ ++ (a₂ ++ n ++ b₂) = a₁ ++ (m ++ (b₁ ++ a₂) ++ n) ++ b₂ := by simp
  rw [trimKey_eq, whole, Text.dropWhileEnds_append _ ha₁ hb₂]
  by_cases hm' : m = []
  · have one := Text.dropWhileEnds_append (b := []) n gap nofun
    rw [List.append_nil] at one
    rw [hm', List.nil_append, one, (solid hn).dropWhileEnds_eq,
      Text.dropWhileEnds_eq_nil (slashes hn)]
    rfl
  · by_cases hn' : n = []
    · have one := Text.dropWhileEnds_append (a := []) m nofun gap
      rw [List.nil_append] at one
      rw [hn', List.append_nil, one, (solid hm).dropWhileEnds_eq,
        Text.dropWhileEnds_eq_nil (slashes hm)]
      rfl
    · have ends : Text.Solid Text.isBlank (m ++ (b₁ ++ a₂) ++ n) := by
        constructor
        · intro c hc
          apply (solid hm).head c
          cases m with
          | nil => exact absurd rfl hm'
          | cons d m => exact hc
        · intro c hc
          apply (solid hn).last c
          rwa [List.getLast?_append_of_ne_nil _ hn'] at hc
      rw [ends.dropWhileEnds_eq, Text.dropWhileEnds_append _ (slashes hm) (slashes hn),
        (slash_solid_of_blank gap).dropWhileEnds_eq, Text.dropWhileEnds_eq_nil gap]

/-- Between two rims, the passes leave what does not begin and end with padding itself. -/
theorem trimKey_between (ha : IsRim a) (hb : IsRim b) (solid : Text.Solid isPadding s) :
    trimKey (a ++ s ++ b) = s := by
  by_cases ne : s = []
  · rw [ne, List.append_nil, trimKey_rims ha hb]
  · have blank := blank_solid solid
    have passes := congrArg List.reverse hb.reverse.dropWhile_eq_nil
    rw [trimKey_eq, Text.dropWhileEnds_around blank ne,
      Text.dropWhileEnds_around (slash_solid solid) ne, Text.dropWhileEnds_around blank ne,
      ha.dropWhile_eq_nil]
    simpa [Text.dropWhileEnd] using passes

theorem exists_rims (key : List Char) :
    ∃ before after, key = before ++ trimKey key ++ after ∧ IsRim before ∧ IsRim after := by
  obtain ⟨a, b, outer, ha, hb⟩ := Text.exists_dropWhileEnds Text.isBlank key
  obtain ⟨m, n, middle, hm, hn⟩ :=
    Text.exists_dropWhileEnds (· = '/') (Text.dropWhileEnds Text.isBlank key)
  obtain ⟨c, d, inner, hc, hd⟩ := Text.exists_dropWhileEnds Text.isBlank
    (Text.dropWhileEnds (· = '/') (Text.dropWhileEnds Text.isBlank key))
  refine ⟨a ++ m ++ c, d ++ n ++ b, ?_, ⟨a, m, c, rfl, ha, by simpa using hm, hc⟩,
    ⟨d, n, b, rfl, hd, by simpa using hn, hb⟩⟩
  calc key = a ++ Text.dropWhileEnds Text.isBlank key ++ b := outer
    _ = a ++ (m ++ (c ++ trimKey key ++ d) ++ n) ++ b := by rw [trimKey_eq, ← inner, ← middle]
    _ = a ++ m ++ c ++ trimKey key ++ (d ++ n ++ b) := by simp

theorem core_append (s : List Char) (ha : ∀ c ∈ a, isPadding c = true)
    (hb : ∀ c ∈ b, isPadding c = true) : core (a ++ s ++ b) = core s :=
  Text.dropWhileEnds_append s ha hb

theorem solid_core (key : List Char) : Text.Solid isPadding (core key) :=
  Text.solid_dropWhileEnds isPadding key

theorem core_trimKey (key : List Char) : core (trimKey key) = core key := by
  obtain ⟨before, after, whole, hb, ha⟩ := exists_rims key
  conv_rhs => rw [whole]
  exact (core_append _ hb.padding ha.padding).symm

theorem isRimmed_iff : IsRimmed key ↔ trimKey key = core key := by
  constructor
  · rintro ⟨before, after, whole, hb, ha⟩
    rw [whole, trimKey_between hb ha (solid_core key), ← whole]
  · intro trimmed
    obtain ⟨before, after, whole, hb, ha⟩ := exists_rims key
    exact ⟨before, after, trimmed ▸ whole, hb, ha⟩

end Rims

section Refusals

variable {key before after : String} {pending : Bool} {s t a b : List Char} {e : RouteError}

def refused? (s : List Char) : Option Char :=
  s.find? fun c => !Text.isBlank c && !isRouteChar c

def refusal (s : List Char) : RouteError :=
  match refused? s with
  | some c => .invalidCharacter c
  | none => .invalidSegment ""

theorem refused?_append (s : List Char) (ha : ∀ c ∈ a, isPadding c = true)
    (hb : ∀ c ∈ b, isPadding c = true) : refused? (a ++ s ++ b) = refused? s := by
  have none_of {x : List Char} (hx : ∀ c ∈ x, isPadding c = true) : refused? x = none := by
    rw [refused?, List.find?_eq_none]
    intro c hc
    by_cases solid : Text.isBlank c = false
    · rw [eq_slash_of_padding (hx c hc) solid]
      decide
    · simp [solid]
  rw [refused?, List.find?_append, List.find?_append, ← refused?, ← refused?, ← refused?,
    none_of ha, none_of hb]
  simp

/-- Dashes are put into a text just when none of its characters is refused. -/
theorem dashed_cases (pending : Bool) (s : List Char) :
    (∃ t, dashed pending s = .ok t ∧ refused? s = none) ∨
      ∃ c, dashed pending s = .error (.invalidCharacter c) ∧ refused? s = some c := by
  induction s generalizing pending with
  | nil => exact Or.inl ⟨[], rfl, rfl⟩
  | cons c s ih =>
    rw [dashed, refused?, List.find?_cons, ← refused?]
    by_cases blank : Text.isBlank c = true
    · rw [if_pos blank, blank]
      exact ih true
    · rw [if_neg blank]
      by_cases route : isRouteChar c = true
      · rw [if_pos route, route]
        rcases ih false with ⟨t, ok, none⟩ | ⟨d, error, some⟩
        · rw [ok]
          exact Or.inl ⟨_, rfl, by simpa using none⟩
        · rw [error]
          exact Or.inr ⟨d, rfl, by simpa using some⟩
      · rw [if_neg route]
        exact Or.inr ⟨c, rfl, by simp [blank, route]⟩

theorem dashed_slash_cons (h : dashed false ('/' :: s) = .ok t) : ∃ r, t = '/' :: r := by
  rw [dashed, if_neg (by decide), if_pos (by decide)] at h
  split at h
  · cases h
    exact ⟨_, rfl⟩
  · cases h

theorem dashed_append_slash (h : dashed pending (s ++ ['/']) = .ok t) : ∃ r, t = r ++ ['/'] := by
  induction s generalizing pending t with
  | nil =>
    rw [List.nil_append, dashed, dashed] at h
    cases pending
    · cases h
      exact ⟨[], rfl⟩
    · cases h
      exact ⟨['-'], rfl⟩
  | cons c s ih =>
    rw [List.cons_append, dashed] at h
    split at h
    · exact ih h
    · split at h
      · split at h
        · next rest ok =>
          obtain ⟨r, rfl⟩ := ih ok
          cases h
          split
          · exact ⟨'-' :: c :: r, rfl⟩
          · exact ⟨c :: r, rfl⟩
        · cases h
      · cases h

theorem nil_mem_of_dashed (edge : s.head? = some '/' ∨ s.getLast? = some '/')
    (h : dashed false s = .ok t) : [] ∈ Text.splitChars '/' t := by
  rcases edge with first | last
  · obtain ⟨rest, rfl⟩ := List.head?_eq_some_iff.mp first
    obtain ⟨r, rfl⟩ := dashed_slash_cons h
    simp [Text.splitChars]
  · obtain ⟨front, rfl⟩ := List.getLast?_eq_some_iff.mp last
    obtain ⟨r, rfl⟩ := dashed_append_slash h
    rw [Text.splitChars_append]
    simp [Text.splitChars]

theorem slash_not_mem_of_root
    (h : (s.isEmpty || rootKeys.contains (String.ofList s)) = true) :
    '/' ∉ s ∧ refused? s = none := by
  rw [Bool.or_eq_true, List.isEmpty_iff, List.contains_iff_mem] at h
  rcases h with rfl | name
  · exact ⟨List.not_mem_nil, rfl⟩
  · have names : ∀ name ∈ rootKeys, '/' ∉ name.toList ∧ refused? name.toList = none := by decide
    simpa using names _ name

def barred : Except RouteError Route → RouteError
  | .ok _ => .invalidSegment ""
  | .error e => e

theorem barred_ofKey (key : String) :
    barred (ofKey key) = refusal (Text.lowerChars (trimKey key.toList)) := by
  unfold ofKey
  dsimp only
  split
  · next root => rw [refusal, (slash_not_mem_of_root root).2]; rfl
  · rcases dashed_cases false (Text.lowerChars (trimKey key.toList)) with
      ⟨t, ok, none⟩ | ⟨c, error, some⟩
    · rw [ok, refusal, none]
      dsimp only
      split <;> rfl
    · rw [error, refusal, some]
      rfl

theorem ofKey_eq_refusal (edge : (Text.lowerChars (trimKey key.toList)).head? = some '/' ∨
      (Text.lowerChars (trimKey key.toList)).getLast? = some '/') :
    ofKey key = .error (refusal (Text.lowerChars (trimKey key.toList))) := by
  have slash : '/' ∈ Text.lowerChars (trimKey key.toList) :=
    edge.elim List.mem_of_mem_head? List.mem_of_mem_getLast?
  unfold ofKey
  dsimp only
  rw [if_neg fun root => (slash_not_mem_of_root root).1 slash]
  rcases dashed_cases false (Text.lowerChars (trimKey key.toList)) with
    ⟨t, ok, none⟩ | ⟨c, error, some⟩
  · have empty : (Text.splitChars '/' t).any List.isEmpty = true :=
      List.any_eq_true.mpr ⟨[], nil_mem_of_dashed edge ok, rfl⟩
    rw [ok, refusal, none]
    dsimp only
    rw [if_pos empty]
  · rw [error, refusal, some]

def bare (key : String) : String := String.ofList (core key.toList)

theorem trimKey_bare (key : String) : trimKey (bare key).toList = core key.toList := by
  have between := trimKey_between isRim_nil isRim_nil (solid_core key.toList)
  rw [List.nil_append, List.append_nil] at between
  rw [bare, String.toList_ofList, between]

theorem ofKey_of_rimmed (h : IsRimmed key.toList) : ofKey key = ofKey (bare key) := by
  unfold ofKey
  rw [trimKey_bare, isRimmed_iff.mp h]

/-- With slashes left around it, a key that would have a route is refused for an empty segment, and
any other key for what it would be refused for without them. -/
theorem ofKey_of_not_rimmed (h : ¬ IsRimmed key.toList) :
    ofKey key = .error (barred (ofKey (bare key))) := by
  obtain ⟨a, b, around, ha, hb⟩ := Text.exists_dropWhileEnds isPadding (trimKey key.toList)
  have lowered := lowerChars_padding ha hb (core (trimKey key.toList))
  rw [core, ← around, ← core, core_trimKey] at lowered
  have ends := Text.solid_dropWhileEnds Text.isBlank
    (Text.dropWhileEnds (· = '/') (Text.dropWhileEnds Text.isBlank key.toList))
  rw [← trimKey_eq] at ends
  have edge : (Text.lowerChars (trimKey key.toList)).head? = some '/' ∨
      (Text.lowerChars (trimKey key.toList)).getLast? = some '/' := by
    cases a with
    | cons c a =>
      left
      have slash := eq_slash_of_padding (ha c List.mem_cons_self)
        (ends.head c (by rw [around]; rfl))
      rw [lowered, slash]
      rfl
    | nil =>
      right
      rcases List.eq_nil_or_concat b with rfl | ⟨b, c, rfl⟩
      · rw [List.nil_append, List.append_nil, ← core, core_trimKey] at around
        exact absurd (isRimmed_iff.mpr around) h
      · have slash := eq_slash_of_padding (hb c (by simp)) (ends.last c (by rw [around]; simp))
        rw [lowered, slash]
        simp
  rw [ofKey_eq_refusal edge, barred_ofKey, trimKey_bare, lowered, refusal, refusal,
    refused?_append _ ha hb]

/-- Keys that are one without what stands around them denote the same just when both have rims alone
around them or neither has, or when there is something else wrong with them. -/
theorem ofKey_eq_iff {key' : String} (same : bare key' = bare key) :
    ofKey key' = ofKey key ↔
      (IsRimmed key'.toList ↔ IsRimmed key.toList) ∨ ∃ e, ofKey (bare key) = .error e := by
  by_cases outer : IsRimmed key'.toList
  · by_cases inner : IsRimmed key.toList
    · simp [ofKey_of_rimmed outer, ofKey_of_rimmed inner, same, outer, inner]
    · rw [ofKey_of_rimmed outer, ofKey_of_not_rimmed inner, same]
      cases ofKey (bare key) <;> simp [barred, outer, inner]
  · by_cases inner : IsRimmed key.toList
    · rw [ofKey_of_not_rimmed outer, ofKey_of_rimmed inner, same]
      cases ofKey (bare key) <;> simp [barred, outer, inner]
    · simp [ofKey_of_not_rimmed outer, ofKey_of_not_rimmed inner, same, outer, inner]

/-- Padding put around a key changes nothing, unless there were rims alone around the key and are no
more, or the other way round. Nor does it then if something else is wrong with the key. -/
theorem padding_ignored_iff (padding : ∀ c ∈ before.toList ++ after.toList, isPadding c = true) :
    ofKey (before ++ key ++ after) = ofKey key ↔
      (IsRimmed (before ++ key ++ after).toList ↔ IsRimmed key.toList) ∨
        ∃ e, ofKey (bare key) = .error e := by
  obtain ⟨front, back⟩ := List.forall_mem_append.mp padding
  apply ofKey_eq_iff
  rw [bare, String.toList_append, String.toList_append, core_append _ front back, bare]

theorem about_padded : (∀ c ∈ " /\n".toList ++ "// ".toList, isPadding c = true) ∧
    ofKey (" /\n" ++ "About Us" ++ "// ") = ofKey "About Us" ∧
    ofKey "About Us" = .ok ⟨"/about-us"⟩ := by
  have padding : ∀ c ∈ " /\n".toList ++ "// ".toList, isPadding c = true :=
    List.all_eq_true.mp (by decide)
  have outer : IsRimmed (" /\n" ++ "About Us" ++ "// ").toList := isRimmed_iff.mpr (by decide)
  have inner : IsRimmed "About Us".toList := isRimmed_iff.mpr (by decide)
  exact ⟨padding, (padding_ignored_iff padding).mpr (Or.inl (iff_of_true outer inner)),
    by decide⟩

/-- A blank between two slashes in front of a key, and a key of slashes parted by blanks. -/
theorem parted_slashes_refused :
    (∀ c ∈ "/ /".toList, isPadding c = true) ∧
      ofKey "about" = .ok ⟨"/about"⟩ ∧ ofKey ("/ /" ++ "about" ++ "") = .error (.invalidSegment "") ∧
      ofKey "" = .ok root ∧ ofKey ("/ /" ++ "" ++ " /") = .error (.invalidSegment "") :=
  ⟨List.all_eq_true.mp (by decide), by decide⟩

end Refusals

end Route

end SitePublish
