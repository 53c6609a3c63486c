import SitePublish.Toml.Document
import Mathlib.Data.List.Basic
import Mathlib.Data.Option.Basic

/-!
# What TOML readers leave

Every reader hands back the end of the text that it was given, so that a place in a document is known by
the text behind it. The readers of values, headers, entries and lines are taken apart into their cases.
-/

set_option autoImplicit false

namespace SitePublish

variable {s rest : List Char}

namespace Instant

theorem digits?_suffix {k n : Nat} (h : digits? k s = some (n, rest)) : rest <:+ s := by
  fun_induction digits? k s generalizing n with
  | case1 =>
    cases h
    exact List.suffix_rfl
  | case2 k c s _ ih =>
    obtain ⟨⟨m, t⟩, read, same⟩ := Option.map_eq_some_iff.mp h
    cases same
    exact (ih read).trans (List.suffix_cons _ _)
  | case3 | case4 => cases h

theorem char?_suffix {c : Char} (h : char? c s = some rest) : rest <:+ s := by
  unfold char? at h
  split at h
  · split at h
    · cases h
      exact List.suffix_cons _ _
    · cases h
  · cases h

end Instant

namespace Toml

theorem suffix_of_eq_cons {c : Char} {t : List Char} (h : t = c :: rest) (suffix : t <:+ s) :
    rest <:+ s :=
  (List.suffix_cons c rest).trans (h ▸ suffix)

theorem skipSpace_suffix (s : List Char) : skipSpace s <:+ s := List.dropWhile_suffix isSpace

theorem newline?_suffix (h : newline? s = some rest) : rest <:+ s := by
  unfold newline? at h
  split at h
  · cases h
    exact List.suffix_cons _ _
  · cases h
    exact (List.suffix_cons _ _).trans (List.suffix_cons _ _)
  · cases h

theorem skipComment_suffix (s : List Char) : skipComment s <:+ s := by
  unfold skipComment
  split
  · exact (List.dropWhile_suffix isText).trans (List.suffix_cons _ _)
  · exact List.suffix_rfl

theorem lineEnd?_suffix (h : lineEnd? s = some rest) : rest <:+ s := by
  unfold lineEnd? at h
  split at h
  · cases h
    exact List.nil_suffix
  · exact newline?_suffix h

theorem lineTail?_suffix (h : lineTail? s = some rest) : rest <:+ s :=
  (lineEnd?_suffix h).trans ((skipComment_suffix _).trans (skipSpace_suffix s))

theorem skipGaps_suffix (inComment : Bool) (s : List Char) : skipGaps inComment s <:+ s := by
  fun_induction skipGaps inComment s <;> simp_all [List.suffix_cons_iff]

theorem exists_of_push {c : Option Char} {tail : Option (List Char × List Char)} {t : List Char}
    (h : push c tail = some (t, rest)) :
    ∃ d t', c = some d ∧ tail = some (t', rest) ∧ t = d :: t' := by
  unfold push at h
  split at h
  · cases h
    exact ⟨_, _, rfl, rfl, rfl⟩
  · cases h

theorem basicBody_suffix {t : List Char} (h : basicBody s = some (t, rest)) : rest <:+ s := by
  fun_induction basicBody s generalizing t with
  | case1 => cases h
  | case2 s =>
    cases h
    exact List.suffix_cons _ _
  | case7 => cases h
  | case3 _ _ _ _ s ih | case4 _ _ _ _ _ _ _ _ s ih | case5 _ s _ _ ih | case6 _ s _ _ _ _ _ ih =>
    obtain ⟨_, _, -, later, -⟩ := exists_of_push h
    simp only [List.suffix_cons_iff, ih later, or_true]

theorem longBasicBody_suffix {joining : Bool} {t : List Char}
    (h : longBasicBody joining s = some (t, rest)) : rest <:+ s := by
  fun_induction longBasicBody joining s generalizing t with
  | case1 => cases h
  | case2 | case3 | case4 =>
    cases h
    simp only [List.suffix_cons_iff, List.suffix_rfl, or_true]
  | case5 s ih | case7 s ih | case11 _ _ s _ _ _ ih | case13 _ _ s _ _ _ _ _ _ _ _ _ ih =>
    simp only [List.suffix_cons_iff, ih h, or_true]
  | case15 => cases h
  | case6 _ s _ ih | case8 _ s _ ih | case9 _ _ _ _ _ s ih | case10 _ _ _ _ _ _ _ _ _ s ih
  | case12 _ _ s _ _ _ ih | case14 _ _ s _ _ _ _ _ _ _ _ _ _ ih =>
    obtain ⟨_, _, -, later, -⟩ := exists_of_push h
    simp only [List.suffix_cons_iff, ih later, or_true]

theorem literalBody_suffix {t : List Char} (h : literalBody s = some (t, rest)) : rest <:+ s := by
  fun_induction literalBody s generalizing t with
  | case1 | case4 => cases h
  | case2 s =>
    cases h
    exact List.suffix_cons _ _
  | case3 c s _ _ ih =>
    obtain ⟨_, _, -, later, -⟩ := exists_of_push h
    exact (ih later).trans (List.suffix_cons _ _)

theorem longLiteralBody_suffix {t : List Char} (h : longLiteralBody s = some (t, rest)) :
    rest <:+ s := by
  fun_induction longLiteralBody s generalizing t with
  | case1 | case8 => cases h
  | case2 | case3 | case4 =>
    cases h
    simp only [List.suffix_cons_iff, List.suffix_rfl, or_true]
  | case5 s ih | case6 s ih | case7 _ s _ _ _ _ _ _ ih =>
    obtain ⟨_, _, -, later, -⟩ := exists_of_push h
    simp only [List.suffix_cons_iff, ih later, or_true]

theorem dropNewline_suffix (s : List Char) : dropNewline s <:+ s := by
  unfold dropNewline
  cases read : newline? s with
  | none => exact List.suffix_rfl
  | some rest => exact newline?_suffix read

theorem exists_of_toText {read : Option (List Char × List Char)} {t : String}
    (h : toText read = some (t, rest)) : read = some (t.toList, rest) := by
  obtain ⟨⟨u, s⟩, hread, same⟩ := Option.map_eq_some_iff.mp h
  cases same
  rw [hread, String.toList_ofList]

theorem string?_suffix {t : String} (h : string? s = some (t, rest)) : rest <:+ s := by
  unfold string? at h
  split at h
  · have body := longBasicBody_suffix (exists_of_toText h)
    simp only [List.suffix_cons_iff, body.trans (dropNewline_suffix _), or_true]
  · exact (basicBody_suffix (exists_of_toText h)).trans (List.suffix_cons _ _)
  · have body := longLiteralBody_suffix (exists_of_toText h)
    simp only [List.suffix_cons_iff, body.trans (dropNewline_suffix _), or_true]
  · exact (literalBody_suffix (exists_of_toText h)).trans (List.suffix_cons _ _)
  · cases h

theorem two?_suffix {limit n : Nat} (h : two? limit s = some (n, rest)) : rest <:+ s :=
  Instant.digits?_suffix (Option.filter_eq_some_iff.mp h).1

theorem date?_suffix {t : String} (h : date? s = some (t, rest)) : rest <:+ s := by
  simp only [date?, Option.bind_eq_bind, Option.bind_eq_some_iff] at h
  obtain ⟨⟨year, s₁⟩, hyear, s₂, dash, ⟨month, s₃⟩, hmonth, s₄, dash', ⟨day, s₅⟩, hday, -, -, same⟩ :=
    h
  obtain rfl := (Prod.mk.inj (Option.some.inj same)).2
  exact (two?_suffix hday).trans ((Instant.char?_suffix dash').trans ((two?_suffix hmonth).trans
    ((Instant.char?_suffix dash).trans (Instant.digits?_suffix hyear))))

theorem fraction?_suffix {t : String} (h : fraction? s = some (t, rest)) : rest <:+ s := by
  unfold fraction? at h
  split at h
  · split at h
    · cases h
    · cases h
      exact (List.dropWhile_suffix _).trans (List.suffix_cons _ _)
  · cases h
    exact List.suffix_rfl

theorem time?_suffix {t : String} (h : time? s = some (t, rest)) : rest <:+ s := by
  simp only [time?, Option.bind_eq_bind, Option.bind_eq_some_iff] at h
  obtain ⟨⟨hour, s₁⟩, hhour, s₂, colon, ⟨minute, s₃⟩, hminute, s₄, colon', ⟨second, s₅⟩, hsecond,
    ⟨fraction, s₆⟩, hfraction, same⟩ := h
  obtain rfl := (Prod.mk.inj (Option.some.inj same)).2
  exact (fraction?_suffix hfraction).trans ((two?_suffix hsecond).trans
    ((Instant.char?_suffix colon').trans ((two?_suffix hminute).trans
      ((Instant.char?_suffix colon).trans (two?_suffix hhour)))))

theorem signedOffset?_suffix {sign : Char} {t : String} (h : signedOffset? sign s = some (t, rest)) :
    rest <:+ s := by
  simp only [signedOffset?, Option.bind_eq_bind, Option.bind_eq_some_iff] at h
  obtain ⟨⟨hour, s₁⟩, hhour, s₂, colon, ⟨minute, s₃⟩, hminute, same⟩ := h
  obtain rfl := (Prod.mk.inj (Option.some.inj same)).2
  exact (two?_suffix hminute).trans ((Instant.char?_suffix colon).trans (two?_suffix hhour))

theorem offset?_suffix {t : String} (h : offset? s = some (t, rest)) : rest <:+ s := by
  unfold offset? at h
  split at h
  · split at h
    · cases h
      exact List.suffix_cons _ _
    · split at h
      · exact (signedOffset?_suffix h).trans (List.suffix_cons _ _)
      · cases h
        exact List.suffix_rfl
  · cases h
    exact List.suffix_rfl

theorem timeOfDate?_suffix {t : String} (h : timeOfDate? s = some (t, rest)) : rest <:+ s := by
  unfold timeOfDate? at h
  split at h
  · split at h
    · simp only [Option.bind_eq_bind, Option.bind_eq_some_iff] at h
      obtain ⟨⟨time, s₁⟩, htime, ⟨offset, s₂⟩, hoffset, same⟩ := h
      cases same
      exact (offset?_suffix hoffset).trans ((time?_suffix htime).trans (List.suffix_cons _ _))
    · cases h
      exact List.suffix_rfl
  · cases h
    exact List.suffix_rfl

theorem datetime?_suffix {v : Value} (h : datetime? s = some (v, rest)) : rest <:+ s := by
  unfold datetime? at h
  split at h
  · simp only [Option.bind_eq_bind, Option.bind_eq_some_iff] at h
    obtain ⟨⟨date, s₁⟩, hdate, ⟨time, s₂⟩, htime, same⟩ := h
    cases same
    exact (timeOfDate?_suffix htime).trans (date?_suffix hdate)
  · obtain ⟨⟨time, s₁⟩, htime, same⟩ := Option.map_eq_some_iff.mp h
    cases same
    exact time?_suffix htime

theorem digitsFrom_suffix (base : Nat) (s : List Char) : (digitsFrom base s).2 <:+ s := by
  fun_induction digitsFrom base s <;> simp_all [List.suffix_cons_iff]

theorem digits?_suffix {base : Nat} {ds : List Nat} (h : digits? base s = some (ds, rest)) :
    rest <:+ s := by
  unfold digits? at h
  split at h
  · cases h
  · split at h
    · cases h
    · have left : (digitsFrom base s).2 = rest := by rw [Option.some.inj h]
      exact left ▸ digitsFrom_suffix base s

theorem whole?_suffix {ds : List Nat} (h : whole? s = some (ds, rest)) : rest <:+ s := by
  unfold whole? at h
  split at h
  · cases h
    exact List.suffix_cons _ _
  · exact digits?_suffix h

theorem based?_suffix {base : Nat} {v : Value} (h : based? base s = some (v, rest)) :
    rest <:+ s := by
  simp only [based?, Option.bind_eq_bind, Option.bind_eq_some_iff] at h
  obtain ⟨⟨ds, s₁⟩, hds, n, -, same⟩ := h
  cases same
  exact digits?_suffix hds

theorem exponent?_suffix {e : Int} (h : exponent? s = some (e, rest)) : rest <:+ s := by
  unfold exponent? at h
  split at h
  all_goals
    obtain ⟨⟨ds, s₁⟩, hds, same⟩ := Option.map_eq_some_iff.mp h
    cases same
  · exact (digits?_suffix hds).trans (List.suffix_cons _ _)
  · exact (digits?_suffix hds).trans (List.suffix_cons _ _)
  · exact digits?_suffix hds

theorem optionalExponent?_suffix {e : Int} (h : optionalExponent? s = some (e, rest)) :
    rest <:+ s := by
  unfold optionalExponent? at h
  split at h
  · split at h
    · exact (exponent?_suffix h).trans (List.suffix_cons _ _)
    · cases h
      exact List.suffix_rfl
  · cases h
    exact List.suffix_rfl

theorem decimal?_suffix {negative : Bool} {v : Value} (h : decimal? negative s = some (v, rest)) :
    rest <:+ s := by
  simp only [decimal?, Option.bind_eq_bind, Option.bind_eq_some_iff] at h
  obtain ⟨⟨ds, s₁⟩, hds, h⟩ := h
  refine List.IsSuffix.trans ?_ (whole?_suffix hds)
  simp only at h
  split at h
  · simp only [Option.bind_eq_some_iff] at h
    obtain ⟨⟨fraction, s₂⟩, hfraction, ⟨e, s₃⟩, hexponent, f, -, same⟩ := h
    cases same
    exact (optionalExponent?_suffix hexponent).trans ((digits?_suffix hfraction).trans
      (List.suffix_cons _ _))
  · split at h
    · simp only [Option.bind_eq_some_iff] at h
      obtain ⟨⟨e, s₂⟩, hexponent, f, -, same⟩ := h
      cases same
      exact (exponent?_suffix hexponent).trans (List.suffix_cons _ _)
    · obtain ⟨n, -, same⟩ := Option.bind_eq_some_iff.mp h
      cases same
      exact List.suffix_rfl
  · obtain ⟨n, -, same⟩ := Option.bind_eq_some_iff.mp h
    cases same
    exact List.suffix_rfl

theorem signed?_suffix {negative : Bool} {v : Value} (h : signed? negative s = some (v, rest)) :
    rest <:+ s := by
  unfold signed? at h
  split at h
  · cases h
    exact List.suffix_append ['i', 'n', 'f'] rest
  · cases h
    exact List.suffix_append ['n', 'a', 'n'] rest
  · exact decimal?_suffix h

theorem number?_suffix {v : Value} (h : number? s = some (v, rest)) : rest <:+ s := by
  unfold number? at h
  split at h
  · exact (based?_suffix h).trans (List.suffix_append ['0', 'x'] _)
  · exact (based?_suffix h).trans (List.suffix_append ['0', 'o'] _)
  · exact (based?_suffix h).trans (List.suffix_append ['0', 'b'] _)
  · exact (signed?_suffix h).trans (List.suffix_cons _ _)
  · exact (signed?_suffix h).trans (List.suffix_cons _ _)
  · exact signed?_suffix h

theorem word?_suffix {w : List Char} {u v : Value} (h : word? w u s = some (v, rest)) :
    rest <:+ s := by
  unfold word? at h
  split at h
  · cases h
    exact List.drop_suffix _ s
  · cases h

theorem scalar?_suffix {v : Value} (h : scalar? s = some (v, rest)) : rest <:+ s := by
  unfold scalar? at h
  split at h
  · cases h
  · split at h
    · obtain ⟨⟨t, s₁⟩, read, same⟩ := Option.map_eq_some_iff.mp h
      cases same
      exact string?_suffix read
    · split at h
      · exact word?_suffix h
      · split at h
        · exact word?_suffix h
        · split at h
          · exact datetime?_suffix h
          · exact number?_suffix h

theorem simpleKey?_suffix {t : String} (h : simpleKey? s = some (t, rest)) : rest <:+ s := by
  unfold simpleKey? at h
  split at h
  · exact (basicBody_suffix (exists_of_toText h)).trans (List.suffix_cons _ _)
  · exact (literalBody_suffix (exists_of_toText h)).trans (List.suffix_cons _ _)
  · split at h
    · cases h
    · cases h
      exact List.dropWhile_suffix isBareKeyChar

theorem segments?_suffix {room : Nat} {keys : List String}
    (h : segments? room s = some (keys, rest)) : rest <:+ s := by
  induction room generalizing s keys with
  | zero => cases h
  | succ room ih =>
    rw [segments?] at h
    split at h
    · cases h
    · next key more read =>
      refine List.IsSuffix.trans ?_ ((simpleKey?_suffix read).trans (skipSpace_suffix s))
      refine List.IsSuffix.trans ?_ (skipSpace_suffix more)
      split at h
      · next later dot =>
        obtain ⟨⟨keys', s₁⟩, further, same⟩ := Option.map_eq_some_iff.mp h
        cases same
        rw [dot]
        exact (ih further).trans (List.suffix_cons _ _)
      · cases h
        exact List.suffix_rfl

theorem key?_suffix {keys : List String} (h : key? s = some (keys, rest)) : rest <:+ s :=
  segments?_suffix h

theorem value?_cases {depth fuel : Nat} {v : Value}
    (h : value? depth (fuel + 1) s = some (v, rest)) :
    (∃ inside, s = '[' :: inside ∧ ((skipGaps false inside = ']' :: rest ∧ v = .array []) ∨
      ∃ depth' vs, items? depth' fuel (skipGaps false inside) = some (vs, rest) ∧
        v = .array vs)) ∨
    (∃ inside, s = '\x7b' :: inside ∧ ((skipSpace inside = '\x7d' :: rest ∧ v = .table []) ∨
      ∃ depth' es, pairs? depth' fuel [] (skipSpace inside) = some (es, rest) ∧
        v = .table (Node.toEntries es))) ∨
    scalar? s = some (v, rest) := by
  unfold value? at h
  split at h
  · cases h
  · next _ _ inside same =>
    cases same
    refine Or.inl ⟨inside, rfl, ?_⟩
    cases depth with
    | zero => cases h
    | succ depth =>
      simp only at h
      split at h
      · next closed =>
        cases h
        exact Or.inl ⟨closed, rfl⟩
      · obtain ⟨⟨vs, s₁⟩, read, same⟩ := Option.map_eq_some_iff.mp h
        cases same
        exact Or.inr ⟨depth, vs, read, rfl⟩
  · next _ _ inside same =>
    cases same
    refine Or.inr (Or.inl ⟨inside, rfl, ?_⟩)
    cases depth with
    | zero => cases h
    | succ depth =>
      simp only at h
      split at h
      · next closed =>
        cases h
        exact Or.inl ⟨closed, rfl⟩
      · obtain ⟨⟨es, s₁⟩, read, same⟩ := Option.map_eq_some_iff.mp h
        cases same
        exact Or.inr ⟨depth, es, read, rfl⟩
  · exact Or.inr (Or.inr h)

theorem items?_cases {depth fuel : Nat} {vs : List Value}
    (h : items? depth (fuel + 1) s = some (vs, rest)) :
    ∃ v after, value? depth fuel s = some (v, after) ∧
      (skipGaps false after = ']' :: rest ∨
        ∃ later, skipGaps false after = ',' :: later ∧ (skipGaps false later = ']' :: rest ∨
          ∃ vs', items? depth fuel (skipGaps false later) = some (vs', rest))) := by
  rw [items?] at h
  split at h
  · cases h
  · next v after read =>
    refine ⟨v, after, read, ?_⟩
    split at h
    · next closed =>
      cases h
      exact Or.inl closed
    · next later comma =>
      refine Or.inr ⟨later, comma, ?_⟩
      split at h
      · next closed =>
        cases h
        exact Or.inl closed
      · obtain ⟨⟨vs', s₁⟩, further, same⟩ := Option.map_eq_some_iff.mp h
        cases same
        exact Or.inr ⟨vs', further⟩
    · cases h

theorem pairs?_cases {depth fuel : Nat} {es es' : Entries}
    (h : pairs? depth (fuel + 1) es s = some (es', rest)) :
    ∃ path more above key v after es₁, key? s = some (path, '=' :: more) ∧
      splitLast path = some (above, key) ∧ value? depth fuel (skipSpace more) = some (v, after) ∧
      es.putDotted key v above true = some es₁ ∧
      ((skipSpace after = '\x7d' :: rest ∧ es' = es₁) ∨
        ∃ later, skipSpace after = ',' :: later ∧
          pairs? depth fuel es₁ later = some (es', rest)) := by
  simp only [pairs?, Option.bind_eq_bind, Option.bind_eq_some_iff] at h
  obtain ⟨⟨path, s₁⟩, hpath, ⟨above, key⟩, hlast, h⟩ := h
  simp only at h
  split at h
  · next more =>
    simp only [Option.bind_eq_some_iff] at h
    obtain ⟨⟨v, after⟩, hv, es₁, hput, h⟩ := h
    refine ⟨path, more, above, key, v, after, es₁, hpath, hlast, hv, hput, ?_⟩
    simp only at h
    split at h
    · next closed =>
      cases h
      exact Or.inl ⟨closed, rfl⟩
    · next later comma => exact Or.inr ⟨later, comma, h⟩
    · cases h
  · cases h

theorem readers_suffix (fuel : Nat) :
    (∀ {depth s v rest}, value? depth fuel s = some (v, rest) → rest <:+ s) ∧
    (∀ {depth s vs rest}, items? depth fuel s = some (vs, rest) → rest <:+ s) ∧
    (∀ {depth es s es' rest}, pairs? depth fuel es s = some (es', rest) → rest <:+ s) := by
  induction fuel with
  | zero => exact ⟨nofun, nofun, nofun⟩
  | succ fuel ih =>
    obtain ⟨hvalue, hitems, hpairs⟩ := ih
    refine ⟨?_, ?_, ?_⟩
    · intro depth s v rest h
      rcases value?_cases h with ⟨inside, rfl, ⟨closed, -⟩ | ⟨_, vs, read, -⟩⟩ |
        ⟨inside, rfl, ⟨closed, -⟩ | ⟨_, es, read, -⟩⟩ | read
      · exact suffix_of_eq_cons closed ((skipGaps_suffix false inside).trans (List.suffix_cons _ _))
      · exact (hitems read).trans ((skipGaps_suffix false inside).trans (List.suffix_cons _ _))
      · exact suffix_of_eq_cons closed ((skipSpace_suffix inside).trans (List.suffix_cons _ _))
      · exact (hpairs read).trans ((skipSpace_suffix inside).trans (List.suffix_cons _ _))
      · exact scalar?_suffix read
    · intro depth s vs rest h
      obtain ⟨v, after, read, closed | ⟨later, comma, closed | ⟨vs', further⟩⟩⟩ := items?_cases h
      all_goals refine List.IsSuffix.trans ?_ (hvalue read)
      · exact suffix_of_eq_cons closed (skipGaps_suffix false after)
      · exact (suffix_of_eq_cons closed (skipGaps_suffix false later)).trans
          (suffix_of_eq_cons comma (skipGaps_suffix false after))
      · exact ((hitems further).trans (skipGaps_suffix false later)).trans
          (suffix_of_eq_cons comma (skipGaps_suffix false after))
    · intro depth es s es' rest h
      obtain ⟨path, more, above, key, v, after, es₁, hkey, -, hvalue', -, h⟩ := pairs?_cases h
      have pair : after <:+ s := (hvalue hvalue').trans ((skipSpace_suffix more).trans
        ((List.suffix_cons _ more).trans (key?_suffix hkey)))
      rcases h with ⟨closed, -⟩ | ⟨later, comma, further⟩
      · exact (suffix_of_eq_cons closed (skipSpace_suffix after)).trans pair
      · exact ((hpairs further).trans (suffix_of_eq_cons comma (skipSpace_suffix after))).trans pair

theorem value?_suffix {depth fuel : Nat} {v : Value} (h : value? depth fuel s = some (v, rest)) :
    rest <:+ s :=
  (readers_suffix fuel).1 h

theorem closeHeader_suffix {isArray : Bool} (h : closeHeader isArray s = some rest) :
    rest <:+ s := by
  unfold closeHeader at h
  split at h
  · split at h
    · exact (lineTail?_suffix h).trans (List.suffix_append [']', ']'] _)
    · cases h
  · split at h
    · cases h
    · exact (lineTail?_suffix h).trans (List.suffix_cons _ _)
  · cases h

variable {d d' : Draft}

theorem header?_cases {isArray : Bool} (h : header? d isArray s = some (d', rest)) :
    ∃ path more, key? s = some (path, more) ∧ closeHeader isArray more = some rest ∧
      d.start path isArray = some d' := by
  simp only [header?, Option.bind_eq_bind, Option.bind_eq_some_iff] at h
  obtain ⟨⟨path, more⟩, hkey, s₁, hclose, d₁, hstart, same⟩ := h
  cases same
  exact ⟨path, more, hkey, hclose, hstart⟩

theorem entry?_cases (h : entry? d s = some (d', rest)) :
    ∃ path more v after, key? s = some (path, '=' :: more) ∧
      value? nestingLimit (more.length + 1) (skipSpace more) = some (v, after) ∧
      lineTail? after = some rest ∧ d.add path v = some d' := by
  simp only [ entry?, Option.bind_eq_bind, Option.bind_eq_some_iff] at h
  obtain ⟨⟨path, s₁⟩, hkey, h⟩ := h
  simp only at h
  split at h
  · next more =>
    simp only [Option.bind_eq_some_iff] at h
    obtain ⟨⟨v, after⟩, hvalue, s₂, htail, d₁, hadd, same⟩ := h
    cases same
    exact ⟨path, more, v, after, hkey, hvalue, htail, hadd⟩
  · cases h

/-- A line is a header, an entry, or nothing but a comment and the end of the line. -/
theorem line?_cases (h : line? d s = some (d', rest)) :
    (∃ isArray inside, s = (if isArray then ['[', '['] else ['[']) ++ inside ∧
      header? d isArray inside = some (d', rest)) ∨
    (d' = d ∧ rest <:+ s) ∨ entry? d s = some (d', rest) := by
  unfold line? at h
  split at h
  · next inside => exact Or.inl ⟨true, inside, rfl, h⟩
  · next inside _ => exact Or.inl ⟨false, inside, rfl, h⟩
  · obtain ⟨s₁, ended, same⟩ := Option.map_eq_some_iff.mp h
    cases same
    exact Or.inr (Or.inl ⟨rfl, (lineEnd?_suffix ended).trans
      ((List.dropWhile_suffix isText).trans (List.suffix_cons _ _))⟩)
  · split at h
    · next ended =>
      cases h
      exact Or.inr (Or.inl ⟨rfl, newline?_suffix ended⟩)
    · exact Or.inr (Or.inr h)

theorem line?_suffix (h : line? d s = some (d', rest)) : rest <:+ s := by
  rcases line?_cases h with ⟨isArray, inside, rfl, header⟩ | ⟨-, left⟩ | entry
  · obtain ⟨path, more, hkey, hclose, -⟩ := header?_cases header
    exact (closeHeader_suffix hclose).trans ((key?_suffix hkey).trans (List.suffix_append _ inside))
  · exact left
  · obtain ⟨path, more, v, after, hkey, hvalue, htail, -⟩ := entry?_cases entry
    exact (lineTail?_suffix htail).trans ((value?_suffix hvalue).trans ((skipSpace_suffix more).trans
      ((List.suffix_cons _ more).trans (key?_suffix hkey))))

theorem withoutMark_suffix (s : List Char) : withoutMark s <:+ s := by
  unfold withoutMark
  split
  · exact List.suffix_cons _ _
  · exact List.suffix_rfl

end Toml

end SitePublish
