import SitePublish.Proofs.Toml.Paths
import SitePublish.Proofs.Toml.Spelling

/-!
# Where keys are written

A header writes the beginnings of its path, an entry those of its key in the table that is open, and a
table in braces those of its keys in the table of its own key. Every path that leads to an entry of a
document is written in the text, as what a reading has put together holds no other paths at any time.
-/

set_option autoImplicit false

namespace SitePublish.Toml

section Places

/-- The path is written in a table in braces; the text is what stands behind the brace or a comma, and
the place what stands from the key on. -/
inductive Braced : List Char → List String → List Char → Prop
  | key {s rest : List Char} {path keys : List String} (read : key? s = some (path, rest))
      (ne : keys ≠ []) (start : keys <+: path) : Braced s keys s
  | inner {s rest inside place : List Char} {path keys : List String}
      (read : key? s = some (path, '=' :: rest)) (brace : skipSpace rest = '\x7b' :: inside)
      (below : Braced (skipSpace inside) keys place) : Braced s (path ++ keys) place
  | next {s rest after later place : List Char} {path keys : List String} {depth fuel : Nat}
      {v : Value} (read : key? s = some (path, '=' :: rest))
      (value : value? depth fuel (skipSpace rest) = some (v, after))
      (comma : skipSpace after = ',' :: later) (further : Braced later keys place) :
      Braced s keys place

def brackets (isArray : Bool) : List Char := if isArray then ['[', '['] else ['[']

/-- The path is written on the line, or the lines, with which the text begins. -/
inductive Writes (d : Draft) : List Char → List String → List Char → Prop
  | header {inside rest : List Char} {path keys : List String} (isArray : Bool)
      (read : key? inside = some (path, rest)) (ne : keys ≠ []) (start : keys <+: path) :
      Writes d (brackets isArray ++ inside) keys inside
  | entry {s rest : List Char} {path keys : List String} (read : key? s = some (path, rest))
      (ne : keys ≠ []) (start : keys <+: path) : Writes d s (d.path ++ keys) s
  | braces {s rest inside place : List Char} {path keys : List String}
      (read : key? s = some (path, '=' :: rest)) (brace : skipSpace rest = '\x7b' :: inside)
      (below : Braced (skipSpace inside) keys place) : Writes d s (d.path ++ path ++ keys) place

/-- The reading of the text comes to this draft with this text left. -/
inductive Reads (text : List Char) : Draft → List Char → Prop
  | start : Reads text .empty text
  | line {d d' : Draft} {s rest : List Char} (before : Reads text d s)
      (read : line? d (skipSpace s) = some (d', rest)) : Reads text d' rest

def WrittenAt (text : List Char) (keys : List String) (place : List Char) : Prop :=
  ∃ d s, Reads text d s ∧ Writes d (skipSpace s) keys place

variable {text s place : List Char} {keys : List String} {d : Draft}

theorem Reads.suffix (h : Reads text d s) : s <:+ text := by
  induction h with
  | start => exact List.suffix_rfl
  | line _ read ih => exact (line?_suffix read).trans ((skipSpace_suffix _).trans ih)

theorem Reads.start_or_behind (h : Reads text d s) : (d = .empty ∧ s = text) ∨
    ∃ d' rest, line? .empty (skipSpace text) = some (d', rest) ∧ s <:+ rest := by
  induction h with
  | start => exact Or.inl ⟨rfl, rfl⟩
  | line before read ih =>
    rcases ih with ⟨rfl, rfl⟩ | ⟨d', rest, first, behind⟩
    · exact Or.inr ⟨_, _, read, List.suffix_rfl⟩
    · exact Or.inr ⟨d', rest, first, (line?_suffix read).trans ((skipSpace_suffix _).trans behind)⟩

def Ends (place : List Char) (keys : List String) : Prop :=
  ∃ path rest k, key? place = some (path, rest) ∧ keys.getLast? = some k ∧ k ∈ path

theorem ends_of_start {rest : List Char} {path : List String} (read : key? place = some (path, rest))
    (ne : keys ≠ []) (start : keys <+: path) : Ends place keys :=
  ⟨path, rest, keys.getLast ne, read, List.getLast?_eq_some_getLast ne,
    start.subset (List.getLast_mem ne)⟩

theorem Ends.append (h : Ends place keys) (above : List String) : Ends place (above ++ keys) := by
  obtain ⟨path, rest, k, read, last, mem⟩ := h
  exact ⟨path, rest, k, read, by simp [last], mem⟩

theorem inside_suffix {rest inside : List Char} {path : List String}
    (read : key? s = some (path, '=' :: rest)) (brace : skipSpace rest = '\x7b' :: inside) :
    skipSpace inside <:+ s := by
  have opened := suffix_of_eq_cons brace (skipSpace_suffix rest)
  exact (skipSpace_suffix inside).trans (opened.trans (suffix_of_eq_cons rfl (key?_suffix read)))

theorem Braced.spot (h : Braced s keys place) : place <:+ s ∧ Ends place keys := by
  induction h with
  | key read ne start => exact ⟨List.suffix_rfl, ends_of_start read ne start⟩
  | inner read brace _ ih => exact ⟨ih.1.trans (inside_suffix read brace), ih.2.append _⟩
  | next read value comma _ ih =>
    have after := (value?_suffix value).trans (skipSpace_suffix _)
    have later := suffix_of_eq_cons comma (skipSpace_suffix _)
    exact ⟨ih.1.trans (later.trans (after.trans (suffix_of_eq_cons rfl (key?_suffix read)))), ih.2⟩

theorem Writes.spot (h : Writes d s keys place) : place <:+ s ∧ Ends place keys := by
  cases h with
  | header isArray read ne start =>
    exact ⟨List.suffix_append _ place, ends_of_start read ne start⟩
  | entry read ne start => exact ⟨List.suffix_rfl, (ends_of_start read ne start).append d.path⟩
  | braces read brace below =>
    obtain ⟨suffix, ends⟩ := below.spot
    exact ⟨suffix.trans (inside_suffix read brace), ends.append _⟩

theorem Writes.head_or_key (h : Writes d s keys place) : s.head? = some '[' ∨ (key? s).isSome := by
  cases h with
  | header isArray => cases isArray <;> exact Or.inl rfl
  | entry read => exact Or.inr (by rw [read, Option.isSome_some])
  | braces read => exact Or.inr (by rw [read, Option.isSome_some])

theorem WrittenAt.spot (h : WrittenAt text keys place) : place <:+ text ∧ Ends place keys := by
  obtain ⟨d, s, reads, writes⟩ := h
  obtain ⟨suffix, ends⟩ := writes.spot
  exact ⟨(suffix.trans (skipSpace_suffix s)).trans reads.suffix, ends⟩

end Places

section Scalars

variable {s rest : List Char} {v : Value} {inner : List (String × Value)}

theorem integerOf_ne_table {n : Int} : integerOf n ≠ some (.table inner) := by
  unfold integerOf
  split <;> simp

theorem floatOf_ne_table {negative : Bool} {ds : List Nat} {e : Int} :
    floatOf negative ds e ≠ some (.table inner) := by
  unfold floatOf
  simp only
  split
  · simp
  · split <;> simp

theorem based?_ne_table {base : Nat} : based? base s ≠ some (.table inner, rest) := by
  intro h
  simp only [based?, Option.bind_eq_bind, Option.bind_eq_some_iff] at h
  obtain ⟨read, -, n, made, same⟩ := h
  cases same
  exact integerOf_ne_table made

theorem decimal?_ne_table {negative : Bool} : decimal? negative s ≠ some (.table inner, rest) := by
  intro h
  simp only [decimal?, Option.bind_eq_bind, Option.bind_eq_some_iff] at h
  obtain ⟨⟨ds, s₁⟩, -, h⟩ := h
  simp only at h
  split at h
  · simp only [Option.bind_eq_some_iff] at h
    obtain ⟨fraction, -, e, -, f, made, same⟩ := h
    cases same
    exact floatOf_ne_table made
  · split at h
    · simp only [Option.bind_eq_some_iff] at h
      obtain ⟨e, -, f, made, same⟩ := h
      cases same
      exact floatOf_ne_table made
    · obtain ⟨n, made, same⟩ := Option.bind_eq_some_iff.mp h
      cases same
      exact integerOf_ne_table made
  · obtain ⟨n, made, same⟩ := Option.bind_eq_some_iff.mp h
    cases same
    exact integerOf_ne_table made

theorem number?_ne_table : number? s ≠ some (.table inner, rest) := by
  have signed {negative : Bool} {s : List Char} : signed? negative s ≠ some (.table inner, rest) := by
    unfold signed?
    split
    · simp [infinity]
    · simp [notANumber]
    · exact decimal?_ne_table
  unfold number?
  split
  · exact based?_ne_table
  · exact based?_ne_table
  · exact based?_ne_table
  · exact signed
  · exact signed
  · exact signed

theorem datetime?_ne_table : datetime? s ≠ some (.table inner, rest) := by
  intro h
  unfold datetime? at h
  split at h
  · simp only [Option.bind_eq_bind, Option.bind_eq_some_iff] at h
    obtain ⟨date, -, time, -, same⟩ := h
    cases same
  · obtain ⟨time, -, same⟩ := Option.map_eq_some_iff.mp h
    cases same

theorem scalar?_ne_table : scalar? s ≠ some (.table inner, rest) := by
  have word {w : List Char} {b : Bool} : word? w (.boolean b) s ≠ some (.table inner, rest) := by
    unfold word?
    split <;> simp
  unfold scalar?
  split
  · simp
  · split
    · simp
    · split
      · exact word
      · split
        · exact word
        · split
          · exact datetime?_ne_table
          · exact number?_ne_table

end Scalars

section Reading

variable {W : List String → Prop} {s rest text : List Char} {d d' : Draft}

/-- The paths of a value stand in its braces; those of further entries behind the ones that are read. -/
theorem readers_within (fuel : Nat) :
    (∀ {depth s v rest}, value? depth fuel s = some (v, rest) → v.Within (fun keys =>
      ∃ inside place, s = '\x7b' :: inside ∧ Braced (skipSpace inside) keys place) []) ∧
    (∀ {depth es s es' rest} {W : List String → Prop}, pairs? depth fuel es s = some (es', rest) →
      es.Within W [] → (∀ keys place, Braced s keys place → W keys) → es'.Within W []) := by
  induction fuel with
  | zero => exact ⟨nofun, nofun⟩
  | succ fuel ih =>
    obtain ⟨hvalue, hpairs⟩ := ih
    refine ⟨?_, ?_⟩
    · rintro depth s v rest h inner keys rfl reaches
      rcases value?_cases h with ⟨_, -, ⟨-, same⟩ | ⟨_, _, -, same⟩⟩ |
        ⟨inside, rfl, ⟨-, same⟩ | ⟨_, es, read, same⟩⟩ | read
      · cases same
      · cases same
      · cases same
        cases reaches <;> rename_i mem <;> simp at mem
      · cases same
        have within : es.Within (fun keys => ∃ place, Braced (skipSpace inside) keys place) [] :=
          hpairs read Entries.within_nil fun keys place braced => ⟨place, braced⟩
        obtain ⟨place, braced⟩ := within keys (reaches_of_toEntries reaches)
        exact ⟨inside, place, rfl, braced⟩
      · exact absurd read scalar?_ne_table
    · intro depth es s es' rest W h within braced
      obtain ⟨path, more, above, key, v, after, es₁, hkey, hlast, hread, hput, h⟩ := pairs?_cases h
      obtain rfl := eq_of_splitLast hlast
      have begins : Begins W [] (above ++ [key]) := fun keys ne start =>
        braced keys s (.key hkey ne start)
      have inside : v.Within W ([] ++ (above ++ [key])) := by
        intro inner keys same reaches
        obtain ⟨inside, place, brace, below⟩ := hvalue hread inner keys same reaches
        exact braced _ place (.inner hkey brace below)
      have first : es₁.Within W [] := within.putDotted begins inside hput
      rcases h with ⟨-, rfl⟩ | ⟨later, comma, further⟩
      · exact first
      · exact hpairs further first fun keys place below =>
          braced keys place (.next hkey hread comma below)

theorem Draft.Within.line (h : d.Within W) (writes : ∀ keys place, Writes d s keys place → W keys)
    (read : line? d s = some (d', rest)) : d'.Within W := by
  rcases line?_cases read with ⟨isArray, inside, rfl, header⟩ | ⟨rfl, -⟩ | entry
  · obtain ⟨path, more, hkey, -, hstart⟩ := header?_cases header
    exact h.start (fun keys ne start => writes keys inside (.header isArray hkey ne start)) hstart
  · exact h
  · obtain ⟨path, more, v, after, hkey, hvalue, -, hadd⟩ := entry?_cases entry
    refine h.add (fun keys ne start => writes _ s (.entry hkey ne start)) ?_ hadd
    intro inner keys same reaches
    obtain ⟨inside, place, brace, below⟩ := (readers_within _).1 hvalue inner keys same reaches
    exact writes _ place (.braces hkey brace below)

theorem lines?_within {fuel : Nat} (reads : Reads text d s)
    (h : d.Within fun keys => ∃ place, WrittenAt text keys place)
    (read : lines? fuel d s = some d') :
    d'.Within fun keys => ∃ place, WrittenAt text keys place := by
  induction fuel generalizing d s with
  | zero => cases read
  | succ fuel ih =>
    rw [lines?] at read
    split at read
    · cases read
      exact h
    · split at read
      · next line =>
        refine ih (reads.line line) (h.line ?_ line) read
        exact fun keys place writes => ⟨place, d, s, reads, writes⟩
      · cases read

theorem exists_writtenAt {content : String} {es : List (String × Value)} {keys : List String}
    (parsed : parse? content = some es) (reaches : Reaches es keys) :
    ∃ place, WrittenAt (withoutMark content.toList) keys place := by
  simp only [parse?, Option.bind_eq_bind, Option.bind_eq_some_iff] at parsed
  obtain ⟨d, read, root, closed, same⟩ := parsed
  cases same
  have within := lines?_within .start Draft.within_empty read
  exact within.close closed keys (reaches_of_toEntries reaches)

end Reading

end SitePublish.Toml
