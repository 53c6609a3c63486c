import SitePublish.Http.Url
import SitePublish.Proofs.Text.Split
import SitePublish.Site.Path

/-!
# Addresses that end in a name

What is sent for an address that is made by putting a name behind a front. The front alone decides
on the host and on a folder; the name is followed from there, up to the first hash sign, through
slashes, backslashes and dot segments, and may bring a query with it. Two names are sent alike just
when they lead to the same segments and the same query. A plain name, which has none of the signs
that mean something in an address, leads to a place of its own.
-/

set_option autoImplicit false

namespace SitePublish

namespace Text

theorem utf8_cons (c : Char) (s : List Char) :
    utf8 (String.ofList (c :: s)) = utf8 (String.singleton c) ++ utf8 (String.ofList s) := by
  have hs : String.ofList (c :: s) = String.singleton c ++ String.ofList s := by
    apply String.toList_injective
    simp
  rw [hs, utf8_append]

end Text

namespace Http.Url

section Escaping

def escapeSigns : List Char := "%0123456789ABCDEF".toList

theorem hexUpper_mem {n : Nat} (h : n < 16) : hexUpper n ∈ escapeSigns := by
  revert n
  decide

theorem mem_escapeSigns_of_mem_escapeByte {b : UInt8} {c : Char} (h : c ∈ escapeByte b) :
    c ∈ escapeSigns := by
  have hb := b.toNat_lt
  simp only [escapeByte, List.mem_cons, List.not_mem_nil, or_false] at h
  rcases h with rfl | rfl | rfl
  · decide
  · exact hexUpper_mem (by omega)
  · exact hexUpper_mem (by omega)

theorem mem_of_mem_escape {set s : List Char} {c : Char} (h : c ∈ escape set s)
    (other : c ∉ escapeSigns) : c ∈ s ∧ c ∉ set := by
  obtain ⟨x, hx, hc⟩ := List.mem_flatMap.mp h
  unfold escapeIn at hc
  split at hc
  · obtain ⟨b, -, hb⟩ := List.mem_flatMap.mp hc
    exact absurd (mem_escapeSigns_of_mem_escapeByte hb) other
  · next plain =>
    cases List.mem_singleton.mp hc
    simp only [Bool.or_eq_true, not_or, List.contains_iff_mem] at plain
    exact ⟨hx, plain.2⟩

def unescape : List Char → List UInt8
  | '%' :: high :: low :: rest =>
    UInt8.ofNat (16 * (Digest.hexValue? high).getD 0 + (Digest.hexValue? low).getD 0) ::
      unescape rest
  | c :: rest => Text.utf8 (String.singleton c) ++ unescape rest
  | [] => []

theorem hexValue?_hexUpper {n : Nat} (h : n < 16) : Digest.hexValue? (hexUpper n) = some n := by
  revert n
  decide

theorem unescape_escapeByte (b : UInt8) (rest : List Char) :
    unescape (escapeByte b ++ rest) = b :: unescape rest := by
  have hb := b.toNat_lt
  have hbyte : 16 * (b.toNat / 16) + b.toNat % 16 = b.toNat := by omega
  simp only [escapeByte, List.cons_append, List.nil_append, unescape]
  rw [hexValue?_hexUpper (by omega), hexValue?_hexUpper (by omega), Option.getD_some,
    Option.getD_some, hbyte, UInt8.ofNat_toNat]

theorem unescape_escapeBytes (bytes : List UInt8) (rest : List Char) :
    unescape (bytes.flatMap escapeByte ++ rest) = bytes ++ unescape rest := by
  induction bytes with
  | nil => rfl
  | cons b bytes ih =>
    rw [List.flatMap_cons, List.append_assoc, unescape_escapeByte, ih, List.cons_append]

theorem unescape_escape {set s : List Char} (free : '%' ∉ s) :
    unescape (escape set s) = Text.utf8 (String.ofList s) := by
  induction s with
  | nil => rfl
  | cons c s ih =>
    rw [List.mem_cons, not_or] at free
    have ih := ih free.2
    rw [escape] at ih ⊢
    rw [List.flatMap_cons, Text.utf8_cons, ← ih, escapeIn]
    split
    · exact unescape_escapeBytes _ _
    · rw [List.singleton_append, unescape]
      exact fun _ _ _ h => absurd h.symm free.1

theorem escape_injective {set s t : List Char} (hs : '%' ∉ s) (ht : '%' ∉ t)
    (h : escape set s = escape set t) : s = t := by
  have hu := congrArg unescape h
  rw [unescape_escape hs, unescape_escape ht] at hu
  have hv := congrArg Text.ofUtf8? hu
  rw [Text.ofUtf8?_utf8, Text.ofUtf8?_utf8] at hv
  exact String.ofList_injective (Option.some.inj hv)

theorem map_escape_injective {set : List Char} {ss ts : List (List Char)}
    (hs : ∀ s ∈ ss, '%' ∉ s) (ht : ∀ t ∈ ts, '%' ∉ t)
    (h : ss.map (escape set) = ts.map (escape set)) : ss = ts := by
  induction ss generalizing ts with
  | nil => exact (List.map_eq_nil_iff.mp h.symm).symm
  | cons s ss ih =>
    cases ts with
    | nil => cases h
    | cons t ts =>
      rw [List.forall_mem_cons] at hs ht
      obtain ⟨head, tail⟩ := List.cons.inj h
      rw [escape_injective hs.1 ht.1 head, ih hs.2 ht.2 tail]

end Escaping

section Segments

def enter (done : List (List Char)) : List (List Char) → List (List Char)
  | [] => done
  | s :: rest =>
    if plainDots s = ['.', '.'] then enter (done.drop 1) rest
    else if plainDots s = ['.'] then enter done rest
    else enter (escape pathSet s :: done) rest

theorem resolve_append (done ss : List (List Char)) {ts : List (List Char)} (ne : ts ≠ []) :
    resolve done (ss ++ ts) = resolve (enter done ss) ts := by
  induction ss generalizing done with
  | nil => rfl
  | cons s ss ih =>
    have more : (ss ++ ts).isEmpty = false := by
      rw [List.isEmpty_eq_false_iff]
      exact List.append_ne_nil_of_right_ne_nil ss ne
    rw [List.cons_append, resolve, enter]
    simp only [more, Bool.false_eq_true, if_false]
    split
    · exact ih _
    · split <;> exact ih _

theorem resolve_ne_nil (done : List (List Char)) {ss : List (List Char)} (ne : ss ≠ []) :
    resolve done ss ≠ [] := by
  induction ss generalizing done with
  | nil => exact absurd rfl ne
  | cons s rest ih =>
    cases rest with
    | nil =>
      simp only [resolve]
      split
      · simp
      · split <;> simp
    | cons t rest =>
      have ih := fun done => ih done (List.cons_ne_nil t rest)
      rw [resolve]
      split
      · exact ih _
      · split <;> exact ih _

/-- A segment that has been read: no slash and no question mark is left in it. -/
def Clear (s : List Char) : Prop := '/' ∉ s ∧ '?' ∉ s

theorem clear_escape {s : List Char} (free : '/' ∉ s) : Clear (escape pathSet s) :=
  ⟨fun h => free (mem_of_mem_escape h (by decide)).1,
    fun h => (mem_of_mem_escape h (by decide)).2 (by decide)⟩

theorem clear_enter {done ss : List (List Char)} (hd : ∀ s ∈ done, Clear s)
    (hs : ∀ s ∈ ss, '/' ∉ s) : ∀ s ∈ enter done ss, Clear s := by
  induction ss generalizing done with
  | nil => exact hd
  | cons s ss ih =>
    rw [List.forall_mem_cons] at hs
    rw [enter]
    split
    · exact ih (fun t ht => hd t (List.mem_of_mem_drop ht)) hs.2
    · split
      · exact ih hd hs.2
      · exact ih (List.forall_mem_cons.mpr ⟨clear_escape hs.1, hd⟩) hs.2

theorem clear_resolve {done ss : List (List Char)} (hd : ∀ s ∈ done, Clear s)
    (hs : ∀ s ∈ ss, '/' ∉ s) : ∀ s ∈ resolve done ss, Clear s := by
  have empty : Clear [] := ⟨by simp, by simp⟩
  induction ss generalizing done with
  | nil => simpa [resolve] using hd
  | cons s ss ih =>
    rw [List.forall_mem_cons] at hs
    have hdrop : ∀ t ∈ done.drop 1, Clear t := fun t ht => hd t (List.mem_of_mem_drop ht)
    rw [resolve]
    split
    · apply ih _ hs.2
      split
      · exact List.forall_mem_cons.mpr ⟨empty, hdrop⟩
      · exact hdrop
    · split
      · apply ih _ hs.2
        split
        · exact List.forall_mem_cons.mpr ⟨empty, hd⟩
        · exact hd
      · exact ih (List.forall_mem_cons.mpr ⟨clear_escape hs.1, hd⟩) hs.2

theorem segments_append (a b : List Char) : segments (a ++ '/' :: b) = segments a ++ segments b := by
  rw [segments, List.map_append, List.map_cons, ite_self, Text.splitChars_append]
  rfl

theorem segments_ne_nil (s : List Char) : segments s ≠ [] := Text.splitChars_ne_nil _ _

theorem slash_free_of_mem_segments {s p : List Char} (h : p ∈ segments s) : '/' ∉ p :=
  SitePath.not_mem_of_mem_splitChars h

def folderOf : List Char → List (List Char)
  | [] => []
  | _ :: path => enter [] (segments path)

theorem clear_folderOf (path : List Char) : ∀ s ∈ folderOf path, Clear s := by
  cases path with
  | nil => simp [folderOf]
  | cons c path => exact clear_enter (by simp) fun s hs => slash_free_of_mem_segments hs

theorem pathOf_append (path name : List Char) :
    pathOf (path ++ '/' :: name) =
      '/' :: Text.joinChars '/' (resolve (folderOf path) (segments name)) := by
  cases path with
  | nil => rfl
  | cons c path =>
    change '/' :: Text.joinChars '/' (resolve [] (segments (path ++ '/' :: name))) = _
    rw [segments_append, resolve_append _ _ (segments_ne_nil name), folderOf]

end Segments

section Following

def isEdge (c : Char) : Bool := c.toNat ≤ 0x20

def counts (c : Char) : Bool := c ≠ '\t' && c ≠ '\n' && c ≠ '\r'

/-- What counts of a name at the end of an address. -/
def tidy (name : List Char) : List Char := ((name.reverse.dropWhile isEdge).reverse).filter counts

def lead (stem : List Char) : List Char := (stem.dropWhile isEdge).filter counts

/-- Where a name leads from a folder: the segments on the way, and a query. -/
def follow (folder : List (List Char)) (name : List Char) :
    List (List Char) × Option (List Char) :=
  let (path, query) := cutAt '?' (cutAt '#' (tidy name)).1
  (resolve folder (segments path), query.map (escape querySet))

def sent (place : List (List Char) × Option (List Char)) : List Char :=
  '/' :: Text.joinChars '/' place.1 ++ (place.2.map fun q => '?' :: q).getD []

theorem cutAt_append {mark : Char} {a : List Char} (free : mark ∉ a) (b : List Char) :
    cutAt mark (a ++ b) = (a ++ (cutAt mark b).1, (cutAt mark b).2) := by
  rw [cutAt, Text.cutFirst_append free, cutAt]
  cases Text.cutFirst mark b <;> rfl

theorem cutAt_of_not_mem {mark : Char} {s : List Char} (free : mark ∉ s) :
    cutAt mark s = (s, none) := by
  rw [cutAt, Text.cutFirst_of_not_mem free]

theorem sent_injective {a b : List (List Char) × Option (List Char)} (ha : a.1 ≠ [])
    (hb : b.1 ≠ []) (ca : ∀ s ∈ a.1, Clear s) (cb : ∀ s ∈ b.1, Clear s)
    (h : sent a = sent b) : a = b := by
  have cut : ∀ p : List (List Char) × Option (List Char), (∀ s ∈ p.1, Clear s) →
      cutAt '?' (sent p) = ('/' :: Text.joinChars '/' p.1, p.2) := by
    intro p cp
    have free : '?' ∉ '/' :: Text.joinChars '/' p.1 :=
      List.not_mem_cons_of_ne_of_not_mem (by decide)
        (Text.not_mem_joinChars (by decide) fun s hs => (cp s hs).2)
    rw [sent, cutAt_append free]
    cases p.2 with
    | none => simp [cutAt, Text.cutFirst]
    | some q => simp [cutAt, Text.cutFirst]
  have hcut := congrArg (cutAt '?') h
  rw [cut a ca, cut b cb] at hcut
  obtain ⟨hpath, hquery⟩ := Prod.mk.inj hcut
  have hsplit := congrArg (Text.splitChars '/') (List.cons.inj hpath).2
  rw [Text.splitChars_joinChars ha fun s hs => (ca s hs).1,
    Text.splitChars_joinChars hb fun s hs => (cb s hs).1] at hsplit
  exact Prod.ext hsplit hquery

end Following

section Reading

/-- What a front says of an address: scheme, authority, and the text behind the authority and in
front of the last slash. -/
structure Front where
  scheme : List Char
  authority : List Char
  path : List Char

namespace Front

def folder (f : Front) : List (List Char) := folderOf f.path

def read? (stem : List Char) : Option Front := do
  let (scheme, rest) ← schemeOf? (lead stem)
  let rest := rest.dropWhile isSlash
  let authority ← authorityOf? scheme (rest.takeWhile fun c => !endsAuthority c)
  return ⟨scheme, authority, rest.dropWhile fun c => !endsAuthority c⟩

def address (f : Front) (rest : List Char) : Url :=
  let (rest, fragment) := cutAt '#' (f.path ++ rest)
  let (path, query) := cutAt '?' rest
  { scheme := String.ofList f.scheme
    authority := String.ofList f.authority
    path := String.ofList (pathOf path)
    query := query.map fun q => String.ofList (escape querySet q)
    fragment := fragment.map fun f => String.ofList (escape fragmentSet f) }

end Front

theorem dropWhile_append_cons {p : Char → Bool} {c : Char} (hc : p c = false) (a b : List Char) :
    (a ++ c :: b).dropWhile p = a.dropWhile p ++ c :: b := by
  induction a with
  | nil => simp [hc]
  | cons x a ih =>
    rw [List.cons_append, List.dropWhile_cons, List.dropWhile_cons, ih]
    split <;> rfl

theorem takeWhile_append_cons {p : Char → Bool} {c : Char} (hc : p c = false) (a b : List Char) :
    (a ++ c :: b).takeWhile p = a.takeWhile p := by
  induction a with
  | nil => simp [hc]
  | cons x a ih =>
    rw [List.cons_append, List.takeWhile_cons, List.takeWhile_cons, ih]

theorem lead_append_cons {c : Char} (edge : isEdge c = false) (inside : counts c = true)
    (a b : List Char) : lead (a ++ c :: b) = lead a ++ c :: b.filter counts := by
  rw [lead, dropWhile_append_cons edge, List.filter_append, List.filter_cons_of_pos inside, lead]

theorem cleaned_append (stem name : List Char) :
    cleaned (stem ++ '/' :: name) = lead stem ++ '/' :: tidy name := by
  have edge : isEdge '/' = false := rfl
  change (((stem ++ '/' :: name).dropWhile isEdge).reverse.dropWhile isEdge).reverse.filter counts = _
  rw [dropWhile_append_cons edge, List.reverse_append, List.reverse_cons, List.append_assoc,
    List.singleton_append, dropWhile_append_cons edge, List.reverse_append, List.reverse_cons,
    List.reverse_reverse, List.append_assoc, List.singleton_append, List.filter_append,
    List.filter_cons_of_pos (by decide)]
  rfl

theorem schemeOf?_append (s name : List Char) :
    schemeOf? (s ++ '/' :: name) = (schemeOf? s).map fun (scheme, rest) =>
      (scheme, rest ++ '/' :: name) := by
  by_cases colon : ':' ∈ s
  · obtain ⟨scheme, rest, rfl, free⟩ := List.eq_append_cons_of_mem colon
    rw [List.append_assoc, List.cons_append, schemeOf?, schemeOf?, Text.cutFirst_append_sep free,
      Text.cutFirst_append_sep free]
    simp only [Option.bind_eq_bind, Option.bind_some]
    split <;> rfl
  · rw [schemeOf?, schemeOf?, Text.cutFirst_append colon, Text.cutFirst_of_not_mem colon,
      Text.cutFirst, if_neg (by decide)]
    cases Text.cutFirst ':' name with
    | none => rfl
    | some cut =>
      -- The text in front of a later colon has the slash in it, and no scheme has.
      have slash : '/' ∈ (s ++ '/' :: cut.1).map Char.toLower := by simp
      simp only [Option.map_some, Option.bind_eq_bind, Option.bind_some, Option.bind_none,
        Option.map_none]
      rw [if_neg]
      rintro (h | h) <;>
      · rw [h] at slash
        exact absurd slash (by decide)

theorem schemeOf?_eq_some {s scheme rest : List Char} (h : schemeOf? s = some (scheme, rest)) :
    ∃ before, s = before ++ ':' :: rest ∧ '/' ∉ before := by
  have colon : ':' ∈ s := by
    by_contra free
    rw [schemeOf?, Text.cutFirst_of_not_mem free] at h
    cases h
  obtain ⟨before, after, rfl, free⟩ := List.eq_append_cons_of_mem colon
  rw [schemeOf?, Text.cutFirst_append_sep free] at h
  simp only [Option.bind_eq_bind, Option.bind_some] at h
  split at h
  · next web =>
    cases h
    refine ⟨before, rfl, fun slash => ?_⟩
    have lower : '/' ∈ before.map Char.toLower := List.mem_map.mpr ⟨'/', slash, by decide⟩
    rcases web with web | web <;>
    · rw [web] at lower
      exact absurd lower (by decide)
  · cases h

theorem mem_rest {before rest a b : List Char} {c : Char}
    (h : before ++ ':' :: rest = a ++ '/' :: c :: b) (free : '/' ∉ before) : c ∈ rest := by
  rcases List.append_eq_append_iff.mp h with ⟨t, -, ht⟩ | ⟨t, hb, ht⟩
  · cases t with
    | nil => cases (List.cons.inj ht).1
    | cons x t =>
      rw [(List.cons.inj ht).2]
      simp
  · cases t with
    | nil => cases (List.cons.inj ht).1
    | cons x t =>
      cases (List.cons.inj ht).1
      exact absurd (by simp [hb]) free

theorem parse?_append {stem a b : List Char} {c : Char} (deep : stem = a ++ '/' :: c :: b)
    (edge : isEdge c = false) (slash : isSlash c = false) (name : List Char) :
    parse? (String.ofList (stem ++ '/' :: name)) =
      (Front.read? stem).map fun f => f.address ('/' :: tidy name) := by
  have inside : counts c = true := by
    rw [← Bool.not_eq_false]
    intro h
    simp only [counts, ne_eq, decide_not, Bool.and_eq_false_iff, Bool.not_eq_false',
      decide_eq_true_eq] at h
    rcases h with (rfl | rfl) | rfl <;> cases edge
  rw [parse?, String.toList_ofList, cleaned_append, schemeOf?_append, Front.read?]
  cases hs : schemeOf? (lead stem) with
  | none => rfl
  | some found =>
    obtain ⟨scheme, rest⟩ := found
    have inner : c ∈ rest := by
      obtain ⟨before, hb, free⟩ := schemeOf?_eq_some hs
      rw [deep, lead_append_cons rfl rfl, List.filter_cons_of_pos inside] at hb
      exact mem_rest hb.symm free
    obtain ⟨r, t, rfl⟩ := List.append_of_mem inner
    have ends : (!endsAuthority '/') = false := rfl
    simp only [Option.map_some, Option.bind_eq_bind, Option.bind_some]
    rw [List.append_assoc, List.cons_append, dropWhile_append_cons slash,
      dropWhile_append_cons slash, ← List.cons_append, ← List.append_assoc,
      takeWhile_append_cons ends, dropWhile_append_cons ends]
    cases authorityOf? scheme ((r.dropWhile isSlash ++ c :: t).takeWhile fun c => !endsAuthority c)
    · rfl
    · rfl

theorem Front.mem_of_mem_path {stem : List Char} {f : Front} (h : read? stem = some f) {c : Char}
    (hc : c ∈ f.path) : c ∈ stem := by
  rw [read?] at h
  cases hs : schemeOf? (lead stem) with
  | none =>
    rw [hs] at h
    cases h
  | some found =>
    obtain ⟨scheme, rest⟩ := found
    rw [hs] at h
    simp only [Option.bind_eq_bind, Option.bind_some] at h
    obtain ⟨authority, -, hf⟩ := Option.bind_eq_some_iff.mp h
    cases hf
    have inRest : c ∈ rest := (List.dropWhile_subset _) ((List.dropWhile_subset _) hc)
    obtain ⟨before, hl, -⟩ := schemeOf?_eq_some hs
    have inLead : c ∈ lead stem := by simp [hl, inRest]
    exact (List.dropWhile_subset _) (List.mem_filter.mp inLead).1

theorem target_address (f : Front) (name : List Char) (hash : '#' ∉ f.path) (mark : '?' ∉ f.path) :
    (f.address ('/' :: tidy name)).target = String.ofList (sent (follow f.folder name)) := by
  have hash : '#' ∉ f.path ++ ['/'] := by simp [hash]
  have mark : '?' ∉ f.path ++ ['/'] := by simp [mark]
  have hcut : cutAt '#' (f.path ++ '/' :: tidy name) =
      (f.path ++ '/' :: (cutAt '#' (tidy name)).1, (cutAt '#' (tidy name)).2) := by
    have h := cutAt_append hash (tidy name)
    rwa [List.append_assoc, List.append_assoc] at h
  have mcut : ∀ s, cutAt '?' (f.path ++ '/' :: s) =
      (f.path ++ '/' :: (cutAt '?' s).1, (cutAt '?' s).2) := by
    intro s
    have h := cutAt_append mark s
    rwa [List.append_assoc, List.append_assoc] at h
  rw [Front.address, hcut]
  dsimp only
  rw [mcut]
  dsimp only [target]
  rw [pathOf_append, sent, follow, Front.folder]
  rcases cutAt '?' (cutAt '#' (tidy name)).1 with ⟨path, query⟩
  apply String.toList_injective
  cases query <;> simp

/-- Behind one front two names are sent alike just when they lead to the same place. -/
theorem target_eq_iff (f : Front) (name other : List Char) (hash : '#' ∉ f.path)
    (mark : '?' ∉ f.path) :
    (f.address ('/' :: tidy name)).target = (f.address ('/' :: tidy other)).target ↔
      follow f.folder name = follow f.folder other := by
  rw [target_address f name hash mark, target_address f other hash mark]
  have clear : ∀ n, ∀ s ∈ (follow f.folder n).1, Clear s := fun n =>
    clear_resolve (clear_folderOf f.path) fun s hs => slash_free_of_mem_segments hs
  have ne : ∀ n, (follow f.folder n).1 ≠ [] := fun n => resolve_ne_nil _ (segments_ne_nil _)
  constructor
  · intro h
    exact sent_injective (ne name) (ne other) (clear name) (clear other)
      (String.ofList_injective h)
  · intro h
    rw [h]

end Reading

section Plain

/-- A name without any sign or segment that means something in an address, and without a blank or a
control character at its end. -/
structure Plain (name : List Char) : Prop where
  signs : ∀ c ∈ name, c ∉ ['#', '?', '%', '\\', '\t', '\n', '\r']
  dots : ∀ s ∈ Text.splitChars '/' name, s ≠ ['.'] ∧ s ≠ ['.', '.']
  ending : ∀ c ∈ name.getLast?, isEdge c = false

def isPlain (name : List Char) : Bool :=
  name.all (fun c => c ∉ ['#', '?', '%', '\\', '\t', '\n', '\r']) &&
    (Text.splitChars '/' name).all (fun s => s ≠ ['.'] && s ≠ ['.', '.']) &&
    name.getLast?.all fun c => !isEdge c

theorem isPlain_iff {name : List Char} : isPlain name = true ↔ Plain name := by
  simp only [isPlain, Bool.and_eq_true, List.all_eq_true, Option.all_eq_true, Bool.not_eq_true',
    decide_eq_true_eq]
  exact ⟨fun ⟨⟨signs, dots⟩, ending⟩ => ⟨signs, dots, ending⟩,
    fun h => ⟨⟨h.signs, h.dots⟩, h.ending⟩⟩

instance (name : List Char) : Decidable (Plain name) := decidable_of_iff _ isPlain_iff

theorem plainDots_of_free {s : List Char} (free : '%' ∉ s) : plainDots s = s := by
  induction s with
  | nil => rfl
  | cons c s ih =>
    rw [List.mem_cons, not_or] at free
    rw [plainDots, ih free.2]
    rintro e rest rfl
    exact absurd rfl free.1

theorem resolve_of_plain {ss : List (List Char)} (done : List (List Char))
    (free : ∀ s ∈ ss, '%' ∉ s) (dots : ∀ s ∈ ss, s ≠ ['.'] ∧ s ≠ ['.', '.']) :
    resolve done ss = done.reverse ++ ss.map (escape pathSet) := by
  induction ss generalizing done with
  | nil => simp [resolve]
  | cons s ss ih =>
    rw [List.forall_mem_cons] at free dots
    rw [resolve, plainDots_of_free free.1, if_neg dots.1.2, if_neg dots.1.1, ih _ free.2 dots.2]
    simp

theorem Plain.free {name : List Char} (h : Plain name) {c : Char}
    (sign : c ∈ ['#', '?', '%', '\\', '\t', '\n', '\r']) : c ∉ name :=
  fun hc => h.signs c hc sign

theorem Plain.segment_free {name : List Char} (h : Plain name) :
    ∀ s ∈ Text.splitChars '/' name, '%' ∉ s :=
  fun _ hs hc => h.free (by simp) (SitePath.subset_of_mem_splitChars hs '%' hc)

theorem Plain.tidy_eq {name : List Char} (h : Plain name) : tidy name = name := by
  have kept : ∀ c ∈ name, counts c = true := by
    intro c hc
    have signs := h.signs c hc
    simp only [List.mem_cons, not_or] at signs
    simp [counts, signs]
  rw [tidy]
  rcases List.eq_nil_or_concat name with rfl | ⟨front, c, rfl⟩
  · rfl
  · have edge := h.ending c (by simp)
    rw [List.concat_eq_append, List.reverse_append, List.reverse_singleton, List.singleton_append,
      List.dropWhile_cons_of_neg (by simp [edge]), List.reverse_cons, List.reverse_reverse,
      List.filter_eq_self.mpr (by simpa using kept)]

theorem Plain.follow_eq {name : List Char} (h : Plain name) (folder : List (List Char)) :
    follow folder name =
      (folder.reverse ++ (Text.splitChars '/' name).map (escape pathSet), none) := by
  have pieces : segments name = Text.splitChars '/' name := by
    have same : ∀ c ∈ name, (if isSlash c then '/' else c) = c := by
      intro c hc
      have slash : isSlash c = true → '/' = c := by
        intro hs
        rcases Bool.or_eq_true_iff.mp hs with hs | hs
        · exact (of_decide_eq_true hs).symm
        · exact absurd (of_decide_eq_true hs ▸ hc) (h.free (by simp))
      split
      · next hs => exact slash hs
      · rfl
    rw [segments, List.map_congr_left same, List.map_id']
  rw [follow, h.tidy_eq, cutAt_of_not_mem (h.free (by simp))]
  dsimp only
  rw [cutAt_of_not_mem (h.free (by simp))]
  dsimp only
  rw [pieces, resolve_of_plain folder h.segment_free h.dots]
  rfl

theorem Plain.follow_injective {name other : List Char} (h : Plain name) (h' : Plain other)
    (folder : List (List Char)) (same : follow folder name = follow folder other) :
    name = other := by
  rw [h.follow_eq, h'.follow_eq] at same
  have pieces := map_escape_injective h.segment_free h'.segment_free
    (List.append_cancel_left (Prod.mk.inj same).1)
  rw [← Text.joinChars_splitChars '/' name, pieces, Text.joinChars_splitChars]

end Plain

end Http.Url

end SitePublish
