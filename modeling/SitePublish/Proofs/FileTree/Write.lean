import SitePublish.Deploy.Lock
import SitePublish.Proofs.Text.Split
import SitePublish.Site.DocumentFile

/-!
# Writing files

A path that leads to a file is led there by the directories on its way, so it still leads there when
other entries are added. What is written under the name of a file is read back under that name, and
a file is left alone by whoever writes files of other names.
-/

set_option autoImplicit false

namespace SitePublish

namespace FileTree

variable {t u : FileTree} {here key ss : List String} {p : Place} {path : String}
  {bytes : List UInt8}

def Names (s : String) : Prop := ¬ (s = "" ∨ s = ".") ∧ s ≠ ".." ∧ ¬ segmentLimit < s.utf8ByteSize

inductive Moves (t : FileTree) (here : List String) : String → List String → Prop
  | stay {s : String} (dot : s = "" ∨ s = ".") : Moves t here s here
  | up (below : here ≠ []) : Moves t here ".." here.dropLast
  | down {s : String} (name : Names s) (there : t.entries.get? (here ++ [s]) = some .dir) :
      Moves t here s (here ++ [s])

inductive Leads (t : FileTree) : List String → List String → Place → Prop
  | dir {here : List String} : Leads t here [] (.dir here)
  | on {here there rest : List String} {s : String} {p : Place} (move : Moves t here s there)
      (further : Leads t there rest p) : Leads t here (s :: rest) p
  | file {here : List String} {s : String} {bytes : List UInt8} (name : Names s)
      (there : t.entries.get? (here ++ [s]) = some (.file bytes)) :
      Leads t here [s] (.file (here ++ [s]) bytes)
  | free {here rest : List String} {s : String} (name : Names s)
      (there : t.entries.get? (here ++ [s]) = none) (blank : ∀ r ∈ rest, r = "") :
      Leads t here (s :: rest) (.free (here ++ [s]))

theorem Moves.follow_cons {there rest : List String} {s : String} (move : Moves t here s there) :
    t.follow here (s :: rest) = t.follow there rest := by
  cases move with
  | stay dot => rw [follow, if_pos dot]
  | up below => rw [follow, if_neg (by decide), if_pos rfl, if_neg below]
  | down name there => rw [follow, if_neg name.1, if_neg name.2.1, if_neg name.2.2, there]

theorem Leads.follow_eq (h : Leads t here ss p) : t.follow here ss = .ok p := by
  induction h with
  | dir => rfl
  | on move further ih => rw [move.follow_cons, ih]
  | file name there =>
    rw [follow, if_neg name.1, if_neg name.2.1, if_neg name.2.2, there]
    rfl
  | free name there blank =>
    rw [follow, if_neg name.1, if_neg name.2.1, if_neg name.2.2, there]
    simpa using blank

theorem leads_of_follow (h : t.follow here ss = .ok p) : Leads t here ss p := by
  induction ss generalizing here with
  | nil =>
    cases h
    exact .dir
  | cons s rest ih =>
    rw [follow] at h
    split at h
    · next dot => exact .on (.stay dot) (ih h)
    · next named =>
      split at h
      · next up =>
        subst up
        split at h
        · cases h
        · next below => exact .on (.up below) (ih h)
      · next up =>
        split at h
        · cases h
        · next long =>
          have name : Names s := ⟨named, up, long⟩
          split at h
          · next there => exact .on (.down name there) (ih h)
          · next there =>
            split at h
            · next last =>
              cases h
              subst last
              exact .file name there
            · cases h
          · next there =>
            split at h
            · next blank =>
              cases h
              exact .free name there (by simpa using blank)
            · cases h

/-- Either a place for a file, or a place where one is. -/
inductive Place.Holds (key : List String) : Place → Prop
  | file (bytes : List UInt8) : Holds key (.file key bytes)
  | free : Holds key (.free key)

theorem eq_nil_of_blank {rest : List String} {s : String} (blank : ∀ r ∈ rest, r = "")
    (named : (s :: rest).getLast? ≠ some "") : rest = [] := by
  by_contra ne
  rw [List.getLast?_cons_of_ne_nil ne, List.getLast?_eq_some_getLast ne] at named
  exact named (congrArg some (blank _ (List.getLast_mem ne)))

theorem Leads.ne_nil (h : Leads t here ss p) (holds : p.Holds key) : ss ≠ [] := by
  rintro rfl
  cases h
  cases holds

theorem Leads.entry_ne_dir (h : Leads t here ss p) (holds : p.Holds key) :
    t.entries.get? key ≠ some .dir := by
  induction h with
  | dir => cases holds
  | on move further ih => exact ih holds
  | file name there =>
    cases holds
    simp [there]
  | free name there blank =>
    cases holds
    simp [there]

theorem Leads.entry (h : Leads t here ss (.file key bytes)) :
    t.entries.get? key = some (.file bytes) := by
  generalize hp : Place.file key bytes = p at h
  induction h with
  | dir => cases hp
  | on move further ih => exact ih hp
  | file name there =>
    cases hp
    exact there
  | free name there blank => cases hp

theorem Leads.getLast?_file (h : Leads t here ss (.file key bytes)) :
    ss.getLast? = key.getLast? ∧ ss.getLast? ≠ some "" := by
  generalize hp : Place.file key bytes = p at h
  induction h with
  | dir => cases hp
  | on move further ih =>
    have more := further.ne_nil (hp ▸ Place.Holds.file bytes)
    obtain ⟨r, rest, rfl⟩ := List.exists_cons_of_ne_nil more
    exact ih hp
  | file name there =>
    cases hp
    simpa using fun empty => name.1 (Or.inl empty)
  | free name there blank => cases hp

theorem Leads.getLast? (h : Leads t here ss p) (holds : p.Holds key)
    (named : ss.getLast? ≠ some "") : ss.getLast? = key.getLast? := by
  induction h with
  | dir => cases holds
  | on move further ih =>
    obtain ⟨r, rest, rfl⟩ := List.exists_cons_of_ne_nil (further.ne_nil holds)
    exact ih holds named
  | file name there =>
    cases holds
    simp
  | free name there blank =>
    cases holds
    rw [eq_nil_of_blank blank named]
    simp

theorem Leads.to_file (h : Leads t here ss p) (holds : p.Holds key)
    (named : ss.getLast? ≠ some "")
    (dirs : ∀ j, t.entries.get? j = some .dir → u.entries.get? j = some .dir)
    (leaf : u.entries.get? key = some (.file bytes)) : Leads u here ss (.file key bytes) := by
  induction h with
  | dir => cases holds
  | on move further ih =>
    obtain ⟨r, rest, rfl⟩ := List.exists_cons_of_ne_nil (further.ne_nil holds)
    have further := ih holds named
    cases move with
    | stay dot => exact .on (.stay dot) further
    | up below => exact .on (.up below) further
    | down name there => exact .on (.down name (dirs _ there)) further
  | file name there =>
    cases holds
    exact .file name leaf
  | free name there blank =>
    cases holds
    rw [eq_nil_of_blank blank named]
    exact .file name leaf

section Write

def lastName (path : String) : Option String := (Text.splitOn '/' path).getLast?

theorem get?_put (t : FileTree) (key j : List String) (e : FileEntry) :
    (t.put key e).entries.get? j = if j = key then some e else t.entries.get? j :=
  Dict.get?_insert t.entries key j e

theorem dirs_put (h : t.entries.get? key ≠ some .dir) (e : FileEntry) (j : List String)
    (there : t.entries.get? j = some .dir) : (t.put key e).entries.get? j = some .dir := by
  rw [get?_put, if_neg, there]
  rintro rfl
  exact h there

theorem getLast?_splitChars_append (a b : List Char) :
    (Text.splitChars '/' (a ++ '/' :: b)).getLast? = (Text.splitChars '/' b).getLast? := by
  rw [Text.splitChars_append, List.getLast?_append_of_ne_nil _ (Text.splitChars_ne_nil '/' b)]

theorem getLast?_of_lastName_empty (h : lastName path = some "") (ne : path ≠ "") :
    path.toList.getLast? = some '/' := by
  rw [lastName, Text.splitOn, List.getLast?_map, Option.map_eq_some_iff] at h
  obtain ⟨piece, last, empty⟩ := h
  rw [String.ofList_eq_empty_iff] at empty
  subst empty
  obtain ⟨front, pieces⟩ := List.getLast?_eq_some_iff.mp last
  have whole := Text.joinChars_splitChars '/' path.toList
  rw [pieces] at whole
  cases front with
  | nil => exact absurd (String.toList_eq_nil_iff.mp whole.symm) ne
  | cons p front =>
    rw [← whole, Text.joinChars_append (List.cons_ne_nil p front) (List.cons_ne_nil [] [])]
    exact List.getLast?_concat

/-- Segments end in what stands behind the last slash, but for the path of the working directory. -/
theorem getLast?_segments (h : t.segments path = .ok ss) :
    ss = [""] ∨ ss.getLast? = lastName path := by
  unfold segments at h
  cases hb : t.belowRoot path with
  | error e =>
    rw [hb] at h
    cases h
  | ok below =>
    rw [hb] at h
    cases h
    rw [lastName, Text.splitOn, List.getLast?_map, List.getLast?_map]
    unfold belowRoot at hb
    split at hb
    · cases hb
    · next c rest hpath =>
      rw [hpath]
      split at hb
      · cases hb
      · split at hb
        · cases hb
        · split at hb
          · cases hb
            exact Or.inl rfl
          · next strip =>
            cases hb
            rw [Text.stripPrefix_eq_some_iff.mp strip, getLast?_splitChars_append]
            exact Or.inr rfl
          · split at hb
            · cases hb
            · cases hb
              exact Or.inr rfl

theorem place_eq_ok (h : t.place path = .ok p) :
    ∃ ss, t.segments path = .ok ss ∧ t.Leads [] ss p := by
  unfold place at h
  split at h
  · cases h
  · next ss hss => exact ⟨ss, hss, leads_of_follow h⟩

theorem exists_place_of_write (h : t.write path bytes = .ok u) :
    ∃ key p, t.place path = .ok p ∧ p.Holds key ∧ u = t.put key (.file bytes) := by
  unfold write at h
  split at h
  · next key old hp =>
    cases h
    exact ⟨key, _, hp, .file old, rfl⟩
  · next key hp =>
    split at h
    · cases h
    · cases h
      exact ⟨key, _, hp, .free, rfl⟩
  · cases h
  · cases h

theorem Leads.getLast?_eq (h : Leads t [] ss p) (holds : p.Holds key)
    (hss : t.segments path = .ok ss) (named : lastName path ≠ some "") :
    ss.getLast? ≠ some "" ∧ key.getLast? = lastName path := by
  rcases getLast?_segments hss with rfl | last
  · cases h with
    | on move further =>
      cases further
      cases holds
    | file name there => exact absurd (Or.inl rfl) name.1
    | free name there blank => exact absurd (Or.inl rfl) name.1
  · rw [← last] at named ⊢
    exact ⟨named, (h.getLast? holds named).symm⟩

theorem readBytes_of_write (h : t.write path bytes = .ok u) (named : lastName path ≠ some "") :
    u.readBytes path = .ok bytes := by
  obtain ⟨key, p, hp, holds, rfl⟩ := exists_place_of_write h
  obtain ⟨ss, hss, leads⟩ := place_eq_ok hp
  have follow := (leads.to_file holds (leads.getLast?_eq holds hss named).1
    (dirs_put (leads.entry_ne_dir holds) (.file bytes)) (by rw [get?_put, if_pos rfl])).follow_eq
  have place : (t.put key (.file bytes)).place path = .ok (.file key bytes) := by
    rw [FileTree.place, show (t.put key (.file bytes)).segments path = .ok ss from hss]
    exact follow
  rw [readBytes, place]

theorem exists_leads_of_readBytes (h : t.readBytes path = .ok bytes) :
    ∃ ss key, t.segments path = .ok ss ∧ Leads t [] ss (.file key bytes) := by
  unfold readBytes at h
  split at h
  · next key old hp =>
    cases h
    obtain ⟨ss, hss, leads⟩ := place_eq_ok hp
    exact ⟨ss, key, hss, leads⟩
  · cases h
  · cases h
  · cases h

theorem lastName_of_readBytes (h : t.readBytes path = .ok bytes) : lastName path ≠ some "" := by
  obtain ⟨ss, key, hss, leads⟩ := exists_leads_of_readBytes h
  obtain ⟨-, named⟩ := leads.getLast?_file
  rcases getLast?_segments hss with rfl | last
  · exact absurd rfl named
  · rwa [last] at named

theorem lastName_of_write (h : t.write path bytes = .ok u) : lastName path ≠ some "" := by
  unfold write at h
  split at h
  · next key old hp =>
    have there : t.readBytes path = .ok old := by rw [readBytes, hp]
    exact lastName_of_readBytes there
  · next key hp =>
    split at h
    · cases h
    · next named =>
      refine fun empty => named (getLast?_of_lastName_empty empty ?_)
      rintro rfl
      cases hp
  · cases h
  · cases h

/-- Whether a file can be written does not depend on what is written. -/
theorem write_eq_error {e : FileError} (h : t.write path bytes = .error e) (more : List UInt8) :
    t.write path more = .error e := by
  unfold write at h ⊢
  split at h
  · cases h
  · split at h
    · next key hp slash =>
      cases h
      exact if_pos slash
    · cases h
  · exact h
  · exact h

theorem exists_write_of_readBytes (h : t.readBytes path = .ok bytes) (more : List UInt8) :
    ∃ u, t.write path more = .ok u := by
  unfold readBytes at h
  split at h
  · next key old hp => exact ⟨_, by rw [write, hp]⟩
  · cases h
  · cases h
  · cases h

theorem segments_eq_of_root (root : u.root = t.root) (path : String) :
    u.segments path = t.segments path := by
  rw [segments, segments, belowRoot, belowRoot, root]

theorem readBytes_mono (root : u.root = t.root)
    (dirs : ∀ j, t.entries.get? j = some .dir → u.entries.get? j = some .dir)
    (files : ∀ j b, j.getLast? = lastName path → t.entries.get? j = some (.file b) →
      u.entries.get? j = some (.file b))
    (h : t.readBytes path = .ok bytes) : u.readBytes path = .ok bytes := by
  have named := lastName_of_readBytes h
  obtain ⟨ss, key, hss, leads⟩ := exists_leads_of_readBytes h
  obtain ⟨ends, last⟩ := leads.getLast?_eq (.file bytes) hss named
  rw [readBytes, place, segments_eq_of_root root, hss]
  dsimp only
  rw [(leads.to_file (.file bytes) ends dirs (files key bytes last leads.entry)).follow_eq]

theorem readBytes_of_write_other {other : String} {more : List UInt8}
    (h : t.readBytes path = .ok bytes) (write : t.write other more = .ok u)
    (named : lastName other ≠ some "") (ne : lastName path ≠ lastName other) :
    u.readBytes path = .ok bytes := by
  obtain ⟨key, p, hp, holds, rfl⟩ := exists_place_of_write write
  obtain ⟨ss, hss, leads⟩ := place_eq_ok hp
  obtain ⟨-, last⟩ := leads.getLast?_eq holds hss named
  have files (j : List String) (b : List UInt8) (hj : j.getLast? = lastName path)
      (there : t.entries.get? j = some (.file b)) :
      (t.put key (.file more)).entries.get? j = some (.file b) := by
    rw [get?_put, if_neg, there]
    rintro rfl
    exact ne (hj.symm.trans last)
  exact readBytes_mono (t := t) rfl (dirs_put (leads.entry_ne_dir holds) _) files h

theorem readText_of_readBytes {s : String}
    (h : t.readBytes path = .ok (Text.utf8 s)) : t.readText path = .ok s := by
  rw [readText, h]
  dsimp only
  rw [Text.ofUtf8?_utf8]

theorem readBytes_of_readText {s : String}
    (h : t.readText path = .ok s) : t.readBytes path = .ok (Text.utf8 s) := by
  unfold readText at h
  split at h
  · cases h
  · next bytes hb =>
    split at h
    · next text =>
      cases h
      rw [hb, Text.utf8_of_ofUtf8? text]
    · cases h

end Write

section Directories

structure Extends (t u : FileTree) : Prop where
  root : u.root = t.root
  entries : ∀ j e, t.entries.get? j = some e → u.entries.get? j = some e

theorem Extends.refl (t : FileTree) : Extends t t := ⟨rfl, fun _ _ h => h⟩

theorem Extends.readBytes (h : Extends t u) (read : t.readBytes path = .ok bytes) :
    u.readBytes path = .ok bytes :=
  readBytes_mono h.root (fun j => h.entries j .dir) (fun j b _ => h.entries j (.file b)) read

theorem extends_of_makeDirs (h : t.makeDirs here ss = .ok u) : Extends t u := by
  induction ss generalizing t here with
  | nil =>
    cases h
    exact .refl _
  | cons s rest ih =>
    rw [makeDirs] at h
    split at h
    · exact ih h
    · split at h
      · split at h
        · cases h
        · exact ih h
      · split at h
        · cases h
        · split at h
          · exact ih h
          · split at h <;> cases h
          · next absent =>
            have more := ih h
            refine ⟨more.root, fun j e there => more.entries j e ?_⟩
            rw [get?_put, if_neg, there]
            rintro rfl
            rw [absent] at there
            cases there

theorem extends_of_createDirs (h : t.createDirs path = .ok u) : Extends t u := by
  unfold createDirs at h
  split at h
  · cases h
    exact .refl _
  · split at h
    · cases h
    · exact extends_of_makeDirs h

theorem makeDirs_again {v : FileTree} (h : t.makeDirs here ss = .ok u)
    (dirs : ∀ j, u.entries.get? j = some .dir → v.entries.get? j = some .dir) :
    v.makeDirs here ss = .ok v := by
  induction ss generalizing t here with
  | nil => rfl
  | cons s rest ih =>
    rw [makeDirs] at h ⊢
    split at h
    · next dot => rw [if_pos dot, ih h]
    · next named =>
      rw [if_neg named]
      split at h
      · next up =>
        rw [if_pos up]
        split at h
        · cases h
        · next below => rw [if_neg below, ih h]
      · next up =>
        rw [if_neg up]
        split at h
        · cases h
        · next long =>
          rw [if_neg long]
          split at h
          · next there =>
            rw [dirs _ ((extends_of_makeDirs h).entries _ _ there)]
            exact ih h
          · split at h <;> cases h
          · next absent =>
            have made : u.entries.get? (here ++ [s]) = some .dir :=
              (extends_of_makeDirs h).entries _ _ (by rw [get?_put, if_pos rfl])
            rw [dirs _ made]
            exact ih h

theorem createDirs_again {v : FileTree} (h : t.createDirs path = .ok u) (root : v.root = t.root)
    (dirs : ∀ j, u.entries.get? j = some .dir → v.entries.get? j = some .dir) :
    v.createDirs path = .ok v := by
  unfold createDirs at h ⊢
  split at h
  · next empty => rw [if_pos empty]
  · next named =>
    rw [if_neg named]
    split at h
    · cases h
    · next ss hss =>
      rw [segments_eq_of_root root, hss]
      exact makeDirs_again h dirs

end Directories

end FileTree

namespace DocumentFile

open FileTree (lastName)

variable {t u : FileTree} {path : String} {d : Document}

theorem exists_readText_of_load (h : load t path = .ok d) :
    ∃ s, t.readText path = .ok s ∧ Document.parse? s = some d := by
  unfold load at h
  split at h
  · cases h
  · cases h
  · next s hs =>
    split at h
    · next parsed =>
      cases h
      exact ⟨s, hs, parsed⟩
    · cases h

theorem readBytes_of_save (h : save t path d = .ok u) (named : lastName path ≠ some "") :
    u.readBytes path = .ok (Text.utf8 d.render) := by
  unfold save at h
  split at h
  · cases h
  · split at h
    · cases h
    · next write =>
      cases h
      exact FileTree.readBytes_of_write write named

theorem lastName_of_save (h : save t path d = .ok u) : lastName path ≠ some "" := by
  unfold save at h
  split at h
  · cases h
  · split at h
    · cases h
    · next write => exact FileTree.lastName_of_write write

theorem save_eq_error {e : DocumentFileError} (h : save t path d = .error e) (d' : Document) :
    save t path d' = .error e := by
  unfold save at h ⊢
  split at h
  · exact h
  · next made dirs =>
    split at h
    · next refused =>
      rw [FileTree.write_eq_error refused]
      exact h
    · cases h

theorem exists_save_again (h : save t path d = .ok u) (d' : Document) :
    ∃ v, save u path d' = .ok v := by
  unfold save at h
  split at h
  · cases h
  · next made dirs =>
    split at h
    · cases h
    · next write =>
      cases h
      obtain ⟨key, p, hp, holds, rfl⟩ := FileTree.exists_place_of_write write
      obtain ⟨ss, hss, leads⟩ := FileTree.place_eq_ok hp
      let saved := made.put key (.file (Text.utf8 d.render))
      have again : saved.createDirs (directory path) = .ok saved :=
        FileTree.createDirs_again dirs (FileTree.extends_of_createDirs dirs).root
          (FileTree.dirs_put (leads.entry_ne_dir holds) _)
      have read := FileTree.readBytes_of_write write (FileTree.lastName_of_write write)
      obtain ⟨v, written⟩ := FileTree.exists_write_of_readBytes read (Text.utf8 d'.render)
      refine ⟨v, ?_⟩
      rw [save, again]
      dsimp only
      rw [written]

end DocumentFile

namespace LockFile

open FileTree (lastName)

variable {t : FileTree} {path : String} {bytes : List UInt8}

theorem slash_not_mem_hexBytes (bs : List UInt8) : '/' ∉ (Digest.hexBytes bs).toList := by
  have digit : ∀ n < 16, Digest.hexDigit n ≠ '/' := by decide
  rw [Digest.hexBytes, String.toList_ofList, List.mem_flatMap]
  rintro ⟨b, -, hb⟩
  have := b.toNat_lt
  rcases List.mem_pair.mp hb with he | he
  · exact digit (b.toNat / 16) (by omega) he.symm
  · exact digit (b.toNat % 16) (by omega) he.symm

theorem slash_not_mem_name (branch : String) : '/' ∉ (name branch).toList := by
  have plain : '/' ∉ branch.toList.map fun c => if isPlain c then c else '_' := by
    rw [List.mem_map]
    rintro ⟨c, -, hc⟩
    split at hc
    · next h =>
      subst hc
      exact absurd h (by decide)
    · cases hc
  have digest : '/' ∉ (Digest.Sha256.hex (Text.utf8 branch)).toList.take digestDigits :=
    fun h => slash_not_mem_hexBytes _ (List.mem_of_mem_take h)
  simp [name, plain, digest]

theorem name_ne_empty (branch : String) : name branch ≠ "" := by
  simp [name, String.append_eq_empty_iff]

theorem lastName_path (dir branch : String) :
    lastName (LockFile.path dir branch) = some (name branch) := by
  have free := slash_not_mem_name branch
  have bare : lastName (name branch) = some (name branch) := by
    simp [lastName, Text.splitOn, Text.splitChars_of_not_mem free]
  have behind (front : List Char) (path : String)
      (h : path.toList = front ++ '/' :: (name branch).toList) :
      lastName path = some (name branch) := by
    rw [lastName, Text.splitOn, h, List.getLast?_map, FileTree.getLast?_splitChars_append,
      ← List.getLast?_map]
    exact bare
  unfold LockFile.path FileTree.join
  split_ifs with first slash
  · exact bare
  · obtain ⟨front, hdir⟩ := List.getLast?_eq_some_iff.mp slash
    exact behind front _ (by simp [hdir])
  · exact behind dir.toList _ (by simp)

theorem readBytes_create (dir branch : String) (ne : lastName path ≠ some (name branch))
    (h : t.readBytes path = .ok bytes) : (create t dir branch).2.readBytes path = .ok bytes := by
  unfold create
  split
  · exact h
  · next made dirs =>
    have read := (FileTree.extends_of_createDirs dirs).readBytes h
    split
    · exact read
    · next written write =>
      refine FileTree.readBytes_of_write_other read write ?_ ?_
      · rw [lastName_path, ne_eq, Option.some_inj]
        exact name_ne_empty branch
      · rwa [lastName_path]

end LockFile

end SitePublish
