import NativePeer.Proofs.Files.Directory

/-
This file says what it means that files of one directory have been written and nothing else.
-/

namespace NativePeer.FileTree

/-- The last content that a list of files gives to a name. -/
def lastContent? (files : List (String × Text.Bytes)) (name : String) : Option Text.Bytes :=
  files.reverse.lookup name

theorem lastContent?_append (first second : List (String × Text.Bytes)) (name : String) :
    lastContent? (first ++ second) name =
      (lastContent? second name).or (lastContent? first name) := by
  rw [lastContent?, List.reverse_append, List.lookup_append]
  rfl

theorem lastContent?_eq_none {files : List (String × Text.Bytes)} {name : String} :
    lastContent? files name = none ↔ ∀ file ∈ files, file.1 ≠ name := by
  rw [lastContent?, List.lookup_eq_none_iff]
  simp only [List.mem_reverse, bne_iff_ne, ne_comm]

theorem mem_of_lastContent? {files : List (String × Text.Bytes)} {name : String}
    {content : Text.Bytes} (last : lastContent? files name = some content) :
    (name, content) ∈ files := by
  obtain ⟨before, after, split, _⟩ := List.lookup_eq_some_iff.mp last
  rw [← List.mem_reverse, split]
  simp

/-- Where no two files share a name each of them is the last. -/
theorem lastContent?_of_mem {files : List (String × Text.Bytes)}
    (distinct : (files.map Prod.fst).Nodup) {file : String × Text.Bytes} (member : file ∈ files) :
    lastContent? files file.1 = some file.2 := by
  induction files with
  | nil => cases member
  | cons first files inductionHypothesis =>
    rw [List.map_cons, List.nodup_cons] at distinct
    rw [← List.singleton_append, lastContent?_append]
    rcases List.mem_cons.mp member with same | later
    · have absent : lastContent? files file.1 = none := by
        refine lastContent?_eq_none.mpr fun other otherMember shared => distinct.1 ?_
        exact List.mem_map.mpr ⟨other, otherMember, shared.trans (congrArg Prod.fst same)⟩
      rw [absent, Option.none_or, same]
      exact List.lookup_cons_self
    · rw [inductionHypothesis distinct.2 later, Option.some_or]

/-- Each name of the files leads to its last content in the directory, the directory is where it
was and every other place has the entry that it had. -/
structure Filled (directory : String) (files : List (String × Text.Bytes))
    (before after : FileTree) : Prop where
  plain : ∀ file ∈ files, Path.IsName file.1
  sameHome : after.directoryAt directory = before.directoryAt directory
  holds : ∀ name content, lastContent? files name = some content →
    ∃ home, before.directoryAt directory = .ok home ∧
      after.resolve (Path.join directory name) = .ok (home ++ [name]) ∧
      after.entryAt? (home ++ [name]) = some (.file content)
  others : ∀ place, (∀ home, before.directoryAt directory = .ok home →
    ∀ file ∈ files, place ≠ home ++ [file.1]) → after.entryAt? place = before.entryAt? place

namespace Filled

variable {directory : String} {before middle after : FileTree}

theorem refl (directory : String) (tree : FileTree) : Filled directory [] tree tree where
  plain := by simp
  sameHome := rfl
  holds := by simp [lastContent?]
  others _ _ := rfl

/-- A name without any content among the files keeps its entry. -/
theorem entryAt?_of_absent {files : List (String × Text.Bytes)} {home : List String} {name : String}
    (filled : Filled directory files before after)
    (reached : before.directoryAt directory = .ok home)
    (absent : lastContent? files name = none) :
    after.entryAt? (home ++ [name]) = before.entryAt? (home ++ [name]) := by
  apply filled.others
  intro other otherReached file member same
  have sameHome : other = home := Except.ok.inj (otherReached.symm.trans reached)
  rw [sameHome, List.append_cancel_left_eq, List.singleton_inj] at same
  exact lastContent?_eq_none.mp absent file member same.symm

/-- The files of two runs are those of the one and then those of the other. -/
theorem trans {first second : List (String × Text.Bytes)}
    (earlier : Filled directory first before middle)
    (later : Filled directory second middle after) :
    Filled directory (first ++ second) before after where
  plain file member := by
    rcases List.mem_append.mp member with inside | inside
    · exact earlier.plain file inside
    · exact later.plain file inside
  sameHome := later.sameHome.trans earlier.sameHome
  holds name content last := by
    rw [lastContent?_append] at last
    cases again : lastContent? second name with
    | some newer =>
      rw [again, Option.some_or] at last
      rw [← earlier.sameHome]
      exact later.holds name content (again.trans last)
    | none =>
      rw [again, Option.none_or] at last
      obtain ⟨home, reached, resolved, found⟩ := earlier.holds name content last
      have plainName : Path.IsName name := earlier.plain _ (mem_of_lastContent? last)
      obtain ⟨accepted, short, _⟩ := (resolve_join_eq_ok plainName).mp resolved
      have stillReached := later.sameHome.trans (earlier.sameHome.trans reached)
      refine ⟨home, reached, ?_, ?_⟩
      · exact (resolve_join_eq_ok plainName).mpr ⟨accepted, short, home, stillReached, rfl⟩
      · rw [later.entryAt?_of_absent (earlier.sameHome.trans reached) again, found]
  others place outside := by
    rw [later.others place, earlier.others place]
    · intro home reached file member
      exact outside home reached file (List.mem_append_left _ member)
    · intro home reached file member
      exact outside home (earlier.sameHome ▸ reached) file (List.mem_append_right _ member)

variable {name : String} {content : Text.Bytes}

/-- Writing a name fills the directory with one file. -/
theorem of_write (plain : Path.IsName name)
    (written : before.write (Path.join directory name) content = .ok after) :
    Filled directory [(name, content)] before after := by
  obtain ⟨home, reached, resolved, free, same⟩ := (write_join_eq_ok plain).mp written
  have stillReached : after.directoryAt directory = .ok home := same ▸ directoryAt_set reached free
  obtain ⟨accepted, short, _⟩ := (resolve_join_eq_ok plain).mp resolved
  refine ⟨by simpa using plain, stillReached.trans reached.symm, ?_, ?_⟩
  · intro other otherContent last
    obtain ⟨rfl, rfl⟩ : other = name ∧ otherContent = content := by
      simpa using mem_of_lastContent? last
    refine ⟨home, reached, ?_, ?_⟩
    · exact (resolve_join_eq_ok plain).mpr ⟨accepted, short, home, stillReached, rfl⟩
    · rw [same, entryAt?_set_self before (by simp)]
  · intro place outside
    rw [same, entryAt?_set_other before (outside home reached (name, content) (by simp))]

/-- A name that has its content already needs no writing. -/
theorem of_read (plain : Path.IsName name)
    (present : before.read (Path.join directory name) = .ok content) :
    Filled directory [(name, content)] before before := by
  obtain ⟨place, resolved, found⟩ := read_eq_ok.mp present
  obtain ⟨_, _, home, reached, same⟩ := (resolve_join_eq_ok plain).mp resolved
  rw [same] at resolved found
  refine ⟨by simpa using plain, rfl, ?_, fun _ _ => rfl⟩
  intro other otherContent last
  obtain ⟨rfl, rfl⟩ : other = name ∧ otherContent = content := by
    simpa using mem_of_lastContent? last
  exact ⟨home, reached, resolved, found⟩

/-- Every name of the files is read with its last content. -/
theorem read {files : List (String × Text.Bytes)} (filled : Filled directory files before after)
    (last : lastContent? files name = some content) :
    after.read (Path.join directory name) = .ok content := by
  obtain ⟨home, _, resolved, found⟩ := filled.holds name content last
  exact read_eq_ok.mpr ⟨home ++ [name], resolved, found⟩

/-- What may be written before the files are written may be written afterwards. -/
theorem writable {files : List (String × Text.Bytes)} (filled : Filled directory files before after)
    (earlier : before.Writable directory name) : after.Writable directory name := by
  have plain := earlier.plain
  obtain ⟨home, reached, resolved, free⟩ := earlier.free
  obtain ⟨accepted, short, _⟩ := (resolve_join_eq_ok plain).mp resolved
  have stillReached := filled.sameHome.trans reached
  refine ⟨plain, home, stillReached, ?_, ?_⟩
  · exact (resolve_join_eq_ok plain).mpr ⟨accepted, short, home, stillReached, rfl⟩
  · cases last : lastContent? files name with
    | none =>
      rw [filled.entryAt?_of_absent reached last]
      exact free
    | some content =>
      obtain ⟨other, otherReached, _, found⟩ := filled.holds name content last
      rw [← Except.ok.inj (otherReached.symm.trans reached), found]
      simp

end Filled

end NativePeer.FileTree
