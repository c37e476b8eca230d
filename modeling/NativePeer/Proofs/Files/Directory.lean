import NativePeer.Files.Tree

/-
This file follows paths to the files of one directory.
-/

namespace NativePeer

namespace Path

/-- A single step that leads somewhere else. -/
structure IsName (name : String) : Prop where
  unslashed : '/' ∉ name.toList
  nonempty : name ≠ ""
  notHere : name ≠ "."
  notAbove : name ≠ ".."

/-- Whether a name may follow the path of a directory without a slash between them. -/
def isClosed (directory : String) : Prop :=
  directory = "" ∨ directory.toList.getLast? = some '/'

instance (directory : String) : Decidable (isClosed directory) :=
  inferInstanceAs (Decidable (_ ∨ _))

theorem join_eq (directory name : String) :
    join directory name =
      if isClosed directory then directory ++ name else directory ++ "/" ++ name := rfl

/-- The steps to a directory, without the empty step after a slash at the end. -/
def front (directory : String) : List String :=
  if isClosed directory then (steps directory).dropLast else steps directory

/-- A name takes the place of the empty step at the end of a closed path. -/
theorem pieces_append_of_isClosed {directory : String} (closed : isClosed directory)
    {name : List Char} (unslashed : '/' ∉ name) :
    Text.pieces '/' (directory.toList ++ name) =
      (Text.pieces '/' directory.toList).dropLast ++ [name] := by
  have single := Text.pieces_of_not_mem unslashed
  rcases closed with empty | slashed
  · simp [empty, single, Text.pieces]
  · obtain ⟨letters, shape⟩ := List.getLast?_eq_some_iff.mp slashed
    rw [shape, List.append_assoc, List.singleton_append, Text.pieces_append_cons,
      Text.pieces_append_cons, single]
    simp [Text.pieces]

/-- A name in a directory takes one more step than the directory. -/
theorem steps_join {name : String} (plain : IsName name) (directory : String) :
    steps (join directory name) = front directory ++ [name] := by
  rw [join_eq, front]
  by_cases closed : isClosed directory
  · rw [if_pos closed, if_pos closed, steps, String.toList_append,
      pieces_append_of_isClosed closed plain.unslashed]
    simp [steps, List.map_dropLast]
  · have between : (directory ++ "/" ++ name).toList =
        directory.toList ++ '/' :: name.toList := by simp
    rw [if_neg closed, if_neg closed, steps, between, Text.pieces_append_cons,
      Text.pieces_of_not_mem plain.unslashed]
    simp [steps]

/-- The path of a directory may end with one more empty step. -/
theorem steps_eq_front (directory : String) :
    steps directory = front directory ∨ steps directory = front directory ++ [""] := by
  unfold front
  by_cases closed : isClosed directory
  · have whole := pieces_append_of_isClosed closed (List.not_mem_nil (a := '/'))
    rw [List.append_nil] at whole
    refine Or.inr ?_
    rw [if_pos closed, steps, whole]
    simp
  · exact Or.inl (if_neg closed).symm

end Path

namespace FileTree

/-- The place that a path leads to, whether or not there is an entry. -/
def resolve (tree : FileTree) (path : String) : Except FileError (List String) :=
  match stepsOf path with
  | .error error => .error error
  | .ok steps => tree.follow [] steps

/-- The place of a directory. The empty path names the one around everything. -/
def directoryAt (tree : FileTree) (directory : String) : Except FileError (List String) :=
  tree.follow [] (Path.steps directory ++ [""])

variable {tree : FileTree}

/-- A name of a directory that is named by the last step leads into it. -/
theorem follow_append_name {name : String} (plain : Path.IsName name) (steps : List String)
    (place : List String) :
    tree.follow place (steps ++ [name]) =
      match tree.follow place (steps ++ [""]) with
      | .error error => .error error
      | .ok home =>
        if nameLimit < name.utf8ByteSize then .error .nameTooLong else .ok (home ++ [name]) := by
  induction steps generalizing place with
  | nil => simp [follow, plain.nonempty, plain.notHere, plain.notAbove]
  | cons step steps inductionHypothesis =>
    have more : steps ++ [name] ≠ [] ∧ steps ++ [""] ≠ [] := by simp
    simp only [List.cons_append, follow, more.1, more.2, if_false, inductionHypothesis]
    split
    · rfl
    · split
      · rfl
      · split
        · rfl
        · split <;> rfl

/-- A second empty step at the end makes no difference. -/
theorem follow_append_empty (steps : List String) (place : List String) :
    tree.follow place (steps ++ [""] ++ [""]) = tree.follow place (steps ++ [""]) := by
  induction steps generalizing place with
  | nil => simp [follow]
  | cons step steps inductionHypothesis =>
    have more : steps ++ [""] ++ [""] ≠ [] ∧ steps ++ [""] ≠ [] := by simp
    simp only [List.cons_append, follow, more.1, more.2, if_false, inductionHypothesis]

theorem directoryAt_eq (directory : String) :
    tree.directoryAt directory = tree.follow [] (Path.front directory ++ [""]) := by
  unfold directoryAt
  rcases Path.steps_eq_front directory with same | longer
  · rw [same]
  · rw [longer, follow_append_empty]

/-- A path that the system accepts has its own steps. -/
theorem stepsOf_eq_ok {path : String} {steps : List String} (accepted : stepsOf path = .ok steps) :
    steps = Path.steps path := by
  unfold stepsOf at accepted
  split at accepted
  · cases accepted
  · split at accepted
    · cases accepted
    · split at accepted <;> cases accepted
      rfl

section Names

variable {directory name : String} (plain : Path.IsName name)

include plain

/-- A name leads to its place in the directory if the system accepts the path and the name. -/
theorem resolve_join_eq_ok {place : List String} :
    tree.resolve (Path.join directory name) = .ok place ↔
      (∃ steps, stepsOf (Path.join directory name) = .ok steps) ∧
        name.utf8ByteSize ≤ nameLimit ∧
        ∃ home, tree.directoryAt directory = .ok home ∧ place = home ++ [name] := by
  unfold resolve
  cases accepted : stepsOf (Path.join directory name) with
  | error error => simp
  | ok steps =>
    rw [stepsOf_eq_ok accepted, Path.steps_join plain, directoryAt_eq]
    dsimp only
    rw [follow_append_name plain]
    cases tree.follow [] (Path.front directory ++ [""]) with
    | error error => simp
    | ok home =>
      by_cases long : nameLimit < name.utf8ByteSize
      · simp [long, Nat.not_le.mpr long]
      · simp [long, Nat.not_lt.mp long, eq_comm]

/-- The target of a name in a directory is the name itself. -/
theorem target_join :
    tree.target (Path.join directory name) =
      match stepsOf (Path.join directory name) with
      | .error error => .error error
      | .ok _ =>
        match tree.directoryAt directory with
        | .error error => .error error
        | .ok home => .ok ⟨home, name, false⟩ := by
  unfold target
  cases accepted : stepsOf (Path.join directory name) with
  | error error => rfl
  | ok steps =>
    rw [stepsOf_eq_ok accepted, Path.steps_join plain, directoryAt_eq]
    have trimmed : ((Path.front directory ++ [name]).reverse.dropWhile (· = "")).reverse =
        Path.front directory ++ [name] := by
      rw [List.reverse_append, List.reverse_singleton, List.singleton_append,
        List.dropWhile_cons_of_neg (by simp [plain.nonempty]), List.reverse_cons,
        List.reverse_reverse]
    dsimp only
    rw [trimmed, List.dropLast_concat, List.getLast?_concat]
    cases tree.follow [] (Path.front directory ++ [""]) with
    | error error => rfl
    | ok home => simp

/-- A file is written at the place that its path leads to, unless a directory is there. -/
theorem write_join_eq_ok {content : Text.Bytes} {next : FileTree} :
    tree.write (Path.join directory name) content = .ok next ↔
      ∃ home, tree.directoryAt directory = .ok home ∧
        tree.resolve (Path.join directory name) = .ok (home ++ [name]) ∧
        tree.entryAt? (home ++ [name]) ≠ some .directory ∧
        next = tree.set (home ++ [name]) (.file content) := by
  simp only [resolve_join_eq_ok plain]
  unfold write
  rw [target_join plain]
  cases accepted : stepsOf (Path.join directory name) with
  | error error => simp
  | ok steps =>
    cases reached : tree.directoryAt directory with
    | error error => simp
    | ok home =>
      have dots : isDots name = false := by simp [isDots, plain.notHere, plain.notAbove]
      by_cases long : nameLimit < name.utf8ByteSize
      · simp [dots, long, Nat.not_le.mpr long]
      · by_cases taken : tree.entryAt? (home ++ [name]) = some .directory
        · simp [dots, long, taken]
        · simp only [dots, long, taken, Bool.false_eq_true, or_self, if_false]
          simpa [taken, Nat.not_lt.mp long] using eq_comm

/-- Nothing is written over a directory. -/
theorem write_join_of_directory {content : Text.Bytes} {place : List String}
    (resolved : tree.resolve (Path.join directory name) = .ok place)
    (found : tree.entryAt? place = some .directory) :
    tree.write (Path.join directory name) content = .error .isDirectory := by
  obtain ⟨⟨steps, accepted⟩, short, home, reached, same⟩ := (resolve_join_eq_ok plain).mp resolved
  have dots : isDots name = false := by simp [isDots, plain.notHere, plain.notAbove]
  rw [same] at found
  unfold write
  rw [target_join plain, accepted, reached]
  simp [dots, found, Nat.not_lt.mpr short]

end Names

/-- A file is read where its path leads. -/
theorem read_eq_ok {path : String} {content : Text.Bytes} :
    tree.read path = .ok content ↔
      ∃ place, tree.resolve path = .ok place ∧ tree.entryAt? place = some (.file content) := by
  unfold read locate resolve
  cases stepsOf path with
  | error error => simp
  | ok steps =>
    dsimp only
    cases tree.follow [] steps with
    | error error => simp
    | ok place =>
      rcases found : tree.entryAt? place with _ | (_ | _) <;> simp [found]

/-- A path that leads to a directory is not read. -/
theorem read_of_directory {path : String} {place : List String}
    (resolved : tree.resolve path = .ok place) (found : tree.entryAt? place = some .directory) :
    tree.read path = .error .isDirectory := by
  unfold resolve at resolved
  unfold read locate
  cases accepted : stepsOf path with
  | error error =>
    rw [accepted] at resolved
    cases resolved
  | ok steps =>
    rw [accepted] at resolved
    dsimp only at resolved ⊢
    rw [resolved]
    dsimp only
    rw [found]

theorem status_of_read {path : String} {content : Text.Bytes}
    (present : tree.read path = .ok content) :
    tree.status path = .ok (.file content.length) := by
  unfold read at present
  split at present
  · cases present
  · cases present
  · next found =>
    cases present
    simp [status, found, Except.map, Entry.status]

/-- The system accepts a name of a directory that is not the name of another directory. -/
structure Writable (tree : FileTree) (directory name : String) : Prop where
  plain : Path.IsName name
  free : ∃ home, tree.directoryAt directory = .ok home ∧
    tree.resolve (Path.join directory name) = .ok (home ++ [name]) ∧
    tree.entryAt? (home ++ [name]) ≠ some .directory

theorem write_of_writable {directory name : String} (writable : tree.Writable directory name)
    (content : Text.Bytes) : ∃ next, tree.write (Path.join directory name) content = .ok next := by
  obtain ⟨home, reached, resolved, free⟩ := writable.free
  exact ⟨_, (write_join_eq_ok writable.plain).mpr ⟨home, reached, resolved, free, rfl⟩⟩

/-- A path that may be written leads to nothing or to a file. -/
theorem status_of_writable {directory name : String} (writable : tree.Writable directory name) :
    tree.status (Path.join directory name) = .error .notFound ∨
      ∃ content, tree.read (Path.join directory name) = .ok content := by
  obtain ⟨home, _, resolved, free⟩ := writable.free
  cases found : tree.entryAt? (home ++ [name]) with
  | none =>
    left
    unfold resolve at resolved
    unfold status locate
    cases accepted : stepsOf (Path.join directory name) with
    | error error => simp [accepted] at resolved
    | ok steps =>
      rw [accepted] at resolved
      dsimp only at resolved ⊢
      rw [resolved]
      simp only [found]
      rfl
  | some entry =>
    cases entry with
    | directory => exact absurd found free
    | file content => exact Or.inr ⟨content, read_eq_ok.mpr ⟨_, resolved, found⟩⟩

/-- A path through directories leads to the same place as long as they are there. -/
theorem follow_of_kept {next : FileTree}
    (kept : ∀ place, tree.entryAt? place = some .directory →
      next.entryAt? place = some .directory)
    {steps : List String} {place home : List String}
    (followed : tree.follow place (steps ++ [""]) = .ok home) :
    next.follow place (steps ++ [""]) = .ok home := by
  induction steps generalizing place with
  | nil => simpa [follow] using followed
  | cons step steps inductionHypothesis =>
    have more : steps ++ [""] ≠ [] := by simp
    simp only [List.cons_append, follow, more, if_false] at followed ⊢
    by_cases here : step = "" ∨ step = "."
    · rw [if_pos here] at followed ⊢
      exact inductionHypothesis followed
    · rw [if_neg here] at followed ⊢
      by_cases above : step = ".."
      · rw [if_pos above] at followed ⊢
        exact inductionHypothesis followed
      · rw [if_neg above] at followed ⊢
        by_cases long : nameLimit < step.utf8ByteSize
        · rw [if_pos long] at followed
          cases followed
        · rw [if_neg long] at followed ⊢
          rcases found : tree.entryAt? (place ++ [step]) with _ | (_ | _)
          · rw [found] at followed
            cases followed
          · rw [found] at followed
            cases followed
          · rw [found] at followed
            rw [kept _ found]
            exact inductionHypothesis followed

/-- Writing a file does not move a directory. -/
theorem directoryAt_set {directory : String} {home place : List String} {content : Text.Bytes}
    (reached : tree.directoryAt directory = .ok home)
    (free : tree.entryAt? place ≠ some .directory) :
    (tree.set place (.file content)).directoryAt directory = .ok home := by
  refine follow_of_kept (fun other found => ?_) reached
  have different : other ≠ place := by
    intro same
    exact free (same ▸ found)
  rw [entryAt?_set_other tree different, found]

end FileTree

end NativePeer
