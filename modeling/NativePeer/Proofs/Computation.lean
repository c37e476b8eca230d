import NativePeer.Files.Access

/-
This file says when computations that may fail succeed and when they fail, and compares two of
them.
-/

namespace NativePeer

theorem except_ok_bind {E A B : Type} (value : A) (next : A → Except E B) :
    (.ok value >>= next) = next value := rfl

theorem except_bind_eq_ok {E A B : Type} {first : Except E A} {next : A → Except E B} {value : B} :
    (first >>= next) = .ok value ↔ ∃ middle, first = .ok middle ∧ next middle = .ok value := by
  cases first <;> simp [bind, Except.bind]

theorem except_bind_eq_error {E A B : Type} {first : Except E A} {next : A → Except E B}
    {error : E} :
    (first >>= next) = .error error ↔
      first = .error error ∨ ∃ middle, first = .ok middle ∧ next middle = .error error := by
  cases first <;> simp [bind, Except.bind]

theorem except_map_eq_ok {E A B : Type} {result : Except E A} {change : A → B} {value : B} :
    result.map change = .ok value ↔ ∃ found, result = .ok found ∧ change found = value := by
  cases result <;> simp [Except.map]

theorem except_map_eq_error {E A B : Type} {result : Except E A} {change : A → B} {error : E} :
    result.map change = .error error ↔ result = .error error := by
  cases result <;> simp [Except.map]

theorem mapError_eq_ok {E F A : Type} {change : E → F} {result : Except E A} {value : A} :
    result.mapError change = .ok value ↔ result = .ok value := by
  cases result with
  | error error => exact ⟨nofun, nofun⟩
  | ok found => exact ⟨fun same => by cases same; rfl, fun same => by cases same; rfl⟩

theorem mapError_eq_error {E F A : Type} {change : E → F} {result : Except E A} {error : F} :
    result.mapError change = .error error ↔
      ∃ cause, result = .error cause ∧ change cause = error := by
  cases result with
  | error cause =>
    constructor
    · intro same
      cases same
      exact ⟨cause, rfl, rfl⟩
    · rintro ⟨_, same, rfl⟩
      cases same
      rfl
  | ok value => exact ⟨nofun, nofun⟩

theorem toOption_eq_some {E A : Type} {result : Except E A} {value : A} :
    result.toOption = some value ↔ result = .ok value := by
  cases result <;> simp [Except.toOption]

/-- A traversal succeeds exactly when every one of its steps does. -/
theorem forM_eq_ok {E A : Type} {step : A → Except E Unit} {values : List A} :
    values.forM step = .ok () ↔ ∀ value ∈ values, step value = .ok () := by
  induction values with
  | nil => simp [pure, Except.pure]
  | cons value values inductionHypothesis =>
    rw [List.forM_eq_forM] at inductionHypothesis
    rw [List.forM_eq_forM, List.forM_cons, except_bind_eq_ok, List.forall_mem_cons,
      ← inductionHypothesis]
    exact ⟨fun parts => parts.elim fun _ both => both, fun both => ⟨(), both⟩⟩

/-- A traversal fails with the error of one of its steps. -/
theorem exists_of_forM_eq_error {E A : Type} {step : A → Except E Unit} {values : List A}
    {error : E} (failed : values.forM step = .error error) :
    ∃ value ∈ values, step value = .error error := by
  induction values with
  | nil => cases failed
  | cons value values inductionHypothesis =>
    rw [List.forM_eq_forM] at inductionHypothesis
    rw [List.forM_eq_forM, List.forM_cons] at failed
    rcases except_bind_eq_error.mp failed with here | ⟨_, _, later⟩
    · exact ⟨value, List.mem_cons_self, here⟩
    · obtain ⟨other, member, refused⟩ := inductionHypothesis later
      exact ⟨other, List.mem_cons_of_mem _ member, refused⟩

/-- What holds at first and is kept by every step holds at last. -/
theorem foldlM_invariant {E A S : Type} {step : S → A → Except E S} (holds : S → Prop)
    (kept : ∀ state value next, holds state → step state value = .ok next → holds next)
    {values : List A} {first last : S} (start : holds first)
    (folded : values.foldlM step first = .ok last) : holds last := by
  induction values generalizing first with
  | nil =>
    cases folded
    exact start
  | cons value values inductionHypothesis =>
    rw [List.foldlM_cons, except_bind_eq_ok] at folded
    obtain ⟨middle, stepped, rest⟩ := folded
    exact inductionHypothesis (kept first value middle start stepped) rest

/-- A traversal fails at the first value that its step refuses. -/
theorem foldlM_eq_error {E A S : Type} {step : S → A → Except E S} {values : List A} {first : S}
    {error : E} :
    values.foldlM step first = .error error ↔ ∃ before value after middle,
      values = before ++ value :: after ∧ before.foldlM step first = .ok middle ∧
        step middle value = .error error := by
  constructor
  · intro failed
    induction values generalizing first with
    | nil => cases failed
    | cons value values inductionHypothesis =>
      rw [List.foldlM_cons] at failed
      rcases except_bind_eq_error.mp failed with here | ⟨next, stepped, later⟩
      · exact ⟨[], value, values, first, rfl, rfl, here⟩
      · obtain ⟨before, other, after, middle, rfl, earlier, refused⟩ := inductionHypothesis later
        refine ⟨value :: before, other, after, middle, rfl, ?_, refused⟩
        rw [List.foldlM_cons, stepped]
        exact earlier
  · rintro ⟨before, value, after, middle, rfl, earlier, refused⟩
    rw [List.foldlM_append, earlier, except_ok_bind, List.foldlM_cons, refused]
    rfl

/-- Both computations fail in the same way or both succeed with values that are related. -/
inductive Alike {E A B : Type} (related : A → B → Prop) : Except E A → Except E B → Prop where
  | failed (error : E) : Alike related (.error error) (.error error)
  | done {first : A} {second : B} (same : related first second) :
    Alike related (.ok first) (.ok second)

namespace Alike

variable {E A B C D : Type} {related : A → B → Prop} {later : C → D → Prop}
  {first : Except E A} {second : Except E B}

theorem bind (alike : Alike related first second) {next : A → Except E C} {other : B → Except E D}
    (continued : ∀ value same, related value same → Alike later (next value) (other same)) :
    Alike later (first >>= next) (second >>= other) := by
  cases alike with
  | failed error => exact .failed error
  | done same => exact continued _ _ same

theorem imp {weaker : A → B → Prop} (alike : Alike related first second)
    (implied : ∀ value same, related value same → weaker value same) :
    Alike weaker first second := by
  cases alike with
  | failed error => exact .failed error
  | done same => exact .done (implied _ _ same)

/-- What the two computations come to. -/
theorem results (alike : Alike related first second) :
    (∃ error, first = .error error ∧ second = .error error) ∨
      ∃ value same, first = .ok value ∧ second = .ok same ∧ related value same := by
  cases alike with
  | failed error => exact .inl ⟨error, rfl, rfl⟩
  | done same => exact .inr ⟨_, _, rfl, rfl, same⟩

theorem mapError {F : Type} (alike : Alike related first second) (change : E → F) :
    Alike related (first.mapError change) (second.mapError change) := by
  cases alike with
  | failed error => exact .failed (change error)
  | done same => exact .done same

/-- A computation that does not depend on what differs. -/
theorem refl {result : Except E A} {related : A → A → Prop} (same : ∀ value, related value value) :
    Alike related result result := by
  cases result with
  | error error => exact .failed error
  | ok value => exact .done (same value)

end Alike

namespace Logged

@[simp] theorem result_pure {A : Type} (value : A) :
    (Pure.pure value : Logged A).result = .ok value := rfl

@[simp] theorem result_ofExcept {A : Type} (result : Except GenerationError A) :
    (ofExcept result).result = result := rfl

/-- The result of a computation does not depend on the events before it. -/
@[simp] theorem result_bind {A B : Type} (first : Logged A) (next : A → Logged B) :
    (first >>= next).result = first.result >>= fun value => (next value).result := by
  change (bind first next).result = _
  unfold bind
  cases first.result <;> rfl

/-- Reporting events never fails. -/
@[simp] theorem result_forM_report (events : List LogEvent) :
    (forM events report).result = .ok () := by
  induction events with
  | nil => rfl
  | cons event events inductionHypothesis =>
    rw [List.forM_cons, result_bind, inductionHypothesis]
    rfl

/-- Both computations report the same events, and both fail in the same way or both succeed with
values that are related. -/
structure Alike {A B : Type} (related : A → B → Prop) (first : Logged A) (second : Logged B) :
    Prop where
  log : first.log = second.log
  result : NativePeer.Alike related first.result second.result

namespace Alike

variable {A B C D : Type} {related : A → B → Prop} {later : C → D → Prop}

theorem ofExcept {first : Except GenerationError A} {second : Except GenerationError B}
    (alike : NativePeer.Alike related first second) :
    Alike related (Logged.ofExcept first) (Logged.ofExcept second) :=
  ⟨rfl, alike⟩

/-- A computation that does not depend on what differs. -/
theorem refl (logged : Logged A) : Alike Eq logged logged :=
  ⟨rfl, .refl fun _ => rfl⟩

/-- What follows a failure makes no difference. -/
theorem failed (error : GenerationError) (next : A → Logged C) (other : A → Logged D) :
    Alike later (Logged.ofExcept (.error error) >>= next)
      (Logged.ofExcept (.error error) >>= other) :=
  ⟨rfl, .failed error⟩

theorem bind {first : Logged A} {second : Logged B} (alike : Alike related first second)
    {next : A → Logged C} {other : B → Logged D}
    (continued : ∀ value same, related value same → Alike later (next value) (other same)) :
    Alike later (first >>= next) (second >>= other) := by
  obtain ⟨firstLog, firstResult⟩ := first
  obtain ⟨secondLog, secondResult⟩ := second
  obtain ⟨sameLog, results⟩ := alike
  change firstLog = secondLog at sameLog
  subst sameLog
  cases results with
  | failed error => exact ⟨rfl, .failed error⟩
  | @done value same connected =>
    obtain ⟨log, result⟩ := continued value same connected
    exact ⟨congrArg (firstLog ++ ·) log, result⟩

end Alike

end Logged

namespace Session

variable {E A B : Type}

/-- What a computation that starts in a session gives and which session it leaves. -/
def perform (session : Session) (action : ExceptT E (StateM Session) A) :
    Except E A × Session :=
  action.run.run session

variable (session : Session)

@[simp] theorem perform_pure (value : A) :
    session.perform (pure value : ExceptT E (StateM Session) A) = (.ok value, session) := rfl

@[simp] theorem perform_throw (error : E) :
    session.perform (throw error : ExceptT E (StateM Session) A) = (.error error, session) := rfl

theorem perform_bind (first : ExceptT E (StateM Session) A)
    (next : A → ExceptT E (StateM Session) B) :
    session.perform (first >>= next) =
      match session.perform first with
      | (.error error, after) => (.error error, after)
      | (.ok value, after) => after.perform (next value) := by
  unfold perform
  rw [ExceptT.run_bind, StateT.run_bind]
  rcases first.run.run session with ⟨_ | _, after⟩ <;> rfl

/-- What follows sees the result of the computation, whether or not it has failed. -/
theorem run_bind_perform {B : Type} (action : ExceptT E (StateM Session) A)
    (next : Except E A → StateM Session B) :
    (action.run >>= next).run session =
      (next (session.perform action).1).run (session.perform action).2 := rfl

@[simp] theorem perform_map (change : A → B) (action : ExceptT E (StateM Session) A) :
    session.perform (change <$> action) =
      ((session.perform action).1.map change, (session.perform action).2) := by
  rw [map_eq_pure_bind, perform_bind]
  rcases session.perform action with ⟨_ | _, after⟩ <;> rfl

@[simp] theorem perform_mk_pure (result : Except E A) :
    session.perform (ExceptT.mk (pure result : StateM Session (Except E A))) =
      (result, session) := rfl

@[simp] theorem perform_adapt {F : Type} (change : E → F) (action : ExceptT E (StateM Session) A) :
    session.perform (ExceptT.adapt change action) =
      ((session.perform action).1.mapError change, (session.perform action).2) := rfl

@[simp] theorem perform_status (path : String) :
    session.perform (Surroundings.status path : ExceptT E (StateM Session) _) =
      (.ok (session.tree.status path), session) := rfl

@[simp] theorem perform_readFile (path : String) :
    session.perform (Surroundings.readFile path : ExceptT E (StateM Session) _) =
      (.ok (session.tree.read path), session) := rfl

@[simp] theorem perform_writeFile (path : String) (content : Text.Bytes) :
    session.perform (Surroundings.writeFile path content : ExceptT E (StateM Session) _) =
      (.ok (session.change (session.tree.write path content)).1,
        (session.change (session.tree.write path content)).2) := rfl

@[simp] theorem perform_makeDirectory (path : String) :
    session.perform (Surroundings.makeDirectory path : ExceptT E (StateM Session) _) =
      (.ok (session.change (session.tree.makeDirectory path)).1,
        (session.change (session.tree.makeDirectory path)).2) := rfl

@[simp] theorem perform_report (event : LogEvent) :
    session.perform (Surroundings.report event : ExceptT E (StateM Session) _) =
      (.ok (), session.report event) := rfl

variable {session}

theorem perform_bind_eq_ok {first : ExceptT E (StateM Session) A}
    {next : A → ExceptT E (StateM Session) B} {value : B} {after : Session} :
    session.perform (first >>= next) = (.ok value, after) ↔
      ∃ middle between, session.perform first = (.ok middle, between) ∧
        between.perform (next middle) = (.ok value, after) := by
  rw [perform_bind]
  rcases session.perform first with ⟨_ | middle, between⟩
  · simp
  · constructor
    · exact fun succeeded => ⟨middle, between, rfl, succeeded⟩
    · intro parts
      obtain ⟨_, _, same, succeeded⟩ := parts
      cases same
      exact succeeded

theorem perform_bind_eq_error {first : ExceptT E (StateM Session) A}
    {next : A → ExceptT E (StateM Session) B} {error : E} {after : Session} :
    session.perform (first >>= next) = (.error error, after) ↔
      session.perform first = (.error error, after) ∨
        ∃ middle between, session.perform first = (.ok middle, between) ∧
          between.perform (next middle) = (.error error, after) := by
  rw [perform_bind]
  rcases session.perform first with ⟨_ | middle, between⟩
  · simp
  · constructor
    · exact fun failed => .inr ⟨middle, between, rfl, failed⟩
    · intro parts
      rcases parts with impossible | ⟨_, _, same, failed⟩
      · cases impossible
      · cases same
        exact failed

/-- A sequence of computations fails at the first of them that fails. -/
theorem perform_mapM_eq_error {F : Type} {action : A → ExceptT E (StateM Session) F}
    {values : List A} {error : E} {after : Session} :
    session.perform (values.mapM action) = (.error error, after) ↔
      ∃ earlier value later results middle, values = earlier ++ value :: later ∧
        session.perform (earlier.mapM action) = (.ok results, middle) ∧
        middle.perform (action value) = (.error error, after) := by
  constructor
  · intro failed
    induction values generalizing session with
    | nil => cases failed
    | cons value values inductionHypothesis =>
      rw [List.mapM_cons, perform_bind_eq_error] at failed
      rcases failed with here | ⟨result, between, performed, failed⟩
      · exact ⟨[], value, values, [], session, rfl, rfl, here⟩
      · rcases perform_bind_eq_error.mp failed with further | ⟨_, _, _, failed⟩
        · obtain ⟨earlier, other, later, results, middle, rfl, handled, refused⟩ :=
            inductionHypothesis further
          refine ⟨value :: earlier, other, later, result :: results, middle, rfl, ?_, refused⟩
          rw [List.mapM_cons, perform_bind_eq_ok]
          exact ⟨result, between, performed, perform_bind_eq_ok.mpr ⟨results, middle, handled, rfl⟩⟩
        · cases failed
  · intro parts
    obtain ⟨earlier, value, later, results, middle, rfl, handled, refused⟩ := parts
    rw [List.mapM_append, perform_bind, handled]
    dsimp only
    rw [List.mapM_cons, perform_bind, perform_bind, refused]

end Session

end NativePeer
