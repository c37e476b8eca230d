import NativePeer.Proofs.Peer.Disambiguation

/-
This file says which methods of a class are reported for sharing a symbol.
-/

namespace NativePeer

namespace Logged

theorem log_forM_report (events : List LogEvent) : (forM events report).log = events := by
  induction events with
  | nil => rfl
  | cons event events inductionHypothesis =>
    have reported : (report event).result = .ok () := rfl
    rw [List.forM_cons, bind_log_of_ok reported, inductionHypothesis]
    rfl

end Logged

namespace Peer

variable {model : ClassModel} {configuration : Configuration} {className baseName : String}
  {methods : List Method}

/-- The events of a bound method come before those of the methods after it. -/
theorem log_bindMethods_cons {table next : SymbolTable} {method : Method} {rest : List Method}
    {shown : BoundMethod} {others : List BoundMethod}
    (claimed : table.claim (symbolOf (isDisambiguated configuration methods method) method)
      (ownerOf (isDisambiguated configuration methods method) method) = .ok next)
    (methodBound : bindMethod model className baseName
      (symbolOf (isDisambiguated configuration methods method) method) method = .ok shown)
    (restBound : (bindMethods model configuration className baseName methods next rest).result =
      .ok others) :
    (bindMethods model configuration className baseName methods table (method :: rest)).log =
      (if isDisambiguated configuration methods method then []
        else sharingEvents className (isOverloaded methods method.name) table method) ++
      (bindMethods model configuration className baseName methods next rest).log := by
  rw [bindMethods]
  generalize isDisambiguated configuration methods method = disambiguated at claimed methodBound ⊢
  have continued : ((do
      let table ← .ofExcept (table.claim (symbolOf disambiguated method)
        (ownerOf disambiguated method))
      let bound ← .ofExcept (bindMethod model className baseName (symbolOf disambiguated method)
        method)
      let others ← bindMethods model configuration className baseName methods table rest
      return bound :: others : Logged (List BoundMethod))).log =
      (bindMethods model configuration className baseName methods next rest).log := by
    rw [Logged.bind_log_of_ok claimed, Logged.bind_log_of_ok methodBound,
      Logged.bind_log_of_ok restBound]
    exact List.append_nil _
  cases disambiguated with
  | true => exact continued
  | false =>
    refine (Logged.bind_log_of_ok (Logged.result_forM_report _)).trans ?_
    rw [continued, Logged.log_forM_report]
    rfl

/-- What a table knows after some of the methods of a class have claimed their plain symbols. -/
structure Records (className baseName : String) (earlier : List Method) (table : SymbolTable) :
    Prop where
  reserved : (memberTable className baseName).Extends table
  claims : table.HoldsOnly (baseName :: inheritedMembers) fun _ owner =>
    owner ∈ earlier.map Method.name
  owners : ∀ method ∈ earlier, table.owner? (symbolOf false method) = some method.name

namespace Records

variable {earlier : List Method} {table next : SymbolTable} {method : Method}

theorem nil : Records className baseName [] (memberTable className baseName) where
  reserved := .refl _
  claims := holdsOnly_memberTable className baseName _
  owners := List.forall_mem_nil _

theorem concat (records : Records className baseName earlier table)
    (claimed : table.claim (symbolOf false method) method.name = .ok next) :
    Records className baseName (earlier ++ [method]) next where
  reserved := records.reserved.trans (SymbolTable.extends_claim claimed)
  claims := by
    have wider : table.HoldsOnly (baseName :: inheritedMembers) fun _ owner =>
        owner ∈ (earlier ++ [method]).map Method.name := fun symbol owner present =>
      (records.claims symbol owner present).imp_right fun listed => by simp [listed]
    exact wider.claim claimed (by simp)
  owners := by
    rw [List.forall_mem_append, List.forall_mem_singleton]
    exact ⟨fun other member => SymbolTable.extends_claim claimed _ _ (records.owners other member),
      SymbolTable.owner?_claim claimed⟩

/-- The symbol of a method is new exactly if its name is. -/
theorem owner?_eq_none_iff (records : Records className baseName earlier table)
    (claimed : table.claim (symbolOf false method) method.name = .ok next) :
    table.owner? (symbolOf false method) = none ↔ method.name ∉ earlier.map Method.name := by
  constructor
  · intro absent listed
    obtain ⟨other, member, sameName⟩ := List.mem_map.mp listed
    have sameSymbol : symbolOf false other = symbolOf false method := by simp [symbolOf, sameName]
    rw [← sameSymbol, records.owners other member] at absent
    cases absent
  · intro unlisted
    cases present : table.owner? (symbolOf false method) with
    | none => rfl
    | some owner =>
      -- The claim succeeded, so the symbol would belong to the name itself.
      have kept := SymbolTable.extends_claim claimed _ _ present
      have same := Option.some.inj (kept.symm.trans (SymbolTable.owner?_claim claimed))
      rcases records.claims _ _ present with listed | listed
      · obtain ⟨first, reserved, longer⟩ := exists_owner?_memberTable className listed
        have taken := records.reserved _ _ reserved
        have shorter := length_ownerOf_le false method
        rw [present, same] at taken
        rw [← Option.some.inj taken] at longer
        exact absurd shorter (Nat.not_le.mpr longer)
      · exact absurd (same ▸ listed) unlisted

end Records

/-- The first of several methods with one name is reported. -/
theorem sharingEvents_of_records {earlier : List Method} {table next : SymbolTable}
    {method : Method} (records : Records className baseName earlier table)
    (claimed : table.claim (symbolOf false method) method.name = .ok next) (overloaded : Bool) :
    sharingEvents className overloaded table method =
      if overloaded = true ∧ method.name ∉ earlier.map Method.name then
        [.sharedSymbol className method.name]
      else [] := by
  simp only [sharingEvents, records.owner?_eq_none_iff claimed]

/-- Whether the first method of one name comes before the first of another. -/
def Precedes (methods : List Method) (first second : String) : Prop :=
  (methods.map Method.name).idxOf first < (methods.map Method.name).idxOf second

theorem precedes_of_new {earlier rest : List Method} {method : Method} {name : String}
    (fresh : method.name ∉ earlier.map Method.name)
    (later : name ∉ (earlier ++ [method]).map Method.name) :
    Precedes (earlier ++ method :: rest) method.name name := by
  rw [Precedes, List.map_append, List.map_cons, List.idxOf_append_of_notMem fresh,
    List.idxOf_cons_self]
  rw [List.map_append, List.mem_append, not_or, List.map_singleton, List.mem_singleton] at later
  rw [List.idxOf_append_of_notMem later.1, List.idxOf_cons_ne _ (Ne.symm later.2)]
  omega

/-- The names that are reported after some of the methods of a class. -/
theorem log_bindMethods (plain : configuration.disambiguatesOverloads = false)
    {earlier rest : List Method} {table : SymbolTable} {bound : List BoundMethod}
    (whole : methods = earlier ++ rest) (records : Records className baseName earlier table)
    (succeeded : (bindMethods model configuration className baseName methods table rest).result =
      .ok bound) :
    ∃ names : List String,
      (bindMethods model configuration className baseName methods table rest).log =
        names.map (.sharedSymbol className) ∧
      (∀ name, name ∈ names ↔ isOverloaded methods name = true ∧
        name ∉ earlier.map Method.name ∧ name ∈ rest.map Method.name) ∧
      names.Pairwise (Precedes methods) := by
  induction rest generalizing earlier table bound with
  | nil => exact ⟨[], rfl, by simp, .nil⟩
  | cons method rest inductionHypothesis =>
    simp only [result_bindMethods_cons, except_bind_eq_ok] at succeeded
    obtain ⟨next, claimed, shown, methodBound, others, restBound, _⟩ := succeeded
    rw [log_bindMethods_cons claimed methodBound restBound]
    have undisambiguated : isDisambiguated configuration methods method = false := by
      rw [isDisambiguated, plain, Bool.false_and]
    rw [undisambiguated] at claimed ⊢
    obtain ⟨names, logged, listed, ordered⟩ := inductionHypothesis
      (whole.trans (List.append_cons earlier method rest)) (records.concat claimed) restBound
    rw [if_neg Bool.false_ne_true, sharingEvents_of_records records claimed, logged]
    by_cases reported : isOverloaded methods method.name = true ∧
        method.name ∉ earlier.map Method.name
    · rw [if_pos reported]
      refine ⟨method.name :: names, rfl, fun name => ?_, List.pairwise_cons.mpr ⟨?_, ordered⟩⟩
      · simp only [List.mem_cons, listed, List.map_append, List.mem_append, List.map_cons,
          List.map_nil, List.not_mem_nil, or_false, not_or]
        grind
      · intro name member
        exact whole ▸ precedes_of_new reported.2 ((listed name).mp member).2.1
    · rw [if_neg reported]
      refine ⟨names, rfl, fun name => ?_, ordered⟩
      simp only [listed, List.map_append, List.mem_append, List.map_cons, List.map_nil,
        List.mem_cons, List.not_mem_nil, or_false, not_or]
      grind

theorem log_bindMethods_of_disambiguated (told : configuration.disambiguatesOverloads = true)
    {rest : List Method} {table : SymbolTable} {bound : List BoundMethod}
    (succeeded : (bindMethods model configuration className baseName methods table rest).result =
      .ok bound) :
    (bindMethods model configuration className baseName methods table rest).log = [] := by
  induction rest generalizing table bound with
  | nil => rfl
  | cons method rest inductionHypothesis =>
    simp only [result_bindMethods_cons, except_bind_eq_ok] at succeeded
    obtain ⟨next, claimed, shown, methodBound, others, restBound, _⟩ := succeeded
    rw [log_bindMethods_cons claimed methodBound restBound, inductionHypothesis restBound,
      List.append_nil, isDisambiguated, told, Bool.true_and]
    cases isOverloaded methods method.name <;> rfl

theorem isOverloaded_iff {name : String} :
    isOverloaded methods name = true ↔ 1 < (methods.map Method.name).count name := by
  rw [isOverloaded, decide_eq_true_eq, List.count, List.countP_map]
  rfl

/-- Only the binding of methods reports events. -/
theorem log_bind {declared : ManagedClass} {peer : Peer}
    (bound : (bind model configuration declared).result = .ok peer) :
    (bind model configuration declared).log =
      (bindMethods model configuration declared.qualifiedName (baseNameOf declared)
        declared.taggedMethods (memberTable declared.qualifiedName (baseNameOf declared))
        declared.taggedMethods).log := by
  obtain ⟨tagged, home, methods, constants, housed, methodsBound, constantsFound, _⟩ :=
    bind_eq_ok.mp bound
  rw [bind]
  dsimp only
  rw [tagged, if_neg (by decide), Logged.bind_log_of_ok housed, Logged.bind_log_of_ok methodsBound,
    Logged.bind_log_of_ok constantsFound]
  exact List.append_nil _

end Peer

/-- A name of several tagged methods is reported once, where it comes first, unless the symbols
tell the parameters. -/
theorem PeerSource.render_warnings {model : ClassModel} {configuration : Configuration}
    {declared : ManagedClass} {source : PeerSource}
    (rendered : (render model configuration declared).result = .ok source) :
    ∃ names : List String,
      (render model configuration declared).log =
        names.map (.sharedSymbol declared.qualifiedName) ∧
      (∀ name, name ∈ names ↔ configuration.disambiguatesOverloads = false ∧
        1 < (declared.taggedMethods.map Method.name).count name) ∧
      names.Pairwise (Peer.Precedes declared.taggedMethods) := by
  obtain ⟨peer, bound, _⟩ := render_eq_ok.mp rendered
  obtain ⟨_, _, methods, _, _, methodsBound, _, _⟩ := Peer.bind_eq_ok.mp bound
  have logged : (render model configuration declared).log =
      (Peer.bind model configuration declared).log := by
    rw [render, Logged.bind_log_of_ok bound]
    exact List.append_nil _
  rw [logged, Peer.log_bind bound]
  cases told : configuration.disambiguatesOverloads with
  | true =>
    exact ⟨[], Peer.log_bindMethods_of_disambiguated told methodsBound, by simp, .nil⟩
  | false =>
    obtain ⟨names, reported, listed, ordered⟩ :=
      Peer.log_bindMethods told (List.nil_append _).symm .nil methodsBound
    refine ⟨names, reported, fun name => ?_, ordered⟩
    rw [listed, Peer.isOverloaded_iff]
    constructor
    · exact fun parts => ⟨rfl, parts.1⟩
    · exact fun parts => ⟨parts.2, List.not_mem_nil, List.count_pos_iff.mp (by omega)⟩

/-- The overloads of two names alternate in this class. -/
def alternatingCar : ManagedClass :=
  { overloadedCar with
    methods :=
      [⟨"stop", .void, [], false, true⟩,
       ⟨"run", .void, [], false, true⟩,
       ⟨"halt", .void, [], false, true⟩,
       ⟨"run", .void, [⟨"to", .string⟩], false, true⟩,
       ⟨"stop", .void, [⟨"at", .primitive .int⟩], false, true⟩] }

def sharingSymbols : Configuration := { outputDirectory := "out" }

theorem PeerSource.render_warnings_alternating :
    ∃ source, (render .runtime sharingSymbols alternatingCar).result = .ok source ∧
      ∃ names : List String,
        (render .runtime sharingSymbols alternatingCar).log = names.map (.sharedSymbol "a.Car") ∧
        ("stop" ∈ names ∧ "run" ∈ names ∧ "halt" ∉ names) ∧
        names.Pairwise (Peer.Precedes alternatingCar.taggedMethods) := by
  obtain ⟨source, rendered⟩ : ∃ source,
      (render .runtime sharingSymbols alternatingCar).result = .ok source := ⟨_, rfl⟩
  obtain ⟨names, logged, listed, ordered⟩ := render_warnings rendered
  refine ⟨source, rendered, names, logged, ⟨?_, ?_, ?_⟩, ordered⟩
  · exact (listed "stop").mpr ⟨rfl, by decide⟩
  · exact (listed "run").mpr ⟨rfl, by decide⟩
  · exact fun member => absurd ((listed "halt").mp member).2 (by decide)

end NativePeer
