import NativePeer.Proofs.Model.Flattening
import NativePeer.Proofs.Native.Literal
import NativePeer.Proofs.Peer.Macro

/-
This file shows that the macros of a peer are the constants that its class has.
-/

namespace NativePeer

open Text

/-- The constant that a field has under a name. -/
def Field.constantNamed? (name : String) (field : Field) : Option Constant :=
  if field.isStaticFinal = true ∧ field.name = name then field.constant else none

/-- The constant that a class declares under a name. -/
def ManagedClass.constantNamed? (name : String) (declared : ManagedClass) : Option Constant :=
  (declared.fields.filterMap (Field.constantNamed? name)).getLast?

/-- The constant of the first class of a chain that declares one under a name. -/
def constantNamed? (chain : List ManagedClass) (name : String) : Option Constant :=
  chain.findSome? (ManagedClass.constantNamed? name)

/-- Whether a field has a macro. -/
def Field.isConstant (field : Field) : Bool :=
  field.isStaticFinal && field.constant.isSome

/-- Among the fields of a chain from its end the last one of a name counts. -/
theorem getLast?_flatten (chain : List ManagedClass) (name : String) :
    ((chain.reverse.flatMap ManagedClass.fields).filterMap (Field.constantNamed? name)).getLast? =
      constantNamed? chain name := by
  induction chain with
  | nil => rfl
  | cons declared chain inductionHypothesis =>
    have single : [declared].flatMap ManagedClass.fields = declared.fields :=
      List.flatMap_singleton _ _
    rw [List.reverse_cons, List.flatMap_append, single, List.filterMap_append, List.getLast?_append,
      inductionHypothesis, constantNamed?, constantNamed?, List.findSome?_cons]
    cases shape : declared.constantNamed? name with
    | none => rw [ManagedClass.constantNamed?] at shape; rw [shape]; rfl
    | some value => rw [ManagedClass.constantNamed?] at shape; rw [shape]; rfl

/-- A constant among the fields of a chain is found or hidden. -/
theorem exists_constantNamed? {chain : List ManagedClass} {field : Field}
    (listed : field ∈ chain.reverse.flatMap ManagedClass.fields)
    (constant : field.isConstant = true) :
    ∃ value, constantNamed? chain field.name = some value := by
  rw [Field.isConstant, Bool.and_eq_true] at constant
  obtain ⟨value, present⟩ := Option.isSome_iff_exists.mp constant.2
  have named : field.constantNamed? field.name = some value := by
    rw [Field.constantNamed?, if_pos ⟨constant.1, rfl⟩, present]
  rw [← getLast?_flatten]
  exact Option.isSome_iff_exists.mp (List.getLast?_isSome.mpr
    (List.ne_nil_of_mem (List.mem_filterMap.mpr ⟨field, listed, named⟩)))

namespace MacroDefinition

variable {host : Host} {className : String}

/-- The macro of a field with a constant. -/
def ofConstant? (host : Host) (className : String) (field : Field) : Option MacroDefinition :=
  if field.isStaticFinal then
    field.constant.map fun value => ⟨symbolOf className field.name, value.literal host⟩
  else none

theorem ofField_eq_ok {field : Field} (staticFinal : field.isStaticFinal = true) :
    ofField host className field = .ok (ofConstant? host className field) := by
  rw [ofField, ofConstant?, if_pos staticFinal, if_pos staticFinal]

theorem symbolOf_inj {first second : String} :
    symbolOf className first = symbolOf className second ↔
      SymbolRole.member.mangle first = SymbolRole.member.mangle second := by
  rw [symbolOf, symbolOf, String.append_right_inj]

theorem within_of_mem {fields : List Field} {definition : MacroDefinition}
    (listed : definition ∈ fields.filterMap (ofConstant? host className)) :
    Within (isSymbolLetter · = true) definition.symbol ∧
      Within (isTemplateLetter · = true) definition.literal := by
  obtain ⟨field, _, shown⟩ := List.mem_filterMap.mp listed
  unfold ofConstant? at shown
  split at shown
  · obtain ⟨value, _, rfl⟩ := Option.map_eq_some_iff.mp shown
    refine ⟨within_append.mpr ⟨within_append.mpr ⟨?_, by decide⟩, ?_⟩, value.template_literal host⟩
    · exact SymbolRole.className.within_mangle className
    · exact SymbolRole.member.within_mangle field.name
  · cases shown

theorem isConstant_of_ofConstant? {field : Field} {definition : MacroDefinition}
    (shown : ofConstant? host className field = some definition) :
    field.isConstant = true ∧ definition.symbol = symbolOf className field.name := by
  unfold ofConstant? at shown
  split at shown
  · next staticFinal =>
    obtain ⟨value, present, rfl⟩ := Option.map_eq_some_iff.mp shown
    rw [Field.isConstant, staticFinal, present]
    exact ⟨rfl, rfl⟩
  · cases shown

theorem ofConstant?_ne_none {field : Field} (constant : field.isConstant = true) :
    ofConstant? host className field ≠ none := by
  rw [Field.isConstant, Bool.and_eq_true] at constant
  rw [ofConstant?, if_pos constant.1, ne_eq, Option.map_eq_none_iff]
  exact Option.isSome_iff_ne_none.mp constant.2

/-- No two names of constants share a macro. -/
def NamesApart (fields : List Field) : Prop :=
  ∀ first ∈ fields, ∀ second ∈ fields, first.isConstant = true → second.isConstant = true →
    SymbolRole.member.mangle first.name = SymbolRole.member.mangle second.name →
    first.name = second.name

/-- Every macro belongs to a constant. -/
theorem exists_of_foldl {fields : List Field} {symbol body : String}
    (found : (fields.filterMap (ofConstant? host className)).foldl addTo (fun _ => none) symbol =
      some body) :
    ∃ field ∈ fields, field.isConstant = true ∧ symbol = symbolOf className field.name := by
  rw [foldl_addTo, Option.or_none] at found
  obtain ⟨definition, listed, named⟩ := List.mem_filterMap.mp (List.mem_of_getLast? found)
  obtain ⟨field, fieldListed, shown⟩ := List.mem_filterMap.mp listed
  obtain ⟨constant, same⟩ := isConstant_of_ofConstant? shown
  unfold literalOf? at named
  split at named
  · next asked => exact ⟨field, fieldListed, constant, asked.symm.trans same⟩
  · cases named

/-- The macro of a name stands for the last constant of that name. -/
theorem foldl_ofConstant? {fields : List Field} (apart : NamesApart fields) {field : Field}
    (listed : field ∈ fields) (constant : field.isConstant = true) :
    (fields.filterMap (ofConstant? host className)).foldl addTo (fun _ => none)
        (symbolOf className field.name) =
      ((fields.filterMap (Field.constantNamed? field.name)).getLast?).map
        (Constant.literal host) := by
  rw [foldl_addTo, Option.or_none, ← List.getLast?_map, List.map_filterMap,
    List.filterMap_filterMap]
  refine congrArg List.getLast? (List.filterMap_congr fun other otherListed => ?_)
  by_cases staticFinal : other.isStaticFinal = true
  · cases present : other.constant with
    | none => simp [ofConstant?, Field.constantNamed?, present]
    | some value =>
      have otherConstant : other.isConstant = true := by
        rw [Field.isConstant, staticFinal, present]
        rfl
      have same : symbolOf className other.name = symbolOf className field.name ↔
          other.name = field.name := by
        rw [symbolOf_inj]
        exact ⟨apart other otherListed field listed otherConstant constant, congrArg _⟩
      simp only [ofConstant?, Field.constantNamed?, literalOf?, present, staticFinal, if_true,
        true_and, Option.map_some, Option.bind_some, same]
      split <;> rfl
  · simp [ofConstant?, Field.constantNamed?, staticFinal]

end MacroDefinition

namespace Peer

variable {model : ClassModel} {configuration : Configuration} {host : Host} {className : String}

/-- A field without a constant is passed over. -/
theorem bindConstants_cons {table : SymbolTable} {field : Field} {fields : List Field} :
    bindConstants host className table (field :: fields) =
      match MacroDefinition.ofConstant? host className field with
      | none => bindConstants host className table fields
      | some definition => do
        let next ← table.claim (SymbolRole.member.mangle field.name) field.name
        let definitions ← bindConstants host className next fields
        return definition :: definitions := by
  by_cases staticFinal : field.isStaticFinal = true
  · rw [bindConstants, if_pos staticFinal, MacroDefinition.ofField_eq_ok staticFinal]
    rfl
  · rw [bindConstants, if_neg staticFinal, MacroDefinition.ofConstant?, if_neg staticFinal]

/-- Each constant has a macro, and each name owns its macro. -/
theorem bindConstants_eq_ok {table : SymbolTable} {fields : List Field}
    {definitions : List MacroDefinition}
    (bound : bindConstants host className table fields = .ok definitions) :
    definitions = fields.filterMap (MacroDefinition.ofConstant? host className) ∧
      ∃ final, table.Extends final ∧ ∀ field ∈ fields, field.isConstant = true →
        final.owner? (SymbolRole.member.mangle field.name) = some field.name := by
  induction fields generalizing table definitions with
  | nil =>
    cases bound
    exact ⟨rfl, table, .refl table, List.forall_mem_nil _⟩
  | cons field fields inductionHypothesis =>
    rw [bindConstants_cons] at bound
    cases shown : MacroDefinition.ofConstant? host className field with
    | none =>
      rw [shown] at bound
      obtain ⟨same, final, extended, owners⟩ := inductionHypothesis bound
      rw [List.filterMap_cons_none shown]
      refine ⟨same, final, extended, List.forall_mem_cons.mpr ⟨fun constant => ?_, owners⟩⟩
      exact absurd shown (MacroDefinition.ofConstant?_ne_none constant)
    | some definition =>
      rw [shown] at bound
      obtain ⟨next, claimed, others, rest, same⟩ : ∃ next, table.claim _ _ = .ok next ∧ ∃ others,
          bindConstants host className next fields = .ok others ∧
          definition :: others = definitions := by
        simpa only [except_bind_eq_ok, pure, Except.pure, Except.ok.injEq] using bound
      obtain ⟨sameOthers, final, extended, owners⟩ := inductionHypothesis rest
      rw [List.filterMap_cons_some shown, ← sameOthers, same]
      refine ⟨rfl, final, (SymbolTable.extends_claim claimed).trans extended, ?_⟩
      refine List.forall_mem_cons.mpr ⟨fun _ => ?_, owners⟩
      exact extended _ _ (SymbolTable.owner?_claim claimed)

theorem constantsOf_eq_ok {declared : ManagedClass} {constants : List MacroDefinition}
    (emits : configuration.emitsConstants = true) :
    constantsOf model configuration declared = .ok constants ↔
      ∃ fields, model.flattenFields declared = .ok fields ∧
        bindConstants configuration.host declared.qualifiedName
          (.reserved declared.qualifiedName []) fields = .ok constants := by
  rw [constantsOf, if_pos emits]
  cases model.flattenFields declared with
  | error error => simp
  | ok fields => simp

/-- The constants of a peer are those of all fields of its class. -/
theorem constants_of_bind {declared : ManagedClass} {peer : Peer}
    (emits : configuration.emitsConstants = true)
    (bound : (bind model configuration declared).result = .ok peer) :
    ∃ fields, model.flattenFields declared = .ok fields ∧
      peer.constants = fields.filterMap
        (MacroDefinition.ofConstant? configuration.host declared.qualifiedName) ∧
      MacroDefinition.NamesApart fields := by
  obtain ⟨_, _, _, constantsBound, _⟩ := bind_binds bound
  obtain ⟨fields, flattened, macros⟩ := (constantsOf_eq_ok emits).mp constantsBound
  obtain ⟨definitions, final, _, owners⟩ := bindConstants_eq_ok macros
  refine ⟨fields, flattened, definitions, ?_⟩
  intro first firstListed second secondListed firstConstant secondConstant same
  have firstOwner := owners first firstListed firstConstant
  rw [same, owners second secondListed secondConstant] at firstOwner
  exact (Option.some_inj.mp firstOwner).symm

end Peer

namespace PeerSource

variable {model : ClassModel} {configuration : Configuration} {declared : ManagedClass}

/-- The header defines a macro for each name of a constant, with the constant of the class that is
nearest, and no other macro. Names that would share a macro are refused. -/
theorem render_constants (emits : configuration.emitsConstants = true) :
    (∀ source, (render model configuration declared).result = .ok source →
      ∃ chain fields, model.ancestry declared = .ok chain ∧
        model.flattenFields declared = .ok fields ∧
        (∀ first ∈ fields, ∀ second ∈ fields, first.isConstant = true → second.isConstant = true →
          first.name ≠ second.name →
          MacroDefinition.symbolOf declared.qualifiedName first.name ≠
            MacroDefinition.symbolOf declared.qualifiedName second.name) ∧
        ((∀ home, Peer.homeOf configuration declared = .ok home →
          ∀ segment ∈ home.segments, '\n' ∉ segment.toList) →
          ∃ table, MacroTable.ofFile? configuration.host source.header = some table ∧
            (∀ field ∈ fields, field.isConstant = true → ∃ value,
              constantNamed? chain field.name = some value ∧
              table (MacroDefinition.symbolOf declared.qualifiedName field.name) =
                some (value.literal configuration.host)) ∧
            ∀ symbol body, table symbol = some body → ∃ field ∈ fields, field.isConstant = true ∧
              symbol = MacroDefinition.symbolOf declared.qualifiedName field.name)) ∧
    ∀ fields, model.flattenFields declared = .ok fields →
      ∀ first ∈ fields, ∀ second ∈ fields, first.isConstant = true → second.isConstant = true →
        first.name ≠ second.name →
        SymbolRole.member.mangle first.name = SymbolRole.member.mangle second.name →
        ∃ error, (render model configuration declared).result = .error error := by
  constructor
  · intro source rendered
    obtain ⟨peer, bound, rfl⟩ := render_eq_ok.mp rendered
    obtain ⟨fields, flattened, definitions, apart⟩ := Peer.constants_of_bind emits bound
    obtain ⟨chain, walked, rfl⟩ := ClassModel.flattenFields_eq_ok.mp flattened
    refine ⟨chain, _, walked, flattened, ?_, fun unbroken =>
      ⟨peer.constants.foldl MacroDefinition.addTo fun _ => none, ?_, ?_, ?_⟩⟩
    · intro first firstListed second secondListed firstConstant secondConstant different same
      exact different (apart first firstListed second secondListed firstConstant secondConstant
        (MacroDefinition.symbolOf_inj.mp same))
    · obtain ⟨_, _, housed, _, _⟩ := Peer.bind_binds bound
      refine Peer.ofFile?_declaration (Peer.isSymbolic_of_bind bound) ?_
        (unbroken peer.home housed) configuration.host
      rw [definitions]
      exact fun definition => MacroDefinition.within_of_mem
    · intro field listed constant
      obtain ⟨value, nearest⟩ := exists_constantNamed? listed constant
      refine ⟨value, nearest, ?_⟩
      rw [definitions, MacroDefinition.foldl_ofConstant? apart listed constant,
        getLast?_flatten, nearest, Option.map_some]
    · intro symbol body found
      rw [definitions] at found
      exact MacroDefinition.exists_of_foldl found
  · intro fields flattened first firstListed second secondListed firstConstant secondConstant
      different same
    cases result : (render model configuration declared).result with
    | error error => exact ⟨error, rfl⟩
    | ok source =>
      obtain ⟨peer, bound, _⟩ := render_eq_ok.mp result
      obtain ⟨others, otherFlattened, _, apart⟩ := Peer.constants_of_bind emits bound
      cases flattened.symm.trans otherFlattened
      exact absurd (apart first firstListed second secondListed firstConstant secondConstant same)
        different

/-- This configuration asks for the constants. -/
def emitting : Configuration := { outputDirectory := "out", emitsConstants := true }

def hiddenVehicle : ManagedClass :=
  { ManagedClass.named "a.Vehicle" with
    fields := [⟨"LIMIT", .primitive .int, true, true, some (.int 50)⟩,
      ⟨"WHEELS", .primitive .byte, true, true, some (.byte 4)⟩] }

def hidingModel : ClassModel where
  classes := ClassModel.runtime.classes ++ [hiddenVehicle]
  distinct := by decide

/-- This class hides one of the two constants of its parent. -/
def hidingCar : ManagedClass :=
  { ManagedClass.named "a.Car" with
    isTagged := true
    home := Namespace.parse? "N"
    parent := some "a.Vehicle"
    fields := [⟨"colour", .string, false, false, none⟩,
      ⟨"LIMIT", .primitive .long, true, true, some (.long 90)⟩] }

/-- The names of the two constants have one mangled form. -/
def clashingCar : ManagedClass :=
  { hidingCar with
    parent := none
    fields := [⟨"a.b", .primitive .int, true, true, some (.int 1)⟩,
      ⟨"a_0002eb", .primitive .int, true, true, some (.int 1)⟩] }

theorem render_constants_hiding :
    (∃ source table, (render hidingModel emitting hidingCar).result = .ok source ∧
      MacroTable.ofFile? .unix source.header = some table ∧
      table "a_Car_LIMIT" = some "90LL" ∧ table "a_Car_WHEELS" = some "4L") ∧
    ∃ error, (render hidingModel emitting clashingCar).result = .error error := by
  have succeeds : ((render hidingModel emitting hidingCar).result.toOption).isSome = true := by
    decide +kernel
  obtain ⟨source, found⟩ := Option.isSome_iff_exists.mp succeeds
  have succeeded := toOption_eq_some.mp found
  have ancestors : (hidingModel.ancestry hidingCar).toOption = some [hidingCar, hiddenVehicle] := by
    decide +kernel
  obtain ⟨chain, fields, walked, flattened, _, tabled⟩ := (render_constants rfl).1 source succeeded
  obtain ⟨table, read, constants, _⟩ := tabled (by
    intro home housed
    cases housed
    decide)
  cases walked.symm.trans (toOption_eq_some.mp ancestors)
  obtain ⟨_, walkedAgain, rfl⟩ := ClassModel.flattenFields_eq_ok.mp flattened
  cases walked.symm.trans walkedAgain
  obtain ⟨limit, limitNamed, limitShown⟩ := constants
    ⟨"LIMIT", .primitive .long, true, true, some (.long 90)⟩ (by decide) rfl
  obtain ⟨wheels, wheelsNamed, wheelsShown⟩ := constants
    ⟨"WHEELS", .primitive .byte, true, true, some (.byte 4)⟩ (by decide) rfl
  cases limitNamed
  cases wheelsNamed
  have limitSpelled : MacroDefinition.symbolOf hidingCar.qualifiedName "LIMIT" = "a_Car_LIMIT" ∧
      (Constant.long 90).literal .unix = "90LL" := by decide +kernel
  have wheelsSpelled : MacroDefinition.symbolOf hidingCar.qualifiedName "WHEELS" = "a_Car_WHEELS" ∧
      (Constant.byte 4).literal .unix = "4L" := by decide +kernel
  refine ⟨⟨source, table, succeeded, read, ?_, ?_⟩, ?_⟩
  · rw [← limitSpelled.1, ← limitSpelled.2]
    exact limitShown
  · rw [← wheelsSpelled.1, ← wheelsSpelled.2]
    exact wheelsShown
  · have own : (hidingModel.flattenFields clashingCar).toOption = some clashingCar.fields := by
      decide +kernel
    exact (render_constants rfl).2 _ (toOption_eq_some.mp own) _ (List.mem_cons_self) _
      (List.mem_cons_of_mem _ List.mem_cons_self) rfl rfl (by decide) (by decide)

/-- The one segment of this namespace goes on for three lines. -/
def brokenHome : Configuration :=
  { emitting with home := Namespace.ofSegments? ["N\n#define X 1\nM"] }

def plainCar : ManagedClass :=
  { ManagedClass.named "a.Car" with
    isTagged := true
    home := Namespace.parse? "M" }

theorem render_constants_needs_unbroken :
    brokenHome.emitsConstants = true ∧
      ∃ source table, (render .runtime brokenHome plainCar).result = .ok source ∧
        ClassModel.runtime.flattenFields plainCar = .ok [] ∧
        MacroTable.ofFile? .unix source.header = some table ∧ table "X" = some "1" := by
  have defined : ((render .runtime brokenHome plainCar).result.toOption.bind fun source =>
      (MacroTable.ofFile? .unix source.header).bind fun table => table "X") = some "1" := by
    decide +kernel
  have flattened : (ClassModel.runtime.flattenFields plainCar).toOption = some [] := by
    decide +kernel
  obtain ⟨source, found, rest⟩ := Option.bind_eq_some_iff.mp defined
  obtain ⟨table, read, shown⟩ := Option.bind_eq_some_iff.mp rest
  exact ⟨rfl, source, table, toOption_eq_some.mp found, toOption_eq_some.mp flattened, read, shown⟩

end PeerSource

end NativePeer
