import Mathlib.Data.List.Forall2
import NativePeer.Proofs.Document.Likeness
import NativePeer.Proofs.Document.Position

/-
This file says what class an element with its content describes, and what is wrong with it.
-/

namespace NativePeer

namespace Document

open Markup

/-- The elements that stand side by side, each with its content. -/
def Forest.children : Forest → List (Tag × Forest)
  | nil => []
  | content rest => rest.children
  | selfClosing tag rest => (tag, nil) :: rest.children
  | element tag inside rest => (tag, inside) :: rest.children

def elementsNamed (name : String) (elements : List (Tag × Forest)) : List (Tag × Forest) :=
  elements.filter fun element => element.1.name = name

def attributesOf (element : Tag × Forest) : List (String × String) :=
  Attribute.pairs element.1.attributes

/-- The elements have these parameters, one for each parameter element. -/
structure HaveParameters (elements : List (Tag × Forest)) (parameters : List Parameter) :
    Prop where
  read : List.Forall₂
    (fun element parameter => readParameter (attributesOf element) = .ok parameter)
    (elementsNamed "param" elements) parameters
  distinct : (parameters.map Parameter.name).Nodup

/-- The element describes the method by its attributes and its direct children. -/
structure IsMethodOf (element : Tag × Forest) (method : Method) : Prop where
  header : readMethod (attributesOf element) = .ok { method with parameters := [] }
  parameters : HaveParameters element.2.children method.parameters

/-- The elements have these members, one field for each field element and one method for each
method element. -/
structure HaveMembers (elements : List (Tag × Forest)) (fields : List Field)
    (methods : List Method) : Prop where
  readFields : List.Forall₂ (fun element field => readField (attributesOf element) = .ok field)
    (elementsNamed "field" elements) fields
  distinct : (fields.map Field.name).Nodup
  readMethods : List.Forall₂ IsMethodOf (elementsNamed "method" elements) methods

/-- The element describes the class by its attributes and its direct children. -/
structure IsClassOf (element : Tag × Forest) (declared : ManagedClass) : Prop where
  header : readClass (attributesOf element) = .ok { declared with fields := [], methods := [] }
  members : HaveMembers element.2.children declared.fields declared.methods

/-- The first parameter element that is at fault cannot be read or repeats a name. -/
inductive ParameterFault (methodName : String) (elements : List (Tag × Forest)) :
    DocumentError → Prop where
  | unreadable {before after : List (Tag × Forest)} {element : Tag × Forest}
    {given : List Parameter} {error : DocumentError}
    (split : elements = before ++ element :: after) (earlier : HaveParameters before given)
    (named : element.1.name = "param")
    (failed : readParameter (attributesOf element) = .error error) :
    ParameterFault methodName elements error
  | repeated {before after : List (Tag × Forest)} {element : Tag × Forest}
    {given : List Parameter} {parameter : Parameter}
    (split : elements = before ++ element :: after) (earlier : HaveParameters before given)
    (named : element.1.name = "param")
    (read : readParameter (attributesOf element) = .ok parameter)
    (taken : parameter.name ∈ given.map Parameter.name) :
    ParameterFault methodName elements (.duplicate (.parameter methodName parameter.name))

inductive MethodFault (element : Tag × Forest) (error : DocumentError) : Prop where
  | header (failed : readMethod (attributesOf element) = .error error)
  | parameter {header : Method} (read : readMethod (attributesOf element) = .ok header)
    (fault : ParameterFault header.name element.2.children error)

/-- A member element is at fault after members that are in order. -/
inductive MemberFault (className : String) (fields : List Field) (element : Tag × Forest) :
    DocumentError → Prop where
  | method {error : DocumentError} (named : element.1.name = "method")
    (fault : MethodFault element error) : MemberFault className fields element error
  | field {error : DocumentError} (named : element.1.name = "field")
    (failed : readField (attributesOf element) = .error error) :
    MemberFault className fields element error
  | repeated {field : Field} (named : element.1.name = "field")
    (read : readField (attributesOf element) = .ok field)
    (taken : field.name ∈ fields.map Field.name) :
    MemberFault className fields element (.duplicate (.field className field.name))

/-- The class element is at fault itself or in the first of its children that is. -/
inductive ClassFault (element : Tag × Forest) (error : DocumentError) : Prop where
  | header (failed : readClass (attributesOf element) = .error error)
  | member {header : ManagedClass} {before after : List (Tag × Forest)} {child : Tag × Forest}
    {fields : List Field} {methods : List Method}
    (read : readClass (attributesOf element) = .ok header)
    (split : element.2.children = before ++ child :: after)
    (earlier : HaveMembers before fields methods)
    (fault : MemberFault header.qualifiedName fields child error)

namespace Forest

theorem parameters_eq_foldlM (forest : Forest) (method : Method) :
    forest.parameters method =
      forest.children.foldlM (fun longer child => parameterOf longer 0 child.1) method := by
  induction forest generalizing method with
  | nil => rfl
  | content rest inductionHypothesis => exact inductionHypothesis method
  | selfClosing tag rest inductionHypothesis | element tag _ rest _ inductionHypothesis =>
    rw [parameters, children, List.foldlM_cons]
    congr 1
    funext longer
    exact inductionHypothesis longer

theorem members_eq_foldlM (forest : Forest) (current : ManagedClass) :
    forest.members current =
      forest.children.foldlM (fun longer child => memberOf longer child.1 child.2) current := by
  induction forest generalizing current with
  | nil => rfl
  | content rest inductionHypothesis => exact inductionHypothesis current
  | selfClosing tag rest inductionHypothesis | element tag _ rest _ inductionHypothesis =>
    rw [members, children, List.foldlM_cons]
    congr 1
    funext longer
    exact inductionHypothesis longer

end Forest

variable {pairs : List (String × String)}

theorem readMethod_parameters {method : Method} (read : readMethod pairs = .ok method) :
    method.parameters = [] := by
  unfold readMethod at read
  simp only [except_bind_eq_ok] at read
  obtain ⟨_, _, _, _, _, _, same⟩ := read
  cases same
  rfl

theorem readClass_members {declared : ManagedClass} (read : readClass pairs = .ok declared) :
    declared.fields = [] ∧ declared.methods = [] := by
  unfold readClass at read
  simp only [except_bind_eq_ok] at read
  obtain ⟨_, _, _, _, rest⟩ := read
  split at rest <;> cases rest
  exact ⟨rfl, rfl⟩

theorem elementsNamed_cons_of_eq {name : String} {element : Tag × Forest}
    (named : element.1.name = name) (elements : List (Tag × Forest)) :
    elementsNamed name (element :: elements) = element :: elementsNamed name elements :=
  List.filter_cons_of_pos (by simpa using named)

theorem elementsNamed_cons_of_ne {name : String} {element : Tag × Forest}
    (other : element.1.name ≠ name) (elements : List (Tag × Forest)) :
    elementsNamed name (element :: elements) = elementsNamed name elements :=
  List.filter_cons_of_neg (by simpa using other)

theorem nodup_names_concat {A : Type} {name : A → String} {given : List A} {value : A} :
    ((given ++ [value]).map name).Nodup ↔
      (given.map name).Nodup ∧ name value ∉ given.map name := by
  simp [List.nodup_append]

section Fresh

variable {A V S : Type} {reads : A → V → Prop} {name : V → String}

/-- The values of some elements, one for each, that come after given values under fresh names. -/
structure AddedBy (reads : A → V → Prop) (name : V → String) (elements : List A)
    (given added : List V) : Prop where
  read : List.Forall₂ reads elements added
  distinct : ((given ++ added).map name).Nodup

variable {elements : List A} {given added : List V}

theorem addedBy_nil (distinct : (given.map name).Nodup) :
    AddedBy reads name [] given added ↔ added = [] := by
  constructor
  · intro values
    exact List.forall₂_nil_left_iff.mp values.read
  · rintro rfl
    exact ⟨.nil, by rwa [List.append_nil]⟩

/-- The first value has a name that is not given, and the others come after it. -/
theorem exists_addedBy_cons {element : A} {P : List V → Prop} :
    (∃ added, AddedBy reads name (element :: elements) given added ∧ P added) ↔
      ∃ value, reads element value ∧ name value ∉ given.map name ∧
        ∃ rest, AddedBy reads name elements (given ++ [value]) rest ∧ P (value :: rest) := by
  constructor
  · rintro ⟨_, ⟨_ | ⟨read, others⟩, whole⟩, holds⟩
    rename_i value rest
    rw [List.append_cons] at whole
    have longer : ((given ++ [value]).map name).Nodup := by
      rw [List.map_append] at whole
      exact (List.nodup_append.mp whole).1
    exact ⟨value, read, (nodup_names_concat.mp longer).2, rest, ⟨others, whole⟩, holds⟩
  · rintro ⟨value, read, _, rest, others, holds⟩
    refine ⟨_, ⟨.cons read others.read, ?_⟩, holds⟩
    rw [List.append_cons]
    exact others.distinct

variable {reading : Except DocumentError V} {cause : V → DocumentError} {grow : V → S}

/-- A value is added if it can be read and its name is not taken. -/
theorem add_fresh_bind_eq_ok {B : Type} {next : S → Except DocumentError B} {result : B} :
    (reading >>= fun value => if name value ∈ given.map name then .error (cause value)
        else .ok (grow value)) >>= next = .ok result ↔
      ∃ value, reading = .ok value ∧ name value ∉ given.map name ∧
        next (grow value) = .ok result := by
  rw [bind_assoc, except_bind_eq_ok]
  refine exists_congr fun value => and_congr_right fun _ => ?_
  by_cases taken : name value ∈ given.map name
  · rw [if_pos taken]
    exact ⟨nofun, fun both => (both.1 taken).elim⟩
  · rw [if_neg taken, except_ok_bind]
    exact (and_iff_right taken).symm

theorem add_fresh_eq_error {error : DocumentError} :
    (reading >>= fun value =>
        if name value ∈ given.map name then .error (cause value) else .ok (grow value)) =
      .error error ↔ reading = .error error ∨
      ∃ value, reading = .ok value ∧ name value ∈ given.map name ∧ error = cause value := by
  rw [except_bind_eq_error]
  refine or_congr_right (exists_congr fun value => and_congr_right fun _ => ?_)
  by_cases taken : name value ∈ given.map name
  · rw [if_pos taken]
    exact ⟨fun same => ⟨taken, (Except.error.inj same).symm⟩, fun both => by rw [both.2]⟩
  · rw [if_neg taken]
    exact ⟨nofun, fun both => (taken both.1).elim⟩

end Fresh

section Parameters

variable {method longer : Method} {tag : Tag}

theorem parameterOf_other (other : tag.name ≠ "param") : parameterOf method 0 tag = .ok method :=
  if_neg fun both => other both.2

theorem parameterOf_bind_eq_ok {B : Type} {next : Method → Except DocumentError B} {result : B}
    (named : tag.name = "param") :
    parameterOf method 0 tag >>= next = .ok result ↔ ∃ parameter,
      readParameter (Attribute.pairs tag.attributes) = .ok parameter ∧
        parameter.name ∉ method.parameters.map Parameter.name ∧
          next { method with parameters := method.parameters ++ [parameter] } = .ok result := by
  rw [parameterOf, if_pos ⟨rfl, named⟩]
  exact add_fresh_bind_eq_ok

theorem parameterOf_eq_error {error : DocumentError} (named : tag.name = "param") :
    parameterOf method 0 tag = .error error ↔
      readParameter (Attribute.pairs tag.attributes) = .error error ∨ ∃ parameter,
        readParameter (Attribute.pairs tag.attributes) = .ok parameter ∧
          parameter.name ∈ method.parameters.map Parameter.name ∧
            error = .duplicate (.parameter method.name parameter.name) := by
  rw [parameterOf, if_pos ⟨rfl, named⟩]
  exact add_fresh_eq_error

/-- An element describes a parameter by its attributes. -/
def IsParameterOf (element : Tag × Forest) (parameter : Parameter) : Prop :=
  readParameter (attributesOf element) = .ok parameter

/-- A method gets one more parameter for each parameter element. -/
theorem foldlM_parameterOf_eq_ok {elements : List (Tag × Forest)}
    (distinct : (method.parameters.map Parameter.name).Nodup) :
    elements.foldlM (fun longer child => parameterOf longer 0 child.1) method = .ok longer ↔
      ∃ added, AddedBy IsParameterOf Parameter.name (elementsNamed "param" elements)
          method.parameters added ∧
        longer = { method with parameters := method.parameters ++ added } := by
  -- The method holds the parameters so far, so it changes with every element.
  induction elements generalizing method with
  | nil =>
    simp only [elementsNamed, List.filter_nil, addedBy_nil distinct, exists_eq_left,
      List.append_nil]
    exact ⟨fun same => (Except.ok.inj same).symm, congrArg Except.ok ∘ Eq.symm⟩
  | cons element elements inductionHypothesis =>
    rw [List.foldlM_cons]
    by_cases named : element.1.name = "param"
    · rw [parameterOf_bind_eq_ok named, elementsNamed_cons_of_eq named, exists_addedBy_cons]
      refine exists_congr fun parameter => and_congr_right fun _ => and_congr_right fun fresh => ?_
      simpa only [List.append_assoc, List.singleton_append] using
        @inductionHypothesis { method with parameters := method.parameters ++ [parameter] }
          (nodup_names_concat.mpr ⟨distinct, fresh⟩)
    · rw [elementsNamed_cons_of_ne named, parameterOf_other named, except_ok_bind]
      exact inductionHypothesis distinct

end Parameters

section Methods

/-- The method of an element with its parameters. -/
def methodOf (element : Tag × Forest) : Except DocumentError Method := do
  let header ← readMethod (attributesOf element)
  element.2.parameters header

variable {element : Tag × Forest}

theorem foldlM_parameterOf_bare {elements : List (Tag × Forest)} {header method : Method}
    (bare : header.parameters = []) :
    elements.foldlM (fun longer child => parameterOf longer 0 child.1) header = .ok method ↔
      HaveParameters elements method.parameters ∧ header = { method with parameters := [] } := by
  rw [foldlM_parameterOf_eq_ok (by rw [bare]; exact List.nodup_nil), bare]
  constructor
  · rintro ⟨added, ⟨read, distinct⟩, rfl⟩
    exact ⟨⟨read, distinct⟩, by rw [← bare]⟩
  · rintro ⟨⟨read, distinct⟩, rfl⟩
    exact ⟨method.parameters, ⟨read, distinct⟩, rfl⟩

theorem methodOf_eq_ok {method : Method} :
    methodOf element = .ok method ↔ IsMethodOf element method := by
  rw [methodOf, except_bind_eq_ok]
  constructor
  · rintro ⟨header, read, rest⟩
    rw [Forest.parameters_eq_foldlM, foldlM_parameterOf_bare (readMethod_parameters read)] at rest
    exact ⟨rest.2 ▸ read, rest.1⟩
  · rintro ⟨header, parameters⟩
    refine ⟨_, header, ?_⟩
    rw [Forest.parameters_eq_foldlM, foldlM_parameterOf_bare rfl]
    exact ⟨parameters, rfl⟩

theorem parameters_eq_error {header : Method} {error : DocumentError} {content : Forest}
    (bare : header.parameters = []) :
    content.parameters header = .error error ↔
      ParameterFault header.name content.children error := by
  rw [Forest.parameters_eq_foldlM, foldlM_eq_error]
  constructor
  · rintro ⟨before, child, after, middle, split, earlier, failed⟩
    obtain ⟨given, same⟩ := (foldlM_parameterOf_bare bare).mp earlier
    have sameName : header.name = middle.name := by rw [same]
    by_cases named : child.1.name = "param"
    · rcases (parameterOf_eq_error named).mp failed with
        unreadable | ⟨parameter, read, taken, rfl⟩
      · exact .unreadable split given named unreadable
      · rw [← sameName]
        exact .repeated split given named read taken
    · rw [parameterOf_other named] at failed
      cases failed
  · intro fault
    have found {before : List (Tag × Forest)} {given : List Parameter}
        (earlier : HaveParameters before given) :
        before.foldlM (fun longer child => parameterOf longer 0 child.1) header =
          .ok { header with parameters := given } :=
      (foldlM_parameterOf_bare bare).mpr ⟨earlier, by rw [← bare]⟩
    cases fault with
    | unreadable split earlier named failed =>
      exact ⟨_, _, _, _, split, found earlier, (parameterOf_eq_error named).mpr (.inl failed)⟩
    | repeated split earlier named read taken =>
      exact ⟨_, _, _, _, split, found earlier,
        (parameterOf_eq_error named).mpr (.inr ⟨_, read, taken, rfl⟩)⟩

theorem methodOf_eq_error {error : DocumentError} :
    methodOf element = .error error ↔ MethodFault element error := by
  rw [methodOf, except_bind_eq_error]
  constructor
  · rintro (failed | ⟨header, read, failed⟩)
    · exact .header failed
    · exact .parameter read ((parameters_eq_error (readMethod_parameters read)).mp failed)
  · rintro (failed | ⟨read, fault⟩)
    · exact .inl failed
    · exact .inr ⟨_, read, (parameters_eq_error (readMethod_parameters read)).mpr fault⟩

end Methods

section Members

variable {current longer : ManagedClass} {child : Tag × Forest}

theorem memberOf_method (named : child.1.name = "method") :
    Forest.memberOf current child.1 child.2 = (methodOf child).map (addMethod current) := by
  rw [Forest.memberOf, if_pos named, methodOf, attributesOf]
  cases readMethod (Attribute.pairs child.1.attributes) with
  | error error => rfl
  | ok header =>
    rw [except_ok_bind, except_ok_bind]
    cases child.2.parameters header <;> rfl

theorem memberOf_field (named : child.1.name = "field") :
    Forest.memberOf current child.1 child.2 = fieldOf current child.1 := by
  rw [Forest.memberOf, if_neg (by rw [named]; decide), if_pos named]

theorem memberOf_other (noMethod : child.1.name ≠ "method") (noField : child.1.name ≠ "field") :
    Forest.memberOf current child.1 child.2 = .ok current := by
  rw [Forest.memberOf, if_neg noMethod, if_neg noField]

theorem fieldOf_bind_eq_ok {B : Type} {next : ManagedClass → Except DocumentError B} {result : B}
    {tag : Tag} :
    fieldOf current tag >>= next = .ok result ↔ ∃ field,
      readField (Attribute.pairs tag.attributes) = .ok field ∧
        field.name ∉ current.fields.map Field.name ∧
          next { current with fields := current.fields ++ [field] } = .ok result :=
  add_fresh_bind_eq_ok

theorem fieldOf_eq_error {tag : Tag} {error : DocumentError} :
    fieldOf current tag = .error error ↔
      readField (Attribute.pairs tag.attributes) = .error error ∨ ∃ field,
        readField (Attribute.pairs tag.attributes) = .ok field ∧
          field.name ∈ current.fields.map Field.name ∧
            error = .duplicate (.field current.qualifiedName field.name) :=
  add_fresh_eq_error

/-- An element describes a field by its attributes. -/
def IsFieldOf (element : Tag × Forest) (field : Field) : Prop :=
  readField (attributesOf element) = .ok field

theorem memberOf_method_bind_eq_ok {B : Type} {next : ManagedClass → Except DocumentError B}
    {result : B} (named : child.1.name = "method") :
    Forest.memberOf current child.1 child.2 >>= next = .ok result ↔
      ∃ method, IsMethodOf child method ∧ next (addMethod current method) = .ok result := by
  rw [memberOf_method named, except_bind_eq_ok]
  simp only [except_map_eq_ok, methodOf_eq_ok]
  constructor
  · rintro ⟨_, ⟨method, read, rfl⟩, rest⟩
    exact ⟨method, read, rest⟩
  · rintro ⟨method, read, rest⟩
    exact ⟨_, ⟨method, read, rfl⟩, rest⟩

/-- A class gets one more member for each member element. -/
theorem foldlM_memberOf_eq_ok {elements : List (Tag × Forest)}
    (distinct : (current.fields.map Field.name).Nodup) :
    elements.foldlM (fun longer child => Forest.memberOf longer child.1 child.2) current =
        .ok longer ↔
      ∃ fields,
        AddedBy IsFieldOf Field.name (elementsNamed "field" elements) current.fields fields ∧
          ∃ methods, List.Forall₂ IsMethodOf (elementsNamed "method" elements) methods ∧
            longer = { current with
              fields := current.fields ++ fields
              methods := current.methods ++ methods } := by
  induction elements generalizing current with
  | nil =>
    simp only [elementsNamed, List.filter_nil, addedBy_nil distinct, List.forall₂_nil_left_iff,
      exists_eq_left, List.append_nil]
    exact ⟨fun same => (Except.ok.inj same).symm, congrArg Except.ok ∘ Eq.symm⟩
  | cons element elements inductionHypothesis =>
    rw [List.foldlM_cons]
    by_cases isMethod : element.1.name = "method"
    · have noField : element.1.name ≠ "field" := by rw [isMethod]; decide
      have grown (method : Method) :=
        @inductionHypothesis (addMethod current method) distinct
      rw [memberOf_method_bind_eq_ok isMethod, elementsNamed_cons_of_eq isMethod,
        elementsNamed_cons_of_ne noField]
      constructor
      · rintro ⟨method, read, rest⟩
        obtain ⟨fields, others, methods, readMethods, rfl⟩ := (grown method).mp rest
        refine ⟨fields, others, method :: methods, .cons read readMethods, ?_⟩
        rw [List.append_cons current.methods]
        rfl
      · rintro ⟨fields, others, _, _ | ⟨read, readMethods⟩, rfl⟩
        rename_i method methods
        refine ⟨method, read, (grown method).mpr ⟨fields, others, methods, readMethods, ?_⟩⟩
        rw [List.append_cons current.methods]
        rfl
    · rw [elementsNamed_cons_of_ne isMethod]
      by_cases isField : element.1.name = "field"
      · rw [memberOf_field isField, fieldOf_bind_eq_ok, elementsNamed_cons_of_eq isField,
          exists_addedBy_cons]
        refine exists_congr fun field => and_congr_right fun _ => and_congr_right fun fresh => ?_
        simpa only [List.append_assoc, List.singleton_append] using
          @inductionHypothesis { current with fields := current.fields ++ [field] }
            (nodup_names_concat.mpr ⟨distinct, fresh⟩)
      · rw [elementsNamed_cons_of_ne isField, memberOf_other isMethod isField, except_ok_bind]
        exact inductionHypothesis distinct

theorem foldlM_memberOf_bare {elements : List (Tag × Forest)} {header declared : ManagedClass}
    (fieldless : header.fields = []) (methodless : header.methods = []) :
    elements.foldlM (fun longer child => Forest.memberOf longer child.1 child.2) header =
        .ok declared ↔
      HaveMembers elements declared.fields declared.methods ∧
        header = { declared with fields := [], methods := [] } := by
  rw [foldlM_memberOf_eq_ok (by rw [fieldless]; exact List.nodup_nil), fieldless, methodless]
  constructor
  · rintro ⟨fields, ⟨readFields, distinct⟩, methods, readMethods, rfl⟩
    exact ⟨⟨readFields, distinct, readMethods⟩, by rw [← fieldless, ← methodless]⟩
  · rintro ⟨members, rfl⟩
    exact ⟨_, ⟨members.readFields, members.distinct⟩, _, members.readMethods, rfl⟩

theorem memberOf_eq_error {error : DocumentError} :
    Forest.memberOf current child.1 child.2 = .error error ↔
      MemberFault current.qualifiedName current.fields child error := by
  constructor
  · intro failed
    by_cases isMethod : child.1.name = "method"
    · rw [memberOf_method isMethod] at failed
      cases complete : methodOf child with
      | error cause =>
        rw [complete] at failed
        cases failed
        exact .method isMethod (methodOf_eq_error.mp complete)
      | ok method => rw [complete] at failed; cases failed
    · by_cases isField : child.1.name = "field"
      · rw [memberOf_field isField] at failed
        rcases fieldOf_eq_error.mp failed with unreadable | ⟨field, read, taken, rfl⟩
        · exact .field isField unreadable
        · exact .repeated isField read taken
      · rw [memberOf_other isMethod isField] at failed
        cases failed
  · intro fault
    cases fault with
    | method named fault =>
      rw [memberOf_method named, methodOf_eq_error.mpr fault]
      rfl
    | field named failed => rw [memberOf_field named, fieldOf_eq_error.mpr (.inl failed)]
    | repeated named read taken =>
      rw [memberOf_field named, fieldOf_eq_error.mpr (.inr ⟨_, read, taken, rfl⟩)]

end Members

section Classes

variable {element : Tag × Forest}

/-- A class is read exactly if its element describes it. -/
theorem declaredBy_eq_ok {declared : ManagedClass} :
    Forest.declaredBy element.1 element.2 = .ok declared ↔ IsClassOf element declared := by
  rw [Forest.declaredBy, except_bind_eq_ok]
  constructor
  · rintro ⟨header, read, rest⟩
    obtain ⟨fieldless, methodless⟩ := readClass_members read
    rw [Forest.members_eq_foldlM, foldlM_memberOf_bare fieldless methodless] at rest
    exact ⟨rest.2 ▸ read, rest.1⟩
  · rintro ⟨header, members⟩
    refine ⟨_, header, ?_⟩
    rw [Forest.members_eq_foldlM, foldlM_memberOf_bare rfl rfl]
    exact ⟨members, rfl⟩

/-- A class is refused exactly for the fault that its element has first. -/
theorem declaredBy_eq_error {error : DocumentError} :
    Forest.declaredBy element.1 element.2 = .error error ↔ ClassFault element error := by
  rw [Forest.declaredBy, except_bind_eq_error]
  constructor
  · rintro (failed | ⟨header, read, failed⟩)
    · exact .header failed
    · rw [Forest.members_eq_foldlM, foldlM_eq_error] at failed
      obtain ⟨before, child, after, middle, split, earlier, refused⟩ := failed
      obtain ⟨fieldless, methodless⟩ := readClass_members read
      obtain ⟨members, same⟩ := (foldlM_memberOf_bare fieldless methodless).mp earlier
      have sameName : header.qualifiedName = middle.qualifiedName := by rw [same]
      exact .member read split members (sameName ▸ memberOf_eq_error.mp refused)
  · rintro (failed | ⟨read, split, earlier, fault⟩)
    · exact .inl failed
    · rename_i header before after child fields methods
      obtain ⟨fieldless, methodless⟩ := readClass_members read
      refine .inr ⟨header, read, ?_⟩
      rw [Forest.members_eq_foldlM, foldlM_eq_error]
      exact ⟨before, child, after, { header with fields := fields, methods := methods }, split,
        (foldlM_memberOf_bare fieldless methodless).mpr
          ⟨earlier, by rw [← fieldless, ← methodless]⟩,
        memberOf_eq_error.mpr fault⟩

end Classes

end Document

end NativePeer
