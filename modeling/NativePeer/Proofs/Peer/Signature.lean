import NativePeer.Proofs.Native.Descriptor
import NativePeer.Proofs.Peer.Lines

/-
This file shows that the prototype, the definition, the descriptor and the call of a method agree.
-/

namespace NativePeer

open Text

/-- What native code and the runtime call a primitive. -/
structure PrimitiveForm where
  letter : Char
  native : String
  word : String
  deriving DecidableEq

def primitiveForms : List PrimitiveForm :=
  [⟨'Z', "jboolean", "Boolean"⟩, ⟨'B', "jbyte", "Byte"⟩, ⟨'C', "jchar", "Char"⟩,
    ⟨'S', "jshort", "Short"⟩, ⟨'I', "jint", "Int"⟩, ⟨'J', "jlong", "Long"⟩,
    ⟨'F', "jfloat", "Float"⟩, ⟨'D', "jdouble", "Double"⟩]

/-- The native types of a single object. -/
def referenceNames : List String :=
  ["jstring", "jthrowable", "jclass", "jobject"]

/-- Whether a descriptor describes values of a native type. -/
inductive Agrees : List Char → String → Prop
  | void : Agrees ['V'] "void"
  | primitive {form : PrimitiveForm} (listed : form ∈ primitiveForms) :
    Agrees [form.letter] form.native
  | primitiveArray {form : PrimitiveForm} (listed : form ∈ primitiveForms) :
    Agrees ['[', form.letter] (form.native ++ "Array")
  | arrays (rest : List Char) : Agrees ('[' :: '[' :: rest) "jobjectArray"
  | references (rest : List Char) : Agrees ('[' :: 'L' :: rest) "jobjectArray"
  | reference {name : String} (listed : name ∈ referenceNames) (rest : List Char) :
    Agrees ('L' :: rest) name

/-- The word for what a method returns inside the name of an invocation function. -/
def resultWord (descriptor : List Char) : String :=
  if descriptor = ['V'] then "Void"
  else match primitiveForms.find? fun form => descriptor = [form.letter] with
    | some form => form.word
    | none => "Object"

/-- The native types that a plain object is cast to. -/
def castNames : List String :=
  "jthrowable" :: "jclass" :: "jobjectArray" ::
    primitiveForms.map fun form => form.native ++ "Array"

def Primitive.form (kind : Primitive) : PrimitiveForm :=
  ⟨kind.code, "j" ++ kind.name, kind.capitalName⟩

theorem Primitive.form_mem (kind : Primitive) : kind.form ∈ primitiveForms := by
  cases kind <;> decide

theorem resultWord_eq_object {descriptor : List Char} (long : 1 < descriptor.length) :
    resultWord descriptor = "Object" := by
  have other (letter : Char) : descriptor ≠ [letter] := by
    rintro rfl
    exact absurd long (by simp)
  have absent : primitiveForms.find? (fun form => descriptor = [form.letter]) = none := by
    rw [List.find?_eq_none]
    intro form _ same
    exact other form.letter (of_decide_eq_true same)
  rw [resultWord, if_neg (other 'V'), absent]

namespace NativeType

/-- A native type fits a descriptor if it agrees with it and is returned as the descriptor says. -/
structure Fits (descriptor : String) (type : NativeType) : Prop where
  agrees : Agrees descriptor.toList type.name
  word : type.returnKind.resultName = resultWord descriptor.toList
  returns : type.returnKind.returnsValue = true ↔ descriptor ≠ "V"
  cast : type.needsCast = true ↔ type.name ∈ castNames

/-- The descriptor of what is no primitive has more than one letter. -/
theorem fits_of_long {descriptor : String} {type : NativeType}
    (long : 1 < descriptor.toList.length) (object : type.returnKind = .object)
    (cast : type.needsCast = true ↔ type.name ∈ castNames)
    (agrees : Agrees descriptor.toList type.name) : type.Fits descriptor := by
  refine ⟨agrees, ?_, ?_, cast⟩
  · rw [object, resultWord_eq_object long]
    rfl
  · rw [object]
    refine iff_of_true rfl ?_
    rintro rfl
    exact absurd long (by decide)

variable {model : ClassModel}

theorem mem_of_ofClass_eq_ok {className : String} {type : NativeType}
    (typed : ofClass model className = .ok type) :
    type ∈ [NativeType.throwable, .classObject, .object] := by
  unfold ofClass at typed
  split at typed
  · cases typed
  · split at typed <;> cases typed <;> decide

/-- Only a single dimension of primitives is not an array of objects. -/
theorem ofArray_eq_ok {element : ManagedType} {dimension : Nat} {type : NativeType}
    (typed : ofArray model element dimension = .ok type) :
    (∃ kind, element = .primitive kind ∧ dimension = 1 ∧ type = .primitiveArray kind) ∨
      type = .objectArray ∧ ∃ mark rest, (mark = '[' ∨ mark = 'L') ∧
        (ManagedType.array element dimension).descriptor.toList = '[' :: mark :: rest := by
  have written : (ManagedType.array element dimension).descriptor.toList =
      List.replicate dimension '[' ++ element.descriptor.toList := by
    rw [ManagedType.descriptor, String.toList_append, String.toList_ofList]
  rw [written]
  rcases dimension with _ | _ | more
  · cases typed
  · cases element with
    | void | array inner more => cases typed
    | primitive kind =>
      cases typed
      exact .inl ⟨kind, rfl, rfl, rfl⟩
    | string =>
      cases typed
      exact .inr ⟨rfl, 'L', _, .inr rfl, congrArg ('[' :: ·) (toList_classDescriptor stringClass)⟩
    | reference className =>
      rw [ofArray, if_neg (by decide)] at typed
      split at typed
      · cases typed
        exact .inr ⟨rfl, 'L', _, .inr rfl, congrArg ('[' :: ·) (toList_classDescriptor className)⟩
      · cases typed
  · have nested : type = .objectArray := by
      unfold ofArray at typed
      rw [if_neg (by omega)] at typed
      cases element with
      | void | array inner more => cases typed
      | primitive kind =>
        dsimp only at typed
        rw [if_neg (by omega)] at typed
        cases typed
        rfl
      | string =>
        cases typed
        rfl
      | reference className =>
        dsimp only at typed
        split at typed <;> cases typed
        rfl
    exact .inr ⟨nested, '[', _, .inl rfl, rfl⟩

/-- The mapping of types and the descriptors agree on every type that is mapped. -/
theorem fits_of_ofType {managed : ManagedType} {type : NativeType}
    (typed : ofType model managed = .ok type) : type.Fits managed.descriptor := by
  cases managed with
  | void =>
    cases typed
    exact ⟨.void, by decide, by decide, by decide⟩
  | primitive kind =>
    cases typed
    have single : (ManagedType.primitive kind).descriptor.toList = [kind.code] := by
      simp [ManagedType.descriptor]
    refine ⟨?_, ?_, ?_, ?_⟩
    · rw [single]
      exact .primitive kind.form_mem
    · rw [single]
      cases kind <;> decide
    · cases kind <;> decide
    · cases kind <;> decide
  | string =>
    cases typed
    refine fits_of_long (by decide) rfl (by decide) ?_
    rw [ManagedType.descriptor, toList_classDescriptor]
    exact .reference (by decide) _
  | reference className =>
    have begun := toList_classDescriptor className
    have objects : ∀ type ∈ [NativeType.throwable, .classObject, .object],
        type.returnKind = .object ∧ type.name ∈ referenceNames ∧
          (type.needsCast = true ↔ type.name ∈ castNames) := by decide
    obtain ⟨object, listed, cast⟩ := objects type (mem_of_ofClass_eq_ok typed)
    refine fits_of_long ?_ object cast ?_
    · rw [ManagedType.descriptor, begun]
      simp
    · rw [ManagedType.descriptor, begun]
      exact .reference listed _
  | array element dimension =>
    rcases ofArray_eq_ok typed with ⟨kind, rfl, rfl, rfl⟩ | ⟨rfl, mark, rest, marked, begun⟩
    · have pair : (ManagedType.array (.primitive kind) 1).descriptor.toList = ['[', kind.code] := by
        simp [ManagedType.descriptor]
      refine fits_of_long ?_ rfl ?_ ?_
      · rw [pair]
        exact Nat.one_lt_two
      · cases kind <;> decide
      · rw [pair]
        exact .primitiveArray kind.form_mem
    · refine fits_of_long ?_ rfl (by decide) ?_
      · rw [begun]
        simp
      · rw [begun]
        rcases marked with rfl | rfl
        · exact .arrays rest
        · exact .references rest

end NativeType

/-- What the files of a peer show of a method. -/
structure MethodForm where
  managedName : String
  isStatic : Bool
  symbol : String
  returns : String
  /-- The native type and the name of each parameter. -/
  parameters : List (String × String)
  /-- The descriptor of the return value. -/
  result : String
  /-- The descriptors of the parameters. -/
  described : List String

namespace MethodForm

structure Coherent (form : MethodForm) : Prop where
  returns : Agrees form.result.toList form.returns
  parameters : List.Forall₂
    (fun (described : String) (parameter : String × String) => Agrees described.toList parameter.1)
    form.described form.parameters

/-- Whether a form shows a managed method under a symbol. -/
structure Shows (symbol : String) (method : Method) (form : MethodForm) : Prop where
  managedName : form.managedName = method.name
  isStatic : form.isStatic = method.isStatic
  symbol : form.symbol = symbol
  names : form.parameters.map Prod.snd =
    method.parameters.map fun parameter => SymbolRole.member.mangle parameter.name
  result : form.result = method.returns.descriptor
  described : form.described = method.parameters.map fun parameter => parameter.type.descriptor

def signature (scope : String) (form : MethodForm) : String :=
  form.returns ++ " " ++ scope ++ form.symbol ++ "(" ++
    ", ".intercalate (form.parameters.map fun parameter => parameter.1 ++ " " ++ parameter.2) ++ ")"

def prototype (form : MethodForm) : String :=
  "\t" ++ (if form.isStatic then "static " else "") ++ form.signature "" ++ ";"

def lookup (form : MethodForm) : String :=
  "\tstd::call_once(once, [] \x7b methodID = GetMethodID(GetClass(), \"" ++ form.managedName ++
    "\", \"" ++ ("(" ++ String.join form.described ++ ")" ++ form.result) ++ "\"); \x7d);"

def call (form : MethodForm) : String :=
  "\t" ++ (if form.result = "V" then "" else "return ") ++
    (if form.returns ∈ castNames then "(" ++ form.returns ++ ")" else "") ++ "Env()." ++
    (if form.isStatic then "CallStatic" else "Call") ++ resultWord form.result.toList ++
    "Method(" ++ ", ".intercalate ((if form.isStatic then [] else ["Object()"]) ++
      "methodID" :: form.parameters.map Prod.snd) ++ ");"

/-- The lines of a definition before the lookup of the managed method. -/
def front (baseName : String) (form : MethodForm) : List String :=
  [form.signature (baseName ++ "::"),
    "\x7b",
    "\tstatic std::once_flag once;",
    "\tstatic jmethodID methodID = nullptr;"]

/-- The lines of a definition after the lookup. -/
def back (form : MethodForm) : List String :=
  [form.call, "\x7d", ""]

def definition (baseName : String) (form : MethodForm) : List String :=
  form.front baseName ++ form.lookup :: form.back

/-- The lines of a definition in a file. The lookup is shown as far as a file shows the managed name
and the descriptor, and all else as it is. -/
def shownDefinition (baseName : String) (form : MethodForm) : List (List Char) :=
  (form.front baseName).map String.toList ++ shownLines [form.lookup] ++
    form.back.map String.toList

/-- The form of a bound method. -/
def ofBound (shown : BoundMethod) : MethodForm where
  managedName := shown.method.name
  isStatic := shown.method.isStatic
  symbol := shown.symbol
  returns := shown.returns.name
  parameters := shown.parameters.map fun parameter => (parameter.type.name, parameter.name)
  result := shown.method.returns.descriptor
  described := shown.method.parameters.map fun parameter => parameter.type.descriptor

theorem signature_ofBound (scope : String) (shown : BoundMethod) :
    shown.signature scope = (ofBound shown).signature scope := by
  rw [signature, ofBound, List.map_map]
  rfl

theorem prototype_ofBound (shown : BoundMethod) : shown.prototype = (ofBound shown).prototype := by
  rw [prototype, ← signature_ofBound]
  rfl

section Binds

variable {model : ClassModel} {symbolOf : Method → String} {method : Method} {shown : BoundMethod}

theorem coherent_ofBound (binds : Peer.BindsMethod model symbolOf method shown) :
    (ofBound shown).Coherent := by
  obtain ⟨rfl, _, returns, parameters⟩ := binds
  refine ⟨(NativeType.fits_of_ofType returns).agrees, ?_⟩
  simp only [ofBound, List.forall₂_map_left_iff, List.forall₂_map_right_iff]
  exact parameters.imp fun _ _ pair => (NativeType.fits_of_ofType pair.type).agrees

theorem shows_ofBound (binds : Peer.BindsMethod model symbolOf method shown) :
    (ofBound shown).Shows (symbolOf method) method := by
  obtain ⟨rfl, symbol, _, parameters⟩ := binds
  refine ⟨rfl, rfl, symbol, ?_, rfl, rfl⟩
  rw [ofBound, List.map_map]
  exact (map_eq_map_of_forall₂ parameters fun _ _ pair => pair.name.symm).symm

/-- The call says what the descriptor of the return value says. -/
theorem call_ofBound (binds : Peer.BindsMethod model symbolOf method shown) :
    "\t" ++ shown.invocation = (ofBound shown).call := by
  obtain ⟨rfl, _, typed, _⟩ := binds
  have fits := NativeType.fits_of_ofType typed
  have returned : (if shown.returns.returnKind.returnsValue then "return " else "") =
      if shown.method.returns.descriptor = "V" then "" else "return " := by
    by_cases void : shown.method.returns.descriptor = "V"
    · rw [if_pos void, if_neg (fun value => fits.returns.mp value void)]
    · rw [if_neg void, if_pos (fits.returns.mpr void)]
  have cast : (if shown.returns.needsCast then "(" ++ shown.returns.name ++ ")" else "") =
      if shown.returns.name ∈ castNames then "(" ++ shown.returns.name ++ ")" else "" :=
    if_congr fits.cast rfl rfl
  rw [BoundMethod.invocation, returned, cast, ReturnKind.callFunction, fits.word,
    BoundMethod.arguments, call, ofBound, List.map_map]
  simp only [String.append_assoc]
  rfl

theorem definition_ofBound (binds : Peer.BindsMethod model symbolOf method shown)
    (baseName : String) : shown.definition baseName = (ofBound shown).definition baseName := by
  have looked : (ofBound shown).lookup =
      "\tstd::call_once(once, [] \x7b methodID = GetMethodID(GetClass(), \"" ++ shown.method.name ++
        "\", \"" ++ shown.method.descriptor ++ "\"); \x7d);" := rfl
  rw [BoundMethod.definition, definition, signature_ofBound, call_ofBound binds, looked]
  rfl

/-- A file shows the definition of a method whose signature and call have plain letters. -/
theorem shownLines_definition (binds : Peer.BindsMethod model symbolOf method shown)
    {baseName : String}
    (signature : Within (isPlainLetter · = true) (shown.signature (baseName ++ "::")))
    (invocation : Within (isPlainLetter · = true) shown.invocation) :
    shownLines (shown.definition baseName) = (ofBound shown).shownDefinition baseName := by
  have front : ∀ line ∈ (ofBound shown).front baseName, Within (isPlainLetter · = true) line := by
    rw [MethodForm.front, ← signature_ofBound]
    simp only [List.forall_mem_cons, List.not_mem_nil, false_imp_iff, implies_true, and_true]
    exact ⟨signature, within_ofList (by decide), within_ofList (by decide),
      within_ofList (by decide)⟩
  have back : ∀ line ∈ (ofBound shown).back, Within (isPlainLetter · = true) line := by
    rw [MethodForm.back, ← call_ofBound binds]
    simp only [List.forall_mem_cons, List.not_mem_nil, false_imp_iff, implies_true, and_true]
    exact ⟨within_append.mpr ⟨within_ofList (by decide), invocation⟩, within_ofList (by decide),
      within_ofList (by decide)⟩
  have parts : (ofBound shown).definition baseName =
      (ofBound shown).front baseName ++ [(ofBound shown).lookup] ++ (ofBound shown).back := by
    rw [definition, List.append_assoc, List.singleton_append]
  rw [definition_ofBound binds, parts, shownLines_append, shownLines_append,
    shownLines_of_plain front, shownLines_of_plain back, shownDefinition]

end Binds

end MethodForm

/-- The lines of a header from the members of every peer to the end of the file. -/
def headerEnd (home : Namespace) (forms : List MethodForm) : List (List Char) :=
  ["\tstatic jclass GetClass();".toList, []] ++ forms.map (fun form => form.prototype.toList) ++
    ["\x7d;".toList, []] ++ shownLines [home.ending] ++ [[]]

/-- The lines of a source from the end of the lookup of the class to the end of the file. -/
def sourceEnd (baseName : String) (home : Namespace) (forms : List MethodForm) :
    List (List Char) :=
  ["\treturn *clazz;".toList, "\x7d".toList, []] ++
    forms.flatMap (MethodForm.shownDefinition baseName) ++ shownLines [home.ending] ++ [[]]

namespace Peer

variable {peer : Peer} (symbolic : peer.IsSymbolic)

include symbolic

/-- The prototypes are shown as they are, whatever letters stand before and after them. -/
theorem headerEnd_suffix (host : Host) :
    headerEnd peer.home (peer.methods.map MethodForm.ofBound) <:+
      fileLines host (PeerSource.encode host peer.declaration) := by
  have prototypes : shownLines (peer.methods.map BoundMethod.prototype) =
      (peer.methods.map MethodForm.ofBound).map fun form => form.prototype.toList := by
    rw [shownLines_of_plain, List.map_map, List.map_map]
    · exact List.map_congr_left fun shown _ => congrArg String.toList
        (MethodForm.prototype_ofBound shown)
    · rw [List.forall_mem_map]
      exact fun shown listed => BoundMethod.within_prototype isPlainLetter_of_isFlatLetter
        (symbolic.symbols shown listed) (symbolic.parameters shown listed)
  have members : shownLines ["\tstatic jclass GetClass();", ""] =
      ["\tstatic jclass GetClass();".toList, []] := by decide +kernel
  have closing : shownLines ["\x7d;", ""] = ["\x7d;".toList, []] := by decide +kernel
  have parts : peer.declaration =
      ([notice, "#pragma once", "", "#include <JNIManagedPeer.h>", "#include <jni.h>", ""] ++
        peer.constantLines ++
        [peer.home.beginning, "", "class " ++ peer.baseName ++ " : public ::JNI::ManagedPeer",
          "\x7b", "public:", "\texplicit " ++ peer.baseName ++ "(jobject object);",
          "\t~" ++ peer.baseName ++ "();", ""]) ++
      (["\tstatic jclass GetClass();", ""] ++ peer.methods.map BoundMethod.prototype ++
        ["\x7d;", ""] ++ [peer.home.ending]) := by
    simp only [declaration, List.append_assoc, List.cons_append, List.nil_append]
  rw [parts]
  apply PeerSource.suffix_fileLines_encode
  simp only [shownLines_append, members, prototypes, closing]

omit symbolic

variable {model : ClassModel} {configuration : Configuration} {declared : ManagedClass}

/-- The definitions are shown as they are but for their lookups, whatever stands before them. -/
theorem sourceEnd_suffix (bound : (bind model configuration declared).result = .ok peer)
    (host : Host) (precompiledHeader : Option String) :
    sourceEnd peer.baseName peer.home (peer.methods.map MethodForm.ofBound) <:+
      fileLines host (PeerSource.encode host (peer.definition precompiledHeader)) := by
  have symbolic := isSymbolic_of_bind bound
  obtain ⟨_, _, _, _, methods⟩ := bind_binds bound
  have scope : Within (isPlainLetter · = true) (peer.baseName ++ "::") :=
    within_append.mpr ⟨within_of_name isPlainLetter_of_isFlatLetter symbolic.baseName,
      within_ofList (by decide)⟩
  have shown : shownLines (peer.methods.flatMap (BoundMethod.definition peer.baseName)) =
      (peer.methods.map MethodForm.ofBound).flatMap
        (MethodForm.shownDefinition peer.baseName) := by
    rw [shownLines_flatMap, List.flatMap_map]
    apply List.flatMap_congr
    intro method listed
    obtain ⟨_, _, binds⟩ := exists_of_forall₂_of_mem methods listed
    have parameters := symbolic.parameters method listed
    exact MethodForm.shownLines_definition binds
      (BoundMethod.within_signature isPlainLetter_of_isFlatLetter (symbolic.symbols method listed)
        parameters scope)
      (BoundMethod.within_invocation isPlainLetter_of_isFlatLetter parameters)
  have lookup : shownLines ["\treturn *clazz;", "\x7d", ""] =
      ["\treturn *clazz;".toList, "\x7d".toList, []] := by decide +kernel
  have parts : peer.definition precompiledHeader =
      ([notice] ++ (precompiledHeader.map fun header => "#include \"" ++ header ++ "\"").toList ++
        ["#include \"" ++ peer.baseName ++ ".h\"", "#include <mutex>", "", peer.home.beginning, "",
          peer.baseName ++ "::" ++ peer.baseName ++ "(jobject object)",
          "\t: ::JNI::ManagedPeer(object)", "\x7b", "\x7d", "",
          peer.baseName ++ "::~" ++ peer.baseName ++ "()", "\x7b", "\x7d", "",
          "jclass " ++ peer.baseName ++ "::GetClass()", "\x7b", "\tstatic std::once_flag once;",
          "\tstatic ::JNI::JClass* clazz = nullptr;",
          "\tstd::call_once(once, [] \x7b clazz = new ::JNI::JClass(\"" ++
            classDescriptor peer.className ++ "\"); \x7d);"]) ++
      (["\treturn *clazz;", "\x7d", ""] ++
        peer.methods.flatMap (BoundMethod.definition peer.baseName) ++ [peer.home.ending]) := by
    simp only [definition, classLookup, List.append_assoc, List.cons_append, List.nil_append]
  rw [parts]
  apply PeerSource.suffix_fileLines_encode
  simp only [shownLines_append, lookup, shown]

end Peer

namespace PeerSource

variable {model : ClassModel} {configuration : Configuration} {declared : ManagedClass}

/-- The header of a peer ends with one prototype for each tagged method and its source with one
definition, in the order of the methods. The two show one signature, the descriptor agrees with it
type by type, and the call follows from both. -/
theorem render_signatures {source : PeerSource}
    (rendered : (render model configuration declared).result = .ok source) :
    ∃ home forms, Peer.homeOf configuration declared = .ok home ∧
      List.Forall₂ (fun method form => form.Coherent ∧
        MethodForm.Shows (Peer.symbolOf
          (Peer.isDisambiguated configuration declared.taggedMethods method) method) method form)
        declared.taggedMethods forms ∧
      headerEnd home forms <:+ fileLines configuration.host source.header ∧
      sourceEnd (Peer.baseNameOf declared) home forms <:+
        fileLines configuration.host source.source := by
  obtain ⟨peer, bound, rfl⟩ := render_eq_ok.mp rendered
  obtain ⟨_, base, housed, _, methods⟩ := Peer.bind_binds bound
  have source := Peer.sourceEnd_suffix bound configuration.host configuration.precompiledHeader
  rw [base] at source
  refine ⟨peer.home, peer.methods.map .ofBound, housed, ?_,
    Peer.headerEnd_suffix (Peer.isSymbolic_of_bind bound) configuration.host, source⟩
  rw [List.forall₂_map_right_iff]
  apply methods.imp
  intro method shown binds
  have shows := MethodForm.shows_ofBound binds
  exact ⟨MethodForm.coherent_ofBound binds, shows⟩

theorem render_signatures_overloads :
    ∃ source, (render .runtime tellingApart overloadedCar).result = .ok source ∧
      ∃ home first second third, second.managedName = "drive" ∧ second.isStatic = true ∧
        second.described = ["I", "Ljava/lang/String;"] ∧ second.Coherent ∧
        headerEnd home [first, second, third] <:+ fileLines .unix source.header ∧
        sourceEnd "CarManagedPeer" home [first, second, third] <:+
          fileLines .unix source.source := by
  have rendered : ∃ source, (render .runtime tellingApart overloadedCar).result = .ok source :=
    ⟨_, rfl⟩
  obtain ⟨source, succeeded⟩ := rendered
  obtain ⟨home, forms, _, shown, header, definitions⟩ := render_signatures succeeded
  have baseName : Peer.baseNameOf overloadedCar = "CarManagedPeer" := by decide
  have tagged : overloadedCar.taggedMethods = overloadedCar.methods := rfl
  rw [baseName] at definitions
  rw [tagged] at shown
  obtain ⟨first, _, _, later, rfl⟩ := List.forall₂_cons_left_iff.mp shown
  obtain ⟨second, _, ⟨coherent, shows⟩, last, rfl⟩ := List.forall₂_cons_left_iff.mp later
  obtain ⟨third, _, _, none, rfl⟩ := List.forall₂_cons_left_iff.mp last
  rw [List.forall₂_nil_left_iff.mp none] at header definitions
  have described : second.described = ["I", "Ljava/lang/String;"] := by
    rw [shows.described]
    decide +kernel
  exact ⟨source, succeeded, home, first, second, third, shows.managedName, shows.isStatic,
    described, coherent, header, definitions⟩

end PeerSource

end NativePeer
