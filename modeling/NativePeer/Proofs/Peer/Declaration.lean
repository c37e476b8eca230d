import NativePeer.Proofs.Peer.Constants
import NativePeer.Proofs.Peer.Definition
import NativePeer.Proofs.Peer.Encoding
import NativePeer.Proofs.Text.Braces

/-
This file says what the header of a peer looks like, whatever the names in it are.
-/

namespace NativePeer

open Text

namespace Text

theorem isBrace_unlines {lines : List String}
    (flat : ∀ line ∈ lines, Within (isFlatLetter · = true) line) :
    ∀ letter ∈ unlines lines, isBrace letter = false := by
  intro letter member
  rcases mem_unlines member with rfl | ⟨line, listed, written⟩
  · decide
  · exact isBrace_of_isFlatLetter (flat line listed letter written)

end Text

namespace Namespace

/-- The scopes that some segments open. -/
def scopes (segments : List String) : List Char :=
  (String.join (segments.map fun segment => "namespace " ++ segment ++ " \x7b ")).toList

theorem scopes_cons (segment : String) (segments : List String) :
    scopes (segment :: segments) =
      ("namespace " ++ segment ++ " ").toList ++ '\x7b' :: ' ' :: scopes segments := by
  have brace : ("namespace " ++ segment ++ " \x7b ").toList =
      ("namespace " ++ segment ++ " ").toList ++ ['\x7b', ' '] := by
    simp [String.toList_append]
  rw [scopes, String.toList_join, List.map_cons, List.flatMap_cons, brace, ← String.toList_join,
    List.append_assoc]
  rfl

theorem isBrace_scope {segment : String} (symbolic : Within (isSymbolLetter · = true) segment) :
    ∀ letter ∈ ("namespace " ++ segment ++ " ").toList, isBrace letter = false := by
  have flat : Within (isFlatLetter · = true) ("namespace " ++ segment ++ " ") :=
    within_append.mpr ⟨within_append.mpr ⟨by decide, within_of_name (fun _ flat => flat) symbolic⟩,
      by decide⟩
  exact fun letter member => isBrace_of_isFlatLetter (flat letter member)

/-- Each segment opens a scope. -/
theorem depthAfter?_scopes {segments : List String}
    (symbolic : ∀ segment ∈ segments, Within (isSymbolLetter · = true) segment) (depth : Nat) :
    depthAfter? depth (scopes segments) = some (depth + segments.length) := by
  induction segments generalizing depth with
  | nil => rfl
  | cons segment segments inductionHypothesis =>
    rw [List.forall_mem_cons] at symbolic
    calc depthAfter? depth (scopes (segment :: segments))
        = depthAfter? depth ('\x7b' :: ' ' :: scopes segments) := by
          rw [scopes_cons, depthAfter?_append (depthAfter?_flat (isBrace_scope symbolic.1) depth)]
      _ = depthAfter? (depth + 1) (scopes segments) := rfl
      _ = some (depth + 1 + segments.length) := inductionHypothesis symbolic.2 (depth + 1)
      _ = some (depth + (segments.length + 1)) := by rw [Nat.add_right_comm, Nat.add_assoc]

/-- Each segment is closed. -/
theorem toList_ending (home : Namespace) :
    home.ending.toList = List.replicate home.segments.length '\x7d' ++
      (" // namespace " ++ home.dotted).toList := by
  have closing (segments : List String) : (String.join (segments.map fun _ => "\x7d")).toList =
      List.replicate segments.length '\x7d' := by
    rw [String.toList_join, List.flatMap_map]
    induction segments with
    | nil => rfl
    | cons segment segments inductionHypothesis => exact congrArg _ inductionHypothesis
  rw [ending, String.append_assoc, String.toList_append, closing]

end Namespace

/-- The lines of every header. -/
def Peer.fixedLines : List String :=
  ["/* DO NOT EDIT THIS FILE - it is machine generated */", "#pragma once", "",
    "#include <JNIManagedPeer.h>", "#include <jni.h>", "\x7b", "public:",
    "\tstatic jclass GetClass();", "\x7d;"]

/-- A name of a method, possibly with its parameters. -/
inductive IsMethodSymbol : String → Prop where
  | plain (name : String) : IsMethodSymbol (SymbolRole.member.mangle name)
  | described (name descriptor : String) :
    IsMethodSymbol
      (SymbolRole.member.mangle name ++ "__" ++ SymbolRole.descriptor.mangle descriptor)

/-- The lines of a header are templates. They are filled with mangled names, native types, literals
and the segments of the namespace. -/
inductive IsHeaderLine (host : Host) (home : Namespace) : String → Prop where
  | fixed {line : String} (listed : line ∈ Peer.fixedLines) : IsHeaderLine host home line
  | undefinition (className fieldName : String) :
    IsHeaderLine host home ("#undef " ++
      (SymbolRole.className.mangle className ++ "_" ++ SymbolRole.member.mangle fieldName))
  | definition (className fieldName : String) (value : Constant) :
    IsHeaderLine host home ("#define " ++
      (SymbolRole.className.mangle className ++ "_" ++ SymbolRole.member.mangle fieldName) ++ " " ++
      value.literal host)
  | beginning : IsHeaderLine host home
      (String.join (home.segments.map fun segment => "namespace " ++ segment ++ " \x7b "))
  | peerClass (name : String) :
    IsHeaderLine host home ("class " ++ (SymbolRole.className.mangle name ++ "ManagedPeer") ++
      " : public ::JNI::ManagedPeer")
  | construction (name : String) :
    IsHeaderLine host home ("\texplicit " ++ (SymbolRole.className.mangle name ++ "ManagedPeer") ++
      "(jobject object);")
  | destruction (name : String) :
    IsHeaderLine host home ("\t~" ++ (SymbolRole.className.mangle name ++ "ManagedPeer") ++ "();")
  | prototype (isStatic : Bool) (returns : NativeType) {symbol : String}
    (mangled : IsMethodSymbol symbol) {parameters : List BoundParameter}
    (named : ∀ parameter ∈ parameters, ∃ name, parameter.name = SymbolRole.member.mangle name) :
    IsHeaderLine host home ("\t" ++ (if isStatic then "static " else "") ++ returns.name ++ " " ++
      symbol ++ "(" ++ ", ".intercalate (parameters.map fun parameter =>
        parameter.type.name ++ " " ++ parameter.name) ++ ");")
  | ending : IsHeaderLine host home
      (String.join (home.segments.map fun _ => "\x7d") ++ " // namespace " ++
        ".".intercalate home.segments)

/-- What no name can spoil in the text of a header. -/
structure IsIntactHeader (host : Host) (home : Namespace) (text : List Char) : Prop where
  letters : ∀ letter ∈ text, isTemplateLetter letter = true ∨ letter = '\n'
  nested : IsNested text
  /-- Each segment of the namespace opens a scope that stays open up to the last line. -/
  scopes : ∃ before inside,
    text = before ++ home.beginning.toList ++ '\n' :: inside ++ home.ending.toList ++ ['\n'] ∧
    (∀ letter ∈ before, isBrace letter = false) ∧
    depthAfter? 0 home.beginning.toList = some home.segments.length ∧
    depthAfter? 0 inside = some 0 ∧
    depthAfter? home.segments.length home.ending.toList = some 0
  lines : ∀ line ∈ pieces '\n' text, IsHeaderLine host home (String.ofList line)

namespace Peer

/-- The lines before the macros. -/
def opening : List String :=
  [notice, "#pragma once", "", "#include <JNIManagedPeer.h>", "#include <jni.h>", ""]

/-- The lines in the class. -/
def members (peer : Peer) : List String :=
  ["public:", "\texplicit " ++ peer.baseName ++ "(jobject object);",
    "\t~" ++ peer.baseName ++ "();", "", "\tstatic jclass GetClass();", ""] ++
  peer.methods.map BoundMethod.prototype

/-- The lines in the namespace. -/
def inside (peer : Peer) : List String :=
  ["", "class " ++ peer.baseName ++ " : public ::JNI::ManagedPeer"] ++ ["\x7b"] ++
    peer.members ++ ["\x7d;", ""]

theorem within_opening : ∀ line ∈ opening, Within (isFlatLetter · = true) line := by
  have flat : ∀ letter, isFlatLetter letter = true → isFlatLetter letter = true :=
    fun _ flat => flat
  simp (disch := refine within_ofList ?_; decide) only [opening, notice, List.forall_mem_cons,
    List.not_mem_nil, false_imp_iff, implies_true, within_of_template flat, and_self]

theorem declaration_eq_scopes (peer : Peer) :
    peer.declaration = opening ++ peer.constantLines ++ peer.home.beginning :: peer.inside ++
      [peer.home.ending] := by
  simp [declaration, opening, inside, members]

variable {peer : Peer}

theorem depthAfter?_inside (symbolic : peer.IsSymbolic) :
    depthAfter? 0 (unlines peer.inside) = some 0 := by
  have flat : ∀ letter, isFlatLetter letter = true → isFlatLetter letter = true :=
    fun _ flat => flat
  have base := within_of_name flat symbolic.baseName
  have heading : ∀ line ∈ ["", "class " ++ peer.baseName ++ " : public ::JNI::ManagedPeer"],
      Within (isFlatLetter · = true) line := by
    simp (disch := refine within_ofList ?_; decide) only [List.forall_mem_cons, List.not_mem_nil,
      false_imp_iff, implies_true, within_append, within_of_template flat, base, and_self]
  have prototypes : ∀ line ∈ peer.methods.map BoundMethod.prototype,
      Within (isFlatLetter · = true) line :=
    List.forall_mem_map.mpr fun shown member => BoundMethod.within_prototype flat
      (symbolic.symbols shown member) (symbolic.parameters shown member)
  have members : ∀ line ∈ peer.members, Within (isFlatLetter · = true) line := by
    simp (disch := refine within_ofList ?_; decide) only [Peer.members, List.forall_mem_append,
      List.forall_mem_cons, List.not_mem_nil, false_imp_iff, implies_true, within_append,
      within_of_template flat, base, and_self, true_and]
    exact prototypes
  have opened : depthAfter? 0 (unlines ["\x7b"]) = some 1 := rfl
  rw [inside, unlines_append, unlines_append, unlines_append, List.append_assoc, List.append_assoc,
    depthAfter?_append (depthAfter?_flat (isBrace_unlines heading) 0), depthAfter?_append opened,
    depthAfter?_append (depthAfter?_flat (isBrace_unlines members) 1)]
  rfl

/-- One scope holds all others. -/
theorem isNested_declaration
    (segments : ∀ segment ∈ peer.home.segments, Within (isSymbolLetter · = true) segment)
    (flat : ∀ letter ∈ unlines (opening ++ peer.constantLines), isBrace letter = false)
    (closed : depthAfter? 0 (unlines peer.inside) = some 0)
    (ended : ∀ letter ∈ (" // namespace " ++ peer.home.dotted).toList ++ ['\n'],
      isBrace letter = false) :
    IsNested (unlines peer.declaration) := by
  obtain ⟨first, rest, cut⟩ := List.exists_cons_of_ne_nil peer.home.nonempty
  have beginning : peer.home.beginning.toList = ("namespace " ++ first ++ " ").toList ++
      '\x7b' :: ' ' :: Namespace.scopes rest := by
    rw [← Namespace.scopes_cons, ← cut]
    rfl
  have ending : peer.home.ending.toList = List.replicate rest.length '\x7d' ++
      '\x7d' :: (" // namespace " ++ peer.home.dotted).toList := by
    rw [Namespace.toList_ending, cut, List.length_cons, List.replicate_succ', List.append_assoc]
    rfl
  rw [cut, List.forall_mem_cons] at segments
  have opened : depthAfter? 0 (' ' :: Namespace.scopes rest) = some (0 + rest.length) := by
    rw [depthAfter?_cons_flat (by decide), Namespace.depthAfter?_scopes segments.2]
  have middle : depthAfter? 0 (' ' :: Namespace.scopes rest ++ '\n' :: (unlines peer.inside ++
      List.replicate rest.length '\x7d')) = some 0 :=
    calc depthAfter? 0 (' ' :: Namespace.scopes rest ++ '\n' :: (unlines peer.inside ++
          List.replicate rest.length '\x7d'))
        = depthAfter? (0 + rest.length) ('\n' :: (unlines peer.inside ++
            List.replicate rest.length '\x7d')) := depthAfter?_append opened _
      _ = depthAfter? (0 + rest.length) (unlines peer.inside ++
            List.replicate rest.length '\x7d') := depthAfter?_cons_flat (by decide) _ _
      _ = depthAfter? (0 + rest.length) (List.replicate rest.length '\x7d') :=
          depthAfter?_append (depthAfter?_add closed rest.length) _
      _ = some 0 := depthAfter?_replicate 0 rest.length
  have nested := isNested_of_enclosed
    (List.forall_mem_append.mpr ⟨flat, Namespace.isBrace_scope segments.1⟩) middle ended
  simp only [List.append_assoc, List.cons_append] at nested
  simpa only [declaration_eq_scopes, unlines_append, unlines_cons, unlines_nil, beginning, ending,
    List.append_assoc, List.cons_append, List.nil_append] using nested

/-- Each macro is that of a constant. -/
theorem exists_of_mem_constants {model : ClassModel} {configuration : Configuration}
    {declared : ManagedClass} (bound : (bind model configuration declared).result = .ok peer)
    {definition : MacroDefinition} (listed : definition ∈ peer.constants) :
    ∃ fieldName value, definition = ⟨MacroDefinition.symbolOf declared.qualifiedName fieldName,
      Constant.literal configuration.host value⟩ := by
  by_cases emits : configuration.emitsConstants = true
  · obtain ⟨_, _, definitions, _⟩ := constants_of_bind emits bound
    rw [definitions] at listed
    obtain ⟨field, _, shown⟩ := List.mem_filterMap.mp listed
    unfold MacroDefinition.ofConstant? at shown
    split at shown
    · obtain ⟨value, _, rfl⟩ := Option.map_eq_some_iff.mp shown
      exact ⟨field.name, value, rfl⟩
    · cases shown
  · obtain ⟨_, _, _, omitted, _⟩ := bind_binds bound
    rw [constantsOf, if_neg emits, Except.ok.injEq] at omitted
    exact absurd (omitted ▸ listed) List.not_mem_nil

theorem isMethodSymbol_symbolOf (disambiguated : Bool) (method : Method) :
    IsMethodSymbol (symbolOf disambiguated method) := by
  unfold symbolOf
  split
  · exact .described _ _
  · exact .plain _

theorem isHeaderLine_of_bind {model : ClassModel} {configuration : Configuration}
    {declared : ManagedClass} (bound : (bind model configuration declared).result = .ok peer) :
    ∀ line ∈ peer.declaration, IsHeaderLine configuration.host peer.home line := by
  obtain ⟨_, base, _, _, methods⟩ := bind_binds bound
  have fixed {line : String} (listed : line ∈ fixedLines) :
      IsHeaderLine configuration.host peer.home line := .fixed listed
  have macros : ∀ line ∈ peer.constantLines, IsHeaderLine configuration.host peer.home line := by
    unfold constantLines
    split
    · exact List.forall_mem_nil _
    · refine List.forall_mem_append.mpr ⟨List.forall_mem_flatMap.mpr fun definition listed => ?_,
        List.forall_mem_singleton.mpr (fixed (by decide))⟩
      obtain ⟨fieldName, value, rfl⟩ := exists_of_mem_constants bound listed
      exact List.forall_mem_cons.mpr ⟨.undefinition _ _,
        List.forall_mem_singleton.mpr (.definition _ _ _)⟩
  have prototypes : ∀ line ∈ peer.methods.map BoundMethod.prototype,
      IsHeaderLine configuration.host peer.home line := by
    rw [List.forall_mem_map]
    intro shown member
    obtain ⟨method, _, binds⟩ := exists_of_forall₂_of_mem methods member
    have named : ∀ parameter ∈ shown.parameters,
        ∃ name, parameter.name = SymbolRole.member.mangle name := by
      intro parameter given
      obtain ⟨declaredParameter, _, pair⟩ := exists_of_forall₂_of_mem binds.parameters given
      exact ⟨_, pair.name⟩
    have symbol : IsMethodSymbol shown.symbol := by
      rw [binds.symbol_eq]
      exact isMethodSymbol_symbolOf _ method
    have line : IsHeaderLine configuration.host peer.home _ :=
      .prototype shown.method.isStatic shown.returns symbol named
    simpa [BoundMethod.prototype, BoundMethod.signature, BoundMethod.parameterList,
      String.append_assoc] using line
  have openings : ∀ line ∈ opening, IsHeaderLine configuration.host peer.home line := by
    have listed : ∀ line ∈ opening, line ∈ fixedLines := by decide
    exact fun line member => fixed (listed line member)
  have members : ∀ line ∈ peer.members, IsHeaderLine configuration.host peer.home line := by
    rw [Peer.members, base, baseNameOf]
    simp only [List.forall_mem_append, List.forall_mem_cons, List.not_mem_nil, false_imp_iff,
      implies_true, and_true]
    exact ⟨⟨fixed (by decide), .construction _, .destruction _, fixed (by decide),
      fixed (by decide), fixed (by decide)⟩, prototypes⟩
  rw [declaration_eq_scopes, inside, base, baseNameOf]
  simp only [List.forall_mem_append, List.forall_mem_cons, List.not_mem_nil, false_imp_iff,
    implies_true, and_true]
  exact ⟨⟨⟨openings, macros⟩, .beginning, ⟨⟨⟨fixed (by decide), .peerClass _⟩,
    fixed (by decide)⟩, members⟩, fixed (by decide), fixed (by decide)⟩, .ending⟩

section Bound

variable {model : ClassModel} {configuration : Configuration} {declared : ManagedClass}
  (bound : (bind model configuration declared).result = .ok peer)

include bound

theorem flat_of_mem_constants : ∀ definition ∈ peer.constants,
    Within (isFlatLetter · = true) definition.symbol ∧
      Within (isFlatLetter · = true) definition.literal := by
  intro definition listed
  obtain ⟨fieldName, value, rfl⟩ := exists_of_mem_constants bound listed
  have symbol : Within (isSymbolLetter · = true)
      (MacroDefinition.symbolOf declared.qualifiedName fieldName) :=
    within_append.mpr ⟨within_append.mpr ⟨SymbolRole.className.within_mangle _, by decide⟩,
      SymbolRole.member.within_mangle _⟩
  exact ⟨within_of_name (fun _ flat => flat) symbol,
    (value.within_literal _).mono fun _ => isFlatLetter_of_isLiteralLetter⟩

theorem isBrace_before :
    ∀ letter ∈ unlines (opening ++ peer.constantLines), isBrace letter = false := by
  have flat : ∀ letter, isFlatLetter letter = true → isFlatLetter letter = true :=
    fun _ flat => flat
  refine isBrace_unlines (List.forall_mem_append.mpr ⟨within_opening, ?_⟩)
  unfold constantLines
  split
  · exact List.forall_mem_nil _
  · refine List.forall_mem_append.mpr ⟨List.forall_mem_flatMap.mpr fun definition listed => ?_,
      List.forall_mem_singleton.mpr (within_of_letters flat (by decide))⟩
    obtain ⟨symbol, literal⟩ := flat_of_mem_constants bound definition listed
    exact definition.within_lines flat symbol literal

theorem template_of_bind
    (segments : ∀ segment ∈ peer.home.segments, Within (isSymbolLetter · = true) segment) :
    ∀ line ∈ peer.declaration, Within (isTemplateLetter · = true) line := by
  have plain {text : String} (within : Within (isFlatLetter · = true) text) :
      Within (isTemplateLetter · = true) text :=
    within.mono fun _ => isTemplateLetter_of_isFlatLetter
  exact within_declaration (fun _ template => template) (isSymbolic_of_bind bound)
    (fun segment listed => within_of_symbol (fun _ template => template) (segments segment listed))
    fun definition listed =>
      (flat_of_mem_constants bound definition listed).imp plain plain

theorem letters_of_bind
    (segments : ∀ segment ∈ peer.home.segments, Within (isSymbolLetter · = true) segment) :
    ∀ letter ∈ unlines peer.declaration, isTemplateLetter letter = true ∨ letter = '\n' := by
  intro letter member
  rcases mem_unlines member with feed | ⟨line, listed, written⟩
  · exact .inr feed
  · exact .inl (template_of_bind bound segments line listed letter written)

section Valid

variable (valid : peer.home.isValid = true)

include valid

theorem decode_declaration (reader : Host) :
    PeerSource.decode reader (PeerSource.encode reader peer.declaration) =
      unlines peer.declaration := by
  apply PeerSource.decode_encode
  intro letter member
  rcases letters_of_bind bound (Namespace.symbolic_of_isValid valid) letter member with shown | rfl
  · obtain ⟨small, _, other⟩ := lt_of_isTemplateLetter shown
    exact ⟨Nat.lt_trans small (by decide), other⟩
  · decide

theorem isHeaderLine_of_mem_pieces :
    ∀ line ∈ pieces '\n' (unlines peer.declaration),
      IsHeaderLine configuration.host peer.home (String.ofList line) := by
  have unbroken : ∀ line ∈ peer.declaration, '\n' ∉ line.toList :=
    fun line listed => (template_of_bind bound (Namespace.symbolic_of_isValid valid) line
      listed).not_mem (by decide)
  intro piece member
  rw [pieces_unlines unbroken, List.mem_append, List.mem_map, List.mem_singleton] at member
  rcases member with ⟨line, listed, rfl⟩ | rfl
  · rw [String.ofList_toList]
    exact isHeaderLine_of_bind bound line listed
  · exact .fixed (by decide)

/-- The names in a header are mangled, and neither they nor the literals have braces. -/
theorem isIntactHeader_of_bind :
    IsIntactHeader configuration.host peer.home (unlines peer.declaration) := by
  have segments := Namespace.symbolic_of_isValid valid
  have before := isBrace_before bound
  have inside := depthAfter?_inside (isSymbolic_of_bind bound)
  have after : ∀ letter ∈ (" // namespace " ++ peer.home.dotted).toList,
      isBrace letter = false := by
    have dotted : Within (isFlatLetter · = true) peer.home.dotted :=
      within_intercalate (by decide) fun segment listed =>
        within_of_name (fun _ flat => flat) (segments segment listed)
    have flat : Within (isFlatLetter · = true) (" // namespace " ++ peer.home.dotted) :=
      within_append.mpr ⟨by decide, dotted⟩
    exact fun letter member => isBrace_of_isFlatLetter (flat letter member)
  refine ⟨letters_of_bind bound segments, ?_, ?_, isHeaderLine_of_mem_pieces bound valid⟩
  · exact isNested_declaration segments before inside
      (List.forall_mem_append.mpr ⟨after, List.forall_mem_singleton.mpr (by decide)⟩)
  · refine ⟨_, _, ?_, before, ?_, inside, ?_⟩
    · simp only [declaration_eq_scopes, unlines_append, unlines_cons, unlines_nil,
        List.append_assoc, List.cons_append]
    · have opened := Namespace.depthAfter?_scopes segments 0
      rwa [Nat.zero_add] at opened
    · have closed := depthAfter?_replicate 0 peer.home.segments.length
      rw [Nat.zero_add] at closed
      rw [Namespace.toList_ending, depthAfter?_append closed, depthAfter?_flat after]

end Valid

end Bound

end Peer

end NativePeer
