import NativePeer.Proofs.Generation.Artifact
import NativePeer.Proofs.Peer.Failure
import NativePeer.Proofs.Peer.Lines
import NativePeer.Proofs.Peer.Signature
import NativePeer.Proofs.Text.Units

/-
This file shows that the source of a peer tells what its class is bound to.
-/

namespace NativePeer

open Text

/-- The quotation mark after a name ends it. -/
theorem quoted_cancel {before after first second firstRest secondRest : String}
    (firstUnquoted : '"' ∉ first.toList) (secondUnquoted : '"' ∉ second.toList)
    (same : before ++ first ++ "\", \"" ++ firstRest ++ after =
      before ++ second ++ "\", \"" ++ secondRest ++ after) :
    first = second ∧ firstRest = secondRest := by
  have quote : "\", \"".toList = '"' :: [',', ' ', '"'] := rfl
  have letters := congrArg String.toList ((String.append_left_inj after).mp same)
  simp only [String.toList_append, quote, List.append_assoc, List.cons_append] at letters
  obtain ⟨sameName, rest⟩ :=
    append_cons_cancel firstUnquoted secondUnquoted (List.append_cancel_left letters)
  have ended : [',', ' ', '"'] ++ firstRest.toList = [',', ' ', '"'] ++ secondRest.toList := rest
  exact ⟨String.toList_injective sameName,
    String.toList_injective (List.append_cancel_left ended)⟩

namespace MethodForm

/-- The call of a static method is four letters shorter. -/
theorem length_call (form : MethodForm) :
    form.call.length + (if form.isStatic then 4 else 0) =
      { form with isStatic := false }.call.length := by
  cases static : form.isStatic with
  | false => rw [if_neg (by decide), Nat.add_zero, ← static]
  | true =>
    have words : "CallStatic".length = 10 ∧ "Call".length = 4 ∧ "Object()".length = 8 ∧
        ", ".length = 2 := by decide
    simp only [call, static, if_true, Bool.false_eq_true, if_false, List.nil_append,
      List.singleton_append, String.intercalate_cons_cons, String.length_append]
    omega

/-- A form whose lines tell its parts. -/
structure IsReadable (form : MethodForm) : Prop where
  managedName : '"' ∉ form.managedName.toList
  symbol : Within (isSymbolLetter · = true) form.symbol
  returns : Within (isSymbolLetter · = true) form.returns
  parameters : ∀ parameter ∈ form.parameters, Within (isSymbolLetter · = true) parameter.1 ∧
    Within (isSymbolLetter · = true) parameter.2

variable {first second : MethodForm} (firstReadable : first.IsReadable)
  (secondReadable : second.IsReadable)

include firstReadable secondReadable

theorem parameters_eq_of_text_eq
    (same : ", ".intercalate (first.parameters.map fun parameter =>
        parameter.1 ++ " " ++ parameter.2) =
      ", ".intercalate (second.parameters.map fun parameter =>
        parameter.1 ++ " " ++ parameter.2)) :
    first.parameters = second.parameters := by
  have blank : " ".toList = [' '] := rfl
  have plain {form : MethodForm} (readable : form.IsReadable) :
      ∀ text ∈ form.parameters.map fun parameter => parameter.1 ++ " " ++ parameter.2,
        text ≠ "" ∧ ',' ∉ text.toList := by
    rw [List.forall_mem_map]
    intro parameter given
    obtain ⟨type, name⟩ := readable.parameters parameter given
    rw [String.toList_append, String.toList_append, blank, List.mem_append, List.mem_append]
    refine ⟨?_, ?_⟩
    · intro empty
      have letters := congrArg String.toList empty
      simp at letters
    · rintro ((typeMember | blankMember) | nameMember)
      · exact type.not_mem (by decide) typeMember
      · exact absurd blankMember (by decide)
      · exact name.not_mem (by decide) nameMember
  have texts := intercalate_injective (rfl : ", ".toList = ',' :: [' ']) (by decide)
    (plain firstReadable) (plain secondReadable) same
  have read {form : MethodForm} (readable : form.IsReadable) :
      (form.parameters.map fun parameter => parameter.1 ++ " " ++ parameter.2).map
          (fun text => pieces ' ' text.toList) =
        form.parameters.map fun parameter => [parameter.1.toList, parameter.2.toList] := by
    rw [List.map_map]
    refine List.map_congr_left fun parameter given => ?_
    obtain ⟨type, name⟩ := readable.parameters parameter given
    simp only [Function.comp_apply, String.toList_append, blank, List.append_assoc,
      List.singleton_append]
    rw [pieces_append_cons, pieces_of_not_mem (type.not_mem (by decide)),
      pieces_of_not_mem (name.not_mem (by decide)), List.singleton_append]
  have pairs := (read firstReadable).symm.trans ((congrArg _ texts).trans (read secondReadable))
  refine (List.map_inj_right fun left right equal => ?_).mp pairs
  obtain ⟨sameType, rest⟩ := List.cons.inj equal
  exact Prod.ext (String.toList_injective sameType)
    (String.toList_injective (List.singleton_inj.mp rest))

theorem parts_eq_of_signature_eq {scope : String}
    (same : first.signature scope = second.signature scope) :
    first.returns = second.returns ∧ first.symbol = second.symbol ∧
      first.parameters = second.parameters := by
  have blank : " ".toList = [' '] := rfl
  have bracket : "(".toList = ['('] := rfl
  have letters := congrArg String.toList same
  simp only [signature, String.toList_append, blank, bracket, List.append_assoc,
    List.singleton_append] at letters
  obtain ⟨sameReturns, letters⟩ := append_cons_cancel
    (firstReadable.returns.not_mem (by decide))
    (secondReadable.returns.not_mem (by decide)) letters
  obtain ⟨sameSymbol, letters⟩ := append_cons_cancel
    (firstReadable.symbol.not_mem (by decide))
    (secondReadable.symbol.not_mem (by decide)) (List.append_cancel_left letters)
  exact ⟨String.toList_injective sameReturns, String.toList_injective sameSymbol,
    parameters_eq_of_text_eq firstReadable secondReadable
      (String.toList_injective (List.append_cancel_right letters))⟩

theorem parts_eq_of_lookup_eq (same : first.lookup = second.lookup) :
    first.managedName = second.managedName ∧
      "(" ++ String.join first.described ++ ")" ++ first.result =
        "(" ++ String.join second.described ++ ")" ++ second.result :=
  quoted_cancel firstReadable.managedName secondReadable.managedName same

omit firstReadable secondReadable in
theorem isStatic_eq_of_call_eq (sameReturns : first.returns = second.returns)
    (sameResult : first.result = second.result)
    (sameParameters : first.parameters = second.parameters) (same : first.call = second.call) :
    first.isStatic = second.isStatic := by
  have unstatic :
      { first with isStatic := false }.call = { second with isStatic := false }.call := by
    simp only [call, sameReturns, sameResult, sameParameters]
  have firstLength := first.length_call
  have secondLength := second.length_call
  rw [same, unstatic] at firstLength
  have sameCount : (if first.isStatic then 4 else 0) = if second.isStatic then 4 else 0 := by omega
  revert sameCount
  cases first.isStatic <;> cases second.isStatic <;> decide

end MethodForm

namespace Namespace

theorem isSymbolLetter_of_mem_identifier {letters : List Char}
    (identifier : isIdentifier letters = true) :
    ∀ letter ∈ letters, isSymbolLetter letter = true := by
  cases letters with
  | nil => exact List.forall_mem_nil _
  | cons first letters =>
    simp only [isIdentifier, isLetter, Bool.and_eq_true, List.all_eq_true, Bool.or_eq_true]
      at identifier
    refine List.forall_mem_cons.mpr ⟨?_, fun letter member => ?_⟩
    · simp only [isSymbolLetter, Char.isAlphanum, Bool.or_eq_true]
      tauto
    · have kind := identifier.2 letter member
      simp only [isSymbolLetter, Char.isAlphanum, Bool.or_eq_true]
      tauto

theorem symbolic_of_isValid {home : Namespace} (valid : home.isValid = true) :
    ∀ segment ∈ home.segments, Within (isSymbolLetter · = true) segment :=
  fun segment listed => isSymbolLetter_of_mem_identifier (List.all_eq_true.mp valid segment listed)

/-- The blank after a segment ends it. -/
theorem segmentBeginning_prefixFree :
    PrefixFree (fun segment => ' ' ∉ segment.toList)
      fun segment => ("namespace " ++ segment ++ " \x7b ").toList := by
  intro first second firstWhole secondWhole firstRest secondRest same
  have ended : " \x7b ".toList = ' ' :: ['\x7b', ' '] := rfl
  simp only [String.toList_append, ended, List.append_assoc, List.cons_append] at same
  obtain ⟨sameSegment, rest⟩ :=
    append_cons_cancel firstWhole secondWhole (List.append_cancel_left same)
  have opened : ['\x7b', ' '] ++ firstRest = ['\x7b', ' '] ++ secondRest := rest
  exact ⟨String.toList_injective sameSegment, List.append_cancel_left opened⟩

theorem eq_of_beginning_eq {first second : Namespace}
    (firstWhole : ∀ segment ∈ first.segments, ' ' ∉ segment.toList)
    (secondWhole : ∀ segment ∈ second.segments, ' ' ∉ segment.toList)
    (same : first.beginning = second.beginning) : first = second := by
  have letters := congrArg String.toList same
  rw [beginning, beginning, String.toList_join, String.toList_join, List.flatMap_map,
    List.flatMap_map] at letters
  have segments := segmentBeginning_prefixFree.eq_of_flatMap_eq (by simp) firstWhole secondWhole
    letters
  cases first
  cases second
  cases segments
  rfl

end Namespace

namespace Peer

/-- What follows the inclusion of the precompiled header. -/
theorem definition_eq (header : Option String) (peer : Peer) :
    peer.definition header =
      (notice :: (header.map fun header => "#include \"" ++ header ++ "\"").toList) ++
        (peer.definition none).tail := by
  simp only [definition, List.append_assoc, List.cons_append, List.nil_append, Option.map_none,
    Option.toList_none, List.tail_cons]

theorem parts_eq_of_definition_eq {first second : Peer}
    (firstWhole : ∀ segment ∈ first.home.segments, ' ' ∉ segment.toList)
    (secondWhole : ∀ segment ∈ second.home.segments, ' ' ∉ segment.toList)
    (firstUnslashed : '/' ∉ first.className.toList)
    (secondUnslashed : '/' ∉ second.className.toList)
    (same : first.definition none = second.definition none) :
    first.className = second.className ∧ first.baseName = second.baseName ∧
      first.home = second.home ∧
      List.Forall₂ (fun shown other =>
        shown.definition first.baseName = other.definition first.baseName)
        first.methods second.methods := by
  simp only [definition, classLookup, List.cons_append, List.nil_append, Option.map_none,
    Option.toList_none, List.cons.injEq, true_and] at same
  obtain ⟨included, beginning, _, _, _, looked, methods⟩ := same
  have base : first.baseName = second.baseName :=
    (String.append_right_inj _).mp ((String.append_left_inj _).mp included)
  have home := Namespace.eq_of_beginning_eq firstWhole secondWhole beginning
  have described : classDescriptor first.className = classDescriptor second.className :=
    (String.append_right_inj _).mp ((String.append_left_inj _).mp looked)
  have letters := congrArg String.toList described
  simp only [toList_classDescriptor, List.cons.injEq, true_and, List.append_left_inj] at letters
  rw [← base, home] at methods
  refine ⟨?_, base, home, ?_⟩
  · exact String.toList_injective (map_slashed_injective firstUnslashed secondUnslashed letters)
  · have sized : ∀ shown, (BoundMethod.definition first.baseName shown).length = 7 + 1 :=
      fun _ => rfl
    exact forall₂_of_flatMap_eq sized (List.append_cancel_right methods)

end Peer

/-- A letter that a file shows as it is and that ends no part of a line. The line feed is the only
control character that ends a line. -/
def isLegibleLetter (letter : Char) : Bool :=
  letter.toNat < 0x100 && ['\n', '"', '/', ';'].all (letter ≠ ·)

theorem isPlainLetter_of_isLegibleLetter {letter : Char} (legible : isLegibleLetter letter = true) :
    isPlainLetter letter = true := by
  simp only [isLegibleLetter, List.all_cons, Bool.and_eq_true, decide_eq_true_eq] at legible
  rw [isPlainLetter, decide_eq_true legible.1, decide_eq_true legible.2.1]
  rfl

/-- A type whose descriptor stands in a file as it is. -/
structure ManagedType.IsLegible (type : ManagedType) : Prop where
  regular : type.isRegular = true
  named : ∀ className, type.referencedClass? = some className →
    className ≠ stringClass ∧ Within (isLegibleLetter · = true) className

instance (type : ManagedType) : Decidable type.IsLegible :=
  decidable_of_iff (type.isRegular = true ∧ ∀ className ∈ type.referencedClass?,
      className ≠ stringClass ∧ Within (isLegibleLetter · = true) className)
    ⟨fun parts => ⟨parts.1, parts.2⟩, fun legible => ⟨legible.regular, legible.named⟩⟩

theorem ManagedType.IsLegible.describable {type : ManagedType} (legible : type.IsLegible) :
    type.IsDescribable := by
  refine ⟨legible.regular, fun className named => ?_⟩
  obtain ⟨proper, letters⟩ := legible.named className named
  exact ⟨proper, letters.not_mem (by decide), letters.not_mem (by decide)⟩

/-- A tagged class whose names and types stand in the source of its peer as they are. -/
structure ManagedClass.IsLegible (configuration : Configuration) (declared : ManagedClass) :
    Prop where
  qualifiedName : Within (isLegibleLetter · = true) declared.qualifiedName
  methodNames : ∀ method ∈ declared.taggedMethods, Within (isLegibleLetter · = true) method.name
  types : ∀ method ∈ declared.taggedMethods, ∀ type ∈ method.usedTypes, type.IsLegible
  home : ∀ home, Peer.homeOf configuration declared = .ok home → home.isValid = true

section Within

variable {allowed : Char → Prop}
  (template : ∀ letter, isTemplateLetter letter = true → allowed letter)

include template

theorem within_classDescriptor {className : String} (within : Within allowed className) :
    Within allowed (classDescriptor className) := by
  intro letter member
  rw [toList_classDescriptor, List.mem_cons, List.mem_append, List.mem_singleton,
    List.mem_map] at member
  rcases member with rfl | ⟨written, inside, rfl⟩ | rfl
  · exact template 'L' (by decide)
  · unfold slashed
    split
    · exact template '/' (by decide)
    · exact within written inside
  · exact template ';' (by decide)

theorem ManagedType.within_descriptor (type : ManagedType)
    (named : ∀ className, type.referencedClass? = some className → Within allowed className) :
    Within allowed type.descriptor := by
  induction type with
  | void => exact within_of_letters template (by decide)
  | primitive kind => cases kind <;> exact within_of_letters template (by decide)
  | string => exact within_of_template template (by decide)
  | reference className => exact within_classDescriptor template (named className rfl)
  | array element dimension inductionHypothesis =>
    refine within_append.mpr ⟨fun letter member => ?_, inductionHypothesis named⟩
    rw [String.toList_ofList] at member
    rw [List.eq_of_mem_replicate member]
    exact template '[' (by decide)

theorem Method.within_descriptor (method : Method)
    (types : ∀ type ∈ method.usedTypes, Within allowed type.descriptor) :
    Within allowed method.descriptor := by
  rw [usedTypes, List.forall_mem_cons, List.forall_mem_map] at types
  have parameters : Within allowed method.parametersDescriptor :=
    within_join (List.forall_mem_map.mpr types.2)
  simp (disch := refine within_ofList ?_; decide) only [descriptor, within_append,
    within_of_template template, parameters, types.1, and_self]

end Within

/-- What the source of a peer tells of a method. -/
structure Method.SameBinding (first second : Method) : Prop where
  name : first.name = second.name
  isStatic : first.isStatic = second.isStatic
  returns : first.returns = second.returns
  types : first.parameters.map Parameter.type = second.parameters.map Parameter.type
  names : (first.parameters.map fun parameter => SymbolRole.member.mangle parameter.name) =
    second.parameters.map fun parameter => SymbolRole.member.mangle parameter.name

theorem Method.sameBinding_of_definition_eq {firstModel secondModel : ClassModel}
    {firstSymbol secondSymbol : Method → String} {first second : Method}
    {shown other : BoundMethod} (binds : Peer.BindsMethod firstModel firstSymbol first shown)
    (otherBinds : Peer.BindsMethod secondModel secondSymbol second other)
    (readable : (MethodForm.ofBound shown).IsReadable)
    (otherReadable : (MethodForm.ofBound other).IsReadable)
    (describable : ∀ type ∈ first.usedTypes, type.IsDescribable)
    (otherDescribable : ∀ type ∈ second.usedTypes, type.IsDescribable) {baseName : String}
    (same : shown.definition baseName = other.definition baseName) : first.SameBinding second := by
  have shows := MethodForm.shows_ofBound binds
  have otherShows := MethodForm.shows_ofBound otherBinds
  rw [MethodForm.definition_ofBound binds, MethodForm.definition_ofBound otherBinds] at same
  simp only [MethodForm.definition, MethodForm.front, MethodForm.back, List.cons_append,
    List.nil_append, List.cons.injEq, true_and, and_true] at same
  obtain ⟨signature, lookup, call⟩ := same
  obtain ⟨native, _, parameters⟩ :=
    MethodForm.parts_eq_of_signature_eq readable otherReadable signature
  obtain ⟨name, descriptor⟩ := MethodForm.parts_eq_of_lookup_eq readable otherReadable lookup
  rw [shows.described, otherShows.described, shows.result, otherShows.result] at descriptor
  obtain ⟨returns, types⟩ :=
    Method.types_eq_of_descriptor_eq describable otherDescribable descriptor
  have result : (MethodForm.ofBound shown).result = (MethodForm.ofBound other).result := by
    rw [shows.result, otherShows.result, returns]
  have isStatic := MethodForm.isStatic_eq_of_call_eq native result parameters call
  exact ⟨shows.managedName.symm.trans (name.trans otherShows.managedName),
    shows.isStatic.symm.trans (isStatic.trans otherShows.isStatic), returns, types,
    shows.names.symm.trans ((congrArg _ parameters).trans otherShows.names)⟩

/-- What the source of a peer tells of a class. -/
structure ManagedClass.SameBinding (configuration : Configuration) (first second : ManagedClass) :
    Prop where
  qualifiedName : first.qualifiedName = second.qualifiedName
  baseName : Peer.baseNameOf first = Peer.baseNameOf second
  home : Peer.homeOf configuration first = Peer.homeOf configuration second
  methods : List.Forall₂ Method.SameBinding first.taggedMethods second.taggedMethods

/-- A bound method has a readable form if no quotation mark ends its name early. -/
theorem MethodForm.isReadable_ofBound {peer : Peer} (symbolic : peer.IsSymbolic)
    {shown : BoundMethod} (member : shown ∈ peer.methods)
    (unquoted : '"' ∉ shown.method.name.toList) : (ofBound shown).IsReadable where
  managedName := unquoted
  symbol := symbolic.symbols shown member
  returns := shown.returns.symbolic_name
  parameters := List.forall_mem_map.mpr fun parameter given =>
    ⟨parameter.type.symbolic_name, symbolic.parameters shown member parameter given⟩

namespace ManagedClass.IsLegible

variable {model : ClassModel} {configuration : Configuration} {declared : ManagedClass}
  {peer : Peer} (legible : declared.IsLegible configuration)
  (bound : (Peer.bind model configuration declared).result = .ok peer)

include legible bound

theorem symbolic_home :
    ∀ segment ∈ peer.home.segments, Within (isSymbolLetter · = true) segment := by
  obtain ⟨_, _, housed, _, _⟩ := Peer.bind_binds bound
  exact Namespace.symbolic_of_isValid (legible.home peer.home housed)

theorem plain_definition :
    ∀ line ∈ peer.definition none, Within (isPlainLetter · = true) line := by
  obtain ⟨className, _, _, _, methods⟩ := Peer.bind_binds bound
  have template : ∀ letter, isTemplateLetter letter = true → isPlainLetter letter = true :=
    fun _ => isPlainLetter_of_isTemplateLetter
  refine Peer.within_definition template (Peer.isSymbolic_of_bind bound) ?_ ?_ ?_
  · exact fun segment listed =>
      within_of_symbol template (legible.symbolic_home bound segment listed)
  · rw [className]
    exact within_classDescriptor template
      (legible.qualifiedName.mono fun _ => isPlainLetter_of_isLegibleLetter)
  · intro shown member
    obtain ⟨method, listed, binds⟩ := exists_of_forall₂_of_mem methods member
    have plain {text : String} (within : Within (isLegibleLetter · = true) text) :
        Within (isPlainLetter · = true) text :=
      within.mono fun _ => isPlainLetter_of_isLegibleLetter
    rw [binds.method_eq]
    refine ⟨plain (legible.methodNames method listed), method.within_descriptor template ?_⟩
    exact fun type used => type.within_descriptor template fun className named =>
      plain (((legible.types method listed type used).named className named).2)

end ManagedClass.IsLegible

/-- Three relations side by side compose. -/
theorem forall₂_through {A B C D : Type} {left : A → B → Prop} {middle : B → C → Prop}
    {right : D → C → Prop} {whole : A → D → Prop} {firsts : List A} {seconds : List B}
    {thirds : List C} {fourths : List D} (lefts : List.Forall₂ left firsts seconds)
    (middles : List.Forall₂ middle seconds thirds) (rights : List.Forall₂ right fourths thirds)
    (composed : ∀ first ∈ firsts, ∀ second ∈ seconds, ∀ third ∈ thirds, ∀ fourth ∈ fourths,
      left first second → middle second third → right fourth third → whole first fourth) :
    List.Forall₂ whole firsts fourths := by
  induction middles generalizing firsts fourths with
  | nil =>
    cases lefts
    cases rights
    exact .nil
  | cons pair _ inductionHypothesis =>
    cases lefts with
    | cons leftPair lefts =>
      cases rights with
      | cons rightPair rights =>
        refine .cons ?_ (inductionHypothesis lefts rights ?_)
        · exact composed _ List.mem_cons_self _ List.mem_cons_self _ List.mem_cons_self _
            List.mem_cons_self leftPair pair rightPair
        · intro first firstListed second secondListed third thirdListed fourth fourthListed
          exact composed _ (List.mem_cons_of_mem _ firstListed) _
            (List.mem_cons_of_mem _ secondListed) _ (List.mem_cons_of_mem _ thirdListed) _
            (List.mem_cons_of_mem _ fourthListed)

namespace PeerSource

/-- The inclusion of the precompiled header is the same in all sources. -/
theorem definition_eq_of_source_eq {configuration : Configuration} {first second : Peer}
    (firstPlain : ∀ line ∈ first.definition none, Within (isPlainLetter · = true) line)
    (secondPlain : ∀ line ∈ second.definition none, Within (isPlainLetter · = true) line)
    (same : (ofPeer configuration first).source = (ofPeer configuration second).source) :
    first.definition none = second.definition none := by
  rw [ofPeer, ofPeer, Peer.definition_eq _ first, Peer.definition_eq _ second, encode_append,
    encode_append] at same
  have rest := encode_injective configuration.host
    (fun line member => firstPlain line (List.mem_of_mem_tail member))
    (fun line member => secondPlain line (List.mem_of_mem_tail member))
    (List.append_cancel_left same)
  rw [Peer.definition_eq none first, Peer.definition_eq none second, rest]

variable {firstModel secondModel : ClassModel} {configuration : Configuration}
  {firstClass secondClass : ManagedClass} {first second : PeerSource}
  (firstRendered : (render firstModel configuration firstClass).result = .ok first)
  (secondRendered : (render secondModel configuration secondClass).result = .ok second)
  (firstLegible : firstClass.IsLegible configuration)
  (secondLegible : secondClass.IsLegible configuration)

include firstRendered secondRendered firstLegible secondLegible

/-- The source of a legible class reads back to what has been bound. -/
theorem sameBinding_of_source_eq (same : first.source = second.source) :
    firstClass.SameBinding configuration secondClass := by
  obtain ⟨firstPeer, firstBound, rfl⟩ := render_eq_ok.mp firstRendered
  obtain ⟨secondPeer, secondBound, rfl⟩ := render_eq_ok.mp secondRendered
  have lines := definition_eq_of_source_eq (firstLegible.plain_definition firstBound)
    (secondLegible.plain_definition secondBound) same
  obtain ⟨firstName, firstBase, firstHome, _, firstMethods⟩ := Peer.bind_binds firstBound
  obtain ⟨secondName, secondBase, secondHome, _, secondMethods⟩ := Peer.bind_binds secondBound
  have whole {home : Namespace}
      (symbolic : ∀ segment ∈ home.segments, Within (isSymbolLetter · = true) segment) :
      ∀ segment ∈ home.segments, ' ' ∉ segment.toList :=
    fun segment listed => (symbolic segment listed).not_mem (by decide)
  obtain ⟨name, base, home, methods⟩ := Peer.parts_eq_of_definition_eq
    (whole (firstLegible.symbolic_home firstBound))
    (whole (secondLegible.symbolic_home secondBound))
    (firstName ▸ firstLegible.qualifiedName.not_mem (by decide))
    (secondName ▸ secondLegible.qualifiedName.not_mem (by decide)) lines
  refine ⟨firstName ▸ secondName ▸ name, firstBase ▸ secondBase ▸ base, ?_, ?_⟩
  · rw [firstHome, secondHome, home]
  · refine forall₂_through firstMethods methods secondMethods ?_
    intro method methodListed shown shownListed other otherListed otherMethod otherMethodListed
      binds same otherBinds
    refine Method.sameBinding_of_definition_eq binds otherBinds ?_ ?_ ?_ ?_ same
    · refine MethodForm.isReadable_ofBound (Peer.isSymbolic_of_bind firstBound) shownListed ?_
      rw [binds.method_eq]
      exact (firstLegible.methodNames method methodListed).not_mem (by decide)
    · refine MethodForm.isReadable_ofBound (Peer.isSymbolic_of_bind secondBound) otherListed ?_
      rw [otherBinds.method_eq]
      exact (secondLegible.methodNames otherMethod otherMethodListed).not_mem (by decide)
    · exact fun type used => (firstLegible.types method methodListed type used).describable
    · exact fun type used =>
        (secondLegible.types otherMethod otherMethodListed type used).describable

/-- Sources that bind something else have other bytes, and a file of the one is not taken for the
other. -/
theorem render_source_injective :
    (first.source = second.source → firstClass.SameBinding configuration secondClass) ∧
      ∀ (session after : Session) (force verbose : Bool) (path : String),
        session.tree.read path = .ok first.source →
        session.perform (writeContent force verbose path second.source) = (.ok .unchanged, after) →
        firstClass.SameBinding configuration secondClass := by
  have injective := sameBinding_of_source_eq firstRendered secondRendered firstLegible secondLegible
  refine ⟨injective, fun session after force verbose path present written => injective ?_⟩
  have again := read_of_perform_unchanged written
  exact Except.ok.inj (present.symm.trans again)

omit firstRendered secondRendered firstLegible secondLegible

/-- This class differs in what no peer shows. -/
def repaintedCar : ManagedClass :=
  { overloadedCar with
    fields := [⟨"colour", .string, false, false, none⟩]
    methods := ⟨"paint", .void, [], false, false⟩ :: overloadedCar.methods }

theorem render_source_injective_repainted :
    ∃ first second, (render .runtime tellingApart overloadedCar).result = .ok first ∧
      (render .runtime tellingApart repaintedCar).result = .ok second ∧
      first.source = second.source ∧ overloadedCar.SameBinding tellingApart repaintedCar := by
  have rendered : ∃ source, (render .runtime tellingApart overloadedCar).result = .ok source :=
    ⟨_, rfl⟩
  obtain ⟨source, succeeded⟩ := rendered
  have same : (render .runtime tellingApart repaintedCar).result =
      (render .runtime tellingApart overloadedCar).result := rfl
  have legible : overloadedCar.IsLegible tellingApart := by
    refine ⟨by decide, by decide, by decide, fun home housed => ?_⟩
    cases housed
    decide
  have repainted : repaintedCar.IsLegible tellingApart :=
    ⟨legible.qualifiedName, legible.methodNames, legible.types, legible.home⟩
  exact ⟨source, source, succeeded, same.trans succeeded, rfl,
    (render_source_injective succeeded (same.trans succeeded) legible repainted).1 rfl⟩

end PeerSource

end NativePeer
