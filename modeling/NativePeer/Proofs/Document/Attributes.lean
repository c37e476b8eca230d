import Mathlib.Data.List.Pairwise
import Mathlib.Data.List.Nodup
import Mathlib.Data.List.Perm.Basic
import NativePeer.Proofs.Document.Element

/-
This file shows that the attributes of an element are read each by itself, in whatever order they
stand.
-/

namespace NativePeer.Document

/-- An attribute that is known on an element: how its text is read and what its value sets. -/
structure Slot (A : Type) where
  key : String
  Value : Type
  parse? : String → Option Value
  put : Value → A → A

/-- An attribute whose text is its value. -/
def Slot.plain {A : Type} (key : String) (put : String → A → A) : Slot A where
  key := key
  Value := String
  parse? := some
  put := put

def Slot.Commutes {A : Type} (first second : Slot A) : Prop :=
  ∀ value other attributes,
    first.put value (second.put other attributes) = second.put other (first.put value attributes)

instance {A : Type} : Std.Symm (@Slot.Commutes A) :=
  ⟨fun _ _ commutes value other attributes => (commutes other value attributes).symm⟩

/-- The known attributes of an element. None of them sets what another one sets. -/
structure Slots (A : Type) where
  element : String
  list : List (Slot A)
  independent : list.Pairwise Slot.Commutes

namespace Slots

variable {A : Type} (slots : Slots A)

def keys : List String :=
  slots.list.map Slot.key

def find? (key : String) : Option (Slot A) :=
  slots.list.find? fun slot => slot.key = key

def set (attributes : A) (pair : String × String) : Except DocumentError A :=
  match slots.find? pair.1 with
  | none => .ok attributes
  | some slot =>
    (valid slots.element pair.1 pair.2 (slot.parse? pair.2)).map (slot.put · attributes)

variable {slots} {attributes middle last : A} {pair first second : String × String}

theorem find?_eq_none {key : String} : slots.find? key = none ↔ key ∉ slots.keys := by
  simp [find?, keys]

theorem key_of_find? {key : String} {slot : Slot A} (found : slots.find? key = some slot) :
    slot ∈ slots.list ∧ slot.key = key :=
  ⟨List.mem_of_find?_eq_some found, by simpa using List.find?_some found⟩

theorem exists_slot {key : String} (known : key ∈ slots.keys) :
    ∃ slot, slots.find? key = some slot :=
  Option.ne_none_iff_exists'.mp fun none => find?_eq_none.mp none known

theorem set_unknown (unknown : pair.1 ∉ slots.keys) :
    slots.set attributes pair = .ok attributes := by
  rw [set, find?_eq_none.mpr unknown]

theorem set_known_eq_ok {slot : Slot A} (found : slots.find? pair.1 = some slot) :
    slots.set attributes pair = .ok last ↔
      ∃ value, slot.parse? pair.2 = some value ∧ last = slot.put value attributes := by
  rw [set, found]
  dsimp only
  rw [except_map_eq_ok]
  exact exists_congr fun value => and_congr valid_eq_ok eq_comm

/-- Attributes of different keys may be set in either order. -/
theorem set_comm (distinct : first.1 ≠ second.1) (one : slots.set attributes first = .ok middle)
    (two : slots.set middle second = .ok last) :
    ∃ other, slots.set attributes second = .ok other ∧ slots.set other first = .ok last := by
  by_cases known : first.1 ∈ slots.keys
  · by_cases otherKnown : second.1 ∈ slots.keys
    · obtain ⟨slot, found⟩ := exists_slot known
      obtain ⟨turn, turnFound⟩ := exists_slot otherKnown
      obtain ⟨value, parsed, rfl⟩ := (set_known_eq_ok found).mp one
      obtain ⟨other, otherParsed, rfl⟩ := (set_known_eq_ok turnFound).mp two
      have apart : slot ≠ turn := fun same => distinct <| by
        rw [← (key_of_find? found).2, ← (key_of_find? turnFound).2, same]
      have commutes :=
        slots.independent.forall (key_of_find? found).1 (key_of_find? turnFound).1 apart
      exact ⟨_, (set_known_eq_ok turnFound).mpr ⟨other, otherParsed, rfl⟩,
        (set_known_eq_ok found).mpr ⟨value, parsed, (commutes value other attributes).symm⟩⟩
    · rw [set_unknown otherKnown] at two
      cases two
      exact ⟨attributes, set_unknown otherKnown, one⟩
  · rw [set_unknown known] at one
    cases one
    exact ⟨last, two, set_unknown known⟩

variable {pairs others : List (String × String)}

/-- Attributes of different keys may stand in any order. -/
theorem foldlM_perm (perm : pairs.Perm others) (distinct : (pairs.map Prod.fst).Nodup)
    (read : pairs.foldlM slots.set attributes = .ok last) :
    others.foldlM slots.set attributes = .ok last := by
  induction perm generalizing attributes with
  | nil => exact read
  | cons pair perm inductionHypothesis =>
    rw [List.foldlM_cons] at read ⊢
    obtain ⟨middle, one, rest⟩ := except_bind_eq_ok.mp read
    rw [one, except_ok_bind]
    exact inductionHypothesis (List.nodup_cons.mp distinct).2 rest
  | swap second first rest =>
    rw [List.foldlM_cons] at read
    obtain ⟨middle, one, read⟩ := except_bind_eq_ok.mp read
    rw [List.foldlM_cons] at read
    obtain ⟨next, two, rest⟩ := except_bind_eq_ok.mp read
    have apart : first.1 ≠ second.1 := fun same => (List.nodup_cons.mp distinct).1 (by simp [same])
    obtain ⟨other, turned, back⟩ := set_comm apart one two
    rw [List.foldlM_cons, turned, except_ok_bind, List.foldlM_cons, back, except_ok_bind]
    exact rest
  | trans perm _ first second =>
    exact second ((perm.map Prod.fst).nodup_iff.mp distinct) (first distinct read)

theorem foldlM_unknown (unknown : pair.1 ∉ slots.keys) :
    (pairs ++ pair :: others).foldlM slots.set attributes =
      (pairs ++ others).foldlM slots.set attributes := by
  rw [List.foldlM_append, List.foldlM_append]
  congr 1
  funext middle
  rw [List.foldlM_cons, set_unknown unknown, except_ok_bind]

/-- What no other attribute sets. -/
def IsSetBy {T : Type} (slots : Slots A) (key : String) (get : A → T) : Prop :=
  ∀ slot ∈ slots.list, slot.key ≠ key → ∀ value attributes,
    get (slot.put value attributes) = get attributes

theorem IsSetBy.set {T : Type} {get : A → T} {key : String} (isSetBy : slots.IsSetBy key get)
    (other : pair.1 ≠ key) (one : slots.set attributes pair = .ok last) :
    get last = get attributes := by
  by_cases known : pair.1 ∈ slots.keys
  · obtain ⟨slot, found⟩ := exists_slot known
    obtain ⟨value, _, rfl⟩ := (set_known_eq_ok found).mp one
    obtain ⟨listed, same⟩ := key_of_find? found
    exact isSetBy slot listed (same ▸ other) value attributes
  · rw [set_unknown known] at one
    cases one
    rfl

/-- What only one attribute sets stays as it is without that attribute. -/
theorem IsSetBy.foldlM {T : Type} {get : A → T} {key : String} (isSetBy : slots.IsSetBy key get)
    (absent : key ∉ pairs.map Prod.fst)
    (read : pairs.foldlM slots.set attributes = .ok last) : get last = get attributes := by
  induction pairs generalizing attributes with
  | nil =>
    cases read
    rfl
  | cons pair pairs inductionHypothesis =>
    rw [List.foldlM_cons] at read
    obtain ⟨middle, one, rest⟩ := except_bind_eq_ok.mp read
    rw [List.map_cons, List.mem_cons, not_or] at absent
    rw [inductionHypothesis absent.2 rest, isSetBy.set (Ne.symm absent.1) one]

/-- Without an attribute nothing changes but what it sets, and that stays as it was at first. -/
theorem foldlM_without {key text : String}
    (distinct : ((pairs ++ (key, text) :: others).map Prod.fst).Nodup)
    (read : (pairs ++ (key, text) :: others).foldlM slots.set attributes = .ok last) :
    ∃ less, (pairs ++ others).foldlM slots.set attributes = .ok less ∧
      ∀ {T : Type} {known : String} {get : A → T}, slots.IsSetBy known get →
        (known = key → get less = get attributes) ∧ (known ≠ key → get less = get last) := by
  -- The attribute may as well stand last, where nothing else is set after it.
  have moved : (pairs ++ (key, text) :: others).Perm ((pairs ++ others) ++ [(key, text)]) :=
    List.perm_middle.trans (List.perm_append_singleton _ _).symm
  have absent : key ∉ (pairs ++ others).map Prod.fst := by
    rw [(moved.map Prod.fst).nodup_iff, List.map_append] at distinct
    exact fun member => (List.nodup_append.mp distinct).2.2 key member key (by simp) rfl
  have read := foldlM_perm moved distinct read
  rw [List.foldlM_append] at read
  obtain ⟨less, rest, one⟩ := except_bind_eq_ok.mp read
  rw [List.foldlM_cons] at one
  obtain ⟨next, one, same⟩ := except_bind_eq_ok.mp one
  cases same
  refine ⟨less, rest, fun isSetBy => ⟨?_, fun other => (isSetBy.set (Ne.symm other) one).symm⟩⟩
  rintro rfl
  exact isSetBy.foldlM absent rest

/-- A reader that looks at nothing but the known attributes, each for itself. -/
def Reads {B : Type} (slots : Slots A) (read : List (String × String) → Except DocumentError B) :
    Prop :=
  ∃ (start : A) (next : A → Except DocumentError B),
    ∀ pairs, read pairs = pairs.foldlM slots.set start >>= next

section Reads

variable {B : Type} {read : List (String × String) → Except DocumentError B} {found : B}

theorem Reads.perm (reads : slots.Reads read) (perm : pairs.Perm others)
    (distinct : (pairs.map Prod.fst).Nodup) (succeeded : read pairs = .ok found) :
    read others = .ok found := by
  obtain ⟨start, next, shape⟩ := reads
  rw [shape] at succeeded ⊢
  obtain ⟨middle, folded, rest⟩ := except_bind_eq_ok.mp succeeded
  rw [foldlM_perm perm distinct folded]
  exact rest

theorem Reads.unknown (reads : slots.Reads read) (unknown : pair.1 ∉ slots.keys) :
    read (pairs ++ pair :: others) = read (pairs ++ others) := by
  obtain ⟨start, next, shape⟩ := reads
  rw [shape, shape, foldlM_unknown unknown]

end Reads

end Slots

def classSlots : Slots ClassAttributes where
  element := "class"
  list := [.plain "name" fun text attributes => { attributes with name := some text },
    .plain "simple" fun text attributes => { attributes with simple := some text },
    .plain "extends" fun text attributes => { attributes with parent := some text },
    ⟨"tagged", Bool, truth?, fun value attributes => { attributes with tagged := some value }⟩,
    ⟨"namespace", Namespace, Namespace.parse?,
      fun value attributes => { attributes with home := some value }⟩]
  independent := by simp [Slot.Commutes, Slot.plain]

def fieldSlots : Slots FieldAttributes where
  element := "field"
  list := [.plain "name" fun text attributes => { attributes with name := some text },
    ⟨"type", ManagedType, ManagedType.parse?,
      fun value attributes => { attributes with type := some value }⟩,
    ⟨"static", Bool, truth?, fun value attributes => { attributes with isStatic := value }⟩,
    ⟨"final", Bool, truth?, fun value attributes => { attributes with isFinal := value }⟩,
    .plain "value" fun text attributes => { attributes with value := some text }]
  independent := by simp [Slot.Commutes, Slot.plain]

def methodSlots : Slots MethodAttributes where
  element := "method"
  list := [.plain "name" fun text attributes => { attributes with name := some text },
    ⟨"returns", ManagedType, ManagedType.parse?,
      fun value attributes => { attributes with returns := some value }⟩,
    ⟨"static", Bool, truth?, fun value attributes => { attributes with isStatic := value }⟩,
    ⟨"tagged", Bool, truth?, fun value attributes => { attributes with isTagged := value }⟩]
  independent := by simp [Slot.Commutes, Slot.plain]

def parameterSlots : Slots ParameterAttributes where
  element := "param"
  list := [.plain "name" fun text attributes => { attributes with name := some text },
    ⟨"type", ManagedType, ManagedType.parse?,
      fun value attributes => { attributes with type := some value }⟩]
  independent := by simp [Slot.Commutes, Slot.plain]

theorem classSlots_set : classSlots.set = ClassAttributes.set := by
  funext attributes ⟨key, text⟩
  -- One case for each known key, in the order of the slots, and the last one for all others.
  unfold ClassAttributes.set
  dsimp only
  split
  · rfl
  · rfl
  · rfl
  · rfl
  · rfl
  · exact Slots.set_unknown (by simp_all [Slots.keys, classSlots, Slot.plain])

theorem fieldSlots_set : fieldSlots.set = FieldAttributes.set := by
  funext attributes ⟨key, text⟩
  unfold FieldAttributes.set
  dsimp only
  split
  · rfl
  · rfl
  · rfl
  · rfl
  · rfl
  · exact Slots.set_unknown (by simp_all [Slots.keys, fieldSlots, Slot.plain])

theorem methodSlots_set : methodSlots.set = MethodAttributes.set := by
  funext attributes ⟨key, text⟩
  unfold MethodAttributes.set
  dsimp only
  split
  · rfl
  · rfl
  · rfl
  · rfl
  · exact Slots.set_unknown (by simp_all [Slots.keys, methodSlots, Slot.plain])

theorem parameterSlots_set : parameterSlots.set = ParameterAttributes.set := by
  funext attributes ⟨key, text⟩
  unfold ParameterAttributes.set
  dsimp only
  split
  · rfl
  · rfl
  · exact Slots.set_unknown (by simp_all [Slots.keys, parameterSlots, Slot.plain])

/-- The attributes that count on an element. -/
def knownKeys (element : String) : List String :=
  match element with
  | "class" => classSlots.keys
  | "field" => fieldSlots.keys
  | "method" => methodSlots.keys
  | "param" => parameterSlots.keys
  | _ => []

theorem readClass_reads : classSlots.Reads readClass :=
  ⟨_, _, fun pairs => by rw [classSlots_set]; rfl⟩

theorem readField_reads : fieldSlots.Reads readField :=
  ⟨_, _, fun pairs => by rw [fieldSlots_set]; rfl⟩

theorem readMethod_reads : methodSlots.Reads readMethod :=
  ⟨_, _, fun pairs => by rw [methodSlots_set]; rfl⟩

theorem readParameter_reads : parameterSlots.Reads readParameter :=
  ⟨_, _, fun pairs => by rw [parameterSlots_set]; rfl⟩

end NativePeer.Document
