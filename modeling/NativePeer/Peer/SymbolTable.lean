import NativePeer.Generation.Error

/-
This file keeps the symbols of one scope apart.
-/

namespace NativePeer

/-- Each symbol has one owner. -/
structure SymbolTable where
  scope : String
  entries : List (String × String)

namespace SymbolTable

def reserved (scope : String) (entries : List (String × String)) : SymbolTable :=
  ⟨scope, entries⟩

def owner? (table : SymbolTable) (symbol : String) : Option String :=
  table.entries.lookup symbol

/-- The same owner may claim a symbol again. -/
def claim (table : SymbolTable) (symbol owner : String) : Except GenerationError SymbolTable :=
  match table.owner? symbol with
  | none => .ok { table with entries := (symbol, owner) :: table.entries }
  | some first =>
    if first = owner then .ok table else .error (.collision table.scope symbol first owner)

/-- After a claim the symbol belongs to the claimant. -/
theorem owner?_claim {table next : SymbolTable} {symbol owner : String}
    (claimed : table.claim symbol owner = .ok next) : next.owner? symbol = some owner := by
  unfold claim at claimed
  split at claimed
  · cases claimed
    simp [owner?]
  · next first present =>
    split at claimed
    · next same =>
      cases claimed
      rw [present, same]
    · cases claimed

/-- A claim takes no symbol from its owner. -/
theorem owner?_claim_of_some {table next : SymbolTable} {symbol owner other first : String}
    (claimed : table.claim symbol owner = .ok next) (present : table.owner? other = some first) :
    next.owner? other = some first := by
  unfold claim at claimed
  split at claimed
  · next absent =>
    cases claimed
    have different : other ≠ symbol := by
      intro same
      rw [same, absent] at present
      cases present
    have apart : (other == symbol) = false := beq_false_of_ne different
    simpa [owner?, List.lookup_cons, apart] using present
  · split at claimed
    · cases claimed
      exact present
    · cases claimed

end SymbolTable

end NativePeer
