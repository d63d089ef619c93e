import ScopeScript.Store.Basic

/-! # Names in scopes

A name is looked up either by walking outward from a scope to the first one that has it, or in the
scope that lies a given number of scopes outward. Each operation that can fail is split into a
check, which only reads the store, and an update that cannot fail; so a failing operation changes
nothing.
-/

namespace ScopeScript

/-- A scope with one name bound. -/
def Scope.bind (scope : Scope) (name : String) (binding : Binding) : Scope :=
  { scope with bindings := scope.bindings.insert name binding }

/-- A scope around which is `parent`, with names bound in turn; a name must not come twice. -/
def Scope.declareAll (scope : Scope) : List (Token × Value) → Except RuntimeError Scope
  | [] => .ok scope
  | (name, value) :: rest =>
    if scope.bindings.contains name.lexeme then .error ⟨name, .alreadyDeclared name.lexeme⟩
    else (scope.bind name.lexeme ⟨value, true⟩).declareAll rest

namespace Store

/-- The binding of a name in a scope itself. -/
def binding? (store : Store) (id : ScopeId) (name : String) : Option Binding :=
  (store.scope id).bindings.find? name

/-- Bind a name in a scope, whether it was bound or not. -/
def bind (store : Store) (id : ScopeId) (name : String) (binding : Binding) : Store :=
  { store with scopes := store.scopes.modify id (·.bind name binding) }

/-- The scope that lies `distance` scopes outward, or the outermost one before that. -/
def ancestor (store : Store) (id : ScopeId) : Nat → ScopeId
  | 0 => id
  | distance + 1 =>
    match (store.scope id).parent with
    | none => id
    | some parent => store.ancestor parent distance

/-- The first scope outward from `id` that binds a name, among the first `fuel` scopes. -/
def holderWithin? (store : Store) (name : String) : Nat → ScopeId → Option ScopeId
  | 0, _ => none
  | fuel + 1, id =>
    if (store.binding? id name).isSome then some id
    else
      match (store.scope id).parent with
      | none => none
      | some parent => store.holderWithin? name fuel parent

/-- The first scope outward that binds a name. A scope comes after the one around it in the store,
so there are at most as many scopes outward as its place says. -/
def holder? (store : Store) (id : ScopeId) (name : String) : Option ScopeId :=
  store.holderWithin? name (id + 1) id

/-- The value of a name in a scope itself. -/
def getHere (store : Store) (id : ScopeId) (name : Token) : Except RuntimeError Value :=
  match store.binding? id name.lexeme with
  | some binding => .ok binding.value
  | none => .error ⟨name, .undefinedVariable name.lexeme⟩

/-- The value of a name, found by walking outward. -/
def get (store : Store) (id : ScopeId) (name : Token) : Except RuntimeError Value :=
  match store.holder? id name.lexeme with
  | some holder => store.getHere holder name
  | none => .error ⟨name, .undefinedVariable name.lexeme⟩

/-- The value of a name in the scope that lies `distance` scopes outward. -/
def getAt (store : Store) (id : ScopeId) (distance : Nat) (name : Token) :
    Except RuntimeError Value :=
  store.getHere (store.ancestor id distance) name

/-- Check that a name may be declared in a scope. -/
def checkDeclare (store : Store) (id : ScopeId) (name : Token) : Option RuntimeError :=
  if (store.binding? id name.lexeme).isSome then some ⟨name, .alreadyDeclared name.lexeme⟩
  else none

/-- Declare a name in a scope. -/
def declare (store : Store) (id : ScopeId) (name : Token) (binding : Binding) :
    Except RuntimeError Store :=
  match store.checkDeclare id name with
  | some error => .error error
  | none => .ok (store.bind id name.lexeme binding)

/-- Check that a name of a scope itself may be assigned to. -/
def checkAssign (store : Store) (id : ScopeId) (name : Token) : Option RuntimeError :=
  match store.binding? id name.lexeme with
  | none => some ⟨name, .undefinedVariable name.lexeme⟩
  | some binding =>
    if binding.mutable then none else some ⟨name, .assignedConstant name.lexeme⟩

/-- The scope in which an assignment by walking outward takes effect. -/
def assignTarget (store : Store) (id : ScopeId) (name : Token) : Except RuntimeError ScopeId :=
  match store.holder? id name.lexeme with
  | none => .error ⟨name, .undefinedVariable name.lexeme⟩
  | some holder =>
    match store.checkAssign holder name with
    | some error => .error error
    | none => .ok holder

/-- The scope in which an assignment by distance takes effect. -/
def assignTargetAt (store : Store) (id : ScopeId) (distance : Nat) (name : Token) :
    Except RuntimeError ScopeId :=
  let scope := store.ancestor id distance
  match store.checkAssign scope name with
  | some error => .error error
  | none => .ok scope

/-- Set a name that may be assigned to. -/
def put (store : Store) (id : ScopeId) (name : Token) (value : Value) : Store :=
  store.bind id name.lexeme ⟨value, true⟩

/-- Assign to a name, found by walking outward. -/
def assign (store : Store) (id : ScopeId) (name : Token) (value : Value) :
    Except RuntimeError Store :=
  match store.assignTarget id name with
  | .error error => .error error
  | .ok scope => .ok (store.put scope name value)

/-- Assign to a name in the scope that lies `distance` scopes outward. -/
def assignAt (store : Store) (id : ScopeId) (distance : Nat) (name : Token) (value : Value) :
    Except RuntimeError Store :=
  match store.assignTargetAt id distance name with
  | .error error => .error error
  | .ok scope => .ok (store.put scope name value)

end Store

end ScopeScript
