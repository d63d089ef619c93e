import ScopeScript.Store.Scope

/-! # Classes and instances

A property of an instance is its field of that name, or else the method of that name of its class or
of the nearest class above it, bound to the instance. Binding puts a scope with `this` between a
method and the scope it was declared in.
-/

namespace ScopeScript

/-- What a property of an instance is. -/
inductive Property (ε : Type) where
  | field (value : Value)
  | method (closure : Closure ε)

namespace Heap

variable {ε : Type}

/-- The method of a class or of the nearest class above it, among the first `fuel` classes. -/
def findMethodWithin? (heap : Heap ε) (name : String) : Nat → ClassId → Option (Closure ε)
  | 0, _ => none
  | fuel + 1, id =>
    match heap.classes[id]? with
    | none => none
    | some cls =>
      match cls.methods.find? name with
      | some method => some method
      | none =>
        match cls.superclass with
        | none => none
        | some superclass => heap.findMethodWithin? name fuel superclass

/-- The method of a class or of the nearest class above it. A class comes after its superclass in
the heap, so there are at most as many classes above it as its place says. -/
def findMethod? (heap : Heap ε) (id : ClassId) (name : String) : Option (Closure ε) :=
  heap.findMethodWithin? name (id + 1) id

/-- The property of an instance with a given name. -/
def property? (heap : Heap ε) (id : InstanceId) (name : String) : Option (Property ε) :=
  match heap.instances[id]? with
  | none => none
  | some object =>
    match object.fields.find? name with
    | some value => some (.field value)
    | none => (heap.findMethod? object.classId name).map .method

/-- Set a field of an instance. -/
def setField (heap : Heap ε) (id : InstanceId) (name : String) (value : Value) : Heap ε :=
  { heap with instances := heap.instances.modify id fun object =>
      { object with fields := object.fields.insert name value } }

/-- How many arguments a value takes when it is called, if it can be called. A class takes those of
its initializer. -/
def arity? (heap : Heap ε) : Value → Option Nat
  | .native id => heap.natives[id]?.map Native.arity
  | .function id => heap.functions[id]?.map (·.declaration.params.length)
  | .cls id =>
    match heap.findMethod? id initializerName with
    | some method => some method.declaration.params.length
    | none => some 0
  | _ => none

end Heap

namespace Store

/-- Bind a method to an instance. -/
def bindMethod (store : Store) (method : Closure ScopeId) (receiver : InstanceId) :
    Closure ScopeId × Store :=
  let scope := (Scope.empty (some method.scope)).bind "this" ⟨.object receiver, true⟩
  let (id, store) := store.addScope scope
  ({ method with scope := id }, store)

/-- Bind a method to an instance, as a value. -/
def bindMethodValue (store : Store) (method : Closure ScopeId) (receiver : InstanceId) :
    Value × Store :=
  let (closure, store) := store.bindMethod method receiver
  let (id, store) := store.addFunction closure
  (.function id, store)

/-- Set a field of an instance. -/
def setField (store : Store) (id : InstanceId) (name : String) (value : Value) : Store :=
  { store with toHeap := store.toHeap.setField id name value }

end Store

end ScopeScript
