import ScopeScript.Fault
import ScopeScript.NameMap
import ScopeScript.Syntax.Basic

/-! # The store

Everything that a program shares lives in a store: scopes, functions, classes, instances and
natives, each referred to by its place. All but the scopes make up a heap, which does not care what
a function keeps of the surroundings it was declared in. The store only grows. What is added refers
only to what was there before, which is why walking outward through scopes or upward through classes
comes to an end; reading a place that does not exist gives an empty thing, so that nothing here
depends on that.
-/

namespace ScopeScript

/-- A name's value in a scope, and whether it may be assigned to. -/
structure Binding where
  value : Value
  mutable : Bool

/-- A scope: its own names, and the scope around it. -/
structure Scope where
  bindings : NameMap Binding
  parent : Option ScopeId

/-- A function with the surroundings it was declared in. -/
structure Closure (ε : Type) where
  declaration : FunctionDecl Stmt
  scope : ε
  isInitializer : Bool

/-- A class: its name, its superclass and its own methods. -/
structure Class (ε : Type) where
  name : String
  superclass : Option ClassId
  methods : NameMap (Closure ε)

/-- An instance: its class and its fields. -/
structure Instance where
  classId : ClassId
  fields : NameMap Value

/-- What a native function does. -/
inductive NativeBehaviour where
  /-- Give the time in seconds. -/
  | clock
  /-- Write the first argument as a line. -/
  | printLine
  /-- Give the first argument back. -/
  | first
  /-- Give the number of arguments. -/
  | count
  /-- Write every argument as a line. -/
  | emit
  /-- Fail. -/
  | fail
  /-- Call the first argument with the others, however many it wants. -/
  | apply
  deriving DecidableEq

/-- A native function. -/
structure Native where
  name : String
  arity : Nat
  behaviour : NativeBehaviour

/-- The functions, classes, instances and natives of a program. -/
structure Heap (ε : Type) where
  functions : Array (Closure ε) := #[]
  classes : Array (Class ε) := #[]
  instances : Array Instance := #[]
  natives : Array Native := #[]

/-- All that a program shares. -/
structure Store extends Heap ScopeId where
  scopes : Array Scope := #[]

/-- A scope without names. -/
def Scope.empty (parent : Option ScopeId) : Scope :=
  ⟨.empty, parent⟩

namespace Heap

variable {ε : Type}

/-- Add a function. -/
def addFunction (heap : Heap ε) (closure : Closure ε) : FunctionId × Heap ε :=
  (heap.functions.size, { heap with functions := heap.functions.push closure })

/-- Add a class. -/
def addClass (heap : Heap ε) (cls : Class ε) : ClassId × Heap ε :=
  (heap.classes.size, { heap with classes := heap.classes.push cls })

/-- Add an instance of a class, without fields. -/
def addInstance (heap : Heap ε) (classId : ClassId) : InstanceId × Heap ε :=
  (heap.instances.size, { heap with instances := heap.instances.push ⟨classId, .empty⟩ })

/-- Add a native function. -/
def addNative (heap : Heap ε) (native : Native) : NativeId × Heap ε :=
  (heap.natives.size, { heap with natives := heap.natives.push native })

end Heap

namespace Store

/-- The scope at a place. -/
def scope (store : Store) (id : ScopeId) : Scope :=
  store.scopes[id]?.getD (.empty none)

/-- Add a scope. -/
def addScope (store : Store) (scope : Scope) : ScopeId × Store :=
  (store.scopes.size, { store with scopes := store.scopes.push scope })

/-- A store with another heap. -/
def withHeap {α : Type} (store : Store) (result : α × Heap ScopeId) : α × Store :=
  (result.1, { store with toHeap := result.2 })

/-- Add a function. -/
def addFunction (store : Store) (closure : Closure ScopeId) : FunctionId × Store :=
  store.withHeap (store.toHeap.addFunction closure)

/-- Add a class. -/
def addClass (store : Store) (cls : Class ScopeId) : ClassId × Store :=
  store.withHeap (store.toHeap.addClass cls)

/-- Add an instance of a class, without fields. -/
def addInstance (store : Store) (classId : ClassId) : InstanceId × Store :=
  store.withHeap (store.toHeap.addInstance classId)

/-- Add a native function. -/
def addNative (store : Store) (native : Native) : NativeId × Store :=
  store.withHeap (store.toHeap.addNative native)

end Store

end ScopeScript
