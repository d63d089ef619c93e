import ScopeScript.Number.Layout
import ScopeScript.Store.Object
import ScopeScript.Text.Quoted

/-! # The texts of values

A value has the text that a program prints, and some values have a second text that shows what they
are made of.
-/

namespace ScopeScript

/-- Whole numbers are written out exactly, all others by their shortest digits. -/
def Value.numberLayout : Number.Layout where

namespace Heap

variable {ε : Type}

/-- The name of the class at a place. -/
def className (heap : Heap ε) (id : ClassId) : String :=
  (heap.classes[id]?.map Class.name).getD ""

/-- The name of the class of an instance. -/
def instanceClassName (heap : Heap ε) (id : InstanceId) : String :=
  (heap.instances[id]?.map (heap.className ·.classId)).getD ""

/-- The name of a function. -/
def functionName (heap : Heap ε) (id : FunctionId) : String :=
  (heap.functions[id]?.map (·.declaration.name.lexeme)).getD ""

/-- The name of a native function. -/
def nativeName (heap : Heap ε) (id : NativeId) : String :=
  (heap.natives[id]?.map Native.name).getD ""

/-- The text that a program prints for a value. -/
def display (heap : Heap ε) : Value → String
  | .nil => "nil"
  | .bool value => if value then "true" else "false"
  | .number value => Value.numberLayout.write value
  | .string text => text
  | .native id => s!"<native fn {heap.nativeName id}>"
  | .function id =>
    s!"<fn {heap.functionName id}/{(heap.arity? (.function id)).getD 0}>"
  | .cls id => heap.className id
  | .object id => s!"{heap.instanceClassName id} instance"

/-- The names of the fields of an instance, in order. -/
def fieldNames (heap : Heap ε) (id : InstanceId) : List String :=
  ((heap.instances[id]?.map (·.fields.names)).getD []).mergeSort (fun a b => a ≤ b)

/-- What a function or an instance is made of. -/
def inspect? (heap : Heap ε) : Value → Option String
  | .native id =>
    some s!"NativeFunction({heap.nativeName id}/{(heap.arity? (.native id)).getD 0})"
  | .function id => some s!"UserFunction({heap.functionName id})"
  | .object id =>
    let fields := ", ".intercalate ((heap.fieldNames id).map Text.quoted)
    some s!"Instance({heap.instanceClassName id} [{fields}])"
  | _ => none

end Heap

end ScopeScript
