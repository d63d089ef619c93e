/-! # Values

Functions, classes and instances are referred to by their place in a store, and two of them are the
same exactly when their places are. Numbers are compared as doubles, so that no number that is not a
number equals itself.
-/

namespace ScopeScript

/-- The place of a scope in a store. -/
abbrev ScopeId := Nat

/-- The place of a native function in a store. -/
abbrev NativeId := Nat

/-- The place of a function in a store. -/
abbrev FunctionId := Nat

/-- The place of a class in a store. -/
abbrev ClassId := Nat

/-- The place of an instance in a store. -/
abbrev InstanceId := Nat

/-- A value of the language. -/
inductive Value where
  | nil
  | bool (value : Bool)
  | number (value : Float)
  | string (text : String)
  | native (id : NativeId)
  | function (id : FunctionId)
  | cls (id : ClassId)
  | object (id : InstanceId)

namespace Value

/-- Values of different types are never equal. -/
protected def beq : Value → Value → Bool
  | .nil, .nil => true
  | .bool a, .bool b => a == b
  | .number a, .number b => a == b
  | .string a, .string b => a == b
  | .native a, .native b => a == b
  | .function a, .function b => a == b
  | .cls a, .cls b => a == b
  | .object a, .object b => a == b
  | _, _ => false

instance : BEq Value := ⟨Value.beq⟩

/-- Only numbers can equal something other than themselves. -/
theorem eq_of_beq {a b : Value} (h : (a == b) = true) (hb : ∀ value, b ≠ .number value) :
    a = b := by
  cases b with
  | number value => exact absurd rfl (hb value)
  | nil | bool | string | native | function | cls | object =>
      cases a <;> simp_all [BEq.beq, Value.beq]

/-- The values that a condition takes for false: the absent value, false, zero and three spellings
of the word. -/
def truthy : Value → Bool
  | .nil => false
  | .bool value => value
  | .number value => !(value == 0.0)
  | .string text => !(text = "false" || text = "False" || text = "FALSE")
  | _ => true

/-- The types that values have in messages. -/
inductive TypeName where
  | nil | boolean | number | string | function | cls | object
  deriving DecidableEq

/-- The type of a value. -/
def typeName : Value → TypeName
  | .nil => .nil
  | .bool _ => .boolean
  | .number _ => .number
  | .string _ => .string
  | .native _ | .function _ => .function
  | .cls _ => .cls
  | .object _ => .object

/-- The word for a type. -/
def TypeName.text : TypeName → String
  | .nil => "nil"
  | .boolean => "boolean"
  | .number => "number"
  | .string => "string"
  | .function => "function"
  | .cls => "class"
  | .object => "instance"

end Value

end ScopeScript
