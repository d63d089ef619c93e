import ScopeScript.Store.Display

/-! # Operators

What an operator makes of its operands. Which operators there are is decided by the kind of their
token; a token of another kind is an error only once its operands have been looked at.
-/

namespace ScopeScript

/-- The lesser of two numbers; what is not a number gives way to the other. -/
def lesser (a b : Float) : Float :=
  if a.isNaN then b else if b.isNaN then a else if b < a then b else a

/-- The greater of two numbers; what is not a number gives way to the other. -/
def greater (a b : Float) : Float :=
  if a.isNaN then b else if b.isNaN then a else if a < b then b else a

/-- Apply a unary operator. -/
def applyUnary (operator : Token) (right : Value) : Except RuntimeError Value :=
  match operator.kind with
  | .punct .minus =>
    match right with
    | .number n => .ok (.number (-n))
    | _ => .error ⟨operator, .operandNotNumber⟩
  | .punct .bang => .ok (.bool !right.truthy)
  | _ => .error ⟨operator, .invalidUnary⟩

/-- Apply an operator to two numbers. -/
def applyArithmetic (operator : Token) (a b : Float) : Except RuntimeError Value :=
  match operator.kind with
  | .punct .minus => .ok (.number (a - b))
  | .punct .star => .ok (.number (a * b))
  | .punct .slash => .ok (.number (a / b))
  | .punct .min => .ok (.number (lesser a b))
  | .punct .max => .ok (.number (greater a b))
  | .punct .less => .ok (.bool (a < b))
  | .punct .lessEqual => .ok (.bool (a ≤ b))
  | .punct .greater => .ok (.bool (b < a))
  | .punct .greaterEqual => .ok (.bool (b ≤ a))
  | _ => .error ⟨operator, .invalidBinary⟩

/-- Apply a binary operator. Two numbers are added, anything else is joined as text. -/
def applyBinary {ε : Type} (heap : Heap ε) (left : Value) (operator : Token) (right : Value) :
    Except RuntimeError Value :=
  match operator.kind with
  | .punct .plus =>
    match left, right with
    | .number a, .number b => .ok (.number (a + b))
    | _, _ => .ok (.string (heap.display left ++ heap.display right))
  | .punct .equalEqual => .ok (.bool (left == right))
  | .punct .bangEqual => .ok (.bool (!(left == right)))
  | _ =>
    match left, right with
    | .number a, .number b => applyArithmetic operator a b
    | _, _ => .error ⟨operator, .operandsNotNumbers left.typeName right.typeName⟩

/-- Whether the left operand of a logical operator decides. -/
def decides (operator : Token) (left : Value) : Bool :=
  match operator.kind with
  | .keyword .orKw => left.truthy
  | _ => !left.truthy

end ScopeScript
