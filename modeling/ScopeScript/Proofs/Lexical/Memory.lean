import ScopeScript.Machine.Operator
import ScopeScript.Proofs.Lexical.World

/-!
# The memories of the two machines

The memories agree if every cell holds what its place binds, the globals are the same, and functions
and methods have the same declarations and see the same from where they were declared. So what is
asked of a heap in order to call, print or look up a property has the same answer in both.
-/

namespace ScopeScript.Lexical

/-- Two arrays hold related things at the same places. -/
structure Pointwise {α β : Type} (R : α → β → Prop) (xs : Array α) (ys : Array β) : Prop where
  size : ys.size = xs.size
  get : ∀ (i : Nat) x, xs[i]? = some x → ∃ y, ys[i]? = some y ∧ R x y

namespace Pointwise

variable {α β : Type} {R R' : α → β → Prop} {xs : Array α} {ys : Array β}

theorem mono (h : Pointwise R xs ys) (hR : ∀ x y, R x y → R' x y) : Pointwise R' xs ys := by
  refine ⟨h.size, ?_⟩
  intro i x hx
  obtain ⟨y, hy, hxy⟩ := h.get i x hx
  exact ⟨y, hy, hR x y hxy⟩

theorem none (h : Pointwise R xs ys) {i : Nat} (hi : xs[i]? = none) : ys[i]? = none := by
  rw [Array.getElem?_eq_none_iff] at hi ⊢
  rw [h.size]
  exact hi

theorem push (h : Pointwise R xs ys) {x : α} {y : β} (hxy : R x y) :
    Pointwise R (xs.push x) (ys.push y) := by
  refine ⟨by simp [h.size], ?_⟩
  intro i x' hx'
  rw [Array.getElem?_push] at hx' ⊢
  rw [h.size]
  split
  next heq =>
    rw [if_pos heq] at hx'
    cases hx'
    exact ⟨y, rfl, hxy⟩
  next hne =>
    rw [if_neg hne] at hx'
    exact h.get i x' hx'

end Pointwise

-- What it means for a node to be recorded is fixed while a program runs.
variable (points : NodeId → Option Nat → Prop)

/-- Two functions have the same declaration, which is well scoped where they see the same. An
initializer has its receiver in the next scope. -/
structure SameClosure (w : World) (closure : Closure ScopeId) (closure' : Closure Environment) :
    Prop where
  declaration : closure'.declaration = closure.declaration
  isInitializer : closure'.isInitializer = closure.isInitializer
  scope : ∃ context, w.Sees closure.scope context closure'.scope
    ∧ FunctionDecl.Scoped points context closure.declaration
    ∧ (closure.isInitializer = true → ∃ outer, context = .receiver closure.declaration :: outer)

/-- Two methods, not yet bound to an instance, have the same declaration, which is well scoped
where they see the same and a receiver. -/
structure SameMethod (w : World) (superclass : Option ClassId) (method : Closure ScopeId)
    (method' : Closure Environment) : Prop where
  declaration : method'.declaration = method.declaration
  isInitializer : method'.isInitializer = method.isInitializer
  named : method.isInitializer = method.declaration.isInitializer
  scope : ∃ context, w.Sees method.scope context method'.scope
    ∧ FunctionDecl.Scoped points (.receiver method.declaration :: context) method.declaration
    ∧ w.store.Seats superclass method.scope context

/-- The methods of one name in two tables agree. -/
structure SameMethods (w : World) (superclass : Option ClassId)
    (methods : NameMap (Closure ScopeId))
    (methods' : NameMap (Closure Environment)) : Prop where
  absent : ∀ name, methods.find? name = none → methods'.find? name = none
  found : ∀ name method, methods.find? name = some method →
    ∃ method', methods'.find? name = some method' ∧ SameMethod points w superclass method method'

/-- Two classes have the same name and superclass, and their methods agree. -/
structure SameClass (w : World) (cls : Class ScopeId) (cls' : Class Environment) : Prop where
  name : cls'.name = cls.name
  superclass : cls'.superclass = cls.superclass
  methods : SameMethods points w cls.superclass cls.methods cls'.methods

/-- A heap agrees with that of a store. All natives are built in. -/
structure SameHeap (w : World) (heap : Heap Environment) : Prop where
  functions : Pointwise (SameClosure points w) w.store.functions heap.functions
  classes : Pointwise (SameClass points w) w.store.classes heap.classes
  instances : heap.instances = w.store.instances
  natives : heap.natives = w.store.natives
  builtin : ∀ (id : NativeId) native, w.store.natives[id]? = some native →
    native.behaviour = .clock ∨ native.behaviour = .printLine

/-- The memory of a state agrees with a store. -/
structure SameMemory (w : World) (state : State) : Prop where
  root : (w.store.scope w.globals).parent = none
  inside : w.globals < w.store.scopes.size
  names : ∀ name, state.globals.find? name = w.store.binding? w.globals name
  size : state.cells.size = w.places.length
  cells : ∀ (cell : CellId) id name, w.places[cell]? = some (id, name) →
    id ≠ w.globals ∧ state.cells[cell]? = w.store.binding? id name
  apart : ∀ (cell cell' : CellId) place, w.places[cell]? = some place →
    w.places[cell']? = some place → cell = cell'
  heap : SameHeap points w state.heap

variable {points}

/-! ## Growth -/

section Growth

variable {w w' : World}

theorem SameClosure.mono (hgrows : w.Grows w') {closure : Closure ScopeId}
    {closure' : Closure Environment} (h : SameClosure points w closure closure') :
    SameClosure points w' closure closure' := by
  obtain ⟨context, hsees, hscoped, hinitializer⟩ := h.scope
  exact ⟨h.declaration, h.isInitializer, context, hsees.mono hgrows, hscoped, hinitializer⟩

theorem SameMethod.mono (hgrows : w.Grows w') {superclass : Option ClassId}
    {method : Closure ScopeId} {method' : Closure Environment}
    (h : SameMethod points w superclass method method') :
    SameMethod points w' superclass method method' := by
  obtain ⟨context, hsees, hscoped, hseats⟩ := h.scope
  exact ⟨h.declaration, h.isInitializer, h.named, context, hsees.mono hgrows, hscoped,
    hgrows.store.seats hseats⟩

theorem SameClass.mono (hgrows : w.Grows w') {cls : Class ScopeId} {cls' : Class Environment}
    (h : SameClass points w cls cls') : SameClass points w' cls cls' := by
  refine ⟨h.name, h.superclass, h.methods.absent, ?_⟩
  intro name method hmethod
  obtain ⟨method', hmethod', hsame⟩ := h.methods.found name method hmethod
  exact ⟨method', hmethod', hsame.mono hgrows⟩

theorem SameHeap.mono (hgrows : w.Grows w') (hheap : w'.store.toHeap = w.store.toHeap)
    {heap : Heap Environment} (h : SameHeap points w heap) : SameHeap points w' heap := by
  refine ⟨?_, ?_, ?_, ?_, ?_⟩
  · rw [hheap]
    exact h.functions.mono fun _ _ => SameClosure.mono hgrows
  · rw [hheap]
    exact h.classes.mono fun _ _ => SameClass.mono hgrows
  · rw [hheap]
    exact h.instances
  · rw [hheap]
    exact h.natives
  · rw [hheap]
    exact h.builtin

end Growth

/-! ## More records -/

section Records

variable {w : World} {points' : NodeId → Option Nat → Prop}
  (hpoints : ∀ id distance, points id distance → points' id distance)

include hpoints

theorem SameClosure.recorded {closure : Closure ScopeId} {closure' : Closure Environment}
    (h : SameClosure points w closure closure') : SameClosure points' w closure closure' := by
  obtain ⟨context, hsees, hscoped, hinitializer⟩ := h.scope
  exact ⟨h.declaration, h.isInitializer, context, hsees,
    FunctionDecl.scoped_mono hpoints context _ hscoped, hinitializer⟩

theorem SameMethod.recorded {superclass : Option ClassId} {method : Closure ScopeId}
    {method' : Closure Environment} (h : SameMethod points w superclass method method') :
    SameMethod points' w superclass method method' := by
  obtain ⟨context, hsees, hscoped, hseats⟩ := h.scope
  exact ⟨h.declaration, h.isInitializer, h.named, context, hsees,
    FunctionDecl.scoped_mono hpoints _ _ hscoped, hseats⟩

theorem SameClass.recorded {cls : Class ScopeId} {cls' : Class Environment}
    (h : SameClass points w cls cls') : SameClass points' w cls cls' := by
  refine ⟨h.name, h.superclass, h.methods.absent, ?_⟩
  intro name method hmethod
  obtain ⟨method', hmethod', hsame⟩ := h.methods.found name method hmethod
  exact ⟨method', hmethod', hsame.recorded hpoints⟩

/-- Memories that agree do so when more nodes are recorded. -/
theorem SameMemory.recorded {state : State} (h : SameMemory points w state) :
    SameMemory points' w state := by
  refine ⟨h.root, h.inside, h.names, h.size, h.cells, h.apart, ?_, ?_, h.heap.instances,
    h.heap.natives, h.heap.builtin⟩
  · exact h.heap.functions.mono fun _ _ => SameClosure.recorded hpoints
  · exact h.heap.classes.mono fun _ _ => SameClass.recorded hpoints

end Records

/-- Only heap, cells and globals make up the memory of a state. -/
theorem SameMemory.congr {w : World} {state other : State} (h : SameMemory points w state)
    (hheap : other.heap = state.heap) (hcells : other.cells = state.cells)
    (hglobals : other.globals = state.globals) : SameMemory points w other := by
  obtain ⟨heap, cells, globals⟩ := other
  subst hheap hcells hglobals
  exact ⟨h.root, h.inside, h.names, h.size, h.cells, h.apart, h.heap⟩

/-! ## Questions to a heap -/

namespace SameHeap

variable {w : World} {heap : Heap Environment}

theorem findMethodWithin?_none (h : SameHeap points w heap) {name : String} {fuel : Nat}
    {id : ClassId} (hnone : w.store.findMethodWithin? name fuel id = none) :
    heap.findMethodWithin? name fuel id = none := by
  induction fuel generalizing id with
  | zero => rfl
  | succ fuel ih =>
      rw [Heap.findMethodWithin?] at hnone ⊢
      cases hcls : w.store.classes[id]? with
      | none => rw [h.classes.none hcls]
      | some cls =>
          obtain ⟨cls', hcls', hsame⟩ := h.classes.get id cls hcls
          rw [hcls] at hnone
          rw [hcls']
          simp only at hnone ⊢
          split at hnone
          next => cases hnone
          next hmethod =>
            rw [hsame.methods.absent name hmethod, hsame.superclass]
            split at hnone
            next => rfl
            next => exact ih hnone

/-- A method is found in both heaps or in none, and then it is declared by the class or by one
above it. -/
theorem findMethodWithin?_some (h : SameHeap points w heap) {name : String} {fuel : Nat}
    {id : ClassId} {method : Closure ScopeId}
    (hsome : w.store.findMethodWithin? name fuel id = some method) :
    ∃ method' owner cls, heap.findMethodWithin? name fuel id = some method'
      ∧ w.store.Inherits id owner ∧ w.store.Declares owner cls method
      ∧ SameMethod points w cls.superclass method method' := by
  induction fuel generalizing id with
  | zero => cases hsome
  | succ fuel ih =>
      rw [Heap.findMethodWithin?] at hsome
      cases hcls : w.store.classes[id]? with
      | none => simp [hcls] at hsome
      | some cls =>
          obtain ⟨cls', hcls', hsame⟩ := h.classes.get id cls hcls
          rw [hcls] at hsome
          rw [Heap.findMethodWithin?, hcls']
          simp only at hsome ⊢
          split at hsome
          next found hfound =>
            -- The class itself declares it.
            cases hsome
            obtain ⟨method', hmethod', hmethods⟩ := hsame.methods.found name method hfound
            exact ⟨method', id, cls, by rw [hmethod'], .self id, ⟨hcls, name, hfound⟩, hmethods⟩
          next hmethod =>
            rw [hsame.methods.absent name hmethod, hsame.superclass]
            split at hsome
            next => cases hsome
            next superclass hsuperclass =>
              obtain ⟨method', owner, cls'', hfound, hinherits, hdeclares, hmethods⟩ := ih hsome
              exact ⟨method', owner, cls'', hfound, .up hcls hsuperclass hinherits, hdeclares,
                hmethods⟩

theorem findMethod?_none (h : SameHeap points w heap) {name : String} {id : ClassId}
    (hnone : w.store.findMethod? id name = none) : heap.findMethod? id name = none :=
  h.findMethodWithin?_none hnone

theorem findMethod?_some (h : SameHeap points w heap) {name : String} {id : ClassId}
    {method : Closure ScopeId} (hsome : w.store.findMethod? id name = some method) :
    ∃ method' owner cls, heap.findMethod? id name = some method'
      ∧ w.store.Inherits id owner ∧ w.store.Declares owner cls method
      ∧ SameMethod points w cls.superclass method method' :=
  h.findMethodWithin?_some hsome

theorem arity? (h : SameHeap points w heap) (value : Value) :
    heap.arity? value = w.store.arity? value := by
  cases value with
  | nil | bool | number | string | object => rfl
  | native id => rw [Heap.arity?, Heap.arity?, h.natives]
  | function id =>
      rw [Heap.arity?, Heap.arity?]
      cases hclosure : w.store.functions[id]? with
      | none => rw [h.functions.none hclosure]; rfl
      | some closure =>
          obtain ⟨closure', hclosure', hsame⟩ := h.functions.get id closure hclosure
          rw [hclosure', Option.map_some, Option.map_some, hsame.declaration]
  | cls id =>
      rw [Heap.arity?, Heap.arity?]
      cases hmethod : w.store.findMethod? id initializerName with
      | none => rw [h.findMethod?_none hmethod]
      | some method =>
          obtain ⟨method', _, _, hmethod', _, _, hsame⟩ := h.findMethod?_some hmethod
          rw [hmethod']
          simp only [hsame.declaration]

theorem className (h : SameHeap points w heap) (id : ClassId) :
    heap.className id = w.store.className id := by
  rw [Heap.className, Heap.className]
  cases hcls : w.store.classes[id]? with
  | none => rw [h.classes.none hcls]; rfl
  | some cls =>
      obtain ⟨cls', hcls', hsame⟩ := h.classes.get id cls hcls
      rw [hcls', Option.map_some, Option.map_some, hsame.name]

theorem functionName (h : SameHeap points w heap) (id : FunctionId) :
    heap.functionName id = w.store.functionName id := by
  rw [Heap.functionName, Heap.functionName]
  cases hclosure : w.store.functions[id]? with
  | none => rw [h.functions.none hclosure]; rfl
  | some closure =>
      obtain ⟨closure', hclosure', hsame⟩ := h.functions.get id closure hclosure
      rw [hclosure', Option.map_some, Option.map_some, hsame.declaration]

/-- Values have the same texts in both heaps. -/
theorem display (h : SameHeap points w heap) (value : Value) :
    heap.display value = w.store.display value := by
  cases value with
  | nil | bool | number | string => rfl
  | native id => rw [Heap.display, Heap.display, Heap.nativeName, Heap.nativeName, h.natives]
  | function id => rw [Heap.display, Heap.display, h.functionName, h.arity?]
  | cls id => exact h.className id
  | object id =>
      have hname : heap.className = w.store.className := funext h.className
      rw [Heap.display, Heap.display, Heap.instanceClassName, Heap.instanceClassName, h.instances,
        hname]

/-- Operators ask a heap for the texts of their operands only. -/
theorem applyBinary (h : SameHeap points w heap) (left : Value) (operator : Token) (right : Value) :
    applyBinary heap left operator right = applyBinary w.store.toHeap left operator right := by
  unfold ScopeScript.applyBinary
  simp only [h.display]

end SameHeap

end ScopeScript.Lexical
