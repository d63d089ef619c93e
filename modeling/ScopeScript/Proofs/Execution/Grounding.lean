import ScopeScript.Proofs.Execution.Edits
import ScopeScript.Proofs.Execution.Methods

/-!
# Everything that is referred to exists

Fields may lead back to their instance and scopes to functions that were declared in them, so what
values refer to goes in circles. But the scope around a scope and the class above a class are always
older, and only the outermost scope has none around it. In a grounded store this holds and every
place that is referred to exists; a step from a grounded configuration leads to a grounded one,
whatever trees and tables it works on.
-/

namespace ScopeScript

namespace Store

/-- What a value refers to exists. -/
def Holds (store : Store) : Value → Prop
  | .native id => id < store.natives.size
  | .function id => id < store.functions.size
  | .cls id => id < store.classes.size
  | .object id => id < store.instances.size
  | .nil | .bool _ | .number _ | .string _ => True

/-- What a scope binds and the scope around it exist. -/
structure HoldsScope (store : Store) (scope : Scope) : Prop where
  parent : ∃ parent, scope.parent = some parent ∧ parent < store.scopes.size
  bindings : ∀ name binding, scope.bindings.find? name = some binding → store.Holds binding.value

/-- All that a store refers to exists. A scope is around newer ones only, and a class above newer
ones. -/
structure Grounded (store : Store) (globals : ScopeId) : Prop where
  inside : globals < store.scopes.size
  root : (store.scope globals).parent = none
  parents : ∀ id < store.scopes.size, id ≠ globals →
    ∃ parent, (store.scope id).parent = some parent ∧ parent < id
  superclasses : ∀ (id : ClassId) cls superclass, store.classes[id]? = some cls →
    cls.superclass = some superclass → superclass < id
  bindings : ∀ id name binding, store.binding? id name = some binding → store.Holds binding.value
  functions : ∀ closure ∈ store.functions, closure.scope < store.scopes.size
  methods : ∀ cls ∈ store.classes, ∀ name method, cls.methods.find? name = some method →
    method.scope < store.scopes.size
  instances : ∀ object ∈ store.instances, object.classId < store.classes.size
  fields : ∀ object ∈ store.instances, ∀ name value, object.fields.find? name = some value →
    store.Holds value

/-- What exists in one store exists in another. -/
structure Extends (store store' : Store) : Prop where
  scopes : store.scopes.size ≤ store'.scopes.size
  functions : store.functions.size ≤ store'.functions.size
  classes : store.classes.size ≤ store'.classes.size
  instances : store.instances.size ≤ store'.instances.size
  natives : store.natives.size ≤ store'.natives.size

namespace Extends

variable {store store' store'' : Store}

theorem refl (store : Store) : store.Extends store :=
  ⟨Nat.le_refl _, Nat.le_refl _, Nat.le_refl _, Nat.le_refl _, Nat.le_refl _⟩

theorem trans (h : store.Extends store') (h' : store'.Extends store'') : store.Extends store'' :=
  ⟨Nat.le_trans h.scopes h'.scopes, Nat.le_trans h.functions h'.functions,
    Nat.le_trans h.classes h'.classes, Nat.le_trans h.instances h'.instances,
    Nat.le_trans h.natives h'.natives⟩

theorem holds (h : store.Extends store') {value : Value} (hvalue : store.Holds value) :
    store'.Holds value := by
  cases value with
  | native => exact Nat.lt_of_lt_of_le hvalue h.natives
  | function => exact Nat.lt_of_lt_of_le hvalue h.functions
  | cls => exact Nat.lt_of_lt_of_le hvalue h.classes
  | object => exact Nat.lt_of_lt_of_le hvalue h.instances
  | nil | bool | number | string => trivial

theorem addScope (store : Store) (scope : Scope) : store.Extends (store.addScope scope).2 := by
  refine ⟨?_, Nat.le_refl _, Nat.le_refl _, Nat.le_refl _, Nat.le_refl _⟩
  simp [Store.addScope]

theorem bind (store : Store) (id : ScopeId) (name : String) (binding : Binding) :
    store.Extends (store.bind id name binding) := by
  refine ⟨?_, Nat.le_refl _, Nat.le_refl _, Nat.le_refl _, Nat.le_refl _⟩
  simp [Store.bind]

theorem addFunction (store : Store) (closure : Closure ScopeId) :
    store.Extends (store.addFunction closure).2 := by
  refine ⟨Nat.le_refl _, ?_, Nat.le_refl _, Nat.le_refl _, Nat.le_refl _⟩
  simp [Store.addFunction, Store.withHeap, Heap.addFunction]

theorem addClass (store : Store) (cls : Class ScopeId) :
    store.Extends (store.addClass cls).2 := by
  refine ⟨Nat.le_refl _, Nat.le_refl _, ?_, Nat.le_refl _, Nat.le_refl _⟩
  simp [Store.addClass, Store.withHeap, Heap.addClass]

theorem addInstance (store : Store) (classId : ClassId) :
    store.Extends (store.addInstance classId).2 := by
  refine ⟨Nat.le_refl _, Nat.le_refl _, Nat.le_refl _, ?_, Nat.le_refl _⟩
  simp [Store.addInstance, Store.withHeap, Heap.addInstance]

theorem addNative (store : Store) (native : Native) :
    store.Extends (store.addNative native).2 := by
  refine ⟨Nat.le_refl _, Nat.le_refl _, Nat.le_refl _, Nat.le_refl _, ?_⟩
  simp [Store.addNative, Store.withHeap, Heap.addNative]

theorem setField (store : Store) (id : InstanceId) (name : String) (value : Value) :
    store.Extends (store.setField id name value) := by
  refine ⟨Nat.le_refl _, Nat.le_refl _, Nat.le_refl _, ?_, Nat.le_refl _⟩
  simp [Store.setField, Heap.setField]

theorem bindMethod (store : Store) (method : Closure ScopeId) (receiver : InstanceId) :
    store.Extends (store.bindMethod method receiver).2 :=
  .addScope _ _

end Extends

/-! ## Changes of a grounded store -/

namespace Grounded

variable {store : Store} {globals : ScopeId} (h : store.Grounded globals)

include h

theorem addScope {scope : Scope} (hscope : store.HoldsScope scope) :
    (store.addScope scope).2.Grounded globals := by
  have hextends := Extends.addScope store scope
  have hsize : (store.addScope scope).2.scopes.size = store.scopes.size + 1 := by
    simp [Store.addScope]
  refine ⟨Nat.lt_of_lt_of_le h.inside hextends.scopes, ?_, ?_, h.superclasses, ?_, ?_, ?_,
    h.instances, fun object hobject name value hvalue =>
      hextends.holds (h.fields object hobject name value hvalue)⟩
  · rw [scope_addScope, if_neg (Nat.ne_of_lt h.inside)]
    exact h.root
  · intro id hid hne
    rw [hsize] at hid
    rw [scope_addScope]
    split
    next heq =>
      subst heq
      exact hscope.parent
    next hold => exact h.parents id (Nat.lt_of_le_of_ne (Nat.le_of_lt_succ hid) hold) hne
  · intro id name binding hbinding
    rw [binding?_addScope] at hbinding
    split at hbinding
    next => exact hextends.holds (hscope.bindings name binding hbinding)
    next => exact hextends.holds (h.bindings id name binding hbinding)
  · intro closure hclosure
    exact Nat.lt_of_lt_of_le (h.functions closure hclosure) hextends.scopes
  · intro cls hcls name method hmethod
    exact Nat.lt_of_lt_of_le (h.methods cls hcls name method hmethod) hextends.scopes

theorem bind {id : ScopeId} {binding : Binding} (name : String) (hid : id < store.scopes.size)
    (hbinding : store.Holds binding.value) : (store.bind id name binding).Grounded globals := by
  have hsize : (store.bind id name binding).scopes.size = store.scopes.size := by
    simp [Store.bind]
  refine ⟨hsize ▸ h.inside, ?_, ?_, h.superclasses, ?_, hsize ▸ h.functions, hsize ▸ h.methods,
    h.instances, h.fields⟩
  · rw [parent_bind]
    exact h.root
  · intro other hother hne
    rw [parent_bind]
    exact h.parents other (hsize ▸ hother) hne
  · intro other asked found hfound
    rw [binding?_bind hid] at hfound
    split at hfound
    next =>
      cases hfound
      exact hbinding
    next => exact h.bindings other asked found hfound

theorem addFunction {closure : Closure ScopeId} (hscope : closure.scope < store.scopes.size) :
    (store.addFunction closure).2.Grounded globals := by
  have hextends := Extends.addFunction store closure
  refine ⟨h.inside, h.root, h.parents, h.superclasses, ?_, ?_, h.methods, h.instances, ?_⟩
  · exact fun id name binding hbinding => hextends.holds (h.bindings id name binding hbinding)
  · intro other hother
    rcases Array.mem_push.mp hother with hold | rfl
    · exact h.functions other hold
    · exact hscope
  · exact fun object hobject name value hvalue =>
      hextends.holds (h.fields object hobject name value hvalue)

theorem addClass {cls : Class ScopeId}
    (hsuperclass : ∀ superclass, cls.superclass = some superclass →
      superclass < store.classes.size)
    (hmethods : ∀ name method, cls.methods.find? name = some method →
      method.scope < store.scopes.size) :
    (store.addClass cls).2.Grounded globals := by
  have hextends := Extends.addClass store cls
  refine ⟨h.inside, h.root, h.parents, ?_, ?_, h.functions, ?_, ?_, ?_⟩
  · intro id found superclass hfound
    simp only [Store.addClass, Store.withHeap, Heap.addClass, Array.getElem?_push] at hfound
    split at hfound
    next heq =>
      cases hfound
      subst heq
      exact hsuperclass superclass
    next => exact h.superclasses id found superclass hfound
  · exact fun id name binding hbinding => hextends.holds (h.bindings id name binding hbinding)
  · intro other hother
    rcases Array.mem_push.mp hother with hold | rfl
    · exact h.methods other hold
    · exact hmethods
  · exact fun object hobject => Nat.lt_of_lt_of_le (h.instances object hobject) hextends.classes
  · exact fun object hobject name value hvalue =>
      hextends.holds (h.fields object hobject name value hvalue)

theorem addInstance {classId : ClassId} (hclass : classId < store.classes.size) :
    (store.addInstance classId).2.Grounded globals := by
  have hextends := Extends.addInstance store classId
  refine ⟨h.inside, h.root, h.parents, h.superclasses, ?_, h.functions, h.methods, ?_, ?_⟩
  · exact fun id name binding hbinding => hextends.holds (h.bindings id name binding hbinding)
  · intro object hobject
    rcases Array.mem_push.mp hobject with hold | rfl
    · exact h.instances object hold
    · exact hclass
  · intro object hobject name value hvalue
    rcases Array.mem_push.mp hobject with hold | rfl
    · exact hextends.holds (h.fields object hold name value hvalue)
    · cases hvalue

theorem addNative (native : Native) : (store.addNative native).2.Grounded globals := by
  have hextends := Extends.addNative store native
  exact ⟨h.inside, h.root, h.parents, h.superclasses, fun id name binding hbinding =>
    hextends.holds (h.bindings id name binding hbinding), h.functions, h.methods, h.instances,
    fun object hobject name value hvalue =>
      hextends.holds (h.fields object hobject name value hvalue)⟩

theorem setField {value : Value} (id : InstanceId) (name : String) (hvalue : store.Holds value) :
    (store.setField id name value).Grounded globals := by
  have hextends := Extends.setField store id name value
  -- An instance is one that was there, or the one whose field was set.
  have hold : ∀ object ∈ (store.setField id name value).instances,
      object ∈ store.instances ∨ ∃ old ∈ store.instances,
        object = { old with fields := old.fields.insert name value } := by
    intro object hobject
    obtain ⟨i, hi⟩ := Array.mem_iff_getElem?.mp hobject
    simp only [Store.setField, Heap.setField, Array.getElem?_modify] at hi
    split at hi
    next =>
      obtain ⟨old, hold, rfl⟩ := Option.map_eq_some_iff.mp hi
      exact .inr ⟨old, Array.mem_of_getElem? hold, rfl⟩
    next => exact .inl (Array.mem_of_getElem? hi)
  refine ⟨h.inside, h.root, h.parents, h.superclasses, ?_, h.functions, h.methods, ?_, ?_⟩
  · exact fun id name binding hbinding => hextends.holds (h.bindings id name binding hbinding)
  · intro object hobject
    rcases hold object hobject with hmem | ⟨old, hmem, rfl⟩
    · exact h.instances object hmem
    · exact h.instances old hmem
  · intro object hobject asked found hfound
    rcases hold object hobject with hmem | ⟨old, hmem, rfl⟩
    · exact hextends.holds (h.fields object hmem asked found hfound)
    · rw [NameMap.find?_insert] at hfound
      split at hfound
      next =>
        cases hfound
        exact hextends.holds hvalue
      next => exact hextends.holds (h.fields old hmem asked found hfound)

/-! ## What a grounded store gives -/

theorem getHere {id : ScopeId} {name : Token} {value : Value}
    (hget : store.getHere id name = .ok value) : store.Holds value := by
  unfold Store.getHere at hget
  split at hget
  next binding hbinding =>
    cases hget
    exact h.bindings id name.lexeme binding hbinding
  next => cases hget

theorem declares {owner : ClassId} {cls : Class ScopeId} {method : Closure ScopeId}
    (hdeclares : store.Declares owner cls method) : method.scope < store.scopes.size := by
  obtain ⟨name, hmethod⟩ := hdeclares.named
  exact h.methods cls (Array.mem_of_getElem? hdeclares.found) name method hmethod

theorem findMethod? {id : ClassId} {name : String} {method : Closure ScopeId}
    (hfind : store.findMethod? id name = some method) : method.scope < store.scopes.size := by
  obtain ⟨_, _, -, hdeclares⟩ := Heap.findMethod?_declares hfind
  exact h.declares hdeclares

theorem bindMethod {method : Closure ScopeId} {receiver : InstanceId}
    (hmethod : method.scope < store.scopes.size) (hreceiver : receiver < store.instances.size) :
    (store.bindMethod method receiver).2.Grounded globals := by
  refine h.addScope ⟨⟨method.scope, rfl, hmethod⟩, ?_⟩
  intro name binding hbinding
  rw [Scope.bind, NameMap.find?_insert] at hbinding
  split at hbinding
  next =>
    cases hbinding
    exact hreceiver
  next => cases hbinding

end Grounded

theorem bindMethod_scope (store : Store) (method : Closure ScopeId) (receiver : InstanceId) :
    (store.bindMethod method receiver).1.scope <
      (store.bindMethod method receiver).2.scopes.size := by
  simp [bindMethod, addScope]

end Store

/-! ## Grounded configurations -/

/-- The values that work deals with exist. -/
def Control.Grounded (store : Store) : Control → Prop
  | .call callee arguments => store.Holds callee ∧ ∀ value ∈ arguments, store.Holds value
  | .done (.value value) => store.Holds value
  | .done (.flow (.returned value)) => store.Holds value
  | _ => True

/-- What a frame keeps exists. -/
def Frame.Grounded (store : Store) : Frame ScopeId → Prop
  | .binaryRight left _ => store.Holds left
  | .argument called _ before _ => store.Holds called ∧ ∀ value ∈ before, store.Holds value
  | .setValue object _ => object < store.instances.size
  | .block _ outer => outer < store.scopes.size
  | .activation closure => closure.scope < store.scopes.size
  | .construct object => object < store.instances.size
  | _ => True

/-- The current scope and all that the store refers to exist. -/
structure State.Grounded (state : State) : Prop where
  store : state.store.Grounded state.globals
  current : state.current < state.store.scopes.size

/-- All that a configuration refers to exists. -/
structure Config.Grounded (config : Config) : Prop where
  state : config.state.Grounded
  control : config.control.Grounded config.state.store
  frames : ∀ frame ∈ config.frames, frame.Grounded config.state.store

/-- All that a move refers to exists. -/
structure Move.Grounded (move : Move) : Prop where
  state : move.state.Grounded
  control : move.control.Grounded move.state.store
  push : ∀ frame ∈ move.push, frame.Grounded move.state.store

theorem Frame.Grounded.extend {store store' : Store} (h : store.Extends store')
    {frame : Frame ScopeId} (hframe : frame.Grounded store) : frame.Grounded store' := by
  cases frame with
  | binaryRight => exact h.holds hframe
  | argument => exact ⟨h.holds hframe.1, fun value hvalue => h.holds (hframe.2 value hvalue)⟩
  | setValue | construct => exact Nat.lt_of_lt_of_le hframe h.instances
  | block | activation => exact Nat.lt_of_lt_of_le hframe h.scopes
  | unary | binaryLeft | logical | assign | callee | get | setObject | discard | print | declare
  | returning | branch | whileTest | whileBody | superclass | program => trivial

theorem Edit.extends {state state' : State} (h : Edit state state') :
    state.store.Extends state'.store := by
  cases h with
  | write | tick | move => exact .refl _
  | addScope scope => exact .addScope _ scope
  | declare | assign => exact .bind ..
  | addFunction closure => exact .addFunction _ closure
  | addClass cls => exact .addClass _ cls
  | addInstance classId => exact .addInstance _ classId
  | setField => exact .setField ..

theorem Edits.extends {state state' : State} (h : Edits state state') :
    state.store.Extends state'.store := by
  induction h with
  | refl => exact .refl _
  | tail _ hedit ih => exact ih.trans hedit.extends

end ScopeScript
