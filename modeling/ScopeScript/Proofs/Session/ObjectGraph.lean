import ScopeScript.Proofs.Execution.GroundedSteps
import ScopeScript.Proofs.Execution.Walks
import ScopeScript.Proofs.Session.Point

/-!
# The object graph is well-founded where it is walked

However an interpreter is driven, and whatever trees and tables it is given, all that it refers to
exists, the scopes outward from any scope end at the outermost one and the classes upward from any
class come to an end, without a place coming twice. So looking up a name, assigning to a name and
searching for a method terminate, although nothing sets a bound to them.
-/

namespace ScopeScript

/-- A configuration that an interpreter can get into. Once it has nothing left to do, it may be
given a native, or any program, statement or expression; a program comes with any table of
bindings. -/
inductive Driven : Config → Prop
  | start (sink : Sink) (clock : Clock) :
      Driven ⟨.done (.flow .normal), [], .start sink clock⟩
  | native {config : Config} (native : Native) :
      Driven config → config.isDone →
      Driven ⟨.done (.flow .normal), [], config.state.addNative native⟩
  | interpret {config : Config} (program : Program) (locals : Locals) :
      Driven config → config.isDone → Driven (.ofProgram program locals config.state)
  | execute {config : Config} (stmt : Stmt) :
      Driven config → config.isDone → Driven ⟨.exec stmt, [], config.state⟩
  | evaluate {config : Config} (expr : Expr) :
      Driven config → config.isDone → Driven ⟨.eval expr, [], config.state⟩
  | step {config : Config} : Driven config → Driven (step config)

/-! ## All that is referred to exists -/

theorem State.Grounded.addNative {state : State} (h : state.Grounded) (native : Native) :
    (state.addNative native).Grounded := by
  have hadded := h.store.addNative native
  have hextends := Store.Extends.addNative state.store native
  have hvalue : (state.store.addNative native).2.Holds
      (.native (state.store.addNative native).1) := by
    simp [Store.addNative, Store.Holds, Store.withHeap, Heap.addNative]
  exact h.withStore (hadded.bind native.name hadded.inside hvalue)
    (hextends.trans (.bind _ _ _ _))

/-- The outermost scope alone refers to nothing. -/
theorem State.grounded_empty (sink : Sink) (clock : Clock) :
    State.Grounded ⟨(({} : Store).addScope (.empty none)).2, 0, 0, ∅, sink, clock⟩ := by
  refine ⟨⟨Nat.zero_lt_one, rfl, ?_, nofun, ?_, nofun, nofun, nofun, nofun⟩, Nat.zero_lt_one⟩
  · intro id hid hne
    exact absurd (Nat.lt_one_iff.mp hid) hne
  · intro id name binding hbinding
    rw [Store.binding?_addScope] at hbinding
    split at hbinding
    next => cases hbinding
    next => cases hbinding

theorem State.grounded_start (sink : Sink) (clock : Clock) : (State.start sink clock).Grounded :=
  ((grounded_empty sink clock).addNative _).addNative _

/-- All that a configuration refers to exists, however it was reached. -/
theorem Driven.grounded {config : Config} (h : Driven config) : config.Grounded := by
  induction h with
  | start sink clock => exact ⟨State.grounded_start sink clock, trivial, List.forall_mem_nil _⟩
  | native native _ _ ih => exact ⟨ih.state.addNative native, trivial, List.forall_mem_nil _⟩
  | @interpret config program locals _ _ ih =>
      refine ⟨⟨ih.state.store, ih.state.current⟩, trivial, ?_⟩
      intro frame hframe
      obtain rfl := List.mem_singleton.mp hframe
      trivial
  | execute _ _ _ ih | evaluate _ _ _ ih => exact ⟨ih.state, trivial, List.forall_mem_nil _⟩
  | step _ ih => exact ih.step

/-- Every point of a session is one that an interpreter can get into. -/
theorem Point.Occurs.driven {p : Point} (h : p.Occurs) : Driven p.config := by
  obtain ⟨sink, clock, hleads⟩ := h
  induction hleads with
  | refl => exact .start sink clock
  | tail _ hnext ih =>
      cases hnext with
      | step => exact ih.step
      | rejected => exact ih
      | accepted hdone => exact ih.interpret _ _ hdone

/-- In every configuration that an interpreter can get into, all that is referred to exists; from
every scope a path of enclosing scopes leads to the outermost one, and from every class a path of
superclasses leads to one that has none, and no place comes twice; and looking up a name, assigning
to a name and searching for a method are walks that come to an end. -/
theorem object_graph_wellFounded {config : Config} (h : Driven config) :
    config.Grounded
      ∧ (∀ id < config.state.store.scopes.size,
        ∃ places, Path config.state.store.outer? id config.state.globals places)
      ∧ (∀ id < config.state.store.classes.size,
        ∃ last places, Path config.state.store.superclass? id last places)
      ∧ (∀ id name, Walk config.state.store.outer? (config.state.store.valueHere? name)
        (.error ⟨name, .undefinedVariable name.lexeme⟩) id (config.state.store.get id name))
      ∧ (∀ id name value, Walk config.state.store.outer? (config.state.store.assignHere? name value)
        (.error ⟨name, .undefinedVariable name.lexeme⟩) id
        (config.state.store.assign id name value))
      ∧ ∀ id name, Walk config.state.store.superclass? (config.state.store.methodHere? name) none id
        (config.state.store.findMethod? id name) := by
  have hgrounded := h.grounded
  have hstore := hgrounded.state.store
  refine ⟨hgrounded, fun id hid => hstore.scopePath hid, ?_, ?_, ?_, ?_⟩
  · intro id _
    obtain ⟨last, -, places, hpath⟩ := exists_path hstore.superclass?_lt id
    exact ⟨last, places, hpath⟩
  · exact fun id name => Store.get_walk hstore.outer?_lt name id
  · exact fun id name value => Store.assign_walk hstore.outer?_lt name value id
  · exact fun id name => Heap.findMethod?_walk hstore.superclass?_lt name id

/-- A function is bound in the scope that it closes over, and a field of an instance leads back to
the instance; the paths outward and upward from there end. -/
theorem object_graph_wellFounded_in_circles :
    let config := (Point.inSource {} ⟨fun _ => 0, 0⟩
      "class A { init() { this.me = this; } } class B < A {} { fun f() {} B(); }" 40).config
    ∃ closure object, config.state.store.functions[0]? = some closure
      ∧ (config.state.store.binding? closure.scope "f").map Binding.value = some (.function 0)
      ∧ config.state.store.instances[0]? = some object
      ∧ object.fields.find? "me" = some (.object 0)
      ∧ (∃ places, Path config.state.store.outer? closure.scope config.state.globals places)
      ∧ ∃ last places, Path config.state.store.superclass? object.classId last places := by
  intro config
  have hdriven : Driven config := (Point.inSource_occurs _ _ _ _).driven
  have hfunction : (config.state.store.functions[0]?.any fun closure =>
      (config.state.store.binding? closure.scope "f").any (·.value == .function 0)) = true := by
    decide +kernel
  have hfield : (config.state.store.instances[0]?.any fun object =>
      (object.fields.find? "me").any (· == .object 0)) = true := by
    decide +kernel
  clear_value config
  obtain ⟨closure, hclosure, hbound⟩ := (Option.any_eq_true _ _).mp hfunction
  obtain ⟨binding, hbinding, hvalue⟩ := (Option.any_eq_true _ _).mp hbound
  obtain ⟨object, hobject, hme⟩ := (Option.any_eq_true _ _).mp hfield
  obtain ⟨field, hfound, hobjectValue⟩ := (Option.any_eq_true _ _).mp hme
  obtain ⟨hgrounded, hscopes, hclasses, -⟩ := object_graph_wellFounded hdriven
  have hstore := hgrounded.state.store
  refine ⟨closure, object, hclosure, ?_, hobject, ?_,
    hscopes _ (hstore.functions closure (Array.mem_of_getElem? hclosure)),
    hclasses _ (hstore.instances object (Array.mem_of_getElem? hobject))⟩
  · rw [hbinding, Option.map_some, Value.eq_of_beq hvalue (by simp)]
  · rw [hfound, Value.eq_of_beq hobjectValue (by simp)]

end ScopeScript
