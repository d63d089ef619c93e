import ScopeScript.Proofs.Execution.Construction
import ScopeScript.Proofs.Session.Confinement
import ScopeScript.Proofs.Session.ObjectGraph
import ScopeScript.Proofs.Session.Permanence
import ScopeScript.Proofs.Session.Receivers

/-!
# Members are found along the superclasses

A class keeps the superclass that its declaration has found and the methods that it was written
with, and so do all classes above it. A property of an instance that is no field of it, and the
initializer of a class, are looked for in the class and then in one after the other above it, and in
each of them the last method of the name counts. Variables that once stood for these classes have
nothing to do with it any more.
-/

namespace ScopeScript

namespace Point

variable {p q : Point}

/-! ## Declarations -/

/-- A class was declared at an earlier point, with such a superclass and such methods, and it still
has the superclass, and the methods by their names. -/
structure DeclaredAs (p : Point) (id : ClassId) (superclass : Option ClassId)
    (methods : List (FunctionDecl Stmt)) (scope : ScopeId) : Prop where
  made : ∃ (q : Point) (name : Token), q.Occurs
    ∧ q.config.makesClass? = some (name, superclass, methods) ∧ q.store.classes.size = id
    ∧ Leads ⟨q.nextId, step q.config⟩ p
  found : ∃ name, p.store.classes[id]? = some ⟨name, superclass, methodTable scope methods⟩

theorem Occurs.declaredAs (hp : p.Occurs) {id : ClassId} (hid : id < p.store.classes.size) :
    ∃ superclass methods scope, p.DeclaredAs id superclass methods scope := by
  have hcls := Array.getElem?_eq_getElem hid
  obtain ⟨q, name, methods, scope, hq, hmakes, hsize, hsame, hleads⟩ := hp.declared hcls
  refine ⟨_, methods, scope, ⟨q, name, hq, hmakes, hsize, hleads⟩, name.lexeme, ?_⟩
  rw [← hsame]
  exact hcls

namespace DeclaredAs

variable {id : ClassId} {superclass : Option ClassId} {methods : List (FunctionDecl Stmt)}
  {scope : ScopeId}

theorem leads (hp : p.Occurs) (h : p.DeclaredAs id superclass methods scope)
    (hleads : p.Leads q) : q.DeclaredAs id superclass methods scope := by
  obtain ⟨⟨r, name, hr, hmakes, hsize, hmade⟩, name', hfound⟩ := h
  exact ⟨⟨r, name, hr, hmakes, hsize, hmade.trans hleads⟩, name',
    (hp.grows hleads).classes id _ hfound⟩

theorem superclass?_eq (h : p.DeclaredAs id superclass methods scope) :
    p.store.superclass? id = superclass := by
  obtain ⟨name, hfound⟩ := h.found
  rw [Heap.superclass?, hfound, Option.bind_some]

theorem methodHere?_eq (h : p.DeclaredAs id superclass methods scope) (name : String) :
    p.store.methodHere? name id =
      (FunctionDecl.last? methods name).map fun declaration =>
        some ⟨declaration, scope, declaration.isInitializer⟩ := by
  obtain ⟨_, hfound⟩ := h.found
  rw [Heap.methodHere?, hfound, Option.bind_some, find?_methodTable_eq, Option.map_map]
  rfl

end DeclaredAs

/-! ## Finding methods -/

/-- The method that a name stands for in a class: the last one of the name that the class was
declared with, or else what the name stands for in the superclass. -/
inductive Finds (p : Point) (name : String) : ClassId → Option (Closure ScopeId) → Prop
  | here {id : ClassId} {superclass : Option ClassId} {methods : List (FunctionDecl Stmt)}
      {scope : ScopeId} {declaration : FunctionDecl Stmt} :
      p.DeclaredAs id superclass methods scope →
      FunctionDecl.last? methods name = some declaration →
      Finds p name id (some ⟨declaration, scope, declaration.isInitializer⟩)
  | above {id superclass : ClassId} {methods : List (FunctionDecl Stmt)} {scope : ScopeId}
      {found : Option (Closure ScopeId)} :
      p.DeclaredAs id (some superclass) methods scope → FunctionDecl.last? methods name = none →
      Finds p name superclass found → Finds p name id found
  | nowhere {id : ClassId} {methods : List (FunctionDecl Stmt)} {scope : ScopeId} :
      p.DeclaredAs id none methods scope → FunctionDecl.last? methods name = none →
      Finds p name id none

theorem Finds.leads (hp : p.Occurs) {name : String} {id : ClassId}
    {found : Option (Closure ScopeId)} (h : p.Finds name id found) (hleads : p.Leads q) :
    q.Finds name id found := by
  induction h with
  | here hdeclared hlast => exact .here (hdeclared.leads hp hleads) hlast
  | above hdeclared hlast _ ih => exact .above (hdeclared.leads hp hleads) hlast ih
  | nowhere hdeclared hlast => exact .nowhere (hdeclared.leads hp hleads) hlast

theorem Occurs.finds_of_walk (hp : p.Occurs) {name : String} {id : ClassId}
    {found : Option (Closure ScopeId)} (hid : id < p.store.classes.size)
    (h : Walk p.store.superclass? (p.store.methodHere? name) none id found) :
    p.Finds name id found := by
  have hnext := hp.driven.grounded.state.store.superclass?_lt
  induction h with
  | @found id found hhere =>
      obtain ⟨superclass, methods, scope, hdeclared⟩ := hp.declaredAs hid
      rw [hdeclared.methodHere?_eq] at hhere
      obtain ⟨declaration, hlast, rfl⟩ := Option.map_eq_some_iff.mp hhere
      exact .here hdeclared hlast
  | @on id above _ hnone hon _ ih =>
      obtain ⟨superclass, methods, scope, hdeclared⟩ := hp.declaredAs hid
      rw [hdeclared.methodHere?_eq, Option.map_eq_none_iff] at hnone
      obtain rfl : superclass = some above := hdeclared.superclass?_eq.symm.trans hon
      exact .above hdeclared hnone (ih (Nat.lt_trans (hnext _ _ hon) hid))
  | @ended id hnone hended =>
      obtain ⟨superclass, methods, scope, hdeclared⟩ := hp.declaredAs hid
      rw [hdeclared.methodHere?_eq, Option.map_eq_none_iff] at hnone
      obtain rfl : superclass = none := hdeclared.superclass?_eq.symm.trans hended
      exact .nowhere hdeclared hnone

theorem Finds.walk {name : String} {id : ClassId} {found : Option (Closure ScopeId)}
    (h : p.Finds name id found) :
    Walk p.store.superclass? (p.store.methodHere? name) none id found := by
  induction h with
  | here hdeclared hlast =>
      refine .found ?_
      rw [hdeclared.methodHere?_eq, hlast, Option.map_some]
  | above hdeclared hlast _ ih =>
      refine .on ?_ hdeclared.superclass?_eq ih
      rw [hdeclared.methodHere?_eq, hlast, Option.map_none]
  | nowhere hdeclared hlast =>
      refine .ended ?_ hdeclared.superclass?_eq
      rw [hdeclared.methodHere?_eq, hlast, Option.map_none]

/-- Searching for a method finds just what the declarations of the classes say. -/
theorem Occurs.finds_iff (hp : p.Occurs) {name : String} {id : ClassId}
    (hid : id < p.store.classes.size) {found : Option (Closure ScopeId)} :
    p.Finds name id found ↔ found = p.store.findMethod? id name := by
  have hwalk := Heap.findMethod?_walk hp.driven.grounded.state.store.superclass?_lt name id
  constructor
  · exact fun h => hwalk.unique h.walk
  · rintro rfl
    exact hp.finds_of_walk hid hwalk

/-- The chain of superclasses above a class stays as it is. -/
theorem Occurs.path_leads (hp : p.Occurs) {id last : ClassId} (hid : id < p.store.classes.size)
    {places : List ClassId} (hpath : Path p.store.superclass? id last places) (hleads : p.Leads q) :
    Path q.store.superclass? id last places := by
  have hnext := hp.driven.grounded.state.store.superclass?_lt
  refine hpath.congr fun place hplace => ?_
  obtain ⟨superclass, methods, scope, hdeclared⟩ :=
    hp.declaredAs (Nat.lt_of_le_of_lt (hpath.le hnext hplace) hid)
  rw [hdeclared.superclass?_eq, (hdeclared.leads hp hleads).superclass?_eq]

end Point

/-! ## Properties -/

/-- The state with a new function: a method, in a new scope that binds `this` to its receiver and
nothing else. -/
def State.withBoundMethod (state : State) (method : Closure ScopeId) (receiver : InstanceId) :
    State :=
  { state with store := { state.store with
      scopes := state.store.scopes.push
        ((Scope.empty (some method.scope)).bind "this" ⟨.object receiver, true⟩)
      functions := state.store.functions.push { method with scope := state.store.scopes.size } } }

/-- A property of an instance is its field, or else the method of the name that is found from its
class on, bound to it. -/
theorem step_get {state : State} {object : InstanceId} {it : Instance} {name : Token}
    {frames : List (Frame ScopeId)} (hobject : state.store.instances[object]? = some it) :
    step ⟨.done (.value (.object object)), .get name :: frames, state⟩ =
      match it.fields.find? name.lexeme, state.store.findMethod? it.classId name.lexeme with
      | some value, _ => ⟨.done (.value value), frames, state⟩
      | none, some method =>
        ⟨.done (.value (.function state.store.functions.size)), frames,
          state.withBoundMethod method object⟩
      | none, none =>
        ⟨.done (.fault (.runtime ⟨name, .undefinedProperty name.lexeme⟩)), frames, state⟩ := by
  change (getMove name (.object object) state).onto frames = _
  cases hfield : it.fields.find? name.lexeme with
  | some value =>
      have hproperty : state.store.property? object name.lexeme = some (.field value) := by
        simp only [Heap.property?, hobject, hfield]
      simp only [getMove, hproperty]
      rfl
  | none =>
      have hproperty : state.store.property? object name.lexeme =
          (state.store.findMethod? it.classId name.lexeme).map .method := by
        simp only [Heap.property?, hobject, hfield]
      simp only [getMove, hproperty]
      cases state.store.findMethod? it.classId name.lexeme <;> rfl

/-! ## Calls of classes -/

/-- A class takes the arguments of the initializer that is found from it on. -/
theorem Heap.arity?_cls {ε : Type} (heap : Heap ε) (id : ClassId) :
    heap.arity? (.cls id) = some ((heap.findMethod? id initializerName).elim 0
      (·.declaration.params.length)) := by
  rw [Heap.arity?]
  cases heap.findMethod? id initializerName <;> rfl

/-- A call of a class ends with a fault or gives the new instance, which is of just that class. -/
theorem Running.construct_ends {config : Config} (h : Running config) {id : ClassId}
    {arguments : List Value} {frames : List (Frame ScopeId)} {outcome : Outcome} {last : State}
    (hfinishes : Finishes frames ⟨.call (.cls id) arguments, frames, config.state⟩ outcome last) :
    (∃ fault, outcome = .fault fault)
      ∨ outcome = .value (.object config.state.store.instances.size)
        ∧ ∃ it, last.store.instances[config.state.store.instances.size]? = some it
          ∧ it.classId = id := by
  obtain ⟨-, -, -, -, -, hsound⟩ := h.fits
  have hmeets : outcome.Meets .value :=
    hfinishes.meets ⟨[], .value, rfl, .nil, trivial, hsound⟩
  cases outcome with
  | fault fault => exact .inl ⟨fault, rfl⟩
  | flow => cases hmeets
  | value value =>
      right
      obtain rfl := hfinishes.construct_value
      -- The instance is there from the start, and whatever is done then leaves it in its class.
      have hmade : (config.state.withInstance id).store.instances[
          config.state.store.instances.size]? = some ⟨id, .empty⟩ :=
        Array.getElem?_push_size
      obtain ⟨it, hit, hkeeps⟩ := hfinishes.construct_edits.persists.instances _ _ hmade
      exact ⟨rfl, it, hit, hkeeps.classId⟩

/-- At every point of a session, members are found along the superclasses. A property of an instance
is its field, or else the method that its name stands for in the class of the instance, as a new
function bound to the instance, or else undefined. A class takes as many arguments as the
initializer has parameters that is found in the same way, or none; a call enters that initializer,
bound to a new instance, and gives this instance and nothing else, of just that class, if it gives a
value. And however a session goes on, a class keeps the classes above it, and names keep standing
for the methods that they stand for in it. -/
theorem members_found_along_superclasses {p : Point} (hp : p.Occurs) :
    p.config.Grounded
    ∧ (∀ (object : InstanceId) it, p.store.instances[object]? = some it → ∀ name frames,
      ∃ found, (∀ other, p.Finds name.lexeme it.classId other ↔ other = found)
        ∧ ¬ p.store.Holds (.function p.store.functions.size)
        ∧ step ⟨.done (.value (.object object)), .get name :: frames, p.state⟩ =
          match it.fields.find? name.lexeme, found with
          | some value, _ => ⟨.done (.value value), frames, p.state⟩
          | none, some method =>
            ⟨.done (.value (.function p.store.functions.size)), frames,
              p.state.withBoundMethod method object⟩
          | none, none =>
            ⟨.done (.fault (.runtime ⟨name, .undefinedProperty name.lexeme⟩)), frames, p.state⟩)
    ∧ (∀ id < p.store.classes.size, ∃ found,
      (∀ other, p.Finds initializerName id other ↔ other = found)
      ∧ p.store.arity? (.cls id) = some (found.elim 0 (·.declaration.params.length))
      ∧ ¬ p.store.Holds (.object p.store.instances.size)
      ∧ ∀ arguments frames,
        step ⟨.call (.cls id) arguments, frames, p.state⟩ = (match found with
          | none => ⟨.done (.value (.object p.store.instances.size)), frames,
            p.state.withInstance id⟩
          | some initializer =>
            (enterMove { initializer with scope := p.store.scopes.size } arguments
              ((p.state.withInstance id).withReceiver initializer p.store.instances.size)).onto
                (.construct p.store.instances.size :: frames))
        ∧ ∀ outcome last,
          Finishes frames ⟨.call (.cls id) arguments, frames, p.state⟩ outcome last →
          (∃ fault, outcome = .fault fault)
            ∨ outcome = .value (.object p.store.instances.size)
              ∧ ∃ it, last.store.instances[p.store.instances.size]? = some it ∧ it.classId = id)
    ∧ ∀ id < p.store.classes.size, ∃ top places, Path p.store.superclass? id top places
      ∧ ∀ q, p.Leads q → Path q.store.superclass? id top places
        ∧ ∀ name found, p.Finds name id found → q.Finds name id found := by
  have hgrounded := hp.driven.grounded
  have hstore := hgrounded.state.store
  refine ⟨hgrounded, ?_, ?_, ?_⟩
  · intro object it hobject name frames
    have hclass : it.classId < p.store.classes.size :=
      hstore.instances it (Array.mem_of_getElem? hobject)
    exact ⟨_, fun _ => hp.finds_iff hclass, Nat.lt_irrefl _, step_get hobject⟩
  · intro id hid
    exact ⟨_, fun _ => hp.finds_iff hid, p.store.arity?_cls id, Nat.lt_irrefl _,
      fun arguments frames => ⟨step_construct, fun _ _ => hp.running.construct_ends⟩⟩
  · intro id hid
    obtain ⟨top, -, places, hpath⟩ := exists_path hstore.superclass?_lt id
    exact ⟨top, places, hpath, fun q hleads => ⟨hp.path_leads hid hpath hleads,
      fun _ _ hfinds => hfinds.leads hp hleads⟩⟩

/-- The instance of which a property is asked for next, and the name of the property. -/
def Config.asks? (config : Config) : Option (InstanceId × Token) :=
  match config.control, config.frames with
  | .done (.value (.object object)), .get name :: _ => some (object, name)
  | _, _ => none

theorem Config.asks?_eq_some {config : Config} {object : InstanceId} {name : Token}
    (h : config.asks? = some (object, name)) :
    ∃ frames, config = ⟨.done (.value (.object object)), .get name :: frames, config.state⟩ := by
  obtain ⟨control, frames, state⟩ := config
  unfold Config.asks? at h
  split at h
  next hcontrol hframes =>
    cases h
    cases hcontrol
    cases hframes
    exact ⟨_, rfl⟩
  next => cases h

/-- An instance of a subclass still has the method of the superclass, the second of its name, after
the name of the superclass has been given another value. -/
theorem members_found_past_assignment :
    let p := Point.inSource {} ⟨fun _ => 0, 0⟩
      "class A { m() {} m(x) {} } class B < A {} var b = B(); A = nil; b.m;" 23
    p.Occurs ∧ (p.store.binding? 0 "A").any (·.value == .nil) = true
      ∧ ∃ object it name method frames, p.store.instances[object]? = some it ∧ it.classId = 1
        ∧ p.Finds "m" 1 (some method) ∧ method.declaration.params.length = 1
        ∧ p.config = ⟨.done (.value (.object object)), .get name :: frames, p.state⟩
        ∧ step p.config = ⟨.done (.value (.function p.store.functions.size)), frames,
          p.state.withBoundMethod method object⟩ := by
  intro p
  have hp : p.Occurs := Point.inSource_occurs _ _ _ _
  have hseen : (p.config.asks?.any fun asked => asked.2.lexeme == "m"
      && p.store.instances[asked.1]?.any fun it =>
        it.classId == 1 && (it.fields.find? "m").isNone) = true := by
    decide +kernel
  have hassigned : (p.store.binding? 0 "A").any (·.value == .nil) = true := by decide +kernel
  have hmethod : (p.store.findMethod? 1 "m").any (·.declaration.params.length == 1) = true := by
    decide +kernel
  have hclasses : 1 < p.store.classes.size := by decide +kernel
  obtain ⟨⟨object, name⟩, hasks, hseen⟩ := (Option.any_eq_true _ _).mp hseen
  obtain ⟨hname, hseen⟩ := (Bool.and_eq_true _ _).mp hseen
  obtain ⟨it, hit, hseen⟩ := (Option.any_eq_true _ _).mp hseen
  obtain ⟨hclass, hfields⟩ := (Bool.and_eq_true _ _).mp hseen
  obtain ⟨method, hfound, hparams⟩ := (Option.any_eq_true _ _).mp hmethod
  obtain ⟨frames, hconfig⟩ := Config.asks?_eq_some hasks
  have hname : name.lexeme = "m" := eq_of_beq hname
  have hclass : it.classId = 1 := eq_of_beq hclass
  have hfield : it.fields.find? name.lexeme = none := hname ▸ Option.isNone_iff_eq_none.mp hfields
  -- From here on it does not matter how the session has come to this point.
  clear_value p
  obtain ⟨-, hproperty, -, -⟩ := members_found_along_superclasses hp
  obtain ⟨found, hfinds, -, hstep⟩ := hproperty object it hit name frames
  have hmethod : p.Finds "m" 1 (some method) := (hp.finds_iff hclasses).mpr hfound.symm
  rw [hclass, hname] at hfinds
  obtain rfl := (hfinds _).mp hmethod
  rw [hfield, ← hconfig] at hstep
  exact ⟨hp, hassigned, object, it, name, method, frames, hit, hclass, hmethod, eq_of_beq hparams,
    hconfig, hstep⟩

end ScopeScript
