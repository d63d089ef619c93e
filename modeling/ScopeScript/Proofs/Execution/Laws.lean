import ScopeScript.Proofs.Execution.Methods
import ScopeScript.Proofs.Execution.Surroundings
import ScopeScript.Proofs.Scoping.Uses

/-!
# Laws about names

Where a scope is made inside another, the code that runs there was one scope further in before. So
what may be done with names in each scope can be said once, as a law: code that runs in a scope, or
waits to run there, keeps to the law if all it does with names may be done so many scopes inside.
-/

namespace ScopeScript

/-- What work does with names, where it is done. -/
def Control.uses : Control → List Use
  | .eval expr => Use.here expr.references
  | .exec stmt => stmt.uses
  | .call .. | .done _ => []

/-- What a frame will do with names, in the scope where it goes on. The methods of a class that has
a superclass lie one scope further in. -/
def Frame.uses : Frame ScopeId → List Use
  | .binaryLeft _ right | .logical _ right | .setObject _ right => Use.here right.references
  | .assign id name => Use.here [⟨.assign, id, name⟩]
  | .callee _ arguments | .argument _ _ _ arguments => Use.here (Expr.referencesAll arguments)
  | .declare name _ => [.declares name]
  | .branch thenBranch elseBranch => thenBranch.uses ++ Stmt.usesAll elseBranch.toList
  | .whileTest condition body | .whileBody condition body =>
    Use.here condition.references ++ body.uses
  | .superclass name _ methods => .declares name :: Use.inside (FunctionDecl.usesAll methods)
  | .block rest _ | .program rest => Stmt.usesAll rest
  | .unary _ | .binaryRight .. | .get _ | .setValue .. | .discard | .print | .returning
  | .activation _ | .construct _ => []

/-! ## Laws -/

/-- What may be done so many scopes inside a scope. -/
abbrev Law := ScopeId → Nat → Act → Prop

namespace Law

variable (law : Law)

/-- Code that runs in a scope keeps to a law. -/
def Permits (scope : ScopeId) (uses : List Use) : Prop :=
  ∀ use ∈ uses, law scope use.depth use.act

/-- Frames keep to a law, each in the scope that is current when it goes on. -/
def PermitsFrames : ScopeId → List (Frame ScopeId) → Prop
  | _, [] => True
  | scope, frame :: frames =>
    law.Permits scope frame.uses ∧ PermitsFrames (frame.outer?.getD scope) frames

/-- Functions and methods keep to a law, in the scopes that they were declared in. -/
structure PermitsHeap (heap : Heap ScopeId) : Prop where
  functions : ∀ closure ∈ heap.functions, law.Permits closure.scope closure.declaration.uses
  methods : ∀ cls ∈ heap.classes, ∀ name method, cls.methods.find? name = some method →
    law.Permits method.scope (Use.inside method.declaration.uses)

/-- What may be done one scope further in than a scope may be done in the new scopes inside it. -/
def Spreads (store store' : Store) : Prop :=
  ∀ id parent, store.scopes.size ≤ id → (store'.scope id).parent = some parent →
    ∀ depth act, law parent (depth + 1) act → law id depth act

/-- A name is bound in a scope of the first store only where it was bound, or may be declared. -/
def Binds (store store' : Store) : Prop :=
  ∀ id < store.scopes.size, ∀ name, (store'.binding? id name).isSome →
    (store.binding? id name).isSome ∨ ∃ token, token.lexeme = name ∧ law id 0 (.declares token)

/-- What a move hands on keeps to a law, and so does what it has bound. -/
structure PermitsMove (state : State) (move : Move) : Prop where
  control : law.Permits move.state.current move.control.uses
  push : law.PermitsFrames move.state.current move.push
  heap : law.PermitsHeap move.state.store.toHeap
  names : law.Binds state.store move.state.store

/-- A move keeps to a law, if the law spreads to the scopes that it makes. -/
def Keeps (state : State) (move : Move) : Prop :=
  law.Spreads state.store move.state.store → law.PermitsMove state move

/-- All code of a configuration keeps to a law. -/
structure PermitsConfig (config : Config) : Prop where
  control : law.Permits config.state.current config.control.uses
  frames : law.PermitsFrames config.state.current config.frames
  heap : law.PermitsHeap config.state.store.toHeap

end Law

section Uses

variable {law : Law} {scope : ScopeId}

@[simp] theorem Law.permits_nil : law.Permits scope [] :=
  List.forall_mem_nil _

@[simp] theorem Law.permits_append {first second : List Use} :
    law.Permits scope (first ++ second) ↔ law.Permits scope first ∧ law.Permits scope second :=
  List.forall_mem_append

@[simp] theorem Law.permits_cons {use : Use} {rest : List Use} :
    law.Permits scope (use :: rest) ↔
      law scope use.depth use.act ∧ law.Permits scope rest :=
  List.forall_mem_cons

theorem Law.permits_inside {uses : List Use} : law.Permits scope (Use.inside uses) ↔
    ∀ use ∈ uses, law scope (use.depth + 1) use.act :=
  List.forall_mem_map

theorem Law.Permits.here_append {first second : List Reference}
    (h : law.Permits scope (Use.here (first ++ second))) :
    law.Permits scope (Use.here first) ∧ law.Permits scope (Use.here second) := by
  rwa [Use.here, List.map_append, Law.permits_append] at h

/-- In a new scope inside the one that code was declared in, the code keeps to the law. -/
theorem Law.Spreads.enter {store store' : Store} (h : law.Spreads store store') {id : ScopeId}
    (hid : store.scopes.size ≤ id) (hparent : (store'.scope id).parent = some scope)
    {uses : List Use} (huses : law.Permits scope (Use.inside uses)) : law.Permits id uses :=
  fun use hmem => h id scope hid hparent use.depth use.act (Law.permits_inside.mp huses use hmem)

theorem Law.Spreads.enter_new {store : Store} {made : Scope}
    (h : law.Spreads store (store.addScope made).2) (hparent : made.parent = some scope)
    {uses : List Use} (huses : law.Permits scope (Use.inside uses)) :
    law.Permits store.scopes.size uses := by
  refine h.enter (Nat.le_refl _) ?_ huses
  rw [Store.scope_addScope, if_pos rfl]
  exact hparent

theorem Law.permitsFrames_append {first second : List (Frame ScopeId)}
    (hfirst : law.PermitsFrames scope first)
    (hsecond : law.PermitsFrames (returnsTo scope first) second) :
    law.PermitsFrames scope (first ++ second) := by
  induction first generalizing scope with
  | nil => exact hsecond
  | cons frame rest ih => exact ⟨hfirst.1, ih hfirst.2 hsecond⟩

theorem Law.permitsFrames_one {frame : Frame ScopeId} (h : law.Permits scope frame.uses) :
    law.PermitsFrames scope [frame] :=
  ⟨h, trivial⟩

end Uses

/-! ## Stores -/

namespace Store

variable {store : Store} {id other : ScopeId} {name asked : String} {binding : Binding}

theorem bind_of_size_le (h : store.scopes.size ≤ id) : store.bind id name binding = store := by
  have hmodify : store.scopes.modify id (·.bind name binding) = store.scopes := by
    apply Array.ext_getElem?
    intro i
    rw [Array.getElem?_modify]
    by_cases hi : id = i
    · subst hi
      simp [h]
    · simp [hi]
  rw [bind, hmodify]

theorem isSome_binding?_bind (h : ((store.bind id name binding).binding? other asked).isSome) :
    (store.binding? other asked).isSome ∨ other = id ∧ asked = name := by
  by_cases hid : id < store.scopes.size
  · rw [binding?_bind hid] at h
    split at h
    next heq => exact .inr heq
    next => exact .inl h
  · rw [bind_of_size_le (Nat.le_of_not_lt hid)] at h
    exact .inl h

theorem parent_declareAll {pairs : List (Token × Value)} {scope scope' : Scope}
    (h : scope.declareAll pairs = .ok scope') : scope'.parent = scope.parent := by
  induction pairs generalizing scope with
  | nil =>
      cases h
      rfl
  | cons pair rest ih =>
      rw [Scope.declareAll] at h
      split at h
      next => cases h
      next => exact (ih h).trans rfl

theorem isSome_of_checkAssign {token : Token} (h : store.checkAssign id token = none) :
    (store.binding? id token.lexeme).isSome := by
  unfold checkAssign at h
  split at h
  next => cases h
  next hbinding => rw [hbinding]; rfl

end Store

namespace Law

variable {law : Law} {store store' store'' : Store}

namespace Binds

theorem refl (store : Store) : law.Binds store store :=
  fun _ _ _ h => .inl h

theorem trans (h : law.Binds store store') (h' : law.Binds store' store'')
    (hsize : store.scopes.size ≤ store'.scopes.size) : law.Binds store store'' := by
  intro id hid name hbound
  rcases h' id (Nat.lt_of_lt_of_le hid hsize) name hbound with hbound | hlaw
  · exact h id hid name hbound
  · exact .inr hlaw

theorem addScope (store : Store) (scope : Scope) : law.Binds store (store.addScope scope).2 := by
  intro id hid name hbound
  rw [Store.binding?_addScope, if_neg (Nat.ne_of_lt hid)] at hbound
  exact .inl hbound

theorem declare {id : ScopeId} {name : Token} (h : law id 0 (.declares name))
    (binding : Binding) : law.Binds store (store.bind id name.lexeme binding) := by
  intro other _ asked hbound
  rcases Store.isSome_binding?_bind hbound with hbound | ⟨rfl, rfl⟩
  · exact .inl hbound
  · exact .inr ⟨name, rfl, h⟩

theorem assign {id : ScopeId} {name : Token} (h : store.checkAssign id name = none)
    (value : Value) : law.Binds store (store.put id name value) := by
  intro other _ asked hbound
  rcases Store.isSome_binding?_bind hbound with hbound | ⟨rfl, rfl⟩
  · exact .inl hbound
  · exact .inl (Store.isSome_of_checkAssign h)

end Binds

theorem Spreads.mono {before after : Store} (h : law.Spreads before after)
    (hsize : before.scopes.size ≤ store.scopes.size)
    (hparent : ∀ id parent, (store'.scope id).parent = some parent →
      (after.scope id).parent = some parent) : law.Spreads store store' :=
  fun id parent hid hfound => h id parent (Nat.le_trans hsize hid) (hparent id parent hfound)

namespace PermitsHeap

variable {heap : Heap ScopeId} (h : law.PermitsHeap heap)

include h

theorem addFunction {closure : Closure ScopeId}
    (hclosure : law.Permits closure.scope closure.declaration.uses) :
    law.PermitsHeap (heap.addFunction closure).2 := by
  refine ⟨?_, h.methods⟩
  intro other hother
  rcases Array.mem_push.mp hother with hold | rfl
  · exact h.functions other hold
  · exact hclosure

theorem addClass {cls : Class ScopeId} (hcls : ∀ name method, cls.methods.find? name = some method →
    law.Permits method.scope (Use.inside method.declaration.uses)) :
    law.PermitsHeap (heap.addClass cls).2 := by
  refine ⟨h.functions, ?_⟩
  intro other hother
  rcases Array.mem_push.mp hother with hold | rfl
  · exact h.methods other hold
  · exact hcls

theorem declares {owner : ClassId} {cls : Class ScopeId} {method : Closure ScopeId}
    (hdeclares : heap.Declares owner cls method) :
    law.Permits method.scope (Use.inside method.declaration.uses) := by
  obtain ⟨name, hmethod⟩ := hdeclares.named
  exact h.methods cls (Array.mem_of_getElem? hdeclares.found) name method hmethod

theorem findMethod? {id : ClassId} {name : String} {method : Closure ScopeId}
    (hfind : heap.findMethod? id name = some method) :
    law.Permits method.scope (Use.inside method.declaration.uses) := by
  obtain ⟨_, _, -, hdeclares⟩ := Heap.findMethod?_declares hfind
  exact h.declares hdeclares

theorem property? {id : InstanceId} {name : String} {method : Closure ScopeId}
    (hfind : heap.property? id name = some (.method method)) :
    law.Permits method.scope (Use.inside method.declaration.uses) := by
  obtain ⟨_, _, -, hdeclares⟩ := Heap.property?_declares hfind
  exact h.declares hdeclares

end PermitsHeap

end Law

end ScopeScript
