import ScopeScript.Store.Object

/-!
# What a store keeps

Running a program adds scopes, functions, classes and instances to a store and binds names in its
scopes. It never moves a scope to another place, never unbinds a name, never changes a class or the
class of an instance, and never binds `this` or `super` anew. This is the order in which stores
follow one another, and what is shown of a store by walking outward through its scopes stays true
in every later one.
-/

namespace ScopeScript

namespace Store

variable {store : Store} {id other : ScopeId} {name : String} {binding : Binding} {scope : Scope}

/-! ## Scopes and bindings -/

theorem scope_of_size_le (h : store.scopes.size ≤ id) : store.scope id = .empty none := by
  simp [Store.scope, h]

theorem lt_size_of_parent {parent : ScopeId} (h : (store.scope id).parent = some parent) :
    id < store.scopes.size := by
  apply Nat.lt_of_not_le
  intro hle
  rw [scope_of_size_le hle] at h
  cases h

theorem lt_size_of_binding? (h : store.binding? id name = some binding) :
    id < store.scopes.size := by
  apply Nat.lt_of_not_le
  intro hle
  rw [binding?, scope_of_size_le hle] at h
  cases h

theorem scope_addScope :
    (store.addScope scope).2.scope id =
      if id = store.scopes.size then scope else store.scope id := by
  simp only [Store.scope, addScope, Array.getElem?_push]
  split <;> rfl

theorem binding?_addScope :
    (store.addScope scope).2.binding? id name =
      if id = store.scopes.size then scope.bindings.find? name else store.binding? id name := by
  rw [binding?, scope_addScope]
  split <;> rfl

theorem scope_bind (h : id < store.scopes.size) :
    (store.bind id name binding).scope other =
      if other = id then (store.scope id).bind name binding else store.scope other := by
  simp only [Store.scope, bind, Array.getElem?_modify]
  by_cases heq : id = other
  · subst heq
    simp [h]
  · simp [heq, Ne.symm heq]

theorem parent_bind :
    ((store.bind id name binding).scope other).parent = (store.scope other).parent := by
  simp only [Store.scope, bind, Array.getElem?_modify]
  by_cases heq : id = other
  · subst heq
    cases store.scopes[id]? with
    | none => simp
    | some => simp [Scope.bind]
  · simp [heq]

theorem binding?_bind (h : id < store.scopes.size) (asked : String) :
    (store.bind id name binding).binding? other asked =
      if other = id ∧ asked = name then some binding else store.binding? other asked := by
  rw [binding?, scope_bind h]
  by_cases heq : other = id
  · subst heq
    rw [if_pos rfl, Scope.bind, NameMap.find?_insert]
    by_cases hname : asked = name <;> simp [hname, binding?]
  · simp [heq, binding?]

/-- Adding a scope with a name is adding the scope without it and binding the name. -/
theorem addScope_bind :
    (store.addScope (scope.bind name binding)).2 =
      (store.addScope scope).2.bind store.scopes.size name binding := by
  have hmodify : (store.scopes.push scope).modify store.scopes.size (·.bind name binding) =
      store.scopes.push (scope.bind name binding) := by
    apply Array.ext_getElem?
    intro i
    rw [Array.getElem?_modify, Array.getElem?_push, Array.getElem?_push]
    by_cases h : i = store.scopes.size
    · simp [h]
    · simp [h, Ne.symm h]
  rw [addScope, addScope, bind, hmodify]

/-! ## Walking outward -/

/-- The scope that lies exactly so many scopes outward, if there are that many. -/
def outward? (store : Store) (id : ScopeId) : Nat → Option ScopeId
  | 0 => some id
  | distance + 1 => (store.scope id).parent.bind (store.outward? · distance)

theorem outward?_succ {parent : ScopeId} (h : (store.scope id).parent = some parent)
    (distance : Nat) : store.outward? id (distance + 1) = store.outward? parent distance := by
  rw [outward?, h, Option.bind_some]

theorem outward?_parent {distance : Nat} {parent : ScopeId}
    (h : store.outward? id distance = some other)
    (hparent : (store.scope other).parent = some parent) :
    store.outward? id (distance + 1) = some parent := by
  induction distance generalizing id with
  | zero =>
      cases h
      rw [outward?_succ hparent]
      rfl
  | succ distance ih =>
      obtain ⟨next, hnext, h⟩ := Option.bind_eq_some_iff.mp h
      rw [outward?_succ hnext]
      exact ih h

/-- Where there are enough scopes, walking outward does not stop early. -/
theorem ancestor_of_outward? {distance : Nat} (h : store.outward? id distance = some other) :
    store.ancestor id distance = other := by
  induction distance generalizing id with
  | zero => simpa [outward?, ancestor] using h
  | succ distance ih =>
      rw [outward?] at h
      rw [ancestor]
      cases hparent : (store.scope id).parent with
      | none => simp [hparent] at h
      | some parent =>
          rw [hparent, Option.bind_some] at h
          exact ih h

theorem getAt_of_outward? {distance : Nat} (token : Token)
    (hout : store.outward? id distance = some other)
    (hbinding : store.binding? other token.lexeme = some binding) :
    store.getAt id distance token = .ok binding.value := by
  rw [getAt, ancestor_of_outward? hout, getHere, hbinding]

/-- An assignment by walking outward takes effect at once where the name is bound. -/
theorem assignTarget_here {token : Token} {value : Value}
    (h : store.binding? id token.lexeme = some ⟨value, true⟩) :
    store.assignTarget id token = .ok id := by
  simp [assignTarget, holder?, holderWithin?, checkAssign, h]

/-- In a scope that nothing is around, a name is looked up in that scope alone. -/
theorem holder?_of_root (h : (store.scope id).parent = none) :
    store.holder? id name = if (store.binding? id name).isSome then some id else none := by
  rw [holder?, holderWithin?, h]

end Store

/-! ## Growth -/

namespace Store

/-- The second store may follow the first. -/
structure Grows (store store' : Store) : Prop where
  parent : ∀ id parent, (store.scope id).parent = some parent →
    (store'.scope id).parent = some parent
  bound : ∀ id name, (store.binding? id name).isSome → (store'.binding? id name).isSome
  fixed : ∀ id name binding, name = "this" ∨ name = "super" →
    store.binding? id name = some binding → store'.binding? id name = some binding
  classes : ∀ (id : ClassId) cls, store.classes[id]? = some cls → store'.classes[id]? = some cls
  instances : ∀ (id : InstanceId) object, store.instances[id]? = some object →
    ∃ object', store'.instances[id]? = some object' ∧ object'.classId = object.classId

namespace Grows

variable {store store' store'' : Store}

theorem refl (store : Store) : store.Grows store :=
  ⟨fun _ _ h => h, fun _ _ h => h, fun _ _ _ _ h => h, fun _ _ h => h, fun _ object h =>
    ⟨object, h, rfl⟩⟩

theorem trans (h : store.Grows store') (h' : store'.Grows store'') : store.Grows store'' := by
  refine ⟨?_, ?_, ?_, ?_, ?_⟩
  · intro id parent hparent
    exact h'.parent id parent (h.parent id parent hparent)
  · intro id name hbound
    exact h'.bound id name (h.bound id name hbound)
  · intro id name binding hname hbound
    exact h'.fixed id name binding hname (h.fixed id name binding hname hbound)
  · intro id cls hcls
    exact h'.classes id cls (h.classes id cls hcls)
  · intro id object hobject
    obtain ⟨object', hobject', hclass⟩ := h.instances id object hobject
    obtain ⟨object'', hobject'', hclass'⟩ := h'.instances id object' hobject'
    exact ⟨object'', hobject'', hclass'.trans hclass⟩

/-- What lies outward stays there. -/
theorem outward? (h : store.Grows store') {id other : ScopeId} {distance : Nat}
    (hout : store.outward? id distance = some other) :
    store'.outward? id distance = some other := by
  induction distance generalizing id with
  | zero => exact hout
  | succ distance ih =>
      rw [Store.outward?] at hout
      obtain ⟨parent, hparent, hout⟩ := Option.bind_eq_some_iff.mp hout
      rw [outward?_succ (h.parent id parent hparent)]
      exact ih hout

theorem addScope (store : Store) (scope : Scope) : store.Grows (store.addScope scope).2 := by
  have hne : ∀ id, id < store.scopes.size → id ≠ store.scopes.size := fun _ hlt => Nat.ne_of_lt hlt
  refine ⟨?_, ?_, ?_, fun _ _ h => h, fun _ object h => ⟨object, h, rfl⟩⟩
  · intro id parent h
    rw [scope_addScope, if_neg (hne id (lt_size_of_parent h))]
    exact h
  · intro id name h
    obtain ⟨binding, hbinding⟩ := Option.isSome_iff_exists.mp h
    rw [binding?_addScope, if_neg (hne id (lt_size_of_binding? hbinding))]
    exact h
  · intro id name binding _ h
    rw [binding?_addScope, if_neg (hne id (lt_size_of_binding? h))]
    exact h

/-- A name that is bound is not one of those that are bound once, or is not bound yet. -/
theorem bind {id : ScopeId} {name : String} (binding : Binding) (hid : id < store.scopes.size)
    (hname : store.binding? id name = none ∨ name ≠ "this" ∧ name ≠ "super") :
    store.Grows (store.bind id name binding) := by
  refine ⟨?_, ?_, ?_, fun _ _ h => h, fun _ object h => ⟨object, h, rfl⟩⟩
  · intro other parent h
    rw [parent_bind]
    exact h
  · intro other asked h
    rw [binding?_bind hid]
    split
    next => rfl
    next => exact h
  · intro other asked old hasked h
    rw [binding?_bind hid, if_neg]
    · exact h
    · rintro ⟨rfl, rfl⟩
      rcases hname with hname | hname
      · rw [hname] at h
        cases h
      · exact hasked.elim hname.1 hname.2

theorem addFunction (store : Store) (closure : Closure ScopeId) :
    store.Grows (store.addFunction closure).2 :=
  ⟨fun _ _ h => h, fun _ _ h => h, fun _ _ _ _ h => h, fun _ _ h => h, fun _ object h =>
    ⟨object, h, rfl⟩⟩

theorem addClass (store : Store) (cls : Class ScopeId) : store.Grows (store.addClass cls).2 := by
  refine ⟨fun _ _ h => h, fun _ _ h => h, fun _ _ _ _ h => h, ?_, fun _ object h => ⟨object, h,
    rfl⟩⟩
  intro id old h
  have hlt : id < store.classes.size := (Array.getElem?_eq_some_iff.mp h).1
  simp only [Store.addClass, Store.withHeap, Heap.addClass, Array.getElem?_push]
  rw [if_neg (Nat.ne_of_lt hlt)]
  exact h

theorem addInstance (store : Store) (classId : ClassId) :
    store.Grows (store.addInstance classId).2 := by
  refine ⟨fun _ _ h => h, fun _ _ h => h, fun _ _ _ _ h => h, fun _ _ h => h, fun id object h =>
    ⟨object, ?_, rfl⟩⟩
  have hlt : id < store.instances.size := (Array.getElem?_eq_some_iff.mp h).1
  simp only [Store.addInstance, Store.withHeap, Heap.addInstance, Array.getElem?_push]
  rw [if_neg (Nat.ne_of_lt hlt)]
  exact h

theorem setField (store : Store) (id : InstanceId) (name : String) (value : Value) :
    store.Grows (store.setField id name value) := by
  refine ⟨fun _ _ h => h, fun _ _ h => h, fun _ _ _ _ h => h, fun _ _ h => h, ?_⟩
  intro other object h
  simp only [Store.setField, Heap.setField, Array.getElem?_modify, h]
  split
  next => exact ⟨_, rfl, rfl⟩
  next => exact ⟨object, rfl, rfl⟩

end Grows

end Store

end ScopeScript
