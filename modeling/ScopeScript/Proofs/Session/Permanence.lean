import ScopeScript.Proofs.Execution.Edits
import ScopeScript.Proofs.Session.Point

/-!
# What stays as it is

Nothing that a session has made is ever taken back. A scope stays where it is, a name that is bound
stays bound and as free to be assigned to as it was, and one that may not be assigned to keeps its
value; an instance stays of its class and loses no field. This holds from any point to any later
one, for all that happens in between, faults included: it is shown of the edits that steps are made
of, and of nothing else.
-/

namespace ScopeScript

/-- A binding that has taken the place of another may be assigned to as the other might and, if it
may not, has its value. -/
structure Binding.Keeps (old new : Binding) : Prop where
  mutable : new.mutable = old.mutable
  value : old.mutable = false → new.value = old.value

/-- A scope is around the same scope as before, and its names are bound as before. -/
structure Scope.Keeps (old new : Scope) : Prop where
  parent : new.parent = old.parent
  bindings : ∀ name binding, old.bindings.find? name = some binding →
    ∃ binding', new.bindings.find? name = some binding' ∧ binding.Keeps binding'

/-- An instance is of the same class as before, and has its fields. -/
structure Instance.Keeps (old new : Instance) : Prop where
  classId : new.classId = old.classId
  fields : ∀ name, old.fields.contains name → new.fields.contains name

/-- Everything in an array is still in its place, as far as a relation can tell. -/
def Stays {α : Type} (keeps : α → α → Prop) (old new : Array α) : Prop :=
  ∀ (i : Nat) (a : α), old[i]? = some a → ∃ a', new[i]? = some a' ∧ keeps a a'

/-- Nothing of a store has been taken back in another. Classes have not changed at all. -/
structure Store.Persists (old new : Store) : Prop where
  scopes : Stays Scope.Keeps old.scopes new.scopes
  classes : Stays Eq old.classes new.classes
  instances : Stays Instance.Keeps old.instances new.instances

theorem Binding.Keeps.trans {a b c : Binding} (h : a.Keeps b) (h' : b.Keeps c) : a.Keeps c := by
  refine ⟨h'.mutable.trans h.mutable, ?_⟩
  intro hmutable
  rw [h'.value (h.mutable.trans hmutable), h.value hmutable]

theorem Scope.Keeps.refl (scope : Scope) : scope.Keeps scope :=
  ⟨rfl, fun _ binding hbinding => ⟨binding, hbinding, rfl, fun _ => rfl⟩⟩

theorem Scope.Keeps.trans {a b c : Scope} (h : a.Keeps b) (h' : b.Keeps c) : a.Keeps c := by
  refine ⟨h'.parent.trans h.parent, ?_⟩
  intro name binding hbinding
  obtain ⟨binding', hbinding', hkeeps⟩ := h.bindings name binding hbinding
  obtain ⟨binding'', hbinding'', hkeeps'⟩ := h'.bindings name binding' hbinding'
  exact ⟨binding'', hbinding'', hkeeps.trans hkeeps'⟩

/-- A name may be bound anew where its binding keeps to the one that it had, if it had one. -/
theorem Scope.Keeps.bind {scope : Scope} {name : String} {binding : Binding}
    (h : ∀ old, scope.bindings.find? name = some old → old.Keeps binding) :
    scope.Keeps (scope.bind name binding) := by
  refine ⟨rfl, ?_⟩
  intro other old hold
  by_cases hname : other = name
  · subst hname
    exact ⟨binding, by simp [Scope.bind], h old hold⟩
  · exact ⟨old, by simpa [Scope.bind, hname] using hold, rfl, fun _ => rfl⟩

theorem Instance.Keeps.refl (object : Instance) : object.Keeps object :=
  ⟨rfl, fun _ h => h⟩

theorem Instance.Keeps.trans {a b c : Instance} (h : a.Keeps b) (h' : b.Keeps c) : a.Keeps c :=
  ⟨h'.classId.trans h.classId, fun name hname => h'.fields name (h.fields name hname)⟩

theorem Instance.Keeps.insert (object : Instance) (name : String) (value : Value) :
    object.Keeps { object with fields := object.fields.insert name value } := by
  refine ⟨rfl, ?_⟩
  intro other hother
  rw [NameMap.contains, NameMap.find?_insert]
  split
  next => rfl
  next => exact hother

namespace Stays

variable {α : Type} {keeps : α → α → Prop} {a b c : Array α}

theorem refl (hrefl : ∀ x, keeps x x) (a : Array α) : Stays keeps a a :=
  fun _ x hx => ⟨x, hx, hrefl x⟩

theorem trans (htrans : ∀ x y z, keeps x y → keeps y z → keeps x z) (h : Stays keeps a b)
    (h' : Stays keeps b c) : Stays keeps a c := by
  intro i x hx
  obtain ⟨y, hy, hxy⟩ := h i x hx
  obtain ⟨z, hz, hyz⟩ := h' i y hy
  exact ⟨z, hz, htrans x y z hxy hyz⟩

theorem push (hrefl : ∀ x, keeps x x) (a : Array α) (x : α) : Stays keeps a (a.push x) := by
  intro i old hold
  have hlt : i < a.size := (Array.getElem?_eq_some_iff.mp hold).1
  refine ⟨old, ?_, hrefl old⟩
  rw [Array.getElem?_push, if_neg (Nat.ne_of_lt hlt)]
  exact hold

theorem modify (hrefl : ∀ x, keeps x x) {i : Nat} {f : α → α}
    (h : ∀ x, a[i]? = some x → keeps x (f x)) : Stays keeps a (a.modify i f) := by
  intro j x hx
  rw [Array.getElem?_modify, hx]
  by_cases hij : i = j
  · subst hij
    exact ⟨f x, by simp, h x hx⟩
  · exact ⟨x, by simp [hij], hrefl x⟩

end Stays

namespace Store.Persists

variable {store store' store'' : Store}

theorem refl (store : Store) : store.Persists store :=
  ⟨.refl .refl _, .refl (fun _ => rfl) _, .refl .refl _⟩

theorem trans (h : store.Persists store') (h' : store'.Persists store'') :
    store.Persists store'' :=
  ⟨h.scopes.trans (fun _ _ _ => .trans) h'.scopes,
    h.classes.trans (fun _ _ _ => Eq.trans) h'.classes,
    h.instances.trans (fun _ _ _ => .trans) h'.instances⟩

/-- A name may be bound where its binding keeps to the one that it had, if it had one. -/
theorem bind {id : ScopeId} {name : String} {binding : Binding}
    (h : ∀ old, store.binding? id name = some old → old.Keeps binding) :
    store.Persists (store.bind id name binding) := by
  refine ⟨.modify .refl ?_, .refl (fun _ => rfl) _, .refl .refl _⟩
  intro scope hscope
  apply Scope.Keeps.bind
  intro old hold
  apply h old
  simpa [binding?, Store.scope, hscope] using hold

theorem binding? (h : store.Persists store') {id : ScopeId} {name : String} {old : Binding}
    (hold : store.binding? id name = some old) :
    ∃ new, store'.binding? id name = some new ∧ old.Keeps new := by
  have hsome : store.scopes[id]? = some (store.scope id) := by
    simp [Store.scope, Array.getElem?_eq_getElem (lt_size_of_binding? hold)]
  obtain ⟨scope', hscope', hkeeps⟩ := h.scopes id _ hsome
  obtain ⟨new, hnew, hbinding⟩ := hkeeps.bindings name old hold
  exact ⟨new, by simpa [Store.binding?, Store.scope, hscope'] using hnew, hbinding⟩

end Store.Persists

/-- An edit takes nothing back: its guard makes sure that a name which is bound again is one that
may be assigned to. -/
theorem Edit.persists {state state' : State} (h : Edit state state') :
    state.store.Persists state'.store := by
  cases h with
  | write | tick | move => exact .refl _
  | addScope scope => exact ⟨.push .refl _ scope, .refl (fun _ => rfl) _, .refl .refl _⟩
  | addFunction => exact ⟨.refl .refl _, .refl (fun _ => rfl) _, .refl .refl _⟩
  | addClass cls => exact ⟨.refl .refl _, .push (fun _ => rfl) _ cls, .refl .refl _⟩
  | addInstance => exact ⟨.refl .refl _, .refl (fun _ => rfl) _, .push .refl _ _⟩
  | setField id name value =>
      exact ⟨.refl .refl _, .refl (fun _ => rfl) _, .modify .refl fun object _ =>
        .insert object name value⟩
  | @declare id name binding hcheck =>
      apply Store.Persists.bind
      intro old hold
      simp [Store.checkDeclare, hold] at hcheck
  | @assign id name value hcheck =>
      apply Store.Persists.bind
      intro old hold
      have hmutable : old.mutable = true := by simpa [Store.checkAssign, hold] using hcheck
      exact ⟨hmutable.symm, by simp [hmutable]⟩

theorem Edits.persists {state state' : State} (h : Edits state state') :
    state.store.Persists state'.store := by
  induction h with
  | refl => exact .refl _
  | tail _ hedit ih => exact ih.trans hedit.persists

theorem Point.Next.persists {p q : Point} (h : p.Next q) : p.store.Persists q.store := by
  cases h with
  | step => exact (step_edits p.config).persists
  | rejected | accepted => exact .refl _

/-- From any point of a session to any later one, nothing is taken back: every scope is around the
same scope and binds at least the same names, each as mutable as before; what is bound for good
keeps its value; every instance keeps its class and at least its fields. -/
theorem store_persists {p q : Point} (h : p.Leads q) : p.store.Persists q.store := by
  induction h with
  | refl => exact .refl _
  | tail _ hnext ih => exact ih.trans hnext.persists

/-- A function that assigns to a constant around it runs into a fault, and the constant is what it
was. -/
theorem store_persists_past_fault :
    let p := Point.inSource {} ⟨fun _ => 0, 0⟩ "let x = true; fun f() { x = false; } f();" 5
    let q : Point := ⟨p.nextId, run 20 p.config⟩
    p.Leads q ∧ p.store.binding? 0 "x" = some ⟨.bool true, false⟩
      ∧ q.config.control.error?.map RuntimeError.cause = some (.assignedConstant "x")
      ∧ q.store.binding? 0 "x" = some ⟨.bool true, false⟩ := by
  intro p q
  have hleads : p.Leads q := Point.leads_run p.nextId 20 p.config
  have hfound : ((p.store.binding? 0 "x").any fun binding =>
      binding.value == .bool true && !binding.mutable) = true := by
    decide +kernel
  have hold : p.store.binding? 0 "x" = some ⟨.bool true, false⟩ := by
    obtain ⟨⟨value, mutable⟩, hbinding, hsame⟩ := (Option.any_eq_true _ _).mp hfound
    obtain ⟨hvalue, hmutable⟩ := (Bool.and_eq_true _ _).mp hsame
    obtain rfl : value = .bool true := Value.eq_of_beq hvalue (by simp)
    obtain rfl : mutable = false := Bool.not_eq_true' _ |>.mp hmutable
    exact hbinding
  refine ⟨hleads, hold, by decide +kernel, ?_⟩
  obtain ⟨⟨value, mutable⟩, hnew, hmutable, hvalue⟩ := (store_persists hleads).binding? hold
  obtain rfl : mutable = false := hmutable
  obtain rfl : value = .bool true := hvalue rfl
  exact hnew

end ScopeScript
