import Mathlib.Data.Nat.Find
import ScopeScript.Proofs.Execution.Edits
import ScopeScript.Proofs.Execution.Walks

/-!
# Walking and counting

A name is reached by walking outward to the first scope that binds it, or in the scope that lies a
given number of scopes outward. However scopes are made and used, the scope around a scope is an
older one. So counting comes to a last scope and stays there, and where the number is that of the
scopes which a walk passes, both reach the same binding. What is then assigned changes this binding
and nothing else; an operation that fails changes nothing at all.
-/

namespace ScopeScript

/-! ## Operations -/

/-- An operation on the scopes of a store. -/
inductive ScopeOperation where
  /-- Make a scope that nothing is around. -/
  | root
  /-- Make a scope inside another. -/
  | child (parent : ScopeId)
  /-- Declare a name that is new. -/
  | declare (scope : ScopeId) (name : Token) (value : Value) (mutable : Bool)
  /-- Bind a name, whether it was bound or not. -/
  | install (scope : ScopeId) (name : String) (value : Value)
  /-- Assign to a name, found by walking. -/
  | assign (scope : ScopeId) (name : Token) (value : Value)
  /-- Assign to a name, found by counting. -/
  | assignAt (scope : ScopeId) (distance : Nat) (name : Token) (value : Value)

namespace ScopeOperation

/-- The scope that an operation is carried out on, if it is one that is there. -/
def scope? : ScopeOperation → Option ScopeId
  | root => none
  | child scope | declare scope .. | install scope .. | assign scope .. | assignAt scope .. =>
    some scope

/-- The scope that an operation is carried out on exists. -/
def Within (operation : ScopeOperation) (store : Store) : Prop :=
  ∀ scope ∈ operation.scope?, scope < store.scopes.size

/-- What an operation gives: the store that it changes to, or an error. -/
def result (operation : ScopeOperation) (store : Store) : Except RuntimeError Store :=
  match operation with
  | root => .ok (store.addScope (.empty none)).2
  | child parent => .ok (store.addScope (.empty (some parent))).2
  | declare scope name value mutable => store.declare scope name ⟨value, mutable⟩
  | install scope name value => .ok (store.bind scope name ⟨value, true⟩)
  | assign scope name value => store.assign scope name value
  | assignAt scope distance name value => store.assignAt scope distance name value

/-- Carry out an operation. The error, if any, comes with the store as it is left. -/
def perform (operation : ScopeOperation) (store : Store) : Option RuntimeError × Store :=
  match operation.result store with
  | .ok store => (none, store)
  | .error error => (some error, store)

end ScopeOperation

namespace Store

/-- The scopes of a store have been made and used by operations, one after another, of which some
may have failed. -/
inductive Family : Store → Prop
  | empty (heap : Heap ScopeId) : Family ⟨heap, #[]⟩
  | perform {store : Store} {operation : ScopeOperation} :
      Family store → operation.Within store → Family (operation.perform store).2

/-! ## Counting outward -/

variable {store store' : Store} {id : ScopeId} {distance : Nat}

theorem ancestor_of_outermost (h : store.outer? id = none) : store.ancestor id distance = id := by
  cases distance with
  | zero => rfl
  | succ distance =>
      rw [outer?] at h
      rw [ancestor, h]

theorem ancestor_succ {parent : ScopeId} (h : store.outer? id = some parent) :
    store.ancestor id (distance + 1) = store.ancestor parent distance := by
  rw [outer?] at h
  rw [ancestor, h]

/-- Counting on from where counting has come to. -/
theorem ancestor_ancestor (id : ScopeId) (first second : Nat) :
    store.ancestor (store.ancestor id first) second = store.ancestor id (first + second) := by
  induction first generalizing id with
  | zero => rw [Nat.zero_add, ancestor]
  | succ first ih =>
      cases hparent : store.outer? id with
      | none => simp only [ancestor_of_outermost hparent]
      | some parent =>
          rw [ancestor_succ hparent, ih, Nat.add_right_comm, ancestor_succ hparent]

/-- Counting outward from a scope goes from scope to scope `depth` times, and stays where it is
after that. -/
structure Deep (store : Store) (id : ScopeId) (depth : Nat) : Prop where
  climbs : ∀ distance < depth,
    store.outer? (store.ancestor id distance) = some (store.ancestor id (distance + 1))
  stays : ∀ distance ≥ depth, store.outer? (store.ancestor id distance) = none
    ∧ store.ancestor id distance = store.ancestor id depth

theorem exists_deep (hnext : ∀ a b, store.outer? a = some b → b < a) (id : ScopeId) :
    ∃ depth, store.Deep id depth := by
  induction id using Nat.strong_induction_on with
  | h id ih =>
      cases hparent : store.outer? id with
      | none =>
          refine ⟨0, fun distance hlt => absurd hlt (Nat.not_lt_zero _), fun distance _ => ?_⟩
          simp only [ancestor_of_outermost hparent, hparent, and_self]
      | some parent =>
          obtain ⟨depth, hclimbs, hstays⟩ := ih parent (hnext id parent hparent)
          refine ⟨depth + 1, fun distance hlt => ?_, fun distance hle => ?_⟩
          · rw [ancestor_succ hparent]
            cases distance with
            | zero => exact hparent
            | succ distance =>
                rw [ancestor_succ hparent]
                exact hclimbs distance (Nat.lt_of_succ_lt_succ hlt)
          · obtain ⟨distance, rfl⟩ :=
              Nat.exists_eq_add_of_le' (Nat.le_trans (Nat.le_add_left 1 _) hle)
            rw [ancestor_succ hparent, ancestor_succ hparent]
            exact hstays distance (Nat.le_of_succ_le_succ hle)

/-! ## Walking and counting -/

section Walks

variable {α : Type} {here : ScopeId → Option α} {nowhere result : α}

/-- A walk gives what the first scope has, among those that counting goes through. -/
theorem walk_eq_first (h : Walk store.outer? here nowhere id result) {first : α} (distance : Nat)
    (hbefore : ∀ nearer < distance, here (store.ancestor id nearer) = none)
    (hfirst : here (store.ancestor id distance) = some first) : result = first := by
  induction h generalizing distance with
  | found hfound =>
      cases distance with
      | zero => exact Option.some.inj (hfound.symm.trans hfirst)
      | succ distance => cases hfound.symm.trans (hbefore 0 (Nat.succ_pos distance))
  | on hnone hparent _ ih =>
      cases distance with
      | zero => cases hnone.symm.trans hfirst
      | succ distance =>
          rw [ancestor_succ hparent] at hfirst
          refine ih distance (fun nearer hlt => ?_) hfirst
          rw [← ancestor_succ hparent]
          exact hbefore (nearer + 1) (Nat.succ_lt_succ hlt)
  | ended hnone hended =>
      rw [ancestor_of_outermost hended] at hfirst
      cases hnone.symm.trans hfirst

theorem walk_eq_nowhere (h : Walk store.outer? here nowhere id result)
    (hnone : ∀ distance, here (store.ancestor id distance) = none) : result = nowhere := by
  induction h with
  | found hfound => cases hfound.symm.trans (hnone 0)
  | on _ hparent _ ih =>
      refine ih fun distance => ?_
      rw [← ancestor_succ hparent]
      exact hnone (distance + 1)
  | ended => rfl

end Walks

/-- Counting outward from a scope, the first scope that binds a name is `distance` scopes away. -/
structure FirstAt (store : Store) (id : ScopeId) (distance : Nat) (name : String) : Prop where
  bound : (store.binding? (store.ancestor id distance) name).isSome
  before : ∀ nearer < distance, store.binding? (store.ancestor id nearer) name = none

/-- No scope that counting outward goes through binds a name. -/
def Unbound (store : Store) (id : ScopeId) (name : String) : Prop :=
  ∀ distance, store.binding? (store.ancestor id distance) name = none

theorem unbound_or_firstAt (store : Store) (id : ScopeId) (name : String) :
    store.Unbound id name ∨ ∃ distance, store.FirstAt id distance name := by
  by_cases h : ∃ distance, (store.binding? (store.ancestor id distance) name).isSome
  · refine .inr ⟨Nat.find h, Nat.find_spec h, fun nearer hlt => ?_⟩
    exact Option.not_isSome_iff_eq_none.mp (Nat.find_min h hlt)
  · exact .inl fun distance => Option.not_isSome_iff_eq_none.mp (not_exists.mp h distance)

section Reading

variable (hnext : ∀ a b, store.outer? a = some b → b < a) {name : Token}

include hnext

theorem get_eq_getAt (h : store.FirstAt id distance name.lexeme) :
    store.get id name = store.getAt id distance name := by
  refine walk_eq_first (store.get_walk hnext name id) distance (fun nearer hlt => ?_) ?_
  · rw [valueHere?, h.before nearer hlt, Option.map_none]
  · obtain ⟨binding, hbinding⟩ := Option.isSome_iff_exists.mp h.bound
    simp only [valueHere?, getAt, getHere, hbinding, Option.map_some]

theorem get_of_unbound (h : store.Unbound id name.lexeme) :
    store.get id name = .error ⟨name, .undefinedVariable name.lexeme⟩ :=
  walk_eq_nowhere (store.get_walk hnext name id) fun distance => by
    rw [valueHere?, h distance, Option.map_none]

theorem assign_eq_assignAt (value : Value) (h : store.FirstAt id distance name.lexeme) :
    store.assign id name value = store.assignAt id distance name value := by
  refine walk_eq_first (store.assign_walk hnext name value id) distance (fun nearer hlt => ?_) ?_
  · rw [assignHere?, h.before nearer hlt, Option.map_none]
  · obtain ⟨⟨old, mutable⟩, hbinding⟩ := Option.isSome_iff_exists.mp h.bound
    cases mutable <;>
      simp [assignHere?, assignAt, assignTargetAt, checkAssign, hbinding]

theorem assign_of_unbound (value : Value) (h : store.Unbound id name.lexeme) :
    store.assign id name value = .error ⟨name, .undefinedVariable name.lexeme⟩ :=
  walk_eq_nowhere (store.assign_walk hnext name value id) fun distance => by
    rw [assignHere?, h distance, Option.map_none]

end Reading

/-! ## What an assignment changes -/

/-- A store differs from another in the value of one name of one scope, which could be assigned to
and still can be. -/
structure Sets (store store' : Store) (id : ScopeId) (name : String) (value : Value) : Prop where
  was : ∃ old, store.binding? id name = some ⟨old, true⟩
  now : ∀ other asked, store'.binding? other asked
    = if other = id ∧ asked = name then some ⟨value, true⟩ else store.binding? other asked
  parents : ∀ other, store'.outer? other = store.outer? other
  size : store'.scopes.size = store.scopes.size
  heap : store'.toHeap = store.toHeap

theorem put_sets {name : Token} (value : Value) (h : store.checkAssign id name = none) :
    store.Sets (store.put id name value) id name.lexeme value := by
  have hwas : ∃ old, store.binding? id name.lexeme = some ⟨old, true⟩ := by
    unfold checkAssign at h
    split at h
    next => cases h
    next binding hbinding =>
      split at h
      next hmutable =>
        refine ⟨binding.value, ?_⟩
        rw [hbinding, ← hmutable]
      next => cases h
  obtain ⟨old, hold⟩ := hwas
  exact {
    was := ⟨old, hold⟩
    now := fun _ asked => binding?_bind (lt_size_of_binding? hold) asked
    parents := fun _ => parent_bind
    size := Array.size_modify
    heap := rfl }

theorem assignAt_sets {name : Token} {value : Value}
    (h : store.assignAt id distance name value = .ok store') :
    store.Sets store' (store.ancestor id distance) name.lexeme value := by
  unfold assignAt at h
  split at h
  next => cases h
  next target htarget =>
    cases h
    have hplace : target = store.ancestor id distance := by
      unfold assignTargetAt at htarget
      dsimp only at htarget
      split at htarget
      next => cases htarget
      next => exact (Except.ok.inj htarget).symm
    exact hplace ▸ put_sets value (checkAssign_of_targetAt htarget)

theorem assign_sets (hnext : ∀ a b, store.outer? a = some b → b < a) {name : Token} {value : Value}
    (h : store.assign id name value = .ok store') :
    ∃ distance, store.FirstAt id distance name.lexeme
      ∧ store.Sets store' (store.ancestor id distance) name.lexeme value := by
  obtain hunbound | ⟨distance, hfirst⟩ := store.unbound_or_firstAt id name.lexeme
  · cases h.symm.trans (assign_of_unbound hnext value hunbound)
  · rw [assign_eq_assignAt hnext value hfirst] at h
    exact ⟨distance, hfirst, assignAt_sets h⟩

/-! ## Families of scopes -/

/-- Why an operation on the scopes of a store fails. -/
inductive Refuses (store : Store) : ScopeOperation → RuntimeError → Prop
  | bound {scope : ScopeId} {name : Token} {value : Value} {mutable : Bool} :
      (store.binding? scope name.lexeme).isSome →
      Refuses store (.declare scope name value mutable) ⟨name, .alreadyDeclared name.lexeme⟩
  | unbound {scope : ScopeId} {name : Token} {value : Value} :
      store.Unbound scope name.lexeme →
      Refuses store (.assign scope name value) ⟨name, .undefinedVariable name.lexeme⟩
  | constant {scope : ScopeId} {distance : Nat} {name : Token} {value old : Value} :
      store.FirstAt scope distance name.lexeme →
      store.binding? (store.ancestor scope distance) name.lexeme = some ⟨old, false⟩ →
      Refuses store (.assign scope name value) ⟨name, .assignedConstant name.lexeme⟩
  | unboundAt {scope : ScopeId} {distance : Nat} {name : Token} {value : Value} :
      store.binding? (store.ancestor scope distance) name.lexeme = none →
      Refuses store (.assignAt scope distance name value) ⟨name, .undefinedVariable name.lexeme⟩
  | constantAt {scope : ScopeId} {distance : Nat} {name : Token} {value old : Value} :
      store.binding? (store.ancestor scope distance) name.lexeme = some ⟨old, false⟩ →
      Refuses store (.assignAt scope distance name value) ⟨name, .assignedConstant name.lexeme⟩

theorem assignAt_eq (store : Store) (id : ScopeId) (distance : Nat) (name : Token) (value : Value) :
    store.assignAt id distance name value =
      match store.binding? (store.ancestor id distance) name.lexeme with
      | none => .error ⟨name, .undefinedVariable name.lexeme⟩
      | some ⟨_, false⟩ => .error ⟨name, .assignedConstant name.lexeme⟩
      | some ⟨_, true⟩ => .ok (store.put (store.ancestor id distance) name value) := by
  unfold assignAt assignTargetAt checkAssign
  dsimp only
  rcases store.binding? (store.ancestor id distance) name.lexeme with _ | ⟨old, mutable⟩
  · rfl
  · cases mutable <;> rfl

theorem refuses_assignAt_iff {name : Token} {value : Value} {error : RuntimeError} :
    store.Refuses (.assignAt id distance name value) error ↔
      store.assignAt id distance name value = .error error := by
  rw [assignAt_eq]
  constructor
  · intro h
    cases h with
    | unboundAt hbinding => rw [hbinding]
    | constantAt hbinding => rw [hbinding]
  · intro h
    split at h
    next hbinding =>
      cases h
      exact .unboundAt hbinding
    next hbinding =>
      cases h
      exact .constantAt hbinding
    next => cases h

theorem refuses_assign_iff (hnext : ∀ a b, store.outer? a = some b → b < a) {name : Token}
    {value : Value} {error : RuntimeError} :
    store.Refuses (.assign id name value) error ↔ store.assign id name value = .error error := by
  constructor
  · intro h
    cases h with
    | unbound hunbound => exact assign_of_unbound hnext value hunbound
    | constant hfirst hbinding =>
        rw [assign_eq_assignAt hnext value hfirst, assignAt_eq, hbinding]
  · intro h
    obtain hunbound | ⟨distance, hfirst⟩ := store.unbound_or_firstAt id name.lexeme
    · cases h.symm.trans (assign_of_unbound hnext value hunbound)
      exact .unbound hunbound
    · rw [assign_eq_assignAt hnext value hfirst] at h
      cases refuses_assignAt_iff.mpr h with
      | unboundAt hbinding =>
          have hbound := hfirst.bound
          rw [hbinding] at hbound
          cases hbound
      | constantAt hbinding => exact .constant hfirst hbinding

theorem refuses_iff (hnext : ∀ a b, store.outer? a = some b → b < a)
    {operation : ScopeOperation} {error : RuntimeError} :
    store.Refuses operation error ↔ operation.result store = .error error := by
  cases operation with
  | assign => exact refuses_assign_iff hnext
  | assignAt => exact refuses_assignAt_iff
  | declare scope name value mutable =>
      simp only [ScopeOperation.result, declare, checkDeclare]
      constructor
      · intro h
        cases h with
        | bound hbound => rw [if_pos hbound]
      · intro h
        split at h
        next error' hcheck =>
          split at hcheck
          next hbound =>
            cases hcheck
            cases h
            exact .bound hbound
          next => cases hcheck
        next => cases h
  | root | child | install =>
      constructor
      · intro h
        cases h
      · intro h
        cases h

/-- Whatever is done to the scopes of a store, every scope lies inside an older one, if any. -/
theorem result_outer?_lt (hnext : ∀ a b, store.outer? a = some b → b < a)
    {operation : ScopeOperation} (hwithin : operation.Within store)
    (hresult : operation.result store = .ok store') (a b : ScopeId)
    (hab : store'.outer? a = some b) : b < a := by
  have hadd : ∀ parent : Option ScopeId, (∀ id ∈ parent, id < store.scopes.size) →
      (store.addScope (.empty parent)).2.outer? a = some b → b < a := by
    intro parent hparent hab
    rw [outer?, scope_addScope] at hab
    split at hab
    next heq => exact heq ▸ hparent b hab
    next => exact hnext a b hab
  have hbind : ∀ (scope : ScopeId) (name : String) (binding : Binding),
      (store.bind scope name binding).outer? a = some b → b < a := by
    intro scope name binding hab
    rw [outer?, parent_bind] at hab
    exact hnext a b hab
  cases operation with
  | root =>
      cases hresult
      exact hadd none (fun id hid => by cases hid) hab
  | child parent =>
      cases hresult
      exact hadd (some parent) hwithin hab
  | declare =>
      simp only [ScopeOperation.result, declare] at hresult
      split at hresult
      next => cases hresult
      next =>
        cases hresult
        exact hbind _ _ _ hab
  | install =>
      cases hresult
      exact hbind _ _ _ hab
  | assign =>
      obtain ⟨_, _, hsets⟩ := assign_sets hnext hresult
      exact hnext a b ((hsets.parents a).symm.trans hab)
  | assignAt => exact hnext a b (((assignAt_sets hresult).parents a).symm.trans hab)

theorem Family.outer?_lt (h : store.Family) : ∀ a b, store.outer? a = some b → b < a := by
  induction h with
  | empty =>
      intro a b hab
      cases hab
  | @perform store operation _ hwithin ih =>
      unfold ScopeOperation.perform
      cases hresult : operation.result store with
      | error => exact ih
      | ok store' => exact result_outer?_lt ih hwithin hresult

/-- However the scopes of a store have been made and used, walking and counting agree. Counting
outward adds up, and stays at the outermost scope. A name has the value, and is assigned to, in the
first scope that binds it, as if it were looked for there; where there is none it is undefined. An
assignment that succeeds sets one name of one scope, and what fails changes nothing. -/
theorem Family.access (h : store.Family) (id : ScopeId) :
    (∀ first second, store.ancestor (store.ancestor id first) second
      = store.ancestor id (first + second))
    ∧ (∃ depth, store.Deep id depth)
    ∧ (∀ name distance, store.FirstAt id distance name.lexeme →
      store.get id name = store.getAt id distance name
      ∧ ∀ value, store.assign id name value = store.assignAt id distance name value)
    ∧ (∀ name, store.Unbound id name.lexeme →
      store.get id name = .error ⟨name, .undefinedVariable name.lexeme⟩
      ∧ ∀ value, store.assign id name value = .error ⟨name, .undefinedVariable name.lexeme⟩)
    ∧ (∀ name value store', store.assign id name value = .ok store' →
      ∃ distance, store.FirstAt id distance name.lexeme
        ∧ store.Sets store' (store.ancestor id distance) name.lexeme value)
    ∧ (∀ distance name value store', store.assignAt id distance name value = .ok store' →
      store.Sets store' (store.ancestor id distance) name.lexeme value)
    ∧ ∀ operation error, (operation.perform store).1 = some error ↔
      store.Refuses operation error ∧ (operation.perform store).2 = store := by
  have hnext := h.outer?_lt
  refine ⟨ancestor_ancestor id, exists_deep hnext id, fun name distance hfirst => ?_,
    fun name hunbound => ?_, fun name value store' => assign_sets hnext,
    fun distance name value store' => assignAt_sets, fun operation error => ?_⟩
  · exact ⟨get_eq_getAt hnext hfirst, fun value => assign_eq_assignAt hnext value hfirst⟩
  · exact ⟨get_of_unbound hnext hunbound, fun value => assign_of_unbound hnext value hunbound⟩
  · rw [refuses_iff hnext, ScopeOperation.perform]
    cases operation.result store <;> simp

/-- Three scopes, each inside the one before. The first two bind the same name. -/
def nested : Store :=
  ⟨{}, #[⟨⟨[("v", ⟨.string "outer", true⟩)]⟩, none⟩, ⟨⟨[("v", ⟨.string "inner", true⟩)]⟩, some 0⟩,
    ⟨.empty, some 1⟩]⟩

theorem nested_family : nested.Family := by
  let name : Token := ⟨.identifier, "v", 1⟩
  have hroot := @Family.perform _ .root (.empty {}) nofun
  have houter := @Family.perform _ (.declare 0 name (.string "outer") true) hroot
    (fun scope hscope => by cases hscope; decide)
  have hmiddle := @Family.perform _ (.child 0) houter (fun scope hscope => by cases hscope; decide)
  have hinner := @Family.perform _ (.declare 1 name (.string "inner") true) hmiddle
    (fun scope hscope => by cases hscope; decide)
  exact @Family.perform _ (.child 1) hinner (fun scope hscope => by cases hscope; decide)

theorem nested_firstAt : nested.FirstAt 2 1 "v" where
  bound := rfl
  before := fun nearer hlt => by
    cases Nat.lt_one_iff.mp hlt
    rfl

/-- From the innermost scope the name is reached in the middle one, and the outermost one keeps what
it has. -/
theorem nested_access :
    nested.Family ∧ nested.FirstAt 2 1 "v" ∧ ∃ name : Token, name.lexeme = "v"
    ∧ nested.get 2 name = nested.getAt 2 1 name
    ∧ nested.getAt 2 1 name = .ok (.string "inner")
    ∧ ∃ store', nested.assign 2 name (.string "new") = .ok store'
      ∧ nested.Sets store' 1 "v" (.string "new")
      ∧ store'.binding? 0 "v" = some ⟨.string "outer", true⟩ := by
  let name : Token := ⟨.identifier, "v", 1⟩
  obtain ⟨-, -, hfirst, -, -, hassignAt, -⟩ := nested_family.access 2
  obtain ⟨hget, hassign⟩ := hfirst name 1 nested_firstAt
  have hsets := hassignAt 1 name (.string "new") _ rfl
  exact ⟨nested_family, nested_firstAt, name, rfl, hget, rfl, _, (hassign _).trans rfl, hsets, rfl⟩

end Store

end ScopeScript
