import Mathlib.Data.List.Induction
import ScopeScript.Machine.Step
import ScopeScript.Proofs.Execution.Chain

/-!
# Where methods come from

A method that is found from a class on is one that this class or one above it declares, and a
declaration of a class puts nothing into the method table but its own methods.
-/

namespace ScopeScript

namespace NameMap

variable {α : Type} {names : NameMap α} {name : String} {value : α}

theorem mem_of_find? (h : names.find? name = some value) :
    ∃ key, (key, value) ∈ names.entries := by
  obtain ⟨entries⟩ := names
  unfold find? at h
  induction entries with
  | nil => cases h
  | cons entry rest ih =>
      unfold findEntry? at h
      split at h
      next =>
        cases h
        exact ⟨entry.1, List.mem_cons_self⟩
      next =>
        obtain ⟨key, hkey⟩ := ih h
        exact ⟨key, List.mem_cons_of_mem _ hkey⟩

theorem mem_insert {entry : String × α} (h : entry ∈ (names.insert name value).entries) :
    entry.2 = value ∨ entry ∈ names.entries := by
  obtain ⟨entries⟩ := names
  unfold insert at h
  induction entries with
  | nil =>
      obtain rfl := List.mem_singleton.mp h
      exact .inl rfl
  | cons first rest ih =>
      simp only [insertEntry] at h
      split at h
      next =>
        rcases List.mem_cons.mp h with rfl | hrest
        · exact .inl rfl
        · exact .inr (List.mem_cons_of_mem _ hrest)
      next =>
        rcases List.mem_cons.mp h with rfl | hrest
        · exact .inr List.mem_cons_self
        · exact (ih hrest).imp_right (List.mem_cons_of_mem _)

end NameMap

variable {ε : Type} {heap : Heap ε} {name : String} {method : Closure ε}

namespace Heap

theorem findMethodWithin?_declares {fuel : Nat} {id : ClassId}
    (h : heap.findMethodWithin? name fuel id = some method) :
    ∃ owner cls, heap.Inherits id owner ∧ heap.Declares owner cls method := by
  induction fuel generalizing id with
  | zero => cases h
  | succ fuel ih =>
      rw [findMethodWithin?] at h
      split at h
      next => cases h
      next cls hcls =>
        split at h
        next hmethod =>
          cases h
          exact ⟨id, cls, .self id, hcls, name, hmethod⟩
        next =>
          split at h
          next => cases h
          next superclass hsuperclass =>
            obtain ⟨owner, found, hinherits, hdeclares⟩ := ih h
            exact ⟨owner, found, .up hcls hsuperclass hinherits, hdeclares⟩

theorem findMethod?_declares {id : ClassId} (h : heap.findMethod? id name = some method) :
    ∃ owner cls, heap.Inherits id owner ∧ heap.Declares owner cls method :=
  findMethodWithin?_declares h

theorem property?_declares {id : InstanceId} (h : heap.property? id name = some (.method method)) :
    ∃ owner cls, heap.InstanceOf id owner ∧ heap.Declares owner cls method := by
  unfold property? at h
  split at h
  next => cases h
  next object hobject =>
    split at h
    next => cases h
    next =>
      obtain ⟨found, hfound, hmethod⟩ := Option.map_eq_some_iff.mp h
      cases hmethod
      obtain ⟨owner, cls, hinherits, hdeclares⟩ := findMethod?_declares hfound
      exact ⟨owner, cls, ⟨object, hobject, hinherits⟩, hdeclares⟩

theorem property?_field {id : InstanceId} {value : Value}
    (h : heap.property? id name = some (.field value)) :
    ∃ object, heap.instances[id]? = some object ∧ object.fields.find? name = some value := by
  unfold property? at h
  split at h
  next => cases h
  next object hobject =>
    split at h
    next hfield =>
      cases h
      exact ⟨object, hobject, hfield⟩
    next =>
      obtain ⟨_, -, hmethod⟩ := Option.map_eq_some_iff.mp h
      cases hmethod

end Heap

/-- What a method table holds is one of the methods that it was made from. -/
theorem mem_methodTable {scope : ε} {methods : List (FunctionDecl Stmt)}
    {entry : String × Closure ε} (h : entry ∈ (methodTable scope methods).entries) :
    ∃ declaration ∈ methods, entry.2 = ⟨declaration, scope, declaration.isInitializer⟩ := by
  -- Whatever table the methods are added to, what it holds then is one of them or was there.
  have hfold : ∀ {table : NameMap (Closure ε)},
      entry ∈ (methods.foldl (fun table method =>
        table.insert method.name.lexeme ⟨method, scope, method.isInitializer⟩) table).entries →
      (∃ declaration ∈ methods, entry.2 = ⟨declaration, scope, declaration.isInitializer⟩)
        ∨ entry ∈ table.entries := by
    clear h
    induction methods with
    | nil => exact .inr
    | cons first rest ih =>
        intro table hentry
        rcases ih hentry with ⟨declaration, hmem, heq⟩ | hentry
        · exact .inl ⟨declaration, List.mem_cons_of_mem _ hmem, heq⟩
        · rcases NameMap.mem_insert hentry with heq | hold
          · exact .inl ⟨first, List.mem_cons_self, heq⟩
          · exact .inr hold
  exact (hfold h).resolve_right List.not_mem_nil

theorem find?_methodTable {scope : ε} {methods : List (FunctionDecl Stmt)}
    (h : (methodTable scope methods).find? name = some method) :
    ∃ declaration ∈ methods, method = ⟨declaration, scope, declaration.isInitializer⟩ := by
  obtain ⟨_, hentry⟩ := NameMap.mem_of_find? h
  exact mem_methodTable hentry

/-- The last method of a name, where a class has several. -/
def FunctionDecl.last? (methods : List (FunctionDecl Stmt)) (name : String) :
    Option (FunctionDecl Stmt) :=
  methods.reverse.find? (·.name.lexeme = name)

/-- Under a name, a method table holds the last method of that name. -/
theorem find?_methodTable_eq (scope : ε) (methods : List (FunctionDecl Stmt)) (name : String) :
    (methodTable scope methods).find? name =
      (FunctionDecl.last? methods name).map fun declaration =>
        ⟨declaration, scope, declaration.isInitializer⟩ := by
  induction methods using List.reverseRecOn with
  | nil => rfl
  | append_singleton methods last ih =>
      have hinsert : methodTable scope (methods ++ [last]) = (methodTable scope methods).insert
          last.name.lexeme ⟨last, scope, last.isInitializer⟩ := by
        rw [methodTable, methodTable, List.foldl_append, List.foldl_cons, List.foldl_nil]
      have hlast : FunctionDecl.last? (methods ++ [last]) name =
          if last.name.lexeme = name then some last else FunctionDecl.last? methods name := by
        simp only [FunctionDecl.last?, List.reverse_append, List.reverse_singleton,
          List.singleton_append, List.find?_cons]
        by_cases hname : last.name.lexeme = name <;> simp [hname]
      rw [hinsert, NameMap.find?_insert, hlast, ih]
      by_cases hname : last.name.lexeme = name
      · rw [if_pos hname, if_pos hname.symm, Option.map_some]
      · rw [if_neg hname, if_neg (Ne.symm hname)]

end ScopeScript
