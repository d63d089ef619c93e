import ScopeScript.Proofs.Execution.Growth
import ScopeScript.Proofs.Scoping.Context

/-!
# Scope chains and contexts

A scope of a running program fits a context if the scopes outward from it are those of the context,
layer by layer, down to the global one. Every name of a layer is bound in its scope. The scope of a
receiver is one that binding a method to an instance made: it holds the instance, and around it is
the scope of a method that the class of the instance has or inherits. If the class that declares the
method has a superclass, that is what the next scope outward holds.
-/

namespace ScopeScript

namespace Heap

variable {ε : Type}

/-- A class is another class or lies below it. -/
inductive Inherits (heap : Heap ε) : ClassId → ClassId → Prop
  | self (id : ClassId) : Inherits heap id id
  | up {id superclass other : ClassId} {cls : Class ε} :
      heap.classes[id]? = some cls → cls.superclass = some superclass →
      Inherits heap superclass other → Inherits heap id other

theorem Inherits.trans {heap : Heap ε} {a b c : ClassId} (hab : heap.Inherits a b)
    (hbc : heap.Inherits b c) : heap.Inherits a c := by
  induction hab with
  | self => exact hbc
  | up hcls hsuperclass _ ih => exact .up hcls hsuperclass (ih hbc)

/-- A class declares a method. -/
structure Declares (heap : Heap ε) (owner : ClassId) (cls : Class ε) (method : Closure ε) :
    Prop where
  found : heap.classes[owner]? = some cls
  named : ∃ name, cls.methods.find? name = some method

/-- An instance is one of a class or of a class below it. -/
def InstanceOf (heap : Heap ε) (object : InstanceId) (owner : ClassId) : Prop :=
  ∃ found, heap.instances[object]? = some found ∧ heap.Inherits found.classId owner

/-- The methods of a class depend on the classes of a heap only. -/
theorem findMethod?_congr {heap heap' : Heap ε} (h : heap'.classes = heap.classes) (id : ClassId)
    (name : String) : heap'.findMethod? id name = heap.findMethod? id name := by
  have hwithin : ∀ fuel id,
      heap'.findMethodWithin? name fuel id = heap.findMethodWithin? name fuel id := by
    intro fuel
    induction fuel with
    | zero => exact fun _ => rfl
    | succ fuel ih =>
        intro id
        rw [findMethodWithin?, findMethodWithin?, h]
        simp only [ih]
  exact hwithin (id + 1) id

end Heap

namespace Store

variable {store store' : Store}

/-- What lies around the methods of a class: the superclass, if it has one. -/
def Seats (store : Store) (superclass : Option ClassId) (id : ScopeId) (context : Context) : Prop :=
  match superclass with
  | none => ∀ outer, context ≠ .inherited :: outer
  | some superclass =>
    (∃ outer, context = .inherited :: outer)
      ∧ store.binding? id "super" = some ⟨.cls superclass, true⟩

/-- A scope that binding a method to an instance made. -/
structure Receives (store : Store) (id : ScopeId) (object : InstanceId) (owner : ClassId)
    (cls : Class ScopeId) (method : Closure ScopeId) : Prop where
  around : (store.scope id).parent = some method.scope
  this : store.binding? id "this" = some ⟨.object object, true⟩
  member : store.InstanceOf object owner
  declares : store.Declares owner cls method

/-- A scope fits a context. What `made` says is that binding a method to an instance has made a
scope. -/
inductive Chain (store : Store) (made : ScopeId → Closure ScopeId → InstanceId → Prop)
    (globals : ScopeId) : ScopeId → Context → Prop
  | global : Chain store made globals globals []
  | names {id parent : ScopeId} {list : List String} {context : Context} :
      (store.scope id).parent = some parent →
      (∀ name ∈ list, name ≠ "this" ∧ name ≠ "super") →
      (∀ name ∈ list, (store.binding? id name).isSome) →
      Chain store made globals parent context →
      Chain store made globals id (.names list :: context)
  | receiver {id : ScopeId} {object : InstanceId} {owner : ClassId} {cls : Class ScopeId}
      {method : Closure ScopeId} {context : Context} :
      made id method object → store.Receives id object owner cls method →
      store.Seats cls.superclass method.scope context →
      Chain store made globals method.scope context →
      Chain store made globals id (.receiver method.declaration :: context)
  | inherited {id parent : ScopeId} {superclass : ClassId} {context : Context} :
      (store.scope id).parent = some parent →
      store.binding? id "super" = some ⟨.cls superclass, true⟩ →
      Chain store made globals parent context → Chain store made globals id (.inherited :: context)

/-! ## Growth -/

namespace Grows

theorem inherits (h : store.Grows store') {a b : ClassId} (hab : store.Inherits a b) :
    store'.Inherits a b := by
  induction hab with
  | self => exact .self _
  | up hcls hsuperclass _ ih => exact .up (h.classes _ _ hcls) hsuperclass ih

theorem instanceOf (h : store.Grows store') {object : InstanceId} {owner : ClassId}
    (hobject : store.InstanceOf object owner) : store'.InstanceOf object owner := by
  obtain ⟨found, hfound, hinherits⟩ := hobject
  obtain ⟨found', hfound', hclass⟩ := h.instances object found hfound
  exact ⟨found', hfound', hclass ▸ h.inherits hinherits⟩

theorem declares (h : store.Grows store') {owner : ClassId} {cls : Class ScopeId}
    {method : Closure ScopeId} (hmethod : store.Declares owner cls method) :
    store'.Declares owner cls method :=
  ⟨h.classes _ _ hmethod.found, hmethod.named⟩

theorem seats (h : store.Grows store') {superclass : Option ClassId} {id : ScopeId}
    {context : Context} (hseats : store.Seats superclass id context) :
    store'.Seats superclass id context := by
  cases superclass with
  | none => exact hseats
  | some superclass => exact ⟨hseats.1, h.fixed _ _ _ (.inr rfl) hseats.2⟩

theorem receives (h : store.Grows store') {id : ScopeId} {object : InstanceId} {owner : ClassId}
    {cls : Class ScopeId} {method : Closure ScopeId}
    (hreceives : store.Receives id object owner cls method) :
    store'.Receives id object owner cls method :=
  ⟨h.parent _ _ hreceives.around, h.fixed _ _ _ (.inl rfl) hreceives.this,
    h.instanceOf hreceives.member, h.declares hreceives.declares⟩

/-- A scope goes on to fit the contexts that it fits. -/
theorem chain (h : store.Grows store') {made made' : ScopeId → Closure ScopeId → InstanceId → Prop}
    (hmade : ∀ scope method object, made scope method object → made' scope method object)
    {globals id : ScopeId} {context : Context} (hchain : store.Chain made globals id context) :
    store'.Chain made' globals id context := by
  induction hchain with
  | global => exact .global
  | names hparent hplain hbound _ ih =>
      exact .names (h.parent _ _ hparent) hplain (fun name hname => h.bound _ _ (hbound name hname))
        ih
  | receiver hbind hreceives hseats _ ih =>
      exact .receiver (hmade _ _ _ hbind) (h.receives hreceives) (h.seats hseats) ih
  | inherited hparent hsuper _ ih =>
      exact .inherited (h.parent _ _ hparent) (h.fixed _ _ _ (.inr rfl) hsuper) ih

end Grows

/-! ## Lookup -/

/-- The scope of a receiver gives the receiver. -/
theorem Receives.getAt {id scope : ScopeId} {object : InstanceId} {owner : ClassId}
    {cls : Class ScopeId} {method : Closure ScopeId} {distance : Nat} {token : Token}
    (h : store.Receives scope object owner cls method)
    (hout : store.outward? id distance = some scope) (htoken : token.lexeme = "this") :
    store.getAt id distance token = .ok (.object object) := by
  have hthis := h.this
  rw [← htoken] at hthis
  exact getAt_of_outward? token hout hthis

namespace Chain

variable {made : ScopeId → Closure ScopeId → InstanceId → Prop} {globals id : ScopeId}
  {context : Context}

theorem lt_size (h : store.Chain made globals id context) (hglobals : globals < store.scopes.size) :
    id < store.scopes.size := by
  cases h with
  | global => exact hglobals
  | names hparent => exact lt_size_of_parent hparent
  | receiver _ hreceives => exact lt_size_of_parent hreceives.around
  | inherited hparent => exact lt_size_of_parent hparent

/-- Only the global scope fits the context of the top level. -/
theorem nil_iff (h : store.Chain made globals id context)
    (hglobals : (store.scope globals).parent = none) : context = [] ↔ id = globals := by
  constructor
  · rintro rfl
    cases h
    rfl
  · rintro rfl
    cases h with
    | global => rfl
    | names hparent => simp [hglobals] at hparent
    | receiver _ hreceives =>
        have hparent := hreceives.around
        simp [hglobals] at hparent
    | inherited hparent => simp [hglobals] at hparent

theorem outward?_layer {layer : Layer} {parent : ScopeId} {name : String} {distance : Nat}
    (hparent : (store.scope id).parent = some parent)
    (hbound : ∀ name ∈ layer.bound, (store.binding? id name).isSome)
    (ih : ∀ {distance}, context.hops? name = some distance →
      ∃ scope, store.outward? parent distance = some scope ∧ (store.binding? scope name).isSome
        ∧ (store.scope scope).parent.isSome)
    (hhops : Context.hops? name (layer :: context) = some distance) :
    ∃ scope, store.outward? id distance = some scope ∧ (store.binding? scope name).isSome
      ∧ (store.scope scope).parent.isSome := by
  rw [Context.hops?] at hhops
  split at hhops
  next hmem =>
    cases hhops
    exact ⟨id, rfl, hbound name hmem, by simp [hparent]⟩
  next =>
    obtain ⟨distance, hdistance, rfl⟩ := Option.map_eq_some_iff.mp hhops
    rw [outward?_succ hparent]
    exact ih hdistance

/-- Where a context has a name, a scope lies exactly as far outward as it says, binds the name and
is not the outermost one. -/
theorem outward? (h : store.Chain made globals id context) {name : String} {distance : Nat}
    (hhops : context.hops? name = some distance) :
    ∃ scope, store.outward? id distance = some scope ∧ (store.binding? scope name).isSome
      ∧ (store.scope scope).parent.isSome := by
  induction h generalizing distance with
  | global => cases hhops
  | @names _ _ list _ hparent _ hbound _ ih =>
      have hlayer : ∀ name ∈ (Layer.names list).bound, (store.binding? _ name).isSome := hbound
      exact outward?_layer hparent hlayer ih hhops
  | receiver _ hreceives _ _ ih =>
      exact outward?_layer hreceives.around (by simp [Layer.bound, hreceives.this]) ih hhops
  | inherited hparent hsuper _ ih =>
      exact outward?_layer hparent (by simp [Layer.bound, hsuper]) ih hhops

theorem eq_inherited (h : store.Chain made globals id context)
    (hhops : context.hops? "super" = some 0) :
    ∃ outer, context = .inherited :: outer := by
  cases h with
  | global => cases hhops
  | @names _ _ list context hparent hplain =>
      have hnot : "super" ∉ (Layer.names list).bound := fun hmem => (hplain _ hmem).2 rfl
      rw [Context.hops?_of_not_mem hnot] at hhops
      simp at hhops
  | receiver =>
      rw [Context.hops?_of_not_mem (by simp [Layer.bound])] at hhops
      simp at hhops
  | inherited => exact ⟨_, rfl⟩

/-- The nearest `this` outward is a receiver, of the method that the context has nearest. Where
`super` is the next name outward, it is the superclass of the class that declares the method. -/
theorem receives (h : store.Chain made globals id context) {distance : Nat}
    (hthis : context.hops? "this" = some distance) :
    ∃ scope object owner cls method, store.outward? id distance = some scope
      ∧ made scope method object ∧ store.Receives scope object owner cls method
      ∧ context.method? = some method.declaration
      ∧ (context.hops? "super" = some (distance + 1) →
        ∃ superclass, cls.superclass = some superclass
          ∧ store.binding? method.scope "super" = some ⟨.cls superclass, true⟩) := by
  induction h generalizing distance with
  | global => cases hthis
  | @names _ _ list context hparent hplain _ _ ih =>
      have hthisNot : "this" ∉ (Layer.names list).bound := fun hmem => (hplain _ hmem).1 rfl
      have hsuperNot : "super" ∉ (Layer.names list).bound := fun hmem => (hplain _ hmem).2 rfl
      rw [Context.hops?_of_not_mem hthisNot] at hthis
      obtain ⟨distance, hdistance, rfl⟩ := Option.map_eq_some_iff.mp hthis
      obtain ⟨scope, object, owner, cls, method, hout, hmade, hreceives, hmethod, hsuper⟩ :=
        ih hdistance
      refine ⟨scope, object, owner, cls, method, ?_, hmade, hreceives, hmethod, ?_⟩
      · rw [outward?_succ hparent, hout]
      · intro hnext
        apply hsuper
        rw [Context.hops?_of_not_mem hsuperNot] at hnext
        obtain ⟨next, hnext, heq⟩ := Option.map_eq_some_iff.mp hnext
        rw [hnext, Nat.succ.inj heq]
  | @receiver id object owner cls method context hmade hreceives hseats hchain _ =>
      -- Here the search ends; the scope around the receiver is the one the method was made in.
      cases hthis
      refine ⟨id, object, owner, cls, method, rfl, hmade, hreceives, rfl, ?_⟩
      intro hnext
      have hinner : context.hops? "super" = some 0 := by
        simpa [Context.hops?, Layer.bound] using hnext
      cases hsuperclass : cls.superclass with
      | none =>
          obtain ⟨outer, hcontext⟩ := hchain.eq_inherited hinner
          rw [hsuperclass] at hseats
          exact (hseats outer hcontext).elim
      | some superclass =>
          rw [hsuperclass] at hseats
          exact ⟨superclass, rfl, hseats.2⟩
  | @inherited _ _ _ context hparent _ _ ih =>
      rw [Context.hops?_of_not_mem (by simp [Layer.bound])] at hthis
      obtain ⟨distance, hdistance, rfl⟩ := Option.map_eq_some_iff.mp hthis
      obtain ⟨scope, object, owner, cls, method, hout, hmade, hreceives, hmethod, -⟩ := ih hdistance
      refine ⟨scope, object, owner, cls, method, ?_, hmade, hreceives, hmethod, ?_⟩
      · rw [outward?_succ hparent, hout]
      · -- This `super` is nearer than the receiver, so it is not the one behind it.
        intro hnext
        rw [Context.hops?_of_mem (by simp [Layer.bound])] at hnext
        cases hnext

end Chain

end Store

end ScopeScript
