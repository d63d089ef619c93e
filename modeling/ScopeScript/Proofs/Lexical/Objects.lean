import ScopeScript.Proofs.Lexical.Update

/-!
# Functions, methods and objects of the two machines

What is added to one heap is added to the other at the same place. Binding a method adds a scope
with the receiver to one machine and a cell for it to the other, and the parameters of a function
are declared one by one in a scope of their own.
-/

namespace ScopeScript.Lexical

variable {points : NodeId → Option Nat → Prop} {w w' : World} {state : State}

/-! ## Heaps -/

theorem World.withHeap_grows {heap : Heap ScopeId} (h : w.store.Grows (w.withHeap heap).store) :
    w.Grows (w.withHeap heap) :=
  ⟨h, rfl, fun _ _ hplace => hplace, fun _ _ _ hmade => hmade⟩

theorem World.withHeap_follows {heap : Heap ScopeId} {id : ScopeId}
    (h : w.store.Grows (w.withHeap heap).store) : w.Follows (w.withHeap heap) id :=
  ⟨World.withHeap_grows h, fun _ _ _ hname => hname, rfl⟩

namespace SameMemory

theorem addFunction (h : SameMemory points w state) {closure : Closure ScopeId}
    {closure' : Closure Environment} (hclosure : SameClosure points w closure closure') :
    SameMemory points (w.withHeap (w.store.toHeap.addFunction closure).2)
      { state with heap := (state.heap.addFunction closure').2 } := by
  have hgrows : w.Grows (w.withHeap (w.store.toHeap.addFunction closure).2) :=
    World.withHeap_grows (.addFunction w.store closure)
  refine h.withHeap ⟨?_, ?_, h.heap.instances, h.heap.natives, h.heap.builtin⟩
  · exact (h.heap.functions.mono fun _ _ => SameClosure.mono hgrows).push (hclosure.mono hgrows)
  · exact h.heap.classes.mono fun _ _ => SameClass.mono hgrows

theorem addClass (h : SameMemory points w state) {cls : Class ScopeId} {cls' : Class Environment}
    (hcls : SameClass points w cls cls') :
    SameMemory points (w.withHeap (w.store.toHeap.addClass cls).2)
      { state with heap := (state.heap.addClass cls').2 } := by
  have hgrows : w.Grows (w.withHeap (w.store.toHeap.addClass cls).2) :=
    World.withHeap_grows (.addClass w.store cls)
  refine h.withHeap ⟨?_, ?_, h.heap.instances, h.heap.natives, h.heap.builtin⟩
  · exact h.heap.functions.mono fun _ _ => SameClosure.mono hgrows
  · exact (h.heap.classes.mono fun _ _ => SameClass.mono hgrows).push (hcls.mono hgrows)

theorem addInstance (h : SameMemory points w state) (classId : ClassId) :
    SameMemory points (w.withHeap (w.store.toHeap.addInstance classId).2)
      { state with heap := (state.heap.addInstance classId).2 } := by
  have hgrows : w.Grows (w.withHeap (w.store.toHeap.addInstance classId).2) :=
    World.withHeap_grows (.addInstance w.store classId)
  refine h.withHeap ⟨?_, ?_, ?_, h.heap.natives, h.heap.builtin⟩
  · exact h.heap.functions.mono fun _ _ => SameClosure.mono hgrows
  · exact h.heap.classes.mono fun _ _ => SameClass.mono hgrows
  · simp only [Heap.addInstance, World.withHeap, h.heap.instances]

theorem setField (h : SameMemory points w state) (id : InstanceId) (name : String) (value : Value) :
    SameMemory points (w.withHeap (w.store.toHeap.setField id name value))
      { state with heap := state.heap.setField id name value } := by
  have hgrows : w.Grows (w.withHeap (w.store.toHeap.setField id name value)) :=
    World.withHeap_grows (.setField w.store id name value)
  refine h.withHeap ⟨?_, ?_, ?_, h.heap.natives, h.heap.builtin⟩
  · exact h.heap.functions.mono fun _ _ => SameClosure.mono hgrows
  · exact h.heap.classes.mono fun _ _ => SameClass.mono hgrows
  · simp only [Heap.setField, World.withHeap, h.heap.instances]

end SameMemory

/-! ## Scopes with one name -/

namespace World

/-- A scope with one name is added inside another, and the name gets a cell. -/
def nested (w : World) (parent : ScopeId) (name : String) (binding : Binding) : World :=
  (w.opened parent).placed w.store.scopes.size name binding

variable {parent id : ScopeId} {name : String} {binding : Binding}

theorem nested_store :
    (w.nested parent name binding).store =
      (w.store.addScope ((Scope.empty (some parent)).bind name binding)).2 :=
  Store.addScope_bind.symm

theorem opened_size : w.store.scopes.size < (w.opened parent).store.scopes.size := by
  simp [opened, Store.addScope]

theorem opened_new : (w.opened parent).store.binding? w.store.scopes.size name = none := by
  rw [opened, Store.binding?_addScope, if_pos rfl]
  rfl

theorem nested_follows (hle : id ≤ w.store.scopes.size) :
    w.Follows (w.nested parent name binding) id :=
  (opened_follows hle).trans ((placed_follows opened_size opened_new).mono hle)

theorem nested_parent :
    ((w.nested parent name binding).store.scope w.store.scopes.size).parent = some parent := by
  rw [nested_store, Store.scope_addScope, if_pos rfl]
  rfl

theorem nested_binding? :
    (w.nested parent name binding).store.binding? w.store.scopes.size name = some binding := by
  rw [nested_store, Store.binding?_addScope, if_pos rfl, Scope.bind, NameMap.find?_insert,
    if_pos rfl]

theorem nested_place : (w.nested parent name binding).places[w.places.length]? =
    some (w.store.scopes.size, name) := by
  simp [nested, placed, opened]

/-- What is seen from the new scope: its name, and what is seen from around it. -/
theorem Sees.nested {context : Context} {env : Environment} {layer : Layer}
    (h : w.Sees parent context env) (hlayer : layer.bound = [name])
    (hchain : (w.nested parent name binding).store.Chain w.made w.globals w.store.scopes.size
      (layer :: context)) :
    (w.nested parent name binding).Sees w.store.scopes.size (layer :: context)
      (env.extend name w.places.length) := by
  have hgrows : w.Grows (w.nested parent name binding) := (nested_follows (Nat.zero_le _)).grows
  apply (h.mono hgrows).layer nested_parent hchain (env.extend_ne_none name _)
  · intro other hother
    rw [hlayer] at hother
    obtain rfl := List.mem_singleton.mp hother
    exact ⟨w.places.length, by simp [Environment.cell?_extend], nested_place⟩
  · intro other hother
    rw [hlayer, List.mem_singleton] at hother
    rw [Environment.cell?_extend, if_neg hother]

end World

theorem SameMemory.nested (h : SameMemory points w state) (parent : ScopeId) (name : String)
    (binding : Binding) :
    SameMemory points (w.nested parent name binding)
      { state with cells := state.cells.push binding } :=
  (h.opened parent).placed World.opened_size (Nat.ne_of_gt h.inside) World.opened_new binding

/-! ## Methods -/

section Methods

variable {owner : ClassId} {cls : Class ScopeId} {method : Closure ScopeId}
  {method' : Closure Environment} {object : InstanceId}

/-- The world behind the binding of a method. -/
def World.received (w : World) (method : Closure ScopeId) (object : InstanceId) : World :=
  w.nested method.scope "this" ⟨.object object, true⟩

theorem World.received_store :
    (w.received method object).store = (w.store.bindMethod method object).2 :=
  World.nested_store

/-- A method of the class of an instance is bound to the instance. -/
theorem SameMethod.received (h : SameMethod points w cls.superclass method method')
    (hdeclares : w.store.Declares owner cls method) (hobject : w.store.InstanceOf object owner)
    (hmade : w.made w.store.scopes.size method object) (hstate : SameMemory points w state) :
    SameClosure points (w.received method object) (w.store.bindMethod method object).1
      (state.bindMethod method' object).1 := by
  obtain ⟨context, hsees, hscoped, hseats⟩ := h.scope
  have hgrows : w.Grows (w.received method object) :=
    (World.nested_follows (Nat.zero_le _)).grows
  have hreceives : (w.received method object).store.Receives w.store.scopes.size object owner cls
      method :=
    ⟨World.nested_parent, World.nested_binding?, hgrows.store.instanceOf hobject,
      hgrows.store.declares hdeclares⟩
  have hchain := Store.Chain.receiver hmade hreceives (hgrows.store.seats hseats)
    (hgrows.store.chain (fun _ _ _ h => h) hsees.chain)
  refine ⟨h.declaration, h.isInitializer, .receiver method.declaration :: context, ?_, hscoped,
    fun _ => ⟨context, rfl⟩⟩
  have hnested := hsees.nested rfl hchain
  rw [← hstate.size] at hnested
  exact hnested

/-- The initializer of an instance has been bound to the instance. -/
theorem SameClosure.receives {closure : Closure ScopeId} {closure' : Closure Environment}
    (h : SameClosure points w closure closure') (hinitializer : closure.isInitializer = true) :
    ∃ object owner cls method, w.made closure.scope method object
      ∧ w.store.Receives closure.scope object owner cls method
      ∧ method.declaration = closure.declaration := by
  obtain ⟨context, hsees, -, hreceiver⟩ := h.scope
  obtain ⟨outer, hcontext⟩ := hreceiver hinitializer
  have hthis : context.hops? "this" = some 0 := by
    rw [hcontext]
    exact Context.hops?_of_mem (by simp [Layer.bound])
  obtain ⟨scope, object, owner, cls, method, hout, hmade, hreceives, hmethod, -⟩ :=
    hsees.chain.receives hthis
  cases hout
  rw [hcontext] at hmethod
  exact ⟨object, owner, cls, method, hmade, hreceives, (Option.some.inj hmethod).symm⟩

/-- The tables of methods that are declared where the machines see the same. -/
theorem SameMethods.ofTable {superclass : Option ClassId} {scope : ScopeId} {env : Environment}
    {context : Context} (hsees : w.Sees scope context env)
    (hseats : w.store.Seats superclass scope context) {methods : List (FunctionDecl Stmt)}
    (hscoped : FunctionDecl.ScopedAll points context methods) :
    SameMethods points w superclass (methodTable scope methods) (methodTable env methods) := by
  -- A later method replaces an earlier one of its name, in both tables alike.
  have hfold : ∀ {table : NameMap (Closure ScopeId)} {table' : NameMap (Closure Environment)},
      SameMethods points w superclass table table' →
      SameMethods points w superclass
        (methods.foldl (fun table method =>
          table.insert method.name.lexeme ⟨method, scope, method.isInitializer⟩) table)
        (methods.foldl (fun table method =>
          table.insert method.name.lexeme ⟨method, env, method.isInitializer⟩) table') := by
    induction methods with
    | nil => exact fun h => h
    | cons first rest ih =>
        intro table table' h
        refine ih hscoped.2 ⟨?_, ?_⟩
        · intro name hname
          rw [NameMap.find?_insert] at hname ⊢
          split at hname
          next => cases hname
          next hne => rw [if_neg hne, h.absent name hname]
        · intro name found hfound
          rw [NameMap.find?_insert] at hfound ⊢
          split at hfound
          next heq =>
            cases hfound
            exact ⟨_, if_pos heq, rfl, rfl, rfl, context, hsees, hscoped.1, hseats⟩
          next hne =>
            rw [if_neg hne]
            exact h.found name found hfound
  exact hfold ⟨fun _ _ => rfl, fun _ _ hfound => nomatch hfound⟩

end Methods

/-! ## Parameters -/

theorem World.Stands.congr {id : ScopeId} {list list' : List String} {context : Context}
    {env : Environment} (h : w.Stands id (.names list :: context) env)
    (hlist : ∀ name, name ∈ list ↔ name ∈ list') : w.Stands id (.names list' :: context) env := by
  have hhops : ∀ name, Context.hops? name (.names list' :: context) =
      Context.hops? name (.names list :: context) := by
    intro name
    exact Context.hops?_congr (hlist name).symm
  have hchain : w.store.Chain w.made w.globals id (.names list' :: context) := by
    rcases h.chain with _ | ⟨hparent, hplain, hbound, hrest⟩
    exact .names hparent (fun name hname => hplain name ((hlist name).mpr hname))
      (fun name hname => hbound name ((hlist name).mpr hname)) hrest
  refine ⟨⟨hchain, by simpa using h.top, ?_, ?_⟩, trivial, ?_⟩
  · intro name hname
    exact h.absent name (hhops name ▸ hname)
  · intro name distance hname
    exact h.placed name distance (hhops name ▸ hname)
  · rintro _ _ ⟨⟩ name hname
    exact (hlist name).mp (h.exact list context rfl name hname)

/-- A name more in the innermost scope, with its cell. -/
theorem World.Stands.extended {id : ScopeId} {list : List String} {context : Context}
    {env : Environment} {name : String} (h : w.Stands id (.names list :: context) env)
    (hid : id < w.store.scopes.size) (hplain : name ≠ "this" ∧ name ≠ "super")
    (hfresh : name ∉ list) (binding : Binding) :
    w.store.binding? id name = none ∧
      (w.placed id name binding).Stands id (.names (name :: list) :: context)
        (env.extend name w.places.length) := by
  have hnew : w.store.binding? id name = none := by
    cases hbinding : w.store.binding? id name with
    | none => rfl
    | some found => exact (hfresh (h.exact list context rfl name (by simp [hbinding]))).elim
  refine ⟨hnew, (h.toSees.mono (placed_grows hid hnew)).declare hplain ?_ ?_, trivial, ?_⟩
  · simp [World.placed, Store.binding?_bind hid]
  · simp [World.placed]
  · rintro _ _ ⟨⟩ other hother
    rw [World.placed, Store.binding?_bind hid] at hother
    split at hother
    next heq => simp [heq.2]
    next => exact List.mem_cons_of_mem _ (h.exact list context rfl other hother)

/-- Parameters with distinct names are declared one by one in a scope that is being made. -/
theorem SameMemory.parameters {store : Store} {context : Context} (pairs : List (Token × Value))
    {w : World} {state : State} {scope : Scope} {env : Environment} {list : List String}
    (h : SameMemory points w state) (hstore : w.store = (store.addScope scope).2)
    (hlocal : store.scopes.size ≠ w.globals)
    (hstands : w.Stands store.scopes.size (.names list :: context) env)
    (hnodup : (pairs.map (·.1.lexeme)).Nodup) (hplain : ∀ pair ∈ pairs, pair.1.Plain)
    (hnew : ∀ pair ∈ pairs, pair.1.lexeme ∉ list) :
    ∃ scope' w', scope.declareAll pairs = .ok scope' ∧ w'.store = (store.addScope scope').2
      ∧ w'.globals = w.globals ∧ w.Follows w' store.scopes.size
      ∧ SameMemory points w' (state.allotAll env pairs).2
      ∧ w'.Stands store.scopes.size (.names ((pairs.map (·.1.lexeme)).reverse ++ list) :: context)
        (state.allotAll env pairs).1 := by
  induction pairs generalizing w state scope env list with
  | nil => exact ⟨scope, w, rfl, hstore, rfl, .refl w _, h, hstands⟩
  | cons pair rest ih =>
      obtain ⟨name, value⟩ := pair
      have hid : store.scopes.size < w.store.scopes.size := by
        rw [hstore]
        simp [Store.addScope]
      obtain ⟨habsent, hstands'⟩ := hstands.extended hid
        (hplain (name, value) (by simp)) (hnew (name, value) (by simp)) ⟨value, true⟩
      -- The scope is not in the store yet, so its check is about its own names alone.
      have hcontains : scope.bindings.contains name.lexeme = false := by
        rw [hstore, Store.binding?_addScope, if_pos rfl] at habsent
        simp [NameMap.contains, habsent]
      have hmemory := h.placed hid hlocal habsent ⟨value, true⟩
      rw [← h.size] at hstands'
      have hstore' : (w.placed store.scopes.size name.lexeme ⟨value, true⟩).store =
          (store.addScope (scope.bind name.lexeme ⟨value, true⟩)).2 := by
        rw [Store.addScope_bind, ← hstore]
        rfl
      rw [List.map_cons, List.nodup_cons] at hnodup
      obtain ⟨scope', w', hdeclare, hw', hglobals, hfollows, hmemory', hstands''⟩ :=
        ih hmemory hstore' hlocal hstands' hnodup.2
          (fun pair hpair => hplain pair (by simp [hpair]))
          (fun pair hpair hmem => by
            rcases List.mem_cons.mp hmem with heq | hmem
            · exact hnodup.1 (List.mem_map.mpr ⟨pair, hpair, heq⟩)
            · exact hnew pair (by simp [hpair]) hmem)
      refine ⟨scope', w', ?_, hw', hglobals, ?_, hmemory', ?_⟩
      · simp [Scope.declareAll, hcontains, hdeclare]
      · exact (World.placed_follows hid habsent).trans hfollows
      · rw [List.map_cons, List.reverse_cons, List.append_assoc]
        exact hstands''

end ScopeScript.Lexical
