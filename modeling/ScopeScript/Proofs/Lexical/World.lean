import ScopeScript.Proofs.Execution.Chain
import ScopeScript.Proofs.Lexical.Machine

/-!
# Scopes and environments

A cell of one machine has its place in the other: the name in a scope that it was made for. A scope
and an environment see the same if the environment has a cell for exactly the names of the context,
and each of them has its place as far outward as the context says. All of this stays true while the
store grows and further cells get their places.
-/

namespace ScopeScript.Lexical

/-- The store of one machine, with the places in it of the cells of the other, and what binding
methods to instances has made of it. -/
structure World where
  store : Store
  globals : ScopeId
  places : List (ScopeId × String)
  made : ScopeId → Closure ScopeId → InstanceId → Prop

namespace Environment

@[simp] theorem cell?_enter (env : Environment) (name : String) :
    env.enter.cell? name = env.cell? name := by
  cases env <;> rfl

theorem cell?_extend (env : Environment) (name other : String) (cell : CellId) :
    (env.extend name cell).cell? other = if other = name then some cell else env.cell? other := by
  cases env <;> simp [extend, cell?]

theorem extend_ne_none (env : Environment) (name : String) (cell : CellId) :
    env.extend name cell ≠ none := by
  simp [extend]

theorem enter_ne_none (env : Environment) : env.enter ≠ none := by
  simp [enter]

end Environment

namespace World

/-- The second world may follow the first. -/
structure Grows (w w' : World) : Prop where
  store : w.store.Grows w'.store
  globals : w'.globals = w.globals
  places : ∀ (cell : CellId) place, w.places[cell]? = some place → w'.places[cell]? = some place
  made : ∀ scope method object, w.made scope method object → w'.made scope method object

theorem Grows.refl (w : World) : w.Grows w :=
  ⟨.refl w.store, rfl, fun _ _ h => h, fun _ _ _ h => h⟩

theorem Grows.trans {w w' w'' : World} (h : w.Grows w') (h' : w'.Grows w'') : w.Grows w'' :=
  ⟨h.store.trans h'.store, h'.globals.trans h.globals,
    fun cell place hplace => h'.places cell place (h.places cell place hplace),
    fun scope method object hmade => h'.made scope method object (h.made scope method object hmade)⟩

/-- In a context, a scope and an environment see the same. -/
structure Sees (w : World) (id : ScopeId) (context : Context) (env : Environment) : Prop where
  chain : w.store.Chain w.made w.globals id context
  top : env = none ↔ context = []
  absent : ∀ name, context.hops? name = none → env.cell? name = none
  placed : ∀ name distance, context.hops? name = some distance →
    ∃ cell scope, env.cell? name = some cell ∧ w.store.outward? id distance = some scope
      ∧ w.places[cell]? = some (scope, name)

namespace Sees

variable {w w' : World} {id parent : ScopeId} {context : Context} {env env' : Environment}

theorem mono (hgrows : w.Grows w') (h : w.Sees id context env) : w'.Sees id context env := by
  refine ⟨hgrows.globals ▸ hgrows.store.chain hgrows.made h.chain, h.top, h.absent, ?_⟩
  intro name distance hhops
  obtain ⟨cell, scope, hcell, hout, hplace⟩ := h.placed name distance hhops
  exact ⟨cell, scope, hcell, hgrows.store.outward? hout, hgrows.places cell _ hplace⟩

theorem global (w : World) : w.Sees w.globals [] none :=
  ⟨.global, Iff.intro (fun _ => rfl) (fun _ => rfl), fun _ _ => rfl, fun _ _ h => nomatch h⟩

/-- A scope inside another sees what is its own and what the other sees. -/
theorem layer {layer : Layer} (h : w.Sees parent context env)
    (hparent : (w.store.scope id).parent = some parent)
    (hchain : w.store.Chain w.made w.globals id (layer :: context)) (hnone : env' ≠ none)
    (hinside : ∀ name ∈ layer.bound,
      ∃ cell : CellId, env'.cell? name = some cell ∧ w.places[cell]? = some (id, name))
    (houtside : ∀ name, name ∉ layer.bound → env'.cell? name = env.cell? name) :
    w.Sees id (layer :: context) env' := by
  refine ⟨hchain, by simp [hnone], ?_, ?_⟩
  · intro name hhops
    rw [Context.hops?] at hhops
    split at hhops
    next => cases hhops
    next hnot =>
      rw [houtside name hnot]
      exact h.absent name (by simpa using hhops)
  · intro name distance hhops
    rw [Context.hops?] at hhops
    split at hhops
    next hmem =>
      cases hhops
      obtain ⟨cell, hcell, hplace⟩ := hinside name hmem
      exact ⟨cell, id, hcell, rfl, hplace⟩
    next hnot =>
      obtain ⟨distance, hdistance, rfl⟩ := Option.map_eq_some_iff.mp hhops
      obtain ⟨cell, scope, hcell, hout, hplace⟩ := h.placed name distance hdistance
      refine ⟨cell, scope, ?_, ?_, hplace⟩
      · rw [houtside name hnot, hcell]
      · rw [Store.outward?_succ hparent, hout]

/-- A name more in the innermost scope. -/
theorem declare {list : List String} {name : String} {cell : CellId}
    (h : w.Sees id (.names list :: context) env) (hplain : name ≠ "this" ∧ name ≠ "super")
    (hbound : (w.store.binding? id name).isSome) (hplace : w.places[cell]? = some (id, name)) :
    w.Sees id (.names (name :: list) :: context) (env.extend name cell) := by
  have hchain : w.store.Chain w.made w.globals id (.names (name :: list) :: context) := by
    rcases h.chain with _ | ⟨hparent, hnames, hlist, hrest⟩
    refine .names hparent ?_ ?_ hrest
    · intro other hother
      rcases List.mem_cons.mp hother with rfl | hother
      · exact hplain
      · exact hnames other hother
    · intro other hother
      rcases List.mem_cons.mp hother with rfl | hother
      · exact hbound
      · exact hlist other hother
  -- The declaration hides the name further outward and leaves the distances of all others.
  have hhops : ∀ other, other ≠ name → Context.hops? other (.names (name :: list) :: context) =
      Context.hops? other (.names list :: context) := by
    intro other hne
    exact Context.hops?_congr (by simp [hne])
  refine ⟨hchain, by simp [Environment.extend], ?_, ?_⟩
  · intro other hother
    have hne : other ≠ name := by
      rintro rfl
      rw [Context.hops?_of_mem (by simp [Layer.bound])] at hother
      cases hother
    rw [Environment.cell?_extend, if_neg hne]
    exact h.absent other (hhops other hne ▸ hother)
  · intro other distance hother
    by_cases hne : other = name
    · subst hne
      rw [Context.hops?_of_mem (by simp [Layer.bound])] at hother
      cases hother
      exact ⟨cell, id, by simp [Environment.cell?_extend], rfl, hplace⟩
    · rw [Environment.cell?_extend, if_neg hne]
      exact h.placed other distance (hhops other hne ▸ hother)

end Sees

/-- A scope in which declarations are made has the names of its context and no others. -/
structure Stands (w : World) (id : ScopeId) (context : Context) (env : Environment) : Prop extends
    w.Sees id context env where
  opened : context.Open
  exact : ∀ list outer, context = .names list :: outer →
    ∀ name, (w.store.binding? id name).isSome → name ∈ list

/-- The names of the scopes in front of one stay the same. -/
def Keeps (w w' : World) (id : ScopeId) : Prop :=
  ∀ other < id, ∀ name, (w'.store.binding? other name).isSome → (w.store.binding? other name).isSome

theorem Keeps.refl (w : World) (id : ScopeId) : w.Keeps w id :=
  fun _ _ _ h => h

theorem Keeps.trans {w w' w'' : World} {id : ScopeId} (h : w.Keeps w' id) (h' : w'.Keeps w'' id) :
    w.Keeps w'' id :=
  fun other hother name hname => h other hother name (h' other hother name hname)

theorem Keeps.mono {w w' : World} {id other : ScopeId} (h : w.Keeps w' id) (hle : other ≤ id) :
    w.Keeps w' other :=
  fun before hbefore => h before (Nat.lt_of_lt_of_le hbefore hle)

theorem Stands.mono {w w' : World} {id : ScopeId} {context : Context} {env : Environment}
    (hgrows : w.Grows w')
    (hkeeps : ∀ name, (w'.store.binding? id name).isSome → (w.store.binding? id name).isSome)
    (h : w.Stands id context env) : w'.Stands id context env :=
  ⟨h.toSees.mono hgrows, h.opened, fun list outer hcontext name hname =>
    h.exact list outer hcontext name (hkeeps name hname)⟩

end World

end ScopeScript.Lexical
