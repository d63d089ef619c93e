import ScopeScript.Proofs.Lexical.Relation

/-!
# Names in the two machines

Where the machines meet, a reference by distance and one by name find the same binding, an
assignment changes the cell whose place it changes, and a declaration that is local succeeds in
both. Only a global name can be undefined, and only a global name can be declared twice.
-/

namespace ScopeScript.Lexical

variable (points : NodeId → Option Nat → Prop)

/-- The states of the two machines agree, and see the same from where they stand. -/
structure Meets (w : World) (context : Context) (state : ScopeScript.State) (state' : State) :
    Prop where
  same : SameState points w state state'
  stands : w.Stands state.current context state'.current

variable {points} {w w' : World} {context context' : Context} {state : ScopeScript.State}
  {state' : State} {await : Await}

/-! ## Moves -/

namespace Meets

theorem done (h : Meets points w' context state state') (hfollows : w.Follows w' state.current)
    {outcome : Outcome} (hgives : Gives points w' context (.done outcome) await context') :
    Answers points w await state.current context' ⟨.done outcome, [], state⟩
      ⟨.done outcome, [], state'⟩ :=
  ⟨w', hfollows, fun _ _ hframes =>
    ⟨h.same, rfl, context, await, context', h.stands, hgives, hframes⟩⟩

theorem value (h : Meets points w' context state state') (hfollows : w.Follows w' state.current)
    (value : Value) :
    Answers points w .value state.current context (.value value state) (.value value state') :=
  h.done hfollows .value

theorem flow (h : Meets points w' context state state') (hfollows : w.Follows w' state.current)
    (flow : Flow) :
    Answers points w .flow state.current context (.flow flow state) (.flow flow state') :=
  h.done hfollows .flow

theorem fault (h : Meets points w' context state state') (hfollows : w.Follows w' state.current)
    (fault : Fault) :
    Answers points w await state.current context' (.fault fault state) (.fault fault state') :=
  h.done hfollows .fault

theorem fail (h : Meets points w context state state') (token : Token) (cause : RuntimeCause) :
    Answers points w await state.current context' (.fail token cause state)
      (.fail token cause state') :=
  h.fault (.refl w _) _

theorem result (h : Meets points w context state state') (result : Except RuntimeError Value) :
    Answers points w .value state.current context (.result result state)
      (.result result state') := by
  cases result with
  | ok value => exact h.value (.refl w _) value
  | error error => exact h.fault (.refl w _) _

theorem eval (h : Meets points w context state state') {expr : Expr}
    (hexpr : expr.Scoped points context) :
    Answers points w .value state.current context (.eval expr [] state) (.eval expr [] state') :=
  ⟨w, .refl w _, fun _ _ hframes =>
    ⟨h.same, rfl, context, .value, context, h.stands, .eval hexpr, hframes⟩⟩

theorem evalFor (h : Meets points w context state state') {expr : Expr}
    (hexpr : expr.Scoped points context) {frame : Frame ScopeId} {frame' : Frame Environment}
    (hframe : Waits points w .value context frame frame' await context') :
    Answers points w await state.current context' (.eval expr [frame] state)
      (.eval expr [frame'] state') :=
  ⟨w, .refl w _, fun _ _ hframes =>
    ⟨h.same, rfl, context, .value, context, h.stands, .eval hexpr, .frame hframe hframes⟩⟩

theorem exec (h : Meets points w context state state') {stmt : Stmt}
    (hdeclared : stmt.declared? = none) (hstmt : stmt.Scoped points context) :
    Answers points w .flow state.current context (.exec stmt [] state) (.exec stmt [] state') := by
  have hgives : Gives points w context (.exec stmt) .flow context := by
    have hexec := Gives.exec (w := w) hstmt
    rwa [Stmt.after, hdeclared] at hexec
  exact ⟨w, .refl w _, fun _ _ hframes =>
    ⟨h.same, rfl, context, .flow, context, h.stands, hgives, hframes⟩⟩

theorem call (h : Meets points w context state state') {callee : Value} {arguments : List Value}
    (harity : w.store.arity? callee = some arguments.length) :
    Answers points w .value state.current context ⟨.call callee arguments, [], state⟩
      ⟨.call callee arguments, [], state'⟩ :=
  ⟨w, .refl w _, fun _ _ hframes =>
    ⟨h.same, rfl, context, .value, context, h.stands, .call harity, hframes⟩⟩

end Meets

theorem writeMove_answers (h : Meets points w context state state') (lines : List String)
    {outcome : Outcome} (hgives : Gives points w context (.done outcome) await context) :
    Answers points w await state.current context (ScopeScript.writeMove lines outcome state)
      (writeMove lines outcome state') := by
  have hsame : ∀ sink, SameState points w { state with sink } { state' with sink } := fun sink =>
    ⟨h.same.store, h.same.globals, h.same.locals, h.same.memory.congr rfl rfl rfl, rfl,
      h.same.clock⟩
  unfold ScopeScript.writeMove writeMove ScopeScript.State.writeLines
  rw [h.same.sink]
  cases state.sink.writeLines lines with
  | mk fault? sink =>
      have hmeets : Meets points w context { state with sink } { state' with sink } :=
        ⟨hsame sink, h.stands⟩
      cases fault? with
      | none => exact hmeets.done (.refl w _) hgives
      | some fault => exact hmeets.fault (.refl w _) _

/-! ## Lookup -/

/-- A name that the context does not have is global in both machines. -/
theorem World.Sees.binding?_global {id : ScopeId} {env : Environment} {name : String}
    (h : w.Sees id context env) (hmemory : SameMemory points w state')
    (hhops : context.hops? name = none) :
    state'.binding? env name = w.store.binding? w.globals name := by
  rw [State.binding?, h.absent name hhops]
  exact hmemory.names name

/-- A name that the context has is bound as far outward as it says, and its cell holds the same. -/
theorem World.Sees.binding?_local {id : ScopeId} {env : Environment} {name : String}
    {distance : Nat} (h : w.Sees id context env) (hmemory : SameMemory points w state')
    (hhops : context.hops? name = some distance) :
    ∃ cell scope binding, env.cell? name = some cell ∧ w.places[cell]? = some (scope, name)
      ∧ w.store.outward? id distance = some scope
      ∧ w.store.binding? scope name = some binding ∧ state'.binding? env name = some binding := by
  obtain ⟨cell, scope, hcell, hout, hplace⟩ := h.placed name distance hhops
  obtain ⟨binding, hbinding, hbound⟩ := hmemory.cell_some hplace
  refine ⟨cell, scope, binding, hcell, hplace, hout, hbound, ?_⟩
  rw [State.binding?, hcell]
  exact hbinding

/-- A reference finds the same in both machines. -/
theorem Meets.lookUp (h : Meets points w context state state') {id : NodeId} {name : Token}
    (hpoint : points id (context.hops? name.lexeme)) :
    state.lookUp id name = state'.lookUp state'.current name := by
  rw [ScopeScript.State.lookUp, State.lookUp, h.same.locals.known id _ hpoint, h.same.store]
  cases hhops : context.hops? name.lexeme with
  | none =>
      rw [h.stands.binding?_global h.same.memory hhops]
      simp only
      rw [ScopeScript.Store.get, h.same.globals, Store.holder?_of_root h.same.memory.root]
      cases hbinding : w.store.binding? w.globals name.lexeme with
      | none => rfl
      | some binding => simp [ScopeScript.Store.getHere, hbinding]
  | some distance =>
      obtain ⟨cell, scope, binding, -, -, hout, hbound, hbinding⟩ :=
        h.stands.binding?_local h.same.memory hhops
      simp only
      rw [Store.getAt_of_outward? _ hout hbound, hbinding]

/-! ## Assignment -/

/-- Binding anew a name that is bound changes no names. -/
theorem World.bound_follows_of_some {scope : ScopeId} {name : String} {old : Binding}
    (hold : w.store.binding? scope name = some old) (hplain : name ≠ "this" ∧ name ≠ "super")
    (binding : Binding) (id : ScopeId) :
    w.Follows (w.bound scope name binding) id
      ∧ ∀ other asked, ((w.bound scope name binding).store.binding? other asked).isSome →
        (w.store.binding? other asked).isSome := by
  have hscope := Store.lt_size_of_binding? hold
  -- The scope may lie further out than the current one, so `bound_keeps` does not suffice.
  have hnames : ∀ other asked, ((w.bound scope name binding).store.binding? other asked).isSome →
      (w.store.binding? other asked).isSome := by
    intro other asked h
    rw [World.bound, Store.binding?_bind hscope] at h
    split at h
    next heq => simp [heq.1, heq.2, hold]
    next => exact h
  exact ⟨⟨(World.bound_follows hscope (.inr hplain)).grows, fun other _ => hnames other, rfl⟩,
    hnames⟩

/-- A name that is bound in both machines is bound anew in both. -/
theorem Meets.put (h : Meets points w context state state') {name : Token} (hplain : name.Plain)
    {scope : ScopeId} {old : Binding} (hold : w.store.binding? scope name.lexeme = some old)
    (hplace : context.hops? name.lexeme = none ∧ scope = w.globals
      ∨ ∃ cell : CellId, state'.current.cell? name.lexeme = some cell
        ∧ w.places[cell]? = some (scope, name.lexeme)) (value : Value) :
    Meets points (w.bound scope name.lexeme ⟨value, true⟩) context
      { state with store := state.store.put scope name value }
      (state'.put name.lexeme ⟨value, true⟩) := by
  obtain ⟨hfollows, hnames⟩ :=
    World.bound_follows_of_some hold hplain ⟨value, true⟩ state.current
  have hstore : state.store.put scope name value =
      (w.bound scope name.lexeme ⟨value, true⟩).store := by
    rw [h.same.store]
    rfl
  have hstands := h.stands.mono hfollows.grows (hnames state.current)
  rcases hplace with ⟨hhops, rfl⟩ | ⟨cell, hcell, hplace⟩
  · have hmemory := h.same.memory.boundGlobal (.inr hplain) ⟨value, true⟩
    rw [State.put, h.stands.absent _ hhops]
    exact ⟨⟨hstore, h.same.globals, h.same.locals, hmemory, h.same.sink, h.same.clock⟩, hstands⟩
  · have hmemory := h.same.memory.bound hplace hplain ⟨value, true⟩
    rw [State.put, hcell]
    exact ⟨⟨hstore, h.same.globals, h.same.locals, hmemory, h.same.sink, h.same.clock⟩, hstands⟩

theorem assignMove_answers (h : Meets points w context state state') {id : NodeId} {name : Token}
    (hplain : name.Plain) (hpoint : points id (context.hops? name.lexeme)) (value : Value) :
    Answers points w .value state.current context (ScopeScript.assignMove id name value state)
      (assignMove name value state') := by
  obtain ⟨store, globals, places, made⟩ := w
  obtain rfl : state.store = store := h.same.store
  obtain rfl : state.globals = globals := h.same.globals
  unfold ScopeScript.assignMove assignMove ScopeScript.State.assignTarget State.assign
  rw [h.same.locals.known id _ hpoint]
  cases hhops : context.hops? name.lexeme with
  | none =>
      rw [h.stands.binding?_global h.same.memory hhops]
      simp only [ScopeScript.Store.assignTarget, Store.holder?_of_root h.same.memory.root,
        ScopeScript.Store.checkAssign]
      cases hbinding : state.store.binding? state.globals name.lexeme with
      | none => exact h.fault (.refl _ _) _
      | some binding =>
          simp only [hbinding, Option.isSome_some, if_true]
          cases hmutable : binding.mutable with
          | false => exact h.fault (.refl _ _) _
          | true =>
              have hput := h.put hplain hbinding (.inl ⟨hhops, rfl⟩) value
              exact hput.value (World.bound_follows_of_some hbinding hplain _ _).1 value
  | some distance =>
      obtain ⟨cell, scope, binding, hcell, hplace, hout, hbound, hbinding⟩ :=
        h.stands.binding?_local h.same.memory hhops
      rw [hbinding]
      simp only [ScopeScript.Store.assignTargetAt, Store.ancestor_of_outward? hout,
        ScopeScript.Store.checkAssign, hbound]
      cases hmutable : binding.mutable with
      | false => exact h.fault (.refl _ _) _
      | true =>
          have hput := h.put hplain hbound (.inr ⟨cell, hcell, hplace⟩) value
          exact hput.value (World.bound_follows_of_some hbound hplain _ _).1 value

/-! ## Declaration -/

theorem Meets.declareGlobal (h : Meets points w [] state state') (name : Token)
    (binding : Binding) :
    (∃ error, state.store.checkDeclare state.current name = some error
        ∧ state'.declare name binding = .error error)
      ∨ ∃ state₁, state.store.checkDeclare state.current name = none
        ∧ state'.declare name binding = .ok state₁
        ∧ w.Follows (w.bound w.globals name.lexeme binding) state.current
        ∧ Meets points (w.bound w.globals name.lexeme binding) []
          { state with store := state.store.bind state.current name.lexeme binding } state₁
        ∧ state₁.current = none ∧ state₁.heap = state'.heap := by
  have hmemory := h.same.memory
  have hglobal : state.current = w.globals := (h.stands.chain.nil_iff hmemory.root).mp rfl
  have hnone : state'.current = none := h.stands.top.mpr rfl
  -- Both machines ask their globals, and these have the same names.
  have hcontains : state'.globals.contains name.lexeme =
      (state.store.binding? state.current name.lexeme).isSome := by
    rw [NameMap.contains, hmemory.names, h.same.store, hglobal]
  rw [ScopeScript.Store.checkDeclare, State.declare, hnone]
  simp only [hcontains]
  cases hbinding : state.store.binding? state.current name.lexeme with
  | some => exact .inl ⟨_, rfl, rfl⟩
  | none =>
      rw [h.same.store, hglobal] at hbinding
      refine .inr ⟨_, rfl, rfl, ?_, ⟨⟨?_, h.same.globals, h.same.locals, ?_, h.same.sink,
        h.same.clock⟩, ?_⟩, rfl, rfl⟩
      · rw [hglobal]
        exact World.bound_follows hmemory.inside (.inl hbinding)
      · simp only [World.bound, h.same.store, hglobal]
      · exact (hmemory.boundGlobal (.inl hbinding) binding).congr rfl rfl rfl
      · simp only [hglobal]
        refine ⟨World.Sees.global _, trivial, ?_⟩
        intro _ _ hcontext
        cases hcontext

theorem Meets.declareLocal {list : List String}
    (h : Meets points w (.names list :: context) state state') {name : Token} (hplain : name.Plain)
    (hfresh : name.lexeme ∉ list) (binding : Binding) :
    state.store.checkDeclare state.current name = none
      ∧ state'.declare name binding =
        .ok { state' with
          cells := state'.cells.push binding
          current := state'.current.extend name.lexeme state'.cells.size }
      ∧ w.Follows (w.placed state.current name.lexeme binding) state.current
      ∧ Meets points (w.placed state.current name.lexeme binding)
        (.names (name.lexeme :: list) :: context)
        { state with store := state.store.bind state.current name.lexeme binding }
        { state' with
          cells := state'.cells.push binding
          current := state'.current.extend name.lexeme state'.cells.size } := by
  have hmemory := h.same.memory
  have hinside := h.stands.chain.lt_size hmemory.inside
  have hlocal : state.current ≠ w.globals := fun heq =>
    nomatch (h.stands.chain.nil_iff hmemory.root).mpr heq
  obtain ⟨hnew, hstands⟩ := h.stands.extended hinside hplain hfresh binding
  -- Only the check by scope can fail here. The other machine never asks inside a block.
  obtain ⟨map, hmap⟩ : ∃ map, state'.current = some map :=
    Option.ne_none_iff_exists'.mp fun heq => nomatch h.stands.top.mp heq
  refine ⟨?_, ?_, World.placed_follows hinside hnew, ⟨?_, h.same.globals, h.same.locals, ?_,
    h.same.sink, h.same.clock⟩, ?_⟩
  · rw [ScopeScript.Store.checkDeclare, h.same.store, hnew]
    rfl
  · simp [State.declare, hmap, State.allot]
  · rw [h.same.store]
    rfl
  · exact (hmemory.placed hinside hlocal hnew binding).congr rfl rfl rfl
  · rw [← hmemory.size] at hstands
    exact hstands

theorem declareMove_answers (h : Meets points w context state state') {name : Token}
    (hplain : name.Plain) (hfresh : context.Fresh name.lexeme) (binding : Binding) :
    Answers points w .flow state.current (context.declare name.lexeme)
      (ScopeScript.declareMove name binding state) (declareMove name binding state') := by
  unfold ScopeScript.declareMove declareMove
  cases context with
  | nil =>
      rcases h.declareGlobal name binding with ⟨error, hcheck, hdeclare⟩ |
        ⟨state₁, hcheck, hdeclare, hfollows, hmeets, -, -⟩
      · rw [hcheck, hdeclare]
        exact h.fault (.refl w _) _
      · rw [hcheck, hdeclare]
        exact hmeets.flow hfollows .normal
  | cons layer outer =>
      cases layer with
      | receiver | inherited => exact hfresh.elim
      | names list =>
          obtain ⟨hcheck, hdeclare, hfollows, hmeets⟩ := h.declareLocal hplain hfresh binding
          rw [hcheck, hdeclare]
          exact hmeets.flow hfollows .normal

end ScopeScript.Lexical
