import ScopeScript.Proofs.Lexical.Simulation
import ScopeScript.Proofs.Scoping.Accepted
import ScopeScript.Proofs.Session.Observation

/-!
# Sessions are lexically scoped

A session on the machine for lexical scoping reads and checks its sources as any session does, but
it makes no use of the distances that the check has found. What can be seen of the two sessions is
the same: what each source reports, and what has been written when it ends or is stopped.
-/

namespace ScopeScript

namespace Lexical

/-- Bind a native function to its name. -/
def State.addNative (state : State) (native : Native) : State :=
  let (id, heap) := state.heap.addNative native
  { state with heap, globals := state.globals.insert native.name ⟨.native id, true⟩ }

/-- The state in front of the first program: the built-in natives are global. -/
def State.start (sink : Sink) (clock : Clock) : State :=
  builtins.foldl addNative ⟨{}, #[], .empty, none, sink, clock⟩

/-- The configuration in front of a program. -/
def Config.ofProgram (program : Program) (state : State) : Config :=
  ⟨.done (.flow .normal), [.program program], state⟩

/-- What stays from one source to the next. -/
structure Session where
  state : State
  nextId : NodeId

/-- A new session. -/
def Session.start (sink : Sink) (clock : Clock) : Session :=
  ⟨.start sink clock, 0⟩

/-- What can be seen of a session in which each source may take so many steps. -/
def Session.observe (session : Session) : List (String × Nat) → List Observation
  | [] => []
  | (source, fuel) :: rest =>
    match prepareSource session.nextId source with
    | (.error rejection, nextId) =>
      (some (.error rejection), session.state.sink) :: observe ⟨session.state, nextId⟩ rest
    | (.ok prepared, nextId) =>
      let last := run fuel (.ofProgram prepared.program session.state)
      match last.outcome? with
      | none => [(none, last.state.sink)]
      | some outcome =>
        (some (ScopeScript.Session.report prepared (finish outcome last.state.sink)),
          last.state.sink) :: observe ⟨last.state, nextId⟩ rest

/-! ## The first source -/

variable {points : NodeId → Option Nat → Prop} {w : World}
  {made : ScopeId → Closure ScopeId → InstanceId → Prop}

theorem SameMemory.addNative {store : Store} {globals : ScopeId}
    {places : List (ScopeId × String)} {state : State}
    (h : SameMemory points ⟨store, globals, places, made⟩ state) (native : Native)
    (hname : native.name ≠ "this" ∧ native.name ≠ "super")
    (hbehaviour : native.behaviour = .clock ∨ native.behaviour = .printLine) :
    SameMemory points
      ⟨(store.addNative native).2.bind globals native.name
        ⟨.native (store.addNative native).1, true⟩, globals, places, made⟩
      (state.addNative native) := by
  have hgrows : World.Grows ⟨store, globals, places, made⟩
      (World.withHeap ⟨store, globals, places, made⟩ (store.toHeap.addNative native).2) := by
    refine World.withHeap_grows ⟨fun _ _ h => h, fun _ _ h => h, fun _ _ _ _ h => h, fun _ _ h => h,
      fun _ object h => ⟨object, h, rfl⟩⟩
  have hheap : SameHeap points
      (World.withHeap ⟨store, globals, places, made⟩ (store.toHeap.addNative native).2)
      (state.heap.addNative native).2 := by
    refine ⟨?_, ?_, h.heap.instances, ?_, ?_⟩
    · exact h.heap.functions.mono fun _ _ => SameClosure.mono hgrows
    · exact h.heap.classes.mono fun _ _ => SameClass.mono hgrows
    · simp only [Heap.addNative, World.withHeap, h.heap.natives]
    · intro id found hfound
      simp only [World.withHeap, Heap.addNative, Array.getElem?_push] at hfound
      split at hfound
      next =>
        cases hfound
        exact hbehaviour
      next => exact h.heap.builtin id found hfound
  have hid : (state.heap.addNative native).1 = (store.addNative native).1 :=
    congrArg Array.size h.heap.natives
  have hbound := (h.withHeap hheap).boundGlobal (.inr hname)
    ⟨.native (store.addNative native).1, true⟩
  rw [← hid] at hbound ⊢
  exact hbound.congr rfl rfl rfl

/-- The first source starts with memories that agree. -/
theorem SameMemory.start (sink : Sink) (clock : Clock) :
    SameMemory points
      ⟨(ScopeScript.State.start sink clock).store, (ScopeScript.State.start sink clock).globals, [],
        made⟩
      (State.start sink clock) := by
  have hempty : SameMemory points ⟨(({} : Store).addScope (.empty none)).2, 0, [], made⟩
      ⟨{}, #[], .empty, none, sink, clock⟩ := by
    refine ⟨rfl, by simp [Store.addScope], ?_, rfl, by simp, by simp, ?_⟩
    · intro name
      rw [Store.binding?_addScope]
      rfl
    · exact ⟨⟨rfl, by simp [Store.addScope]⟩, ⟨rfl, by simp [Store.addScope]⟩, rfl, rfl,
        by simp [Store.addScope]⟩
  have hclock := hempty.addNative ⟨"clock", 0, .clock⟩ (by decide) (.inl rfl)
  exact hclock.addNative ⟨"println", 1, .printLine⟩ (by decide) (.inr rfl)

/-! ## Source after source -/

/-- Between two sources, the machines meet at the top level, and no node with a number that is still
unused is recorded. -/
def Rests (nextId : NodeId) (w : World) (state : ScopeScript.State) (state' : State) : Prop :=
  ∃ points : NodeId → Option Nat → Prop, (∀ id distance, points id distance → id < nextId)
    ∧ Meets points w [] state state'

theorem Rests.start (made : ScopeId → Closure ScopeId → InstanceId → Prop) (sink : Sink)
    (clock : Clock) : ∃ w, w.made = made ∧ Rests 0 w (.start sink clock) (.start sink clock) := by
  refine ⟨⟨(ScopeScript.State.start sink clock).store, 0, [], made⟩, rfl, fun _ _ => False,
    fun _ _ h => h.elim, ⟨rfl, rfl, ⟨fun _ _ h => h.elim, ?_⟩, .start sink clock, rfl, rfl⟩, ?_⟩
  · intro _ _
    simp [ScopeScript.State.start, builtins, ScopeScript.State.addNative]
  · exact ⟨World.Sees.global _, trivial, fun _ _ hcontext => nomatch hcontext⟩

theorem Rests.mono {nextId nextId' : NodeId} {state : ScopeScript.State} {state' : State}
    (h : Rests nextId w state state') (hle : nextId ≤ nextId') : Rests nextId' w state state' := by
  obtain ⟨points, hpoints, hmeets⟩ := h
  exact ⟨points, fun id distance hid => Nat.lt_of_lt_of_le (hpoints id distance hid) hle, hmeets⟩

/-- The machines agree in front of an accepted program. -/
theorem Rests.ofProgram {nextId nextId' : NodeId} {state : ScopeScript.State} {state' : State}
    {source : String} {prepared : Prepared} (h : Rests nextId w state state')
    (hprepare : prepareSource nextId source = (.ok prepared, nextId')) :
    ∃ points : NodeId → Option Nat → Prop, (∀ id distance, points id distance → id < nextId')
      ∧ Agree points w (.ofProgram prepared.program prepared.resolution.locals state)
        (.ofProgram prepared.program state') := by
  obtain ⟨program, resolution⟩ := prepared
  obtain ⟨hparse, hresolve⟩ := prepareSource_ok hprepare
  obtain ⟨hnumbered, hnamed⟩ := parseSource_ok hparse
  obtain ⟨points, hpoints, hmeets⟩ := h
  let points' : NodeId → Option Nat → Prop := fun id distance =>
    points id distance ∨ id ∈ Stmt.idsAll program ∧ resolution.locals[id]? = distance
  -- Nodes are numbered on from source to source, so no record is overwritten in the union.
  have hnew : ∀ id ∈ Stmt.idsAll program, ∀ distance, ¬ points id distance := by
    intro id hid distance hpoint
    exact Nat.not_lt_of_le (hnumbered.bounds id hid).1 (hpoints id distance hpoint)
  have hrecords : Records points' (state.locals ∪ resolution.locals) := by
    refine ⟨?_, ?_⟩
    · intro id distance hpoint
      rw [Std.ExtTreeMap.getElem?_union]
      rcases hpoint with hpoint | ⟨hid, hdistance⟩
      · have hnot : id ∉ Stmt.idsAll program := fun hid => hnew id hid distance hpoint
        rw [resolve_locals hresolve hnot, Option.none_or]
        exact hmeets.same.locals.known id distance hpoint
      · rw [hmeets.same.locals.unknown id (hnew id hid), hdistance, Option.or_none]
    · intro id hunknown
      have hnot : id ∉ Stmt.idsAll program := fun hid => hunknown _ (.inr ⟨hid, rfl⟩)
      rw [Std.ExtTreeMap.getElem?_union, resolve_locals hresolve hnot, Option.none_or]
      exact hmeets.same.locals.unknown id fun distance hpoint => hunknown distance (.inl hpoint)
  have hscoped : Stmt.ScopedAll points' [] program :=
    Stmt.scopedAll_mono (fun _ _ hpoint => .inr hpoint) [] program
      (resolve_scoped hresolve hnamed hnumbered.nodup)
  refine ⟨points', ?_, ⟨hmeets.same.store, hmeets.same.globals, hrecords,
    hmeets.same.memory.recorded fun _ _ hpoint => .inl hpoint, hmeets.same.sink, hmeets.same.clock⟩,
    rfl, [], .flow, [], hmeets.stands, .flow, .program hscoped (.nil ?_)⟩
  · intro id distance hpoint
    rcases hpoint with hpoint | ⟨hid, -⟩
    · exact Nat.lt_of_lt_of_le (hpoints id distance hpoint) hnumbered.le
    · exact (hnumbered.bounds id hid).2
  · exact (hmeets.stands.chain.nil_iff hmeets.same.memory.root).mp rfl

/-- Where both have come to an end, the machines meet at the top level again. -/
theorem Agree.rests {points : NodeId → Option Nat → Prop} {nextId : NodeId}
    {config : ScopeScript.Config} {config' : Config} {outcome : Outcome}
    (h : Agree points w config config') (hpoints : ∀ id distance, points id distance → id < nextId)
    (houtcome : config.outcome? = some outcome) : Rests nextId w config.state config'.state := by
  obtain ⟨control, frames, state⟩ := config
  obtain ⟨control', frames', state'⟩ := config'
  obtain ⟨hstate, -, context, await, context', hstands, hgives, hframes⟩ := h
  cases frames with
  | cons => cases control <;> cases houtcome
  | nil =>
      cases hframes with
      | nil hglobal =>
          obtain rfl := (hstands.chain.nil_iff hstate.memory.root).mpr hglobal
          exact ⟨points, hpoints, hstate, hstands⟩

/-- Sessions at rest with memories that agree go on to be seen the same. -/
theorem Rests.observe (sources : List (String × Nat)) {state : ScopeScript.State} {state' : State}
    {nextId : NodeId} (h : Rests nextId w state state')
    (hmade : ∀ scope method object, w.made scope method object) :
    ScopeScript.Session.observe ⟨state, nextId⟩ sources =
      Session.observe ⟨state', nextId⟩ sources := by
  -- Each source leaves the machines at rest again, in a later world and with more nodes recorded.
  induction sources generalizing w state state' nextId with
  | nil => rfl
  | cons next rest ih =>
      obtain ⟨source, fuel⟩ := next
      have hsink : state'.sink = state.sink := by
        obtain ⟨_, _, hmeets⟩ := h
        exact hmeets.same.sink
      simp only [ScopeScript.Session.observe, Session.observe]
      cases hprepare : prepareSource nextId source with
      | mk result nextId' =>
          cases result with
          | error rejection =>
              simp only
              rw [hsink, ih (h.mono (prepareSource_nextId hprepare)) hmade]
          | ok prepared =>
              obtain ⟨points, hpoints, hagree⟩ := h.ofProgram hprepare
              obtain ⟨w', hmade', hrun⟩ := run_agree fuel hagree hmade
              simp only
              rw [hrun.outcome?, hrun.state.sink]
              cases houtcome : (ScopeScript.run fuel (.ofProgram prepared.program
                  prepared.resolution.locals state)).outcome? with
              | none => rfl
              | some outcome =>
                  simp only
                  rw [ih (hrun.rests hpoints houtcome) (hmade'.symm ▸ hmade)]

/-- Every session is lexically scoped: from the start, and for as many steps as each source may
take, the machine that goes by distances and the one that goes by names are seen the same. -/
theorem session_lexical (sink : Sink) (clock : Clock) (sources : List (String × Nat)) :
    (ScopeScript.Session.start sink clock).observe sources =
      (Session.start sink clock).observe sources := by
  obtain ⟨w, hmade, hstart⟩ := Rests.start (fun _ _ _ => True) sink clock
  exact hstart.observe sources (hmade ▸ fun _ _ _ => trivial)

end Lexical

end ScopeScript
