import ScopeScript.Proofs.Lexical.Calls

/-!
# The machines stay in step

Configurations that agree take steps to configurations that agree. The proof follows the definition
of a step: the beginning of an expression or of a statement, a call, and what each frame does with
what it waits for. From this, runs of any length agree.
-/

namespace ScopeScript.Lexical

variable {points : NodeId → Option Nat → Prop} {w w' : World} {context context' : Context}
  {state : ScopeScript.State} {state' : State} {await : Await}

/-! ## Expressions and statements -/

theorem evalMove_answers (h : Meets points w context state state') {expr : Expr}
    (hexpr : expr.Scoped points context) {frames : List (Frame ScopeId)}
    (hmade : w.Permits ⟨.eval expr, frames, state⟩) :
    Answers points w .value state.current context (ScopeScript.evalMove expr state)
      (evalMove expr state') := by
  cases expr with
  | literal => exact h.value (.refl w _) _
  | grouping => exact h.eval hexpr
  | unary operator right =>
      have hright : right.Scoped points context := hexpr
      exact h.evalFor hright .unary
  | binary => exact h.evalFor hexpr.1 (.binaryLeft hexpr.2)
  | logical => exact h.evalFor hexpr.1 (.logical hexpr.2)
  | «variable» id name =>
      simp only [ScopeScript.evalMove, evalMove, h.lookUp hexpr.2]
      exact h.result _
  | assign => exact h.evalFor hexpr.2.2 (.assign hexpr.1 hexpr.2.1)
  | call => exact h.evalFor hexpr.1 (.callee hexpr.2)
  | get object name =>
      have hobject : object.Scoped points context := hexpr
      exact h.evalFor hobject .get
  | set => exact h.evalFor hexpr.1 (.setObject hexpr.2)
  | superExpr => exact superMove_answers h hexpr hmade
  | thisExpr id keyword =>
      obtain ⟨hkeyword, -, distance, hthis, hpoint⟩ := hexpr
      rw [← hthis, ← hkeyword] at hpoint
      simp only [ScopeScript.evalMove, evalMove, h.lookUp hpoint]
      exact h.result _

/-- A block opens a scope in one machine and nothing in the other. -/
theorem blockMove_answers (h : Meets points w context state state') {body : List Stmt}
    (hbody : Stmt.ScopedAll points (.names [] :: context) body) :
    Answers points w .flow state.current context (ScopeScript.execMove (.block body) state)
      (execMove (.block body) state') := by
  have hmemory := h.same.memory
  have hlt := h.stands.chain.lt_size hmemory.inside
  -- The frames below stand in older scopes, whose names a new scope does not touch.
  have hfollows : w.Follows (w.opened state.current) w.store.scopes.size :=
    World.opened_follows (Nat.le_refl _)
  refine ⟨w.opened state.current, hfollows.mono (Nat.le_of_lt hlt), ?_⟩
  intro frames frames' hframes
  refine ⟨⟨?_, h.same.globals, h.same.locals, ?_, h.same.sink, h.same.clock⟩, rfl, _, .flow, _, ?_,
    .flow, .block hbody ?_ ?_ hframes⟩
  · simp only [ScopeScript.execMove, MoveOf.onto, h.same.store]
    rfl
  · exact (hmemory.opened state.current).congr rfl rfl rfl
  · simp only [ScopeScript.execMove, MoveOf.onto, h.same.store]
    exact h.stands.toSees.opened
  · simp only [ScopeScript.execMove, MoveOf.onto, h.same.store]
    exact hlt
  · exact h.stands.mono hfollows.grows (hfollows.keeps _ hlt)

theorem execMove_answers (h : Meets points w context state state') {stmt : Stmt}
    (hstmt : stmt.Scoped points context) :
    Answers points w .flow state.current (stmt.after context) (ScopeScript.execMove stmt state)
      (execMove stmt state') := by
  cases stmt with
  | expression => exact h.evalFor hstmt .discard
  | print => exact h.evalFor hstmt .print
  | varDecl name initializer =>
      cases initializer with
      | none => exact declareMove_answers h hstmt.1 hstmt.2.1 _
      | some => exact h.evalFor hstmt.2.2 (.declare hstmt.1 hstmt.2.1)
  | letDecl => exact h.evalFor hstmt.2.2 (.declare hstmt.1 hstmt.2.1)
  | block => exact blockMove_answers h hstmt
  | ifElse condition thenBranch elseBranch =>
      cases elseBranch with
      | none =>
          obtain ⟨hcondition, hdeclared, hthen⟩ := hstmt
          exact h.evalFor hcondition (.branch hdeclared hthen fun _ hnone => nomatch hnone)
      | some elseBranch =>
          obtain ⟨hcondition, hdeclared, hthen, helse⟩ := hstmt
          refine h.evalFor hcondition (.branch hdeclared hthen ?_)
          intro stmt hsome
          cases hsome
          exact helse
  | whileLoop => exact h.evalFor hstmt.1 (.whileTest hstmt)
  | function => exact functionMove_answers h hstmt
  | returnStmt keyword value =>
      cases value with
      | none => exact h.flow (.refl w _) _
      | some => exact h.evalFor hstmt .returning
  | breakStmt => exact h.flow (.refl w _) _
  | classDecl name superclass methods =>
      cases superclass with
      | none => exact classMove_answers h hstmt.1 hstmt.2.1 hstmt.2.2.2
      | some => exact h.evalFor hstmt.2.2.1 (.superclass hstmt)

/-! ## Frames -/

theorem nextArgument_answers (h : Meets points w context state state') (callee : Value)
    (paren : Token) (before : List Value) {after : List Expr}
    (hafter : Expr.ScopedAll points context after) :
    Answers points w .value state.current context
      (Frame.nextArgument callee paren before after state)
      (nextArgument callee paren before after state') := by
  cases after with
  | nil => exact invokeMove_answers h callee paren before
  | cons => exact h.evalFor hafter.1 (.argument hafter.2)

theorem onValue_answers (h : Meets points w context state state') {frame : Frame ScopeId}
    {frame' : Frame Environment}
    (hwaits : Waits points w .value context frame frame' await context') {value : Value}
    {frames : List (Frame ScopeId)}
    (hmade : w.Permits ⟨.done (.value value), frame :: frames, state⟩) :
    Answers points w await state.current context' (frame.onValue value state)
      (onValue frame' value state') := by
  have hheap := h.same.memory.heap
  cases hwaits with
  | unary => exact h.result _
  | binaryLeft hright => exact h.evalFor hright .binaryRight
  | @binaryRight _ left operator =>
      simp only [Frame.onValue, onValue, hheap.applyBinary, h.same.store]
      exact h.result _
  | @logical _ operator right hright =>
      simp only [Frame.onValue, onValue]
      split
      next => exact h.value (.refl w _) _
      next => exact h.eval hright
  | assign hplain hpoint => exact assignMove_answers h hplain hpoint value
  | callee harguments => exact nextArgument_answers h value _ [] harguments
  | argument hafter => exact nextArgument_answers h _ _ _ hafter
  | get => exact getMove_answers h hmade
  | setObject hvalue =>
      cases value with
      | object => exact h.evalFor hvalue .setValue
      | nil | bool | number | string | native | function | cls => exact h.fail ..
  | @setValue _ object name =>
      obtain ⟨w', hfollows, hmeets⟩ := h.setField object name.lexeme value
      exact hmeets.value hfollows value
  | discard => exact h.flow (.refl w _) _
  | print =>
      simp only [Frame.onValue, onValue, hheap.display, h.same.store]
      exact writeMove_answers h _ .flow
  | declare hplain hfresh => exact declareMove_answers h hplain hfresh _
  | returning => exact h.flow (.refl w _) _
  | @branch _ thenBranch elseBranch hdeclared hthen helse =>
      simp only [Frame.onValue, onValue]
      split
      next => exact h.exec hdeclared hthen
      next =>
        cases elseBranch with
        | none => exact h.flow (.refl w _) _
        | some stmt => exact h.exec (helse stmt rfl).1 (helse stmt rfl).2
  | @whileTest _ condition body hloop =>
      simp only [Frame.onValue, onValue]
      split
      next =>
        obtain ⟨hcondition, hdeclared, hbody⟩ := hloop
        refine ⟨w, .refl w _, fun frames frames' hframes => ⟨h.same, rfl, context, .flow, context,
          h.stands, ?_, .frame (.whileBody ⟨hcondition, hdeclared, hbody⟩) hframes⟩⟩
        -- The body declares nothing, so the next test stands in the same context.
        have hexec := Gives.exec (w := w) hbody
        rwa [Stmt.after, hdeclared] at hexec
      next => exact h.flow (.refl w _) _
  | superclass hclass =>
      cases value with
      | cls => exact classMove_answers h hclass.1 hclass.2.1 hclass.2.2.2
      | nil | bool | number | string | native | function | object => exact h.fail ..
  | construct => exact h.value (.refl w _) _

/-- A frame that waits for the end of a statement. -/
theorem onFlow_answers (h : Meets points w context state state') {frame : Frame ScopeId}
    {frame' : Frame Environment}
    (hwaits : Waits points w .flow context frame frame' await context') (flow : Flow) :
    Answers points w await state.current context' (frame.onFlow flow state)
      (onFlow frame' flow state') := by
  cases hwaits with
  | whileBody hloop =>
      cases flow with
      | normal => exact h.evalFor hloop.1 (.whileTest hloop)
      | broke => exact h.flow (.refl w _) _
      | returned => exact h.flow (.refl w _) _
  | @activation _ closure closure' hclosure =>
      simp only [Frame.onFlow, onFlow, hclosure.isInitializer]
      split
      next hinitializer =>
        -- The scope of an initializer is that of its receiver, so `this` is no hop away.
        obtain ⟨inner, hsees, -, hreceiver⟩ := hclosure.scope
        obtain ⟨outer, rfl⟩ := hreceiver hinitializer
        have hhops : Context.hops? "this" (.receiver closure.declaration :: outer) = some 0 :=
          Context.hops?_of_mem (by simp [Layer.bound])
        obtain ⟨-, scope, binding, -, -, hout, hbound, hbinding⟩ :=
          hsees.binding?_local h.same.memory hhops
        have hget := Store.getAt_of_outward? (thisToken closure.declaration.name.line) hout hbound
        rw [h.same.store, hget, hclosure.declaration, State.lookUp]
        have hthis :
            state'.binding? closure'.scope (thisToken closure.declaration.name.line).lexeme =
            some binding :=
          hbinding
        rw [hthis]
        exact h.result _
      next =>
        cases flow with
        | normal | broke => exact h.value (.refl w _) _
        | returned => exact h.value (.refl w _) _

/-! ## Steps -/

/-- Moves that agree lead on from frames that wait for what they give. -/
theorem Answers.agree {id : ScopeId} {move : ScopeScript.Move} {move' : Move}
    (h : Answers points w await id context move move') {frames : List (Frame ScopeId)}
    {frames' : List (Frame Environment)}
    (hframes : Stacks points w await id context frames frames') :
    ∃ w', w.Grows w' ∧ w'.made = w.made
      ∧ Agree points w' (move.onto frames) (move'.onto frames') := by
  obtain ⟨w', hfollows, hagree⟩ := h
  have hframes' := hframes.mono hfollows.grows hfollows.keeps
  exact ⟨w', hfollows.grows, hfollows.made, hagree frames frames' hframes'⟩

/-- Only the end of a block changes where the machines stand. -/
theorem Waits.leave {frame : Frame ScopeId} {frame' : Frame Environment} {await' : Await}
    (h : Waits points w await context frame frame' await' context') (state : ScopeScript.State)
    (state' : State) : frame.leave state = state ∧ leave frame' state' = state' := by
  cases h <;> exact ⟨rfl, rfl⟩

theorem SameState.leave (h : SameState points w state state') (outer : ScopeId)
    (env : Environment) :
    SameState points w { state with current := outer } { state' with current := env } :=
  ⟨h.store, h.globals, h.locals, h.memory.congr rfl rfl rfl, h.sink, h.clock⟩

/-- The end of a statement, in front of each kind of stack. -/
theorem flow_agree (h : Meets points w context state state') (flow : Flow)
    {frames : List (Frame ScopeId)} {frames' : List (Frame Environment)}
    (hframes : Stacks points w .flow state.current context frames frames') :
    ∃ w', w.Grows w' ∧ w'.made = w.made
      ∧ Agree points w' (ScopeScript.step ⟨.done (.flow flow), frames, state⟩)
        (step ⟨.done (.flow flow), frames', state'⟩) := by
  obtain ⟨hstate, hstands⟩ := h
  cases hframes with
  | nil hglobal =>
      exact ⟨w, .refl w, rfl, hstate, rfl, [], .flow, [], hstands, .flow, .nil hglobal⟩
  | @program _ rest _ _ hrest hbelow =>
      cases rest with
      | nil => exact (Meets.flow ⟨hstate, hstands⟩ (.refl w _) .normal).agree hbelow
      | cons stmt rest =>
          refine ⟨w, .refl w, rfl, hstate, rfl, [], .flow, stmt.after [], hstands,
            .exec hrest.1, ?_⟩
          -- At the top a declaration makes a global name, which is no part of the context.
          have hafter : stmt.after [] = [] := by
            unfold Stmt.after
            split <;> rfl
          rw [hafter]
          exact .program (hafter ▸ hrest.2) hbelow
  | @block _ outer _ _ env rest below below' hrest hlt houter hbelow =>
      have hleft : ∀ flow : Flow, ∃ w', w.Grows w' ∧ w'.made = w.made ∧ Agree points w'
          ((MoveOf.flow flow { state with current := outer } : ScopeScript.Move).onto below)
          ((MoveOf.flow flow { state' with current := env } : Move).onto below') := by
        intro flow
        exact (Meets.flow ⟨hstate.leave outer env, houter⟩ (.refl w _) flow).agree hbelow
      cases flow with
      | normal =>
          cases rest with
          | nil => exact hleft .normal
          | cons stmt rest =>
              exact ⟨w, .refl w, rfl, hstate, rfl, context, .flow, _, hstands, .exec hrest.1,
                .block hrest.2 hlt houter hbelow⟩
      | broke => exact hleft .broke
      | returned value => exact hleft (.returned value)
  | frame hwaits hbelow =>
      exact (onFlow_answers ⟨hstate, hstands⟩ hwaits _).agree hbelow

/-- A fault passes every frame. It leaves the scopes of blocks as their ends do. -/
theorem fault_agree (h : Meets points w context state state') (fault : Fault)
    {frames : List (Frame ScopeId)} {frames' : List (Frame Environment)}
    (hframes : Stacks points w await state.current context' frames frames') :
    ∃ w', w.Grows w' ∧ w'.made = w.made
      ∧ Agree points w' (ScopeScript.step ⟨.done (.fault fault), frames, state⟩)
        (step ⟨.done (.fault fault), frames', state'⟩) := by
  obtain ⟨hstate, hstands⟩ := h
  cases hframes with
  | nil hglobal =>
      exact ⟨w, .refl w, rfl, hstate, rfl, context, .flow, [], hstands, .fault, .nil hglobal⟩
  | program hrest hbelow =>
      exact ⟨w, .refl w, rfl, hstate, rfl, context, .flow, [], hstands, .fault, hbelow⟩
  | @block _ outer _ outside env rest _ _ hrest hlt houter hbelow =>
      exact ⟨w, .refl w, rfl, hstate.leave outer env, rfl, outside, .flow, outside, houter,
        .fault, hbelow⟩
  | frame hwaits hbelow =>
      obtain ⟨hleave, hleave'⟩ := hwaits.leave state state'
      simp only [ScopeScript.step, step, Frame.resume, resume, Frame.pass, pass, hleave, hleave']
      exact ⟨w, .refl w, rfl, hstate, rfl, context, _, _, hstands, .fault, hbelow⟩

theorem step_agree {config : ScopeScript.Config} {config' : Config}
    (h : Agree points w config config') (hmade : w.Permits config) :
    ∃ w', w.Grows w' ∧ w'.made = w.made
      ∧ Agree points w' (ScopeScript.step config) (step config') := by
  obtain ⟨control, frames, state⟩ := config
  obtain ⟨control', frames', state'⟩ := config'
  obtain ⟨hstate, rfl, context, await, context', hstands, hgives, hframes⟩ := h
  have hmeets : Meets points w context state state' := ⟨hstate, hstands⟩
  cases hgives with
  | eval hexpr => exact (evalMove_answers hmeets hexpr hmade).agree hframes
  | exec hstmt => exact (execMove_answers hmeets hstmt).agree hframes
  | call harity => exact (callMove_answers hmeets harity hmade).agree hframes
  | value =>
      cases hframes with
      | frame hwaits hbelow => exact (onValue_answers hmeets hwaits hmade).agree hbelow
  | flow => exact flow_agree hmeets _ hframes
  | fault => exact fault_agree hmeets _ hframes

/-! ## Runs -/

theorem Stacks.nil_iff {id : ScopeId} {frames : List (Frame ScopeId)}
    {frames' : List (Frame Environment)} (h : Stacks points w await id context frames frames') :
    frames = [] ↔ frames' = [] := by
  cases h <;> simp

/-- Configurations that agree have come to the same end, or to none. -/
theorem Agree.outcome? {config : ScopeScript.Config} {config' : Config}
    (h : Agree points w config config') : config'.outcome? = config.outcome? := by
  obtain ⟨control, frames, state⟩ := config
  obtain ⟨control', frames', state'⟩ := config'
  obtain ⟨hstate, rfl, context, await, context', hstands, hgives, hframes⟩ := h
  have hnil := hframes.nil_iff
  unfold ConfigOf.outcome?
  cases frames with
  | nil =>
      rw [hnil.mp rfl]
      cases control' <;> rfl
  | cons frame frames =>
      cases frames' with
      | nil => cases hnil.mpr rfl
      | cons frame' frames' => cases control' <;> rfl

/-- Where anything may be made, runs agree. -/
theorem run_agree (fuel : Nat) {config : ScopeScript.Config} {config' : Config}
    (h : Agree points w config config')
    (hmade : ∀ scope method object, w.made scope method object) :
    ∃ w', w'.made = w.made ∧ Agree points w' (ScopeScript.run fuel config) (run fuel config') := by
  induction fuel generalizing w config config' with
  | zero => exact ⟨w, rfl, h⟩
  | succ fuel ih =>
      rw [ScopeScript.run, run]
      have hdone : config'.isDone = config.isDone := by
        rw [ConfigOf.isDone, ConfigOf.isDone, h.outcome?]
      rw [hdone]
      split
      next => exact ⟨w, rfl, h⟩
      next =>
        obtain ⟨w', -, hmade', hstep⟩ := step_agree h fun _ _ _ => hmade _ _ _
        obtain ⟨w'', hmade'', hrun⟩ := ih hstep (hmade'.symm ▸ hmade)
        exact ⟨w'', hmade''.trans hmade', hrun⟩

end ScopeScript.Lexical
