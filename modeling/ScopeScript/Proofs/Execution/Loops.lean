import ScopeScript.Proofs.Execution.Programs
import ScopeScript.Syntax.Statement

/-!
# What a `for` loop means

A `for` loop has no node of its own: it is a block with a `while` loop in it, and an increment
shares a block with the body. What it is meant to do is said here directly, scope by scope: the
initializer is run once, in a scope that the loop opens, and then one test and one pass follow the
other until one of them ends the loop. Executing the block comes to the same end with the same
state, and to none exactly if this does.
-/

namespace ScopeScript

/-! ## Parts of a run -/

/-- Evaluating an expression comes to an end. -/
abbrev Evaluates (expr : Expr) (state : State) (outcome : Outcome) (last : State) : Prop :=
  Ends ⟨.eval expr, [], state⟩ outcome last

/-- Executing a statement comes to an end. -/
abbrev Executes (stmt : Stmt) (state : State) (outcome : Outcome) (last : State) : Prop :=
  Ends ⟨.exec stmt, [], state⟩ outcome last

namespace State

/-- The state with another scope made current. -/
def inScope (state : State) (scope : ScopeId) : State :=
  { state with current := scope }

/-- The state with a new scope, without names, inside another. The new scope is current. -/
def openIn (state : State) (parent : ScopeId) : State :=
  { state with
    store := (state.store.addScope (.empty (some parent))).2, current := state.store.scopes.size }

theorem inScope_eq_self {state : State} {scope : ScopeId} (h : state.current = scope) :
    state.inScope scope = state := by
  subst h
  rfl

end State

section Parts

variable {expr : Expr} {stmt : Stmt} {control : Control} {config : Config} {outcome : Outcome}
  {state last : State}

/-- An expression ends with a value or with a fault. -/
theorem Ends.of_eval (h : Evaluates expr state outcome last) :
    (∃ value, outcome = .value value) ∨ ∃ cause, outcome = .fault cause := by
  have hall : state.store.toHeap.All (FunctionDecl.Within fun _ => True) :=
    ⟨fun _ _ _ _ => trivial, fun _ _ _ _ _ _ => trivial⟩
  have hregular : Config.Regular (fun _ => True) .value ⟨.eval expr, [], state⟩ :=
    ⟨.value, ⟨rfl, fun _ _ => trivial⟩, .nil, hall⟩
  obtain ⟨houtcome, -⟩ := h.regular hregular
  cases outcome with
  | value value => exact .inl ⟨value, rfl⟩
  | flow => cases houtcome
  | fault cause => exact .inr ⟨cause, rfl⟩

theorem not_restsOn_nil (hgoing : config.isDone = false) : ¬ config.RestsOn [] := by
  rintro ⟨outcome, state, rfl⟩
  cases hgoing

theorem Ends.surrounded {scope globals : ScopeId} {locals : Locals} (h : Ends config outcome last)
    (hreturns : config.Returns [] scope globals locals) : last.Surrounded scope globals locals := by
  induction h with
  | rest => exact hreturns.rest
  | step hgoing _ ih => exact ih (hreturns.step (not_restsOn_nil hgoing))

/-- Work leaves the scope current that it found current. -/
theorem Ends.current (h : Ends ⟨control, [], state⟩ outcome last) : last.current = state.current :=
  (h.surrounded ⟨⟨[], rfl, rfl⟩, rfl, rfl⟩).current

/-- Work is done on top of a frame, and then the frame goes on. -/
theorem ends_before {frame : Frame ScopeId} :
    Ends ⟨control, [frame], state⟩ outcome last ↔ ∃ inner middle,
      Ends ⟨control, [], state⟩ inner middle
        ∧ Ends ((frame.resume inner middle).onto []) outcome last := by
  have honto : (⟨control, [frame], state⟩ : Config) =
      Config.onto ⟨control, [], state⟩ [frame] := rfl
  have hresume : ∀ inner middle, Ends ⟨.done inner, [frame], middle⟩ outcome last ↔
      Ends ((frame.resume inner middle).onto []) outcome last := fun inner middle =>
    ⟨fun h => h.of_step rfl, fun h => .step rfl h⟩
  rw [honto, ends_onto]
  simp only [hresume]

theorem ends_exec : Executes stmt state outcome last ↔
    Ends ((execMove stmt state).onto []) outcome last :=
  ⟨fun h => h.of_step rfl, fun h => .step rfl h⟩

theorem ends_done {given : Outcome} :
    Ends ⟨.done given, [], state⟩ outcome last ↔ outcome = given ∧ last = state := by
  constructor
  · exact Ends.of_done
  · rintro ⟨rfl, rfl⟩
    exact .rest

/-- An expression statement ends as its expression does, short of the value. -/
theorem executes_expression : Executes (.expression expr) state outcome last ↔
    (outcome = .flow .normal ∧ ∃ value, Evaluates expr state (.value value) last)
      ∨ ∃ cause, outcome = .fault cause ∧ Evaluates expr state (.fault cause) last := by
  have hframe : Executes (.expression expr) state outcome last ↔ ∃ inner middle,
      Evaluates expr state inner middle
        ∧ Ends ((Frame.discard.resume inner middle).onto []) outcome last := by
    rw [ends_exec]
    exact ends_before
  rw [hframe]
  constructor
  · rintro ⟨inner, middle, hinner, houter⟩
    rcases hinner.of_eval with ⟨value, rfl⟩ | ⟨cause, rfl⟩
    · obtain ⟨rfl, rfl⟩ := ends_done.mp houter
      exact .inl ⟨rfl, value, hinner⟩
    · obtain ⟨rfl, rfl⟩ := ends_done.mp houter
      exact .inr ⟨cause, rfl, hinner⟩
  · rintro (⟨rfl, value, hinner⟩ | ⟨cause, rfl, hinner⟩)
    · exact ⟨_, _, hinner, .rest⟩
    · exact ⟨_, _, hinner, .rest⟩

theorem evaluates_true : Evaluates (.literal (.bool true)) state outcome last ↔
    outcome = .value (.bool true) ∧ last = state := by
  constructor
  · exact fun h => (h.of_step rfl).of_done
  · rintro ⟨rfl, rfl⟩
    exact .step rfl .rest

end Parts

/-! ## Blocks -/

/-- Statements are run one after the other, up to the first that does not end normally. -/
inductive InTurn : List Stmt → State → Outcome → State → Prop
  | nil {state : State} : InTurn [] state (.flow .normal) state
  | cons {stmt : Stmt} {rest : List Stmt} {state middle last : State} {outcome : Outcome} :
      Executes stmt state (.flow .normal) middle → InTurn rest middle outcome last →
      InTurn (stmt :: rest) state outcome last
  | stop {stmt : Stmt} {rest : List Stmt} {state last : State} {outcome : Outcome} :
      Executes stmt state outcome last → outcome ≠ .flow .normal →
      InTurn (stmt :: rest) state outcome last

section Blocks

variable {stmt : Stmt} {body rest : List Stmt} {state last : State} {outcome : Outcome}

theorem inTurn_cons : InTurn (stmt :: rest) state outcome last ↔
    (∃ middle, Executes stmt state (.flow .normal) middle ∧ InTurn rest middle outcome last)
      ∨ Executes stmt state outcome last ∧ outcome ≠ .flow .normal := by
  constructor
  · intro h
    cases h with
    | cons hstmt hrest => exact .inl ⟨_, hstmt, hrest⟩
    | stop hstmt hstops => exact .inr ⟨hstmt, hstops⟩
  · rintro (⟨_, hstmt, hrest⟩ | ⟨hstmt, hstops⟩)
    · exact .cons hstmt hrest
    · exact .stop hstmt hstops

theorem inTurn_singleton : InTurn [stmt] state outcome last ↔ Executes stmt state outcome last := by
  constructor
  · intro h
    cases h with
    | cons hstmt hrest =>
        cases hrest
        exact hstmt
    | stop hstmt => exact hstmt
  · intro h
    by_cases hnormal : outcome = .flow .normal
    · subst hnormal
      exact .cons h .nil
    · exact .stop h hnormal

theorem inTurn_pair {second : Stmt} : InTurn [stmt, second] state outcome last ↔
    (∃ middle, Executes stmt state (.flow .normal) middle ∧ Executes second middle outcome last)
      ∨ Executes stmt state outcome last ∧ outcome ≠ .flow .normal := by
  rw [inTurn_cons]
  simp only [inTurn_singleton]

/-- Whatever is not a normal end of a statement leaves the block around it and returns to the scope
around that. -/
theorem resume_block_of_ne {outer : ScopeId} (h : Executes stmt state outcome last)
    (hstops : outcome ≠ .flow .normal) :
    (Frame.block rest outer).resume outcome last = ⟨.done outcome, [], last.inScope outer⟩ := by
  rcases h.of_exec with ⟨flow, rfl⟩ | ⟨cause, rfl⟩
  · cases flow with
    | normal => exact (hstops rfl).elim
    | returned | broke => cases rest <;> rfl
  · rfl

/-- A block that has been entered runs its statements, and returns to the scope around it. -/
theorem ends_entered {outer : ScopeId} :
    Ends ⟨.done (.flow .normal), [.block rest outer], state⟩ outcome last ↔
      ∃ inner, InTurn rest state outcome inner ∧ last = inner.inScope outer := by
  induction rest generalizing state with
  | nil =>
      constructor
      · intro h
        obtain ⟨rfl, rfl⟩ := (h.of_step rfl).of_done
        exact ⟨state, .nil, rfl⟩
      · rintro ⟨_, ⟨⟩, rfl⟩
        exact .step rfl .rest
  | cons stmt rest ih =>
      have hfirst :
          Ends ⟨.done (.flow .normal), [.block (stmt :: rest) outer], state⟩ outcome last ↔
            Ends ⟨.exec stmt, [.block rest outer], state⟩ outcome last :=
        ⟨fun h => h.of_step rfl, fun h => .step rfl h⟩
      rw [hfirst, ends_before]
      constructor
      · rintro ⟨inner, middle, hstmt, houter⟩
        by_cases hnormal : inner = .flow .normal
        · subst hnormal
          obtain ⟨last', hrest, rfl⟩ := ih.mp (.step rfl houter)
          exact ⟨last', .cons hstmt hrest, rfl⟩
        · rw [resume_block_of_ne hstmt hnormal] at houter
          obtain ⟨rfl, rfl⟩ := houter.of_done
          exact ⟨middle, .stop hstmt hnormal, rfl⟩
      · rintro ⟨inner, hturn, rfl⟩
        cases hturn with
        | cons hstmt hrest =>
            exact ⟨_, _, hstmt, (ih.mpr ⟨inner, hrest, rfl⟩).of_step rfl⟩
        | stop hstmt hnormal =>
            refine ⟨_, _, hstmt, ?_⟩
            rw [resume_block_of_ne hstmt hnormal]
            exact .rest

theorem executes_block : Executes (.block body) state outcome last ↔
    ∃ inner, InTurn body (state.openIn state.current) outcome inner
      ∧ last = inner.inScope state.current := by
  rw [ends_exec]
  exact ends_entered

end Blocks

/-! ## Loops -/

/-- Tests and passes take turns: before each pass there is a test, and what is not a normal end of a
pass ends the loop. -/
inductive Repeats (test pass : State → Outcome → State → Prop) : State → Outcome → State → Prop
  | finished {state last : State} {value : Value} :
      test state (.value value) last → value.truthy = false →
      Repeats test pass state (.flow .normal) last
  | untested {state last : State} {cause : Fault} :
      test state (.fault cause) last → Repeats test pass state (.fault cause) last
  | again {state tested middle last : State} {value : Value} {outcome : Outcome} :
      test state (.value value) tested → value.truthy = true →
      pass tested (.flow .normal) middle → Repeats test pass middle outcome last →
      Repeats test pass state outcome last
  | broken {state tested last : State} {value : Value} :
      test state (.value value) tested → value.truthy = true → pass tested (.flow .broke) last →
      Repeats test pass state (.flow .normal) last
  | returned {state tested last : State} {value result : Value} :
      test state (.value value) tested → value.truthy = true →
      pass tested (.flow (.returned result)) last →
      Repeats test pass state (.flow (.returned result)) last
  | failed {state tested last : State} {value : Value} {cause : Fault} :
      test state (.value value) tested → value.truthy = true → pass tested (.fault cause) last →
      Repeats test pass state (.fault cause) last

/-- Loops whose tests and passes come to the same come to the same, as long as something holds that
tests and passes keep. -/
theorem Repeats.mono {test test' pass pass' : State → Outcome → State → Prop}
    (keep : State → Prop)
    (htest : ∀ {state outcome last}, keep state → test state outcome last →
      test' state outcome last ∧ keep last)
    (hpass : ∀ {state outcome last}, keep state → pass state outcome last →
      pass' state outcome last ∧ keep last)
    {state last : State} {outcome : Outcome} (h : Repeats test pass state outcome last)
    (hkeep : keep state) : Repeats test' pass' state outcome last ∧ keep last := by
  induction h with
  | finished hfinished hfalsy =>
      obtain ⟨hfinished', hlast⟩ := htest hkeep hfinished
      exact ⟨.finished hfinished' hfalsy, hlast⟩
  | untested huntested =>
      obtain ⟨huntested', hlast⟩ := htest hkeep huntested
      exact ⟨.untested huntested', hlast⟩
  | again htested htruthy hpassed _ ih =>
      obtain ⟨htested', hmiddle⟩ := htest hkeep htested
      obtain ⟨hpassed', hmiddle'⟩ := hpass hmiddle hpassed
      obtain ⟨hrest, hlast⟩ := ih hmiddle'
      exact ⟨.again htested' htruthy hpassed' hrest, hlast⟩
  | broken htested htruthy hpassed =>
      obtain ⟨htested', hmiddle⟩ := htest hkeep htested
      obtain ⟨hpassed', hlast⟩ := hpass hmiddle hpassed
      exact ⟨.broken htested' htruthy hpassed', hlast⟩
  | returned htested htruthy hpassed =>
      obtain ⟨htested', hmiddle⟩ := htest hkeep htested
      obtain ⟨hpassed', hlast⟩ := hpass hmiddle hpassed
      exact ⟨.returned htested' htruthy hpassed', hlast⟩
  | failed htested htruthy hpassed =>
      obtain ⟨htested', hmiddle⟩ := htest hkeep htested
      obtain ⟨hpassed', hlast⟩ := hpass hmiddle hpassed
      exact ⟨.failed htested' htruthy hpassed', hlast⟩

section While

variable {condition : Expr} {body : Stmt} {state last : State} {outcome : Outcome}

/-- Where a run that ends has not ended yet, one step leads to a shorter run to the same end. -/
theorem run_of_going {config : Config} {fuel : Nat} (hgoing : config.isDone = false)
    (h : run fuel config = ⟨.done outcome, [], last⟩) :
    ∃ less < fuel, run less (step config) = ⟨.done outcome, [], last⟩ := by
  cases fuel with
  | zero =>
      obtain rfl : config = _ := h
      cases hgoing
  | succ fuel =>
      rw [run, hgoing] at h
      exact ⟨fuel, Nat.lt_succ_self fuel, h⟩

/-- The work on top of frames comes to its end, and what the frames do then is no longer than the
whole. -/
theorem run_onto {config : Config} {base : List (Frame ScopeId)} {fuel : Nat}
    (h : run fuel (config.onto base) = ⟨.done outcome, [], last⟩) :
    ∃ inner middle, Ends config inner middle
      ∧ ∃ less ≤ fuel, run less ⟨.done inner, base, middle⟩ = ⟨.done outcome, [], last⟩ := by
  induction fuel using Nat.strongRecOn generalizing config with
  | _ fuel ih =>
      by_cases hdone : config.isDone
      · obtain ⟨inner, middle, rfl⟩ := isDone_iff.mp hdone
        exact ⟨inner, middle, .rest, fuel, Nat.le_refl fuel, h⟩
      · have hgoing := Bool.eq_false_iff.mpr hdone
        obtain ⟨less, hless, hrun⟩ := run_of_going (isDone_onto hgoing base) h
        rw [step_onto hgoing] at hrun
        obtain ⟨inner, middle, hinner, rest, hrest, hlast⟩ := ih less hless hrun
        exact ⟨inner, middle, .step hgoing hinner, rest, Nat.le_trans hrest (Nat.le_of_lt hless),
          hlast⟩

theorem run_done {given : Outcome} {fuel : Nat}
    (h : run fuel ⟨.done given, [], state⟩ = ⟨.done outcome, [], last⟩) :
    outcome = given ∧ last = state :=
  ends_done.mp (ends_iff_run.mpr ⟨fuel, h⟩)

/-- A run of a loop is made of tests and passes. Each of them takes at least a step, so that the
rest of the loop is a shorter run. -/
theorem Repeats.of_run {fuel : Nat}
    (h : run fuel ⟨.eval condition, [.whileTest condition body], state⟩ =
      ⟨.done outcome, [], last⟩) :
    Repeats (Evaluates condition) (Executes body) state outcome last := by
  induction fuel using Nat.strongRecOn generalizing state with
  | _ fuel ih =>
      have honto : run fuel (Config.onto ⟨.eval condition, [], state⟩ [.whileTest condition body]) =
          ⟨.done outcome, [], last⟩ := h
      obtain ⟨inner, tested, htest, less, hless, hrun⟩ := run_onto honto
      obtain ⟨less', hless', hrun⟩ := run_of_going rfl hrun
      rcases htest.of_eval with ⟨value, rfl⟩ | ⟨cause, rfl⟩
      · cases htruthy : value.truthy with
        | false =>
            simp only [step, Frame.resume, Frame.onValue, htruthy] at hrun
            obtain ⟨rfl, rfl⟩ := run_done hrun
            exact .finished htest htruthy
        | true =>
            simp only [step, Frame.resume, Frame.onValue, htruthy] at hrun
            have honto : run less'
                (Config.onto ⟨.exec body, [], tested⟩ [.whileBody condition body]) =
                  ⟨.done outcome, [], last⟩ := hrun
            obtain ⟨ending, passed, hpass, rest, hrest, hrun⟩ := run_onto honto
            obtain ⟨rest', hrest', hrun⟩ := run_of_going rfl hrun
            rcases hpass.of_exec with ⟨flow, rfl⟩ | ⟨cause, rfl⟩
            · cases flow with
              | normal => exact .again htest htruthy hpass (ih rest' (by omega) hrun)
              | broke =>
                  obtain ⟨rfl, rfl⟩ := run_done hrun
                  exact .broken htest htruthy hpass
              | returned =>
                  obtain ⟨rfl, rfl⟩ := run_done hrun
                  exact .returned htest htruthy hpass
            · obtain ⟨rfl, rfl⟩ := run_done hrun
              exact .failed htest htruthy hpass
      · obtain ⟨rfl, rfl⟩ := run_done hrun
        exact .untested htest

/-- A `while` loop evaluates its condition and executes its body in turn. -/
theorem executes_whileLoop : Executes (.whileLoop condition body) state outcome last ↔
    Repeats (Evaluates condition) (Executes body) state outcome last := by
  rw [ends_exec]
  constructor
  · intro h
    obtain ⟨fuel, hrun⟩ := ends_iff_run.mp h
    exact .of_run hrun
  · intro h
    have hpassed : ∀ {state tested last : State} {value : Value} {inner outcome : Outcome},
        Evaluates condition state (.value value) tested → value.truthy = true →
        (∃ middle, Executes body tested inner middle
          ∧ Ends (((Frame.whileBody condition body).resume inner middle).onto []) outcome last) →
        Ends ((execMove (.whileLoop condition body) state).onto []) outcome last := by
      rintro state tested last value inner outcome htest htruthy ⟨middle, hpass, hrest⟩
      refine ends_before.mpr ⟨_, _, htest, ?_⟩
      simp only [Frame.resume, Frame.onValue, htruthy, if_true]
      exact ends_before.mpr ⟨_, _, hpass, hrest⟩
    induction h with
    | finished htest hfalsy =>
        refine ends_before.mpr ⟨_, _, htest, ?_⟩
        simp only [Frame.resume, Frame.onValue, hfalsy]
        exact .rest
    | untested htest => exact ends_before.mpr ⟨_, _, htest, .rest⟩
    | again htest htruthy hpass _ ih => exact hpassed htest htruthy ⟨_, hpass, ih⟩
    | broken htest htruthy hpass => exact hpassed htest htruthy ⟨_, hpass, .rest⟩
    | returned htest htruthy hpass => exact hpassed htest htruthy ⟨_, hpass, .rest⟩
    | failed htest htruthy hpass => exact hpassed htest htruthy ⟨_, hpass, .rest⟩

end While

/-! ## `for` loops -/

namespace ForClauses

variable (clauses : ForClauses) (body : Stmt)

/-- The condition is evaluated in the scope of the loop. Where it is missing, it is true. -/
inductive Tests (scope : ScopeId) : State → Outcome → State → Prop
  | absent {state : State} :
      clauses.condition = none → Tests scope state (.value (.bool true)) state
  | present {condition : Expr} {state last : State} {outcome : Outcome} :
      clauses.condition = some condition → Evaluates condition (state.inScope scope) outcome last →
      Tests scope state outcome last

/-- The body is executed in the scope of the loop or, where there is an increment, in a new scope
inside it; after a normal end of the body the increment is evaluated there too, and whatever comes
of that, the scope of the loop is returned to. -/
inductive Passes (scope : ScopeId) : State → Outcome → State → Prop
  | plain {state last : State} {outcome : Outcome} :
      clauses.increment = none → Executes body (state.inScope scope) outcome last →
      Passes scope state outcome last
  | stopped {increment : Expr} {state last : State} {outcome : Outcome} :
      clauses.increment = some increment → Executes body (state.openIn scope) outcome last →
      outcome ≠ .flow .normal → Passes scope state outcome (last.inScope scope)
  | advanced {increment : Expr} {state middle last : State} {value : Value} :
      clauses.increment = some increment →
      Executes body (state.openIn scope) (.flow .normal) middle →
      Evaluates increment (middle.inScope state.store.scopes.size) (.value value) last →
      Passes scope state (.flow .normal) (last.inScope scope)
  | failed {increment : Expr} {state middle last : State} {cause : Fault} :
      clauses.increment = some increment →
      Executes body (state.openIn scope) (.flow .normal) middle →
      Evaluates increment (middle.inScope state.store.scopes.size) (.fault cause) last →
      Passes scope state (.fault cause) (last.inScope scope)

/-- The loop opens a scope inside the current one and runs the initializer in it, once. Then tests
and passes take turns. In the end the scope that was current before is current again. -/
inductive Runs : State → Outcome → State → Prop
  | uninitialized {state last : State} {outcome : Outcome} :
      clauses.initializer = none →
      Repeats (clauses.Tests state.store.scopes.size) (clauses.Passes body state.store.scopes.size)
        (state.openIn state.current) outcome last →
      Runs state outcome (last.inScope state.current)
  | initialized {initializer : Stmt} {state middle last : State} {outcome : Outcome} :
      clauses.initializer = some initializer →
      Executes initializer (state.openIn state.current) (.flow .normal) middle →
      Repeats (clauses.Tests state.store.scopes.size) (clauses.Passes body state.store.scopes.size)
        middle outcome last →
      Runs state outcome (last.inScope state.current)
  | stopped {initializer : Stmt} {state last : State} {outcome : Outcome} :
      clauses.initializer = some initializer →
      Executes initializer (state.openIn state.current) outcome last → outcome ≠ .flow .normal →
      Runs state outcome (last.inScope state.current)

/-- The condition that a loop is read with. -/
def test : Expr :=
  clauses.condition.getD (.literal (.bool true))

/-- The statement that a loop is read with in place of its body. -/
def pass : Stmt :=
  match clauses.increment with
  | none => body
  | some increment => .block [body, .expression increment]

theorem loop_eq : clauses.loop body =
    .block (clauses.initializer.toList ++ [.whileLoop clauses.test (clauses.pass body)]) :=
  rfl

variable {clauses body} {state last : State} {outcome : Outcome} {scope : ScopeId}

theorem evaluates_test (hscope : state.current = scope) :
    Evaluates clauses.test state outcome last ↔ clauses.Tests scope state outcome last := by
  cases hcondition : clauses.condition with
  | none =>
      rw [test, hcondition, Option.getD_none, evaluates_true]
      constructor
      · rintro ⟨rfl, rfl⟩
        exact .absent hcondition
      · intro h
        cases h with
        | absent => exact ⟨rfl, rfl⟩
        | present hsome =>
            rw [hcondition] at hsome
            cases hsome
  | some condition =>
      rw [test, hcondition, Option.getD_some]
      constructor
      · intro h
        exact .present hcondition ((State.inScope_eq_self hscope).symm ▸ h)
      · intro h
        cases h with
        | absent hnone =>
            rw [hcondition] at hnone
            cases hnone
        | present hsome h =>
            rw [hcondition] at hsome
            cases hsome
            exact State.inScope_eq_self hscope ▸ h

theorem executes_pass (hscope : state.current = scope) :
    Executes (clauses.pass body) state outcome last ↔
      clauses.Passes body scope state outcome last := by
  subst hscope
  cases hincrement : clauses.increment with
  | none =>
      rw [pass, hincrement]
      constructor
      · exact fun h => .plain hincrement h
      · intro h
        cases h with
        | plain _ h => exact h
        | stopped hsome | advanced hsome | failed hsome =>
            rw [hincrement] at hsome
            cases hsome
  | some increment =>
      -- The body leaves the new scope current, which is where the increment is evaluated.
      have hinner : ∀ {middle : State} {ending : Outcome},
          Executes body (state.openIn state.current) ending middle →
          middle.inScope state.store.scopes.size = middle :=
        fun h => State.inScope_eq_self h.current
      rw [pass, hincrement]
      simp only [executes_block, inTurn_pair, executes_expression]
      constructor
      · rintro ⟨inner, ⟨middle, hbody, ⟨rfl, value, hvalue⟩ | ⟨cause, rfl, hfault⟩⟩ |
          ⟨hbody, hstops⟩, rfl⟩
        · exact .advanced hincrement hbody ((hinner hbody).symm ▸ hvalue)
        · exact .failed hincrement hbody ((hinner hbody).symm ▸ hfault)
        · exact .stopped hincrement hbody hstops
      · intro h
        cases h with
        | plain hnone =>
            rw [hincrement] at hnone
            cases hnone
        | stopped _ hbody hstops => exact ⟨_, .inr ⟨hbody, hstops⟩, rfl⟩
        | @advanced increment' _ middle last value hsome hbody hvalue =>
            obtain rfl : increment = increment' := Option.some.inj (hincrement.symm.trans hsome)
            exact ⟨last, .inl ⟨middle, hbody, .inl ⟨rfl, value, hinner hbody ▸ hvalue⟩⟩, rfl⟩
        | @failed increment' _ middle last cause hsome hbody hfault =>
            obtain rfl : increment = increment' := Option.some.inj (hincrement.symm.trans hsome)
            exact ⟨last, .inl ⟨middle, hbody, .inr ⟨cause, rfl, hinner hbody ▸ hfault⟩⟩, rfl⟩

/-- The tests and passes of the `while` loop are those of the `for` loop, since each of them leaves
the scope of the loop current. -/
theorem executes_repeats (hscope : state.current = scope) :
    Executes (.whileLoop clauses.test (clauses.pass body)) state outcome last ↔
      Repeats (clauses.Tests scope) (clauses.Passes body scope) state outcome last := by
  rw [executes_whileLoop]
  constructor
  · intro h
    refine (h.mono (fun state => state.current = scope) ?_ ?_ hscope).1
    · exact fun hkeep htest => ⟨(evaluates_test hkeep).mp htest, htest.current.trans hkeep⟩
    · exact fun hkeep hpass => ⟨(executes_pass hkeep).mp hpass, hpass.current.trans hkeep⟩
  · intro h
    refine (h.mono (fun state => state.current = scope) ?_ ?_ hscope).1
    · intro _ _ _ hkeep htest
      have htest' := (evaluates_test hkeep).mpr htest
      exact ⟨htest', htest'.current.trans hkeep⟩
    · intro _ _ _ hkeep hpass
      have hpass' := (executes_pass hkeep).mpr hpass
      exact ⟨hpass', hpass'.current.trans hkeep⟩

/-- Executing the block that a `for` loop is read into does what the loop is meant to do. -/
theorem executes_loop : Executes (clauses.loop body) state outcome last ↔
    clauses.Runs body state outcome last := by
  rw [loop_eq, executes_block]
  cases hinitializer : clauses.initializer with
  | none =>
      simp only [Option.toList_none, List.nil_append, inTurn_singleton]
      constructor
      · rintro ⟨inner, hloop, rfl⟩
        exact .uninitialized hinitializer ((executes_repeats rfl).mp hloop)
      · intro h
        cases h with
        | uninitialized _ hloop => exact ⟨_, (executes_repeats rfl).mpr hloop, rfl⟩
        | initialized hsome | stopped hsome =>
            rw [hinitializer] at hsome
            cases hsome
  | some initializer =>
      simp only [Option.toList_some, List.singleton_append, inTurn_pair]
      constructor
      · rintro ⟨inner, ⟨middle, hfirst, hloop⟩ | ⟨hfirst, hstops⟩, rfl⟩
        · exact .initialized hinitializer hfirst ((executes_repeats hfirst.current).mp hloop)
        · exact .stopped hinitializer hfirst hstops
      · intro h
        cases h with
        | uninitialized hnone =>
            rw [hinitializer] at hnone
            cases hnone
        | @initialized initializer' _ middle last _ hsome hfirst hloop =>
            obtain rfl : initializer = initializer' :=
              Option.some.inj (hinitializer.symm.trans hsome)
            exact ⟨last, .inl ⟨middle, hfirst, (executes_repeats hfirst.current).mpr hloop⟩, rfl⟩
        | @stopped initializer' _ last _ hsome hfirst hstops =>
            obtain rfl : initializer = initializer' :=
              Option.some.inj (hinitializer.symm.trans hsome)
            exact ⟨last, .inr ⟨hfirst, hstops⟩, rfl⟩

end ForClauses

end ScopeScript
