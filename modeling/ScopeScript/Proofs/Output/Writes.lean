import ScopeScript.Machine.Run

/-!
# What a run writes

Output is a sequence of writes: a line is its text, unless that is empty, and then the line break.
Two kinds of step write at all, and what they write does not depend on the sink. Every other step
does the same whatever the sink is, and leaves it alone. So the writes that a run attempts are those
of its steps, and a sink without a limit ends up with all of them.
-/

namespace ScopeScript

/-- The writes that a line takes. -/
def lineWrites (text : String) : List String :=
  if text.isEmpty then ["\n"] else [text, "\n"]

namespace Sink

variable (sink : Sink)

/-- Write texts until one fails. -/
def writeAll (sink : Sink) : List String → Option SinkFault × Sink
  | [] => (none, sink)
  | text :: rest =>
    match sink.write text with
    | (none, sink) => sink.writeAll rest
    | failed => failed

/-- The texts whose writing is attempted: none behind the first that does not fit. -/
def attempts (sink : Sink) : List String → List String
  | [] => []
  | text :: rest => text :: if sink.fits text then (sink.store text).attempts rest else []

theorem store_empty : sink.store "" = sink := by
  simp [store]

theorem store_store (a b : String) : (sink.store a).store b = sink.store (a ++ b) := by
  simp [store, String.append_assoc]

theorem writeAll_append (first second : List String) :
    sink.writeAll (first ++ second) =
      match sink.writeAll first with
      | (none, sink) => sink.writeAll second
      | failed => failed := by
  induction first generalizing sink with
  | nil => rfl
  | cons text rest ih =>
      simp only [List.cons_append, writeAll, write]
      split
      next => exact ih _
      next => simp_all

theorem writeLine_eq (text : String) : sink.writeLine text = sink.writeAll (lineWrites text) := by
  unfold writeLine lineWrites
  split
  next =>
    simp only [writeAll]
    cases sink.write "\n" with
    | mk fault? sink' => cases fault? <;> rfl
  next =>
    simp only [writeAll]
    cases sink.write text with
    | mk fault? sink' =>
        cases fault? with
        | none =>
            dsimp only
            cases sink'.write "\n" with
            | mk fault? sink'' => cases fault? <;> rfl
        | some => rfl

/-- Lines are written by their writes. -/
theorem writeLines_eq (lines : List String) :
    sink.writeLines lines = sink.writeAll (lines.flatMap lineWrites) := by
  induction lines generalizing sink with
  | nil => rfl
  | cons text rest ih =>
      rw [writeLines, writeLine_eq, List.flatMap_cons, writeAll_append]
      cases sink.writeAll (lineWrites text) with
      | mk fault? sink' =>
          cases fault? with
          | none => exact ih sink'
          | some => rfl

/-- Two texts fit together if the first fits and then the second. -/
theorem fits_append (a b : String) :
    sink.fits (a ++ b) = true ↔ sink.fits a = true ∧ (sink.store a).fits b = true := by
  unfold fits store
  cases sink.limit with
  | none => simp
  | some limit =>
      simp only [String.utf8ByteSize_append, decide_eq_true_eq]
      omega

/-- What fits is stored as a whole. -/
theorem writeAll_of_fits {texts : List String} (h : sink.fits (String.join texts)) :
    sink.writeAll texts = (none, sink.store (String.join texts)) ∧ sink.attempts texts = texts := by
  induction texts generalizing sink with
  | nil => simp [writeAll, attempts, store, String.join_nil]
  | cons text rest ih =>
      rw [String.join_cons, fits_append] at h
      obtain ⟨hwrite, hattempts⟩ := ih _ h.2
      refine ⟨?_, ?_⟩
      · rw [writeAll, write, if_pos h.1, String.join_cons, ← store_store]
        exact hwrite
      · rw [attempts, if_pos h.1, hattempts]

/-- What does not fit is stored up to the first text that does not fit, and nothing behind that is
attempted. -/
theorem writeAll_of_not_fits {texts : List String} (hroom : sink.fits "")
    (h : ¬ sink.fits (String.join texts)) :
    ∃ before text after, texts = before ++ text :: after
      ∧ sink.fits (String.join before) ∧ ¬ (sink.store (String.join before)).fits text
      ∧ sink.writeAll texts = (some .full, sink.store (String.join before))
      ∧ sink.attempts texts = before ++ [text] := by
  induction texts generalizing sink with
  | nil => exact absurd hroom h
  | cons text rest ih =>
      rw [String.join_cons, fits_append] at h
      by_cases hfirst : sink.fits text
      · have hroom' : (sink.store text).fits "" := ((sink.fits_append text "").mp (by simpa)).2
        obtain ⟨before, next, after, rfl, hbefore, hnext, hwrite, hattempts⟩ :=
          ih _ hroom' fun hrest => h ⟨hfirst, hrest⟩
        refine ⟨text :: before, next, after, rfl, ?_, ?_, ?_, ?_⟩
        · rw [String.join_cons, fits_append]
          exact ⟨hfirst, hbefore⟩
        · rw [String.join_cons, ← store_store]
          exact hnext
        · rw [writeAll, write, if_pos hfirst, String.join_cons, ← store_store]
          exact hwrite
        · rw [attempts, if_pos hfirst, hattempts]
          rfl
      · refine ⟨[], text, rest, rfl, hroom, ?_, ?_, ?_⟩
        · rw [String.join_nil, store_empty]
          exact hfirst
        · rw [writeAll, write, if_neg hfirst, String.join_nil, store_empty]
        · rw [attempts, if_neg hfirst]
          rfl

end Sink

/-! ## The writes of a step -/

/-- The state with another sink. -/
def State.withSink (state : State) (sink : Sink) : State :=
  { state with sink }

/-- The move that ends in a state with another sink. -/
def Move.withSink (move : Move) (sink : Sink) : Move :=
  { move with state := move.state.withSink sink }

/-- The configuration with another sink. -/
def Config.withSink (config : Config) (sink : Sink) : Config :=
  { config with state := config.state.withSink sink }

/-- What a step writes, how the work ends if all of it can be written, and the frames that wait. -/
structure Writing where
  lines : List String
  outcome : Outcome
  frames : List (Frame ScopeId)

/-- The lines that a native function writes, if it is one that writes. -/
def NativeBehaviour.lines? (behaviour : NativeBehaviour) (arguments : List Value) (store : Store) :
    Option (List String) :=
  match behaviour with
  | .printLine => some [store.display (arguments.headD .nil)]
  | .emit => some (arguments.map store.display)
  | _ => none

/-- What the next step writes, if it is one that writes. -/
def Config.writes? (config : Config) : Option Writing :=
  match config.control, config.frames with
  | .done (.value value), .print :: frames =>
    some ⟨[config.state.store.display value], .flow .normal, frames⟩
  | .call (.native id) arguments, frames =>
    match config.state.store.natives[id]? with
    | some native =>
      (native.behaviour.lines? arguments config.state.store).map (⟨·, .value .nil, frames⟩)
    | none => none
  | _, _ => none

/-- The writes that the next step attempts. -/
def Config.attempts (config : Config) : List String :=
  match config.writes? with
  | some writing => config.state.sink.attempts (writing.lines.flatMap lineWrites)
  | none => []

/-- The writes that a run attempts. -/
def attempted : Nat → Config → List String
  | 0, _ => []
  | fuel + 1, config =>
    if config.isDone then [] else config.attempts ++ attempted fuel (step config)

/-- A step that writes is nothing else than its writing. -/
theorem step_writes {config : Config} {writing : Writing} (h : config.writes? = some writing) :
    step config =
      (writeMove writing.lines writing.outcome config.state).onto writing.frames := by
  obtain ⟨control, frames, state⟩ := config
  unfold Config.writes? at h
  dsimp only at h
  split at h
  next value frames =>
    cases h
    rfl
  next _ id arguments =>
    split at h
    next native hnative =>
      obtain ⟨lines, hlines, rfl⟩ := Option.map_eq_some_iff.mp h
      have hcall : callMove (.native id) arguments state =
          nativeMove native.behaviour arguments state := by
        simp only [callMove, hnative]
      rw [step, hcall]
      cases hbehaviour : native.behaviour with
      | printLine =>
          rw [hbehaviour] at hlines
          cases hlines
          rfl
      | emit =>
          rw [hbehaviour] at hlines
          cases hlines
          rfl
      | clock | first | count | fail | apply =>
          rw [hbehaviour] at hlines
          cases hlines
    next => cases h
  next => cases h

/-- A move does the same whatever the sink is. -/
def Silent (move : State → Move) : Prop :=
  ∀ state sink, move (state.withSink sink) = (move state).withSink sink

theorem result_silent (result : State → Except RuntimeError Value)
    (h : ∀ state sink, result (state.withSink sink) = result state) :
    Silent fun state => .result (result state) state := by
  intro state sink
  simp only [h]
  cases result state <;> rfl

theorem declareMove_silent (name : Token) (binding : Binding) :
    Silent (declareMove name binding) := by
  intro state sink
  simp only [declareMove, State.withSink]
  split <;> rfl

theorem assignMove_silent (id : NodeId) (name : Token) (value : Value) :
    Silent (assignMove id name value) := by
  intro state sink
  have htarget : (state.withSink sink).assignTarget id name = state.assignTarget id name := rfl
  simp only [assignMove, htarget]
  split <;> rfl

theorem getMove_silent (name : Token) (object : Value) : Silent (getMove name object) := by
  intro state sink
  simp only [getMove, State.withSink]
  split
  next => split <;> rfl
  next => rfl

theorem superMove_silent (id : NodeId) (keyword name : Token) :
    Silent (superMove id keyword name) := by
  intro state sink
  simp only [superMove, State.withSink]
  split
  next => rfl
  next =>
    split
    next => rfl
    next =>
      split
      next => rfl
      next => split <;> rfl
      next => rfl
    next => rfl

theorem invokeMove_silent (callee : Value) (paren : Token) (arguments : List Value) :
    Silent (invokeMove callee paren arguments) := by
  intro state sink
  simp only [invokeMove, State.withSink]
  split
  next => rfl
  next => split <;> rfl

theorem enterMove_silent (closure : Closure ScopeId) (arguments : List Value) :
    Silent (enterMove closure arguments) := by
  intro state sink
  simp only [enterMove]
  split <;> rfl

theorem constructMove_silent (classId : ClassId) (arguments : List Value) :
    Silent (constructMove classId arguments) := by
  intro state sink
  simp only [constructMove, State.withSink]
  split
  next => rfl
  next initializer _ =>
    have henter := enterMove_silent
      ((state.store.addInstance classId).2.bindMethod initializer
        (state.store.addInstance classId).1).1 arguments
      { state with store := ((state.store.addInstance classId).2.bindMethod initializer
        (state.store.addInstance classId).1).2 } sink
    simp only [State.withSink] at henter
    rw [henter]
    rfl

theorem nativeMove_silent {behaviour : NativeBehaviour} {arguments : List Value} {store : Store}
    (h : behaviour.lines? arguments store = none) : Silent (nativeMove behaviour arguments) := by
  intro state sink
  cases behaviour with
  | printLine | emit => cases h
  | apply => cases arguments <;> rfl
  | clock | first | count | fail => rfl

theorem classMove_silent (name : Token) (superclass : Option ClassId)
    (methods : List (FunctionDecl Stmt)) : Silent (classMove name superclass methods) := by
  intro state sink
  simp only [classMove, State.withSink]
  split
  next => rfl
  next =>
    cases superclass with
    | none =>
        simp only [defineClass, classScope]
        split <;> rfl
    | some superclass =>
        simp only [defineClass, classScope]
        split <;> rfl

theorem evalMove_silent (expr : Expr) : Silent (evalMove expr) := by
  cases expr with
  | «variable» => exact result_silent _ fun _ _ => rfl
  | thisExpr => exact result_silent _ fun _ _ => rfl
  | superExpr => exact superMove_silent _ _ _
  | literal | unary | binary | logical | grouping | assign | call | get | set =>
      exact fun _ _ => rfl

theorem execMove_silent (stmt : Stmt) : Silent (execMove stmt) := by
  cases stmt with
  | varDecl name initializer =>
      cases initializer with
      | none => exact declareMove_silent name _
      | some => exact fun _ _ => rfl
  | function declaration =>
      intro state sink
      let made := state.store.addFunction ⟨declaration, state.current, false⟩
      exact declareMove_silent declaration.name ⟨.function made.1, true⟩
        { state with store := made.2 } sink
  | returnStmt keyword value => cases value <;> exact fun _ _ => rfl
  | classDecl name superclass methods =>
      cases superclass with
      | none => exact classMove_silent name none methods
      | some => exact fun _ _ => rfl
  | expression | print | letDecl | block | ifElse | whileLoop | breakStmt => exact fun _ _ => rfl

theorem nextArgument_silent (callee : Value) (paren : Token) (before : List Value)
    (after : List Expr) : Silent (Frame.nextArgument callee paren before after) := by
  cases after with
  | nil => exact invokeMove_silent callee paren before
  | cons => exact fun _ _ => rfl

theorem onValue_silent {frame : Frame ScopeId} (h : frame ≠ .print) (value : Value) :
    Silent (frame.onValue value) := by
  cases frame with
  | print => exact absurd rfl h
  | unary => exact result_silent _ fun _ _ => rfl
  | binaryRight => exact result_silent _ fun _ _ => rfl
  | logical operator right =>
      intro state sink
      simp only [Frame.onValue]
      split <;> rfl
  | assign id name => exact assignMove_silent id name value
  | callee paren arguments => exact nextArgument_silent value paren [] arguments
  | argument called paren before after => exact nextArgument_silent called paren _ after
  | get name => exact getMove_silent name value
  | setObject => cases value <;> exact fun _ _ => rfl
  | declare name => exact declareMove_silent name _
  | branch thenBranch elseBranch =>
      intro state sink
      simp only [Frame.onValue]
      split
      next => rfl
      next => cases elseBranch <;> rfl
  | whileTest =>
      intro state sink
      simp only [Frame.onValue]
      split <;> rfl
  | superclass name expr methods =>
      cases value with
      | cls id => exact classMove_silent name (some id) methods
      | nil | bool | number | string | native | function | object => exact fun _ _ => rfl
  | binaryLeft | setValue | discard | returning | construct | block | whileBody | activation
  | program => exact fun _ _ => rfl

theorem onFlow_silent (frame : Frame ScopeId) (flow : Flow) : Silent (frame.onFlow flow) := by
  cases frame with
  | whileBody => cases flow <;> exact fun _ _ => rfl
  | block rest outer => cases flow <;> cases rest <;> exact fun _ _ => rfl
  | program rest => cases rest <;> exact fun _ _ => rfl
  | activation closure =>
      intro state sink
      simp only [Frame.onFlow]
      split
      next =>
        exact result_silent (fun state => state.store.getAt closure.scope 0
          (thisToken closure.declaration.name.line)) (fun _ _ => rfl) state sink
      next => cases flow <;> rfl
  | _ => exact fun _ _ => rfl

theorem callMove_silent {callee : Value} {arguments : List Value} {state : State}
    {frames : List (Frame ScopeId)}
    (h : Config.writes? ⟨.call callee arguments, frames, state⟩ = none) (sink : Sink) :
    callMove callee arguments (state.withSink sink) =
      (callMove callee arguments state).withSink sink := by
  cases callee with
  | native id =>
      simp only [callMove, State.withSink]
      cases hnative : state.store.natives[id]? with
      | none => rfl
      | some native =>
          simp only [Config.writes?, hnative, Option.map_eq_none_iff] at h
          exact nativeMove_silent h state sink
  | function id =>
      simp only [callMove, State.withSink]
      split
      next => exact enterMove_silent _ arguments state sink
      next => rfl
  | cls id => exact constructMove_silent id arguments state sink
  | nil | bool | number | string | object => rfl

/-- A step that does not write does the same whatever the sink is, and leaves it alone. -/
theorem step_silent {config : Config} (h : config.writes? = none) (sink : Sink) :
    step (config.withSink sink) = (step config).withSink sink := by
  obtain ⟨control, frames, state⟩ := config
  cases control with
  | eval expr => exact congrArg (·.onto frames) (evalMove_silent expr state sink)
  | exec stmt => exact congrArg (·.onto frames) (execMove_silent stmt state sink)
  | call callee arguments => exact congrArg (·.onto frames) (callMove_silent h sink)
  | done outcome =>
      cases frames with
      | nil => rfl
      | cons frame frames =>
          cases outcome with
          | value value =>
              have hframe : frame ≠ .print := by
                rintro rfl
                cases h
              exact congrArg (·.onto frames) (onValue_silent hframe value state sink)
          | flow flow => exact congrArg (·.onto frames) (onFlow_silent frame flow state sink)
          | fault => cases frame <;> rfl

end ScopeScript
