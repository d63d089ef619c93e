import ScopeScript.Machine.Run
import ScopeScript.Proofs.Execution.Methods
import ScopeScript.Proofs.Scoping.Placement

/-!
# How statements end

A frame waits either for a value or for a statement to end, and where the statement stands says how
it may end. What a frame gives to the frame outside it follows from what it waits for. A machine
fits if its control gives what the innermost frame waits for and the bodies of all functions and
methods may stand in functions. Every step keeps a machine fitting, whatever the frames at the
bottom are, as long as it does not come to them.
-/

namespace ScopeScript

/-- A statement may end in such a way with a function, and maybe a loop of the same function,
around it. -/
def Flow.Allowed (context : FunctionContext) (inLoop : Bool) : Flow → Prop
  | .normal => True
  | .returned value => context ≠ .none ∧ (context = .initializer → value = .nil)
  | .broke => inLoop = true

/-- What a frame waits for, and what it gives. -/
inductive Expected where
  | value
  | flow (context : FunctionContext) (inLoop : Bool)

def Outcome.Meets : Outcome → Expected → Prop
  | .fault _, _ => True
  | .value _, .value => True
  | .flow ending, .flow context inLoop => ending.Allowed context inLoop
  | _, _ => False

def Control.Meets : Control → Expected → Prop
  | .done outcome, expected => outcome.Meets expected
  | .eval _, .value => True
  | .call _ _, .value => True
  | .exec stmt, .flow context inLoop => stmt.Placed context inLoop
  | _, _ => False

/-- The body of a function may stand in a function of some kind. -/
structure Closure.Runs {ε : Type} (closure : Closure ε) (context : FunctionContext) : Prop where
  inside : context ≠ .none
  initializer : closure.isInitializer → context = .initializer
  placed : ∀ stmt ∈ closure.declaration.body, stmt.Placed context false

/-- The bodies of all functions and methods may stand in functions. -/
structure Heap.Sound (heap : Heap ScopeId) : Prop where
  functions : ∀ closure ∈ heap.functions, ∃ context, closure.Runs context
  methods : ∀ cls ∈ heap.classes, ∀ name method, cls.methods.find? name = some method →
    ∃ context, method.Runs context

/-- What a frame waits for and what it gives. -/
inductive Frame.Links : Frame ScopeId → Expected → Expected → Prop
  | unary {operator} : Links (.unary operator) .value .value
  | binaryLeft {operator right} : Links (.binaryLeft operator right) .value .value
  | binaryRight {left operator} : Links (.binaryRight left operator) .value .value
  | logical {operator right} : Links (.logical operator right) .value .value
  | assign {id name} : Links (.assign id name) .value .value
  | callee {paren arguments} : Links (.callee paren arguments) .value .value
  | argument {called paren before after} : Links (.argument called paren before after) .value .value
  | get {name} : Links (.get name) .value .value
  | setObject {name expr} : Links (.setObject name expr) .value .value
  | setValue {object name} : Links (.setValue object name) .value .value
  | construct {object} : Links (.construct object) .value .value
  | discard {context inLoop} : Links .discard .value (.flow context inLoop)
  | print {context inLoop} : Links .print .value (.flow context inLoop)
  | declare {name mutable context inLoop} :
      Links (.declare name mutable) .value (.flow context inLoop)
  | returning {context inLoop} : context ≠ .none → context ≠ .initializer →
      Links .returning .value (.flow context inLoop)
  | branch {thenBranch elseBranch context inLoop} : thenBranch.Placed context inLoop →
      (∀ stmt ∈ elseBranch, stmt.Placed context inLoop) →
      Links (.branch thenBranch elseBranch) .value (.flow context inLoop)
  | whileTest {condition body context inLoop} : body.Placed context true →
      Links (.whileTest condition body) .value (.flow context inLoop)
  | whileBody {condition body context inLoop} : body.Placed context true →
      Links (.whileBody condition body) (.flow context true) (.flow context inLoop)
  | superclass {name expr methods context inLoop} : MethodsPlaced methods →
      Links (.superclass name expr methods) .value (.flow context inLoop)
  | block {rest outer context inLoop} : (∀ stmt ∈ rest, stmt.Placed context inLoop) →
      Links (.block rest outer) (.flow context inLoop) (.flow context inLoop)
  | activation {closure context} : closure.Runs context →
      Links (.activation closure) (.flow context false) .value
  | program {rest} : (∀ stmt ∈ rest, stmt.Placed .none false) →
      Links (.program rest) (.flow .none false) (.flow .none false)

/-- What frames wait for on their inside and what they give on their outside. -/
inductive Carries : Expected → List (Frame ScopeId) → Expected → Prop
  | nil {expected} : Carries expected [] expected
  | cons {frame frames inner middle outer} : frame.Links inner middle →
      Carries middle frames outer → Carries inner (frame :: frames) outer

theorem Carries.one {frame : Frame ScopeId} {inner outer : Expected} (h : frame.Links inner outer) :
    Carries inner [frame] outer :=
  .cons h .nil

theorem Carries.append {first second : List (Frame ScopeId)} {inner middle outer : Expected}
    (hfirst : Carries inner first middle) (hsecond : Carries middle second outer) :
    Carries inner (first ++ second) outer := by
  induction hfirst with
  | nil => exact hsecond
  | cons hlinks _ ih => exact .cons hlinks (ih hsecond)

/-! ## What the places allow -/

theorem Flow.Allowed.normal_of_program {flow : Flow} (h : flow.Allowed .none false) :
    flow = .normal := by
  cases flow with
  | normal => rfl
  | returned => exact absurd rfl h.1
  | broke => cases h

theorem Flow.Allowed.ne_broke {flow : Flow} {context : FunctionContext}
    (h : flow.Allowed context false) : flow ≠ .broke := by
  rintro rfl
  cases h

theorem Closure.Runs.initializer_ends {ε : Type} {closure : Closure ε} {context : FunctionContext}
    (h : closure.Runs context) {flow : Flow} (hflow : flow.Allowed context false)
    (hinitializer : closure.isInitializer) : flow = .normal ∨ flow = .returned .nil := by
  cases flow with
  | normal => exact .inl rfl
  | returned value =>
      rw [hflow.2 (h.initializer hinitializer)]
      exact .inr rfl
  | broke => cases hflow

/-! ## The bodies of functions and methods -/

namespace Heap.Sound

variable {heap : Heap ScopeId}

theorem addFunction (h : heap.Sound) {closure : Closure ScopeId} {context : FunctionContext}
    (hclosure : closure.Runs context) : (heap.addFunction closure).2.Sound := by
  refine ⟨?_, h.methods⟩
  intro other hother
  rcases Array.mem_push.mp hother with hold | rfl
  · exact h.functions other hold
  · exact ⟨context, hclosure⟩

theorem addClass (h : heap.Sound) {cls : Class ScopeId}
    (hmethods : ∀ name method, cls.methods.find? name = some method →
      ∃ context, method.Runs context) : (heap.addClass cls).2.Sound := by
  refine ⟨h.functions, ?_⟩
  intro other hother
  rcases Array.mem_push.mp hother with hold | rfl
  · exact h.methods other hold
  · exact hmethods

theorem declares (h : heap.Sound) {owner : ClassId} {cls : Class ScopeId}
    {method : Closure ScopeId} (hdeclares : heap.Declares owner cls method) :
    ∃ context, method.Runs context := by
  obtain ⟨name, hmethod⟩ := hdeclares.named
  exact h.methods cls (Array.mem_of_getElem? hdeclares.found) name method hmethod

theorem findMethod? (h : heap.Sound) {name : String} {id : ClassId} {method : Closure ScopeId}
    (hfind : heap.findMethod? id name = some method) : ∃ context, method.Runs context := by
  obtain ⟨_, _, -, hdeclares⟩ := Heap.findMethod?_declares hfind
  exact h.declares hdeclares

theorem property? (h : heap.Sound) {name : String} {id : InstanceId} {method : Closure ScopeId}
    (hfind : heap.property? id name = some (.method method)) : ∃ context, method.Runs context := by
  obtain ⟨_, _, -, hdeclares⟩ := Heap.property?_declares hfind
  exact h.declares hdeclares

end Heap.Sound

theorem Closure.Runs.withScope {closure : Closure ScopeId} {context : FunctionContext}
    (h : closure.Runs context) (scope : ScopeId) : { closure with scope }.Runs context :=
  ⟨h.inside, h.initializer, h.placed⟩

theorem methodTable_runs (scope : ScopeId) {methods : List (FunctionDecl Stmt)}
    (h : MethodsPlaced methods) (name : String) (closure : Closure ScopeId)
    (hfind : (methodTable scope methods).find? name = some closure) :
    ∃ context, closure.Runs context := by
  obtain ⟨declaration, hmem, rfl⟩ := find?_methodTable hfind
  refine ⟨Resolver.methodContext declaration, ?_, ?_, h declaration hmem⟩
  · unfold Resolver.methodContext
    split <;> decide
  · exact fun hinitializer => if_pos hinitializer

/-! ## Moves -/

/-- A move gives what is expected, and keeps the bodies of functions and methods sound. -/
def Move.Yields (move : Move) (expected : Expected) : Prop :=
  ∃ inner, move.control.Meets inner ∧ Carries inner move.push expected
    ∧ move.state.store.toHeap.Sound

section Moves

variable {state : State} (h : state.store.toHeap.Sound)

include h

theorem value_yields (value : Value) : Move.Yields (.value value state) .value :=
  ⟨.value, trivial, .nil, h⟩

theorem flow_yields {flow : Flow} {context : FunctionContext} {inLoop : Bool}
    (hflow : flow.Allowed context inLoop) : Move.Yields (.flow flow state) (.flow context inLoop) :=
  ⟨.flow context inLoop, hflow, .nil, h⟩

theorem normal_yields (context : FunctionContext) (inLoop : Bool) :
    Move.Yields (.normal state) (.flow context inLoop) :=
  flow_yields h trivial

theorem fault_yields (fault : Fault) (expected : Expected) :
    Move.Yields (.fault fault state) expected :=
  ⟨expected, trivial, .nil, h⟩

theorem fail_yields (token : Token) (cause : RuntimeCause) (expected : Expected) :
    Move.Yields (.fail token cause state) expected :=
  fault_yields h _ expected

theorem result_yields (result : Except RuntimeError Value) :
    Move.Yields (.result result state) .value := by
  cases result with
  | ok value => exact value_yields h value
  | error error => exact fault_yields h _ _

theorem eval_yields (expr : Expr) {push : List (Frame ScopeId)} {expected : Expected}
    (hpush : Carries .value push expected) : Move.Yields (.eval expr push state) expected :=
  ⟨.value, trivial, hpush, h⟩

theorem exec_yields {stmt : Stmt} {context : FunctionContext} {inLoop : Bool}
    {push : List (Frame ScopeId)} {expected : Expected} (hstmt : stmt.Placed context inLoop)
    (hpush : Carries (.flow context inLoop) push expected) :
    Move.Yields (.exec stmt push state) expected :=
  ⟨.flow context inLoop, hstmt, hpush, h⟩

theorem writeMove_yields (lines : List String) {outcome : Outcome} {expected : Expected}
    (houtcome : outcome.Meets expected) : (writeMove lines outcome state).Yields expected := by
  unfold writeMove State.writeLines
  cases state.sink.writeLines lines with
  | mk fault? sink =>
      cases fault? with
      | none => exact ⟨expected, houtcome, .nil, h⟩
      | some => exact ⟨expected, trivial, .nil, h⟩

theorem declareMove_yields (name : Token) (binding : Binding) (context : FunctionContext)
    (inLoop : Bool) : (declareMove name binding state).Yields (.flow context inLoop) := by
  unfold declareMove
  split
  next => exact fault_yields h _ _
  next => exact ⟨.flow context inLoop, trivial, .nil, h⟩

theorem assignMove_yields (id : NodeId) (name : Token) (value : Value) :
    (assignMove id name value state).Yields .value := by
  unfold assignMove
  split
  next => exact fault_yields h _ _
  next => exact ⟨.value, trivial, .nil, h⟩

theorem bindMethodValue_sound {method : Closure ScopeId} {context : FunctionContext}
    (hmethod : method.Runs context) (receiver : InstanceId) :
    (state.store.bindMethodValue method receiver).2.toHeap.Sound :=
  h.addFunction (hmethod.withScope _)

theorem getMove_yields (name : Token) (object : Value) :
    (getMove name object state).Yields .value := by
  unfold getMove
  split
  next =>
    split
    next => exact fail_yields h _ _ _
    next => exact value_yields h _
    next hmethod =>
      obtain ⟨context, hruns⟩ := h.property? hmethod
      exact ⟨.value, trivial, .nil, bindMethodValue_sound h hruns _⟩
  next => exact fail_yields h _ _ _

theorem superMove_yields (id : NodeId) (keyword name : Token) :
    (superMove id keyword name state).Yields .value := by
  unfold superMove
  split
  next => exact fail_yields h _ _ _
  next =>
    split
    next => exact fault_yields h _ _
    next =>
      split
      next => exact fault_yields h _ _
      next =>
        split
        next => exact fail_yields h _ _ _
        next hmethod =>
          obtain ⟨context, hruns⟩ := h.findMethod? hmethod
          exact ⟨.value, trivial, .nil, bindMethodValue_sound h hruns _⟩
      next => exact fail_yields h _ _ _
    next => exact fail_yields h _ _ _

theorem invokeMove_yields (callee : Value) (paren : Token) (arguments : List Value) :
    (invokeMove callee paren arguments state).Yields .value := by
  unfold invokeMove
  split
  next => exact fail_yields h _ _ _
  next =>
    split
    next => exact ⟨.value, trivial, .nil, h⟩
    next => exact fail_yields h _ _ _

/-- The body of a function runs in a block of its own, between the frames of the call. -/
theorem enterMove_yields {closure : Closure ScopeId} {context : FunctionContext}
    (hruns : closure.Runs context) (arguments : List Value) :
    (enterMove closure arguments state).Yields .value := by
  unfold enterMove
  dsimp only
  split
  next => exact fault_yields h _ _
  next =>
    exact ⟨.flow context false, trivial, .cons (.block hruns.placed) (.one (.activation hruns)), h⟩

theorem constructMove_yields (classId : ClassId) (arguments : List Value) :
    (constructMove classId arguments state).Yields .value := by
  have hadded : (state.store.addInstance classId).2.toHeap.Sound := ⟨h.functions, h.methods⟩
  unfold constructMove
  dsimp only
  split
  next => exact ⟨.value, trivial, .nil, hadded⟩
  next method hmethod =>
    obtain ⟨context, hruns⟩ := hadded.findMethod? hmethod
    let bound := (state.store.addInstance classId).2.bindMethod method
      (state.store.addInstance classId).1
    have henter : (enterMove bound.1 arguments { state with store := bound.2 }).Yields .value :=
      enterMove_yields hadded (hruns.withScope _) arguments
    obtain ⟨inner, hcontrol, hpush, hsound⟩ := henter
    exact ⟨inner, hcontrol, hpush.append (.one .construct), hsound⟩

theorem nativeMove_yields (behaviour : NativeBehaviour) (arguments : List Value) :
    (nativeMove behaviour arguments state).Yields .value := by
  cases behaviour with
  | clock => exact ⟨.value, trivial, .nil, h⟩
  | printLine => exact writeMove_yields h _ trivial
  | first => exact value_yields h _
  | count => exact value_yields h _
  | emit => exact writeMove_yields h _ trivial
  | fail => exact fail_yields h _ _ _
  | apply =>
      cases arguments with
      | nil => exact fail_yields h _ _ _
      | cons => exact ⟨.value, trivial, .nil, h⟩

theorem callMove_yields (callee : Value) (arguments : List Value) :
    (callMove callee arguments state).Yields .value := by
  unfold callMove
  split
  next =>
    split
    next => exact nativeMove_yields h _ arguments
    next => exact fail_yields h _ _ _
  next =>
    split
    next hclosure =>
      obtain ⟨context, hruns⟩ := h.functions _ (Array.mem_of_getElem? hclosure)
      exact enterMove_yields h hruns arguments
    next => exact fail_yields h _ _ _
  next => exact constructMove_yields h _ arguments
  next => exact fail_yields h _ _ _

theorem defineClass_yields (name : Token) (superclass : Option ClassId)
    {methods : List (FunctionDecl Stmt)} (hmethods : MethodsPlaced methods)
    (context : FunctionContext) (inLoop : Bool) :
    (defineClass name superclass methods state).Yields (.flow context inLoop) := by
  let scope := classScope superclass state
  have hscope : scope.2.toHeap.Sound := by cases superclass <;> exact h
  have hadded : (scope.2.addClass
      ⟨name.lexeme, superclass, methodTable scope.1 methods⟩).2.toHeap.Sound :=
    hscope.addClass (methodTable_runs scope.1 hmethods)
  unfold defineClass
  dsimp only
  split
  next => exact ⟨.flow context inLoop, trivial, .nil, hadded⟩
  next => exact ⟨.flow context inLoop, trivial, .nil, hadded⟩

theorem classMove_yields (name : Token) (superclass : Option ClassId)
    {methods : List (FunctionDecl Stmt)} (hmethods : MethodsPlaced methods)
    (context : FunctionContext) (inLoop : Bool) :
    (classMove name superclass methods state).Yields (.flow context inLoop) := by
  unfold classMove
  split
  next => exact fault_yields h _ _
  next =>
    refine defineClass_yields ?_ name superclass hmethods context inLoop
    exact h

theorem evalMove_yields (expr : Expr) : (evalMove expr state).Yields .value := by
  cases expr with
  | literal => exact value_yields h _
  | grouping inner => exact eval_yields h inner .nil
  | unary operator right => exact eval_yields h right (.one .unary)
  | binary left operator right => exact eval_yields h left (.one .binaryLeft)
  | logical left operator right => exact eval_yields h left (.one .logical)
  | «variable» => exact result_yields h _
  | assign id name value => exact eval_yields h value (.one .assign)
  | call callee paren arguments => exact eval_yields h callee (.one .callee)
  | get object name => exact eval_yields h object (.one .get)
  | set object name value => exact eval_yields h object (.one .setObject)
  | superExpr => exact superMove_yields h _ _ _
  | thisExpr => exact result_yields h _

theorem execMove_yields {stmt : Stmt} {context : FunctionContext} {inLoop : Bool}
    (hstmt : stmt.Placed context inLoop) :
    (execMove stmt state).Yields (.flow context inLoop) := by
  cases hstmt with
  | expression => exact eval_yields h _ (.one .discard)
  | print => exact eval_yields h _ (.one .print)
  | @varDecl _ _ name initializer =>
      cases initializer with
      | none => exact declareMove_yields h name _ context inLoop
      | some value => exact eval_yields h value (.one .declare)
  | letDecl => exact eval_yields h _ (.one .declare)
  | block hbody => exact ⟨.flow context inLoop, trivial, .one (.block hbody), h⟩
  | ifElse hthen helse => exact eval_yields h _ (.one (.branch hthen helse))
  | whileLoop hbody => exact eval_yields h _ (.one (.whileTest hbody))
  | @function _ _ declaration hbody =>
      have hruns : Closure.Runs ⟨declaration, state.current, false⟩ .function :=
        ⟨by decide, nofun, hbody⟩
      exact declareMove_yields (h.addFunction hruns) declaration.name _ context inLoop
  | @returnStmt _ _ keyword value hfunction hvalue =>
      cases value with
      | none => exact flow_yields h ⟨hfunction, fun _ => rfl⟩
      | some value =>
          have hplain : context ≠ .initializer := fun hinitializer => nomatch hvalue hinitializer
          exact eval_yields h value (.one (.returning hfunction hplain))
  | breakStmt => exact flow_yields h rfl
  | @classDecl _ _ name superclass methods hmethods =>
      cases superclass with
      | none => exact classMove_yields h name none hmethods context inLoop
      | some superclass => exact eval_yields h superclass (.one (.superclass hmethods))

theorem nextArgument_yields (called : Value) (paren : Token) (before : List Value)
    (after : List Expr) : (Frame.nextArgument called paren before after state).Yields .value := by
  cases after with
  | nil => exact invokeMove_yields h called paren before
  | cons next rest => exact eval_yields h next (.one .argument)

theorem onValue_yields {frame : Frame ScopeId} {expected : Expected}
    (hlinks : frame.Links .value expected) (value : Value) :
    (frame.onValue value state).Yields expected := by
  cases hlinks with
  | unary => exact result_yields h _
  | binaryLeft => exact eval_yields h _ (.one .binaryRight)
  | binaryRight => exact result_yields h _
  | logical =>
      simp only [Frame.onValue]
      split
      next => exact value_yields h value
      next => exact eval_yields h _ .nil
  | assign => exact assignMove_yields h _ _ value
  | callee => exact nextArgument_yields h value _ [] _
  | argument => exact nextArgument_yields h _ _ _ _
  | get => exact getMove_yields h _ value
  | setObject =>
      cases value with
      | object id => exact eval_yields h _ (.one .setValue)
      | nil | bool | number | string | native | function | cls => exact fail_yields h _ _ _
  | setValue => exact ⟨.value, trivial, .nil, h.functions, h.methods⟩
  | construct => exact value_yields h _
  | discard => exact normal_yields h _ _
  | print => exact writeMove_yields h _ trivial
  | declare => exact declareMove_yields h _ _ _ _
  | returning hfunction hplain =>
      exact flow_yields h ⟨hfunction, fun hinitializer => absurd hinitializer hplain⟩
  | @branch thenBranch elseBranch _ _ hthen helse =>
      simp only [Frame.onValue]
      split
      next => exact exec_yields h hthen .nil
      next =>
        cases elseBranch with
        | none => exact normal_yields h _ _
        | some elseBranch => exact exec_yields h (helse elseBranch rfl) .nil
  | whileTest hbody =>
      simp only [Frame.onValue]
      split
      next => exact exec_yields h hbody (.one (.whileBody hbody))
      next => exact normal_yields h _ _
  | superclass hmethods =>
      cases value with
      | cls id => exact classMove_yields h _ (some id) hmethods _ _
      | nil | bool | number | string | native | function | object => exact fail_yields h _ _ _

theorem onFlow_yields {frame : Frame ScopeId} {context : FunctionContext} {inLoop : Bool}
    {expected : Expected} (hlinks : frame.Links (.flow context inLoop) expected) {flow : Flow}
    (hflow : flow.Allowed context inLoop) : (frame.onFlow flow state).Yields expected := by
  cases hlinks with
  | whileBody hbody =>
      -- The loop takes a `break` for itself and passes a `return` on.
      cases flow with
      | normal => exact eval_yields h _ (.one (.whileTest hbody))
      | broke => exact normal_yields h _ _
      | returned value => exact flow_yields h hflow
  | @block rest outer _ _ hrest =>
      cases flow with
      | normal =>
          cases rest with
          | nil => exact ⟨.flow context inLoop, trivial, .nil, h⟩
          | cons stmt rest =>
              exact exec_yields h (hrest stmt List.mem_cons_self)
                (.one (.block fun later hlater => hrest later (List.mem_cons_of_mem _ hlater)))
      | broke | returned => exact ⟨.flow context inLoop, hflow, .nil, h⟩
  | activation =>
      simp only [Frame.onFlow]
      split
      next => exact result_yields h _
      next => cases flow <;> exact value_yields h _
  | @program rest hrest =>
      cases rest with
      | nil => exact normal_yields h _ _
      | cons stmt rest =>
          exact exec_yields h (hrest stmt List.mem_cons_self)
            (.one (.program fun later hlater => hrest later (List.mem_cons_of_mem _ hlater)))

theorem pass_yields (frame : Frame ScopeId) (fault : Fault) (expected : Expected) :
    (frame.pass (.fault fault) state).Yields expected := by
  refine ⟨expected, trivial, .nil, ?_⟩
  cases frame <;> exact h

theorem resume_yields {frame : Frame ScopeId} {inner expected : Expected}
    (hlinks : frame.Links inner expected) {outcome : Outcome} (houtcome : outcome.Meets inner) :
    (frame.resume outcome state).Yields expected := by
  cases outcome with
  | fault fault => exact pass_yields h frame fault expected
  | value value =>
      cases inner with
      | value => exact onValue_yields h hlinks value
      | flow => cases houtcome
  | flow flow =>
      cases inner with
      | value => cases houtcome
      | flow context inLoop => exact onFlow_yields h hlinks houtcome

end Moves

/-! ## Steps -/

/-- Everything above some frames is done. -/
def Config.RestsOn (config : Config) (frames : List (Frame ScopeId)) : Prop :=
  ∃ outcome state, config = ⟨.done outcome, frames, state⟩

/-- A machine works on something above some frames and will give them what is expected. -/
def Config.Fits (config : Config) (base : List (Frame ScopeId)) (expected : Expected) : Prop :=
  ∃ upper inner, config.frames = upper ++ base ∧ Carries inner upper expected
    ∧ config.control.Meets inner ∧ config.state.store.toHeap.Sound

theorem Move.Yields.fits {move : Move} {inner expected : Expected}
    {upper base : List (Frame ScopeId)} (h : move.Yields inner)
    (hupper : Carries inner upper expected) :
    Config.Fits (move.onto (upper ++ base)) base expected := by
  obtain ⟨middle, hcontrol, hpush, hsound⟩ := h
  exact ⟨move.push ++ upper, middle, (List.append_assoc ..).symm, hpush.append hupper, hcontrol,
    hsound⟩

/-- Work that is not at its end goes on to give what is expected. -/
theorem Config.Fits.step {config : Config} {base : List (Frame ScopeId)} {expected : Expected}
    (h : config.Fits base expected) (hgoing : ¬ config.RestsOn base) :
    (step config).Fits base expected := by
  obtain ⟨control, frames, state⟩ := config
  obtain ⟨upper, inner, rfl, hupper, hcontrol, hsound⟩ := h
  cases control with
  | eval expr =>
      cases inner with
      | value => exact (evalMove_yields hsound expr).fits hupper
      | flow => cases hcontrol
  | exec stmt =>
      cases inner with
      | value => cases hcontrol
      | flow => exact (execMove_yields hsound hcontrol).fits hupper
  | call callee arguments =>
      cases inner with
      | value => exact (callMove_yields hsound callee arguments).fits hupper
      | flow => cases hcontrol
  | done outcome =>
      cases hupper with
      | nil => exact absurd ⟨outcome, state, rfl⟩ hgoing
      | cons hlinks hrest => exact (resume_yields hsound hlinks hcontrol).fits hrest

/-- At its end, the work gives what is expected. -/
theorem Config.Fits.outcome {outcome : Outcome} {base : List (Frame ScopeId)} {state : State}
    {expected : Expected} (h : Config.Fits ⟨.done outcome, base, state⟩ base expected) :
    outcome.Meets expected := by
  obtain ⟨upper, inner, hframes, hupper, hcontrol, -⟩ := h
  obtain rfl : upper = [] := List.self_eq_append_left.mp hframes
  cases hupper with
  | nil => exact hcontrol

/-- Steps lead to the first configuration in which everything above some frames is done. -/
inductive Finishes (base : List (Frame ScopeId)) : Config → Outcome → State → Prop
  | rest {outcome state} : Finishes base ⟨.done outcome, base, state⟩ outcome state
  | step {config outcome state} : ¬ config.RestsOn base →
      Finishes base (step config) outcome state → Finishes base config outcome state

/-- Whatever work it is, it ends as expected. -/
theorem Finishes.meets {base : List (Frame ScopeId)} {config : Config} {outcome : Outcome}
    {state : State} {expected : Expected} (h : Finishes base config outcome state)
    (hfits : config.Fits base expected) : outcome.Meets expected := by
  induction h with
  | rest => exact hfits.outcome
  | step hgoing _ ih => exact ih (hfits.step hgoing)

end ScopeScript
