import ScopeScript.Proofs.Execution.Regular
import ScopeScript.Proofs.Parsing.Origins
import ScopeScript.Session

/-!
# Where the tokens of runtime errors come from

A step takes the tokens that it reports from the code at hand, from the frames and from the
functions and classes in the store, so whatever holds of those holds of every token that a run
reports. There are three exceptions. `super` and the end of an initializer look up `this` under a
token that no code holds, and a native function reports at a token of its own. They make no
difference as long as the receiver is there and the natives are the built-in ones.
-/

namespace ScopeScript

/-! ## Errors of lookups and operators -/

section Errors

variable {store : Store} {name : Token} {error : RuntimeError}

theorem Store.getHere_error {id : ScopeId} (h : store.getHere id name = .error error) :
    error = ⟨name, .undefinedVariable name.lexeme⟩ := by
  unfold getHere at h
  split at h
  next => cases h
  next =>
    cases h
    rfl

theorem Store.get_error {id : ScopeId} (h : store.get id name = .error error) :
    error = ⟨name, .undefinedVariable name.lexeme⟩ := by
  unfold get at h
  split at h
  next => exact getHere_error h
  next =>
    cases h
    rfl

theorem Store.checkDeclare_error {id : ScopeId} (h : store.checkDeclare id name = some error) :
    error.token = name := by
  unfold checkDeclare at h
  split at h
  next =>
    cases h
    rfl
  next => cases h

theorem Store.checkAssign_error {id : ScopeId} (h : store.checkAssign id name = some error) :
    error.token = name := by
  unfold checkAssign at h
  split at h
  next =>
    cases h
    rfl
  next =>
    split at h
    next => cases h
    next =>
      cases h
      rfl

theorem Store.assignTarget_error {id : ScopeId} (h : store.assignTarget id name = .error error) :
    error.token = name := by
  unfold assignTarget at h
  split at h
  next =>
    cases h
    rfl
  next =>
    split at h
    next hcheck =>
      cases h
      exact checkAssign_error hcheck
    next => cases h

theorem Store.assignTargetAt_error {id : ScopeId} {distance : Nat}
    (h : store.assignTargetAt id distance name = .error error) : error.token = name := by
  unfold assignTargetAt at h
  dsimp only at h
  split at h
  next hcheck =>
    cases h
    exact checkAssign_error hcheck
  next => cases h

theorem State.lookUp_error {state : State} {id : NodeId} (h : state.lookUp id name = .error error) :
    error = ⟨name, .undefinedVariable name.lexeme⟩ := by
  unfold lookUp at h
  split at h
  next => exact Store.getHere_error h
  next => exact Store.get_error h

theorem State.assignTarget_error {state : State} {id : NodeId}
    (h : state.assignTarget id name = .error error) : error.token = name := by
  unfold assignTarget at h
  split at h
  next => exact Store.assignTargetAt_error h
  next => exact Store.assignTarget_error h

theorem Scope.declareAll_error {pairs : List (Token × Value)} {scope : Scope}
    (h : scope.declareAll pairs = .error error) : error.token ∈ pairs.map Prod.fst := by
  induction pairs generalizing scope with
  | nil => cases h
  | cons pair rest ih =>
      obtain ⟨name, value⟩ := pair
      rw [Scope.declareAll] at h
      split at h
      next =>
        cases h
        exact List.mem_cons_self
      next => exact List.mem_cons_of_mem _ (ih h)

theorem applyUnary_token {operator : Token} {right : Value}
    (h : applyUnary operator right = .error error) : error.token = operator := by
  unfold applyUnary at h
  split at h
  next =>
    split at h
    next => cases h
    next =>
      cases h
      rfl
  next => cases h
  next =>
    cases h
    rfl

theorem applyArithmetic_token {operator : Token} {a b : Float}
    (h : applyArithmetic operator a b = .error error) : error.token = operator := by
  unfold applyArithmetic at h
  split at h
  all_goals cases h
  rfl

theorem applyBinary_token {heap : Heap ScopeId} {left right : Value} {operator : Token}
    (h : applyBinary heap left operator right = .error error) : error.token = operator := by
  unfold applyBinary at h
  split at h
  next => split at h <;> cases h
  next => cases h
  next => cases h
  next =>
    split at h
    next => exact applyArithmetic_token h
    next =>
      cases h
      rfl

end Errors

/-! ## Configurations -/

section Configurations

variable (p : Token → Prop)

/-- A property holds of every token in work, and of the one at which it has stopped. -/
def Control.From : Control → Prop
  | .eval expr => expr.From p
  | .exec stmt => stmt.From p
  | .done (.fault (.runtime error)) => p error.token
  | _ => True

/-- A property holds of every token in a frame. -/
def Frame.From {ε : Type} : Frame ε → Prop
  | .unary operator | .binaryRight _ operator => p operator
  | .binaryLeft operator right | .logical operator right => p operator ∧ right.From p
  | .assign _ name | .get name | .setValue _ name | .declare name _ => p name
  | .callee paren arguments => p paren ∧ Expr.FromAll p arguments
  | .argument _ paren _ after => p paren ∧ Expr.FromAll p after
  | .setObject name value => p name ∧ value.From p
  | .branch thenBranch elseBranch =>
    thenBranch.From p ∧ ∀ stmt ∈ elseBranch, Stmt.From p stmt
  | .whileTest condition body | .whileBody condition body => condition.From p ∧ body.From p
  | .superclass name expr methods => p name ∧ expr.From p ∧ FunctionDecl.FromAll p methods
  | .block rest _ | .program rest => Stmt.FromAll p rest
  | .activation closure => FunctionDecl.From p closure.declaration
  | .discard | .print | .returning | .construct _ => True

/-- A property holds of every token in a configuration: in its work, its frames and the functions
and classes in its store. -/
structure Config.From (config : Config) : Prop where
  control : config.control.From p
  frames : ∀ frame ∈ config.frames, frame.From p
  heap : config.state.store.toHeap.All (FunctionDecl.From p)

/-- A property holds of every token in a move. -/
structure Move.From (move : Move) : Prop where
  control : move.control.From p
  push : ∀ frame ∈ move.push, frame.From p
  heap : move.state.store.toHeap.All (FunctionDecl.From p)

end Configurations

/-- A call of a value finds what is called, and a native that it finds is a built-in one. -/
def Heap.Calls {ε : Type} (heap : Heap ε) : Value → Prop
  | .native id =>
    ∃ native, heap.natives[id]? = some native ∧ native.behaviour ∈ builtins.map Native.behaviour
  | .function id => ∃ closure, heap.functions[id]? = some closure
  | .cls _ => True
  | _ => False

/-- What a step looks up under tokens that no code holds is there. -/
structure Config.Provides (config : Config) : Prop where
  /-- `super` finds the receiver. -/
  receiver : ∀ id keyword method, config.control = .eval (.superExpr id keyword method) →
    ∃ distance receiver, config.state.locals[id]? = some distance
      ∧ config.state.store.getAt config.state.current (distance - 1) (thisToken keyword.line) =
        .ok (.object receiver)
  /-- An initializer that comes to its end finds the instance that it has made. -/
  made : ∀ flow closure frames, config.control = .done (.flow flow) →
    config.frames = .activation closure :: frames → closure.isInitializer = true →
    ∃ receiver, config.state.store.getAt closure.scope 0
      (thisToken closure.declaration.name.line) = .ok (.object receiver)
  /-- A call finds what is called. -/
  called : ∀ callee arguments, config.control = .call callee arguments →
    config.state.store.toHeap.Calls callee

/-! ## Moves -/

theorem superclassToken_from {p : Token → Prop} {name : Token} {superclass : Expr} (hname : p name)
    (hsuperclass : superclass.From p) : p (superclassToken name superclass) := by
  cases superclass with
  | «variable» => exact hsuperclass
  | _ => exact hname

section Moves

variable {p : Token → Prop} {state : State}
  (h : state.store.toHeap.All (FunctionDecl.From p))

include h

namespace Move

theorem from_value (value : Value) : From p (.value value state) :=
  ⟨trivial, List.forall_mem_nil _, h⟩

theorem from_flow (flow : Flow) : From p (.flow flow state) :=
  ⟨trivial, List.forall_mem_nil _, h⟩

theorem from_fail {token : Token} (htoken : p token) (cause : RuntimeCause) :
    From p (.fail token cause state) :=
  ⟨htoken, List.forall_mem_nil _, h⟩

/-- An error at a token that is known. -/
theorem from_error {error : RuntimeError} {token : Token} (herror : error.token = token)
    (htoken : p token) : From p (.fault (.runtime error) state) := by
  subst herror
  exact ⟨htoken, List.forall_mem_nil _, h⟩

theorem from_result {result : Except RuntimeError Value} {token : Token}
    (hresult : ∀ error, result = .error error → error.token = token) (htoken : p token) :
    From p (.result result state) := by
  cases result with
  | ok value => exact from_value h value
  | error error => exact from_error h (hresult error rfl) htoken

theorem from_eval {expr : Expr} (hexpr : expr.From p) {push : List (Frame ScopeId)}
    (hpush : ∀ frame ∈ push, frame.From p) : From p (.eval expr push state) :=
  ⟨hexpr, hpush, h⟩

theorem from_exec {stmt : Stmt} (hstmt : stmt.From p) {push : List (Frame ScopeId)}
    (hpush : ∀ frame ∈ push, frame.From p) : From p (.exec stmt push state) :=
  ⟨hstmt, hpush, h⟩

end Move

open Move

theorem writeMove_from (lines : List String) {outcome : Outcome}
    (houtcome : (Control.done outcome).From p) : (writeMove lines outcome state).From p := by
  unfold writeMove State.writeLines
  obtain ⟨fault?, sink⟩ := state.sink.writeLines lines
  cases fault? with
  | none => exact ⟨houtcome, List.forall_mem_nil _, h⟩
  | some => exact ⟨trivial, List.forall_mem_nil _, h⟩

theorem declareMove_from {name : Token} (hname : p name) (binding : Binding) :
    (declareMove name binding state).From p := by
  unfold declareMove
  split
  next hcheck => exact from_error h (Store.checkDeclare_error hcheck) hname
  next => exact ⟨trivial, List.forall_mem_nil _, h⟩

theorem assignMove_from (id : NodeId) {name : Token} (hname : p name) (value : Value) :
    (assignMove id name value state).From p := by
  unfold assignMove
  split
  next htarget => exact from_error h (State.assignTarget_error htarget) hname
  next => exact ⟨trivial, List.forall_mem_nil _, h⟩

theorem bindMethodValue_from {method : Closure ScopeId}
    (hmethod : FunctionDecl.From p method.declaration) (receiver : InstanceId) :
    Move.From p (.value (state.store.bindMethodValue method receiver).1
      { state with store := (state.store.bindMethodValue method receiver).2 }) := by
  have hbound : FunctionDecl.From p (state.store.bindMethod method receiver).1.declaration :=
    hmethod
  exact ⟨trivial, List.forall_mem_nil _, h.addFunction hbound⟩

theorem getMove_from {name : Token} (hname : p name) (object : Value) :
    (getMove name object state).From p := by
  unfold getMove
  split
  next =>
    split
    next => exact from_fail h hname _
    next => exact from_value h _
    next hmethod => exact bindMethodValue_from h (h.property? hmethod) _
  next => exact from_fail h hname _

/-- Where `super` finds a receiver, it reports nothing but at the tokens that it is written with. -/
theorem superMove_from {id : NodeId} {keyword method : Token} (hkeyword : p keyword)
    (hmethod : p method) {distance : Nat} {receiver : InstanceId}
    (hlocal : state.locals[id]? = some distance)
    (hthis : state.store.getAt state.current (distance - 1) (thisToken keyword.line) =
      .ok (.object receiver)) : (superMove id keyword method state).From p := by
  unfold superMove
  rw [hlocal]
  dsimp only
  split
  next hsuper =>
    exact from_error h (congrArg RuntimeError.token (Store.getHere_error hsuper)) hkeyword
  next =>
    rw [hthis]
    dsimp only
    split
    next => exact from_fail h hmethod _
    next hfound => exact bindMethodValue_from h (h.findMethod? hfound) receiver
  next => exact from_fail h hkeyword _

theorem invokeMove_from (callee : Value) {paren : Token} (hparen : p paren)
    (arguments : List Value) : (invokeMove callee paren arguments state).From p := by
  unfold invokeMove
  split
  next => exact from_fail h hparen _
  next =>
    split
    next => exact ⟨trivial, List.forall_mem_nil _, h⟩
    next => exact from_fail h hparen _

theorem enterMove_from {closure : Closure ScopeId}
    (hclosure : FunctionDecl.From p closure.declaration)
    (arguments : List Value) : (enterMove closure arguments state).From p := by
  obtain ⟨⟨name, params, body⟩, scope, isInitializer⟩ := closure
  obtain ⟨-, hparams, hbody⟩ := id hclosure
  unfold enterMove
  dsimp only
  split
  next error hdeclare =>
    -- The token of the error is that of a parameter.
    obtain ⟨pair, hpair, htoken⟩ := List.mem_map.mp (Scope.declareAll_error hdeclare)
    exact from_error h htoken.symm (hparams _ (List.of_mem_zip hpair).1)
  next => exact ⟨trivial, by simpa using ⟨hbody, hclosure⟩, h⟩

theorem constructMove_from (classId : ClassId) (arguments : List Value) :
    (constructMove classId arguments state).From p := by
  have hadded : (state.store.addInstance classId).2.toHeap.All (FunctionDecl.From p) :=
    ⟨h.functions, h.methods⟩
  unfold constructMove
  dsimp only
  split
  next => exact ⟨trivial, List.forall_mem_nil _, hadded⟩
  next method hmethod =>
    let bound := (state.store.addInstance classId).2.bindMethod method
      (state.store.addInstance classId).1
    have hfound : FunctionDecl.From p method.declaration := hadded.findMethod? hmethod
    have hbound : FunctionDecl.From p bound.1.declaration := hfound
    have hstate : ({ state with store := bound.2 } : State).store.toHeap.All _ := hadded
    have henter := enterMove_from hstate hbound arguments
    refine ⟨henter.control, ?_, henter.heap⟩
    exact List.forall_mem_append.mpr ⟨henter.push, List.forall_mem_singleton.mpr trivial⟩

theorem nativeMove_from {behaviour : NativeBehaviour}
    (hbuiltin : behaviour ∈ builtins.map Native.behaviour) (arguments : List Value) :
    (nativeMove behaviour arguments state).From p := by
  simp only [builtins, List.map_cons, List.map_nil, List.mem_cons, List.not_mem_nil, or_false]
    at hbuiltin
  rcases hbuiltin with rfl | rfl
  · exact ⟨trivial, List.forall_mem_nil _, h⟩
  · exact writeMove_from h _ trivial

theorem callMove_from {callee : Value} (hcallee : state.store.toHeap.Calls callee)
    (arguments : List Value) : (callMove callee arguments state).From p := by
  cases callee with
  | native id =>
      obtain ⟨native, hnative, hbuiltin⟩ := hcallee
      simp only [callMove, hnative]
      exact nativeMove_from h hbuiltin arguments
  | function id =>
      obtain ⟨closure, hclosure⟩ := hcallee
      simp only [callMove, hclosure]
      exact enterMove_from h (h.functions _ (Array.mem_of_getElem? hclosure)) arguments
  | cls id => exact constructMove_from h id arguments
  | nil | bool | number | string | object => exact hcallee.elim

theorem classMove_from {name : Token} (hname : p name) (superclass : Option ClassId)
    {methods : List (FunctionDecl Stmt)} (hmethods : FunctionDecl.FromAll p methods) :
    (classMove name superclass methods state).From p := by
  let scope := classScope superclass { state with
    store := state.store.bind state.current name.lexeme ⟨.nil, true⟩ }
  have hscope : scope.2.toHeap.All (FunctionDecl.From p) := by cases superclass <;> exact h
  let cls : Class ScopeId := ⟨name.lexeme, superclass, methodTable scope.1 methods⟩
  have hadded : (scope.2.addClass cls).2.toHeap.All (FunctionDecl.From p) := by
    refine hscope.addClass ?_
    intro entry hentry
    obtain ⟨declaration, hmem, heq⟩ := mem_methodTable hentry
    rw [heq]
    exact FunctionDecl.from_of_mem hmethods hmem
  unfold classMove defineClass
  dsimp only
  split
  next hcheck => exact from_error h (Store.checkDeclare_error hcheck) hname
  next =>
    split
    next htarget => exact from_error hadded (Store.assignTarget_error htarget) hname
    next => exact ⟨trivial, List.forall_mem_nil _, hadded⟩

/-! ## Expressions and statements -/

theorem evalMove_from {expr : Expr} (hexpr : expr.From p)
    (hreceiver : ∀ id keyword method, expr = .superExpr id keyword method →
      ∃ distance receiver, state.locals[id]? = some distance
        ∧ state.store.getAt state.current (distance - 1) (thisToken keyword.line) =
          .ok (.object receiver)) : (evalMove expr state).From p := by
  cases expr with
  | literal => exact from_value h _
  | «variable» | thisExpr =>
      exact from_result h
        (fun _ herror => congrArg RuntimeError.token (State.lookUp_error herror)) hexpr
  | superExpr id keyword method =>
      obtain ⟨distance, receiver, hlocal, hthis⟩ := hreceiver id keyword method rfl
      exact superMove_from h hexpr.1 hexpr.2 hlocal hthis
  | grouping inner =>
      have hinner : inner.From p := hexpr
      exact from_eval h hinner (List.forall_mem_nil _)
  | unary => exact from_eval h hexpr.2 (List.forall_mem_singleton.mpr hexpr.1)
  | binary | logical => exact from_eval h hexpr.1 (List.forall_mem_singleton.mpr hexpr.2)
  | assign => exact from_eval h hexpr.2 (List.forall_mem_singleton.mpr hexpr.1)
  | call => exact from_eval h hexpr.1 (List.forall_mem_singleton.mpr hexpr.2)
  | get => exact from_eval h hexpr.1 (List.forall_mem_singleton.mpr hexpr.2)
  | set => exact from_eval h hexpr.1 (List.forall_mem_singleton.mpr hexpr.2)

theorem execMove_from {stmt : Stmt} (hstmt : stmt.From p) : (execMove stmt state).From p := by
  cases stmt with
  | expression | print => exact from_eval h hstmt (List.forall_mem_singleton.mpr trivial)
  | letDecl => exact from_eval h hstmt.2 (List.forall_mem_singleton.mpr hstmt.1)
  | varDecl name initializer =>
      cases initializer with
      | none => exact declareMove_from h hstmt.1 _
      | some => exact from_eval h hstmt.2 (List.forall_mem_singleton.mpr hstmt.1)
  | block body => exact ⟨trivial, List.forall_mem_singleton.mpr hstmt, h⟩
  | ifElse condition thenBranch elseBranch =>
      cases elseBranch with
      | none => exact from_eval h hstmt.1 (List.forall_mem_singleton.mpr ⟨hstmt.2, by simp⟩)
      | some elseBranch =>
          obtain ⟨hcondition, hthen, helse⟩ := hstmt
          refine from_eval h hcondition (List.forall_mem_singleton.mpr ⟨hthen, ?_⟩)
          rintro _ ⟨⟩
          exact helse
  | whileLoop => exact from_eval h hstmt.1 (List.forall_mem_singleton.mpr hstmt)
  | function declaration =>
      let closure : Closure ScopeId := ⟨declaration, state.current, false⟩
      have hclosure : FunctionDecl.From p closure.declaration := hstmt
      have hname : p declaration.name := by
        cases declaration
        exact hclosure.1
      exact declareMove_from (h.addFunction hclosure) hname _
  | returnStmt keyword value =>
      cases value with
      | none => exact from_flow h _
      | some => exact from_eval h hstmt.2 (List.forall_mem_singleton.mpr trivial)
  | breakStmt => exact from_flow h _
  | classDecl name superclass methods =>
      cases superclass with
      | none => exact classMove_from h hstmt.1 none hstmt.2.2
      | some superclass => exact from_eval h hstmt.2.1 (List.forall_mem_singleton.mpr hstmt)

/-! ## Frames -/

theorem nextArgument_from (called : Value) {paren : Token} (hparen : p paren) (before : List Value)
    {after : List Expr} (hafter : Expr.FromAll p after) :
    (Frame.nextArgument called paren before after state).From p := by
  cases after with
  | nil => exact invokeMove_from h called hparen before
  | cons next rest =>
      exact from_eval h hafter.1 (List.forall_mem_singleton.mpr ⟨hparen, hafter.2⟩)

theorem pass_from (frame : Frame ScopeId) {outcome : Outcome}
    (houtcome : (Control.done outcome).From p) : (frame.pass outcome state).From p := by
  refine ⟨houtcome, List.forall_mem_nil _, ?_⟩
  cases frame <;> exact h

theorem onValue_from {frame : Frame ScopeId} (hframe : frame.From p) (value : Value) :
    (frame.onValue value state).From p := by
  cases frame with
  | unary => exact from_result h (fun _ => applyUnary_token) hframe
  | binaryLeft => exact from_eval h hframe.2 (List.forall_mem_singleton.mpr hframe.1)
  | binaryRight => exact from_result h (fun _ => applyBinary_token) hframe
  | logical =>
      simp only [Frame.onValue]
      split
      next => exact from_value h _
      next => exact from_eval h hframe.2 (List.forall_mem_nil _)
  | assign => exact assignMove_from h _ hframe _
  | callee => exact nextArgument_from h _ hframe.1 _ hframe.2
  | argument => exact nextArgument_from h _ hframe.1 _ hframe.2
  | get => exact getMove_from h hframe _
  | setObject =>
      cases value with
      | object => exact from_eval h hframe.2 (List.forall_mem_singleton.mpr hframe.1)
      | nil | bool | number | string | native | function | cls => exact from_fail h hframe.1 _
  | setValue => exact ⟨trivial, List.forall_mem_nil _, h.functions, h.methods⟩
  | discard => exact from_flow h _
  | print => exact writeMove_from h _ trivial
  | declare => exact declareMove_from h hframe _
  | returning => exact from_flow h _
  | branch thenBranch elseBranch =>
      simp only [Frame.onValue]
      split
      next => exact from_exec h hframe.1 (List.forall_mem_nil _)
      next =>
        cases elseBranch with
        | none => exact from_flow h _
        | some elseBranch => exact from_exec h (hframe.2 elseBranch rfl) (List.forall_mem_nil _)
  | whileTest =>
      simp only [Frame.onValue]
      split
      next => exact from_exec h hframe.2 (List.forall_mem_singleton.mpr hframe)
      next => exact from_flow h _
  | superclass =>
      cases value with
      | cls => exact classMove_from h hframe.1 _ hframe.2.2
      | nil | bool | number | string | native | function | object =>
          exact from_fail h (superclassToken_from hframe.1 hframe.2.1) _
  | construct => exact from_value h _
  | block | whileBody | activation | program => exact pass_from h _ trivial

/-- The end of an initializer looks up its receiver; otherwise nothing is looked up. -/
theorem onFlow_from {frame : Frame ScopeId} (hframe : frame.From p) (flow : Flow)
    (hmade : ∀ closure, frame = .activation closure → closure.isInitializer = true →
      ∃ receiver, state.store.getAt closure.scope 0 (thisToken closure.declaration.name.line) =
        .ok (.object receiver)) : (frame.onFlow flow state).From p := by
  cases frame with
  | whileBody =>
      cases flow with
      | normal => exact from_eval h hframe.1 (List.forall_mem_singleton.mpr hframe)
      | broke | returned => exact from_flow h _
  | block rest outer =>
      cases flow with
      | normal =>
          cases rest with
          | nil => exact ⟨trivial, List.forall_mem_nil _, h⟩
          | cons => exact from_exec h hframe.1 (List.forall_mem_singleton.mpr hframe.2)
      | returned | broke => cases rest <;> exact ⟨trivial, List.forall_mem_nil _, h⟩
  | activation closure =>
      simp only [Frame.onFlow]
      split
      next hinitializer =>
        obtain ⟨receiver, hthis⟩ := hmade closure rfl hinitializer
        rw [hthis]
        exact from_value h _
      next => cases flow <;> exact from_value h _
  | program rest =>
      cases rest with
      | nil => exact from_flow h _
      | cons => exact from_exec h hframe.1 (List.forall_mem_singleton.mpr hframe.2)
  | _ => exact pass_from h _ trivial

end Moves

/-! ## Runs -/

variable {p : Token → Prop} {config : Config}

theorem Move.From.onto {move : Move} (h : move.From p) {frames : List (Frame ScopeId)}
    (hframes : ∀ frame ∈ frames, frame.From p) : Config.From p (move.onto frames) :=
  ⟨h.control, List.forall_mem_append.mpr ⟨h.push, hframes⟩, h.heap⟩

/-- A step reports no token but those at hand, where what it looks up without one is there. -/
theorem Config.From.step (h : config.From p) (hprovides : config.Provides) :
    (step config).From p := by
  obtain ⟨control, frames, state⟩ := config
  obtain ⟨hcontrol, hframes, hheap⟩ := h
  cases control with
  | eval expr =>
      refine (evalMove_from hheap hcontrol ?_).onto hframes
      rintro id keyword method rfl
      exact hprovides.receiver id keyword method rfl
  | exec stmt => exact (execMove_from hheap hcontrol).onto hframes
  | call callee arguments =>
      exact (callMove_from hheap (hprovides.called callee arguments rfl) arguments).onto hframes
  | done outcome =>
      cases frames with
      | nil => exact ⟨hcontrol, hframes, hheap⟩
      | cons frame rest =>
          obtain ⟨hframe, hrest⟩ := List.forall_mem_cons.mp hframes
          cases outcome with
          | value value => exact (onValue_from hheap hframe value).onto hrest
          | flow flow =>
              refine (onFlow_from hheap hframe flow ?_).onto hrest
              rintro closure rfl hinitializer
              exact hprovides.made flow closure rest rfl rfl hinitializer
          | fault fault => exact (pass_from hheap frame hcontrol).onto hrest

end ScopeScript
