import ScopeScript.Proofs.Execution.Edits
import ScopeScript.Proofs.Execution.Laws

/-!
# Steps keep to a law

A move hands on parts of the code that it takes up, in the scope that this code is meant for, or the
code of a function or method, in a new scope inside the one that it was declared in. Whatever it
declares it declares in the current scope, because a declaration said so; and an assignment binds
nothing anew. So a law that spreads to new scopes is kept by every step.
-/

namespace ScopeScript

open Law

section Moves

variable {law : Law} {state : State} (h : law.PermitsHeap state.store.toHeap)

include h

/-- A move that changes nothing, puts off nothing and goes on with code that is permitted. -/
theorem Law.keeps_go {control : Control} (hcontrol : law.Permits state.current control.uses) :
    law.Keeps state ⟨control, [], state⟩ :=
  fun _ => ⟨hcontrol, trivial, h, .refl _⟩

theorem Law.keeps_eval {expr : Expr} (hexpr : law.Permits state.current (Use.here expr.references))
    {frame : Frame ScopeId} (hframe : law.Permits state.current frame.uses) :
    law.Keeps state (.eval expr [frame] state) :=
  fun _ => ⟨hexpr, permitsFrames_one hframe, h, .refl _⟩

theorem Law.keeps_exec {stmt : Stmt} (hstmt : law.Permits state.current stmt.uses)
    {frame : Frame ScopeId} (hframe : law.Permits state.current frame.uses) :
    law.Keeps state (.exec stmt [frame] state) :=
  fun _ => ⟨hstmt, permitsFrames_one hframe, h, .refl _⟩

/-- A move that changes nothing and ends something. -/
theorem Law.keeps_done (outcome : Outcome) : law.Keeps state ⟨.done outcome, [], state⟩ :=
  keeps_go h permits_nil

theorem Law.keeps_result (result : Except RuntimeError Value) :
    law.Keeps state (.result result state) := by
  cases result <;> exact keeps_done h _

theorem writeMove_keeps (lines : List String) (outcome : Outcome) :
    law.Keeps state (writeMove lines outcome state) := by
  unfold writeMove State.writeLines
  obtain ⟨fault?, sink⟩ := state.sink.writeLines lines
  cases fault? with
  | none => exact fun _ => ⟨permits_nil, trivial, h, .refl _⟩
  | some => exact fun _ => ⟨permits_nil, trivial, h, .refl _⟩

theorem declareMove_keeps {name : Token} (hname : law state.current 0 (.declares name))
    (binding : Binding) : law.Keeps state (declareMove name binding state) := by
  unfold declareMove
  split
  next => exact keeps_done h _
  next => exact fun _ => ⟨permits_nil, trivial, h, .declare hname binding⟩

theorem assignMove_keeps (id : NodeId) (name : Token) (value : Value) :
    law.Keeps state (assignMove id name value state) := by
  unfold assignMove
  split
  next => exact keeps_done h _
  next target htarget =>
    refine fun _ => ⟨permits_nil, trivial, h, .assign ?_ value⟩
    unfold State.assignTarget at htarget
    split at htarget
    next => exact Store.checkAssign_of_targetAt htarget
    next => exact Store.checkAssign_of_target htarget

/-! ### Methods and calls -/

/-- A bound method runs in a scope inside the one with its receiver, and that one lies inside the
scope that the method was declared in. -/
theorem bindMethodValue_keeps {method : Closure ScopeId} (receiver : InstanceId)
    (hmethod : law.Permits method.scope (Use.inside method.declaration.uses)) :
    law.Keeps state (.value (state.store.bindMethodValue method receiver).1
      { state with store := (state.store.bindMethodValue method receiver).2 }) := by
  intro hspreads
  let inner := (Scope.empty (some method.scope)).bind "this" ⟨.object receiver, true⟩
  have hadded : law.Spreads state.store (state.store.addScope inner).2 := hspreads
  refine ⟨permits_nil, trivial, h.addFunction ?_, .addScope state.store _⟩
  exact hadded.enter_new rfl hmethod

theorem getMove_keeps (name : Token) (object : Value) :
    law.Keeps state (getMove name object state) := by
  unfold getMove
  split
  next =>
    split
    next => exact keeps_done h _
    next => exact keeps_done h _
    next hmethod => exact bindMethodValue_keeps h _ (h.property? hmethod)
  next => exact keeps_done h _

theorem superMove_keeps (id : NodeId) (keyword name : Token) :
    law.Keeps state (superMove id keyword name state) := by
  unfold superMove
  split
  next => exact keeps_done h _
  next =>
    split
    next => exact keeps_done h _
    next =>
      split
      next => exact keeps_done h _
      next =>
        split
        next => exact keeps_done h _
        next hmethod => exact bindMethodValue_keeps h _ (h.findMethod? hmethod)
      next => exact keeps_done h _
    next => exact keeps_done h _

theorem invokeMove_keeps (callee : Value) (paren : Token) (arguments : List Value) :
    law.Keeps state (invokeMove callee paren arguments state) := by
  unfold invokeMove
  split
  next => exact keeps_done h _
  next =>
    split
    next => exact keeps_go h permits_nil
    next => exact keeps_done h _

/-- The body of a function runs in a new scope inside the one that it was declared in. -/
theorem enterMove_keeps {closure : Closure ScopeId}
    (hclosure : law.Permits closure.scope closure.declaration.uses) (arguments : List Value) :
    law.Keeps state (enterMove closure arguments state) := by
  unfold enterMove
  dsimp only
  split
  next => exact keeps_done h _
  next scope hscope =>
    intro hspreads
    rw [FunctionDecl.uses_eq] at hclosure
    have hbody : law.Permits state.store.scopes.size (Stmt.usesAll closure.declaration.body) :=
      Spreads.enter_new hspreads (Store.parent_declareAll hscope) hclosure
    exact ⟨permits_nil, ⟨hbody, permits_nil, trivial⟩, h, .addScope state.store scope⟩

omit h in
theorem scope_enterMove {id : ScopeId} (hid : id < state.store.scopes.size)
    (closure : Closure ScopeId) (arguments : List Value) :
    (enterMove closure arguments state).state.store.scope id = state.store.scope id := by
  unfold enterMove
  dsimp only
  split
  next => rfl
  next scope _ =>
    change (state.store.addScope scope).2.scope id = _
    rw [Store.scope_addScope, if_neg (Nat.ne_of_lt hid)]

/-- The initializer of a class is bound to the new instance and entered at once, so two scopes are
made, one inside the other. -/
theorem constructMove_keeps (classId : ClassId) (arguments : List Value) :
    law.Keeps state (constructMove classId arguments state) := by
  have hadded : law.PermitsHeap (state.store.addInstance classId).2.toHeap :=
    ⟨h.functions, h.methods⟩
  unfold constructMove
  dsimp only
  split
  next => exact fun _ => ⟨permits_nil, trivial, hadded, .refl _⟩
  next method hmethod =>
    intro hspreads
    let receiver := (Scope.empty (some method.scope)).bind "this"
      ⟨.object (state.store.addInstance classId).1, true⟩
    let bound : State :=
      { state with store := ((state.store.addInstance classId).2.addScope receiver).2 }
    let closure : Closure ScopeId := { method with scope := state.store.scopes.size }
    have hsize : state.store.scopes.size < bound.store.scopes.size := by
      simp [bound, Store.addScope, Store.addInstance, Store.withHeap]
    have hreceiver : ((enterMove closure arguments bound).state.store.scope
        state.store.scopes.size).parent = some method.scope := by
      rw [scope_enterMove hsize]
      change (((state.store.addInstance classId).2.addScope receiver).2.scope
        (state.store.addInstance classId).2.scopes.size).parent = _
      rw [Store.scope_addScope, if_pos rfl]
      rfl
    have hclosure : law.Permits closure.scope closure.declaration.uses :=
      hspreads.enter (Nat.le_refl _) hreceiver (hadded.findMethod? hmethod)
    have hbound : law.PermitsHeap bound.store.toHeap := hadded
    have henter := enterMove_keeps hbound hclosure arguments
      (hspreads.mono (Nat.le_of_lt hsize) fun _ _ h => h)
    have hnames : law.Binds state.store bound.store :=
      .addScope (state.store.addInstance classId).2 _
    exact ⟨henter.control, permitsFrames_append henter.push ⟨permits_nil, trivial⟩, henter.heap,
      hnames.trans henter.names (Nat.le_of_lt hsize)⟩

theorem nativeMove_keeps (behaviour : NativeBehaviour) (arguments : List Value) :
    law.Keeps state (nativeMove behaviour arguments state) := by
  cases behaviour with
  | clock => exact fun _ => ⟨permits_nil, trivial, h, .refl _⟩
  | printLine | emit => exact writeMove_keeps h _ _
  | first | count | fail => exact keeps_done h _
  | apply =>
      cases arguments with
      | nil => exact keeps_done h _
      | cons => exact keeps_go h permits_nil

theorem callMove_keeps (callee : Value) (arguments : List Value) :
    law.Keeps state (callMove callee arguments state) := by
  unfold callMove
  split
  next =>
    split
    next => exact nativeMove_keeps h _ arguments
    next => exact keeps_done h _
  next =>
    split
    next closure hclosure =>
      exact enterMove_keeps h (h.functions closure (Array.mem_of_getElem? hclosure)) arguments
    next => exact keeps_done h _
  next => exact constructMove_keeps h _ arguments
  next => exact keeps_done h _

/-! ### Classes -/

/-- What the methods of a class do with names, in the scope that the class is declared in. -/
def classUses (superclass : Option ClassId) (methods : List (FunctionDecl Stmt)) : List Use :=
  match superclass with
  | none => FunctionDecl.usesAll methods
  | some _ => Use.inside (FunctionDecl.usesAll methods)

omit h in
theorem methodTable_permits {scope : ScopeId} {methods : List (FunctionDecl Stmt)}
    (hmethods : law.Permits scope (FunctionDecl.usesAll methods)) :
    ∀ name method, (methodTable scope methods).find? name = some method →
      law.Permits method.scope (Use.inside method.declaration.uses) := by
  intro name method hmethod use huse
  obtain ⟨declaration, hmem, rfl⟩ := find?_methodTable hmethod
  exact hmethods use (FunctionDecl.uses_subset_usesAll hmem huse)

theorem defineClass_keeps (name : Token) (superclass : Option ClassId)
    {methods : List (FunctionDecl Stmt)}
    (hmethods : law.Permits state.current (classUses superclass methods)) :
    law.Keeps state (defineClass name superclass methods state) := by
  unfold defineClass
  cases superclass with
  | none =>
      let cls : Class ScopeId := ⟨name.lexeme, none, methodTable state.current methods⟩
      have hadded : law.PermitsHeap (state.store.toHeap.addClass cls).2 :=
        h.addClass (methodTable_permits hmethods)
      dsimp only [classScope]
      split
      next => exact fun _ => ⟨permits_nil, trivial, hadded, .refl _⟩
      next htarget =>
        have hassign := Store.checkAssign_of_target htarget
        exact fun _ => ⟨permits_nil, trivial, hadded, .assign hassign _⟩
  | some superclass =>
      -- The methods lie in a new scope with the superclass, inside the current one.
      let made := (Scope.empty (some state.current)).bind "super" ⟨.cls superclass, true⟩
      let scope := state.store.scopes.size
      let cls : Class ScopeId := ⟨name.lexeme, some superclass, methodTable scope methods⟩
      have hmade : ((state.store.addScope made).2.scope scope).parent = some state.current := by
        rw [Store.scope_addScope, if_pos rfl]
        rfl
      have hadded : ∀ {final : Store}, law.Spreads state.store final →
          (final.scope scope).parent = some state.current →
          law.PermitsHeap (state.store.toHeap.addClass cls).2 := by
        intro final hspreads hparent
        have hinner : law.Permits scope (FunctionDecl.usesAll methods) :=
          hspreads.enter (Nat.le_refl _) hparent hmethods
        exact h.addClass (methodTable_permits hinner)
      dsimp only [classScope]
      split
      next =>
        exact fun hspreads => ⟨permits_nil, trivial, hadded hspreads hmade, .addScope _ made⟩
      next target htarget =>
        intro hspreads
        refine ⟨permits_nil, trivial, hadded hspreads ?_, ?_⟩
        · exact Store.parent_bind.trans hmade
        · refine (Binds.addScope state.store made).trans
            (.assign (Store.checkAssign_of_target htarget) _) ?_
          simp [Store.addScope]

theorem classMove_keeps {name : Token} (hname : law state.current 0 (.declares name))
    (superclass : Option ClassId) {methods : List (FunctionDecl Stmt)}
    (hmethods : law.Permits state.current (classUses superclass methods)) :
    law.Keeps state (classMove name superclass methods state) := by
  unfold classMove
  split
  next => exact keeps_done h _
  next =>
    let declared : State := { state with
      store := state.store.bind state.current name.lexeme ⟨.nil, true⟩ }
    have hheap : law.PermitsHeap declared.store.toHeap := h
    have hsize : declared.store.scopes.size = state.store.scopes.size := by
      simp [declared, Store.bind]
    intro hspreads
    have hdefine := defineClass_keeps hheap name superclass hmethods
      (hspreads.mono (Nat.le_of_eq hsize.symm) fun _ _ h => h)
    have hbinds : law.Binds state.store declared.store := .declare hname _
    exact ⟨hdefine.control, hdefine.push, hdefine.heap,
      hbinds.trans hdefine.names (Nat.le_of_eq hsize.symm)⟩

theorem evalMove_keeps {expr : Expr}
    (hexpr : law.Permits state.current (Use.here expr.references)) :
    law.Keeps state (evalMove expr state) := by
  cases expr with
  | literal => exact keeps_done h _
  | «variable» | thisExpr => exact keeps_result h _
  | superExpr => exact superMove_keeps h _ _ _
  | grouping => exact keeps_go h hexpr
  | unary | get =>
      rw [Expr.references] at hexpr
      refine keeps_eval h hexpr ?_
      exact permits_nil
  | binary | logical | call | set =>
      rw [Expr.references] at hexpr
      exact keeps_eval h hexpr.here_append.1 hexpr.here_append.2
  | assign id name value =>
      obtain ⟨hid, hvalue⟩ := permits_cons.mp hexpr
      exact keeps_eval h hvalue (permits_cons.mpr ⟨hid, permits_nil⟩)

theorem execMove_keeps {stmt : Stmt} (hstmt : law.Permits state.current stmt.uses) :
    law.Keeps state (execMove stmt state) := by
  cases stmt with
  | expression => exact keeps_eval h hstmt permits_nil
  | print => exact keeps_eval h hstmt permits_nil
  | varDecl name initializer =>
      obtain ⟨hname, hvalue⟩ := permits_cons.mp hstmt
      cases initializer with
      | none => exact declareMove_keeps h hname _
      | some => exact keeps_eval h hvalue (permits_cons.mpr ⟨hname, permits_nil⟩)
  | letDecl name =>
      obtain ⟨hname, hvalue⟩ := permits_cons.mp hstmt
      exact keeps_eval h hvalue (permits_cons.mpr ⟨hname, permits_nil⟩)
  | block body =>
      intro hspreads
      have hbody : law.Permits state.store.scopes.size (Stmt.usesAll body) :=
        Spreads.enter_new hspreads rfl hstmt
      exact ⟨permits_nil, permitsFrames_one hbody, h, .addScope state.store _⟩
  | ifElse condition thenBranch elseBranch =>
      cases elseBranch with
      | none =>
          obtain ⟨hcondition, hthen⟩ := permits_append.mp hstmt
          refine keeps_eval h hcondition ?_
          simpa [Frame.uses, Stmt.usesAll] using hthen
      | some elseBranch =>
          obtain ⟨hcondition, hbranches⟩ := permits_append.mp hstmt
          refine keeps_eval h hcondition ?_
          simpa [Frame.uses, Stmt.usesAll] using hbranches
  | whileLoop condition body =>
      exact keeps_eval h (permits_append.mp hstmt).1 hstmt
  | function declaration =>
      obtain ⟨hname, hbody⟩ := permits_cons.mp hstmt
      let closure : Closure ScopeId := ⟨declaration, state.current, false⟩
      let state' : State := { state with store := (state.store.addFunction closure).2 }
      have hadded : law.PermitsHeap state'.store.toHeap := h.addFunction hbody
      have hname' : law state'.current 0 (.declares declaration.name) := hname
      intro hspreads
      have hdeclare := declareMove_keeps hadded hname'
        ⟨.function (state.store.addFunction closure).1, true⟩ hspreads
      exact ⟨hdeclare.control, hdeclare.push, hdeclare.heap, hdeclare.names⟩
  | returnStmt keyword value =>
      cases value with
      | none => exact keeps_done h _
      | some => exact keeps_eval h hstmt permits_nil
  | breakStmt => exact keeps_done h _
  | classDecl name superclass methods =>
      cases superclass with
      | none =>
          obtain ⟨hname, hmethods⟩ := permits_cons.mp hstmt
          exact classMove_keeps h hname none hmethods
      | some superclass =>
          obtain ⟨hname, hrest⟩ := permits_cons.mp hstmt
          obtain ⟨hsuperclass, hmethods⟩ := permits_append.mp hrest
          exact keeps_eval h hsuperclass (permits_cons.mpr ⟨hname, hmethods⟩)

/-! ## Frames -/

theorem nextArgument_keeps (called : Value) (paren : Token) (before : List Value)
    {after : List Expr} (hafter : law.Permits state.current (Use.here (Expr.referencesAll after))) :
    law.Keeps state (Frame.nextArgument called paren before after state) := by
  cases after with
  | nil => exact invokeMove_keeps h _ _ _
  | cons next rest =>
      rw [Expr.referencesAll] at hafter
      exact keeps_eval h hafter.here_append.1 hafter.here_append.2

/-- A frame that is left with an outcome hands on no code. -/
theorem pass_keeps (frame : Frame ScopeId) (outcome : Outcome) :
    law.Keeps state (frame.pass outcome state) := by
  cases frame <;> exact fun _ => ⟨permits_nil, trivial, h, .refl _⟩

theorem onValue_keeps {frame : Frame ScopeId} (hframe : law.Permits state.current frame.uses)
    (value : Value) : law.Keeps state (frame.onValue value state) := by
  cases frame with
  | unary | binaryRight => exact keeps_result h _
  | binaryLeft => exact keeps_eval h hframe permits_nil
  | logical =>
      simp only [Frame.onValue]
      split
      next => exact keeps_done h _
      next => exact keeps_go h hframe
  | assign => exact assignMove_keeps h _ _ _
  | callee => exact nextArgument_keeps h _ _ _ hframe
  | argument => exact nextArgument_keeps h _ _ _ hframe
  | get => exact getMove_keeps h _ _
  | setObject =>
      cases value with
      | object => exact keeps_eval h hframe permits_nil
      | nil | bool | number | string | native | function | cls => exact keeps_done h _
  | setValue => exact fun _ => ⟨permits_nil, trivial, ⟨h.functions, h.methods⟩, .refl _⟩
  | discard | returning | construct => exact keeps_done h _
  | print => exact writeMove_keeps h _ _
  | declare => exact declareMove_keeps h (permits_cons.mp hframe).1 _
  | branch thenBranch elseBranch =>
      obtain ⟨hthen, helse⟩ := permits_append.mp hframe
      simp only [Frame.onValue]
      split
      next => exact keeps_go h hthen
      next =>
        cases elseBranch with
        | none => exact keeps_done h _
        | some elseBranch =>
            rw [Option.toList_some, Stmt.usesAll] at helse
            exact keeps_go h (permits_append.mp helse).1
  | whileTest =>
      simp only [Frame.onValue]
      split
      next => exact keeps_exec h (permits_append.mp hframe).2 hframe
      next => exact keeps_done h _
  | superclass =>
      obtain ⟨hname, hmethods⟩ := permits_cons.mp hframe
      cases value with
      | cls => exact classMove_keeps h hname _ hmethods
      | nil | bool | number | string | native | function | object => exact keeps_done h _
  | block | whileBody | activation | program => exact pass_keeps h _ _

theorem onFlow_keeps {frame : Frame ScopeId} (hframe : law.Permits state.current frame.uses)
    (flow : Flow) : law.Keeps state (frame.onFlow flow state) := by
  cases frame with
  | whileBody =>
      cases flow with
      | normal => exact keeps_eval h (permits_append.mp hframe).1 hframe
      | broke | returned => exact keeps_done h _
  | block rest outer =>
      cases flow with
      | normal =>
          cases rest with
          | nil => exact fun _ => ⟨permits_nil, trivial, h, .refl _⟩
          | cons stmt rest =>
              rw [Frame.uses, Stmt.usesAll] at hframe
              obtain ⟨hstmt, hrest⟩ := permits_append.mp hframe
              exact keeps_exec h hstmt hrest
      | returned | broke => cases rest <;> exact fun _ => ⟨permits_nil, trivial, h, .refl _⟩
  | activation =>
      simp only [Frame.onFlow]
      split
      next => exact keeps_result h _
      next => cases flow <;> exact keeps_done h _
  | program rest =>
      cases rest with
      | nil => exact keeps_done h _
      | cons stmt rest =>
          rw [Frame.uses, Stmt.usesAll] at hframe
          obtain ⟨hstmt, hrest⟩ := permits_append.mp hframe
          exact keeps_exec h hstmt hrest
  | _ => exact pass_keeps h _ _

theorem resume_keeps {frame : Frame ScopeId} (hframe : law.Permits state.current frame.uses)
    (outcome : Outcome) : law.Keeps state (frame.resume outcome state) := by
  cases outcome with
  | value => exact onValue_keeps h hframe _
  | flow => exact onFlow_keeps h hframe _
  | fault => exact pass_keeps h _ _

end Moves

/-! ## Steps -/

section Steps

variable {law : Law} {config : Config}

/-- A move on top of frames that keep to a law in the scope that it returns to. -/
theorem Law.PermitsMove.onto {state : State} {move : Move} (h : law.PermitsMove state move)
    {scope : ScopeId} (hreturns : move.ReturnsTo scope) {frames : List (Frame ScopeId)}
    (hframes : law.PermitsFrames scope frames) :
    law.PermitsConfig (move.onto frames)
      ∧ law.Binds state.store (move.onto frames).state.store := by
  have hscope : returnsTo move.state.current move.push = scope := hreturns
  exact ⟨⟨h.control, permitsFrames_append h.push (hscope ▸ hframes), h.heap⟩, h.names⟩

/-- A step keeps to a law that spreads to the scopes it makes, and binds no name that the law does
not let it declare. -/
theorem Law.PermitsConfig.step (h : law.PermitsConfig config)
    (hspreads : law.Spreads config.state.store (step config).state.store) :
    law.PermitsConfig (step config)
      ∧ law.Binds config.state.store (ScopeScript.step config).state.store := by
  obtain ⟨control, frames, state⟩ := config
  obtain ⟨hcontrol, hframes, hheap⟩ := h
  cases control with
  | eval expr =>
      exact (evalMove_keeps hheap hcontrol hspreads).onto (evalMove_returns state expr) hframes
  | exec stmt =>
      exact (execMove_keeps hheap hcontrol hspreads).onto (execMove_returns state stmt) hframes
  | call callee arguments =>
      exact (callMove_keeps hheap callee arguments hspreads).onto
        (callMove_returns state callee arguments) hframes
  | done outcome =>
      cases frames with
      | nil => exact ⟨⟨hcontrol, hframes, hheap⟩, .refl _⟩
      | cons frame frames =>
          refine (resume_keeps hheap hframes.1 outcome hspreads).onto
            (resume_returns state frame outcome) ?_
          rw [leave_current]
          exact hframes.2

end Steps

end ScopeScript
