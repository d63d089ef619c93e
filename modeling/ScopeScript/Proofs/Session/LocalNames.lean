import ScopeScript.Proofs.Execution.Moves
import ScopeScript.Proofs.Session.Point

/-!
# Local names are always there

At every point of a session, a node with a distance finds its name bound exactly that far outward,
in a scope that is not the global one, and a declaration in a scope that is not the global one finds
its name new. So an error that a name is missing is about a node without a distance, and an error
that a name is declared twice is about the global scope.
-/

namespace ScopeScript

namespace Config

/-- The reference that is followed next: a node that refers to a name is begun, or an assignment has
the value that it waits for. -/
def reference? (config : Config) : Option (NodeId × Token) :=
  match config.control, config.frames with
  | .eval (.variable id name), _ => some (id, name)
  | .eval (.assign id name _), _ => some (id, name)
  | .eval (.superExpr id keyword _), _ => some (id, keyword)
  | .eval (.thisExpr id keyword), _ => some (id, keyword)
  | .done (.value _), .assign id name :: _ => some (id, name)
  | _, _ => none

/-- The name that is declared next in the current scope. -/
def declares? (config : Config) : Option Token :=
  match config.control, config.frames with
  | .exec (.varDecl name none), _ => some name
  | .exec (.function declaration), _ => some declaration.name
  | .exec (.classDecl name none _), _ => some name
  | .done (.value _), .declare name _ :: _ => some name
  | .done (.value (.cls _)), .superclass name _ _ :: _ => some name
  | _, _ => none

/-- The function whose parameters are declared next in a new scope, with their values. -/
def enters? (config : Config) : Option (FunctionDecl Stmt × List Value) :=
  match config.control with
  | .call (.function id) arguments =>
    config.state.store.functions[id]?.map fun closure => (closure.declaration, arguments)
  | .call (.cls id) arguments =>
    (config.state.store.findMethod? id initializerName).map fun method =>
      (method.declaration, arguments)
  | _ => none

/-- The error that the next step raises. A fault that passes a frame is not raised again. -/
def raises? (config : Config) : Option RuntimeError :=
  match config.control with
  | .done (.fault _) => none
  | _ => (step config).control.error?

/-- An error about a name: a node without a distance does not find it among the globals, or it is
global and is declared again. -/
inductive NameError (config : Config) : RuntimeError → Prop
  | missing {id : NodeId} {name : Token} : config.reference? = some (id, name) →
      config.state.locals[id]? = none →
      config.state.store.binding? config.state.globals name.lexeme = none →
      NameError config ⟨name, .undefinedVariable name.lexeme⟩
  | repeated {name : Token} : config.declares? = some name →
      config.state.current = config.state.globals →
      (config.state.store.binding? config.state.globals name.lexeme).isSome →
      NameError config ⟨name, .alreadyDeclared name.lexeme⟩

end Config

namespace Lexical

variable {points : NodeId → Option Nat → Prop} {w : World} {context context' : Context}
  {config : ScopeScript.Config} {config' : Config} {state : ScopeScript.State} {state' : State}
  {await : Await}

/-! ## References -/

/-- A reference is recorded as the context of its place says. -/
theorem Agree.reference (h : Agree points w config config') {id : NodeId} {name : Token}
    (href : config.reference? = some (id, name)) :
    ∃ context, Meets points w context config.state config'.state
      ∧ points id (context.hops? name.lexeme) := by
  obtain ⟨control, frames, state⟩ := config
  obtain ⟨control', frames', state'⟩ := config'
  obtain ⟨hstate, -, context, await, context', hstands, hgives, hframes⟩ := h
  refine ⟨context, ⟨hstate, hstands⟩, ?_⟩
  cases hgives with
  | @eval expr hexpr =>
      cases expr with
      | «variable» =>
          cases href
          exact hexpr.2
      | assign =>
          cases href
          exact hexpr.2.1
      | superExpr =>
          cases href
          obtain ⟨hkeyword, -, distance, -, hsuper, hpoint⟩ := hexpr
          rw [hkeyword, hsuper]
          exact hpoint
      | thisExpr =>
          cases href
          obtain ⟨hkeyword, -, distance, hthis, hpoint⟩ := hexpr
          rw [hkeyword, hthis]
          exact hpoint
      | literal | unary | binary | logical | grouping | call | get | set => cases href
  | value =>
      cases hframes with
      | frame hwaits _ =>
          cases hwaits with
          | assign _ hpoint =>
              cases href
              exact hpoint
          | _ => cases href
  | exec | call | flow | fault => cases href

/-- A node with a distance finds its name that far outward, and not in the global scope. -/
theorem Meets.boundAt (h : Meets points w context state state') {id : NodeId} {name : Token}
    {distance : Nat} (hpoint : points id (context.hops? name.lexeme))
    (hlocal : state.locals[id]? = some distance) :
    ∃ scope binding, state.store.outward? state.current distance = some scope
      ∧ scope ≠ state.globals ∧ state.store.binding? scope name.lexeme = some binding := by
  have hhops : context.hops? name.lexeme = some distance :=
    (h.same.locals.known id _ hpoint).symm.trans hlocal
  obtain ⟨scope, hout, hbound, hparent⟩ := h.stands.chain.outward? hhops
  obtain ⟨binding, hbinding⟩ := Option.isSome_iff_exists.mp hbound
  rw [h.same.store, h.same.globals]
  refine ⟨scope, binding, hout, ?_, hbinding⟩
  -- The scope has a parent, which the global one has not.
  rintro rfl
  rw [h.same.memory.root] at hparent
  cases hparent

/-! ## Declarations -/

/-- A name is declared where it may be. -/
theorem Agree.declares (h : Agree points w config config') {name : Token}
    (hdeclares : config.declares? = some name) :
    ∃ context, Meets points w context config.state config'.state ∧ name.Plain
      ∧ context.Fresh name.lexeme := by
  obtain ⟨control, frames, state⟩ := config
  obtain ⟨control', frames', state'⟩ := config'
  obtain ⟨hstate, -, context, await, context', hstands, hgives, hframes⟩ := h
  refine ⟨context, ⟨hstate, hstands⟩, ?_⟩
  cases hgives with
  | @exec stmt hstmt =>
      cases stmt with
      | varDecl name initializer =>
          cases initializer <;> cases hdeclares
          exact ⟨hstmt.1, hstmt.2.1⟩
      | function declaration =>
          cases hdeclares
          exact ⟨hstmt.1, hstmt.2.1⟩
      | classDecl name superclass methods =>
          cases superclass <;> cases hdeclares
          exact ⟨hstmt.1, hstmt.2.1⟩
      | expression | print | letDecl | block | ifElse | whileLoop | returnStmt | breakStmt =>
          cases hdeclares
  | @value value =>
      cases hframes with
      | frame hwaits _ =>
          cases hwaits with
          | declare hplain hfresh =>
              cases hdeclares
              exact ⟨hplain, hfresh⟩
          | superclass hclass =>
              cases value <;> cases hdeclares
              exact ⟨hclass.1, hclass.2.1⟩
          | _ => cases hdeclares
  | eval | call | flow | fault => cases hdeclares

/-- In a scope that is not global, a name that may be declared is new. -/
theorem Meets.checkDeclare (h : Meets points w context state state') {name : Token}
    (hplain : name.Plain) (hfresh : context.Fresh name.lexeme)
    (hlocal : state.current ≠ state.globals) :
    state.store.checkDeclare state.current name = none := by
  cases context with
  | nil =>
      rw [h.same.globals] at hlocal
      exact (hlocal ((h.stands.chain.nil_iff h.same.memory.root).mp rfl)).elim
  | cons layer outer =>
      cases layer with
      | receiver | inherited => exact hfresh.elim
      | names list => exact (h.declareLocal hplain hfresh ⟨.nil, true⟩).1

/-- A function that is entered has as many parameters as arguments, with distinct names. -/
theorem Agree.enters (h : Agree points w config config') {declaration : FunctionDecl Stmt}
    {arguments : List Value} (henters : config.enters? = some (declaration, arguments)) :
    (declaration.params.map Token.lexeme).Nodup
      ∧ declaration.params.length = arguments.length := by
  obtain ⟨control, frames, state⟩ := config
  obtain ⟨control', frames', state'⟩ := config'
  obtain ⟨hstate, -, context, await, context', hstands, hgives, hframes⟩ := h
  have hheap := hstate.memory.heap
  cases hgives with
  | @call callee arguments harity =>
      cases callee with
      | function id =>
          obtain ⟨closure, hclosure, heq⟩ := Option.map_eq_some_iff.mp henters
          cases heq
          rw [hstate.store] at hclosure
          obtain ⟨closure', -, hsame⟩ := hheap.functions.get id closure hclosure
          obtain ⟨_, -, hscoped, -⟩ := hsame.scope
          rw [Heap.arity?, hclosure] at harity
          exact ⟨(FunctionDecl.scoped_iff.mp hscoped).1, Option.some.inj harity⟩
      | cls id =>
          obtain ⟨method, hmethod, heq⟩ := Option.map_eq_some_iff.mp henters
          cases heq
          rw [hstate.store] at hmethod
          obtain ⟨method', _, _, -, -, -, hsame⟩ := hheap.findMethod?_some hmethod
          obtain ⟨_, -, hscoped, -⟩ := hsame.scope
          rw [Heap.arity?, hmethod] at harity
          exact ⟨(FunctionDecl.scoped_iff.mp hscoped).1, Option.some.inj harity⟩
      | nil | bool | number | string | native | object => cases henters
  | eval | exec | value | flow | fault => cases henters

/-! ## Errors -/

theorem SameState.root (h : SameState points w state state') :
    (state.store.scope state.globals).parent = none := by
  rw [h.store, h.globals]
  exact h.memory.root

/-- Only a node without a distance can miss its name, and only among the globals. -/
theorem Meets.lookUp_error (h : Meets points w context state state') {id : NodeId} {name : Token}
    {error : RuntimeError} (hpoint : points id (context.hops? name.lexeme))
    (herror : state.lookUp id name = .error error) :
    state.locals[id]? = none ∧ state.store.binding? state.globals name.lexeme = none
      ∧ error = ⟨name, .undefinedVariable name.lexeme⟩ := by
  cases hlocal : state.locals[id]? with
  | some distance =>
      obtain ⟨scope, binding, hout, -, hbinding⟩ := h.boundAt hpoint hlocal
      rw [ScopeScript.State.lookUp, hlocal] at herror
      simp only [Store.getAt_of_outward? name hout hbinding] at herror
      cases herror
  | none =>
      rw [ScopeScript.State.lookUp, hlocal] at herror
      simp only [ScopeScript.Store.get, Store.holder?_of_root h.same.root] at herror
      cases hbinding : state.store.binding? state.globals name.lexeme with
      | some binding =>
          simp [hbinding, ScopeScript.Store.getHere] at herror
      | none =>
          simp only [hbinding, Option.isSome_none, Bool.false_eq_true, if_false] at herror
          cases herror
          exact ⟨rfl, rfl, rfl⟩

theorem Meets.assignTarget_error (h : Meets points w context state state') {id : NodeId}
    {name : Token} {error : RuntimeError} (hpoint : points id (context.hops? name.lexeme))
    (herror : state.assignTarget id name = .error error) (hname : error.cause.OfName) :
    state.locals[id]? = none ∧ state.store.binding? state.globals name.lexeme = none
      ∧ error = ⟨name, .undefinedVariable name.lexeme⟩ := by
  cases hlocal : state.locals[id]? with
  | some distance =>
      obtain ⟨scope, binding, hout, -, hbinding⟩ := h.boundAt hpoint hlocal
      rw [ScopeScript.State.assignTarget, hlocal] at herror
      simp only [ScopeScript.Store.assignTargetAt, Store.ancestor_of_outward? hout,
        ScopeScript.Store.checkAssign, hbinding] at herror
      cases hmutable : binding.mutable <;> simp only [hmutable] at herror <;> cases herror
      exact hname.elim
  | none =>
      rw [ScopeScript.State.assignTarget, hlocal] at herror
      simp only [ScopeScript.Store.assignTarget, Store.holder?_of_root h.same.root] at herror
      cases hbinding : state.store.binding? state.globals name.lexeme with
      | some binding =>
          simp only [hbinding, Option.isSome_some, if_true, ScopeScript.Store.checkAssign] at herror
          cases hmutable : binding.mutable <;> simp only [hmutable] at herror <;> cases herror
          exact hname.elim
      | none =>
          simp only [hbinding, Option.isSome_none, Bool.false_eq_true, if_false] at herror
          cases herror
          exact ⟨rfl, rfl, rfl⟩

/-- Only a global name can be declared twice. -/
theorem Meets.checkDeclare_error (h : Meets points w context state state') {name : Token}
    {error : RuntimeError} (hplain : name.Plain) (hfresh : context.Fresh name.lexeme)
    (herror : state.store.checkDeclare state.current name = some error) :
    state.current = state.globals ∧ (state.store.binding? state.globals name.lexeme).isSome
      ∧ error = ⟨name, .alreadyDeclared name.lexeme⟩ := by
  by_cases hcurrent : state.current = state.globals
  · rw [ScopeScript.Store.checkDeclare, hcurrent] at herror
    split at herror
    next hbound =>
      cases herror
      exact ⟨hcurrent, hbound, rfl⟩
    next => cases herror
  · rw [h.checkDeclare hplain hfresh hcurrent] at herror
    cases herror

/-- What is looked up for `super` is there. -/
theorem superMove_clear (h : Meets points w context state state') {id : NodeId}
    {keyword name : Token} (hscoped : (Expr.superExpr id keyword name).Scoped points context) :
    Move.Clear (ScopeScript.superMove id keyword name state) := by
  obtain ⟨distance, scope, object, owner, cls, method, superclass, hlocal, hout, -, hreceives, -, -,
    hsuper⟩ := h.superAt hscoped
  rw [superMove_eq hscoped.1 hout hreceives hsuper hlocal]
  split
  next => exact Move.clear_fail name (by nofun) state
  next => exact Move.clear_value _ _

/-- A call finds no parameter that is declared twice. -/
theorem Agree.callMove_clear {callee : Value} {arguments : List Value}
    {frames : List (Frame ScopeId)}
    (h : Agree points w ⟨.call callee arguments, frames, state⟩ config') :
    Move.Clear (ScopeScript.callMove callee arguments state) := by
  -- The checks of the arity have been made, so names and arguments pair up without a rest.
  have henters : ∀ declaration,
      Config.enters? ⟨.call callee arguments, frames, state⟩ = some (declaration, arguments) →
      ∀ parent, ∃ scope, (Scope.empty parent).declareAll (declaration.params.zip arguments) =
        .ok scope := fun declaration hdeclaration parent =>
    Scope.declareAll_zip (h.enters hdeclaration).1 (h.enters hdeclaration).2 parent
  cases callee with
  | nil | bool | number | string | object => exact Move.clear_fail nativeToken (by nofun) state
  | native id =>
      simp only [ScopeScript.callMove]
      cases state.store.natives[id]? with
      | none => exact Move.clear_fail nativeToken (by nofun) state
      | some native => exact nativeMove_clear _ arguments state
  | function id =>
      simp only [ScopeScript.callMove]
      cases hclosure : state.store.functions[id]? with
      | none => exact Move.clear_fail nativeToken (by nofun) state
      | some closure =>
          exact enterMove_clear (henters closure.declaration
            (by simp [Config.enters?, hclosure]) (some closure.scope)) state
  | cls id =>
      have hclasses : (state.store.addInstance id).2.classes = state.store.classes := rfl
      simp only [ScopeScript.callMove, ScopeScript.constructMove,
        Heap.findMethod?_congr hclasses id initializerName]
      cases hmethod : state.store.findMethod? id initializerName with
      | none => exact Move.clear_value _ _
      | some method =>
          obtain ⟨scope, hscope⟩ := henters method.declaration
            (by simp [Config.enters?, hmethod]) (some (state.store.addInstance id).2.scopes.size)
          exact enterMove_clear ⟨scope, hscope⟩ _

theorem evalMove_nameError (h : Agree points w config config') {expr : Expr}
    (hcontrol : config.control = .eval expr) {error : RuntimeError}
    (herror : (ScopeScript.evalMove expr config.state).control.error? = some error)
    (hname : error.cause.OfName) : config.NameError error := by
  have hlookUp : ∀ id name, config.reference? = some (id, name) →
      (MoveOf.result (config.state.lookUp id name) config.state : ScopeScript.Move).control.error? =
        some error → config.NameError error := by
    intro id name href herror
    obtain ⟨context, hmeets, hpoint⟩ := h.reference href
    cases hresult : config.state.lookUp id name with
    | ok value =>
        rw [hresult] at herror
        cases herror
    | error found =>
        rw [hresult] at herror
        cases herror
        obtain ⟨hlocal, hglobal, rfl⟩ := hmeets.lookUp_error hpoint hresult
        exact .missing href hlocal hglobal
  cases expr with
  | «variable» id name => exact hlookUp id name (by simp [Config.reference?, hcontrol]) herror
  | thisExpr id keyword => exact hlookUp id keyword (by simp [Config.reference?, hcontrol]) herror
  | superExpr id keyword name =>
      obtain ⟨context, await, context', hstands, hgives, -⟩ := h.work
      rw [hcontrol] at hgives
      cases hgives with
      | eval hscoped => exact (superMove_clear ⟨h.state, hstands⟩ hscoped error herror hname).elim
  | literal | unary | binary | logical | grouping | assign | call | get | set => cases herror

/-- A declaration reports what the check of its name does. -/
theorem Agree.declared (h : Agree points w config config') {name : Token} {error : RuntimeError}
    (hdeclares : config.declares? = some name)
    (herror : config.state.store.checkDeclare config.state.current name = some error) :
    config.NameError error := by
  obtain ⟨context, hmeets, hplain, hfresh⟩ := h.declares hdeclares
  obtain ⟨hcurrent, hbound, rfl⟩ := hmeets.checkDeclare_error hplain hfresh herror
  exact .repeated hdeclares hcurrent hbound

theorem Agree.inside (h : Agree points w config config') :
    config.state.current < config.state.store.scopes.size := by
  obtain ⟨context, await, context', hstands, -, -⟩ := h.work
  rw [h.state.store]
  exact hstands.chain.lt_size h.state.memory.inside

theorem execMove_nameError (h : Agree points w config config') {stmt : Stmt}
    (hcontrol : config.control = .exec stmt) {error : RuntimeError}
    (herror : (ScopeScript.execMove stmt config.state).control.error? = some error) :
    config.NameError error := by
  cases stmt with
  | varDecl name initializer =>
      cases initializer with
      | none =>
          rw [ScopeScript.execMove, declareMove_error?] at herror
          exact h.declared (by simp [Config.declares?, hcontrol]) herror
      | some => cases herror
  | function declaration =>
      rw [ScopeScript.execMove, declareMove_error?] at herror
      exact h.declared (by simp [Config.declares?, hcontrol]) herror
  | classDecl name superclass methods =>
      cases superclass with
      | none =>
          rw [ScopeScript.execMove, classMove_error? h.inside] at herror
          exact h.declared (by simp [Config.declares?, hcontrol]) herror
      | some => cases herror
  | returnStmt keyword value => cases value <;> cases herror
  | expression | print | letDecl | block | ifElse | whileLoop | breakStmt => cases herror

theorem onValue_nameError (h : Agree points w config config') {value : Value}
    (hcontrol : config.control = .done (.value value)) {frame : Frame ScopeId}
    {frames : List (Frame ScopeId)} (hframes : config.frames = frame :: frames)
    {error : RuntimeError}
    (herror : (frame.onValue value config.state).control.error? = some error)
    (hname : error.cause.OfName) : config.NameError error := by
  -- Most frames raise no error about a name at all; what is left is assignment and declaration.
  have hclear : ¬ Move.Clear (frame.onValue value config.state) := by
    intro hclear
    exact hclear error herror hname
  cases frame with
  | unary operator => exact (hclear (applyUnary_clear operator value _)).elim
  | binaryLeft => cases herror
  | binaryRight left operator => exact (hclear (applyBinary_clear _ left operator value _)).elim
  | logical operator right =>
      simp only [Frame.onValue] at herror
      split at herror <;> cases herror
  | assign id name =>
      have href : config.reference? = some (id, name) := by
        simp [Config.reference?, hcontrol, hframes]
      obtain ⟨context, hmeets, hpoint⟩ := h.reference href
      rw [Frame.onValue, ScopeScript.assignMove] at herror
      split at herror
      next found hfound =>
        cases herror
        obtain ⟨hlocal, hglobal, rfl⟩ := hmeets.assignTarget_error hpoint hfound hname
        exact .missing href hlocal hglobal
      next => cases herror
  | callee paren arguments => exact (hclear (nextArgument_clear value paren [] arguments _)).elim
  | argument called paren before after =>
      exact (hclear (nextArgument_clear called paren _ after _)).elim
  | get name => exact (hclear (getMove_clear name value _)).elim
  | setObject name expr =>
      cases value with
      | object => cases herror
      | nil | bool | number | string | native | function | cls =>
          exact (hclear (Move.clear_fail name (by exact not_false) _)).elim
  | setValue => cases herror
  | discard => cases herror
  | print => exact (hclear (writeMove_clear _ rfl _)).elim
  | declare name mutable =>
      rw [Frame.onValue, declareMove_error?] at herror
      exact h.declared (by simp [Config.declares?, hcontrol, hframes]) herror
  | returning => cases herror
  | branch thenBranch elseBranch =>
      simp only [Frame.onValue] at herror
      split at herror
      next => cases herror
      next => cases elseBranch <;> cases herror
  | whileTest condition body =>
      simp only [Frame.onValue] at herror
      split at herror <;> cases herror
  | superclass name expr methods =>
      cases value with
      | cls id =>
          rw [Frame.onValue, classMove_error? h.inside] at herror
          exact h.declared (by simp [Config.declares?, hcontrol, hframes]) herror
      | nil | bool | number | string | native | function | object =>
          exact (hclear (Move.clear_fail _ (by exact not_false) _)).elim
  | construct => cases herror
  | whileBody | block | activation | program => cases herror

/-- The initializer that runs has been bound to a receiver. -/
theorem Agree.initializer (h : Agree points w config config') {closure : Closure ScopeId}
    {frames : List (Frame ScopeId)} (hframes : config.frames = .activation closure :: frames)
    (hinitializer : closure.isInitializer = true) :
    ∃ object owner cls method, w.made closure.scope method object
      ∧ config.state.store.Receives closure.scope object owner cls method
      ∧ method.declaration = closure.declaration := by
  obtain ⟨control, frames₁, state⟩ := config
  obtain ⟨control', frames', state'⟩ := config'
  obtain ⟨hstate, -, context, await, context', -, -, hstacks⟩ := h
  obtain rfl : frames₁ = .activation closure :: frames := hframes
  cases hstacks with
  | frame hwaits _ =>
      cases hwaits with
      | activation hclosure =>
          have hreceives := hclosure.receives hinitializer
          rwa [← hstate.store] at hreceives

theorem onFlow_clear (h : Agree points w config config') {frame : Frame ScopeId}
    {frames : List (Frame ScopeId)} (hframes : config.frames = frame :: frames) (flow : Flow) :
    Move.Clear (frame.onFlow flow config.state) := by
  cases frame with
  | whileBody => cases flow <;> exact Move.clear_of_none rfl
  | block rest outer => cases flow <;> cases rest <;> exact Move.clear_of_none rfl
  | program rest => cases rest <;> exact Move.clear_of_none rfl
  | activation closure =>
      simp only [Frame.onFlow]
      split
      next hinitializer =>
        obtain ⟨object, owner, cls, method, -, hreceives, -⟩ := h.initializer hframes hinitializer
        have hthis : config.state.store.getAt closure.scope 0
            (thisToken closure.declaration.name.line) = .ok (.object object) :=
          hreceives.getAt rfl rfl
        rw [hthis]
        exact Move.clear_value _ _
      next => cases flow <;> exact Move.clear_of_none rfl
  | _ => exact Move.clear_of_none rfl

/-- An error about a name that is raised is one about a node without a distance, or about the global
scope. -/
theorem Agree.nameError (h : Agree points w config config') {error : RuntimeError}
    (hraises : config.raises? = some error) (hname : error.cause.OfName) :
    config.NameError error := by
  cases config with
  | mk control frames state =>
      cases control with
      | eval expr => exact evalMove_nameError h rfl hraises hname
      | exec stmt => exact execMove_nameError h rfl hraises
      | call callee arguments => exact (h.callMove_clear error hraises hname).elim
      | done outcome =>
          cases frames with
          | nil => cases outcome <;> cases hraises
          | cons frame frames =>
              cases outcome with
              | value value => exact onValue_nameError h rfl rfl hraises hname
              | flow flow => exact (onFlow_clear h rfl flow error hraises hname).elim
              | fault => cases hraises

end Lexical

/-! ## Every point -/

/-- At every point of a session, a node with a distance finds its name exactly that far outward, in
a scope that is not global; reading it there succeeds, and assigning to it can only fail because it
is a constant. What is declared in a scope that is not global is new there, and so are the
parameters of a function that is called. An error that a name is missing or declared twice is thus
raised only by a node without a distance and only for the global scope. -/
theorem local_names_never_fail {p : Point} (hp : p.Occurs) :
    (∀ id name distance, p.config.reference? = some (id, name) →
      p.state.locals[id]? = some distance →
      ∃ scope binding, p.store.outward? p.state.current distance = some scope
        ∧ scope ≠ p.state.globals ∧ p.store.binding? scope name.lexeme = some binding
        ∧ p.store.getAt p.state.current distance name = .ok binding.value
        ∧ p.store.assignTargetAt p.state.current distance name =
          if binding.mutable then .ok scope else .error ⟨name, .assignedConstant name.lexeme⟩)
    ∧ (∀ name, p.config.declares? = some name → p.state.current ≠ p.state.globals →
      p.store.checkDeclare p.state.current name = none)
    ∧ (∀ declaration arguments, p.config.enters? = some (declaration, arguments) →
      ∀ parent, ∃ scope,
        (Scope.empty parent).declareAll (declaration.params.zip arguments) = .ok scope)
    ∧ ∀ error, p.config.raises? = some error → error.cause.OfName → p.config.NameError error := by
  obtain ⟨points, w, config', -, -, hagree⟩ := hp.sound
  refine ⟨?_, ?_, ?_, fun error hraises => hagree.nameError hraises⟩
  · intro id name distance href hlocal
    obtain ⟨context, hmeets, hpoint⟩ := hagree.reference href
    obtain ⟨scope, binding, hout, hglobal, hbinding⟩ := hmeets.boundAt hpoint hlocal
    refine ⟨scope, binding, hout, hglobal, hbinding, Store.getAt_of_outward? name hout hbinding, ?_⟩
    simp only [Store.assignTargetAt, Store.ancestor_of_outward? hout, Store.checkAssign, hbinding]
    cases binding.mutable <;> rfl
  · intro name hdeclares hcurrent
    obtain ⟨context, hmeets, hplain, hfresh⟩ := hagree.declares hdeclares
    exact hmeets.checkDeclare hplain hfresh hcurrent
  · intro declaration arguments henters parent
    obtain ⟨hnodup, hlength⟩ := hagree.enters henters
    exact Scope.declareAll_zip hnodup hlength parent

/-- A variable of a block is found in the scope of the block. -/
theorem local_names_never_fail_in_block :
    ∃ name scope binding,
      let p := Point.inSource {} ⟨fun _ => 0, 0⟩ "{ var a; print a; }" 6
      p.config.reference? = some (0, name) ∧ name.lexeme = "a" ∧ p.state.locals[0]? = some 0
        ∧ p.store.outward? p.state.current 0 = some scope ∧ scope ≠ p.state.globals
        ∧ p.store.binding? scope name.lexeme = some binding := by
  let p := Point.inSource {} ⟨fun _ => 0, 0⟩ "{ var a; print a; }" 6
  have href : p.config.reference?.map (fun (id, name) => (id, name.lexeme)) = some (0, "a") := by
    decide +kernel
  have hlocal : p.state.locals[0]? = some 0 := by decide +kernel
  obtain ⟨⟨id, name⟩, href, heq⟩ := Option.map_eq_some_iff.mp href
  obtain ⟨rfl, hname⟩ := Prod.mk.inj heq
  obtain ⟨scope, binding, hout, hglobal, hbinding, -⟩ :=
    (local_names_never_fail (Point.inSource_occurs _ _ _ _)).1 0 name 0 href hlocal
  exact ⟨name, scope, binding, href, hname, hlocal, hout, hglobal, hbinding⟩

end ScopeScript
