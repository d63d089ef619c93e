import ScopeScript.Machine.Step
import ScopeScript.Proofs.Execution.Chain

/-!
# What moves bind and report

A move that gives a method of an instance binds the method to the instance. A move that cannot go
on reports an error. That a name is missing or is declared twice is reported only where a name is
looked up, assigned to or declared. Operators, properties, natives and output have nothing to do
with it, and neither have the parts of a class declaration and of a call that deal with names, as
long as what they ask for is there.
-/

namespace ScopeScript

/-- The method that `super` names, and the instance that it is bound to. -/
def State.superMethod? (state : State) (id : NodeId) (keyword name : Token) :
    Option (Closure ScopeId × InstanceId) :=
  match state.locals[id]? with
  | none => none
  | some distance =>
    match state.store.getAt state.current distance keyword,
      state.store.getAt state.current (distance - 1) (thisToken keyword.line) with
    | .ok (.cls superclass), .ok (.object receiver) =>
      (state.store.findMethod? superclass name.lexeme).map fun method => (method, receiver)
    | _, _ => none

/-- The method that is bound next, and the instance that it is bound to. -/
def Config.binds? (config : Config) : Option (Closure ScopeId × InstanceId) :=
  match config.control, config.frames with
  | .eval (.superExpr id keyword name), _ => config.state.superMethod? id keyword name
  | .call (.cls id) _, _ =>
    (config.state.store.findMethod? id initializerName).map fun method =>
      (method, config.state.store.instances.size)
  | .done (.value (.object object)), .get name :: _ =>
    match config.state.store.property? object name.lexeme with
    | some (.method method) => some (method, object)
    | _ => none
  | _, _ => none

/-- A cause is about a name that is missing or that is declared twice. -/
def RuntimeCause.OfName : RuntimeCause → Prop
  | .undefinedVariable _ | .alreadyDeclared _ => True
  | _ => False

/-- The error that work has stopped with. -/
def Control.error? : Control → Option RuntimeError
  | .done (.fault (.runtime error)) => some error
  | _ => none

/-- A move reports nothing about names. -/
def Move.Clear (move : Move) : Prop :=
  ∀ error, move.control.error? = some error → ¬ error.cause.OfName

namespace Move

variable {state : State}

theorem clear_of_none {move : Move} (h : move.control.error? = none) : move.Clear := by
  intro error herror
  rw [h] at herror
  cases herror

theorem clear_value (value : Value) (state : State) : Clear (.value value state) :=
  clear_of_none rfl

theorem clear_eval (expr : Expr) (push : List (Frame ScopeId)) (state : State) :
    Clear (.eval expr push state) :=
  clear_of_none rfl

theorem clear_fail (token : Token) {cause : RuntimeCause} (h : ¬ cause.OfName) (state : State) :
    Clear (.fail token cause state) := by
  rintro _ ⟨⟩
  exact h

theorem clear_result {result : Except RuntimeError Value}
    (h : ∀ error, result = .error error → ¬ error.cause.OfName) (state : State) :
    Clear (.result result state) := by
  cases result with
  | ok value => exact clear_value value state
  | error error =>
      rintro _ ⟨⟩
      exact h error rfl

end Move

open Move

variable {state : State}

/-! ## Operators, properties, natives -/

theorem applyUnary_clear (operator : Token) (right : Value) (state : State) :
    Clear (.result (applyUnary operator right) state) := by
  refine clear_result ?_ state
  intro error herror
  unfold applyUnary at herror
  split at herror
  next =>
    split at herror
    next => cases herror
    next =>
      cases herror
      nofun
  next => cases herror
  next =>
    cases herror
    nofun

theorem applyArithmetic_error {operator : Token} {a b : Float} {error : RuntimeError}
    (h : applyArithmetic operator a b = .error error) : ¬ error.cause.OfName := by
  unfold applyArithmetic at h
  split at h
  all_goals cases h
  nofun

theorem applyBinary_clear (heap : Heap ScopeId) (left : Value) (operator : Token) (right : Value)
    (state : State) : Clear (.result (applyBinary heap left operator right) state) := by
  refine clear_result ?_ state
  intro error herror
  unfold applyBinary at herror
  split at herror
  next => split at herror <;> cases herror
  next => cases herror
  next => cases herror
  next =>
    split at herror
    next => exact applyArithmetic_error herror
    next =>
      cases herror
      nofun

theorem writeMove_clear (lines : List String) {outcome : Outcome}
    (h : (Control.done outcome).error? = none) (state : State) :
    Clear (writeMove lines outcome state) := by
  unfold writeMove
  split
  next => exact clear_of_none h
  next => exact clear_of_none rfl

theorem getMove_clear (name : Token) (object : Value) (state : State) :
    Clear (getMove name object state) := by
  unfold getMove
  split
  next =>
    split
    next => exact clear_fail name (by nofun) state
    next => exact clear_value _ _
    next => exact clear_value _ _
  next => exact clear_fail name (by nofun) state

theorem invokeMove_clear (callee : Value) (paren : Token) (arguments : List Value) (state : State) :
    Clear (invokeMove callee paren arguments state) := by
  unfold invokeMove
  split
  next => exact clear_fail paren (by nofun) state
  next =>
    split
    next => exact clear_of_none rfl
    next => exact clear_fail paren (by nofun) state

theorem nativeMove_clear (behaviour : NativeBehaviour) (arguments : List Value) (state : State) :
    Clear (nativeMove behaviour arguments state) := by
  cases behaviour with
  | clock => exact clear_value _ _
  | printLine => exact writeMove_clear _ rfl state
  | first => exact clear_value _ _
  | count => exact clear_value _ _
  | emit => exact writeMove_clear _ rfl state
  | fail => exact clear_fail nativeToken (by nofun) state
  | apply =>
      cases arguments with
      | nil => exact clear_fail nativeToken (by nofun) state
      | cons => exact clear_of_none rfl

theorem nextArgument_clear (callee : Value) (paren : Token) (before : List Value)
    (after : List Expr) (state : State) :
    Clear (Frame.nextArgument callee paren before after state) := by
  cases after with
  | nil => exact invokeMove_clear callee paren before state
  | cons => exact clear_eval _ _ _

/-! ## Calls -/

/-- Parameters with distinct names can be declared in a new scope. -/
theorem Scope.declareAll_ok (pairs : List (Token × Value)) {scope : Scope}
    (hnodup : (pairs.map (·.1.lexeme)).Nodup)
    (hnew : ∀ pair ∈ pairs, scope.bindings.find? pair.1.lexeme = none) :
    ∃ scope', scope.declareAll pairs = .ok scope' := by
  induction pairs generalizing scope with
  | nil => exact ⟨scope, rfl⟩
  | cons pair rest ih =>
      obtain ⟨name, value⟩ := pair
      rw [List.map_cons, List.nodup_cons] at hnodup
      have habsent : scope.bindings.contains name.lexeme = false := by
        simp [NameMap.contains, hnew (name, value) (by simp)]
      rw [Scope.declareAll, habsent]
      apply ih hnodup.2
      intro other hother
      -- The names are distinct, so this declaration does not stand in the way of a later one.
      have hne : other.1.lexeme ≠ name.lexeme := fun heq =>
        hnodup.1 (List.mem_map.mpr ⟨other, hother, heq⟩)
      rw [Scope.bind, NameMap.find?_insert, if_neg hne]
      exact hnew other (by simp [hother])

/-- Parameters can be declared for as many arguments. -/
theorem Scope.declareAll_zip {params : List Token} {arguments : List Value}
    (hnodup : (params.map Token.lexeme).Nodup) (hlength : params.length = arguments.length)
    (parent : Option ScopeId) :
    ∃ scope, (Scope.empty parent).declareAll (params.zip arguments) = .ok scope := by
  refine declareAll_ok _ ?_ fun pair _ => rfl
  have hfst : (params.zip arguments).map Prod.fst = params :=
    List.map_fst_zip (Nat.le_of_eq hlength)
  have hnames : (params.zip arguments).map (·.1.lexeme) = params.map Token.lexeme := by
    rw [← hfst, List.map_map, hfst]
    rfl
  rw [hnames]
  exact hnodup

theorem enterMove_clear {closure : Closure ScopeId} {arguments : List Value}
    (h : ∃ scope, (Scope.empty (some closure.scope)).declareAll
      (closure.declaration.params.zip arguments) = .ok scope) (state : State) :
    Clear (enterMove closure arguments state) := by
  obtain ⟨scope, hscope⟩ := h
  simp only [enterMove, hscope]
  exact clear_of_none rfl

/-! ## Classes -/

theorem classScope_binding? (superclass : Option ClassId) {id : ScopeId}
    (hid : id < state.store.scopes.size) (name : String) :
    (classScope superclass state).2.binding? id name = state.store.binding? id name := by
  cases superclass with
  | none => rfl
  | some superclass =>
      rw [classScope, Store.binding?_addScope, if_neg (Nat.ne_of_lt hid)]

/-- A class is assigned to its name where the name has just been declared. -/
theorem defineClass_eq {name : Token} {superclass : Option ClassId}
    {methods : List (FunctionDecl Stmt)} (hcurrent : state.current < state.store.scopes.size)
    (hbinding : state.store.binding? state.current name.lexeme = some ⟨.nil, true⟩) :
    let (scope, store) := classScope superclass state
    let (id, store) := store.addClass ⟨name.lexeme, superclass, methodTable scope methods⟩
    defineClass name superclass methods state =
      .normal { state with store := store.put state.current name (.cls id) } := by
  -- The search for the name ends in the current scope, so nothing further out is assigned to.
  have htarget : ((classScope superclass state).2.addClass ⟨name.lexeme, superclass,
      methodTable (classScope superclass state).1 methods⟩).2.assignTarget state.current name =
        .ok state.current :=
    Store.assignTarget_here ((classScope_binding? superclass hcurrent name.lexeme).trans hbinding)
  simp only [defineClass, htarget]

theorem classMove_error? {name : Token} {superclass : Option ClassId}
    {methods : List (FunctionDecl Stmt)} (hcurrent : state.current < state.store.scopes.size) :
    (classMove name superclass methods state).control.error? =
      state.store.checkDeclare state.current name := by
  unfold classMove
  split
  next error hcheck =>
    rw [hcheck]
    rfl
  next hcheck =>
    rw [hcheck, defineClass_eq]
    · rfl
    · simpa [Store.bind] using hcurrent
    · simp [Store.binding?_bind hcurrent]

theorem declareMove_error? (name : Token) (binding : Binding) (state : State) :
    (declareMove name binding state).control.error? =
      state.store.checkDeclare state.current name := by
  unfold declareMove
  split
  next hcheck =>
    rw [hcheck]
    rfl
  next hcheck =>
    rw [hcheck]
    rfl

/-! ## `super` -/

section Super

variable {id : NodeId} {keyword name : Token} {distance : Nat} {scope : ScopeId}
  {object : InstanceId} {superclass owner : ClassId} {cls : Class ScopeId}
  {method : Closure ScopeId} (hkeyword : keyword.lexeme = "super")
  (hout : state.store.outward? state.current distance = some scope)
  (hreceives : state.store.Receives scope object owner cls method)
  (hsuper : state.store.binding? method.scope "super" = some ⟨.cls superclass, true⟩)

include hkeyword hout hreceives hsuper

theorem super_found :
    state.store.getAt state.current (distance + 1) keyword = .ok (.cls superclass)
      ∧ state.store.getAt state.current distance (thisToken keyword.line) =
        .ok (.object object) := by
  rw [← hkeyword] at hsuper
  have hparent := Store.outward?_parent hout hreceives.around
  exact ⟨Store.getAt_of_outward? keyword hparent hsuper, hreceives.getAt hout rfl⟩

variable (hlocal : state.locals[id]? = some (distance + 1))

include hlocal

/-- Where `super` and the receiver are in their places, `super` gives the method that is found from
the superclass on, bound to the receiver. -/
theorem superMove_eq :
    superMove id keyword name state =
      match state.store.findMethod? superclass name.lexeme with
      | none => .fail name (.undefinedProperty name.lexeme) state
      | some found =>
        .value (state.store.bindMethodValue found object).1
          { state with store := (state.store.bindMethodValue found object).2 } := by
  obtain ⟨hgetSuper, hgetThis⟩ := super_found hkeyword hout hreceives hsuper
  cases hfound : state.store.findMethod? superclass name.lexeme with
  | none => simp only [superMove, hlocal, hgetSuper, Nat.add_sub_cancel, hgetThis, hfound]
  | some found => simp only [superMove, hlocal, hgetSuper, Nat.add_sub_cancel, hgetThis, hfound]

theorem superMethod?_eq :
    state.superMethod? id keyword name =
      (state.store.findMethod? superclass name.lexeme).map fun found => (found, object) := by
  obtain ⟨hgetSuper, hgetThis⟩ := super_found hkeyword hout hreceives hsuper
  simp only [State.superMethod?, hlocal, hgetSuper, Nat.add_sub_cancel, hgetThis]

end Super

end ScopeScript
