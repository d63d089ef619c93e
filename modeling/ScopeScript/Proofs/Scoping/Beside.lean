import ScopeScript.Binding.Resolve
import ScopeScript.Proofs.Scoping.Renaming

/-!
# Walks side by side

What the walk over a program does depends on the scopes and contexts that it keeps, and on nothing
that it has recorded. So two walks that stand in the same scopes do the same, whatever each has
recorded before, and over trees that differ in their numbers they record the same under different
numbers.
-/

namespace ScopeScript.Resolver

/-- What two walks side by side may have recorded, given how their numbers go together. -/
structure Pairing where
  rename : NodeId → NodeId
  locals : Locals → Locals → Prop
  insert : ∀ {l l' : Locals} (id : NodeId) (distance : Nat), locals l l' →
    locals (l.insert id distance) (l'.insert (rename id) distance)

/-- Two walks stand in the same scopes; the second had found some errors and warnings before. -/
structure Beside (pairing : Pairing) (errors warnings : List ScopeError) (r r' : Resolver) :
    Prop where
  scopes : r'.scopes = r.scopes
  enclosingFunction : r'.enclosingFunction = r.enclosingFunction
  enclosingClass : r'.enclosingClass = r.enclosingClass
  loopDepth : r'.loopDepth = r.loopDepth
  locals : pairing.locals r.locals r'.locals
  errors : r'.errors = errors ++ r.errors
  warnings : r'.warnings = warnings ++ r.warnings

namespace Beside

variable {pairing : Pairing} {errors warnings : List ScopeError} {r r' : Resolver}
  (h : Beside pairing errors warnings r r')

include h

theorem error (token : Token) (cause : ScopeCause) :
    Beside pairing errors warnings (r.error token cause) (r'.error token cause) :=
  ⟨h.scopes, h.enclosingFunction, h.enclosingClass, h.loopDepth, h.locals,
    by simp [Resolver.error, h.errors], h.warnings⟩

theorem warn (token : Token) (cause : ScopeCause) :
    Beside pairing errors warnings (r.warn token cause) (r'.warn token cause) :=
  ⟨h.scopes, h.enclosingFunction, h.enclosingClass, h.loopDepth, h.locals, h.errors,
    by simp [Resolver.warn, h.warnings]⟩

/-- Both walks change their scopes. -/
theorem withScopes (scopes : List StaticScope) :
    Beside pairing errors warnings { r with scopes } { r' with scopes } :=
  ⟨rfl, h.enclosingFunction, h.enclosingClass, h.loopDepth, h.locals, h.errors, h.warnings⟩

/-- Both walks change the class around them. -/
theorem withClass (enclosingClass : ClassContext) :
    Beside pairing errors warnings { r with enclosingClass } { r' with enclosingClass } :=
  ⟨h.scopes, h.enclosingFunction, rfl, h.loopDepth, h.locals, h.errors, h.warnings⟩

/-- Both walks count the loops around them anew. -/
theorem withLoops (count : Nat → Nat) :
    Beside pairing errors warnings { r with loopDepth := count r.loopDepth }
      { r' with loopDepth := count r'.loopDepth } :=
  ⟨h.scopes, h.enclosingFunction, h.enclosingClass, congrArg count h.loopDepth, h.locals, h.errors,
    h.warnings⟩

/-- Both walks change the function and the loops around them. -/
theorem withLevel (enclosingFunction : FunctionContext) (loopDepth : Nat) :
    Beside pairing errors warnings { r with enclosingFunction, loopDepth }
      { r' with enclosingFunction, loopDepth } :=
  ⟨h.scopes, rfl, h.enclosingClass, rfl, h.locals, h.errors, h.warnings⟩

theorem push : Beside pairing errors warnings r.push r'.push := by
  have hpush := h.withScopes (.empty :: r.scopes)
  rwa [Resolver.push, Resolver.push, h.scopes]

theorem pop : Beside pairing errors warnings r.pop r'.pop := by
  have hpop := h.withScopes r.scopes.tail
  rwa [Resolver.pop, Resolver.pop, h.scopes]

theorem define (name : String) :
    Beside pairing errors warnings (r.define name) (r'.define name) := by
  unfold Resolver.define
  rw [h.scopes]
  cases r.scopes with
  | nil => exact h
  | cons scope outer => exact h.withScopes (scope.insert name .defined :: outer)

theorem declare (name : Token) :
    Beside pairing errors warnings (r.declare name) (r'.declare name) := by
  unfold Resolver.declare
  rw [h.scopes]
  cases r.scopes with
  | nil => exact h
  | cons scope outer =>
      dsimp only
      split
      next => exact h.error name .redeclared
      next => exact h.withScopes (scope.insert name.lexeme .declared :: outer)

theorem introduce (name : Token) :
    Beside pairing errors warnings (r.introduce name) (r'.introduce name) :=
  (h.declare name).define name.lexeme

theorem bind (id : NodeId) (name : Token) :
    Beside pairing errors warnings (r.bind id name) (r'.bind (pairing.rename id) name) := by
  unfold Resolver.bind
  rw [h.scopes]
  split
  next distance _ =>
    exact ⟨rfl, h.enclosingFunction, h.enclosingClass, h.loopDepth,
      pairing.insert id distance h.locals, h.errors, h.warnings⟩
  next => exact h

theorem read (id : NodeId) (name : Token) :
    Beside pairing errors warnings (r.read id name) (r'.read (pairing.rename id) name) := by
  have hinitializing : r'.initializing name.lexeme = r.initializing name.lexeme := by
    rw [initializing, initializing, h.scopes]
  unfold Resolver.read
  rw [hinitializing]
  dsimp only
  split
  next => exact (h.warn name .ownInitializer).bind id name
  next => exact h.bind id name

theorem receiver (id : NodeId) (keyword : Token) :
    Beside pairing errors warnings (r.receiver id keyword)
      (r'.receiver (pairing.rename id) keyword) := by
  unfold Resolver.receiver
  rw [h.enclosingClass]
  split
  next => exact h.error keyword .thisOutsideClass
  next => exact h.bind id keyword

theorem inherited (id : NodeId) (keyword : Token) :
    Beside pairing errors warnings (r.inherited id keyword)
      (r'.inherited (pairing.rename id) keyword) := by
  unfold Resolver.inherited
  rw [h.enclosingClass]
  split
  next => exact h.error keyword .superOutsideClass
  next => exact h.error keyword .superWithoutSuperclass
  next => exact h.bind id keyword

end Beside

section Walks

variable {pairing : Pairing} {errors warnings : List ScopeError}

mutual
theorem expression_beside : ∀ (e : Expr) {r r' : Resolver}, Beside pairing errors warnings r r' →
    Beside pairing errors warnings (r.expression e) (r'.expression (e.rename pairing.rename))
  | .literal _, _, _, h => h
  | .grouping inner, _, _, h => expression_beside inner h
  | .unary _ right, _, _, h => expression_beside right h
  | .binary left _ right, _, _, h => expression_beside right (expression_beside left h)
  | .logical left _ right, _, _, h => expression_beside right (expression_beside left h)
  | .variable id name, _, _, h => h.read id name
  | .assign id name value, _, _, h => (expression_beside value h).bind id name
  | .call callee _ arguments, _, _, h => expressions_beside arguments (expression_beside callee h)
  | .get object _, _, _, h => expression_beside object h
  | .set object _ value, _, _, h => expression_beside object (expression_beside value h)
  | .thisExpr id keyword, _, _, h => h.receiver id keyword
  | .superExpr id keyword _, _, _, h => h.inherited id keyword

theorem expressions_beside : ∀ (list : List Expr) {r r' : Resolver},
    Beside pairing errors warnings r r' →
    Beside pairing errors warnings (r.expressions list)
      (r'.expressions (Expr.renameAll pairing.rename list))
  | [], _, _, h => h
  | e :: rest, _, _, h => expressions_beside rest (expression_beside e h)
end

variable {r r' : Resolver} (h : Beside pairing errors warnings r r')

include h

theorem expression?_beside (e : Option Expr) :
    Beside pairing errors warnings (r.expression? e)
      (r'.expression? (e.map (Expr.rename pairing.rename))) := by
  cases e with
  | none => exact h
  | some e => exact expression_beside e h

theorem introduceAll_beside (params : List Token) :
    Beside pairing errors warnings (params.foldl introduce r) (params.foldl introduce r') := by
  induction params generalizing r r' with
  | nil => exact h
  | cons param rest ih => exact ih (h.introduce param)

theorem checkReturn_beside (keyword : Token) (hasValue : Bool) :
    Beside pairing errors warnings (r.checkReturn keyword hasValue)
      (r'.checkReturn keyword hasValue) := by
  have hfirst : Beside pairing errors warnings
      (if r.enclosingFunction = .none then r.error keyword .returnAtTopLevel else r)
      (if r'.enclosingFunction = .none then r'.error keyword .returnAtTopLevel else r') := by
    rw [h.enclosingFunction]
    split
    next => exact h.error keyword .returnAtTopLevel
    next => exact h
  unfold checkReturn
  dsimp only
  generalize (if r.enclosingFunction = .none then _ else r) = checked at hfirst ⊢
  generalize (if r'.enclosingFunction = .none then _ else r') = checked' at hfirst ⊢
  rw [hfirst.enclosingFunction]
  split
  next => exact hfirst.error keyword .returnFromInitializer
  next => exact hfirst

theorem checkBreak_beside (keyword : Token) :
    Beside pairing errors warnings (r.checkBreak keyword) (r'.checkBreak keyword) := by
  unfold checkBreak
  rw [h.loopDepth]
  split
  next => exact h.error keyword .breakOutsideLoop
  next => exact h

theorem checkInheritance_beside (name : Token) (superclass : Expr) :
    Beside pairing errors warnings (r.checkInheritance name superclass)
      (r'.checkInheritance name (superclass.rename pairing.rename)) := by
  cases superclass with
  | «variable» id superName =>
      simp only [checkInheritance, Expr.rename]
      split
      next => exact h.error superName .selfInheritance
      next => exact h
  | _ => exact h

theorem enterClass_beside (name : Token) (superclass : Option Expr) :
    Beside pairing errors warnings (r.enterClass name superclass)
      (r'.enterClass name (superclass.map (Expr.rename pairing.rename))) := by
  have hname := (h.withClass .plain).introduce name
  cases superclass with
  | none => exact hname.push.define "this"
  | some superclass =>
      have hcheck := (checkInheritance_beside hname name superclass).withClass .derived
      exact ((expression_beside superclass hcheck).push.define "super").push.define "this"

theorem leaveClass_beside (superclass : Option Expr) (outer : ClassContext) :
    Beside pairing errors warnings (r.leaveClass superclass outer)
      (r'.leaveClass (superclass.map (Expr.rename pairing.rename)) outer) := by
  cases superclass with
  | none => exact h.pop.withClass outer
  | some => exact h.pop.pop.withClass outer

theorem enterFunction_beside (context : FunctionContext) (params : List Token) :
    Beside pairing errors warnings (r.enterFunction context params)
      (r'.enterFunction context params) :=
  introduceAll_beside (h.withLevel context 0).push params

theorem leaveFunction_beside (outer : FunctionContext) (loopDepth : Nat) :
    Beside pairing errors warnings (r.leaveFunction outer loopDepth)
      (r'.leaveFunction outer loopDepth) :=
  h.pop.withLevel outer loopDepth

end Walks

section Statements

variable {pairing : Pairing} {errors warnings : List ScopeError}

mutual
theorem statement_beside : ∀ (s : Stmt) {r r' : Resolver}, Beside pairing errors warnings r r' →
    Beside pairing errors warnings (r.statement s) (r'.statement (s.rename pairing.rename))
  | .expression value, _, _, h => expression_beside value h
  | .print value, _, _, h => expression_beside value h
  | .varDecl name initializer, _, _, h =>
      (expression?_beside (h.declare name) initializer).define name.lexeme
  | .letDecl name initializer, _, _, h =>
      (expression_beside initializer (h.declare name)).define name.lexeme
  | .block body, _, _, h => (statements_beside body h.push).pop
  | .ifElse condition thenBranch none, _, _, h =>
      statement_beside thenBranch (expression_beside condition h)
  | .ifElse condition thenBranch (some elseBranch), _, _, h =>
      statement_beside elseBranch (statement_beside thenBranch (expression_beside condition h))
  | .whileLoop condition body, r, r', h => by
      have hcondition := expression_beside condition h
      have hbody := statement_beside body (hcondition.withLoops (· + 1))
      exact hbody.withLoops (· - 1)
  | .function declaration, _, _, h => by
      rw [Stmt.rename, statement, statement, FunctionDecl.rename_name]
      exact function_beside declaration .function (h.introduce declaration.name)
  | .returnStmt keyword value, _, _, h => by
      rw [Stmt.rename, statement, statement, Option.isSome_map]
      exact expression?_beside (checkReturn_beside h keyword value.isSome) value
  | .breakStmt keyword, _, _, h => checkBreak_beside h keyword
  | .classDecl name superclass methods, r, r', h => by
      have hleft := leaveClass_beside (methods_beside methods (enterClass_beside h name superclass))
        superclass r.enclosingClass
      rwa [statement, Stmt.rename, statement, h.enclosingClass]

theorem statements_beside : ∀ (list : List Stmt) {r r' : Resolver},
    Beside pairing errors warnings r r' →
    Beside pairing errors warnings (r.statements list)
      (r'.statements (Stmt.renameAll pairing.rename list))
  | [], _, _, h => h
  | s :: rest, _, _, h => statements_beside rest (statement_beside s h)

theorem function_beside : ∀ (declaration : FunctionDecl Stmt) (context : FunctionContext)
    {r r' : Resolver}, Beside pairing errors warnings r r' →
    Beside pairing errors warnings (r.function context declaration)
      (r'.function context (FunctionDecl.rename pairing.rename declaration))
  | ⟨_, params, body⟩, context, r, r', h => by
      have hbody := statements_beside body (enterFunction_beside h context params)
      have hleft := leaveFunction_beside hbody r.enclosingFunction r.loopDepth
      rwa [function, FunctionDecl.rename, function, h.enclosingFunction, h.loopDepth]

theorem methods_beside : ∀ (list : List (FunctionDecl Stmt)) {r r' : Resolver},
    Beside pairing errors warnings r r' →
    Beside pairing errors warnings (r.methods list)
      (r'.methods (FunctionDecl.renameAll pairing.rename list))
  | [], _, _, h => h
  | ⟨name, params, body⟩ :: rest, _, _, h =>
      methods_beside rest
        (function_beside ⟨name, params, body⟩ (methodContext ⟨name, params, body⟩) h)
end

end Statements

/-- Two walks have recorded the same, each under its own numbers. -/
def Pairing.under {f : NodeId → NodeId} (hf : Function.Injective f) : Pairing where
  rename := f
  locals l l' := ∀ id, l'[f id]? = l[id]?
  insert id distance h := by
    intro other
    rw [Std.ExtTreeMap.getElem?_insert, Std.ExtTreeMap.getElem?_insert, h other]
    simp only [Std.LawfulEqCmp.compare_eq_iff_eq, hf.eq_iff]

end ScopeScript.Resolver

namespace ScopeScript

theorem resolve_of_isEmpty {program : Program}
    (h : (Resolver.start.statements program).errors = []) :
    resolve program = .ok ⟨(Resolver.start.statements program).locals,
      (Resolver.start.statements program).warnings⟩ := by
  simp [resolve, h]

theorem resolve_of_errors {program : Program}
    (h : (Resolver.start.statements program).errors ≠ []) :
    resolve program = .error (Resolver.start.statements program).errors := by
  simp [resolve, h]

/-! ## Other numbers -/

section Renumbered

variable {f : NodeId → NodeId} (hf : Function.Injective f) (program : Program)

include hf

theorem Resolver.beside_rename :
    Beside (.under hf) [] [] (start.statements program)
      (start.statements (Stmt.renameAll f program)) := by
  refine statements_beside program ⟨rfl, rfl, rfl, rfl, ?_, rfl, rfl⟩
  simp [Pairing.under, start]

/-- With other numbers a program has the same warnings, and the same bindings under those. -/
theorem resolve_rename_ok {resolution : Resolution} (h : resolve program = .ok resolution) :
    ∃ locals, resolve (Stmt.renameAll f program) = .ok ⟨locals, resolution.warnings⟩
      ∧ ∀ id, locals[f id]? = resolution.locals[id]? := by
  have hbeside := Resolver.beside_rename hf program
  have herrors := hbeside.errors
  by_cases hempty : (Resolver.start.statements program).errors = []
  · rw [resolve_of_isEmpty hempty] at h
    cases h
    rw [hempty] at herrors
    exact ⟨_, by rw [resolve_of_isEmpty herrors, hbeside.warnings]; rfl, hbeside.locals⟩
  · rw [resolve_of_errors hempty] at h
    cases h

/-- With other numbers a program has the same errors. -/
theorem resolve_rename_error {errors : List ScopeError} (h : resolve program = .error errors) :
    resolve (Stmt.renameAll f program) = .error errors := by
  have herrors := (Resolver.beside_rename hf program).errors
  by_cases hempty : (Resolver.start.statements program).errors = []
  · rw [resolve_of_isEmpty hempty] at h
    cases h
  · rw [resolve_of_errors hempty] at h
    cases h
    rw [List.nil_append] at herrors
    rw [← herrors] at hempty ⊢
    exact resolve_of_errors hempty

end Renumbered

end ScopeScript
