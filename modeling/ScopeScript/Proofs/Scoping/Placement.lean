import ScopeScript.Proofs.Scoping.Walk

/-!
# Where `return` and `break` may stand

A judgement says which statements may stand at a place: with which function around it, and with or
without a loop of the same function around it. The walk over a program keeps track of both, returns
to them after every part, and leaves an error wherever the judgement fails. So in an accepted
program every statement may stand where the walk has come to it.
-/

namespace ScopeScript

/-- A statement may stand with a function, and maybe a loop of the same function, around it. -/
inductive Stmt.Placed : FunctionContext → Bool → Stmt → Prop
  | expression {context inLoop value} : Placed context inLoop (.expression value)
  | print {context inLoop value} : Placed context inLoop (.print value)
  | varDecl {context inLoop name initializer} :
      Placed context inLoop (.varDecl name initializer)
  | letDecl {context inLoop name initializer} :
      Placed context inLoop (.letDecl name initializer)
  | block {context inLoop body} : (∀ stmt ∈ body, Placed context inLoop stmt) →
      Placed context inLoop (.block body)
  | ifElse {context inLoop condition thenBranch elseBranch} :
      Placed context inLoop thenBranch → (∀ stmt ∈ elseBranch, Placed context inLoop stmt) →
      Placed context inLoop (.ifElse condition thenBranch elseBranch)
  | whileLoop {context inLoop condition body} : Placed context true body →
      Placed context inLoop (.whileLoop condition body)
  | function {context inLoop declaration} :
      (∀ stmt ∈ declaration.body, Placed .function false stmt) →
      Placed context inLoop (.function declaration)
  | returnStmt {context inLoop keyword value} : context ≠ .none →
      (context = .initializer → value = none) → Placed context inLoop (.returnStmt keyword value)
  | breakStmt {context keyword} : Placed context true (.breakStmt keyword)
  | classDecl {context inLoop name superclass methods} :
      (∀ method ∈ methods, ∀ stmt ∈ method.body,
        Placed (Resolver.methodContext method) false stmt) →
      Placed context inLoop (.classDecl name superclass methods)

/-- Every method of a class may stand as one. -/
def MethodsPlaced (methods : List (FunctionDecl Stmt)) : Prop :=
  ∀ method ∈ methods, ∀ stmt ∈ method.body, stmt.Placed (Resolver.methodContext method) false

namespace Resolver

/-- The function and the loops around two moments of the walk are the same. -/
structure Level (r r' : Resolver) : Prop where
  enclosingFunction : r'.enclosingFunction = r.enclosingFunction
  loopDepth : r'.loopDepth = r.loopDepth

namespace Level

theorem refl (r : Resolver) : Level r r :=
  ⟨rfl, rfl⟩

theorem trans {r r' r'' : Resolver} (h : Level r r') (h' : Level r' r'') : Level r r'' :=
  ⟨h'.enclosingFunction.trans h.enclosingFunction, h'.loopDepth.trans h.loopDepth⟩

end Level

theorem bind_level (r : Resolver) (id : NodeId) (name : Token) : Level r (r.bind id name) := by
  unfold bind
  split <;> exact ⟨rfl, rfl⟩

theorem receiver_level (r : Resolver) (id : NodeId) (keyword : Token) :
    Level r (r.receiver id keyword) := by
  unfold receiver
  split
  next => exact ⟨rfl, rfl⟩
  next => exact bind_level ..

theorem inherited_level (r : Resolver) (id : NodeId) (keyword : Token) :
    Level r (r.inherited id keyword) := by
  unfold inherited
  split
  next => exact ⟨rfl, rfl⟩
  next => exact ⟨rfl, rfl⟩
  next => exact bind_level ..

theorem read_level (r : Resolver) (id : NodeId) (name : Token) : Level r (r.read id name) := by
  have hwarn : Level r (r.warn name .ownInitializer) := ⟨rfl, rfl⟩
  unfold read
  split
  next => exact hwarn.trans (bind_level ..)
  next => exact bind_level ..

mutual
theorem expression_level : ∀ (e : Expr) (r : Resolver), Level r (r.expression e)
  | .literal _, r => .refl r
  | .grouping inner, r => expression_level inner r
  | .unary _ right, r => expression_level right r
  | .binary left _ right, r => (expression_level left r).trans (expression_level right _)
  | .logical left _ right, r => (expression_level left r).trans (expression_level right _)
  | .variable id name, r => read_level r id name
  | .assign id name value, r => (expression_level value r).trans (bind_level _ id name)
  | .call callee _ arguments, r => (expression_level callee r).trans (expressions_level arguments _)
  | .get object _, r => expression_level object r
  | .set object _ value, r => (expression_level value r).trans (expression_level object _)
  | .thisExpr id keyword, r => receiver_level r id keyword
  | .superExpr id keyword _, r => inherited_level r id keyword

theorem expressions_level : ∀ (list : List Expr) (r : Resolver), Level r (r.expressions list)
  | [], r => .refl r
  | e :: rest, r => (expression_level e r).trans (expressions_level rest _)
end

theorem expression?_level (r : Resolver) (e : Option Expr) : Level r (r.expression? e) := by
  cases e with
  | none => exact .refl r
  | some e => exact expression_level e r

theorem declare_level (r : Resolver) (name : Token) : Level r (r.declare name) := by
  unfold declare
  split
  next => exact .refl r
  next => split <;> exact ⟨rfl, rfl⟩

theorem define_level (r : Resolver) (name : String) : Level r (r.define name) := by
  unfold define
  split <;> exact ⟨rfl, rfl⟩

theorem introduce_level (r : Resolver) (name : Token) : Level r (r.introduce name) :=
  (declare_level r name).trans (define_level _ name.lexeme)

theorem introduceAll_level (params : List Token) (r : Resolver) :
    Level r (params.foldl introduce r) := by
  induction params generalizing r with
  | nil => exact .refl r
  | cons param rest ih => exact (introduce_level r param).trans (ih (r.introduce param))

theorem checkReturn_level (r : Resolver) (keyword : Token) (hasValue : Bool) :
    Level r (r.checkReturn keyword hasValue) := by
  unfold checkReturn
  dsimp only
  split <;> split <;> exact ⟨rfl, rfl⟩

theorem checkBreak_level (r : Resolver) (keyword : Token) : Level r (r.checkBreak keyword) := by
  unfold checkBreak
  split <;> exact ⟨rfl, rfl⟩

theorem checkInheritance_level (r : Resolver) (name : Token) (superclass : Expr) :
    Level r (r.checkInheritance name superclass) := by
  unfold checkInheritance
  split
  next => split <;> exact ⟨rfl, rfl⟩
  next => exact .refl r

theorem push_level (r : Resolver) : Level r r.push :=
  ⟨rfl, rfl⟩

theorem push_define_level (r : Resolver) (name : String) : Level r (r.push.define name) :=
  (push_level r).trans (define_level r.push name)

theorem withClass_level (r : Resolver) (context : ClassContext) :
    Level r { r with enclosingClass := context } :=
  ⟨rfl, rfl⟩

theorem enterClass_level (r : Resolver) (name : Token) (superclass : Option Expr) :
    Level r (r.enterClass name superclass) := by
  have hname : Level r ({ r with enclosingClass := .plain }.introduce name) :=
    (withClass_level r .plain).trans (introduce_level _ name)
  unfold enterClass
  dsimp only
  cases superclass with
  | none => exact hname.trans (push_define_level _ "this")
  | some superclass =>
      have hcheck := checkInheritance_level
        ({ r with enclosingClass := .plain }.introduce name) name superclass
      refine hname.trans (hcheck.trans ((withClass_level _ .derived).trans ?_))
      refine (expression_level superclass _).trans ?_
      exact (push_define_level _ "super").trans (push_define_level _ "this")

theorem leaveClass_level (r : Resolver) (superclass : Option Expr) (outer : ClassContext) :
    Level r (r.leaveClass superclass outer) := by
  unfold leaveClass
  dsimp only
  split <;> exact ⟨rfl, rfl⟩

theorem function_level (r : Resolver) (context : FunctionContext)
    (declaration : FunctionDecl Stmt) : Level r (r.function context declaration) := by
  obtain ⟨name, params, body⟩ := declaration
  rw [function]
  exact ⟨rfl, rfl⟩

theorem methods_level (r : Resolver) (list : List (FunctionDecl Stmt)) :
    Level r (r.methods list) := by
  induction list generalizing r with
  | nil => exact .refl r
  | cons method rest ih =>
      rw [methods]
      exact (function_level r (methodContext method) method).trans (ih _)

mutual
/-- Every statement returns to the function and the loops around it. -/
theorem statement_level : ∀ (s : Stmt) (r : Resolver), Level r (r.statement s)
  | .expression value, r => expression_level value r
  | .print value, r => expression_level value r
  | .varDecl name initializer, r =>
      (declare_level r name).trans
        ((expression?_level _ initializer).trans (define_level _ name.lexeme))
  | .letDecl name initializer, r =>
      (declare_level r name).trans
        ((expression_level initializer _).trans (define_level _ name.lexeme))
  | .block body, r =>
      (push_level r).trans ((statements_level body r.push).trans ⟨rfl, rfl⟩)
  | .ifElse condition thenBranch none, r =>
      (expression_level condition r).trans (statement_level thenBranch _)
  | .ifElse condition thenBranch (some elseBranch), r =>
      (expression_level condition r).trans
        ((statement_level thenBranch _).trans (statement_level elseBranch _))
  | .whileLoop condition body, r => by
      have hcondition := expression_level condition r
      have hbody := statement_level body
        { r.expression condition with loopDepth := (r.expression condition).loopDepth + 1 }
      refine ⟨hbody.enclosingFunction.trans hcondition.enclosingFunction, ?_⟩
      rw [statement]
      dsimp only
      rw [hbody.loopDepth]
      exact hcondition.loopDepth
  | .function declaration, r =>
      (introduce_level r declaration.name).trans (function_level _ .function declaration)
  | .returnStmt keyword value, r =>
      (checkReturn_level r keyword value.isSome).trans (expression?_level _ value)
  | .breakStmt keyword, r => checkBreak_level r keyword
  | .classDecl name superclass methods, r =>
      (enterClass_level r name superclass).trans
        ((methods_level _ methods).trans (leaveClass_level _ superclass r.enclosingClass))

theorem statements_level : ∀ (list : List Stmt) (r : Resolver), Level r (r.statements list)
  | [], r => .refl r
  | s :: rest, r => (statement_level s r).trans (statements_level rest _)
end

theorem enterFunction_level (r : Resolver) (context : FunctionContext) (params : List Token) :
    Level { r with enclosingFunction := context, loopDepth := 0 }
      (r.enterFunction context params) :=
  (push_level _).trans (introduceAll_level params _)

/-! ## No error means that all is in its place -/

theorem checkReturn_errors {r : Resolver} {keyword : Token} {hasValue : Bool}
    (h : (r.checkReturn keyword hasValue).errors = []) :
    r.enclosingFunction ≠ .none ∧ (r.enclosingFunction = .initializer → hasValue = false) := by
  unfold checkReturn at h
  dsimp only at h
  split at h
  next hnone =>
    split at h <;> simp [error] at h
  next hsome =>
    refine ⟨hsome, ?_⟩
    intro hinitializer
    cases hasValue with
    | false => rfl
    | true => simp [hinitializer, error] at h

theorem checkBreak_errors {r : Resolver} {keyword : Token}
    (h : (r.checkBreak keyword).errors = []) : r.loopDepth ≠ 0 := by
  intro hdepth
  simp [checkBreak, hdepth, error] at h

/-- A statement may stand where the walk is. -/
def Places (r : Resolver) (s : Stmt) : Prop :=
  s.Placed r.enclosingFunction (decide (0 < r.loopDepth))

theorem Places.level {r r' : Resolver} {s : Stmt} (hlevel : Level r r') (h : r'.Places s) :
    r.Places s := by
  unfold Places at h
  rwa [hlevel.enclosingFunction, hlevel.loopDepth] at h

mutual
/-- A statement without errors may stand where the walk has come to it. -/
theorem statement_placed : ∀ (s : Stmt) (r : Resolver), (r.statement s).errors = [] → r.Places s
  | .expression _, _, _ => .expression
  | .print _, _, _ => .print
  | .varDecl .., _, _ => .varDecl
  | .letDecl .., _, _ => .letDecl
  | .block body, r, h =>
      .block fun s hs => (statements_placed body r.push ((pop_walk _).errors h) s hs).level
        (push_level r)
  | .ifElse condition thenBranch none, r, h =>
      .ifElse ((statement_placed thenBranch _ h).level (expression_level condition r)) nofun
  | .ifElse condition thenBranch (some elseBranch), r, h => by
      have hcondition := expression_level condition r
      have hthen := (statement_walk elseBranch _).errors h
      refine .ifElse ((statement_placed thenBranch _ hthen).level hcondition) ?_
      intro stmt hstmt
      obtain rfl := Option.mem_some.mp hstmt
      exact (statement_placed elseBranch _ h).level
        (hcondition.trans (statement_level thenBranch _))
  | .whileLoop condition body, r, h => by
      have hbody := statement_placed body
        { r.expression condition with loopDepth := (r.expression condition).loopDepth + 1 } h
      refine .whileLoop ?_
      rw [← (expression_level condition r).enclosingFunction]
      simpa [Places] using hbody
  | .function declaration, r, h => .function (function_placed declaration .function _ h)
  | .returnStmt keyword value, r, h => by
      obtain ⟨hfunction, hvalue⟩ := checkReturn_errors ((expression?_walk _ value).errors h)
      refine .returnStmt hfunction ?_
      intro hinitializer
      simpa using hvalue hinitializer
  | .breakStmt keyword, r, h => by
      have hdepth : decide (0 < r.loopDepth) = true :=
        decide_eq_true (Nat.pos_of_ne_zero (checkBreak_errors h))
      unfold Places
      rw [hdepth]
      exact .breakStmt
  | .classDecl name superclass methods, r, h =>
      .classDecl (methods_placed methods _ ((leaveClass_walk _ superclass _ []).errors h))

theorem statements_placed : ∀ (list : List Stmt) (r : Resolver), (r.statements list).errors = [] →
    ∀ s ∈ list, r.Places s
  | [], _, _ => nofun
  | s :: rest, r, h =>
      List.forall_mem_cons.mpr ⟨statement_placed s r ((statements_walk rest _).errors h),
        fun s' hs => (statements_placed rest _ h s' hs).level (statement_level s r)⟩

theorem function_placed : ∀ (declaration : FunctionDecl Stmt) (context : FunctionContext)
    (r : Resolver), (r.function context declaration).errors = [] →
    ∀ s ∈ declaration.body, s.Placed context false
  | ⟨_, params, body⟩, context, r, h, s, hs => by
      have hbody := statements_placed body (r.enterFunction context params)
        ((leaveFunction_walk _ r.enclosingFunction r.loopDepth).errors h) s hs
      exact hbody.level (enterFunction_level r context params)

theorem methods_placed : ∀ (list : List (FunctionDecl Stmt)) (r : Resolver),
    (r.methods list).errors = [] → MethodsPlaced list
  | [], _, _ => nofun
  | method :: rest, r, h =>
      List.forall_mem_cons.mpr
        ⟨function_placed method (methodContext method) r ((methods_walk rest _).errors h),
          methods_placed rest _ h⟩
end

theorem statements_append (before after : List Stmt) (r : Resolver) :
    r.statements (before ++ after) = (r.statements before).statements after := by
  induction before generalizing r with
  | nil => rfl
  | cons s rest ih => exact ih (r.statement s)

theorem methods_append (before after : List (FunctionDecl Stmt)) (r : Resolver) :
    r.methods (before ++ after) = (r.methods before).methods after := by
  induction before generalizing r with
  | nil => rfl
  | cons method rest ih =>
      rw [List.cons_append, methods, methods]
      exact ih _

/-! ## Positions -/

/-- The walk over a program comes to a statement, knowing what it knows there. -/
inductive Reaches (program : Program) : Resolver → Stmt → Prop
  | top {before after s} : program = before ++ s :: after →
      Reaches program (start.statements before) s
  | block {r before after s} : Reaches program r (.block (before ++ s :: after)) →
      Reaches program (r.push.statements before) s
  | thenBranch {r condition s elseBranch} : Reaches program r (.ifElse condition s elseBranch) →
      Reaches program (r.expression condition) s
  | elseBranch {r condition thenBranch s} :
      Reaches program r (.ifElse condition thenBranch (some s)) →
      Reaches program ((r.expression condition).statement thenBranch) s
  | loop {r condition s} : Reaches program r (.whileLoop condition s) →
      Reaches program
        { r.expression condition with loopDepth := (r.expression condition).loopDepth + 1 } s
  | function {r name params before after s} :
      Reaches program r (.function ⟨name, params, before ++ s :: after⟩) →
      Reaches program (((r.introduce name).enterFunction .function params).statements before) s
  | method {r name superclass earlier method later before after s} :
      Reaches program r (.classDecl name superclass (earlier ++ method :: later)) →
      method.body = before ++ s :: after →
      Reaches program
        ((((r.enterClass name superclass).methods earlier).enterFunction (methodContext method)
          method.params).statements before) s

theorem errors_of_statements {before after : List Stmt} {s : Stmt} {r : Resolver}
    (h : (r.statements (before ++ s :: after)).errors = []) :
    ((r.statements before).statement s).errors = [] := by
  rw [statements_append] at h
  exact (statements_walk after _).errors h

theorem errors_of_function {context : FunctionContext} {name : Token} {params : List Token}
    {body : List Stmt} {r : Resolver} (h : (r.function context ⟨name, params, body⟩).errors = []) :
    ((r.enterFunction context params).statements body).errors = [] :=
  (leaveFunction_walk _ r.enclosingFunction r.loopDepth).errors h

/-- No part of a program without errors has an error. -/
theorem Reaches.errors {program : Program} {r : Resolver} {s : Stmt} (h : Reaches program r s)
    (hprogram : (start.statements program).errors = []) : (r.statement s).errors = [] := by
  induction h with
  | top hsplit =>
      rw [hsplit] at hprogram
      exact errors_of_statements hprogram
  | block _ ih => exact errors_of_statements ((pop_walk _).errors ih)
  | @thenBranch _ _ _ elseBranch _ ih =>
      cases elseBranch with
      | none => exact ih
      | some elseBranch => exact (statement_walk elseBranch _).errors ih
  | elseBranch _ ih => exact ih
  | loop _ ih => exact ih
  | function _ ih => exact errors_of_statements (errors_of_function ih)
  | @method _ _ superclass _ method later _ _ _ _ hbody ih =>
      obtain ⟨name, params, body⟩ := method
      obtain rfl : body = _ := hbody
      have hmethods := (leaveClass_walk _ superclass _ []).errors ih
      rw [methods_append] at hmethods
      exact errors_of_statements (errors_of_function ((methods_walk later _).errors hmethods))

end Resolver

theorem errors_of_resolve {program : Program} {resolution : Resolution}
    (h : resolve program = .ok resolution) : (Resolver.start.statements program).errors = [] := by
  unfold resolve at h
  dsimp only at h
  split at h
  next hempty => exact List.isEmpty_iff.mp hempty
  next => cases h

/-- The statements of an accepted program may stand outside all functions and loops. -/
theorem resolve_placed {program : Program} {resolution : Resolution}
    (h : resolve program = .ok resolution) : ∀ s ∈ program, s.Placed .none false :=
  Resolver.statements_placed program .start (errors_of_resolve h)

/-- In an accepted program every statement may stand where it stands. -/
theorem placed_of_reaches {program : Program} {resolution : Resolution} {r : Resolver} {s : Stmt}
    (hresolve : resolve program = .ok resolution) (h : Resolver.Reaches program r s) :
    r.Places s :=
  Resolver.statement_placed s r (h.errors (errors_of_resolve hresolve))

end ScopeScript
