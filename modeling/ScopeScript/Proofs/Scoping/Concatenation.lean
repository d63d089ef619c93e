import ScopeScript.Proofs.Scoping.Beside
import ScopeScript.Proofs.Scoping.Placement

/-!
# One program in front of another

Behind every statement of a program the walk is in as many scopes as in front of it, and all but the
innermost are the same. So behind a whole program it is where it started, and goes on with more
statements as it would begin with them: programs in front of one another are resolved as each of
them is.
-/

namespace ScopeScript.Resolver

/-! ## The scopes around a statement -/

/-- There are as many scopes at two moments of the walk, and all but the innermost are the same. -/
structure Around (r r' : Resolver) : Prop where
  outer : r'.scopes.tail = r.scopes.tail
  height : r'.scopes.length = r.scopes.length

namespace Around

variable {r r' r'' : Resolver}

theorem of_scopes (h : r'.scopes = r.scopes) : Around r r' :=
  ⟨congrArg List.tail h, congrArg List.length h⟩

theorem trans (h : Around r r') (h' : Around r' r'') : Around r r'' :=
  ⟨h'.outer.trans h.outer, h'.height.trans h.height⟩

/-- What is done inside one more scope leaves the scopes as they were. -/
theorem pop (h : Around r.push r') : r'.pop.scopes = r.scopes :=
  h.outer

end Around

theorem expression_around (e : Expr) (r : Resolver) : Around r (r.expression e) :=
  .of_scopes (expression_same e r).scopes

theorem declare_around (r : Resolver) (name : Token) : Around r (r.declare name) := by
  unfold declare
  split
  next => exact .of_scopes rfl
  next hscopes =>
    split
    next => exact .of_scopes rfl
    next => exact ⟨by rw [hscopes]; rfl, by rw [hscopes]; rfl⟩

theorem define_around (r : Resolver) (name : String) : Around r (r.define name) := by
  unfold define
  split
  next => exact .of_scopes rfl
  next hscopes => exact ⟨by rw [hscopes]; rfl, by rw [hscopes]; rfl⟩

theorem introduce_around (r : Resolver) (name : Token) : Around r (r.introduce name) :=
  (declare_around r name).trans (define_around _ name.lexeme)

theorem introduceAll_around (params : List Token) (r : Resolver) :
    Around r (params.foldl introduce r) := by
  induction params generalizing r with
  | nil => exact .of_scopes rfl
  | cons param rest ih => exact (introduce_around r param).trans (ih (r.introduce param))

theorem enterFunction_around (r : Resolver) (context : FunctionContext) (params : List Token) :
    Around r.push (r.enterFunction context params) := by
  have hlevel : Around r.push { r with enclosingFunction := context, loopDepth := 0 }.push :=
    .of_scopes rfl
  exact hlevel.trans (introduceAll_around params _)

theorem push_define_scopes (r : Resolver) (name : String) :
    (r.push.define name).scopes.tail = r.scopes :=
  (define_around r.push name).pop

/-- The head of a class, left again from wherever its methods are, has introduced its name. -/
theorem leaveClass_scopes {r r' : Resolver} {name : Token} {superclass : Option Expr}
    (h : r'.scopes = (r.enterClass name superclass).scopes) (outer : ClassContext) :
    (r'.leaveClass superclass outer).scopes =
      ({ r with enclosingClass := .plain }.introduce name).scopes := by
  cases superclass with
  | none => exact (congrArg List.tail h).trans (push_define_scopes _ "this")
  | some superclass =>
      -- Outside `this` there is the scope of `super`, and both are left.
      let introduced := { r with enclosingClass := .plain }.introduce name
      let checked := { introduced.checkInheritance name superclass with enclosingClass := .derived }
      have hthis : r'.scopes.tail = ((checked.expression superclass).push.define "super").scopes :=
        (congrArg List.tail h).trans (push_define_scopes _ "this")
      have hsuper : ((checked.expression superclass).push.define "super").scopes.tail =
          introduced.scopes :=
        (push_define_scopes _ "super").trans ((expression_same superclass checked).scopes.trans
          (checkInheritance_same introduced name superclass).scopes)
      exact (congrArg List.tail hthis).trans hsuper

theorem leaveClass_around {r r' : Resolver} {name : Token} {superclass : Option Expr}
    (h : r'.scopes = (r.enterClass name superclass).scopes) (outer : ClassContext) :
    Around r (r'.leaveClass superclass outer) := by
  have hclass : Around r { r with enclosingClass := .plain } := .of_scopes rfl
  exact (hclass.trans (introduce_around _ name)).trans (.of_scopes (leaveClass_scopes h outer))

mutual
theorem statement_around : ∀ (s : Stmt) (r : Resolver), Around r (r.statement s)
  | .expression value, r => expression_around value r
  | .print value, r => expression_around value r
  | .varDecl name initializer, r =>
      (declare_around r name).trans
        ((Around.of_scopes (expression?_same _ initializer).scopes).trans
          (define_around _ name.lexeme))
  | .letDecl name initializer, r =>
      (declare_around r name).trans
        ((expression_around initializer _).trans (define_around _ name.lexeme))
  | .block body, r => .of_scopes (statements_around body r.push).pop
  | .ifElse condition thenBranch none, r =>
      (expression_around condition r).trans (statement_around thenBranch _)
  | .ifElse condition thenBranch (some elseBranch), r =>
      (expression_around condition r).trans
        ((statement_around thenBranch _).trans (statement_around elseBranch _))
  | .whileLoop condition body, r => by
      have hbody := statement_around body
        { r.expression condition with loopDepth := (r.expression condition).loopDepth + 1 }
      exact (expression_around condition r).trans ⟨hbody.outer, hbody.height⟩
  | .function declaration, r =>
      (introduce_around r declaration.name).trans
        (.of_scopes (function_scopes declaration .function _))
  | .returnStmt keyword value, r =>
      .of_scopes ((checkReturn_same r keyword value.isSome).trans (expression?_same _ value)).scopes
  | .breakStmt keyword, r => by
      rw [statement, checkBreak]
      split <;> exact .of_scopes rfl
  | .classDecl _ _ methods, r => leaveClass_around (methods_scopes methods _) r.enclosingClass

theorem statements_around : ∀ (list : List Stmt) (r : Resolver), Around r (r.statements list)
  | [], _ => .of_scopes rfl
  | s :: rest, r => (statement_around s r).trans (statements_around rest _)

theorem function_scopes : ∀ (declaration : FunctionDecl Stmt) (context : FunctionContext)
    (r : Resolver), (r.function context declaration).scopes = r.scopes
  | ⟨_, params, body⟩, context, r =>
      ((enterFunction_around r context params).trans (statements_around body _)).pop

theorem methods_scopes : ∀ (list : List (FunctionDecl Stmt)) (r : Resolver),
    (r.methods list).scopes = r.scopes
  | [], _ => rfl
  | ⟨name, params, body⟩ :: rest, r =>
      (methods_scopes rest _).trans
        (function_scopes ⟨name, params, body⟩ (methodContext ⟨name, params, body⟩) r)
end

end ScopeScript.Resolver

namespace ScopeScript

/-- The errors of a program, if it has any. -/
def staticErrors : Except (List ScopeError) Resolution → List ScopeError
  | .ok _ => []
  | .error errors => errors

/-- What comes of one program in front of another. -/
def joinResolutions : Except (List ScopeError) Resolution → Except (List ScopeError) Resolution →
    Except (List ScopeError) Resolution
  | .ok first, .ok second =>
    .ok ⟨first.locals ∪ second.locals, first.warnings ++ second.warnings⟩
  | first, second => .error (staticErrors first ++ staticErrors second)

theorem Locals.union_insert (l l' : Locals) (id : NodeId) (distance : Nat) :
    l ∪ l'.insert id distance = (l ∪ l').insert id distance := by
  apply Std.ExtTreeMap.ext_getElem?
  intro other
  simp only [Std.ExtTreeMap.getElem?_union, Std.ExtTreeMap.getElem?_insert]
  split
  next => simp
  next => rfl

theorem Locals.union_assoc (a b c : Locals) : a ∪ b ∪ c = a ∪ (b ∪ c) := by
  apply Std.ExtTreeMap.ext_getElem?
  intro id
  simp only [Std.ExtTreeMap.getElem?_union, Option.or_assoc]

/-- One walk has recorded what the other has and, before that, what a table holds. -/
def Resolver.Pairing.onTop (before : Locals) : Resolver.Pairing where
  rename := id
  locals l l' := l' = before ∪ l
  insert id distance h := by rw [h, Locals.union_insert, id_eq]

/-- Behind a program the walk is where it was in front of it. -/
theorem Resolver.beside_start (program : Program) :
    Beside (.onTop (start.statements program).locals) (start.statements program).errors
      (start.statements program).warnings start (start.statements program) := by
  have hlevel := statements_level program start
  refine ⟨?_, hlevel.enclosingFunction, statements_enclosingClass program start,
    hlevel.loopDepth, ?_, (List.append_nil _).symm, (List.append_nil _).symm⟩
  · exact List.eq_nil_of_length_eq_zero (statements_around program start).height
  · apply Std.ExtTreeMap.ext_getElem?
    intro id
    simp [start, Std.ExtTreeMap.getElem?_union]

/-- A program in front of another is resolved as the two are. -/
theorem resolve_append (first second : Program) :
    resolve (first ++ second) = joinResolutions (resolve first) (resolve second) := by
  have hjoined := Resolver.statements_beside second (Resolver.beside_start first)
  have hrename : Stmt.renameAll
      (Resolver.Pairing.onTop (Resolver.start.statements first).locals).rename second = second :=
    Stmt.renameAll_id second
  rw [hrename, ← Resolver.statements_append] at hjoined
  have herrors := hjoined.errors
  by_cases hfirst : (Resolver.start.statements first).errors = []
  · by_cases hsecond : (Resolver.start.statements second).errors = []
    · rw [hfirst, hsecond] at herrors
      rw [resolve_of_isEmpty hfirst, resolve_of_isEmpty hsecond, resolve_of_isEmpty herrors,
        hjoined.locals, hjoined.warnings]
      rfl
    · have hne : (Resolver.start.statements (first ++ second)).errors ≠ [] := by
        simp [herrors, hsecond]
      rw [resolve_of_isEmpty hfirst, resolve_of_errors hsecond, resolve_of_errors hne, herrors,
        hfirst]
      rfl
  · have hne : (Resolver.start.statements (first ++ second)).errors ≠ [] := by
      simp [herrors, hfirst]
    rw [resolve_of_errors hfirst, resolve_of_errors hne, herrors]
    by_cases hsecond : (Resolver.start.statements second).errors = []
    · rw [resolve_of_isEmpty hsecond, hsecond]
      rfl
    · rw [resolve_of_errors hsecond]
      rfl

end ScopeScript
