import ScopeScript.Proofs.Parsing.Soundness

/-!
# Every rule that succeeds takes a token

No rule of the grammar gives a result without having read a token, whatever the bound on its
nesting. A declaration that fails may have read nothing at all, for instance at a token that begins
no expression; there it is the recovery that moves on.
-/

namespace ScopeScript

namespace Rule

variable {α β : Type}

/-- Whenever a rule gives a result, it has read at least one token. -/
def Consumes (rule : Rule α) : Prop :=
  ∀ (c c' : Cursor) (a : α), rule c = .ok a c' → c'.rest.length < c.rest.length

theorem Advances.rest_le {rule : Rule α} (h : rule.Advances) {c c' : Cursor} {a : α}
    (hrun : rule c = .ok a c') : c'.rest.length ≤ c.rest.length := by
  exact (h.leads_ok hrun).suffix.length_le

namespace Consumes

theorem fail (cause : SyntaxCause) : (Rule.fail cause : Rule α).Consumes :=
  fun _ _ _ hrun => (fail_ok hrun).elim

theorem exhausted : (Rule.exhausted : Rule α).Consumes :=
  fun _ _ _ hrun => (exhausted_ok hrun).elim

/-- The first of two rules reads a token. -/
theorem bind_left {x : Rule α} {f : α → Rule β} (hx : x.Consumes) (hf : ∀ a, (f a).Advances) :
    (x >>= f).Consumes := by
  intro c c' b hrun
  obtain ⟨a, d, hfirst, hsecond⟩ := bind_ok.mp hrun
  exact Nat.lt_of_le_of_lt ((hf a).rest_le hsecond) (hx _ _ _ hfirst)

/-- The second of two rules reads a token. -/
theorem bind_right {x : Rule α} {f : α → Rule β} (hx : x.Advances) (hf : ∀ a, (f a).Consumes) :
    (x >>= f).Consumes := by
  intro c c' b hrun
  obtain ⟨a, d, hfirst, hsecond⟩ := bind_ok.mp hrun
  exact Nat.lt_of_lt_of_le (hf a _ _ _ hsecond) (hx.rest_le hfirst)

/-- A token may be accepted, and where it is not, another rule reads one. -/
theorem acceptIf {test : Token → Bool} {f : Option Token → Rule β}
    (hsome : ∀ t, (f (some t)).Advances) (hnone : (f none).Consumes) :
    (Rule.acceptIf test >>= f).Consumes := by
  intro c c' b hrun
  obtain ⟨result, d, haccept, hrest⟩ := bind_ok.mp hrun
  rcases acceptIf_ok haccept with ⟨rfl, rfl⟩ | ⟨t, rfl, -, hc, rfl⟩
  · exact hnone _ _ _ hrest
  · have hle := (hsome t).rest_le hrest
    rw [hc]
    exact Nat.lt_succ_of_le hle

theorem ifAccept {tag : Tag} {x y : Rule β} (hx : x.Advances) (hy : y.Consumes) :
    (do if (← Rule.accept tag).isSome then x else y).Consumes :=
  acceptIf (fun _ => hx) hy

theorem expect (tag : Tag) (cause : SyntaxCause) : (Rule.expect tag cause).Consumes :=
  acceptIf (fun _ => .pure _) (.fail _)

end Consumes

end Rule

open Rule (Advances Consumes)

theorem argumentsRest_consumes (fuel : Nat) (callee : Expr) :
    (argumentsRest fuel callee).Consumes :=
  Consumes.bind_right (.unlessNext _ _ ((expressionsAdvance fuel).arguments 0)) fun _ =>
    (Consumes.expect _ _).bind_left fun _ => .pure _

/-- The rules for expressions read a token under a given bound on their nesting. -/
structure ExpressionsConsume (fuel : Nat) : Prop where
  expression : (expression fuel).Consumes
  binary : ∀ levels, (binary fuel levels).Consumes
  unary : (unary fuel).Consumes
  call : (call fuel).Consumes
  primary : (primary fuel).Consumes

theorem expressionsConsume (fuel : Nat) : ExpressionsConsume fuel := by
  induction fuel with
  | zero => constructor <;> intros <;> exact .exhausted
  | succ fuel ih =>
      have hadv := expressionsAdvance fuel
      constructor
      case expression =>
        exact (ih.binary _).bind_left fun _ => (Advances.accept _).bind fun
          | none => .pure _
          | some _ => hadv.expression.bind fun _ => assignmentTo_advances _ _ _
      case binary =>
        intro levels
        cases levels with
        | nil => exact ih.unary
        | cons level tighter => exact (ih.binary tighter).bind_left fun _ => hadv.binaryRest _ _ _
      case unary => exact .acceptIf (fun _ => hadv.unary.bind fun _ => .pure _) ih.call
      case call => exact ih.primary.bind_left fun _ => hadv.callRest _
      case primary =>
        refine .acceptIf atom_advances <| .acceptIf superRest_advances <| .ifAccept ?_ (.fail _)
        exact hadv.expression.bind fun _ => (Advances.expect _ _).bind fun _ => .pure _

theorem expression_consumes (fuel : Nat) : (expression fuel).Consumes :=
  (expressionsConsume fuel).expression

theorem initializer_advances (fuel : Nat) : (initializer fuel).Advances :=
  (Advances.accept _).bind fun _ => .ite (expression_advances fuel).map (.pure _)

theorem varRest_consumes (fuel : Nat) : (varRest fuel).Consumes :=
  (Consumes.expect _ _).bind_left fun _ => (initializer_advances fuel).bind fun _ =>
    (Advances.expect _ _).bind fun _ => .pure _

theorem letRest_consumes (fuel : Nat) : (letRest fuel).Consumes :=
  (Consumes.expect _ _).bind_left fun _ => (Advances.expect _ _).bind fun _ =>
    (expression_advances fuel).bind fun _ => (Advances.expect _ _).bind fun _ => .pure _

theorem expressionStatement_consumes (fuel : Nat) : (expressionStatement fuel).Consumes :=
  (expression_consumes fuel).bind_left fun _ => (Advances.expect _ _).bind fun _ => .pure _

theorem printRest_consumes (fuel : Nat) : (printRest fuel).Consumes :=
  (expression_consumes fuel).bind_left fun _ => (Advances.expect _ _).bind fun _ => .pure _

theorem returnRest_consumes (fuel : Nat) (keyword : Token) : (returnRest fuel keyword).Consumes :=
  .bind_right (optionalExpression_advances fuel _) fun _ =>
    (Consumes.expect _ _).bind_left fun _ => .pure _

theorem breakRest_consumes (keyword : Token) : (breakRest keyword).Consumes :=
  (Consumes.expect _ _).bind_left fun _ => .pure _

theorem condition_consumes (fuel : Nat) (opening : SyntaxCause) :
    (condition fuel opening).Consumes :=
  (Consumes.expect _ _).bind_left fun _ => (expression_advances fuel).bind fun _ =>
    (Advances.expect _ _).bind fun _ => .pure _

theorem forClauses_consumes (fuel : Nat) : (forClauses fuel).Consumes :=
  (Consumes.expect _ _).bind_left fun _ => (forInitializer_advances fuel).bind fun _ =>
    (optionalExpression_advances fuel _).bind fun _ => (Advances.expect _ _).bind fun _ =>
      (optionalExpression_advances fuel _).bind fun _ =>
        (Advances.expect _ _).bind fun _ => .pure _

/-- What follows `for`. -/
def forRest (fuel : Nat) : Rule Stmt := do
  let clauses ← forClauses fuel
  let body ← statement fuel
  return clauses.loop body

/-- What follows `if`. -/
def ifRest (fuel : Nat) : Rule Stmt := do
  let test ← condition fuel .ifOpen
  let thenBranch ← statement fuel
  if (← Rule.accept (.keyword .elseKw)).isSome then
    return .ifElse test thenBranch (some (← statement fuel))
  else return .ifElse test thenBranch none

/-- What follows `while`. -/
def whileRest (fuel : Nat) : Rule Stmt := do
  let test ← condition fuel .whileOpen
  let body ← statement fuel
  return .whileLoop test body

/-- A statement, by the word that it begins with. -/
theorem statement_succ (fuel : Nat) : statement (fuel + 1) = (do
    if (← Rule.accept (.keyword .forKw)).isSome then forRest fuel
    else if (← Rule.accept (.keyword .ifKw)).isSome then ifRest fuel
    else if (← Rule.accept (.keyword .whileKw)).isSome then whileRest fuel
    else if let some keyword ← Rule.accept (.keyword .returnKw) then returnRest fuel keyword
    else if let some keyword ← Rule.accept (.keyword .breakKw) then breakRest keyword
    else if (← Rule.accept (.punct .leftBrace)).isSome then .block <$> blockRest fuel
    else if (← Rule.accept (.keyword .printKw)).isSome then printRest fuel
    else expressionStatement fuel) :=
  rfl

section Branches

variable (fuel : Nat)

theorem forRest_advances : (forRest fuel).Advances :=
  (forClauses_advances fuel).bind fun _ => (statementsAdvance fuel).statement.bind fun _ => .pure _

theorem ifRest_advances : (ifRest fuel).Advances :=
  (condition_advances fuel _).bind fun _ => (statementsAdvance fuel).statement.bind fun _ =>
    (Advances.accept _).bind fun _ =>
      .ite ((statementsAdvance fuel).statement.bind fun _ => .pure _) (.pure _)

theorem whileRest_advances : (whileRest fuel).Advances :=
  (condition_advances fuel _).bind fun _ =>
    (statementsAdvance fuel).statement.bind fun _ => .pure _

theorem forRest_consumes : (forRest fuel).Consumes :=
  (forClauses_consumes fuel).bind_left fun _ =>
    (statementsAdvance fuel).statement.bind fun _ => .pure _

theorem ifRest_consumes : (ifRest fuel).Consumes :=
  (condition_consumes fuel _).bind_left fun _ => (statementsAdvance fuel).statement.bind fun _ =>
    (Advances.accept _).bind fun _ =>
      .ite ((statementsAdvance fuel).statement.bind fun _ => .pure _) (.pure _)

theorem whileRest_consumes : (whileRest fuel).Consumes :=
  (condition_consumes fuel _).bind_left fun _ =>
    (statementsAdvance fuel).statement.bind fun _ => .pure _

end Branches

/-- The rules for statements read a token under a given bound on their nesting. -/
structure StatementsConsume (fuel : Nat) : Prop where
  declaration : (declaration fuel).Consumes
  classRest : (classRest fuel).Consumes
  function : ∀ callee, (function fuel callee).Consumes
  statement : (statement fuel).Consumes
  blockRest : (blockRest fuel).Consumes

theorem statementsConsume (fuel : Nat) : StatementsConsume fuel := by
  induction fuel with
  | zero => constructor <;> intros <;> exact .exhausted
  | succ fuel ih =>
      have hadv := statementsAdvance fuel
      constructor
      case declaration =>
        exact .ifAccept hadv.classRest <| .ifAccept (hadv.function _).map <|
          .ifAccept (varRest_advances fuel) <| .ifAccept (letRest_advances fuel) ih.statement
      case classRest =>
        exact (Consumes.expect _ _).bind_left fun _ => superclassClause_advances.bind fun _ =>
          (Advances.expect _ _).bind fun _ => hadv.methodList.bind fun _ =>
            (Advances.expect _ _).bind fun _ => .pure _
      case function =>
        intro callee
        exact (Consumes.expect _ _).bind_left fun _ => (Advances.expect _ _).bind fun _ =>
          (Advances.unlessNext _ _ (parameters_advances fuel 0)).bind fun _ =>
            (Advances.expect _ _).bind fun _ => (Advances.expect _ _).bind fun _ =>
              hadv.blockRest.bind fun _ => .pure _
      case statement =>
        rw [statement_succ]
        exact .ifAccept (forRest_advances fuel) <| .ifAccept (ifRest_advances fuel) <|
          .ifAccept (whileRest_advances fuel) <| .acceptIf (returnRest_advances fuel) <|
            .acceptIf breakRest_advances <| .ifAccept hadv.blockRest.map <|
              .ifAccept (printRest_advances fuel) (expressionStatement_consumes fuel)
      case blockRest =>
        exact .bind_right hadv.declarationList fun _ =>
          (Consumes.expect _ _).bind_left fun _ => .pure _

/-- The rules of the grammar, each as a function of the bound on its nesting. -/
inductive OfGrammar : {α : Type} → (Nat → Rule α) → Prop
  | expression : OfGrammar expression
  | binary (levels : List Level) : levels <:+ Level.all → OfGrammar (binary · levels)
  | unary : OfGrammar unary
  | call : OfGrammar call
  | argumentsRest (callee : Expr) : OfGrammar (argumentsRest · callee)
  | primary : OfGrammar primary
  | declaration : OfGrammar declaration
  | classRest : OfGrammar classRest
  | function (callee : Callee) : OfGrammar (function · callee)
  | varRest : OfGrammar varRest
  | letRest : OfGrammar letRest
  | statement : OfGrammar statement
  | forRest : OfGrammar forRest
  | ifRest : OfGrammar ifRest
  | whileRest : OfGrammar whileRest
  | returnRest (keyword : Token) : OfGrammar (returnRest · keyword)
  | breakRest (keyword : Token) : OfGrammar fun _ => breakRest keyword
  | printRest : OfGrammar printRest
  | expressionStatement : OfGrammar expressionStatement
  | blockRest : OfGrammar blockRest

namespace OfGrammar

variable {α : Type} {rule : Nat → Rule α}

theorem advances (h : OfGrammar rule) (fuel : Nat) : (rule fuel).Advances := by
  have hexpr := expressionsAdvance fuel
  have hstmt := statementsAdvance fuel
  cases h with
  | expression => exact hexpr.expression
  | binary levels => exact hexpr.binary levels
  | unary => exact hexpr.unary
  | call => exact hexpr.call
  | argumentsRest callee => exact argumentsRest_advances hexpr.arguments callee
  | primary => exact hexpr.primary
  | declaration => exact hstmt.declaration
  | classRest => exact hstmt.classRest
  | function callee => exact hstmt.function callee
  | varRest => exact varRest_advances fuel
  | letRest => exact letRest_advances fuel
  | statement => exact hstmt.statement
  | forRest => exact forRest_advances fuel
  | ifRest => exact ifRest_advances fuel
  | whileRest => exact whileRest_advances fuel
  | returnRest keyword => exact returnRest_advances fuel keyword
  | breakRest keyword => exact breakRest_advances keyword
  | printRest => exact printRest_advances fuel
  | expressionStatement => exact expressionStatement_advances fuel
  | blockRest => exact hstmt.blockRest

theorem consumes (h : OfGrammar rule) (fuel : Nat) : (rule fuel).Consumes := by
  have hexpr := expressionsConsume fuel
  have hstmt := statementsConsume fuel
  cases h with
  | expression => exact hexpr.expression
  | binary levels => exact hexpr.binary levels
  | unary => exact hexpr.unary
  | call => exact hexpr.call
  | argumentsRest callee => exact argumentsRest_consumes fuel callee
  | primary => exact hexpr.primary
  | declaration => exact hstmt.declaration
  | classRest => exact hstmt.classRest
  | function callee => exact hstmt.function callee
  | varRest => exact varRest_consumes fuel
  | letRest => exact letRest_consumes fuel
  | statement => exact hstmt.statement
  | forRest => exact forRest_consumes fuel
  | ifRest => exact ifRest_consumes fuel
  | whileRest => exact whileRest_consumes fuel
  | returnRest keyword => exact returnRest_consumes fuel keyword
  | breakRest keyword => exact breakRest_consumes keyword
  | printRest => exact printRest_consumes fuel
  | expressionStatement => exact expressionStatement_consumes fuel
  | blockRest => exact hstmt.blockRest

end OfGrammar

theorem Cursor.resume_shorter {c : Cursor} (h : c.rest ≠ []) :
    c.resume.rest.length < c.rest.length := by
  obtain ⟨count, hcount, hresume, hpos⟩ := c.resume_eq
  have hpos := hpos h
  rw [hresume, (Cursor.past_eq hcount _).1, List.length_drop]
  omega

/-- A rule that reads a token where it succeeds moves on if its failures are recovered from, unless
the end has been reached. -/
theorem recover_progress {α : Type} {rule : Rule α} (hadv : rule.Advances) (h : rule.Consumes)
    {c c' : Cursor} {result : Option α} (hc : c.rest ≠ [])
    (hrun : recover rule c = .ok result c') : c'.rest.length < c.rest.length := by
  unfold recover at hrun
  rcases hrule : rule c with ⟨a, d⟩ | ⟨error | _, d⟩ <;> rw [hrule] at hrun <;> cases hrun
  · exact h _ _ _ hrule
  · have hle := (hadv.leads_error hrule).suffix.length_le
    by_cases hd : d.rest = []
    · rw [Cursor.resume_nil (c := d.note error) hd, Cursor.note_rest, hd]
      exact List.length_pos_iff.mpr hc
    · exact Nat.lt_of_lt_of_le (Cursor.resume_shorter (c := d.note error) hd) hle

/-- Before the end, a declaration moves the cursor on, whether it is read or given up. -/
theorem declaration_progress {fuel : Nat} {c c' : Cursor} {result : Option Stmt} (hc : c.rest ≠ [])
    (hrun : recover (declaration fuel) c = .ok result c') : c'.rest.length < c.rest.length :=
  recover_progress (statementsAdvance fuel).declaration (statementsConsume fuel).declaration hc hrun

end ScopeScript
