import ScopeScript.Proofs.Scoping.Renaming
import ScopeScript.Session

/-!
# Reading with other node numbers

Reading does not look at node numbers. If it starts with a number that is greater by some amount, it
reads the same, notes the same errors, and every node in the trees gets a number that is greater by
that amount.
-/

namespace ScopeScript

/-- A cursor that gives out greater numbers. -/
def Cursor.shift (k : Nat) (c : Cursor) : Cursor :=
  { c with nextId := c.nextId + k }

theorem Cursor.advance_shift (k : Nat) (c : Cursor) :
    (c.shift k).advance = c.advance.shift k := by
  change (if c.atEnd = true then c.shift k else _) = _
  unfold advance
  split <;> rfl

theorem Cursor.resume_shift (k : Nat) (c : Cursor) : (c.shift k).resume = c.resume.shift k := by
  change (if c.atEnd = true then c.shift k else _) = _
  unfold resume
  split <;> rfl

namespace Rule

variable {α β γ δ : Type} {k : Nat}

/-- What a rule leaves behind if the numbers are greater. -/
def shiftResult (k : Nat) (g : α → β) :
    EStateM.Result Failure Cursor α → EStateM.Result Failure Cursor β
  | .ok a c => .ok (g a) (c.shift k)
  | .error e c => .error e (c.shift k)

/-- With greater numbers, the second rule does what the first does without, and its result is made
from that of the first. -/
def Shifts (k : Nat) (g : α → β) (rule : Rule α) (rule' : Rule β) : Prop :=
  ∀ c : Cursor, rule' (c.shift k) = shiftResult k g (rule c)

namespace Shifts

theorem pure (g : α → β) (a : α) :
    Shifts k g (Pure.pure a : Rule α) (Pure.pure (g a) : Rule β) :=
  fun _ => rfl

theorem bind {g : α → β} {h : γ → δ} {x : Rule α} {x' : Rule β} {f : α → Rule γ}
    {f' : β → Rule δ} (hx : Shifts k g x x') (hf : ∀ a, Shifts k h (f a) (f' (g a))) :
    Shifts k h (x >>= f) (x' >>= f') := by
  intro c
  change EStateM.bind x' f' (c.shift k) = shiftResult k h (EStateM.bind x f c)
  unfold EStateM.bind
  rw [hx c]
  cases x c with
  | ok a d => exact hf a d
  | error => rfl

/-- A rule whose result has no numbers in it, and what is done with that. -/
theorem andThen {h : γ → δ} {x : Rule α} {f : α → Rule γ} {f' : α → Rule δ}
    (hx : Shifts k id x x) (hf : ∀ a, Shifts k h (f a) (f' a)) :
    Shifts k h (x >>= f) (x >>= f') :=
  hx.bind hf

theorem map {g : α → β} {h : γ → δ} {f : α → γ} {f' : β → δ} {x : Rule α} {x' : Rule β}
    (hx : Shifts k g x x') (hf : ∀ a, f' (g a) = h (f a)) :
    Shifts k h (f <$> x) (f' <$> x') := by
  rw [map_eq_pure_bind, map_eq_pure_bind]
  refine hx.bind fun a => ?_
  rw [hf a]
  exact .pure h (f a)

theorem optional {g : α → β} {x : Rule α} {x' : Rule β} (hx : Shifts k g x x') :
    Shifts k (Option.map g) (some <$> x) (some <$> x') :=
  hx.map fun _ => rfl

theorem ite {g : α → β} {p : Prop} [Decidable p] {x y : Rule α} {x' y' : Rule β}
    (hx : Shifts k g x x') (hy : Shifts k g y y') :
    Shifts k g (if p then x else y) (if p then x' else y') := by
  split
  · exact hx
  · exact hy

theorem check (tag : Tag) : Shifts k id (Rule.check tag) (Rule.check tag) :=
  fun _ => rfl

theorem atEnd : Shifts k id Rule.atEnd Rule.atEnd :=
  fun _ => rfl

theorem acceptIf (test : Token → Bool) :
    Shifts k id (Rule.acceptIf test) (Rule.acceptIf test) := by
  intro c
  change (if (!c.atEnd && test c.peek) = true then _ else _ : Rule (Option Token)) _ =
    shiftResult k id ((if (!c.atEnd && test c.peek) = true then _ else _ : Rule (Option Token)) _)
  split
  · change EStateM.Result.ok (some c.peek) (c.shift k).advance =
      .ok (some c.peek) (c.advance.shift k)
    rw [Cursor.advance_shift]
  · rfl

theorem accept (tag : Tag) : Shifts k id (Rule.accept tag) (Rule.accept tag) :=
  acceptIf _

theorem fail (g : α → β) (cause : SyntaxCause) :
    Shifts k g (Rule.fail cause : Rule α) (Rule.fail cause : Rule β) :=
  fun _ => rfl

theorem exhausted (g : α → β) :
    Shifts k g (Rule.exhausted : Rule α) (Rule.exhausted : Rule β) :=
  fun _ => rfl

theorem unlessNext {g : α → β} (tag : Tag) {default : α} {default' : β} {rule : Rule α}
    {rule' : Rule β} (hdefault : default' = g default) (h : Shifts k g rule rule') :
    Shifts k g (Rule.unlessNext tag default rule) (Rule.unlessNext tag default' rule') := by
  subst hdefault
  exact (check tag).andThen fun _ => .ite (.pure g default) h

theorem expect (tag : Tag) (cause : SyntaxCause) :
    Shifts k id (Rule.expect tag cause) (Rule.expect tag cause) :=
  (accept tag).andThen fun
    | some token => .pure id token
    | none => .fail id cause

theorem note (token : Token) (cause : SyntaxCause) :
    Shifts k id (Rule.note token cause) (Rule.note token cause) :=
  fun _ => rfl

/-- A fresh number is greater by as much as the numbers before it. -/
theorem freshId : Shifts k (· + k) Rule.freshId Rule.freshId := by
  intro c
  have hnext : c.nextId + k + 1 = c.nextId + 1 + k := Nat.add_right_comm ..
  change EStateM.Result.ok (c.nextId + k) { c with nextId := c.nextId + k + 1 } = _
  rw [hnext]
  rfl

theorem noteBeyondLimit (count : Nat) (cause : SyntaxCause) :
    Shifts k id (noteBeyondLimit count cause) (noteBeyondLimit count cause) := by
  unfold ScopeScript.noteBeyondLimit
  exact .ite (fun _ => rfl) (.pure id ())

theorem recover {g : α → β} {rule : Rule α} {rule' : Rule β} (h : Shifts k g rule rule') :
    Shifts k (Option.map g) (recover rule) (recover rule') := by
  intro c
  unfold ScopeScript.recover
  rw [h c]
  rcases rule c with ⟨a, d⟩ | ⟨error | _, d⟩
  · rfl
  · exact congrArg (EStateM.Result.ok none) (Cursor.resume_shift k (d.note error))
  · rfl

end Shifts

end Rule

open Rule (Shifts)

section Rules

variable {k : Nat}

/-! ## Expressions -/

theorem assignmentTo_shifts (target : Expr) (equals : Token) (value : Expr) :
    Shifts k (Expr.rename (· + k)) (assignmentTo target equals value)
      (assignmentTo (target.rename (· + k)) equals (value.rename (· + k))) := by
  cases target with
  | «variable» => exact Shifts.freshId.bind fun _ => .pure _ _
  | get => exact .pure _ _
  | _ => exact (Shifts.note _ _).andThen fun _ => .pure _ _

theorem superRest_shifts (keyword : Token) :
    Shifts k (Expr.rename (· + k)) (superRest keyword) (superRest keyword) :=
  (Shifts.expect _ _).andThen fun _ => (Shifts.expect _ _).andThen fun _ =>
    Shifts.freshId.bind fun _ => .pure _ _

theorem atom_shifts (token : Token) :
    Shifts k (Expr.rename (· + k)) ((atom? token).getD (Rule.fail .expression))
      ((atom? token).getD (Rule.fail .expression)) := by
  unfold atom?
  split
  case h_6 | h_7 => exact Shifts.freshId.bind fun _ => .pure _ _
  case h_8 => exact .fail _ _
  all_goals exact .pure _ _

/-- The rules for expressions read with greater numbers as they do without, under a given bound on
their nesting. -/
structure ExpressionsShift (k fuel : Nat) : Prop where
  expression : Shifts k (Expr.rename (· + k)) (expression fuel) (expression fuel)
  binary : ∀ levels, Shifts k (Expr.rename (· + k)) (binary fuel levels) (binary fuel levels)
  binaryRest : ∀ level tighter left, Shifts k (Expr.rename (· + k))
    (binaryRest fuel level tighter left) (binaryRest fuel level tighter (left.rename (· + k)))
  unary : Shifts k (Expr.rename (· + k)) (unary fuel) (unary fuel)
  call : Shifts k (Expr.rename (· + k)) (call fuel) (call fuel)
  callRest : ∀ callee, Shifts k (Expr.rename (· + k)) (callRest fuel callee)
    (callRest fuel (callee.rename (· + k)))
  arguments : ∀ count, Shifts k (Expr.renameAll (· + k)) (arguments fuel count)
    (arguments fuel count)
  primary : Shifts k (Expr.rename (· + k)) (primary fuel) (primary fuel)

theorem Level.node_rename (f : NodeId → NodeId) (level : Level) (left : Expr) (operator : Token)
    (right : Expr) :
    (level.node left operator right).rename f =
      level.node (left.rename f) operator (right.rename f) := by
  cases level <;> rfl

theorem expressionsShift (k fuel : Nat) : ExpressionsShift k fuel := by
  induction fuel with
  | zero => constructor <;> intros <;> exact .exhausted _
  | succ fuel ih =>
      constructor
      case expression =>
        exact (ih.binary _).bind fun left => (Shifts.accept _).andThen fun
          | none => .pure _ left
          | some _ => ih.expression.bind fun _ => assignmentTo_shifts _ _ _
      case binary =>
        intro levels
        cases levels with
        | nil => exact ih.unary
        | cons level tighter => exact (ih.binary tighter).bind fun _ => ih.binaryRest _ _ _
      case binaryRest =>
        intro level tighter left
        refine (Shifts.acceptIf _).andThen fun
          | none => .pure _ left
          | some operator => (ih.binary tighter).bind fun right => ?_
        rw [← Level.node_rename]
        exact ih.binaryRest _ _ _
      case unary =>
        exact (Shifts.acceptIf _).andThen fun
          | none => ih.call
          | some _ => ih.unary.bind fun _ => .pure _ _
      case call => exact ih.primary.bind fun _ => ih.callRest _
      case callRest =>
        intro callee
        refine (Shifts.accept _).andThen fun _ => .ite ?_ ?_
        · exact (Shifts.unlessNext _ rfl (ih.arguments 0)).bind fun arguments =>
            (Shifts.expect _ _).andThen fun paren => ih.callRest (.call callee paren arguments)
        · exact (Shifts.accept _).andThen fun _ => .ite
            ((Shifts.expect _ _).andThen fun name => ih.callRest (.get callee name))
            (.pure _ callee)
      case arguments =>
        intro count
        exact (Shifts.noteBeyondLimit _ _).andThen fun _ => ih.expression.bind fun argument =>
          (Shifts.accept _).andThen fun _ =>
            .ite ((ih.arguments _).bind fun rest => .pure _ (argument :: rest))
              (.pure _ [argument])
      case primary =>
        refine (Shifts.acceptIf _).andThen fun
          | some token => atom_shifts token
          | none => (Shifts.accept _).andThen fun
            | some keyword => superRest_shifts keyword
            | none => (Shifts.accept _).andThen fun _ => .ite ?_ (.fail _ _)
        exact ih.expression.bind fun inner => (Shifts.expect _ _).andThen fun _ =>
          .pure _ (Expr.grouping inner)

theorem expression_shifts (fuel : Nat) :
    Shifts k (Expr.rename (· + k)) (expression fuel) (expression fuel) :=
  (expressionsShift k fuel).expression

theorem optionalExpression_shifts (fuel : Nat) (tag : Tag) :
    Shifts k (Option.map (Expr.rename (· + k)))
      (Rule.unlessNext tag none (some <$> expression fuel))
      (Rule.unlessNext tag none (some <$> expression fuel)) :=
  .unlessNext _ rfl (expression_shifts fuel).optional

/-! ## Statements -/

theorem parameters_shifts (fuel count : Nat) :
    Shifts k id (parameters fuel count) (parameters fuel count) := by
  induction fuel generalizing count with
  | zero => exact .exhausted _
  | succ fuel ih =>
      exact (Shifts.noteBeyondLimit _ _).andThen fun _ => (Shifts.expect _ _).andThen fun name =>
        (Shifts.accept _).andThen fun _ =>
          .ite ((ih _).andThen fun rest => .pure _ (name :: rest)) (.pure _ [name])

theorem varRest_shifts (fuel : Nat) :
    Shifts k (Stmt.rename (· + k)) (varRest fuel) (varRest fuel) := by
  have hinitializer : Shifts k (Option.map (Expr.rename (· + k))) (initializer fuel)
      (initializer fuel) :=
    (Shifts.accept _).andThen fun _ => .ite (expression_shifts fuel).optional (.pure _ none)
  exact (Shifts.expect _ _).andThen fun name => hinitializer.bind fun initializer =>
    (Shifts.expect _ _).andThen fun _ => .pure _ (Stmt.varDecl name initializer)

theorem letRest_shifts (fuel : Nat) :
    Shifts k (Stmt.rename (· + k)) (letRest fuel) (letRest fuel) :=
  (Shifts.expect _ _).andThen fun name => (Shifts.expect _ _).andThen fun _ =>
    (expression_shifts fuel).bind fun initializer => (Shifts.expect _ _).andThen fun _ =>
      .pure _ (Stmt.letDecl name initializer)

theorem expressionStatement_shifts (fuel : Nat) :
    Shifts k (Stmt.rename (· + k)) (expressionStatement fuel) (expressionStatement fuel) :=
  (expression_shifts fuel).bind fun value => (Shifts.expect _ _).andThen fun _ =>
    .pure _ (Stmt.expression value)

theorem printRest_shifts (fuel : Nat) :
    Shifts k (Stmt.rename (· + k)) (printRest fuel) (printRest fuel) :=
  (expression_shifts fuel).bind fun value => (Shifts.expect _ _).andThen fun _ =>
    .pure _ (Stmt.print value)

theorem returnRest_shifts (fuel : Nat) (keyword : Token) :
    Shifts k (Stmt.rename (· + k)) (returnRest fuel keyword) (returnRest fuel keyword) :=
  (optionalExpression_shifts fuel _).bind fun value => (Shifts.expect _ _).andThen fun _ =>
    .pure _ (Stmt.returnStmt keyword value)

theorem breakRest_shifts (keyword : Token) :
    Shifts k (Stmt.rename (· + k)) (breakRest keyword) (breakRest keyword) :=
  (Shifts.expect _ _).andThen fun _ => .pure _ (Stmt.breakStmt keyword)

theorem condition_shifts (fuel : Nat) (opening : SyntaxCause) :
    Shifts k (Expr.rename (· + k)) (condition fuel opening) (condition fuel opening) :=
  (Shifts.expect _ _).andThen fun _ => (expression_shifts fuel).bind fun value =>
    (Shifts.expect _ _).andThen fun _ => .pure _ value

/-- The clauses of a loop with other numbers. -/
def ForClauses.rename (f : NodeId → NodeId) (clauses : ForClauses) : ForClauses :=
  ⟨clauses.initializer.map (Stmt.rename f), clauses.condition.map (Expr.rename f),
    clauses.increment.map (Expr.rename f)⟩

theorem ForClauses.loop_rename (f : NodeId → NodeId) (clauses : ForClauses) (body : Stmt) :
    (clauses.loop body).rename f = (clauses.rename f).loop (body.rename f) := by
  obtain ⟨first, second, third⟩ := clauses
  cases first <;> cases second <;> cases third <;> rfl

theorem forInitializer_shifts (fuel : Nat) :
    Shifts k (Option.map (Stmt.rename (· + k))) (forInitializer fuel) (forInitializer fuel) :=
  (Shifts.accept _).andThen fun _ => .ite (.pure _ none) <|
    (Shifts.accept _).andThen fun _ => .ite (varRest_shifts fuel).optional <|
      (Shifts.accept _).andThen fun _ => .ite (letRest_shifts fuel).optional
        (expressionStatement_shifts fuel).optional

theorem forClauses_shifts (fuel : Nat) :
    Shifts k (ForClauses.rename (· + k)) (forClauses fuel) (forClauses fuel) :=
  (Shifts.expect _ _).andThen fun _ => (forInitializer_shifts fuel).bind fun initializer =>
    (optionalExpression_shifts fuel _).bind fun condition => (Shifts.expect _ _).andThen fun _ =>
      (optionalExpression_shifts fuel _).bind fun increment =>
        (Shifts.expect _ _).andThen fun _ =>
          .pure _ (ForClauses.mk initializer condition increment)

theorem superclassClause_shifts :
    Shifts k (Option.map (Expr.rename (· + k))) superclassClause superclassClause :=
  (Shifts.accept _).andThen fun _ => .ite
    ((Shifts.expect _ _).andThen fun name => Shifts.freshId.bind fun id =>
      .pure _ (some (Expr.variable id name)))
    (.pure _ none)

/-- The rules for statements read with greater numbers as they do without, under a given bound on
their nesting. -/
structure StatementsShift (k fuel : Nat) : Prop where
  declaration : Shifts k (Stmt.rename (· + k)) (declaration fuel) (declaration fuel)
  classRest : Shifts k (Stmt.rename (· + k)) (classRest fuel) (classRest fuel)
  methodList : Shifts k (FunctionDecl.renameAll (· + k)) (methodList fuel) (methodList fuel)
  function : ∀ callee, Shifts k (FunctionDecl.rename (· + k)) (function fuel callee)
    (function fuel callee)
  statement : Shifts k (Stmt.rename (· + k)) (statement fuel) (statement fuel)
  blockRest : Shifts k (Stmt.renameAll (· + k)) (blockRest fuel) (blockRest fuel)
  declarationList : Shifts k (Stmt.renameAll (· + k)) (declarationList fuel) (declarationList fuel)

theorem Stmt.renameAll_toList_append (f : NodeId → NodeId) (first : Option Stmt)
    (rest : List Stmt) : (first.map (Stmt.rename f)).toList ++ Stmt.renameAll f rest =
      Stmt.renameAll f (first.toList ++ rest) := by
  cases first <;> rfl

theorem statementsShift (k fuel : Nat) : StatementsShift k fuel := by
  induction fuel with
  | zero => constructor <;> intros <;> exact .exhausted _
  | succ fuel ih =>
      constructor
      case declaration =>
        exact (Shifts.accept _).andThen fun _ => .ite ih.classRest <|
          (Shifts.accept _).andThen fun _ => .ite ((ih.function _).map fun _ => rfl) <|
            (Shifts.accept _).andThen fun _ => .ite (varRest_shifts fuel) <|
              (Shifts.accept _).andThen fun _ => .ite (letRest_shifts fuel) ih.statement
      case classRest =>
        exact (Shifts.expect _ _).andThen fun name =>
          superclassClause_shifts.bind fun superclass => (Shifts.expect _ _).andThen fun _ =>
            ih.methodList.bind fun methods => (Shifts.expect _ _).andThen fun _ =>
              .pure _ (Stmt.classDecl name superclass methods)
      case methodList =>
        exact (Shifts.check _).andThen fun _ => Shifts.atEnd.andThen fun _ => .ite (.pure _ []) <|
          (ih.function _).bind fun method => ih.methodList.bind fun rest =>
            .pure _ (method :: rest)
      case function =>
        intro callee
        exact (Shifts.expect _ _).andThen fun name => (Shifts.expect _ _).andThen fun _ =>
          (Shifts.unlessNext _ rfl (parameters_shifts fuel 0)).andThen fun params =>
            (Shifts.expect _ _).andThen fun _ => (Shifts.expect _ _).andThen fun _ =>
              ih.blockRest.bind fun body => .pure _ (FunctionDecl.mk name params body)
      case statement =>
        refine (Shifts.accept _).andThen fun _ => .ite ?forLoop <|
          (Shifts.accept _).andThen fun _ => .ite ?ifElse <| (Shifts.accept _).andThen fun _ =>
            .ite ?whileLoop <| (Shifts.accept _).andThen fun
              | some keyword => returnRest_shifts fuel keyword
              | none => (Shifts.accept _).andThen fun
                | some keyword => breakRest_shifts keyword
                | none => (Shifts.accept _).andThen fun _ =>
                    .ite (ih.blockRest.map fun _ => rfl) <|
                      (Shifts.accept _).andThen fun _ => .ite (printRest_shifts fuel)
                        (expressionStatement_shifts fuel)
        case forLoop =>
          refine (forClauses_shifts fuel).bind fun clauses => ih.statement.bind fun body => ?_
          rw [← ForClauses.loop_rename]
          exact .pure _ (clauses.loop body)
        case ifElse =>
          exact (condition_shifts fuel _).bind fun test => ih.statement.bind fun thenBranch =>
            (Shifts.accept _).andThen fun _ => .ite
              (ih.statement.bind fun elseBranch =>
                .pure _ (Stmt.ifElse test thenBranch (some elseBranch)))
              (.pure _ (Stmt.ifElse test thenBranch none))
        case whileLoop =>
          exact (condition_shifts fuel _).bind fun test => ih.statement.bind fun body =>
            .pure _ (Stmt.whileLoop test body)
      case blockRest =>
        exact ih.declarationList.bind fun body => (Shifts.expect _ _).andThen fun _ =>
          .pure _ body
      case declarationList =>
        refine (Shifts.check _).andThen fun _ => Shifts.atEnd.andThen fun _ => .ite (.pure _ []) <|
          ih.declaration.recover.bind fun first => ih.declarationList.bind fun rest => ?_
        rw [Stmt.renameAll_toList_append]
        exact .pure _ (first.toList ++ rest)

theorem topLevel_shifts (fuel : Nat) :
    Shifts k (Stmt.renameAll (· + k)) (topLevel fuel) (topLevel fuel) := by
  induction fuel with
  | zero => exact .exhausted _
  | succ fuel ih =>
      refine Shifts.atEnd.andThen fun _ => .ite (.pure _ []) <|
        (statementsShift k fuel).declaration.recover.bind fun first => ih.bind fun rest => ?_
      rw [Stmt.renameAll_toList_append]
      exact .pure _ (first.toList ++ rest)

end Rules

/-! ## Programs -/

/-- Tokens are read into the same program with greater numbers, or the same is wrong with them. -/
theorem parseTokens_add (nextId k : NodeId) (tokens : List Token) :
    parseTokens (nextId + k) tokens =
      ((parseTokens nextId tokens).1.map (Stmt.renameAll (· + k)),
        (parseTokens nextId tokens).2 + k) := by
  have hrun := topLevel_shifts (k := k) (ruleFuel tokens.length) (Cursor.start tokens nextId)
  have hstart : Cursor.start tokens (nextId + k) = (Cursor.start tokens nextId).shift k := rfl
  unfold parseTokens
  rw [hstart, hrun]
  cases topLevel (ruleFuel tokens.length) (Cursor.start tokens nextId) with
  | ok program cursor =>
      simp only [Rule.shiftResult, Cursor.shift]
      split <;> rfl
  | error => rfl

/-- A source is read into the same program with greater numbers, or the same is wrong with it. -/
theorem parseSource_add (nextId k : NodeId) (source : String) :
    parseSource (nextId + k) source =
      ((parseSource nextId source).1.map (Stmt.renameAll (· + k)),
        (parseSource nextId source).2 + k) := by
  unfold parseSource
  dsimp only
  rw [parseTokens_add]
  obtain ⟨result, next⟩ := parseTokens nextId (Source.tokens (Utf8.encode source))
  cases result with
  | error => rfl
  | ok program =>
      simp only [Except.map]
      split <;> rfl

end ScopeScript
