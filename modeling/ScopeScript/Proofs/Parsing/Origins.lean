import ScopeScript.Proofs.Parsing.Progress

/-!
# Where the tokens of trees and syntax errors come from

The rules of the grammar make up no tokens. Whatever holds of the tokens in front of a rule, the end
token included, holds of every token in the tree that it gives and of every token at which it notes
an error or fails. A loop that is read into other statements is no exception.
-/

namespace ScopeScript

section Trees

variable (p : Token → Prop)

mutual
/-- A property holds of every token in an expression. -/
def Expr.From : Expr → Prop
  | .literal _ => True
  | .unary operator right => p operator ∧ right.From
  | .binary left operator right | .logical left operator right =>
    left.From ∧ p operator ∧ right.From
  | .grouping inner => inner.From
  | .variable _ name => p name
  | .assign _ name value => p name ∧ value.From
  | .call callee paren arguments => callee.From ∧ p paren ∧ Expr.FromAll arguments
  | .get object name => object.From ∧ p name
  | .set object name value => object.From ∧ p name ∧ value.From
  | .superExpr _ keyword method => p keyword ∧ p method
  | .thisExpr _ keyword => p keyword

/-- A property holds of every token in expressions. -/
def Expr.FromAll : List Expr → Prop
  | [] => True
  | e :: rest => e.From ∧ Expr.FromAll rest
end

/-- A property holds of every token in an expression, if there is one. -/
def Expr.FromOption : Option Expr → Prop
  | none => True
  | some e => e.From p

mutual
/-- A property holds of every token in a statement. -/
def Stmt.From : Stmt → Prop
  | .expression value | .print value => value.From p
  | .varDecl name initializer => p name ∧ Expr.FromOption p initializer
  | .letDecl name initializer => p name ∧ initializer.From p
  | .block body => Stmt.FromAll body
  | .ifElse condition thenBranch none => condition.From p ∧ thenBranch.From
  | .ifElse condition thenBranch (some elseBranch) =>
    condition.From p ∧ thenBranch.From ∧ elseBranch.From
  | .whileLoop condition body => condition.From p ∧ body.From
  | .function declaration => FunctionDecl.From declaration
  | .returnStmt keyword value => p keyword ∧ Expr.FromOption p value
  | .breakStmt keyword => p keyword
  | .classDecl name superclass methods =>
    p name ∧ Expr.FromOption p superclass ∧ FunctionDecl.FromAll methods

/-- A property holds of every token in statements. -/
def Stmt.FromAll : List Stmt → Prop
  | [] => True
  | s :: rest => s.From ∧ Stmt.FromAll rest

/-- A property holds of every token in a function. -/
def FunctionDecl.From : FunctionDecl Stmt → Prop
  | ⟨name, params, body⟩ => p name ∧ (∀ param ∈ params, p param) ∧ Stmt.FromAll body

/-- A property holds of every token in methods. -/
def FunctionDecl.FromAll : List (FunctionDecl Stmt) → Prop
  | [] => True
  | method :: rest => FunctionDecl.From method ∧ FunctionDecl.FromAll rest
end

end Trees

section Lists

variable {p : Token → Prop}

theorem FunctionDecl.from_of_mem {methods : List (FunctionDecl Stmt)} {method : FunctionDecl Stmt}
    (h : FunctionDecl.FromAll p methods) (hmem : method ∈ methods) :
    FunctionDecl.From p method := by
  induction methods with
  | nil => cases hmem
  | cons first rest ih =>
      rcases List.mem_cons.mp hmem with rfl | hmem
      · exact h.1
      · exact ih h.2 hmem

/-- A property holds of every token in the clauses of a loop. -/
structure ForClauses.From (p : Token → Prop) (clauses : ForClauses) : Prop where
  initializer : ∀ s ∈ clauses.initializer, Stmt.From p s
  condition : Expr.FromOption p clauses.condition
  increment : Expr.FromOption p clauses.increment

theorem ForClauses.From.loop {clauses : ForClauses} {body : Stmt} (h : clauses.From p)
    (hbody : body.From p) : (clauses.loop body).From p := by
  obtain ⟨first, second, third⟩ := clauses
  obtain ⟨hfirst, hsecond, hthird⟩ := h
  cases first <;> cases second <;> cases third <;>
    simp_all [ForClauses.loop, Stmt.From, Stmt.FromAll, Expr.FromOption, Expr.From]

end Lists

/-- A property holds of the tokens in front of a cursor and of those at which errors are noted. -/
structure Cursor.From (p : Token → Prop) (c : Cursor) : Prop where
  rest : ∀ t ∈ c.rest, p t
  ending : p c.ending
  errors : ∀ e ∈ c.errors, p e.token

theorem Cursor.From.peek {p : Token → Prop} {c : Cursor} (h : c.From p) : p c.peek := by
  cases hrest : c.rest with
  | nil =>
      rw [Cursor.peek_nil hrest]
      exact h.ending
  | cons t rest =>
      rw [Cursor.peek_cons hrest]
      exact h.rest t (hrest ▸ List.mem_cons_self)

/-- Reading on, no other tokens come in front of the cursor. -/
theorem Cursor.From.of_leads {p : Token → Prop} {c d : Cursor} (h : c.From p) (hlead : c.Leads d)
    (herrors : ∀ e ∈ d.errors, p e.token) : d.From p :=
  ⟨fun t ht => h.rest t (hlead.suffix.mem ht), hlead.ending ▸ h.ending, herrors⟩

theorem Cursor.From.note {p : Token → Prop} {c : Cursor} (h : c.From p) {e : SyntaxError}
    (he : p e.token) : (c.note e).From p := by
  refine h.of_leads (c.leads_note e) fun e' he' => ?_
  rcases List.mem_append.mp he' with he' | he'
  · exact h.errors e' he'
  · obtain rfl := List.mem_singleton.mp he'
    exact he

/-- A property holds of the token at which a rule fails, if it fails at one. -/
def Failure.From (p : Token → Prop) : Failure → Prop
  | .refused error => p error.token
  | .exhausted => True

namespace Rule

variable {α β : Type}

/-- Where a property holds of the tokens in front of a rule, the rule keeps to such tokens: it
notes errors and fails only at them, and its results are as told. -/
def Keeps (p : Token → Prop) (q : α → Prop) (rule : Rule α) : Prop :=
  ∀ c : Cursor, c.From p →
    match rule c with
    | .ok a c' => q a ∧ c'.From p
    | .error failure c' => failure.From p ∧ c'.From p

namespace Keeps

variable {p : Token → Prop} {q : α → Prop} {r : β → Prop}

theorem pure {a : α} (h : q a) : Keeps p q (pure a) :=
  fun _ hc => ⟨h, hc⟩

theorem get : Keeps p (Cursor.From p) (get : Rule Cursor) :=
  fun _ hc => ⟨hc, hc⟩

theorem throw {failure : Failure} (h : failure.From p) : Keeps p q (throw failure : Rule α) :=
  fun _ hc => ⟨h, hc⟩

theorem bind {x : Rule α} {f : α → Rule β} (hx : Keeps p q x) (hf : ∀ a, q a → Keeps p r (f a)) :
    Keeps p r (x >>= f) := by
  intro c hc
  have hfirst := hx c hc
  change match EStateM.bind x f c with
    | .ok a c' => r a ∧ c'.From p
    | .error failure c' => failure.From p ∧ c'.From p
  unfold EStateM.bind
  cases hrun : x c with
  | ok a d =>
      rw [hrun] at hfirst
      exact hf a hfirst.1 d hfirst.2
  | error e d =>
      rw [hrun] at hfirst
      exact hfirst

theorem map {f : α → β} {x : Rule α} (hx : Keeps p q x) (hf : ∀ a, q a → r (f a)) :
    Keeps p r (f <$> x) := by
  rw [map_eq_pure_bind]
  exact hx.bind fun a ha => .pure (hf a ha)

theorem ite {c : Prop} [Decidable c] {x y : Rule α} (hx : Keeps p q x) (hy : Keeps p q y) :
    Keeps p q (if c then x else y) := by
  split
  · exact hx
  · exact hy

theorem check (tag : Tag) : Keeps p (fun _ => True) (Rule.check tag) :=
  fun _ hc => ⟨trivial, hc⟩

theorem atEnd : Keeps p (fun _ => True) Rule.atEnd :=
  fun _ hc => ⟨trivial, hc⟩

theorem acceptIf (test : Token → Bool) :
    Keeps p (fun found => ∀ t ∈ found, p t) (Rule.acceptIf test) := by
  intro c hc
  cases hrest : c.rest with
  | nil =>
      rw [acceptIf_nil hrest]
      exact ⟨nofun, hc⟩
  | cons t rest =>
      cases ht : test t with
      | true =>
          have hnext : c.next.From p := hc.of_leads (Cursor.leads_next hrest) hc.errors
          rw [acceptIf_true hrest ht]
          refine ⟨?_, hnext⟩
          rintro _ ⟨⟩
          exact hc.rest t (hrest ▸ List.mem_cons_self)
      | false =>
          rw [acceptIf_false hrest ht]
          exact ⟨nofun, hc⟩

theorem accept (tag : Tag) : Keeps p (fun found => ∀ t ∈ found, p t) (Rule.accept tag) :=
  acceptIf _

theorem fail (cause : SyntaxCause) : Keeps p q (Rule.fail cause : Rule α) :=
  get.bind fun c hc => throw (show Failure.From p (.refused ⟨c.peek, cause⟩) from hc.peek)

theorem exhausted : Keeps p q (Rule.exhausted : Rule α) :=
  throw trivial

theorem expect (tag : Tag) (cause : SyntaxCause) : Keeps p p (Rule.expect tag cause) :=
  (accept tag).bind fun
    | some t, ht => pure (ht t rfl)
    | none, _ => fail cause

theorem unlessNext (tag : Tag) {default : α} {rule : Rule α} (hdefault : q default)
    (h : Keeps p q rule) : Keeps p q (Rule.unlessNext tag default rule) :=
  (check tag).bind fun _ _ => .ite (.pure hdefault) h

theorem note {token : Token} (h : p token) (cause : SyntaxCause) :
    Keeps p (fun _ => True) (Rule.note token cause) :=
  fun _ hc => ⟨trivial, hc.note (e := ⟨token, cause⟩) h⟩

theorem freshId : Keeps p (fun _ => True) Rule.freshId :=
  fun _ hc => ⟨trivial, hc.rest, hc.ending, hc.errors⟩

/-- A rule reads on behind a token that may come next, or another rule does without it. -/
theorem ifAccept {tag : Tag} {x y : Rule α} (hx : Keeps p q x) (hy : Keeps p q y) :
    Keeps p q (do if (← Rule.accept tag).isSome then x else y) :=
  (accept tag).bind fun _ _ => .ite hx hy

end Keeps

end Rule

open Rule (Keeps)

section Expressions

variable {p : Token → Prop}

theorem noteBeyondLimit_keeps (count : Nat) (cause : SyntaxCause) :
    Keeps p (fun _ => True) (noteBeyondLimit count cause) :=
  .ite (Keeps.get.bind fun _ hc => .note hc.peek _) (.pure trivial)

theorem assignmentTo_keeps {target value : Expr} {equals : Token} (htarget : target.From p)
    (hequals : p equals) (hvalue : value.From p) :
    Keeps p (Expr.From p) (assignmentTo target equals value) := by
  unfold assignmentTo
  split
  next => exact Keeps.freshId.bind fun _ _ => .pure ⟨htarget, hvalue⟩
  next => exact .pure ⟨htarget.1, htarget.2, hvalue⟩
  next => exact (Keeps.note hequals _).bind fun _ _ => .pure htarget

theorem superRest_keeps {keyword : Token} (hkeyword : p keyword) :
    Keeps p (Expr.From p) (superRest keyword) :=
  (Keeps.expect _ _).bind fun _ _ => (Keeps.expect _ _).bind fun _ hmethod =>
    Keeps.freshId.bind fun _ _ => .pure ⟨hkeyword, hmethod⟩

theorem atom_keeps {token : Token} (htoken : p token) :
    Keeps p (Expr.From p) ((atom? token).getD (Rule.fail .expression)) := by
  unfold atom?
  split
  case h_6 | h_7 => exact Keeps.freshId.bind fun _ _ => .pure htoken
  case h_8 => exact .fail _
  all_goals exact .pure trivial

theorem Level.node_from (level : Level) {left right : Expr} {operator : Token}
    (hleft : left.From p) (hoperator : p operator) (hright : right.From p) :
    (level.node left operator right).From p := by
  cases level <;> exact ⟨hleft, hoperator, hright⟩

variable (p) in
/-- The rules for expressions keep to the tokens in front of them, under a given bound on their
nesting. -/
structure ExpressionsKeep (fuel : Nat) : Prop where
  expression : Keeps p (Expr.From p) (expression fuel)
  binary : ∀ levels, Keeps p (Expr.From p) (binary fuel levels)
  binaryRest : ∀ level tighter left, left.From p →
    Keeps p (Expr.From p) (binaryRest fuel level tighter left)
  unary : Keeps p (Expr.From p) (unary fuel)
  call : Keeps p (Expr.From p) (call fuel)
  callRest : ∀ callee, callee.From p → Keeps p (Expr.From p) (callRest fuel callee)
  arguments : ∀ count, Keeps p (Expr.FromAll p) (arguments fuel count)
  primary : Keeps p (Expr.From p) (primary fuel)

theorem expressionsKeep (fuel : Nat) : ExpressionsKeep p fuel := by
  induction fuel with
  | zero => constructor <;> intros <;> exact .exhausted
  | succ fuel ih =>
      constructor
      case expression =>
        exact (ih.binary _).bind fun _ hleft => (Keeps.accept _).bind fun
          | none, _ => .pure hleft
          | some equals, hequals => ih.expression.bind fun _ hvalue =>
              assignmentTo_keeps hleft (hequals equals rfl) hvalue
      case binary =>
        intro levels
        cases levels with
        | nil => exact ih.unary
        | cons level tighter =>
            exact (ih.binary tighter).bind fun _ hleft => ih.binaryRest _ _ _ hleft
      case binaryRest =>
        intro level tighter left hleft
        exact (Keeps.acceptIf _).bind fun
          | none, _ => .pure hleft
          | some operator, hoperator => (ih.binary tighter).bind fun _ hright =>
              ih.binaryRest _ _ _ (level.node_from hleft (hoperator operator rfl) hright)
      case unary =>
        exact (Keeps.acceptIf _).bind fun
          | none, _ => ih.call
          | some operator, hoperator =>
              ih.unary.bind fun _ hright => .pure ⟨hoperator operator rfl, hright⟩
      case call => exact ih.primary.bind fun _ hcallee => ih.callRest _ hcallee
      case callRest =>
        intro callee hcallee
        refine .ifAccept ?_ (.ifAccept ?_ (.pure hcallee))
        · exact (Keeps.unlessNext _ trivial (ih.arguments 0)).bind fun _ harguments =>
            (Keeps.expect _ _).bind fun _ hparen => ih.callRest _ ⟨hcallee, hparen, harguments⟩
        · exact (Keeps.expect _ _).bind fun _ hname => ih.callRest _ ⟨hcallee, hname⟩
      case arguments =>
        intro count
        exact (noteBeyondLimit_keeps _ _).bind fun _ _ => ih.expression.bind fun _ hfirst =>
          .ifAccept ((ih.arguments _).bind fun _ hrest => .pure ⟨hfirst, hrest⟩)
            (.pure ⟨hfirst, trivial⟩)
      case primary =>
        refine (Keeps.acceptIf _).bind fun
          | some token, htoken => atom_keeps (htoken token rfl)
          | none, _ => (Keeps.accept _).bind fun
            | some keyword, hkeyword => superRest_keeps (hkeyword keyword rfl)
            | none, _ => .ifAccept ?_ (.fail _)
        exact ih.expression.bind fun _ hinner => (Keeps.expect _ _).bind fun _ _ => .pure hinner

theorem expression_keeps (fuel : Nat) : Keeps p (Expr.From p) (expression fuel) :=
  (expressionsKeep fuel).expression

theorem optionalExpression_keeps (fuel : Nat) (tag : Tag) :
    Keeps p (Expr.FromOption p) (Rule.unlessNext tag none (some <$> expression fuel)) :=
  .unlessNext _ trivial ((expression_keeps fuel).map fun _ h => h)

end Expressions

section Statements

variable {p : Token → Prop}

theorem parameters_keeps (fuel count : Nat) :
    Keeps p (fun params => ∀ param ∈ params, p param) (parameters fuel count) := by
  induction fuel generalizing count with
  | zero => exact .exhausted
  | succ fuel ih =>
      exact (noteBeyondLimit_keeps _ _).bind fun _ _ => (Keeps.expect _ _).bind fun _ hname =>
        .ifAccept ((ih _).bind fun _ hrest => .pure (List.forall_mem_cons.mpr ⟨hname, hrest⟩))
          (.pure (List.forall_mem_singleton.mpr hname))

theorem initializer_keeps (fuel : Nat) : Keeps p (Expr.FromOption p) (initializer fuel) :=
  .ifAccept ((expression_keeps fuel).map fun _ h => h) (.pure trivial)

theorem varRest_keeps (fuel : Nat) : Keeps p (Stmt.From p) (varRest fuel) :=
  (Keeps.expect _ _).bind fun _ hname => (initializer_keeps fuel).bind fun _ hvalue =>
    (Keeps.expect _ _).bind fun _ _ => .pure ⟨hname, hvalue⟩

theorem letRest_keeps (fuel : Nat) : Keeps p (Stmt.From p) (letRest fuel) :=
  (Keeps.expect _ _).bind fun _ hname => (Keeps.expect _ _).bind fun _ _ =>
    (expression_keeps fuel).bind fun _ hvalue => (Keeps.expect _ _).bind fun _ _ =>
      .pure ⟨hname, hvalue⟩

theorem expressionStatement_keeps (fuel : Nat) : Keeps p (Stmt.From p) (expressionStatement fuel) :=
  (expression_keeps fuel).bind fun _ hvalue => (Keeps.expect _ _).bind fun _ _ => .pure hvalue

theorem printRest_keeps (fuel : Nat) : Keeps p (Stmt.From p) (printRest fuel) :=
  (expression_keeps fuel).bind fun _ hvalue => (Keeps.expect _ _).bind fun _ _ => .pure hvalue

theorem returnRest_keeps (fuel : Nat) {keyword : Token} (hkeyword : p keyword) :
    Keeps p (Stmt.From p) (returnRest fuel keyword) :=
  (optionalExpression_keeps fuel _).bind fun _ hvalue => (Keeps.expect _ _).bind fun _ _ =>
    .pure ⟨hkeyword, hvalue⟩

theorem breakRest_keeps {keyword : Token} (hkeyword : p keyword) :
    Keeps p (Stmt.From p) (breakRest keyword) :=
  (Keeps.expect _ _).bind fun _ _ => .pure hkeyword

theorem condition_keeps (fuel : Nat) (opening : SyntaxCause) :
    Keeps p (Expr.From p) (condition fuel opening) :=
  (Keeps.expect _ _).bind fun _ _ => (expression_keeps fuel).bind fun _ hvalue =>
    (Keeps.expect _ _).bind fun _ _ => .pure hvalue

theorem forInitializer_keeps (fuel : Nat) :
    Keeps p (fun found => ∀ s ∈ found, Stmt.From p s) (forInitializer fuel) := by
  have hsome : ∀ s : Stmt, s.From p → ∀ s' ∈ some s, s'.From p := by
    rintro s hs _ ⟨⟩
    exact hs
  exact .ifAccept (.pure (by simp)) <| .ifAccept ((varRest_keeps fuel).map hsome) <|
    .ifAccept ((letRest_keeps fuel).map hsome) ((expressionStatement_keeps fuel).map hsome)

theorem forClauses_keeps (fuel : Nat) : Keeps p (ForClauses.From p) (forClauses fuel) :=
  (Keeps.expect _ _).bind fun _ _ => (forInitializer_keeps fuel).bind fun _ hfirst =>
    (optionalExpression_keeps fuel _).bind fun _ hsecond => (Keeps.expect _ _).bind fun _ _ =>
      (optionalExpression_keeps fuel _).bind fun _ hthird => (Keeps.expect _ _).bind fun _ _ =>
        .pure ⟨hfirst, hsecond, hthird⟩

theorem forRest_keeps {fuel : Nat} (h : Keeps p (Stmt.From p) (statement fuel)) :
    Keeps p (Stmt.From p) (forRest fuel) :=
  (forClauses_keeps fuel).bind fun _ hclauses => h.bind fun _ hbody => .pure (hclauses.loop hbody)

theorem ifRest_keeps {fuel : Nat} (h : Keeps p (Stmt.From p) (statement fuel)) :
    Keeps p (Stmt.From p) (ifRest fuel) :=
  (condition_keeps fuel _).bind fun _ htest => h.bind fun _ hthen =>
    .ifAccept (h.bind fun _ helse => .pure ⟨htest, hthen, helse⟩) (.pure ⟨htest, hthen⟩)

theorem whileRest_keeps {fuel : Nat} (h : Keeps p (Stmt.From p) (statement fuel)) :
    Keeps p (Stmt.From p) (whileRest fuel) :=
  (condition_keeps fuel _).bind fun _ htest => h.bind fun _ hbody => .pure ⟨htest, hbody⟩

theorem superclassClause_keeps : Keeps p (Expr.FromOption p) superclassClause :=
  .ifAccept ((Keeps.expect _ _).bind fun _ hname => Keeps.freshId.bind fun _ _ => .pure hname)
    (.pure trivial)

/-- An error that is recovered from is noted, and what is skipped is lost. -/
theorem recover_keeps {α : Type} {q : α → Prop} {rule : Rule α} (h : Keeps p q rule) :
    Keeps p (fun found => ∀ a ∈ found, q a) (recover rule) := by
  intro c hc
  have hrule := h c hc
  unfold recover
  rcases hrun : rule c with ⟨a, d⟩ | ⟨error | _, d⟩ <;> rw [hrun] at hrule
  · refine ⟨?_, hrule.2⟩
    rintro _ ⟨⟩
    exact hrule.1
  · obtain ⟨herror, hd⟩ := hrule
    have hnoted := hd.note herror
    refine ⟨nofun, hnoted.of_leads (Cursor.leads_resume _) ?_⟩
    rw [Cursor.resume_errors]
    exact hnoted.errors
  · exact hrule

theorem recovered_from {first : Option Stmt} {rest : List Stmt}
    (hfirst : ∀ s ∈ first, Stmt.From p s)
    (hrest : Stmt.FromAll p rest) : Stmt.FromAll p (first.toList ++ rest) := by
  cases first with
  | none => exact hrest
  | some s => exact ⟨hfirst s rfl, hrest⟩

variable (p) in
/-- The rules for statements keep to the tokens in front of them, under a given bound on their
nesting. -/
structure StatementsKeep (fuel : Nat) : Prop where
  declaration : Keeps p (Stmt.From p) (declaration fuel)
  classRest : Keeps p (Stmt.From p) (classRest fuel)
  methodList : Keeps p (FunctionDecl.FromAll p) (methodList fuel)
  function : ∀ callee, Keeps p (FunctionDecl.From p) (function fuel callee)
  statement : Keeps p (Stmt.From p) (statement fuel)
  blockRest : Keeps p (Stmt.FromAll p) (blockRest fuel)
  declarationList : Keeps p (Stmt.FromAll p) (declarationList fuel)

theorem statementsKeep (fuel : Nat) : StatementsKeep p fuel := by
  induction fuel with
  | zero => constructor <;> intros <;> exact .exhausted
  | succ fuel ih =>
      constructor
      case declaration =>
        exact .ifAccept ih.classRest <| .ifAccept ((ih.function _).map fun _ h => h) <|
          .ifAccept (varRest_keeps fuel) <| .ifAccept (letRest_keeps fuel) ih.statement
      case classRest =>
        exact (Keeps.expect _ _).bind fun _ hname => superclassClause_keeps.bind fun _ hsuper =>
          (Keeps.expect _ _).bind fun _ _ => ih.methodList.bind fun _ hmethods =>
            (Keeps.expect _ _).bind fun _ _ => .pure ⟨hname, hsuper, hmethods⟩
      case methodList =>
        exact (Keeps.check _).bind fun _ _ => Keeps.atEnd.bind fun _ _ => .ite (.pure trivial) <|
          (ih.function _).bind fun _ hmethod => ih.methodList.bind fun _ hrest =>
            .pure ⟨hmethod, hrest⟩
      case function =>
        intro callee
        exact (Keeps.expect _ _).bind fun _ hname => (Keeps.expect _ _).bind fun _ _ =>
          (Keeps.unlessNext _ (List.forall_mem_nil _) (parameters_keeps fuel 0)).bind
            fun _ hparams => (Keeps.expect _ _).bind fun _ _ => (Keeps.expect _ _).bind fun _ _ =>
              ih.blockRest.bind fun _ hbody => .pure ⟨hname, hparams, hbody⟩
      case statement =>
        rw [statement_succ]
        exact .ifAccept (forRest_keeps ih.statement) <| .ifAccept (ifRest_keeps ih.statement) <|
          .ifAccept (whileRest_keeps ih.statement) <| (Keeps.accept _).bind fun
            | some keyword, hkeyword => returnRest_keeps fuel (hkeyword keyword rfl)
            | none, _ => (Keeps.accept _).bind fun
              | some keyword, hkeyword => breakRest_keeps (hkeyword keyword rfl)
              | none, _ => .ifAccept (ih.blockRest.map fun _ h => h) <|
                  .ifAccept (printRest_keeps fuel) (expressionStatement_keeps fuel)
      case blockRest =>
        exact ih.declarationList.bind fun _ hbody => (Keeps.expect _ _).bind fun _ _ => .pure hbody
      case declarationList =>
        exact (Keeps.check _).bind fun _ _ => Keeps.atEnd.bind fun _ _ => .ite (.pure trivial) <|
          (recover_keeps ih.declaration).bind fun _ hfirst =>
            ih.declarationList.bind fun _ hrest => .pure (recovered_from hfirst hrest)

theorem topLevel_keeps (fuel : Nat) : Keeps p (Stmt.FromAll p) (topLevel fuel) := by
  induction fuel with
  | zero => exact .exhausted
  | succ fuel ih =>
      exact Keeps.atEnd.bind fun _ _ => .ite (.pure trivial) <|
        (recover_keeps (statementsKeep fuel).declaration).bind fun _ hfirst =>
          ih.bind fun _ hrest => .pure (recovered_from hfirst hrest)

/-- Programs and syntax errors hold no tokens but those in front of the first rule. -/
theorem parseTokens_from {tokens : List Token} {nextId : NodeId}
    (hrest : ∀ t ∈ (Cursor.start tokens nextId).rest, p t)
    (hending : p (Cursor.start tokens nextId).ending) :
    (∀ program, (parseTokens nextId tokens).1 = .ok program → Stmt.FromAll p program)
      ∧ ∀ errors, (parseTokens nextId tokens).1 = .error errors → ∀ e ∈ errors, p e.token := by
  let start := Cursor.start tokens nextId
  have hstart : start.From p := ⟨hrest, hending, List.forall_mem_nil _⟩
  have hkeeps := topLevel_keeps (ruleFuel tokens.length) start hstart
  unfold parseTokens
  cases hrun : topLevel (ruleFuel tokens.length) start with
  | ok program c =>
      rw [hrun] at hkeeps
      obtain ⟨hprogram, hc⟩ := hkeeps
      dsimp only
      split
      next =>
        refine ⟨?_, nofun⟩
        rintro _ ⟨⟩
        exact hprogram
      next =>
        refine ⟨nofun, ?_⟩
        rintro _ ⟨⟩
        exact hc.errors
  | error failure c =>
      rw [hrun] at hkeeps
      refine ⟨nofun, ?_⟩
      rintro _ ⟨⟩
      exact hkeeps.2.errors

end Statements

end ScopeScript
