import ScopeScript.Proofs.Parsing.Progress

/-!
# Reading from cursors that are alike

A rule sees of a cursor only what a few operations show: it looks at the next token, reads it, fails
or notes an error there, draws a number and, behind a declaration that failed, skips tokens. Where
two cursors stay alike under these, every rule of the grammar does the same from both. The bound on
the nesting of the second may be larger, and only if the first comes to its bound nothing is said.
The runs may be compared from places that count only, such as those where tokens are left; what
comes to such a place has been at such places all along.
-/

namespace ScopeScript

/-- A way for two cursors, and for two errors noted from them, to be alike. -/
structure Likeness where
  cursors : Cursor → Cursor → Prop
  errors : SyntaxError → SyntaxError → Prop
  /-- The places of the first cursor from which both are compared. -/
  counts : Cursor → Prop
  counts_of_leads : ∀ {c d : Cursor}, c.Leads d → counts d → counts c
  next : ∀ {c c' : Cursor}, cursors c c' → counts c → c'.rest.head? = c.rest.head?
  read : ∀ {c c' : Cursor} {t : Token} {rest rest' : List Token}, cursors c c' →
    c.rest = t :: rest → c'.rest = t :: rest' → cursors c.next c'.next
  fail : ∀ {c c' : Cursor} (cause : SyntaxCause), cursors c c' → counts c →
    errors ⟨c.peek, cause⟩ ⟨c'.peek, cause⟩
  same : ∀ error : SyntaxError, errors error error
  note : ∀ {c c' : Cursor} {e e' : SyntaxError}, cursors c c' → errors e e' →
    cursors (c.note e) (c'.note e')
  nextId : ∀ {c c' : Cursor}, cursors c c' → c'.nextId = c.nextId
  fresh : ∀ {c c' : Cursor}, cursors c c' →
    cursors { c with nextId := c.nextId + 1 } { c' with nextId := c'.nextId + 1 }
  resume : ∀ {c c' : Cursor}, cursors c c' → counts c.resume → cursors c.resume c'.resume

/-- Two runs come to the same result, at cursors that are alike, or are refused alike, unless the
first comes to its bound. -/
def Likeness.results {α : Type} (l : Likeness) :
    EStateM.Result Failure Cursor α → EStateM.Result Failure Cursor α → Prop
  | .ok a c, .ok a' c' => a' = a ∧ l.cursors c c'
  | .error (.refused e) c, .error (.refused e') c' => l.errors e e' ∧ l.cursors c c'
  | .error .exhausted _, _ => True
  | _, _ => False

namespace Likeness

variable {α : Type} {l : Likeness} {c : Cursor} {r : EStateM.Result Failure Cursor α}

theorem results_ok {a : α} (h : l.results (.ok a c) r) : ∃ c', r = .ok a c' ∧ l.cursors c c' := by
  cases r with
  | ok a' c' =>
      obtain ⟨rfl, hc⟩ := h
      exact ⟨c', rfl, hc⟩
  | error => exact h.elim

theorem results_refused {e : SyntaxError} (h : l.results (.error (.refused e) c) r) :
    ∃ e' c', r = .error (.refused e') c' ∧ l.errors e e' ∧ l.cursors c c' := by
  rcases r with ⟨a', c'⟩ | ⟨e' | _, c'⟩
  · exact h.elim
  · exact ⟨e', c', rfl, h⟩
  · exact h.elim

end Likeness

namespace Rule

variable {α β : Type}

/-- From cursors that are alike the second rule does what the first does, if that stops at a place
that counts and not at its bound. -/
structure Respects (l : Likeness) (x y : Rule α) : Prop where
  advances : x.Advances
  alike : ∀ {c c' : Cursor}, l.cursors c c' → l.counts (x.stop c) → l.results (x c) (y c')

namespace Respects

variable {l : Likeness}

theorem pure (a : α) : Respects l (Pure.pure a) (Pure.pure a) :=
  ⟨.pure a, fun h _ => ⟨rfl, h⟩⟩

/-- A rule that comes to its bound may be replaced by any other. -/
theorem exhausted (y : Rule α) : Respects l Rule.exhausted y :=
  ⟨.exhausted, fun _ _ => trivial⟩

theorem bind {x y : Rule α} {f g : α → Rule β} (hx : Respects l x y)
    (hf : ∀ a, Respects l (f a) (g a)) : Respects l (x >>= f) (y >>= g) := by
  refine ⟨hx.advances.bind fun a => (hf a).advances, ?_⟩
  intro c c' h hcounts
  have hfirst := hx.alike h
  change l.counts (stop (EStateM.bind x f) c) at hcounts
  change l.results (EStateM.bind x f c) (EStateM.bind y g c')
  unfold EStateM.bind
  unfold stop EStateM.bind at hcounts
  unfold stop at hfirst
  rcases hrun : x c with ⟨a, d⟩ | ⟨e | _, d⟩ <;> rw [hrun] at hcounts hfirst
  case ok =>
    have hmiddle := hfirst (l.counts_of_leads ((hf a).advances d) hcounts)
    obtain ⟨d', hrun', hd⟩ := Likeness.results_ok hmiddle
    rw [hrun']
    exact (hf a).alike hd hcounts
  case error.refused =>
    obtain ⟨e', d', hrun', he, hd⟩ := Likeness.results_refused (hfirst hcounts)
    rw [hrun']
    exact ⟨he, hd⟩
  case error.exhausted => trivial

theorem map {f : α → β} {x y : Rule α} (hx : Respects l x y) : Respects l (f <$> x) (f <$> y) := by
  rw [map_eq_pure_bind, map_eq_pure_bind]
  exact hx.bind fun _ => .pure _

theorem ite {p : Prop} [Decidable p] {x x' y y' : Rule α} (hx : Respects l x x')
    (hy : Respects l y y') : Respects l (if p then x else y) (if p then x' else y') := by
  split
  · exact hx
  · exact hy

/-- Whatever is next is next at both cursors. -/
theorem rest_cases {c c' : Cursor} (h : l.cursors c c') (hcounts : l.counts c) :
    (c.rest = [] ∧ c'.rest = []) ∨
      ∃ t rest rest', c.rest = t :: rest ∧ c'.rest = t :: rest' := by
  have hnext := l.next h hcounts
  cases hrest : c.rest with
  | nil =>
      rw [hrest] at hnext
      exact .inl ⟨rfl, List.head?_eq_none_iff.mp hnext⟩
  | cons t rest =>
      rw [hrest] at hnext
      obtain ⟨rest', hrest'⟩ := List.head?_eq_some_iff.mp hnext
      exact .inr ⟨t, rest, rest', rfl, hrest'⟩

theorem check (tag : Tag) : Respects l (Rule.check tag) (Rule.check tag) := by
  refine ⟨.check tag, fun {c c'} h hcounts => ?_⟩
  rcases rest_cases h hcounts with ⟨hrest, hrest'⟩ | ⟨t, rest, rest', hrest, hrest'⟩
  · rw [check_nil hrest, check_nil hrest']
    exact ⟨rfl, h⟩
  · rw [check_cons hrest, check_cons hrest']
    exact ⟨rfl, h⟩

theorem atEnd : Respects l Rule.atEnd Rule.atEnd := by
  refine ⟨.atEnd, fun {c c'} h hcounts => ?_⟩
  rcases rest_cases h hcounts with ⟨hrest, hrest'⟩ | ⟨t, rest, rest', hrest, hrest'⟩
  · rw [atEnd_nil hrest, atEnd_nil hrest']
    exact ⟨rfl, h⟩
  · rw [atEnd_cons hrest, atEnd_cons hrest']
    exact ⟨rfl, h⟩

theorem acceptIf (test : Token → Bool) : Respects l (Rule.acceptIf test) (Rule.acceptIf test) := by
  refine ⟨.acceptIf test, fun {c c'} h hcounts => ?_⟩
  have hcounts := l.counts_of_leads (Advances.acceptIf test _) hcounts
  rcases rest_cases h hcounts with ⟨hrest, hrest'⟩ | ⟨t, rest, rest', hrest, hrest'⟩
  · rw [acceptIf_nil hrest, acceptIf_nil hrest']
    exact ⟨rfl, h⟩
  · cases ht : test t with
    | true =>
        rw [acceptIf_true hrest ht, acceptIf_true hrest' ht]
        exact ⟨rfl, l.read h hrest hrest'⟩
    | false =>
        rw [acceptIf_false hrest ht, acceptIf_false hrest' ht]
        exact ⟨rfl, h⟩

theorem accept (tag : Tag) : Respects l (Rule.accept tag) (Rule.accept tag) :=
  acceptIf _

theorem ifAccept {tag : Tag} {x x' y y' : Rule α} (hx : Respects l x x')
    (hy : Respects l y y') : Respects l (do if (← Rule.accept tag).isSome then x else y)
      (do if (← Rule.accept tag).isSome then x' else y') :=
  (accept tag).bind fun _ => .ite hx hy

theorem fail (cause : SyntaxCause) :
    Respects l (Rule.fail cause : Rule α) (Rule.fail cause) :=
  ⟨.fail cause, fun h hcounts => ⟨l.fail cause h hcounts, h⟩⟩

theorem expect (tag : Tag) (cause : SyntaxCause) :
    Respects l (Rule.expect tag cause) (Rule.expect tag cause) :=
  (accept tag).bind fun
    | some _ => .pure _
    | none => .fail _

theorem unlessNext (tag : Tag) (default : α) {x y : Rule α} (h : Respects l x y) :
    Respects l (Rule.unlessNext tag default x) (Rule.unlessNext tag default y) :=
  (check tag).bind fun _ => .ite (.pure _) h

theorem note (token : Token) (cause : SyntaxCause) :
    Respects l (Rule.note token cause) (Rule.note token cause) :=
  ⟨.note token cause, fun h _ => ⟨rfl, l.note h (l.same _)⟩⟩

theorem freshId : Respects l Rule.freshId Rule.freshId :=
  ⟨.freshId, fun h _ => ⟨l.nextId h, l.fresh h⟩⟩

theorem noteBeyondLimit (count : Nat) (cause : SyntaxCause) :
    Respects l (noteBeyondLimit count cause) (noteBeyondLimit count cause) := by
  refine ⟨noteBeyondLimit_advances count cause, ?_⟩
  intro c c' h hcounts
  have hcounts' := l.counts_of_leads (noteBeyondLimit_advances count cause c) hcounts
  unfold ScopeScript.noteBeyondLimit
  split
  · exact ⟨rfl, l.note h (l.fail cause h hcounts')⟩
  · exact ⟨rfl, h⟩

theorem recover {x y : Rule α} (h : Respects l x y) : Respects l (recover x) (recover y) := by
  refine ⟨recover_advances h.advances, ?_⟩
  intro c c' hc hcounts
  have hrule := h.alike hc
  unfold ScopeScript.recover
  unfold stop ScopeScript.recover at hcounts
  unfold stop at hrule
  rcases hrun : x c with ⟨a, d⟩ | ⟨e | _, d⟩ <;> rw [hrun] at hcounts hrule
  case ok =>
    obtain ⟨d', hrun', hd⟩ := Likeness.results_ok (hrule hcounts)
    rw [hrun']
    exact ⟨rfl, hd⟩
  case error.refused =>
    -- Where the rule failed, more tokens were left than where reading resumes.
    have hresult := hrule (l.counts_of_leads (d.leads_note_resume e) hcounts)
    obtain ⟨e', d', hrun', he, hd⟩ := Likeness.results_refused hresult
    rw [hrun']
    exact ⟨rfl, l.resume (l.note hd he) hcounts⟩
  case error.exhausted => trivial

end Respects

end Rule

open Rule (Respects)

variable {l : Likeness}

theorem assignmentTo_respects (target : Expr) (equals : Token) (value : Expr) :
    Respects l (assignmentTo target equals value) (assignmentTo target equals value) := by
  unfold assignmentTo
  split
  · exact Respects.freshId.bind fun _ => .pure _
  · exact .pure _
  · exact (Respects.note _ _).bind fun _ => .pure _

theorem superRest_respects (keyword : Token) :
    Respects l (superRest keyword) (superRest keyword) :=
  (Respects.expect _ _).bind fun _ => (Respects.expect _ _).bind fun _ =>
    Respects.freshId.bind fun _ => .pure _

theorem atom_respects (token : Token) :
    Respects l ((atom? token).getD (Rule.fail .expression))
      ((atom? token).getD (Rule.fail .expression)) := by
  unfold atom?
  split
  case h_6 | h_7 => exact Respects.freshId.bind fun _ => .pure _
  case h_8 => exact .fail _
  all_goals exact .pure _

theorem argumentsRest_respects {fuel more : Nat}
    (h : ∀ count, Respects l (arguments fuel count) (arguments more count)) (callee : Expr) :
    Respects l (argumentsRest fuel callee) (argumentsRest more callee) :=
  (Respects.unlessNext _ _ (h 0)).bind fun _ => (Respects.expect _ _).bind fun _ => .pure _

/-- The rules for expressions do the same from cursors that are alike, under a given bound on their
nesting and a larger one. -/
structure ExpressionsRespect (l : Likeness) (fuel more : Nat) : Prop where
  expression : Respects l (expression fuel) (expression more)
  binary : ∀ levels, Respects l (binary fuel levels) (binary more levels)
  binaryRest : ∀ level tighter left,
    Respects l (binaryRest fuel level tighter left) (binaryRest more level tighter left)
  unary : Respects l (unary fuel) (unary more)
  call : Respects l (call fuel) (call more)
  callRest : ∀ callee, Respects l (callRest fuel callee) (callRest more callee)
  arguments : ∀ count, Respects l (arguments fuel count) (arguments more count)
  primary : Respects l (primary fuel) (primary more)

theorem expressionsRespect (l : Likeness) {fuel more : Nat} (hmore : fuel ≤ more) :
    ExpressionsRespect l fuel more := by
  induction fuel generalizing more with
  | zero => constructor <;> intros <;> exact .exhausted _
  | succ fuel ih =>
      obtain ⟨more, rfl⟩ : ∃ k, more = k + 1 := ⟨more - 1, by omega⟩
      have ih := ih (Nat.le_of_succ_le_succ hmore)
      constructor
      case expression =>
        exact (ih.binary _).bind fun _ => (Respects.accept _).bind fun
          | none => .pure _
          | some _ => ih.expression.bind fun _ => assignmentTo_respects _ _ _
      case binary =>
        intro levels
        cases levels with
        | nil => exact ih.unary
        | cons level tighter => exact (ih.binary tighter).bind fun _ => ih.binaryRest _ _ _
      case binaryRest =>
        intro level tighter left
        exact (Respects.acceptIf _).bind fun
          | none => .pure _
          | some _ => (ih.binary tighter).bind fun _ => ih.binaryRest _ _ _
      case unary =>
        exact (Respects.acceptIf _).bind fun
          | none => ih.call
          | some _ => ih.unary.bind fun _ => .pure _
      case call => exact ih.primary.bind fun _ => ih.callRest _
      case callRest =>
        intro callee
        rw [callRest_succ, callRest_succ]
        refine .ifAccept ?_ (.ifAccept ?_ (.pure _))
        · exact (argumentsRest_respects ih.arguments callee).bind ih.callRest
        · exact (Respects.expect _ _).bind fun _ => ih.callRest _
      case arguments =>
        intro count
        exact (Respects.noteBeyondLimit _ _).bind fun _ => ih.expression.bind fun _ =>
          .ifAccept ((ih.arguments _).bind fun _ => .pure _) (.pure _)
      case primary =>
        refine (Respects.acceptIf _).bind fun
          | some token => atom_respects token
          | none => (Respects.accept _).bind fun
            | some keyword => superRest_respects keyword
            | none => .ifAccept ?_ (.fail _)
        exact ih.expression.bind fun _ => (Respects.expect _ _).bind fun _ => .pure _

section Rules

variable {fuel more : Nat} (hmore : fuel ≤ more)
include hmore

theorem expression_respects : Respects l (expression fuel) (expression more) :=
  (expressionsRespect l hmore).expression

theorem optionalExpression_respects (tag : Tag) :
    Respects l (Rule.unlessNext tag none (some <$> expression fuel))
      (Rule.unlessNext tag none (some <$> expression more)) :=
  .unlessNext _ _ (expression_respects hmore).map

theorem parameters_respects (count : Nat) :
    Respects l (parameters fuel count) (parameters more count) := by
  induction fuel generalizing count more with
  | zero => exact .exhausted _
  | succ fuel ih =>
      obtain ⟨more, rfl⟩ : ∃ k, more = k + 1 := ⟨more - 1, by omega⟩
      exact (Respects.noteBeyondLimit _ _).bind fun _ => (Respects.expect _ _).bind fun _ =>
        .ifAccept ((ih (Nat.le_of_succ_le_succ hmore) _).bind fun _ => .pure _) (.pure _)

theorem initializer_respects : Respects l (initializer fuel) (initializer more) :=
  .ifAccept (expression_respects hmore).map (.pure _)

theorem varRest_respects : Respects l (varRest fuel) (varRest more) :=
  (Respects.expect _ _).bind fun _ => (initializer_respects hmore).bind fun _ =>
    (Respects.expect _ _).bind fun _ => .pure _

theorem letRest_respects : Respects l (letRest fuel) (letRest more) :=
  (Respects.expect _ _).bind fun _ => (Respects.expect _ _).bind fun _ =>
    (expression_respects hmore).bind fun _ => (Respects.expect _ _).bind fun _ => .pure _

theorem expressionStatement_respects :
    Respects l (expressionStatement fuel) (expressionStatement more) :=
  (expression_respects hmore).bind fun _ => (Respects.expect _ _).bind fun _ => .pure _

theorem printRest_respects : Respects l (printRest fuel) (printRest more) :=
  (expression_respects hmore).bind fun _ => (Respects.expect _ _).bind fun _ => .pure _

theorem returnRest_respects (keyword : Token) :
    Respects l (returnRest fuel keyword) (returnRest more keyword) :=
  (optionalExpression_respects hmore _).bind fun _ => (Respects.expect _ _).bind fun _ => .pure _

theorem condition_respects (opening : SyntaxCause) :
    Respects l (condition fuel opening) (condition more opening) :=
  (Respects.expect _ _).bind fun _ => (expression_respects hmore).bind fun _ =>
    (Respects.expect _ _).bind fun _ => .pure _

theorem forInitializer_respects : Respects l (forInitializer fuel) (forInitializer more) :=
  .ifAccept (.pure _) <| .ifAccept (varRest_respects hmore).map <|
    .ifAccept (letRest_respects hmore).map (expressionStatement_respects hmore).map

theorem forClauses_respects : Respects l (forClauses fuel) (forClauses more) :=
  (Respects.expect _ _).bind fun _ => (forInitializer_respects hmore).bind fun _ =>
    (optionalExpression_respects hmore _).bind fun _ => (Respects.expect _ _).bind fun _ =>
      (optionalExpression_respects hmore _).bind fun _ =>
        (Respects.expect _ _).bind fun _ => .pure _

end Rules

theorem breakRest_respects (keyword : Token) :
    Respects l (breakRest keyword) (breakRest keyword) :=
  (Respects.expect _ _).bind fun _ => .pure _

theorem superclassClause_respects : Respects l superclassClause superclassClause :=
  .ifAccept ((Respects.expect _ _).bind fun _ => Respects.freshId.bind fun _ => .pure _) (.pure _)

/-- The rules for statements do the same from cursors that are alike, under a given bound on their
nesting and a larger one. -/
structure StatementsRespect (l : Likeness) (fuel more : Nat) : Prop where
  declaration : Respects l (declaration fuel) (declaration more)
  classRest : Respects l (classRest fuel) (classRest more)
  methodList : Respects l (methodList fuel) (methodList more)
  function : ∀ callee, Respects l (function fuel callee) (function more callee)
  statement : Respects l (statement fuel) (statement more)
  blockRest : Respects l (blockRest fuel) (blockRest more)
  declarationList : Respects l (declarationList fuel) (declarationList more)

namespace StatementsRespect

variable {fuel more : Nat} (ih : StatementsRespect l fuel more) (hmore : fuel ≤ more)
include ih hmore

theorem forRest : Respects l (forRest fuel) (forRest more) :=
  (forClauses_respects hmore).bind fun _ => ih.statement.bind fun _ => .pure _

theorem ifRest : Respects l (ifRest fuel) (ifRest more) :=
  (condition_respects hmore _).bind fun _ => ih.statement.bind fun _ =>
    .ifAccept (ih.statement.bind fun _ => .pure _) (.pure _)

theorem whileRest : Respects l (whileRest fuel) (whileRest more) :=
  (condition_respects hmore _).bind fun _ => ih.statement.bind fun _ => .pure _

end StatementsRespect

theorem statementsRespect (l : Likeness) {fuel more : Nat} (hmore : fuel ≤ more) :
    StatementsRespect l fuel more := by
  induction fuel generalizing more with
  | zero => constructor <;> intros <;> exact .exhausted _
  | succ fuel ih =>
      obtain ⟨more, rfl⟩ : ∃ k, more = k + 1 := ⟨more - 1, by omega⟩
      have hle := Nat.le_of_succ_le_succ hmore
      have ih := ih hle
      constructor
      case declaration =>
        exact .ifAccept ih.classRest <| .ifAccept (ih.function _).map <|
          .ifAccept (varRest_respects hle) <| .ifAccept (letRest_respects hle) ih.statement
      case classRest =>
        exact (Respects.expect _ _).bind fun _ => superclassClause_respects.bind fun _ =>
          (Respects.expect _ _).bind fun _ => ih.methodList.bind fun _ =>
            (Respects.expect _ _).bind fun _ => .pure _
      case methodList =>
        exact (Respects.check _).bind fun _ => Respects.atEnd.bind fun _ => .ite (.pure _) <|
          (ih.function _).bind fun _ => ih.methodList.bind fun _ => .pure _
      case function =>
        intro callee
        exact (Respects.expect _ _).bind fun _ => (Respects.expect _ _).bind fun _ =>
          (Respects.unlessNext _ _ (parameters_respects hle 0)).bind fun _ =>
            (Respects.expect _ _).bind fun _ => (Respects.expect _ _).bind fun _ =>
              ih.blockRest.bind fun _ => .pure _
      case statement =>
        rw [statement_succ, statement_succ]
        exact .ifAccept (ih.forRest hle) <| .ifAccept (ih.ifRest hle) <|
          .ifAccept (ih.whileRest hle) <| (Respects.accept _).bind fun
            | some keyword => returnRest_respects hle keyword
            | none => (Respects.accept _).bind fun
              | some keyword => breakRest_respects keyword
              | none => .ifAccept ih.blockRest.map <|
                  .ifAccept (printRest_respects hle) (expressionStatement_respects hle)
      case blockRest =>
        exact ih.declarationList.bind fun _ => (Respects.expect _ _).bind fun _ => .pure _
      case declarationList =>
        exact (Respects.check _).bind fun _ => Respects.atEnd.bind fun _ => .ite (.pure _) <|
          ih.declaration.recover.bind fun _ => ih.declarationList.bind fun _ => .pure _

theorem topLevel_respects (l : Likeness) {fuel more : Nat} (hmore : fuel ≤ more) :
    Respects l (topLevel fuel) (topLevel more) := by
  induction fuel generalizing more with
  | zero => exact .exhausted _
  | succ fuel ih =>
      obtain ⟨more, rfl⟩ : ∃ k, more = k + 1 := ⟨more - 1, by omega⟩
      have hle := Nat.le_of_succ_le_succ hmore
      exact Respects.atEnd.bind fun _ => .ite (.pure _) <|
        (statementsRespect l hle).declaration.recover.bind fun _ => (ih hle).bind fun _ => .pure _

/-- Every rule of the grammar does the same from cursors that are alike, also under a larger
bound. -/
theorem OfGrammar.respects {α : Type} {rule : Nat → Rule α} (h : OfGrammar rule) (l : Likeness)
    {fuel more : Nat} (hmore : fuel ≤ more) : Respects l (rule fuel) (rule more) := by
  have hexpr := expressionsRespect l hmore
  have hstmt := statementsRespect l hmore
  cases h with
  | expression => exact hexpr.expression
  | binary levels => exact hexpr.binary levels
  | unary => exact hexpr.unary
  | call => exact hexpr.call
  | argumentsRest callee => exact argumentsRest_respects hexpr.arguments callee
  | primary => exact hexpr.primary
  | declaration => exact hstmt.declaration
  | classRest => exact hstmt.classRest
  | function callee => exact hstmt.function callee
  | varRest => exact varRest_respects hmore
  | letRest => exact letRest_respects hmore
  | statement => exact hstmt.statement
  | forRest => exact hstmt.forRest hmore
  | ifRest => exact hstmt.ifRest hmore
  | whileRest => exact hstmt.whileRest hmore
  | returnRest keyword => exact returnRest_respects hmore keyword
  | breakRest keyword => exact breakRest_respects keyword
  | printRest => exact printRest_respects hmore
  | expressionStatement => exact expressionStatement_respects hmore
  | blockRest => exact hstmt.blockRest

/-! ## The same cursor -/

/-- Every cursor is like itself and no other. -/
def identical : Likeness where
  cursors c c' := c' = c
  errors e e' := e' = e
  counts _ := True
  counts_of_leads _ _ := trivial
  next := by
    rintro c _ rfl -
    rfl
  read := by
    rintro c _ t rest rest' rfl - -
    rfl
  fail := by
    rintro c _ cause rfl -
    rfl
  same _ := rfl
  note := by
    rintro c _ e _ rfl rfl
    rfl
  nextId := by
    rintro c _ rfl
    rfl
  fresh := by
    rintro c _ rfl
    rfl
  resume := by
    rintro c _ rfl -
    rfl

/-- What a rule does without coming to its bound, it also does under a larger one. -/
theorem Rule.Respects.unbounded {α : Type} {x y : Rule α} (h : Respects identical x y) {c : Cursor}
    (hends : ∀ d, x c ≠ .error .exhausted d) : y c = x c := by
  have hlike : identical.cursors c c := rfl
  have hresult := h.alike hlike trivial
  rcases hrun : x c with ⟨a, d⟩ | ⟨e | _, d⟩ <;> rw [hrun] at hresult hends
  · obtain ⟨d', hrun', rfl⟩ := Likeness.results_ok hresult
    exact hrun'
  · obtain ⟨e', d', hrun', rfl, rfl⟩ := Likeness.results_refused hresult
    exact hrun'
  · exact (hends d rfl).elim

end ScopeScript
