import Mathlib.Data.List.Basic
import Mathlib.Order.Basic
import ScopeScript.Proofs.Parsing.Unread

/-!
# What every grammar rule does to the cursor

Whether a rule gives a result or fails, it has only read tokens from the front, noted errors behind
those that were there, and drawn node numbers upward. Nothing here says which tokens a rule accepts.
-/

namespace ScopeScript

/-- The second cursor is one that reading may reach from the first: it stands in the same tokens, no
further back and not behind the next end token. -/
structure Cursor.Leads (start stop : Cursor) : Prop where
  tokens : stop.tokens = start.tokens
  le : start.current ≤ stop.current
  within : stop.current ≤ start.current + start.rest.length
  errors : start.errors <+: stop.errors
  nextId : start.nextId ≤ stop.nextId

namespace Cursor.Leads

theorem refl (c : Cursor) : c.Leads c :=
  ⟨rfl, Nat.le_refl _, Nat.le_add_right _ _, List.prefix_rfl, Nat.le_refl _⟩

theorem past {c : Cursor} {count : Nat} {i : NodeId} (hcount : count ≤ c.rest.length)
    (hi : c.nextId ≤ i) : c.Leads (c.past count i) :=
  ⟨rfl, Nat.le_add_right _ _, Nat.add_le_add_left hcount _, List.prefix_rfl, hi⟩

section

variable {c d : Cursor} (h : c.Leads d)
include h

theorem rest_eq : d.rest = c.rest.drop (d.current - c.current) ∧ d.ending = c.ending := by
  obtain ⟨htokens, hle, hwithin, -, -⟩ := h
  have hcount : d.current - c.current ≤ c.rest.length := by omega
  have hpast := Cursor.past_eq hcount d.nextId
  have hcurrent : c.current + (d.current - c.current) = d.current := by omega
  simp only [Cursor.rest, Cursor.ending, Cursor.past, Cursor.standIn, hcurrent] at hpast ⊢
  rwa [htokens]

theorem suffix : d.rest <:+ c.rest := by
  rw [h.rest_eq.1]
  exact List.drop_suffix _ _

theorem ending : d.ending = c.ending :=
  h.rest_eq.2

/-- What is left ends at the same place. -/
theorem current_add : d.current + d.rest.length = c.current + c.rest.length := by
  have hle := h.le
  have hwithin := h.within
  rw [h.rest_eq.1, List.length_drop]
  omega

end

theorem trans {a b c : Cursor} (hab : a.Leads b) (hbc : b.Leads c) : a.Leads c :=
  ⟨hbc.tokens.trans hab.tokens, Nat.le_trans hab.le hbc.le, hab.current_add ▸ hbc.within,
    hab.errors.trans hbc.errors, Nat.le_trans hab.nextId hbc.nextId⟩

end Cursor.Leads

theorem Cursor.leads_next {c : Cursor} {t : Token} {ts : List Token} (h : c.rest = t :: ts) :
    c.Leads c.next := by
  have hcount : 1 ≤ c.rest.length := by simp [h]
  exact .past hcount (Nat.le_refl _)

theorem Cursor.leads_advance (c : Cursor) : c.Leads c.advance := by
  cases h : c.rest with
  | nil =>
      rw [advance_nil h]
      exact .refl c
  | cons t ts =>
      rw [advance_cons h]
      exact leads_next h

theorem Cursor.leads_resume (c : Cursor) : c.Leads c.resume := by
  obtain ⟨count, hcount, hresume, -⟩ := c.resume_eq
  rw [hresume]
  exact .past hcount (Nat.le_refl _)

theorem Cursor.leads_note (c : Cursor) (e : SyntaxError) : c.Leads (c.note e) :=
  { Leads.refl c with errors := List.prefix_append .. }

theorem Cursor.leads_note_resume (c : Cursor) (e : SyntaxError) : c.Leads (c.note e).resume :=
  (c.leads_note e).trans (c.note e).leads_resume

namespace Rule

variable {α β : Type}

section Primitives

variable {c c' : Cursor} {t : Token} {ts : List Token}

theorem bind_ok {x : Rule α} {f : α → Rule β} {b : β} :
    (x >>= f) c = .ok b c' ↔ ∃ a d, x c = .ok a d ∧ f a d = .ok b c' := by
  change EStateM.bind x f c = _ ↔ _
  unfold EStateM.bind
  cases hx : x c with
  | ok a d => simp
  | error e d => simp

theorem bind_of_ok {x : Rule α} {f : α → Rule β} {a : α} {d : Cursor} (h : x c = .ok a d) :
    (x >>= f) c = f a d := by
  change EStateM.bind x f c = _
  unfold EStateM.bind
  rw [h]

theorem pure_ok {a b : α} : (pure a : Rule α) c = .ok b c' ↔ a = b ∧ c = c' := by
  change EStateM.Result.ok a c = .ok b c' ↔ _
  simp

theorem map_ok {f : α → β} {x : Rule α} {b : β} :
    (f <$> x) c = .ok b c' ↔ ∃ a, x c = .ok a c' ∧ f a = b := by
  change EStateM.map f x c = _ ↔ _
  unfold EStateM.map
  cases hx : x c with
  | ok a d =>
      simp only [EStateM.Result.ok.injEq]
      constructor
      · rintro ⟨rfl, rfl⟩
        exact ⟨a, ⟨rfl, rfl⟩, rfl⟩
      · rintro ⟨a', ⟨rfl, rfl⟩, rfl⟩
        exact ⟨rfl, rfl⟩
  | error e d => simp

theorem acceptIf_nil (h : c.rest = []) (test : Token → Bool) : acceptIf test c = .ok none c := by
  change (if (!c.atEnd && test c.peek) = true then _ else _ : Rule (Option Token)) _ = _
  rw [if_neg (by simp [Cursor.atEnd_nil h])]
  rfl

theorem acceptIf_true {test : Token → Bool} (h : c.rest = t :: ts) (ht : test t = true) :
    acceptIf test c = .ok (some t) c.next := by
  change (if (!c.atEnd && test c.peek) = true then _ else _ : Rule (Option Token)) _ = _
  rw [if_pos (by simp [Cursor.atEnd_cons h, Cursor.peek_cons h, ht]), Cursor.peek_cons h,
    Cursor.advance_cons h]
  rfl

theorem acceptIf_false {test : Token → Bool} (h : c.rest = t :: ts) (ht : test t = false) :
    acceptIf test c = .ok none c := by
  change (if (!c.atEnd && test c.peek) = true then _ else _ : Rule (Option Token)) _ = _
  rw [if_neg (by simp [Cursor.peek_cons h, ht])]
  rfl

theorem check_nil (h : c.rest = []) (tag : Tag) : check tag c = .ok false c := by
  change EStateM.Result.ok (!c.atEnd && _) c = _
  rw [Cursor.atEnd_nil h]
  rfl

theorem check_cons (h : c.rest = t :: ts) (tag : Tag) :
    check tag c = .ok (decide (t.tag = tag)) c := by
  change EStateM.Result.ok (!c.atEnd && decide (c.peek.tag = tag)) c = _
  rw [Cursor.atEnd_cons h, Cursor.peek_cons h]
  rfl

theorem atEnd_nil (h : c.rest = []) : atEnd c = .ok true c := by
  change EStateM.Result.ok c.atEnd c = _
  rw [Cursor.atEnd_nil h]

theorem atEnd_cons (h : c.rest = t :: ts) : atEnd c = .ok false c := by
  change EStateM.Result.ok c.atEnd c = _
  rw [Cursor.atEnd_cons h]

theorem expect_of_tag {tag : Tag} (h : c.rest = t :: ts) (cause : SyntaxCause) (ht : t.tag = tag) :
    expect tag cause c = .ok t c.next := by
  have haccept : accept tag c = .ok (some t) c.next := acceptIf_true h (by simp [ht])
  exact bind_ok.mpr ⟨some t, _, haccept, rfl⟩

end Primitives

/-- The cursor that a rule leaves, with a result or without. -/
def stop (rule : Rule α) (c : Cursor) : Cursor :=
  match rule c with
  | .ok _ c' => c'
  | .error _ c' => c'

/-- Wherever it starts, a rule leaves a cursor that reading may reach. -/
def Advances (rule : Rule α) : Prop :=
  ∀ c : Cursor, c.Leads (rule.stop c)

namespace Advances

section

variable {rule : Rule α} {c d : Cursor}

theorem leads_ok (h : rule.Advances) {a : α} (hrun : rule c = .ok a d) : c.Leads d := by
  have hlead := h c
  rwa [stop, hrun] at hlead

theorem leads_error (h : rule.Advances) {failure : Failure} (hrun : rule c = .error failure d) :
    c.Leads d := by
  have hlead := h c
  rwa [stop, hrun] at hlead

theorem errors_le (h : rule.Advances) {a : α} (hrun : rule c = .ok a d) :
    c.errors.length ≤ d.errors.length :=
  (h.leads_ok hrun).errors.length_le

end

theorem pure (a : α) : Advances (pure a : Rule α) :=
  fun c => Cursor.Leads.refl c

theorem get : Advances (get : Rule Cursor) :=
  fun c => Cursor.Leads.refl c

theorem throw (failure : Failure) : Advances (throw failure : Rule α) :=
  fun c => Cursor.Leads.refl c

theorem bind {x : Rule α} {f : α → Rule β} (hx : x.Advances) (hf : ∀ a, (f a).Advances) :
    (x >>= f).Advances := by
  intro c
  have hfirst := hx c
  change c.Leads (stop (EStateM.bind x f) c)
  unfold stop EStateM.bind
  unfold stop at hfirst
  cases hrun : x c with
  | ok a d =>
      rw [hrun] at hfirst
      exact hfirst.trans (hf a d)
  | error e d =>
      rw [hrun] at hfirst
      exact hfirst

theorem map {f : α → β} {x : Rule α} (hx : x.Advances) : (f <$> x).Advances := by
  rw [map_eq_pure_bind]
  exact hx.bind fun _ => .pure _

theorem ite {p : Prop} [Decidable p] {x y : Rule α} (hx : x.Advances) (hy : y.Advances) :
    (if p then x else y).Advances := by
  split
  · exact hx
  · exact hy

theorem check (tag : Tag) : (Rule.check tag).Advances :=
  fun c => Cursor.Leads.refl c

theorem atEnd : Rule.atEnd.Advances :=
  fun c => Cursor.Leads.refl c

theorem acceptIf (test : Token → Bool) : (Rule.acceptIf test).Advances := by
  intro c
  change c.Leads (stop (if (!c.atEnd && test c.peek) = true then _ else _) c)
  split
  · exact c.leads_advance
  · exact .refl c

theorem accept (tag : Tag) : (Rule.accept tag).Advances :=
  acceptIf _

theorem unlessNext (tag : Tag) (default : α) {rule : Rule α} (h : rule.Advances) :
    (Rule.unlessNext tag default rule).Advances :=
  (check tag).bind fun _ => .ite (.pure _) h

theorem fail (cause : SyntaxCause) : (Rule.fail cause : Rule α).Advances :=
  get.bind fun _ => throw _

theorem exhausted : (Rule.exhausted : Rule α).Advances :=
  throw _

theorem expect (tag : Tag) (cause : SyntaxCause) : (Rule.expect tag cause).Advances :=
  (accept tag).bind fun
    | some _ => pure _
    | none => fail cause

theorem note (token : Token) (cause : SyntaxCause) : (Rule.note token cause).Advances :=
  fun c => c.leads_note ⟨token, cause⟩

theorem freshId : Rule.freshId.Advances :=
  fun c => { Cursor.Leads.refl c with nextId := Nat.le_succ _ }

end Advances

end Rule

open Rule (Advances)

theorem noteBeyondLimit_advances (count : Nat) (cause : SyntaxCause) :
    (noteBeyondLimit count cause).Advances :=
  .ite (Advances.get.bind fun _ => Advances.note _ _) (.pure _)

theorem assignmentTo_advances (target : Expr) (equals : Token) (value : Expr) :
    (assignmentTo target equals value).Advances := by
  unfold assignmentTo
  split
  · exact Advances.freshId.bind fun _ => .pure _
  · exact .pure _
  · exact (Advances.note _ _).bind fun _ => .pure _

theorem superRest_advances (keyword : Token) : (superRest keyword).Advances :=
  (Advances.expect _ _).bind fun _ => (Advances.expect _ _).bind fun _ =>
    Advances.freshId.bind fun _ => .pure _

theorem atom_advances (token : Token) :
    ((atom? token).getD (Rule.fail .expression)).Advances := by
  unfold atom?
  split <;> first | exact .pure _ | exact .fail _ | exact Advances.freshId.bind fun _ => .pure _

/-- What follows the opening parenthesis of a call. -/
def argumentsRest (fuel : Nat) (callee : Expr) : Rule Expr := do
  let arguments ← Rule.unlessNext (.punct .rightParen) [] (arguments fuel 0)
  let paren ← Rule.expect (.punct .rightParen) .argumentsClose
  return .call callee paren arguments

theorem callRest_succ (fuel : Nat) (callee : Expr) :
    callRest (fuel + 1) callee = (do
      if (← Rule.accept (.punct .leftParen)).isSome then
        argumentsRest fuel callee >>= callRest fuel
      else if (← Rule.accept (.punct .dot)).isSome then
        let name ← Rule.expect .identifier .propertyName
        callRest fuel (.get callee name)
      else return callee) := by
  simp only [callRest, argumentsRest, bind_assoc, pure_bind]

theorem argumentsRest_advances {fuel : Nat} (h : ∀ count, (arguments fuel count).Advances)
    (callee : Expr) : (argumentsRest fuel callee).Advances :=
  (Advances.unlessNext _ _ (h 0)).bind fun _ => (Advances.expect _ _).bind fun _ => .pure _

/-- The rules for expressions advance under a given bound on their nesting. -/
structure ExpressionsAdvance (fuel : Nat) : Prop where
  expression : (expression fuel).Advances
  binary : ∀ levels, (binary fuel levels).Advances
  binaryRest : ∀ level tighter left, (binaryRest fuel level tighter left).Advances
  unary : (unary fuel).Advances
  call : (call fuel).Advances
  callRest : ∀ callee, (callRest fuel callee).Advances
  arguments : ∀ count, (arguments fuel count).Advances
  primary : (primary fuel).Advances

theorem expressionsAdvance (fuel : Nat) : ExpressionsAdvance fuel := by
  induction fuel with
  | zero => constructor <;> intros <;> exact .exhausted
  | succ fuel ih =>
      constructor
      case expression =>
        exact (ih.binary _).bind fun _ => (Advances.accept _).bind fun
          | none => .pure _
          | some _ => ih.expression.bind fun _ => assignmentTo_advances _ _ _
      case binary =>
        intro levels
        cases levels with
        | nil => exact ih.unary
        | cons level tighter => exact (ih.binary tighter).bind fun _ => ih.binaryRest _ _ _
      case binaryRest =>
        intro level tighter left
        exact (Advances.acceptIf _).bind fun
          | none => .pure _
          | some _ => (ih.binary tighter).bind fun _ => ih.binaryRest _ _ _
      case unary =>
        exact (Advances.acceptIf _).bind fun
          | none => ih.call
          | some _ => ih.unary.bind fun _ => .pure _
      case call => exact ih.primary.bind fun _ => ih.callRest _
      case callRest =>
        intro callee
        rw [callRest_succ]
        refine (Advances.accept _).bind fun _ => .ite ?_ ?_
        · exact (argumentsRest_advances ih.arguments callee).bind ih.callRest
        · exact (Advances.accept _).bind fun _ =>
            .ite ((Advances.expect _ _).bind fun _ => ih.callRest _) (.pure _)
      case arguments =>
        intro count
        exact (noteBeyondLimit_advances _ _).bind fun _ => ih.expression.bind fun _ =>
          (Advances.accept _).bind fun _ =>
            .ite ((ih.arguments _).bind fun _ => .pure _) (.pure _)
      case primary =>
        refine (Advances.acceptIf _).bind fun
          | some token => atom_advances token
          | none => (Advances.accept _).bind fun
            | some keyword => superRest_advances keyword
            | none => (Advances.accept _).bind fun _ => .ite ?_ (.fail _)
        exact ih.expression.bind fun _ => (Advances.expect _ _).bind fun _ => .pure _

theorem expression_advances (fuel : Nat) : (expression fuel).Advances :=
  (expressionsAdvance fuel).expression

theorem optionalExpression_advances (fuel : Nat) (tag : Tag) :
    (Rule.unlessNext tag none (some <$> expression fuel)).Advances :=
  .unlessNext _ _ (expression_advances fuel).map

theorem parameters_advances (fuel count : Nat) : (parameters fuel count).Advances := by
  induction fuel generalizing count with
  | zero => exact .exhausted
  | succ fuel ih =>
      exact (noteBeyondLimit_advances _ _).bind fun _ => (Advances.expect _ _).bind fun _ =>
        (Advances.accept _).bind fun _ => .ite ((ih _).bind fun _ => .pure _) (.pure _)

theorem varRest_advances (fuel : Nat) : (varRest fuel).Advances := by
  have hinitializer : (initializer fuel).Advances :=
    (Advances.accept _).bind fun _ => .ite (expression_advances fuel).map (.pure _)
  exact (Advances.expect _ _).bind fun _ => hinitializer.bind fun _ =>
    (Advances.expect _ _).bind fun _ => .pure _

theorem letRest_advances (fuel : Nat) : (letRest fuel).Advances :=
  (Advances.expect _ _).bind fun _ => (Advances.expect _ _).bind fun _ =>
    (expression_advances fuel).bind fun _ => (Advances.expect _ _).bind fun _ => .pure _

theorem expressionStatement_advances (fuel : Nat) : (expressionStatement fuel).Advances :=
  (expression_advances fuel).bind fun _ => (Advances.expect _ _).bind fun _ => .pure _

theorem printRest_advances (fuel : Nat) : (printRest fuel).Advances :=
  (expression_advances fuel).bind fun _ => (Advances.expect _ _).bind fun _ => .pure _

theorem returnRest_advances (fuel : Nat) (keyword : Token) :
    (returnRest fuel keyword).Advances :=
  (optionalExpression_advances fuel _).bind fun _ => (Advances.expect _ _).bind fun _ => .pure _

theorem breakRest_advances (keyword : Token) : (breakRest keyword).Advances :=
  (Advances.expect _ _).bind fun _ => .pure _

theorem condition_advances (fuel : Nat) (opening : SyntaxCause) :
    (condition fuel opening).Advances :=
  (Advances.expect _ _).bind fun _ => (expression_advances fuel).bind fun _ =>
    (Advances.expect _ _).bind fun _ => .pure _

theorem forInitializer_advances (fuel : Nat) : (forInitializer fuel).Advances :=
  (Advances.accept _).bind fun _ => .ite (.pure _) <|
    (Advances.accept _).bind fun _ => .ite (varRest_advances fuel).map <|
      (Advances.accept _).bind fun _ => .ite (letRest_advances fuel).map
        (expressionStatement_advances fuel).map

theorem forClauses_advances (fuel : Nat) : (forClauses fuel).Advances :=
  (Advances.expect _ _).bind fun _ => (forInitializer_advances fuel).bind fun _ =>
    (optionalExpression_advances fuel _).bind fun _ => (Advances.expect _ _).bind fun _ =>
      (optionalExpression_advances fuel _).bind fun _ =>
        (Advances.expect _ _).bind fun _ => .pure _

theorem superclassClause_advances : superclassClause.Advances :=
  (Advances.accept _).bind fun _ =>
    .ite ((Advances.expect _ _).bind fun _ => Advances.freshId.bind fun _ => .pure _) (.pure _)

theorem recover_advances {α : Type} {rule : Rule α} (h : rule.Advances) :
    (recover rule).Advances := by
  intro c
  have hlead := h c
  unfold Rule.stop recover
  unfold Rule.stop at hlead
  rcases hrun : rule c with ⟨a, d⟩ | ⟨error | _, d⟩
  · rw [hrun] at hlead
    exact hlead
  · rw [hrun] at hlead
    exact hlead.trans (d.leads_note_resume error)
  · rw [hrun] at hlead
    exact hlead

/-- The rules for statements advance under a given bound on their nesting. -/
structure StatementsAdvance (fuel : Nat) : Prop where
  declaration : (declaration fuel).Advances
  classRest : (classRest fuel).Advances
  methodList : (methodList fuel).Advances
  function : ∀ callee, (function fuel callee).Advances
  statement : (statement fuel).Advances
  blockRest : (blockRest fuel).Advances
  declarationList : (declarationList fuel).Advances

theorem statementsAdvance (fuel : Nat) : StatementsAdvance fuel := by
  induction fuel with
  | zero => constructor <;> intros <;> exact .exhausted
  | succ fuel ih =>
      constructor
      case declaration =>
        exact (Advances.accept _).bind fun _ => .ite ih.classRest <|
          (Advances.accept _).bind fun _ => .ite (ih.function _).map <|
            (Advances.accept _).bind fun _ => .ite (varRest_advances fuel) <|
              (Advances.accept _).bind fun _ => .ite (letRest_advances fuel) ih.statement
      case classRest =>
        exact (Advances.expect _ _).bind fun _ => superclassClause_advances.bind fun _ =>
          (Advances.expect _ _).bind fun _ => ih.methodList.bind fun _ =>
            (Advances.expect _ _).bind fun _ => .pure _
      case methodList =>
        exact (Advances.check _).bind fun _ => Advances.atEnd.bind fun _ => .ite (.pure _) <|
          (ih.function _).bind fun _ => ih.methodList.bind fun _ => .pure _
      case function =>
        intro callee
        exact (Advances.expect _ _).bind fun _ => (Advances.expect _ _).bind fun _ =>
          (Advances.unlessNext _ _ (parameters_advances fuel 0)).bind fun _ =>
            (Advances.expect _ _).bind fun _ => (Advances.expect _ _).bind fun _ =>
              ih.blockRest.bind fun _ => .pure _
      case statement =>
        refine (Advances.accept _).bind fun _ => .ite ?forLoop <| (Advances.accept _).bind fun _ =>
          .ite ?ifElse <| (Advances.accept _).bind fun _ => .ite ?whileLoop <|
            (Advances.accept _).bind fun
              | some keyword => returnRest_advances fuel keyword
              | none => (Advances.accept _).bind fun
                | some keyword => breakRest_advances keyword
                | none => (Advances.accept _).bind fun _ => .ite ih.blockRest.map <|
                    (Advances.accept _).bind fun _ => .ite (printRest_advances fuel)
                      (expressionStatement_advances fuel)
        case forLoop =>
          exact (forClauses_advances fuel).bind fun _ => ih.statement.bind fun _ => .pure _
        case ifElse =>
          exact (condition_advances fuel _).bind fun _ => ih.statement.bind fun _ =>
            (Advances.accept _).bind fun _ => .ite (ih.statement.bind fun _ => .pure _) (.pure _)
        case whileLoop =>
          exact (condition_advances fuel _).bind fun _ => ih.statement.bind fun _ => .pure _
      case blockRest =>
        exact ih.declarationList.bind fun _ => (Advances.expect _ _).bind fun _ => .pure _
      case declarationList =>
        exact (Advances.check _).bind fun _ => Advances.atEnd.bind fun _ => .ite (.pure _) <|
          (recover_advances ih.declaration).bind fun _ => ih.declarationList.bind fun _ => .pure _

theorem topLevel_advances (fuel : Nat) : (topLevel fuel).Advances := by
  induction fuel with
  | zero => exact .exhausted
  | succ fuel ih =>
      exact Advances.atEnd.bind fun _ => .ite (.pure _) <|
        (recover_advances (statementsAdvance fuel).declaration).bind fun _ =>
          ih.bind fun _ => .pure _

end ScopeScript
