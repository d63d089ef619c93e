import ScopeScript.Proofs.Parsing.Progress
import ScopeScript.Proofs.Parsing.Rule
import ScopeScript.Proofs.Parsing.Soundness
import ScopeScript.Proofs.Scoping.Context

/-!
# What a `for` loop is read from

Declarations are only read where declarations may stand: the body of a loop is a statement, and the
first clause declares one variable or is an expression. This holds for whatever is read, also where
errors are noted on the way.
-/

namespace ScopeScript

namespace Rule

variable {α β : Type} {p : α → Prop} {q : β → Prop}

/-- Whatever a rule gives has a property. -/
def Yields (p : α → Prop) (rule : Rule α) : Prop :=
  ∀ (c c' : Cursor) (a : α), rule c = .ok a c' → p a

namespace Yields

theorem pure {a : α} (h : p a) : Yields p (pure a : Rule α) := by
  intro c c' b hrun
  obtain ⟨rfl, -⟩ := pure_ok.mp hrun
  exact h

theorem bind {x : Rule β} {f : β → Rule α} (h : ∀ b, Yields p (f b)) : Yields p (x >>= f) := by
  intro c c' a hrun
  obtain ⟨b, d, -, hrun⟩ := bind_ok.mp hrun
  exact h b d c' a hrun

theorem map {x : Rule β} {f : β → α} (hx : Yields q x) (h : ∀ b, q b → p (f b)) :
    Yields p (f <$> x) := by
  intro c c' a hrun
  obtain ⟨b, hfirst, rfl⟩ := map_ok.mp hrun
  exact h b (hx c c' b hfirst)

theorem ite {c : Prop} [Decidable c] {x y : Rule α} (hx : Yields p x) (hy : Yields p y) :
    Yields p (if c then x else y) := by
  split
  · exact hx
  · exact hy

theorem ifAccept {tag : Tag} {x y : Rule α} (hx : Yields p x) (hy : Yields p y) :
    Yields p (do if (← Rule.accept tag).isSome then x else y) :=
  .bind fun _ => .ite hx hy

theorem exhausted : Yields p (Rule.exhausted : Rule α) :=
  fun _ _ _ hrun => nomatch hrun

end Yields

end Rule

open Rule (Yields)

/-- A statement that may stand first in a `for` loop. -/
inductive Stmt.Initial : Stmt → Prop
  | varDecl (name : Token) (value : Option Expr) : Initial (.varDecl name value)
  | letDecl (name : Token) (value : Expr) : Initial (.letDecl name value)
  | expression (value : Expr) : Initial (.expression value)

theorem varRest_initial (fuel : Nat) : Yields Stmt.Initial (varRest fuel) :=
  .bind fun name => .bind fun value => .bind fun _ => .pure (.varDecl name value)

theorem letRest_initial (fuel : Nat) : Yields Stmt.Initial (letRest fuel) :=
  .bind fun name => .bind fun _ => .bind fun value => .bind fun _ => .pure (.letDecl name value)

theorem expressionStatement_initial (fuel : Nat) :
    Yields Stmt.Initial (expressionStatement fuel) :=
  .bind fun value => .bind fun _ => .pure (.expression value)

theorem forInitializer_initial (fuel : Nat) :
    Yields (fun initializer => ∀ s, initializer = some s → s.Initial) (forInitializer fuel) := by
  have hsome : ∀ s : Stmt, s.Initial → ∀ s', some s = some s' → s'.Initial := by
    rintro s hs _ ⟨⟩
    exact hs
  exact .ifAccept (.pure nofun) <| .ifAccept ((varRest_initial fuel).map hsome) <|
    .ifAccept ((letRest_initial fuel).map hsome) ((expressionStatement_initial fuel).map hsome)

/-- The first clause of a loop may stand there. -/
theorem forClauses_initial {fuel : Nat} {c c' : Cursor} {clauses : ForClauses}
    (h : forClauses fuel c = .ok clauses c') :
    ∀ s, clauses.initializer = some s → s.Initial := by
  obtain ⟨_, _, -, h⟩ := Rule.bind_ok.mp h
  obtain ⟨initializer, _, hinitializer, h⟩ := Rule.bind_ok.mp h
  have hinitial := forInitializer_initial fuel _ _ _ hinitializer
  have hclauses : Yields (fun clauses : ForClauses => ∀ s, clauses.initializer = some s → s.Initial)
      (do
        let condition ← Rule.unlessNext (.punct .semicolon) none (some <$> expression fuel)
        let _ ← Rule.expect (.punct .semicolon) .forConditionEnd
        let increment ← Rule.unlessNext (.punct .rightParen) none (some <$> expression fuel)
        let _ ← Rule.expect (.punct .rightParen) .forClose
        return ⟨initializer, condition, increment⟩) :=
    .bind fun _ => .bind fun _ => .bind fun _ => .bind fun _ => .pure hinitial
  exact hclauses _ _ _ h

/-- A statement declares nothing where it stands. -/
theorem statement_declares (fuel : Nat) : Yields (·.declared? = none) (statement fuel) := by
  cases fuel with
  | zero => exact .exhausted
  | succ fuel =>
      rw [statement_succ]
      exact .ifAccept (.bind fun _ => .bind fun _ => .pure rfl) <|
        .ifAccept (.bind fun _ => .bind fun _ =>
          .ifAccept (.bind fun _ => .pure rfl) (.pure rfl)) <|
        .ifAccept (.bind fun _ => .bind fun _ => .pure rfl) <| .bind fun
          | some keyword => .bind fun _ => .bind fun _ => .pure rfl
          | none => .bind fun
            | some keyword => .bind fun _ => .pure rfl
            | none => .ifAccept (.bind fun _ => .pure rfl) <|
                .ifAccept (.bind fun _ => .bind fun _ => .pure rfl)
                  (.bind fun _ => .bind fun _ => .pure rfl)

/-- What follows `for` is read as clauses and a body, and made into a loop. -/
theorem forRest_ok {fuel : Nat} {c c' : Cursor} {stmt : Stmt} (h : forRest fuel c = .ok stmt c') :
    ∃ clauses body d, forClauses fuel c = .ok clauses d ∧ statement fuel d = .ok body c'
      ∧ stmt = clauses.loop body := by
  obtain ⟨clauses, d, hclauses, h⟩ := Rule.bind_ok.mp h
  obtain ⟨body, d', hbody, h⟩ := Rule.bind_ok.mp h
  obtain ⟨rfl, rfl⟩ := Rule.pure_ok.mp h
  exact ⟨clauses, body, d, hclauses, hbody, rfl⟩

/-- The statement that begins with `for` is a loop. -/
theorem statement_for {fuel : Nat} {c d c' : Cursor} {keyword : Token} {stmt : Stmt}
    (hfor : Rule.accept (.keyword .forKw) c = .ok (some keyword) d)
    (h : statement (fuel + 1) c = .ok stmt c') :
    ∃ clauses body e, forClauses fuel d = .ok clauses e ∧ statement fuel e = .ok body c'
      ∧ stmt = clauses.loop body := by
  rw [statement_succ] at h
  obtain ⟨accepted, d', haccepted, h⟩ := Rule.bind_ok.mp h
  obtain ⟨rfl, rfl⟩ : some keyword = accepted ∧ d = d' := by
    rw [hfor] at haccepted
    cases haccepted
    exact ⟨rfl, rfl⟩
  exact forRest_ok h

/-! ## The first declaration of a program -/

/-- A declaration that begins with `for` is a statement. -/
theorem declaration_for {fuel : Nat} {c : Cursor} {keyword : Token} {rest : List Token}
    (hrest : c.rest = keyword :: rest) (hkeyword : keyword.tag = .keyword .forKw) :
    declaration (fuel + 1) c = statement fuel c := by
  have hother : ∀ {α : Type} {tag : Tag} {x y : Rule α}, tag ≠ .keyword .forKw →
      (do if (← Rule.accept tag).isSome then x else y) c = y c := by
    intro α tag x y htag
    have hnone : Rule.accept tag c = .ok none c :=
      Rule.acceptIf_false hrest (by simp [hkeyword, htag.symm])
    change EStateM.bind (Rule.accept tag) _ _ = _
    unfold EStateM.bind
    rw [hnone]
    rfl
  unfold declaration
  rw [hother (by decide), hother (by decide), hother (by decide), hother (by decide)]

/-- Where a program is read without an error, so is its first declaration. -/
theorem topLevel_first {fuel : Nat} {c c' : Cursor} {program : Program}
    (h : topLevel (fuel + 1) c = .ok program c') (hquiet : c'.errors.length ≤ c.errors.length)
    (hmore : c.rest ≠ []) :
    ∃ first rest d, declaration fuel c = .ok first d ∧ program = first :: rest := by
  obtain ⟨ends, d, hends, h⟩ := Rule.bind_ok.mp h
  cases hends
  split at h
  next hend => exact (hmore (Cursor.atEnd_iff.mp hend)).elim
  next =>
    obtain ⟨result, d, hrecover, h⟩ := Rule.bind_ok.mp h
    obtain ⟨others, e, hothers, h⟩ := Rule.bind_ok.mp h
    obtain ⟨rfl, rfl⟩ := Rule.pure_ok.mp h
    have hadv := (statementsAdvance fuel).declaration
    have he := (topLevel_advances _).errors_le hothers
    obtain ⟨first, rfl, hfirst⟩ := recover_ok hadv hrecover (by omega)
    exact ⟨first, others, d, hfirst, rfl⟩

end ScopeScript
