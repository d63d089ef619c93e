import ScopeScript.Proofs.Scoping.Resolution

/-!
# Accepted programs

The walk over statements keeps its scopes in step with the contexts behind them. From this, a
program that is accepted is well scoped at the top level, with the distances that are handed on to
the machine.
-/

namespace ScopeScript

theorem Stmt.tail_after (context : Context) (s : Stmt) : (s.after context).tail = context.tail := by
  unfold Stmt.after
  split
  next => exact Context.tail_declare _
  next => rfl

theorem Stmt.after_of_declared {s : Stmt} (h : s.declared? = none) (context : Context) :
    s.after context = context := by
  rw [Stmt.after, h]

theorem Stmt.Named.plain {s : Stmt} (h : s.Named) {name : Token} (hname : s.declared? = some name) :
    name.Plain := by
  cases s with
  | varDecl | letDecl | classDecl | function =>
      cases hname
      exact h.1
  | expression | print | block | ifElse | whileLoop | returnStmt | breakStmt => cases hname

namespace Context

variable {context : Context} {s : Stmt}

theorem Open.after (h : context.Open) (s : Stmt) : (s.after context).Open := by
  unfold Stmt.after
  split
  next => exact h.declare _
  next => exact h

theorem Within.after {ids : List NodeId} (h : context.Within ids) (s : Stmt) :
    (s.after context).Within ids := by
  unfold Stmt.after
  split
  next => exact h.declare _
  next => exact h

theorem Agrees.after {cls : ClassContext} (h : context.Agrees cls) (hnamed : s.Named) :
    (s.after context).Agrees cls := by
  unfold Stmt.after
  split
  next hname => exact h.declare (hnamed.plain hname)
  next => exact h

end Context

theorem Mirrors.tail {scopes : List StaticScope} {context : Context} (h : Mirrors scopes context) :
    Mirrors scopes.tail context.tail := by
  cases h with
  | nil => exact .nil
  | cons _ hrest => exact hrest

/-- The order of names and repeated ones make no difference. -/
theorem Mirrors.congr {scopes : List StaticScope} {context : Context} {layer layer' : Layer}
    (h : Mirrors scopes (layer :: context))
    (hbound : ∀ name, name ∈ layer.bound ↔ name ∈ layer'.bound) :
    Mirrors scopes (layer' :: context) := by
  cases h with
  | cons hshows hrest => exact .cons (fun name => (hshows name).trans (hbound name)) hrest

/-- An empty scope of the walk with one name defined. -/
theorem shows_define {name : String} {layer : Layer} (hlayer : layer.bound = [name]) :
    StaticScope.Shows (NameMap.insert .empty name .defined) layer := by
  intro other
  rw [hlayer, NameMap.find?_insert]
  split <;> simp_all

namespace Resolver

variable {r r' : Resolver} {context : Context} {a b : List NodeId}

/-! ## Declarations -/

theorem declare_fresh {name : Token} (hmirrors : Mirrors r.scopes context) (hopen : context.Open)
    (herrors : (r.declare name).errors = []) : context.Fresh name.lexeme := by
  unfold declare at herrors
  revert hmirrors herrors
  cases r.scopes with
  | nil =>
      rintro ⟨⟩ -
      trivial
  | cons scope outer =>
      rintro (_ | ⟨hshows, hrest⟩) herrors
      rename_i layer rest
      cases layer with
      | receiver | inherited => exact hopen.elim
      | names list =>
          simp only at herrors
          split at herrors
          next => simp [error] at herrors
          next habsent =>
            intro hmem
            have hfound := (hshows name.lexeme).mpr hmem
            simp [NameMap.contains, hfound] at habsent

/-- A name that is only declared does not show. -/
theorem declare_mirrors (hmirrors : Mirrors r.scopes context) (name : Token) :
    Mirrors (r.declare name).scopes context := by
  unfold declare
  split
  next => exact hmirrors
  next scope outer hscopes =>
    split
    next => exact hmirrors
    next habsent =>
      rw [hscopes] at hmirrors
      rcases hmirrors with _ | ⟨hshows, hrest⟩
      refine .cons ?_ hrest
      intro other
      rw [NameMap.find?_insert, ← hshows other]
      split
      next heq =>
        have hnone : scope.find? name.lexeme = none := by simpa [NameMap.contains] using habsent
        simp [heq, hnone]
      next => rfl

theorem define_mirrors (hmirrors : Mirrors r.scopes context) (hopen : context.Open)
    (name : String) : Mirrors (r.define name).scopes (context.declare name) := by
  unfold define
  split
  next hscopes =>
    rw [hscopes] at hmirrors ⊢
    cases hmirrors
    exact .nil
  next scope outer hscopes =>
    rw [hscopes] at hmirrors
    rcases hmirrors with _ | ⟨hshows, hrest⟩
    rename_i layer rest
    cases layer with
    | receiver | inherited => exact hopen.elim
    | names list =>
        refine .cons ?_ hrest
        intro other
        have hother := hshows other
        simp only [Layer.bound] at hother
        rw [NameMap.find?_insert, Layer.bound, List.mem_cons, ← hother]
        split <;> simp_all

theorem introduce_mirrors (hmirrors : Mirrors r.scopes context) (hopen : context.Open)
    (name : Token) : Mirrors (r.introduce name).scopes (context.declare name.lexeme) :=
  define_mirrors (declare_mirrors hmirrors name) hopen name.lexeme

theorem introduce_fresh {name : Token} (hmirrors : Mirrors r.scopes context)
    (hopen : context.Open) (herrors : (r.introduce name).errors = []) :
    context.Fresh name.lexeme :=
  declare_fresh hmirrors hopen ((define_walk _ _ []).errors herrors)

/-- Parameters are declared in turn, so none comes twice. -/
theorem introduceAll_mirrors {list : List String} (params : List Token)
    (hmirrors : Mirrors r.scopes (.names list :: context))
    (herrors : (params.foldl introduce r).errors = []) :
    (params.map Token.lexeme).Nodup ∧ (∀ name ∈ params.map Token.lexeme, name ∉ list)
      ∧ Mirrors (params.foldl introduce r).scopes
        (.names (params.map Token.lexeme ++ list) :: context) := by
  induction params generalizing r list with
  | nil => exact ⟨List.nodup_nil, by simp, hmirrors⟩
  | cons param rest ih =>
      rw [List.foldl_cons] at herrors ⊢
      have hintroduced := (introduceAll_walk rest (r.introduce param) []).errors herrors
      have hfresh := introduce_fresh hmirrors trivial hintroduced
      obtain ⟨hnodup, hnew, hresult⟩ := ih (introduce_mirrors hmirrors trivial param) herrors
      refine ⟨?_, ?_, ?_⟩
      · rw [List.map_cons, List.nodup_cons]
        exact ⟨fun hmem => hnew _ hmem (by simp), hnodup⟩
      · intro name hname
        rcases List.mem_cons.mp hname with rfl | hname
        · exact hfresh
        · exact fun hmem => hnew name hname (by simp [hmem])
      · apply hresult.congr
        intro name
        simp only [Layer.bound, List.map_cons, List.cons_append, List.mem_append, List.mem_cons]
        exact or_left_comm

/-! ## Functions and classes -/

theorem enterFunction_mirrors {params : List Token} {kind : FunctionContext}
    (hmirrors : Mirrors r.scopes context)
    (herrors : (r.enterFunction kind params).errors = []) :
    (params.map Token.lexeme).Nodup
      ∧ Mirrors (r.enterFunction kind params).scopes
        (.names (params.map Token.lexeme) :: context) := by
  have hpush : Mirrors { r with enclosingFunction := kind, loopDepth := 0 }.push.scopes
      (.names [] :: context) :=
    .cons (fun name => by simp [Layer.bound]) hmirrors
  obtain ⟨hnodup, -, hresult⟩ := introduceAll_mirrors params hpush herrors
  rw [List.append_nil] at hresult
  exact ⟨hnodup, hresult⟩

theorem push_define_mirrors {name : String} {layer : Layer} (hlayer : layer.bound = [name])
    (hmirrors : Mirrors r.scopes context) :
    Mirrors (r.push.define name).scopes (layer :: context) :=
  .cons (shows_define hlayer) hmirrors

theorem leaveClass_mirrors {superclass : Option Expr} {outer : ClassContext}
    (hmirrors : Mirrors r.scopes.tail (context.ofClass superclass.isSome)) :
    Mirrors (r.leaveClass superclass outer).scopes context := by
  cases superclass with
  | none => exact hmirrors
  | some => exact hmirrors.tail

theorem checkInheritance_ne {name superName : Token} {id : NodeId}
    (herrors : (r.checkInheritance name (.variable id superName)).errors = []) :
    superName.lexeme ≠ name.lexeme := by
  intro heq
  simp [checkInheritance, heq, error] at herrors

/-- The walk comes from the front of a class to its methods. The name of the class is defined by
then, but the superclass is another name, so it makes no difference there. -/
theorem enterClass_at {name : Token} {superclass : Option Expr} (hopen : context.Open)
    (hsuperclass : superclass = none ∨ ∃ id superName, superclass = some (.variable id superName)
      ∧ superName.Plain)
    (hat : r.At context (Expr.idsOption superclass ++ b))
    (herrors : (r.enterClass name superclass).errors = []) :
    context.Fresh name.lexeme
      ∧ Expr.ScopedOption ((r.enterClass name superclass).Recorded (Expr.idsOption superclass))
        context superclass
      ∧ ∀ method, (r.enterClass name superclass).At
        (.receiver method :: (context.declare name.lexeme).ofClass superclass.isSome) b := by
  have hwalk := enterClass_walk r name superclass
  have hintroduced : ({ r with enclosingClass := .plain }.introduce name).errors = [] →
      context.Fresh name.lexeme :=
    introduce_fresh (r := { r with enclosingClass := .plain }) hat.mirrors hopen
  have hmirrors : Mirrors ({ r with enclosingClass := .plain }.introduce name).scopes
      (context.declare name.lexeme) :=
    introduce_mirrors (r := { r with enclosingClass := .plain }) hat.mirrors hopen name
  rcases hsuperclass with rfl | ⟨id, superName, rfl, hplain⟩
  · -- Without a superclass, only the scope of the receiver is opened.
    refine ⟨hintroduced ((push_define_walk _ "this" []).errors herrors), trivial, ?_⟩
    intro method
    apply hat.right.move hwalk hat.disjoint (push_define_mirrors rfl hmirrors)
    have hclass : (r.enterClass name none).enclosingClass = .plain :=
      (define_enclosingClass _ _).trans (introduce_enclosingClass _ name)
    rw [hclass]
    exact ⟨method, 0, rfl, rfl⟩
  · -- The walk passes the name, the superclass and then two scopes, one inside the other.
    let r₁ := ({ r with enclosingClass := .plain } : Resolver).introduce name
    let r₂ : Resolver :=
      { r₁.checkInheritance name (.variable id superName) with enclosingClass := .derived }
    let r₃ := r₂.read id superName
    have hlast : Walk r₃ (r.enterClass name (some (.variable id superName))) [] :=
      .after (push_define_walk r₃ "super" []) (push_define_walk _ "this" [])
    have herrors₂ : r₂.errors = [] := (read_walk r₂ id superName).errors (hlast.errors herrors)
    have hcheck := checkInheritance_walk r₁ name (.variable id superName) []
    have hmirrors₂ : Mirrors r₂.scopes (context.declare name.lexeme) := by
      have hsame := checkInheritance_same r₁ name (.variable id superName)
      exact hsame.scopes ▸ hmirrors
    have hfresh : r₂.locals[id]? = none := by
      have hintroduce := introduce_walk { r with enclosingClass := .plain } name []
      calc r₂.locals[id]? = r₁.locals[id]? := hcheck.locals id (by simp)
        _ = r.locals[id]? := hintroduce.locals id (by simp)
        _ = none := hat.fresh id (by simp [Expr.idsOption, Expr.referencesOption, Expr.references])
    have hmirrors₃ : Mirrors r₃.scopes (context.declare name.lexeme) := by
      rw [(read_same r₂ id superName).scopes]
      exact hmirrors₂
    refine ⟨hintroduced (hcheck.errors herrors₂), ⟨hplain, ?_⟩, ?_⟩
    · have hrecorded := read_recorded id superName hmirrors₂ hfresh
      rw [Context.hops?_declare (checkInheritance_ne herrors₂)] at hrecorded
      exact hrecorded.later hlast (by simp)
    · intro method
      refine hat.right.move hwalk hat.disjoint
        (push_define_mirrors rfl (push_define_mirrors rfl hmirrors₃)) ?_
      have hclass : (r.enterClass name (some (.variable id superName))).enclosingClass = .derived :=
        (define_enclosingClass _ _).trans
          ((define_enclosingClass _ _).trans (read_same r₂ id superName).enclosingClass)
      rw [hclass]
      exact ⟨method, 0, rfl, rfl, rfl⟩

/-! ## Statements -/

theorem expression?_scoped {e : Option Expr} (hnamed : Expr.NamedOption e)
    (hat : r.At context (Expr.idsOption e)) (hwithin : context.Within (Expr.idsOption e))
    (herrors : (r.expression? e).errors = []) :
    Expr.ScopedOption ((r.expression? e).Recorded (Expr.idsOption e)) context e := by
  cases e with
  | none => trivial
  | some e => exact expression_scoped e r hnamed hat hwithin herrors

/-- A variable is declared in front of its initializer and defined behind it. -/
theorem initialized_scoped {name : Token} {e : Option Expr} (hnamed : Expr.NamedOption e)
    (hopen : context.Open) (hat : r.At context (Expr.idsOption e))
    (hwithin : context.Within (Expr.idsOption e))
    (herrors : (((r.declare name).expression? e).define name.lexeme).errors = []) :
    context.Fresh name.lexeme
      ∧ Expr.ScopedOption
        ((((r.declare name).expression? e).define name.lexeme).Recorded (Expr.idsOption e))
        context e
      ∧ Mirrors (((r.declare name).expression? e).define name.lexeme).scopes
        (context.declare name.lexeme) := by
  have hdefine := define_walk ((r.declare name).expression? e) name.lexeme []
  have hwalk := expression?_walk (r.declare name) e
  have hsame := expression?_same (r.declare name) e
  have hmirrors := declare_mirrors hat.mirrors name
  have hat' : (r.declare name).At context (Expr.idsOption e) :=
    hat.move (declare_walk r name []) (by simp) hmirrors
      ((declare_enclosingClass r name).symm ▸ hat.agrees)
  have hscoped := expression?_scoped hnamed hat' hwithin (hdefine.errors herrors)
  refine ⟨?_, ?_, ?_⟩
  · exact declare_fresh hat.mirrors hopen (hwalk.errors (hdefine.errors herrors))
  · exact Expr.scopedOption_mono (fun _ _ h => h.later hdefine (by simp)) hscoped
  · exact define_mirrors (hsame.scopes.symm ▸ hmirrors) hopen name.lexeme

/-- Where the walk over a statement finds no error, the statement is well scoped, and the scopes
are left as the statement leaves the context. -/
def ScopesStmt (s : Stmt) : Prop :=
  ∀ (r : Resolver) (context : Context), s.Named → context.Open → r.At context s.ids →
    context.Within s.ownIds → (r.statement s).errors = [] →
    s.Scoped ((r.statement s).Recorded s.ids) context
      ∧ Mirrors (r.statement s).scopes (s.after context)

/-- A condition, and a statement behind it that declares nothing. -/
theorem ScopesStmt.guarded {condition : Expr} {body : Stmt} (ih : ScopesStmt body) (depth : Nat)
    (hcondition : condition.Named) (hdeclared : body.declared? = none) (hbody : body.Named)
    (hopen : context.Open) (hat : r.At context (condition.ids ++ body.ids))
    (hwithin : context.Within (condition.ids ++ body.ownIds))
    (herrors : ({ r.expression condition with loopDepth := depth }.statement body).errors = []) :
    condition.Scoped (({ r.expression condition with loopDepth := depth }.statement body).Recorded
        (condition.ids ++ body.ids)) context
      ∧ body.Scoped (({ r.expression condition with loopDepth := depth }.statement body).Recorded
        (condition.ids ++ body.ids)) context
      ∧ Mirrors ({ r.expression condition with loopDepth := depth }.statement body).scopes
        context := by
  have hwalk := statement_walk body { r.expression condition with loopDepth := depth }
  have hat' := hat.right.moveSame (expression_walk condition r) hat.disjoint
    (expression_same condition r)
  have hscoped := expression_scoped condition r hcondition hat.left
    (hwithin.mono (List.subset_append_left _ _)) (hwalk.errors herrors)
  obtain ⟨hscoped', hmirrors⟩ := ih { r.expression condition with loopDepth := depth } context
    hbody hopen ⟨hat'.mirrors, hat'.agrees, hat'.nodup, hat'.fresh⟩
    (hwithin.mono (List.subset_append_right _ _)) herrors
  rw [Stmt.after_of_declared hdeclared] at hmirrors
  refine ⟨?_, ?_, hmirrors⟩
  · refine condition.scoped_mono ?_ hscoped
    intro id distance h
    exact Recorded.later_append (r := { r.expression condition with loopDepth := depth }) hwalk
      hat.disjoint id distance h
  · exact body.scoped_mono (Recorded.sub (List.subset_append_right _ _)) context hscoped'

/-- Two branches behind a condition. Neither of them declares anything, so the second one stands in
the same context as the first. -/
theorem ScopesStmt.branches {condition : Expr} {thenBranch elseBranch : Stmt}
    (ihThen : ScopesStmt thenBranch) (ihElse : ScopesStmt elseBranch) :
    ScopesStmt (.ifElse condition thenBranch (some elseBranch)) := by
  intro r context hnamed hopen hat hwithin herrors
  rw [Stmt.ids_ifElse, ← List.append_assoc] at hat ⊢
  rw [Stmt.ownIds, ← List.append_assoc] at hwithin
  obtain ⟨hcondition, hthenDeclared, hthen, helseDeclared, helse⟩ := hnamed
  have hwalk := (expression_walk condition r).trans (statement_walk thenBranch _)
  have helseWalk := statement_walk elseBranch ((r.expression condition).statement thenBranch)
  obtain ⟨hscoped, hscoped', hmirrors⟩ := ihThen.guarded (r.expression condition).loopDepth
    hcondition hthenDeclared hthen hopen hat.left (hwithin.mono (List.subset_append_left _ _))
    (helseWalk.errors herrors)
  have hclass := (statement_enclosingClass thenBranch (r.expression condition)).trans
    (expression_same condition r).enclosingClass
  have hat' := hat.right.move hwalk hat.disjoint hmirrors (hclass.symm ▸ hat.agrees)
  obtain ⟨hscoped'', hmirrors'⟩ := ihElse _ context helse hopen hat'
    (hwithin.mono (List.subset_append_right _ _)) herrors
  rw [Stmt.after_of_declared helseDeclared] at hmirrors'
  -- What was recorded for the condition and the first branch is kept by the walk over the second.
  have hlater := Recorded.later_append helseWalk hat.disjoint
  exact ⟨⟨condition.scoped_mono hlater hscoped, hthenDeclared,
    thenBranch.scoped_mono hlater context hscoped', helseDeclared,
    elseBranch.scoped_mono (Recorded.sub (List.subset_append_right _ _)) context hscoped''⟩,
    hmirrors'⟩

/-- Where the walk over the methods of a class finds no error, they are well scoped below the scope
of the receiver, and the scopes outside of it are left as the context has them. -/
def ScopesMethods (list : List (FunctionDecl Stmt)) : Prop :=
  ∀ (r : Resolver) (context : Context), FunctionDecl.NamedAll list →
    (∀ method, r.At (.receiver method :: context) (FunctionDecl.idsAll list)) →
    (r.methods list).errors = [] →
    FunctionDecl.ScopedAll ((r.methods list).Recorded (FunctionDecl.idsAll list)) context list
      ∧ Mirrors (r.methods list).scopes.tail context

/-- A class is its front, its methods and the way back out of its scopes. -/
theorem ScopesMethods.classDecl {name : Token} {superclass : Option Expr}
    {methods : List (FunctionDecl Stmt)} (ih : ScopesMethods methods) :
    ScopesStmt (.classDecl name superclass methods) := by
  intro r context hnamed hopen hat _ herrors
  rw [Stmt.ids_classDecl] at hat ⊢
  have hleave := leaveClass_walk ((r.enterClass name superclass).methods methods) superclass
    r.enclosingClass []
  have hmethodsWalk := methods_walk methods (r.enterClass name superclass)
  obtain ⟨hfresh, hsuperclass, hinside⟩ := enterClass_at hopen hnamed.2.1 hat
    (hmethodsWalk.errors (hleave.errors herrors))
  obtain ⟨hmethods, hmirrors⟩ := ih (r.enterClass name superclass) _ hnamed.2.2 hinside
    (hleave.errors herrors)
  refine ⟨⟨hnamed.1, hfresh, ?_, ?_⟩, leaveClass_mirrors hmirrors⟩
  · refine Expr.scopedOption_mono ?_ hsuperclass
    intro id distance h
    exact h.later_append (hmethodsWalk.andThen hleave) hat.disjoint
  · refine FunctionDecl.scopedAll_mono ?_ _ methods hmethods
    intro id distance h
    exact .sub (List.subset_append_right _ _) _ _ (h.later hleave (by simp))

mutual
theorem statement_scoped : ∀ s : Stmt, ScopesStmt s
  | .expression value, r, _, hnamed, _, hat, hwithin, herrors => by
      refine ⟨expression_scoped value r hnamed hat hwithin herrors, ?_⟩
      rw [statement, (expression_same value r).scopes]
      exact hat.mirrors
  | .print value, r, _, hnamed, _, hat, hwithin, herrors => by
      refine ⟨expression_scoped value r hnamed hat hwithin herrors, ?_⟩
      rw [statement, (expression_same value r).scopes]
      exact hat.mirrors
  | .varDecl name initializer, _, _, hnamed, hopen, hat, hwithin, herrors => by
      obtain ⟨hfresh, hscoped, hmirrors⟩ :=
        initialized_scoped hnamed.2 hopen hat hwithin herrors
      exact ⟨⟨hnamed.1, hfresh, hscoped⟩, hmirrors⟩
  | .letDecl name initializer, r, _, hnamed, hopen, hat, hwithin, herrors => by
      obtain ⟨hfresh, hscoped, hmirrors⟩ :=
        initialized_scoped (e := some initializer) hnamed.2 hopen hat hwithin herrors
      exact ⟨⟨hnamed.1, hfresh, hscoped⟩, hmirrors⟩
  | .block body, r, context, hnamed, _, hat, hwithin, herrors => by
      have hpush : r.push.At (.names [] :: context) (Stmt.idsAll body) := by
        have hnone : ∀ name ∈ ([] : List Token), name.Plain := by simp
        exact hat.move (push_walk r) (by simp)
          (.cons (fun name => by simp [Layer.bound]) hat.mirrors) (hat.agrees.names hnone)
      obtain ⟨hscoped, hmirrors⟩ :=
        statements_scoped body r.push (.names [] :: context) hnamed trivial hpush hwithin herrors
      exact ⟨hscoped, hmirrors⟩
  | .ifElse condition thenBranch none, r, context, hnamed, hopen, hat, hwithin, herrors => by
      rw [Stmt.ids_ifThen] at hat ⊢
      rw [Stmt.ownIds] at hwithin
      obtain ⟨hcondition, hdeclared, hthen⟩ := hnamed
      obtain ⟨hscoped, hscoped', hmirrors⟩ := (statement_scoped thenBranch).guarded
        (r.expression condition).loopDepth hcondition hdeclared hthen hopen hat hwithin herrors
      exact ⟨⟨hscoped, hdeclared, hscoped'⟩, hmirrors⟩
  | .ifElse _ thenBranch (some elseBranch), r, context, hnamed, hopen, hat, hwithin, herrors =>
      (statement_scoped thenBranch).branches (statement_scoped elseBranch) r context hnamed hopen
        hat hwithin herrors
  | .whileLoop condition body, r, context, hnamed, hopen, hat, hwithin, herrors => by
      rw [Stmt.ids_whileLoop] at hat ⊢
      rw [Stmt.ownIds] at hwithin
      obtain ⟨hcondition, hdeclared, hbody⟩ := hnamed
      obtain ⟨hscoped, hscoped', hmirrors⟩ := (statement_scoped body).guarded
        ((r.expression condition).loopDepth + 1) hcondition hdeclared hbody hopen hat hwithin
        herrors
      exact ⟨⟨hscoped, hdeclared, hscoped'⟩, hmirrors⟩
  | .function declaration, r, context, hnamed, hopen, hat, hwithin, herrors => by
      -- The name is defined before the body is walked, so the body may call the function.
      have hwalk := function_walk declaration .function (r.introduce declaration.name)
      have hat' : (r.introduce declaration.name).At (context.declare declaration.name.lexeme)
          declaration.ids :=
        hat.move (introduce_walk r declaration.name []) (by simp)
          (introduce_mirrors hat.mirrors hopen declaration.name)
          ((introduce_enclosingClass r declaration.name).symm ▸ hat.agrees.declare hnamed.1)
      obtain ⟨hscoped, hmirrors⟩ := function_scoped declaration .function _ _ hnamed.2 hat'
        (hwithin.declare _) herrors
      exact ⟨⟨hnamed.1, introduce_fresh hat.mirrors hopen (hwalk.errors herrors), hscoped⟩,
        hmirrors⟩
  | .returnStmt keyword value, r, context, hnamed, _, hat, hwithin, herrors => by
      have hsame := checkReturn_same r keyword value.isSome
      have hat' : (r.checkReturn keyword value.isSome).At context (Expr.idsOption value) :=
        At.moveSame hat (checkReturn_walk r keyword value.isSome []) (by simp) hsame
      refine ⟨expression?_scoped hnamed hat' hwithin herrors, ?_⟩
      rw [statement, (expression?_same _ value).scopes]
      exact hat'.mirrors
  | .breakStmt keyword, r, _, _, _, hat, _, _ => by
      refine ⟨trivial, ?_⟩
      rw [statement, checkBreak]
      split <;> exact hat.mirrors
  | .classDecl _ _ methods, r, context, hnamed, hopen, hat, hwithin, herrors =>
      ScopesMethods.classDecl (methods_scoped methods) r context hnamed hopen hat hwithin herrors

theorem statements_scoped : ∀ (list : List Stmt) (r : Resolver) (context : Context),
    Stmt.NamedAll list → context.Open → r.At context (Stmt.idsAll list) →
    context.Within (Stmt.ownIdsAll list) → (r.statements list).errors = [] →
    Stmt.ScopedAll ((r.statements list).Recorded (Stmt.idsAll list)) context list
      ∧ Mirrors (r.statements list).scopes.tail context.tail
  | [], _, _, _, _, hat, _, _ => ⟨trivial, hat.mirrors.tail⟩
  | s :: rest, r, context, hnamed, hopen, hat, hwithin, herrors => by
      rw [Stmt.idsAll_cons] at hat ⊢
      rw [Stmt.ownIdsAll] at hwithin
      have hrestWalk := statements_walk rest (r.statement s)
      obtain ⟨hfirst, hmirrors⟩ := statement_scoped s r context hnamed.1 hopen hat.left
        (hwithin.mono (List.subset_append_left _ _)) (hrestWalk.errors herrors)
      have hat' : (r.statement s).At (s.after context) (Stmt.idsAll rest) :=
        hat.right.move (statement_walk s r) hat.disjoint hmirrors
          ((statement_enclosingClass s r).symm ▸ hat.agrees.after hnamed.1)
      obtain ⟨hrest, hmirrors'⟩ := statements_scoped rest _ _ hnamed.2 (hopen.after s) hat'
        ((hwithin.mono (List.subset_append_right _ _)).after s) herrors
      rw [Stmt.tail_after] at hmirrors'
      exact ⟨⟨s.scoped_mono (fun _ _ h => h.later_append hrestWalk hat.disjoint) context hfirst,
        Stmt.scopedAll_mono (Recorded.sub (List.subset_append_right _ _)) _ rest hrest⟩, hmirrors'⟩

theorem function_scoped : ∀ (declaration : FunctionDecl Stmt) (kind : FunctionContext)
    (r : Resolver) (context : Context), FunctionDecl.Named declaration →
    r.At context declaration.ids → context.Within (FunctionDecl.ownIds declaration) →
    (r.function kind declaration).errors = [] →
    FunctionDecl.Scoped ((r.function kind declaration).Recorded declaration.ids) context declaration
      ∧ Mirrors (r.function kind declaration).scopes context
  | ⟨_, params, body⟩, kind, r, context, hnamed, hat, hwithin, herrors => by
      have hbodyWalk := statements_walk body (r.enterFunction kind params)
      have henter := enterFunction_walk r kind params
      obtain ⟨hnodup, hmirrors⟩ := enterFunction_mirrors hat.mirrors (hbodyWalk.errors herrors)
      have hclass : (r.enterFunction kind params).enclosingClass = r.enclosingClass :=
        introduceAll_enclosingClass params _
      have hat' : (r.enterFunction kind params).At (.names (params.map Token.lexeme) :: context)
          (Stmt.idsAll body) :=
        hat.move henter (by simp) hmirrors (hclass.symm ▸ hat.agrees.names hnamed.1)
      obtain ⟨hscoped, hmirrors'⟩ :=
        statements_scoped body _ (.names (params.map Token.lexeme) :: context) hnamed.2 trivial hat'
          hwithin herrors
      exact ⟨⟨hnodup, hnamed.1, hscoped⟩, hmirrors'⟩

theorem methods_scoped : ∀ list : List (FunctionDecl Stmt), ScopesMethods list
  | [], _, _, _, hat, _ => ⟨trivial, (hat ⟨⟨.eof, "", 0⟩, [], []⟩).mirrors.tail⟩
  | method :: rest, r, context, hnamed, hat, herrors => by
      rw [FunctionDecl.idsAll_cons] at hat ⊢
      have hrestWalk := methods_walk rest (r.function (methodContext method) method)
      have hwithin : Context.Within (.receiver method :: context) (FunctionDecl.ownIds method) := by
        rintro method' heq id hid
        cases heq
        exact hid
      obtain ⟨hfirst, hmirrors⟩ := function_scoped method (methodContext method) r _ hnamed.1
        (hat method).left hwithin (hrestWalk.errors herrors)
      -- The methods share one scope in the walk, while each layer names its own method.
      have hat' : ∀ method', (r.function (methodContext method) method).At
          (.receiver method' :: context) (FunctionDecl.idsAll rest) := fun method' =>
        (hat method').right.move (function_walk method _ r) (hat method').disjoint
          (hmirrors.congr fun _ => Iff.rfl)
          ((function_enclosingClass method _ r).symm ▸ (hat method').agrees)
      obtain ⟨hrest, hmirrors'⟩ := methods_scoped rest _ context hnamed.2 hat' herrors
      refine ⟨⟨?_, ?_⟩, hmirrors'⟩
      · refine FunctionDecl.scoped_mono ?_ _ method hfirst
        intro _ _ h
        exact h.later_append hrestWalk (hat method).disjoint
      · exact FunctionDecl.scopedAll_mono (Recorded.sub (List.subset_append_right _ _)) context
          rest hrest
end

end Resolver

/-- In an accepted program, every node is recorded as its context says. -/
theorem resolve_scoped {program : Program} {resolution : Resolution}
    (h : resolve program = .ok resolution) (hnamed : Stmt.NamedAll program)
    (hnodup : (Stmt.idsAll program).Nodup) :
    Stmt.ScopedAll (fun id distance => id ∈ Stmt.idsAll program ∧ resolution.locals[id]? = distance)
      [] program := by
  unfold resolve at h
  dsimp only at h
  split at h
  next herrors =>
    cases h
    have hat : Resolver.start.At [] (Stmt.idsAll program) :=
      ⟨.nil, trivial, hnodup, fun id _ => by simp [Resolver.start]⟩
    exact (Resolver.statements_scoped program Resolver.start [] hnamed trivial hat
      (fun _ hmethod => nomatch hmethod) (List.isEmpty_iff.mp herrors)).1
  next => cases h

/-- The walk records nothing but the nodes of the program. -/
theorem resolve_locals {program : Program} {resolution : Resolution}
    (h : resolve program = .ok resolution) {id : NodeId} (hid : id ∉ Stmt.idsAll program) :
    resolution.locals[id]? = none := by
  unfold resolve at h
  dsimp only at h
  split at h
  next =>
    cases h
    rw [(Resolver.statements_walk program Resolver.start).locals id hid]
    simp [Resolver.start]
  next => cases h

end ScopeScript
