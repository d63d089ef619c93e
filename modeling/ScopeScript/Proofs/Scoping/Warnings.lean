import ScopeScript.Proofs.Scoping.Violations

/-!
# The programs that the walk accepts

A warning is noted where a variable names what is being initialized around it. Wherever nothing is
being initialized every name of the innermost scope is defined, so expressions elsewhere give no
warnings. Together with the count of violations this says what comes of walking any program.
-/

namespace ScopeScript

theorem ownReads_append (a b : List (Place × Site)) :
    ownReads (a ++ b) = ownReads a ++ ownReads b :=
  List.flatMap_append

theorem ownReads_map_append {path : Place} {a b : List Site} (ha : ownReads (a.map (path, ·)) = [])
    (hb : ownReads (b.map (path, ·)) = []) : ownReads ((a ++ b).map (path, ·)) = [] := by
  rw [List.map_append, ownReads_append, ha, hb, List.append_nil]

mutual
/-- There are no declarations in an expression. -/
theorem Expr.sitesAt_ownReads (path : Place) : ∀ e : Expr, ownReads (e.sitesAt path) = []
  | .literal _ | .variable .. | .thisExpr .. | .superExpr .. => rfl
  | .grouping inner => inner.sitesAt_ownReads path
  | .unary _ right => right.sitesAt_ownReads path
  | .binary left _ right | .logical left _ right =>
      ownReads_map_append (left.sitesAt_ownReads path) (right.sitesAt_ownReads path)
  | .assign _ _ value => value.sitesAt_ownReads path
  | .call callee _ arguments =>
      ownReads_map_append (callee.sitesAt_ownReads path) (Expr.sitesAll_ownReads path arguments)
  | .get object _ => object.sitesAt_ownReads path
  | .set object _ value =>
      ownReads_map_append (value.sitesAt_ownReads path) (object.sitesAt_ownReads path)

theorem Expr.sitesAll_ownReads (path : Place) :
    ∀ list : List Expr, ownReads ((Expr.sitesAll list).map (path, ·)) = []
  | [] => rfl
  | e :: rest => ownReads_map_append (e.sitesAt_ownReads path) (Expr.sitesAll_ownReads path rest)
end

theorem Expr.sitesOption_ownReads (path : Place) (e : Option Expr) :
    ownReads (Expr.sitesOption path e) = [] := by
  cases e with
  | none => rfl
  | some e => exact e.sitesAt_ownReads path

namespace Resolver

variable {r r' : Resolver} {path : Place} {seen : List String}

/-- The warnings for variables where the walk is. -/
def warningsFor (r : Resolver) (names : List Token) : List ScopeError :=
  (names.filter (r.initializing ·.lexeme)).map (⟨·, .ownInitializer⟩)

theorem warningsFor_append (r : Resolver) (a b : List Token) :
    r.warningsFor (a ++ b) = r.warningsFor a ++ r.warningsFor b := by
  simp [warningsFor]

theorem warningsFor_same (h : Same r r') (names : List Token) :
    r'.warningsFor names = r.warningsFor names := by
  have hinitializing : r'.initializing = r.initializing := by
    funext name
    rw [initializing, initializing, h.scopes]
  rw [warningsFor, warningsFor, hinitializing]

theorem bind_warnings (r : Resolver) (id : NodeId) (name : Token) :
    (r.bind id name).warnings = r.warnings := by
  unfold bind
  split <;> rfl

theorem read_warnings (r : Resolver) (id : NodeId) (name : Token) :
    (r.read id name).warnings = r.warnings ++ r.warningsFor [name] := by
  unfold read
  rw [bind_warnings]
  cases h : r.initializing name.lexeme <;> simp [warningsFor, warn, h]

theorem receiver_warnings (r : Resolver) (id : NodeId) (keyword : Token) :
    (r.receiver id keyword).warnings = r.warnings := by
  unfold receiver
  split
  next => rfl
  next => exact bind_warnings ..

theorem inherited_warnings (r : Resolver) (id : NodeId) (keyword : Token) :
    (r.inherited id keyword).warnings = r.warnings := by
  unfold inherited
  split
  next => rfl
  next => rfl
  next => exact bind_warnings ..

mutual
theorem expression_warnings : ∀ (e : Expr) (r : Resolver),
    (r.expression e).warnings = r.warnings ++ r.warningsFor e.variables
  | .literal _, r => (List.append_nil r.warnings).symm
  | .variable id name, r => read_warnings r id name
  | .thisExpr id keyword, r => (receiver_warnings r id keyword).trans (List.append_nil _).symm
  | .superExpr id keyword _, r => (inherited_warnings r id keyword).trans (List.append_nil _).symm
  | .grouping inner, r => expression_warnings inner r
  | .unary _ right, r => expression_warnings right r
  | .get object _, r => expression_warnings object r
  | .assign id name value, r => (bind_warnings _ id name).trans (expression_warnings value r)
  | .binary left _ right, r => by
      rw [expression, expression_warnings right, expression_warnings left, Expr.variables,
        warningsFor_same (expression_same left r), warningsFor_append, List.append_assoc]
  | .logical left _ right, r => by
      rw [expression, expression_warnings right, expression_warnings left, Expr.variables,
        warningsFor_same (expression_same left r), warningsFor_append, List.append_assoc]
  | .call callee _ arguments, r => by
      rw [expression, expressions_warnings arguments, expression_warnings callee, Expr.variables,
        warningsFor_same (expression_same callee r), warningsFor_append, List.append_assoc]
  | .set object _ value, r => by
      rw [expression, expression_warnings object, expression_warnings value, Expr.variables,
        warningsFor_same (expression_same value r), warningsFor_append, List.append_assoc]

theorem expressions_warnings : ∀ (list : List Expr) (r : Resolver),
    (r.expressions list).warnings = r.warnings ++ r.warningsFor (Expr.variablesAll list)
  | [], r => (List.append_nil r.warnings).symm
  | e :: rest, r => by
      rw [expressions, expressions_warnings rest, expression_warnings e, Expr.variablesAll,
        warningsFor_same (expression_same e r), warningsFor_append, List.append_assoc]
end

/-- Where all names of the innermost scope are defined, nothing is being initialized. -/
theorem warningsFor_declares {isLocal : Bool} (h : Declares r.scopes isLocal seen)
    (names : List Token) : r.warningsFor names = [] := by
  have hnone : ∀ name, r.initializing name = false := by
    intro name
    cases isLocal with
    | false =>
        have hscopes : r.scopes = [] := h
        rw [initializing, hscopes]
    | true =>
        obtain ⟨scope, outer, hscopes, hfind⟩ := h
        rw [initializing, hscopes]
        dsimp only
        rw [hfind]
        split <;> decide
  simp [warningsFor, hnone]

namespace StandsAt

theorem expression_warnings (h : StandsAt r path seen) (e : Expr) :
    (r.expression e).warnings = r.warnings := by
  rw [Resolver.expression_warnings, warningsFor_declares h.scopes, List.append_nil]

theorem expression?_warnings (h : StandsAt r path seen) (e : Option Expr) :
    (r.expression? e).warnings = r.warnings := by
  cases e with
  | none => rfl
  | some e => exact h.expression_warnings e

end StandsAt

theorem declare_warnings (r : Resolver) (name : Token) :
    (r.declare name).warnings = r.warnings := by
  unfold declare
  split
  next => rfl
  next => split <;> rfl

theorem define_warnings (r : Resolver) (name : String) : (r.define name).warnings = r.warnings := by
  unfold define
  split <;> rfl

theorem introduce_warnings (r : Resolver) (name : Token) :
    (r.introduce name).warnings = r.warnings := by
  rw [introduce, define_warnings, declare_warnings]

theorem introduceAll_warnings (params : List Token) (r : Resolver) :
    (params.foldl introduce r).warnings = r.warnings := by
  induction params generalizing r with
  | nil => rfl
  | cons param rest ih => rw [List.foldl_cons, ih, introduce_warnings]

/-- Where there are no errors in the end, no violations were found. -/
theorem Notes.none_found {found : Multiset ScopeError} (h : Notes r r' found)
    (herrors : r'.errors = []) : found = 0 := by
  rw [Notes, herrors] at h
  have hcard := congrArg Multiset.card h
  rw [Multiset.card_add] at hcard
  exact Multiset.card_eq_zero.mp (Nat.eq_zero_of_add_eq_zero hcard.symm).2

/-- In an initializer just the variables that name what is initialized give warnings. -/
theorem initializer_warnings (h : StandsAt r path seen) {name : Token} (value : Expr)
    (herrors : (r.declare name).errors = []) :
    ((r.declare name).expression value).warnings =
      r.warnings ++ (Site.initialized name value).ownReads path := by
  rw [expression_warnings, declare_warnings, Site.ownReads]
  congr 1
  cases hlocal : path.isLocal with
  | false =>
      have hscopes := h.scopes
      rw [hlocal] at hscopes
      have hempty : r.scopes = [] := hscopes
      have hsame : r.declare name = r := by rw [declare, hempty]
      rw [hsame]
      exact warningsFor_declares hscopes _
  | true =>
      have hscopes := h.scopes
      rw [hlocal] at hscopes
      have hnew : name.lexeme ∉ seen := by
        have hnone := (declare_notes h.scopes name).none_found herrors
        rw [redeclared_local hlocal, Multiset.coe_eq_zero] at hnone
        exact (redeclarations_eq_nil_iff.mp hnone).2 name (List.mem_singleton_self name)
      obtain ⟨scope, outer, hafter, hfind⟩ := declare_scopes hscopes hnew
      have hinitializing : ∀ other, (r.declare name).initializing other =
          decide (other = name.lexeme) := by
        intro other
        rw [initializing, hafter]
        dsimp only
        rw [hfind]
        by_cases hother : other = name.lexeme
        · simp [hother]
        · simp only [hother, if_false, decide_false]
          split <;> decide
      simp [warningsFor, hinitializing]

theorem checkReturn_warnings (r : Resolver) (keyword : Token) (hasValue : Bool) :
    (r.checkReturn keyword hasValue).warnings = r.warnings := by
  unfold checkReturn
  dsimp only
  split <;> split <;> rfl

theorem enterClass_warnings (h : StandsAt r path seen) (name : Token) (superclass : Option Expr) :
    (r.enterClass name superclass).warnings = r.warnings := by
  have hpush : ∀ (r : Resolver) (name : String), (r.push.define name).warnings = r.warnings :=
    fun r name => define_warnings r.push name
  have hname : ({ r with enclosingClass := .plain }.introduce name).warnings = r.warnings :=
    introduce_warnings _ name
  unfold enterClass
  cases superclass with
  | none => exact (hpush _ "this").trans hname
  | some superclass =>
      let introduced := { r with enclosingClass := .plain }.introduce name
      let checked := { introduced.checkInheritance name superclass with enclosingClass := .derived }
      have hchecked : checked.warnings = introduced.warnings := by
        change (introduced.checkInheritance name superclass).warnings = _
        unfold checkInheritance
        split
        · split <;> rfl
        · rfl
      have hscopes : Declares checked.scopes path.isLocal (name.lexeme :: seen) := by
        change Declares (introduced.checkInheritance name superclass).scopes _ _
        rw [(checkInheritance_same introduced name superclass).scopes]
        exact introduce_declares (r := { r with enclosingClass := .plain }) h.scopes name
      have hvalue : (checked.expression superclass).warnings = checked.warnings := by
        rw [expression_warnings, warningsFor_declares hscopes, List.append_nil]
      exact (hpush _ "this").trans ((hpush _ "super").trans (hvalue.trans (hchecked.trans hname)))

mutual
theorem statement_warnings : ∀ (s : Stmt) {r : Resolver} {path : Place} {seen : List String},
    StandsAt r path seen → (r.statement s).errors = [] →
    (r.statement s).warnings = r.warnings ++ ownReads (s.sites path)
  | .expression value, r, path, _, h, _ => by
      rw [statement, h.expression_warnings, Stmt.sites, Expr.sitesAt_ownReads, List.append_nil]
  | .print value, r, path, _, h, _ => by
      rw [statement, h.expression_warnings, Stmt.sites, Expr.sitesAt_ownReads, List.append_nil]
  | .varDecl name none, r, path, _, _, _ => by
      rw [statement, define_warnings, expression?, declare_warnings]
      exact (List.append_nil r.warnings).symm
  | .varDecl name (some value), r, path, _, h, herrors => by
      have hdeclare :=
        (expression_walk value _).errors ((define_walk _ name.lexeme []).errors herrors)
      rw [statement, define_warnings, expression?, initializer_warnings h value hdeclare,
        Stmt.sites, initializerSites, ownReads, List.flatMap_cons]
      rw [← ownReads, Expr.sitesAt_ownReads, List.append_nil]
  | .letDecl name value, r, path, _, h, herrors => by
      have hdeclare :=
        (expression_walk value _).errors ((define_walk _ name.lexeme []).errors herrors)
      rw [statement, define_warnings, initializer_warnings h value hdeclare, Stmt.sites,
        initializerSites, ownReads, List.flatMap_cons]
      rw [← ownReads, Expr.sitesAt_ownReads, List.append_nil]
  | .block body, _, _, _, h, herrors => statements_warnings body h.push herrors
  | .ifElse condition thenBranch none, r, path, _, h, herrors => by
      rw [statement, statement_warnings thenBranch (h.expression condition) herrors,
        h.expression_warnings, Stmt.sites, ownReads_append, Expr.sitesAt_ownReads]
      rfl
  | .ifElse condition thenBranch (some elseBranch), r, path, _, h, herrors => by
      have hthen := (statement_walk elseBranch _).errors herrors
      have hcondition := h.expression condition
      rw [statement, statement_warnings elseBranch (hcondition.statement thenBranch) herrors,
        statement_warnings thenBranch hcondition hthen, h.expression_warnings, Stmt.sites,
        ownReads_append, ownReads_append, Expr.sitesAt_ownReads, List.append_assoc]
      rfl
  | .whileLoop condition body, r, path, _, h, herrors => by
      have hbody := statement_warnings body (h.expression condition).loop herrors
      rw [Stmt.sites, ownReads_append, Expr.sitesAt_ownReads, List.nil_append,
        ← h.expression_warnings condition]
      exact hbody
  | .function declaration, r, path, _, h, herrors => by
      have hbody := function_warnings declaration (h.introduce declaration.name).enclosingClass
        .function rfl herrors
      rw [← introduce_warnings r declaration.name]
      exact hbody
  | .returnStmt keyword value, r, path, _, h, _ => by
      have hsame := checkReturn_same r keyword value.isSome
      have hcheck := h.move (checkReturn_level r keyword value.isSome) hsame.enclosingClass
        (hsame.scopes ▸ h.scopes)
      rw [statement, hcheck.expression?_warnings, checkReturn_warnings]
      exact (List.append_nil r.warnings).symm.trans
        (congrArg (r.warnings ++ ·) (Expr.sitesOption_ownReads path value).symm)
  | .breakStmt keyword, r, path, _, _, _ => by
      rw [statement, checkBreak]
      split <;> exact (List.append_nil r.warnings).symm
  | .classDecl name superclass methods, r, path, _, h, herrors => by
      have hmethods := methods_warnings methods (enterClass_enclosingClass r name superclass path)
        ((leaveClass_walk _ superclass _ []).errors herrors)
      have hleave : ∀ r' : Resolver,
          (r'.leaveClass superclass r.enclosingClass).warnings = r'.warnings := by
        intro r'
        unfold leaveClass
        dsimp only
        split <;> rfl
      have hsites : ownReads (Stmt.sites path (.classDecl name superclass methods)) =
          ownReads (FunctionDecl.sitesAll (.classBody superclass.isSome :: path) methods) := by
        rw [Stmt.sites, ← List.cons_append, ownReads_append]
        exact congrArg (· ++ _) (Expr.sitesOption_ownReads _ superclass)
      rw [statement, hleave, hmethods, enterClass_warnings h, hsites]

theorem statements_warnings : ∀ (list : List Stmt) {r : Resolver} {path : Place}
    {seen : List String}, StandsAt r path seen → (r.statements list).errors = [] →
    (r.statements list).warnings = r.warnings ++ ownReads (Stmt.sitesAll path list)
  | [], r, _, _, _, _ => (List.append_nil r.warnings).symm
  | s :: rest, r, path, _, h, herrors => by
      have hs := (statements_walk rest _).errors herrors
      rw [statements, statements_warnings rest (h.statement s) herrors, statement_warnings s h hs,
        Stmt.sitesAll, ownReads_append, List.append_assoc]

theorem function_warnings : ∀ (declaration : FunctionDecl Stmt) {r : Resolver} {path : Place},
    r.enclosingClass = path.classContext → ∀ kind : Enclosure, kind.isCallable = true →
    (r.function (Place.functionContext (kind :: path)) declaration).errors = [] →
    (r.function (Place.functionContext (kind :: path)) declaration).warnings =
      r.warnings ++ ownReads (FunctionDecl.sites (kind :: path) declaration)
  | ⟨_, params, body⟩, r, path, h, kind, hkind, herrors => by
      have hbody := statements_warnings body (StandsAt.enterFunction h hkind params)
        ((leaveFunction_walk _ r.enclosingFunction r.loopDepth).errors herrors)
      rw [enterFunction, introduceAll_warnings] at hbody
      exact hbody

theorem methods_warnings : ∀ (list : List (FunctionDecl Stmt)) {r : Resolver} {path : Place},
    r.enclosingClass = path.classContext → (r.methods list).errors = [] →
    (r.methods list).warnings = r.warnings ++ ownReads (FunctionDecl.sitesAll path list)
  | [], r, _, _, _ => (List.append_nil r.warnings).symm
  | method :: rest, r, path, h, herrors => by
      have hfirst := (methods_walk rest _).errors herrors
      have hmethod := function_warnings method h (.method method.isInitializer) rfl
        (methodContext_eq method path ▸ hfirst)
      have hclass := (function_enclosingClass method (methodContext method) r).trans h
      rw [methods, methods_warnings rest hclass herrors, methodContext_eq method path, hmethod,
        FunctionDecl.sitesAll, ownReads_append, List.append_assoc]
end

end Resolver

/-- In front of a program the walk stands outside of everything. -/
theorem Resolver.start_standsAt : Resolver.StandsAt .start [] [] :=
  ⟨rfl, rfl, rfl, rfl⟩

/-- The walk accepts exactly the well-formed programs. Of an accepted program it warns about just
the variables that are read in their own initializers, in the order of the text; and where it
refuses a program it gives every violation once, and nothing else. -/
theorem resolve_wellFormed (program : Program) :
    ((∃ resolution, resolve program = .ok resolution) ↔ WellFormed program) ∧
    (∀ resolution, resolve program = .ok resolution →
      resolution.warnings = ownReads (Stmt.sitesAll [] program)) ∧
    (∀ errors, resolve program = .error errors →
      errors.Perm (violations program) ∧ errors.length = (violations program).length) := by
  have hperm : (Resolver.start.statements program).errors.Perm (violations program) := by
    have hnotes := Resolver.statements_notes program Resolver.start_standsAt
    rw [Resolver.Notes, Resolver.violationsInAll] at hnotes
    rw [← Multiset.coe_eq_coe, hnotes, violations, ← Multiset.coe_add]
    simp [Resolver.start, Resolver.redeclared, Place.isLocal]
  have haccept : (Resolver.start.statements program).errors = [] ↔ WellFormed program := by
    rw [← violations_eq_nil_iff]
    constructor
    · intro herrors
      rw [herrors] at hperm
      exact hperm.symm.eq_nil
    · intro hnone
      rw [hnone] at hperm
      exact hperm.eq_nil
  by_cases herrors : (Resolver.start.statements program).errors = []
  · rw [resolve_of_isEmpty herrors]
    refine ⟨⟨fun _ => haccept.mp herrors, fun _ => ⟨_, rfl⟩⟩, ?_, ?_⟩
    · rintro resolution ⟨⟩
      exact Resolver.statements_warnings program Resolver.start_standsAt herrors
    · rintro errors ⟨⟩
  · rw [resolve_of_errors herrors]
    refine ⟨⟨?_, fun h => (herrors (haccept.mpr h)).elim⟩, ?_, ?_⟩
    · rintro ⟨resolution, ⟨⟩⟩
    · rintro resolution ⟨⟩
    · rintro errors ⟨⟩
      exact ⟨hperm, hperm.length_eq⟩

/-- The block `{ var a = a; }`. -/
def selfReading : Program :=
  [.block [.varDecl ⟨.identifier, "a", 1⟩ (some (.variable 0 ⟨.identifier, "a", 1⟩))]]

/-- The program `fun f(x) { var x; while (x) fun g() { break; } } return;`, in which a name is
declared twice in one scope, the loop belongs to another function, and nothing is there to return
from. -/
def misplaced : Program :=
  [.function ⟨⟨.identifier, "f", 1⟩, [⟨.identifier, "x", 1⟩],
      [.varDecl ⟨.identifier, "x", 1⟩ none,
        .whileLoop (.literal .nil)
          (.function ⟨⟨.identifier, "g", 1⟩, [], [.breakStmt ⟨.keyword .breakKw, "break", 1⟩]⟩)]⟩,
    .returnStmt ⟨.keyword .returnKw, "return", 1⟩ none]

/-- The first program is accepted with one warning, and the second is refused with three errors. -/
theorem resolve_wellFormed_misplaced :
    (WellFormed selfReading ∧ ∃ resolution, resolve selfReading = .ok resolution ∧
      resolution.warnings = [⟨⟨.identifier, "a", 1⟩, .ownInitializer⟩]) ∧
    ¬ WellFormed misplaced ∧ ∃ errors, resolve misplaced = .error errors ∧ errors.length = 3 := by
  obtain ⟨haccept, hwarnings, -⟩ := resolve_wellFormed selfReading
  obtain ⟨hrefuse, -, herrors⟩ := resolve_wellFormed misplaced
  refine ⟨⟨haccept.mp ⟨_, rfl⟩, _, rfl, (hwarnings _ rfl).trans rfl⟩, fun h => ?_, _, rfl,
    (herrors _ rfl).2.trans rfl⟩
  obtain ⟨resolution, hresolution⟩ := hrefuse.mpr h
  cases hresolution

end ScopeScript
