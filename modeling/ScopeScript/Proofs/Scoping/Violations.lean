import Mathlib.Algebra.Order.Group.Multiset
import Mathlib.Tactic.Abel
import ScopeScript.Proofs.Scoping.Concatenation
import ScopeScript.Proofs.Scoping.WellFormed

/-!
# The walk finds exactly what is wrong

Where the walk stands it knows the function, the class and the loops around the place, and which
names its scope has so far. So every check that it makes is the rule for that place. What the walk
notes over a part of a program are the violations in that part, each once; it meets those of nested
scopes together with the others, so the order is left open. If there are none, its warnings are the
variables read in their own initializers, in the order of the text.
-/

namespace ScopeScript

/-- What the walk takes the function around a place to be. -/
def Place.functionContext (path : Place) : FunctionContext :=
  match path.find? Enclosure.isCallable with
  | none => .none
  | some (.method true) => .initializer
  | some (.method false) => .method
  | some _ => .function

/-- What the walk takes the class around a place to be. -/
def Place.classContext (path : Place) : ClassContext :=
  match path.find? Enclosure.isClass with
  | none => .none
  | some (.classBody true) => .derived
  | some _ => .plain

namespace Place

theorem inFunction_eq (path : Place) : path.inFunction = decide (path.functionContext ≠ .none) := by
  induction path with
  | nil => rfl
  | cons enclosure path ih =>
      cases enclosure with
      | method initializer => cases initializer <;> rfl
      | function => rfl
      | _ => exact ih

theorem inInitializer_eq (path : Place) :
    path.inInitializer = decide (path.functionContext = .initializer) := by
  induction path with
  | nil => rfl
  | cons enclosure path ih =>
      cases enclosure with
      | method initializer => cases initializer <;> rfl
      | function => rfl
      | _ => exact ih

theorem inClass_eq (path : Place) : path.inClass = decide (path.classContext ≠ .none) := by
  induction path with
  | nil => rfl
  | cons enclosure path ih =>
      cases enclosure with
      | classBody derived => cases derived <;> rfl
      | _ => exact ih

theorem inDerivedClass_eq (path : Place) :
    path.inDerivedClass = decide (path.classContext = .derived) := by
  induction path with
  | nil => rfl
  | cons enclosure path ih =>
      cases enclosure with
      | classBody derived => cases derived <;> rfl
      | _ => exact ih

theorem inLoop_block (path : Place) : Place.inLoop (.block :: path) = path.inLoop :=
  decide_eq_decide.mpr (by simp [Enclosure.isCallable])

theorem isLocal_callable {kind : Enclosure} (h : kind.isCallable = true) (path : Place) :
    Place.isLocal (kind :: path) = true := by
  simp [isLocal, h]

end Place

/-- The names of a scope after more declarations in it. -/
def extend (seen : List String) (names : List Token) : List String :=
  names.foldl (fun seen name => name.lexeme :: seen) seen

theorem extend_append (seen : List String) (a b : List Token) :
    extend seen (a ++ b) = extend (extend seen a) b :=
  List.foldl_append

theorem redeclarations_append (seen : List String) (a b : List Token) :
    redeclarations seen (a ++ b) = redeclarations seen a ++ redeclarations (extend seen a) b := by
  induction a generalizing seen with
  | nil => rfl
  | cons name rest ih =>
      rw [List.cons_append, redeclarations, redeclarations, ih, List.append_assoc]
      rfl

theorem siteViolations_append (a b : List (Place × Site)) :
    siteViolations (a ++ b) = siteViolations a ++ siteViolations b :=
  List.flatMap_append

theorem scopeViolations_append (a b : List (List Token)) :
    scopeViolations (a ++ b) = scopeViolations a ++ scopeViolations b :=
  List.flatMap_append

namespace Resolver

/-! ## The names of the innermost scope -/

/-- In a local scope, just the given names are there, and all of them are defined. Outside of all
local scopes no names are kept. -/
def Declares (scopes : List StaticScope) (isLocal : Bool) (seen : List String) : Prop :=
  if isLocal then
    ∃ scope outer, scopes = scope :: outer
      ∧ ∀ name, scope.find? name = if name ∈ seen then some .defined else none
  else scopes = []

variable {r r' : Resolver} {isLocal : Bool} {seen : List String}

theorem push_declares (r : Resolver) : Declares r.push.scopes true [] :=
  ⟨.empty, r.scopes, rfl, by simp⟩

/-- While a new name is being initialized, it is the only one in its scope that is not defined. -/
theorem declare_scopes (h : Declares r.scopes true seen) {name : Token}
    (hnew : name.lexeme ∉ seen) :
    ∃ scope outer, (r.declare name).scopes = scope :: outer
      ∧ ∀ other, scope.find? other =
        if other = name.lexeme then some .declared
        else if other ∈ seen then some .defined else none := by
  obtain ⟨scope, outer, hscopes, hfind⟩ := h
  refine ⟨scope.insert name.lexeme .declared, outer, ?_, ?_⟩
  · simp [declare, hscopes, NameMap.contains, hfind, hnew]
  · simp [hfind]

theorem declare_define_declares (h : Declares r.scopes isLocal seen) (name : Token)
    (hr' : r'.scopes = (r.declare name).scopes) :
    Declares (r'.define name.lexeme).scopes isLocal (name.lexeme :: seen) := by
  cases isLocal with
  | false =>
      have hscopes : r.scopes = [] := h
      have hempty : r'.scopes = [] := by
        rw [hr', declare, hscopes]
        exact hscopes
      simp [Declares, define, hempty]
  | true =>
      have hafter : ∃ scope outer, r'.scopes = scope :: outer
          ∧ ∀ other, other ≠ name.lexeme →
            scope.find? other = if other ∈ seen then some .defined else none := by
        rw [hr']
        by_cases hseen : name.lexeme ∈ seen
        · obtain ⟨scope, outer, hscopes, hfind⟩ := h
          refine ⟨scope, outer, ?_, fun other _ => hfind other⟩
          simp [declare, hscopes, NameMap.contains, hfind, hseen, error]
        · obtain ⟨scope, outer, hscopes, hfind⟩ := declare_scopes h hseen
          exact ⟨scope, outer, hscopes, fun other hother => by rw [hfind, if_neg hother]⟩
      obtain ⟨scope, outer, hscopes, hfind⟩ := hafter
      refine ⟨scope.insert name.lexeme .defined, outer, by rw [define, hscopes], fun other => ?_⟩
      by_cases hother : other = name.lexeme
      · simp [hother]
      · simp [hother, hfind other hother]

theorem introduce_declares (h : Declares r.scopes isLocal seen) (name : Token) :
    Declares (r.introduce name).scopes isLocal (name.lexeme :: seen) :=
  declare_define_declares h name rfl

theorem introduceAll_declares (h : Declares r.scopes isLocal seen) (params : List Token) :
    Declares (params.foldl introduce r).scopes isLocal (extend seen params) := by
  induction params generalizing r seen with
  | nil => exact h
  | cons param rest ih => exact ih (introduce_declares h param)

mutual
theorem statement_declares : ∀ (s : Stmt) {r : Resolver} {seen : List String},
    Declares r.scopes isLocal seen →
    Declares (r.statement s).scopes isLocal (extend seen s.declarations)
  | .expression value, r, _, h => (expression_same value r).scopes ▸ h
  | .print value, r, _, h => (expression_same value r).scopes ▸ h
  | .varDecl name initializer, _, _, h =>
      declare_define_declares h name (expression?_same _ initializer).scopes
  | .letDecl name initializer, _, _, h =>
      declare_define_declares h name (expression_same initializer _).scopes
  | .block body, r, _, h => (statements_around body r.push).pop ▸ h
  | .ifElse condition thenBranch none, r, _, h =>
      statement_declares thenBranch ((expression_same condition r).scopes ▸ h)
  | .ifElse condition thenBranch (some elseBranch), r, seen, h => by
      have hthen := statement_declares thenBranch ((expression_same condition r).scopes ▸ h)
      rw [Stmt.declarations, extend_append]
      exact statement_declares elseBranch hthen
  | .whileLoop condition body, r, _, h => by
      have hcondition : Declares (r.expression condition).scopes isLocal _ :=
        (expression_same condition r).scopes ▸ h
      exact statement_declares body hcondition
  | .function declaration, _, _, h => by
      rw [statement, function_scopes]
      exact introduce_declares h declaration.name
  | .returnStmt keyword value, r, _, h =>
      ((checkReturn_same r keyword value.isSome).trans (expression?_same _ value)).scopes ▸ h
  | .breakStmt keyword, r, _, h => by
      rw [statement, checkBreak]
      split <;> exact h
  | .classDecl name _ methods, r, _, h => by
      rw [statement, leaveClass_scopes (methods_scopes methods _)]
      have hclass : Declares { r with enclosingClass := .plain }.scopes isLocal _ := h
      exact introduce_declares hclass name

theorem statements_declares : ∀ (list : List Stmt) {r : Resolver} {seen : List String},
    Declares r.scopes isLocal seen →
    Declares (r.statements list).scopes isLocal (extend seen (Stmt.declarationsAll list))
  | [], _, _, h => h
  | s :: rest, r, seen, h => by
      rw [Stmt.declarationsAll, extend_append]
      exact statements_declares rest (statement_declares s h)
end

/-! ## What is noted -/

/-- Between two moments of the walk, just the given violations are noted. -/
def Notes (r r' : Resolver) (found : Multiset ScopeError) : Prop :=
  (r'.errors : Multiset ScopeError) = r.errors + found

namespace Notes

variable {r'' : Resolver} {a b : Multiset ScopeError}

theorem none (h : r'.errors = r.errors) : Notes r r' 0 := by
  rw [Notes, h, add_zero]

theorem of_append {found : List ScopeError} (h : r'.errors = r.errors ++ found) :
    Notes r r' found := by
  rw [Notes, h, Multiset.coe_add]

theorem trans (h : Notes r r' a) (h' : Notes r' r'' b) : Notes r r'' (a + b) := by
  rw [Notes, h', h, add_assoc]

theorem of_eq (h : Notes r r' a) (hab : a = b) : Notes r r' b :=
  hab ▸ h

end Notes

theorem bind_errors (r : Resolver) (id : NodeId) (name : Token) :
    (r.bind id name).errors = r.errors := by
  unfold bind
  split <;> rfl

theorem read_errors (r : Resolver) (id : NodeId) (name : Token) :
    (r.read id name).errors = r.errors := by
  unfold read
  rw [bind_errors]
  split <;> rfl

variable {path : Place}

theorem receiver_errors (h : r.enclosingClass = path.classContext) (id : NodeId) (keyword : Token) :
    (r.receiver id keyword).errors =
      r.errors ++ (Site.receiver keyword).violations path := by
  rw [Site.violations, Place.inClass_eq, ← h]
  unfold receiver
  cases r.enclosingClass with
  | none => rfl
  | _ => simp [bind_errors]

theorem inherited_errors (h : r.enclosingClass = path.classContext) (id : NodeId)
    (keyword : Token) :
    (r.inherited id keyword).errors =
      r.errors ++ (Site.inherited keyword).violations path := by
  rw [Site.violations, Place.inDerivedClass_eq, Place.inClass_eq, ← h]
  unfold inherited
  cases r.enclosingClass with
  | derived => simp [bind_errors]
  | _ => rfl

mutual
theorem expression_errors : ∀ (e : Expr) {r : Resolver}, r.enclosingClass = path.classContext →
    (r.expression e).errors = r.errors ++ siteViolations (e.sitesAt path)
  | .literal _, r, _ => (List.append_nil r.errors).symm
  | .variable id name, r, _ => (read_errors r id name).trans (List.append_nil r.errors).symm
  | .grouping inner, _, h => expression_errors inner h
  | .unary _ right, _, h => expression_errors right h
  | .binary left _ right, r, h => by
      have hleft := (expression_same left r).enclosingClass.trans h
      rw [expression, expression_errors right hleft, expression_errors left h, List.append_assoc,
        ← siteViolations_append]
      exact congrArg (fun sites => r.errors ++ siteViolations sites) List.map_append.symm
  | .logical left _ right, r, h => by
      have hleft := (expression_same left r).enclosingClass.trans h
      rw [expression, expression_errors right hleft, expression_errors left h, List.append_assoc,
        ← siteViolations_append]
      exact congrArg (fun sites => r.errors ++ siteViolations sites) List.map_append.symm
  | .assign id name value, _, h => by
      rw [expression, bind_errors]
      exact expression_errors value h
  | .call callee _ arguments, r, h => by
      have hcallee := (expression_same callee r).enclosingClass.trans h
      rw [expression, expressions_errors arguments hcallee, expression_errors callee h,
        List.append_assoc, ← siteViolations_append]
      exact congrArg (fun sites => r.errors ++ siteViolations sites) List.map_append.symm
  | .get object _, _, h => expression_errors object h
  | .set object _ value, r, h => by
      have hvalue := (expression_same value r).enclosingClass.trans h
      rw [expression, expression_errors object hvalue, expression_errors value h, List.append_assoc,
        ← siteViolations_append]
      exact congrArg (fun sites => r.errors ++ siteViolations sites) List.map_append.symm
  | .thisExpr id keyword, r, h => by
      rw [expression, receiver_errors h]
      simp [Expr.sitesAt, Expr.sites, siteViolations]
  | .superExpr id keyword _, r, h => by
      rw [expression, inherited_errors h]
      simp [Expr.sitesAt, Expr.sites, siteViolations]

theorem expressions_errors : ∀ (list : List Expr) {r : Resolver},
    r.enclosingClass = path.classContext →
    (r.expressions list).errors = r.errors ++ siteViolations ((Expr.sitesAll list).map (path, ·))
  | [], r, _ => (List.append_nil r.errors).symm
  | e :: rest, r, h => by
      have he := (expression_same e r).enclosingClass.trans h
      rw [expressions, expressions_errors rest he, expression_errors e h, List.append_assoc,
        ← siteViolations_append]
      exact congrArg (fun sites => r.errors ++ siteViolations sites) List.map_append.symm
end

theorem expression?_errors (h : r.enclosingClass = path.classContext) (e : Option Expr) :
    (r.expression? e).errors = r.errors ++ siteViolations (Expr.sitesOption path e) := by
  cases e with
  | none => exact (List.append_nil r.errors).symm
  | some e => exact expression_errors e h

/-- The walk stands at a place, with the given names in the local scope around it, if there is
one. -/
structure StandsAt (r : Resolver) (path : Place) (seen : List String) : Prop where
  enclosingFunction : r.enclosingFunction = path.functionContext
  enclosingClass : r.enclosingClass = path.classContext
  loopDepth : path.inLoop = decide (r.loopDepth ≠ 0)
  scopes : Declares r.scopes path.isLocal seen

/-- The violations that declarations are in the scope around a place. -/
def redeclared (path : Place) (seen : List String) (names : List Token) : Multiset ScopeError :=
  if path.isLocal then redeclarations seen names else 0

theorem redeclared_append (path : Place) (seen : List String) (a b : List Token) :
    redeclared path seen (a ++ b) = redeclared path seen a + redeclared path (extend seen a) b := by
  unfold redeclared
  split
  · rw [redeclarations_append, Multiset.coe_add]
  · rfl

theorem declare_notes (h : Declares r.scopes path.isLocal seen) (name : Token) :
    Notes r (r.declare name) (redeclared path seen [name]) := by
  unfold redeclared
  cases hlocal : path.isLocal with
  | false =>
      have hscopes : r.scopes = [] := by simpa [Declares, hlocal] using h
      refine .none ?_
      rw [declare, hscopes]
  | true =>
      rw [hlocal] at h
      obtain ⟨scope, outer, hscopes, hfind⟩ := h
      refine .of_append ?_
      by_cases hseen : name.lexeme ∈ seen
      · simp [declare, hscopes, NameMap.contains, hfind, hseen, error, redeclarations]
      · simp [declare, hscopes, NameMap.contains, hfind, hseen, redeclarations]

theorem define_errors (r : Resolver) (name : String) : (r.define name).errors = r.errors := by
  unfold define
  split <;> rfl

theorem introduce_notes (h : Declares r.scopes path.isLocal seen) (name : Token) :
    Notes r (r.introduce name) (redeclared path seen [name]) := by
  rw [Notes, introduce, define_errors]
  exact declare_notes h name

theorem introduceAll_notes (h : Declares r.scopes path.isLocal seen) (params : List Token) :
    Notes r (params.foldl introduce r) (redeclared path seen params) := by
  induction params generalizing r seen with
  | nil => exact (Notes.none rfl).of_eq (by simp [redeclared, redeclarations])
  | cons param rest ih =>
      rw [← List.singleton_append, redeclared_append]
      exact (introduce_notes h param).trans (ih (introduce_declares h param))

theorem checkReturn_notes (h : r.enclosingFunction = path.functionContext) (keyword : Token)
    (hasValue : Bool) : (r.checkReturn keyword hasValue).errors =
      r.errors ++ (Site.returned keyword hasValue).violations path := by
  rw [Site.violations, Place.inFunction_eq, Place.inInitializer_eq, ← h]
  unfold checkReturn
  cases hcontext : r.enclosingFunction <;> cases hasValue <;> simp [error, hcontext]

theorem checkBreak_notes (h : path.inLoop = decide (r.loopDepth ≠ 0)) (keyword : Token) :
    (r.checkBreak keyword).errors = r.errors ++ (Site.broken keyword).violations path := by
  rw [Site.violations, h]
  unfold checkBreak
  by_cases hdepth : r.loopDepth = 0 <;> simp [hdepth, error]

theorem checkInheritance_notes (path : Place) (r : Resolver) (name : Token) (superclass : Expr) :
    (r.checkInheritance name superclass).errors =
      r.errors ++ (Site.classHead name (some superclass)).violations path := by
  unfold checkInheritance Site.violations
  cases superclass with
  | «variable» id superName =>
      dsimp only
      split
      · rfl
      · exact (List.append_nil r.errors).symm
  | _ => exact (List.append_nil r.errors).symm

/-! ## Standing at a place -/

namespace StandsAt

theorem move {seen' : List String} (h : StandsAt r path seen) (hlevel : Level r r')
    (hclass : r'.enclosingClass = r.enclosingClass)
    (hscopes : Declares r'.scopes path.isLocal seen') : StandsAt r' path seen' :=
  ⟨hlevel.enclosingFunction.trans h.enclosingFunction, hclass.trans h.enclosingClass,
    by rw [hlevel.loopDepth, h.loopDepth], hscopes⟩

theorem expression (h : StandsAt r path seen) (e : Expr) :
    StandsAt (r.expression e) path seen :=
  h.move (expression_level e r) (expression_same e r).enclosingClass
    ((expression_same e r).scopes ▸ h.scopes)

theorem statement (h : StandsAt r path seen) (s : Stmt) :
    StandsAt (r.statement s) path (extend seen s.declarations) :=
  h.move (statement_level s r) (statement_enclosingClass s r) (statement_declares s h.scopes)

theorem introduce (h : StandsAt r path seen) (name : Token) :
    StandsAt (r.introduce name) path (name.lexeme :: seen) :=
  h.move (introduce_level r name) (introduce_enclosingClass r name)
    (introduce_declares h.scopes name)

/-- In a block nothing is declared yet. -/
theorem push (h : StandsAt r path seen) : StandsAt r.push (.block :: path) [] :=
  ⟨h.enclosingFunction, h.enclosingClass, path.inLoop_block.trans h.loopDepth, push_declares r⟩

/-- The body of a loop is in the same scope as the loop. -/
theorem loop (h : StandsAt r path seen) :
    StandsAt { r with loopDepth := r.loopDepth + 1 } (.loop :: path) seen :=
  ⟨h.enclosingFunction, h.enclosingClass, by simp [Place.inLoop, Enclosure.isCallable], h.scopes⟩

theorem enterFunction (h : r.enclosingClass = path.classContext) {kind : Enclosure}
    (hkind : kind.isCallable = true) (params : List Token) :
    StandsAt (r.enterFunction (Place.functionContext (kind :: path)) params) (kind :: path)
      (extend [] params) := by
  have hlevel := enterFunction_level r (Place.functionContext (kind :: path)) params
  have hclass : Place.classContext (kind :: path) = path.classContext := by
    cases kind <;> first | rfl | cases hkind
  have hloop : Place.inLoop (kind :: path) = false := by simp [Place.inLoop, hkind]
  refine ⟨hlevel.enclosingFunction, ?_, ?_, ?_⟩
  · rw [hclass, ← h]
    exact introduceAll_enclosingClass params _
  · rw [hlevel.loopDepth, hloop]
    rfl
  · rw [Place.isLocal_callable hkind]
    exact introduceAll_declares (push_declares _) params

end StandsAt

/-! ## What the walk notes over a part of a program -/

/-- The violations in a statement at a place. -/
def violationsIn (path : Place) (seen : List String) (s : Stmt) : Multiset ScopeError :=
  siteViolations (s.sites path) + scopeViolations s.localScopes
    + redeclared path seen s.declarations

/-- The violations in statements at a place. -/
def violationsInAll (path : Place) (seen : List String) (list : List Stmt) : Multiset ScopeError :=
  siteViolations (Stmt.sitesAll path list) + scopeViolations (Stmt.localScopesAll list)
    + redeclared path seen (Stmt.declarationsAll list)

/-- The violations in a function, given the place in its body. -/
def violationsInFunction (path : Place) (declaration : FunctionDecl Stmt) : Multiset ScopeError :=
  siteViolations (FunctionDecl.sites path declaration)
    + scopeViolations (FunctionDecl.localScopes declaration)

/-- The violations in the methods of a class. -/
def violationsInMethods (path : Place) (methods : List (FunctionDecl Stmt)) : Multiset ScopeError :=
  siteViolations (FunctionDecl.sitesAll path methods)
    + scopeViolations (FunctionDecl.localScopesAll methods)

theorem violationsInAll_cons (path : Place) (seen : List String) (s : Stmt) (rest : List Stmt) :
    violationsInAll path seen (s :: rest) =
      violationsIn path seen s + violationsInAll path (extend seen s.declarations) rest := by
  simp only [violationsInAll, violationsIn, Stmt.sitesAll, Stmt.localScopesAll,
    Stmt.declarationsAll, siteViolations_append, scopeViolations_append, redeclared_append,
    ← Multiset.coe_add]
  abel

theorem violationsInMethods_cons (path : Place) (method : FunctionDecl Stmt)
    (rest : List (FunctionDecl Stmt)) : violationsInMethods path (method :: rest) =
      violationsInFunction (.method method.isInitializer :: path) method
        + violationsInMethods path rest := by
  simp only [violationsInMethods, violationsInFunction, FunctionDecl.sitesAll,
    FunctionDecl.localScopesAll, siteViolations_append, scopeViolations_append, ← Multiset.coe_add]
  abel

@[simp] theorem redeclared_nil (path : Place) (seen : List String) :
    redeclared path seen [] = 0 := by
  simp [redeclared, redeclarations]

theorem redeclared_local {path : Place} (h : path.isLocal = true) (seen : List String)
    (names : List Token) : redeclared path seen names = redeclarations seen names := by
  rw [redeclared, if_pos h]

theorem initializerSites_violations (path : Place) (name : Token) (initializer : Option Expr) :
    siteViolations (initializerSites path name initializer) =
      siteViolations (Expr.sitesOption path initializer) := by
  cases initializer <;> rfl

theorem enterClass_notes (h : StandsAt r path seen) (name : Token) (superclass : Option Expr) :
    Notes r (r.enterClass name superclass)
      (redeclared path seen [name]
        + siteViolations ((path, .classHead name superclass) ::
            Expr.sitesOption (.classBody superclass.isSome :: path) superclass)) := by
  have hname : Notes r ({ r with enclosingClass := .plain }.introduce name)
      (redeclared path seen [name]) :=
    introduce_notes (r := { r with enclosingClass := .plain }) h.scopes name
  have hpush : ∀ (r : Resolver) (name : String), Notes r (r.push.define name) 0 :=
    fun r name => .none (define_errors r.push name)
  unfold enterClass
  cases superclass with
  | none => exact (hname.trans (hpush _ "this")).of_eq (by simp [siteViolations, Site.violations,
      Expr.sitesOption])
  | some superclass =>
      let introduced := { r with enclosingClass := .plain }.introduce name
      let checked := { introduced.checkInheritance name superclass with enclosingClass := .derived }
      have hcheck : Notes introduced checked
          ((Site.classHead name (some superclass)).violations path) :=
        .of_append (checkInheritance_notes path introduced name superclass)
      have hvalue : Notes checked (checked.expression superclass)
          (siteViolations (superclass.sitesAt (.classBody true :: path))) :=
        .of_append (expression_errors superclass rfl)
      refine (((hname.trans hcheck).trans hvalue).trans
        ((hpush _ "super").trans (hpush _ "this"))).of_eq ?_
      simp only [siteViolations, List.flatMap_cons, Expr.sitesOption, Option.isSome_some,
        ← Multiset.coe_add, add_zero, add_assoc]

theorem enterClass_enclosingClass (r : Resolver) (name : Token) (superclass : Option Expr)
    (path : Place) : (r.enterClass name superclass).enclosingClass =
      Place.classContext (.classBody superclass.isSome :: path) := by
  unfold enterClass
  cases superclass with
  | none =>
      dsimp only
      rw [define_enclosingClass]
      exact introduce_enclosingClass _ name
  | some superclass =>
      dsimp only
      rw [define_enclosingClass]
      exact (define_enclosingClass _ "super").trans (expression_same superclass _).enclosingClass

theorem methodContext_eq (method : FunctionDecl Stmt) (path : Place) :
    methodContext method = Place.functionContext (.method method.isInitializer :: path) := by
  unfold methodContext
  cases method.isInitializer <;> rfl

mutual
theorem statement_notes : ∀ (s : Stmt) {r : Resolver} {path : Place} {seen : List String},
    StandsAt r path seen → Notes r (r.statement s) (violationsIn path seen s)
  | .expression value, _, _, _, h => by
      refine (Notes.of_append (expression_errors value h.enclosingClass)).of_eq ?_
      simp [violationsIn, Stmt.sites, Stmt.localScopes, Stmt.declarations, scopeViolations]
  | .print value, _, _, _, h => by
      refine (Notes.of_append (expression_errors value h.enclosingClass)).of_eq ?_
      simp [violationsIn, Stmt.sites, Stmt.localScopes, Stmt.declarations, scopeViolations]
  | .varDecl name initializer, r, path, seen, h => by
      have hclass := (declare_enclosingClass r name).trans h.enclosingClass
      have hvalue := Notes.of_append (expression?_errors hclass initializer)
      refine (((declare_notes h.scopes name).trans hvalue).trans
        (.none (define_errors _ name.lexeme))).of_eq ?_
      simp [violationsIn, Stmt.sites, Stmt.localScopes, Stmt.declarations, scopeViolations,
        initializerSites_violations, add_comm]
  | .letDecl name initializer, r, path, seen, h => by
      have hclass := (declare_enclosingClass r name).trans h.enclosingClass
      have hvalue := Notes.of_append (expression_errors initializer hclass)
      refine (((declare_notes h.scopes name).trans hvalue).trans
        (.none (define_errors _ name.lexeme))).of_eq ?_
      simp [violationsIn, Stmt.sites, Stmt.localScopes, Stmt.declarations, scopeViolations,
        initializerSites_violations, Expr.sitesOption, add_comm]
  | .block body, r, path, seen, h => by
      have hbody : Notes r (r.statement (.block body)) (violationsInAll (.block :: path) [] body) :=
        statements_notes body h.push
      have hlocal : Place.isLocal (.block :: path) = true := rfl
      refine hbody.of_eq ?_
      simp only [violationsInAll, violationsIn, Stmt.sites, Stmt.localScopes, Stmt.declarations,
        scopeViolations, List.flatMap_cons, redeclared_local hlocal, redeclared_nil,
        ← Multiset.coe_add]
      abel
  | .ifElse condition thenBranch none, _, path, seen, h => by
      have hcondition := Notes.of_append (expression_errors condition h.enclosingClass)
      refine (hcondition.trans (statement_notes thenBranch (h.expression condition))).of_eq ?_
      simp only [violationsIn, Stmt.sites, Stmt.localScopes, Stmt.declarations,
        siteViolations_append, ← Multiset.coe_add]
      abel
  | .ifElse condition thenBranch (some elseBranch), _, path, seen, h => by
      have hcondition := Notes.of_append (expression_errors condition h.enclosingClass)
      have hthen := statement_notes thenBranch (h.expression condition)
      have helse := statement_notes elseBranch ((h.expression condition).statement thenBranch)
      refine ((hcondition.trans hthen).trans helse).of_eq ?_
      simp only [violationsIn, Stmt.sites, Stmt.localScopes, Stmt.declarations,
        siteViolations_append, scopeViolations_append, redeclared_append, ← Multiset.coe_add]
      abel
  | .whileLoop condition body, r, path, seen, h => by
      have hcondition := Notes.of_append (expression_errors condition h.enclosingClass)
      have hbody : Notes (r.expression condition) (r.statement (.whileLoop condition body))
          (violationsIn (.loop :: path) seen body) :=
        statement_notes body (h.expression condition).loop
      refine (hcondition.trans hbody).of_eq ?_
      have hlocal : redeclared (.loop :: path) seen body.declarations =
          redeclared path seen body.declarations := rfl
      simp only [violationsIn, Stmt.sites, Stmt.localScopes, Stmt.declarations,
        siteViolations_append, hlocal, ← Multiset.coe_add]
      abel
  | .function declaration, r, path, seen, h => by
      have hfunction := function_notes declaration (h.introduce declaration.name).enclosingClass
        .function rfl
      refine ((introduce_notes h.scopes declaration.name).trans hfunction).of_eq ?_
      simp only [violationsIn, violationsInFunction, Stmt.sites, Stmt.localScopes,
        Stmt.declarations]
      abel
  | .returnStmt keyword value, r, path, seen, h => by
      have hclass := (checkReturn_same r keyword value.isSome).enclosingClass.trans h.enclosingClass
      refine ((Notes.of_append (checkReturn_notes h.enclosingFunction keyword value.isSome)).trans
        (.of_append (expression?_errors hclass value))).of_eq ?_
      simp [violationsIn, Stmt.sites, Stmt.localScopes, Stmt.declarations, scopeViolations,
        siteViolations]
  | .breakStmt keyword, r, path, seen, h => by
      refine (Notes.of_append (checkBreak_notes h.loopDepth keyword)).of_eq ?_
      simp [violationsIn, Stmt.sites, Stmt.localScopes, Stmt.declarations, scopeViolations,
        siteViolations]
  | .classDecl name superclass methods, r, path, seen, h => by
      have hmethods := methods_notes methods (enterClass_enclosingClass r name superclass path)
      have hleave : ∀ r' : Resolver,
          Notes r' (r'.leaveClass superclass r.enclosingClass) 0 := by
        intro r'
        refine .none ?_
        unfold leaveClass
        dsimp only
        split <;> rfl
      refine (((enterClass_notes h name superclass).trans hmethods).trans (hleave _)).of_eq ?_
      simp only [violationsIn, violationsInMethods, Stmt.sites, Stmt.localScopes,
        Stmt.declarations, ← List.cons_append, siteViolations_append, ← Multiset.coe_add]
      abel

theorem statements_notes : ∀ (list : List Stmt) {r : Resolver} {path : Place} {seen : List String},
    StandsAt r path seen → Notes r (r.statements list) (violationsInAll path seen list)
  | [], _, _, _, _ => (Notes.none rfl).of_eq (by
      simp [violationsInAll, Stmt.sitesAll, Stmt.localScopesAll, Stmt.declarationsAll,
        siteViolations, scopeViolations])
  | s :: rest, _, _, _, h => by
      rw [violationsInAll_cons]
      exact (statement_notes s h).trans (statements_notes rest (h.statement s))

theorem function_notes : ∀ (declaration : FunctionDecl Stmt) {r : Resolver} {path : Place},
    r.enclosingClass = path.classContext → ∀ kind : Enclosure, kind.isCallable = true →
    Notes r (r.function (Place.functionContext (kind :: path)) declaration)
      (violationsInFunction (kind :: path) declaration)
  | ⟨_, params, body⟩, r, path, h, kind, hkind => by
      have hparams : Notes r (r.enterFunction (Place.functionContext (kind :: path)) params)
          (redeclared (kind :: path) [] params) := by
        refine introduceAll_notes (r := { r with
          enclosingFunction := Place.functionContext (kind :: path), loopDepth := 0 }.push) ?_
          params
        rw [Place.isLocal_callable hkind]
        exact push_declares _
      have hbody := statements_notes body (StandsAt.enterFunction h hkind params)
      refine (hparams.trans hbody).of_eq ?_
      simp only [violationsInAll, violationsInFunction, FunctionDecl.sites,
        FunctionDecl.localScopes, scopeViolations, List.flatMap_cons, redeclarations_append,
        redeclared_local (Place.isLocal_callable hkind path), ← Multiset.coe_add]
      abel

theorem methods_notes : ∀ (list : List (FunctionDecl Stmt)) {r : Resolver} {path : Place},
    r.enclosingClass = path.classContext →
    Notes r (r.methods list) (violationsInMethods path list)
  | [], _, _, _ => (Notes.none rfl).of_eq (by
      simp [violationsInMethods, FunctionDecl.sitesAll, FunctionDecl.localScopesAll,
        siteViolations, scopeViolations])
  | method :: rest, r, path, h => by
      have hmethod := function_notes method h (.method method.isInitializer) rfl
      rw [← methodContext_eq] at hmethod
      have hclass := (function_enclosingClass method (methodContext method) r).trans h
      rw [violationsInMethods_cons]
      exact hmethod.trans (methods_notes rest hclass)
end

end Resolver

end ScopeScript
