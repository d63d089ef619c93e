import Mathlib.Data.List.Nodup
import ScopeScript.Binding.Basic

/-!
# Well-formed programs

Whether a program is well formed is a matter of what stands where. The place of a part of a program
is the list of the constructs around it, and each rule speaks of these alone: a `return` has a
function around it, a `break` a loop of the same function, and so on. Besides, no local scope
declares a name twice. Everything that breaks a rule is a violation of its own.
-/

namespace ScopeScript

/-- A construct around a place in a program. -/
inductive Enclosure where
  | block
  | loop
  | function
  /-- A method, and whether it runs when an instance is made. -/
  | method (initializer : Bool)
  /-- A class, and whether it names a superclass. -/
  | classBody (derived : Bool)
  deriving DecidableEq

/-- Whether a construct is a function or a method. -/
def Enclosure.isCallable : Enclosure → Bool
  | .function | .method _ => true
  | _ => false

/-- Whether a construct is a class. -/
def Enclosure.isClass : Enclosure → Bool
  | .classBody _ => true
  | _ => false

/-- The constructs around a place, the innermost first. -/
abbrev Place := List Enclosure

namespace Place

/-- A place in a function or method. -/
def inFunction (path : Place) : Bool :=
  path.any Enclosure.isCallable

/-- A place in a method that runs when an instance is made, outside functions nested in it. -/
def inInitializer (path : Place) : Bool :=
  path.find? Enclosure.isCallable = some (.method true)

/-- A place in a loop of the same function. -/
def inLoop (path : Place) : Bool :=
  .loop ∈ path.takeWhile fun enclosure => !enclosure.isCallable

/-- A place in a class. -/
def inClass (path : Place) : Bool :=
  path.any Enclosure.isClass

/-- A place whose innermost class names a superclass. -/
def inDerivedClass (path : Place) : Bool :=
  path.find? Enclosure.isClass = some (.classBody true)

/-- A place in a local scope. -/
def isLocal (path : Place) : Bool :=
  path.any fun enclosure => enclosure = .block || enclosure.isCallable

end Place

/-- A part of a program that may be out of place. -/
inductive Site where
  | returned (keyword : Token) (hasValue : Bool)
  | broken (keyword : Token)
  | receiver (keyword : Token)
  | inherited (keyword : Token)
  /-- A `var` or `let` with its initializer. -/
  | initialized (name : Token) (value : Expr)
  | classHead (name : Token) (superclass : Option Expr)

mutual
/-- Where an expression uses `this` and `super`. What is assigned to a property comes before the
object. -/
def Expr.sites : Expr → List Site
  | .literal _ | .variable .. => []
  | .grouping inner => inner.sites
  | .unary _ right => right.sites
  | .binary left _ right | .logical left _ right => left.sites ++ right.sites
  | .assign _ _ value => value.sites
  | .call callee _ arguments => callee.sites ++ Expr.sitesAll arguments
  | .get object _ => object.sites
  | .set object _ value => value.sites ++ object.sites
  | .thisExpr _ keyword => [.receiver keyword]
  | .superExpr _ keyword _ => [.inherited keyword]

/-- Where expressions use `this` and `super`. -/
def Expr.sitesAll : List Expr → List Site
  | [] => []
  | e :: rest => e.sites ++ Expr.sitesAll rest
end

/-- The sites of an expression, with the place that it is in. -/
def Expr.sitesAt (path : Place) (e : Expr) : List (Place × Site) :=
  e.sites.map (path, ·)

/-- The sites of an expression that may be missing, with the place that it is in. -/
def Expr.sitesOption (path : Place) : Option Expr → List (Place × Site)
  | none => []
  | some e => e.sitesAt path

/-- The site of a declaration with its initializer, and those in the initializer. -/
def initializerSites (path : Place) (name : Token) : Option Expr → List (Place × Site)
  | none => []
  | some value => (path, .initialized name value) :: value.sitesAt path

mutual
/-- The sites of a statement with their places, in the order of the text. -/
def Stmt.sites (path : Place) : Stmt → List (Place × Site)
  | .expression value | .print value => value.sitesAt path
  | .varDecl name initializer => initializerSites path name initializer
  | .letDecl name initializer => initializerSites path name (some initializer)
  | .block body => Stmt.sitesAll (.block :: path) body
  | .ifElse condition thenBranch none => condition.sitesAt path ++ thenBranch.sites path
  | .ifElse condition thenBranch (some elseBranch) =>
    condition.sitesAt path ++ (thenBranch.sites path ++ elseBranch.sites path)
  | .whileLoop condition body => condition.sitesAt path ++ body.sites (.loop :: path)
  | .function declaration => FunctionDecl.sites (.function :: path) declaration
  | .returnStmt keyword value =>
    (path, .returned keyword value.isSome) :: Expr.sitesOption path value
  | .breakStmt keyword => [(path, .broken keyword)]
  | .classDecl name superclass methods =>
    (path, .classHead name superclass) ::
      (Expr.sitesOption (.classBody superclass.isSome :: path) superclass
        ++ FunctionDecl.sitesAll (.classBody superclass.isSome :: path) methods)

/-- The sites of statements with their places. -/
def Stmt.sitesAll (path : Place) : List Stmt → List (Place × Site)
  | [] => []
  | s :: rest => s.sites path ++ Stmt.sitesAll path rest

/-- The sites of a function, given the places in its body. -/
def FunctionDecl.sites (path : Place) : FunctionDecl Stmt → List (Place × Site)
  | ⟨_, _, body⟩ => Stmt.sitesAll path body

/-- The sites of the methods of a class. -/
def FunctionDecl.sitesAll (path : Place) : List (FunctionDecl Stmt) → List (Place × Site)
  | [] => []
  | method :: rest =>
    FunctionDecl.sites (.method method.isInitializer :: path) method
      ++ FunctionDecl.sitesAll path rest
end

mutual
/-- The names that a statement declares in the scope around it. Branches and bodies of loops that
are no blocks declare theirs there as well. -/
def Stmt.declarations : Stmt → List Token
  | .varDecl name _ | .letDecl name _ | .classDecl name _ _ => [name]
  | .function declaration => [declaration.name]
  | .ifElse _ thenBranch none => thenBranch.declarations
  | .ifElse _ thenBranch (some elseBranch) => thenBranch.declarations ++ elseBranch.declarations
  | .whileLoop _ body => body.declarations
  | _ => []

/-- The names that statements declare in the scope around them. -/
def Stmt.declarationsAll : List Stmt → List Token
  | [] => []
  | s :: rest => s.declarations ++ Stmt.declarationsAll rest
end

mutual
/-- The local scopes in a statement, each with the names that are declared in it: blocks, and
functions with their parameters. -/
def Stmt.localScopes : Stmt → List (List Token)
  | .block body => Stmt.declarationsAll body :: Stmt.localScopesAll body
  | .ifElse _ thenBranch none => thenBranch.localScopes
  | .ifElse _ thenBranch (some elseBranch) => thenBranch.localScopes ++ elseBranch.localScopes
  | .whileLoop _ body => body.localScopes
  | .function declaration => FunctionDecl.localScopes declaration
  | .classDecl _ _ methods => FunctionDecl.localScopesAll methods
  | _ => []

/-- The local scopes in statements. -/
def Stmt.localScopesAll : List Stmt → List (List Token)
  | [] => []
  | s :: rest => s.localScopes ++ Stmt.localScopesAll rest

/-- The scope of a function and the local scopes in its body. -/
def FunctionDecl.localScopes : FunctionDecl Stmt → List (List Token)
  | ⟨_, params, body⟩ => (params ++ Stmt.declarationsAll body) :: Stmt.localScopesAll body

/-- The local scopes in methods. -/
def FunctionDecl.localScopesAll : List (FunctionDecl Stmt) → List (List Token)
  | [] => []
  | method :: rest => FunctionDecl.localScopes method ++ FunctionDecl.localScopesAll rest
end

mutual
/-- The variables that an expression reads. -/
def Expr.variables : Expr → List Token
  | .literal _ | .thisExpr .. | .superExpr .. => []
  | .grouping inner => inner.variables
  | .unary _ right => right.variables
  | .binary left _ right | .logical left _ right => left.variables ++ right.variables
  | .variable _ name => [name]
  | .assign _ _ value => value.variables
  | .call callee _ arguments => callee.variables ++ Expr.variablesAll arguments
  | .get object _ => object.variables
  | .set object _ value => value.variables ++ object.variables

/-- The variables that expressions read. -/
def Expr.variablesAll : List Expr → List Token
  | [] => []
  | e :: rest => e.variables ++ Expr.variablesAll rest
end

/-- A program in which everything is in its place. -/
structure WellFormed (program : Program) : Prop where
  /-- Every `return` is in a function or method. -/
  returns : ∀ path keyword hasValue,
    (path, Site.returned keyword hasValue) ∈ Stmt.sitesAll [] program → path.inFunction
  /-- No `return` with a value is in an initializer. -/
  initializers : ∀ path keyword,
    (path, Site.returned keyword true) ∈ Stmt.sitesAll [] program → ¬ path.inInitializer
  /-- Every `break` is in a loop of the same function. -/
  breaks : ∀ path keyword, (path, Site.broken keyword) ∈ Stmt.sitesAll [] program → path.inLoop
  /-- Every `this` is in a class. -/
  receivers : ∀ path keyword,
    (path, Site.receiver keyword) ∈ Stmt.sitesAll [] program → path.inClass
  /-- Every `super` is in a class, and the innermost class around it names a superclass. -/
  inherited : ∀ path keyword,
    (path, Site.inherited keyword) ∈ Stmt.sitesAll [] program → path.inDerivedClass
  /-- No local scope declares a name twice. -/
  scopes : ∀ scope ∈ Stmt.localScopesAll program, (scope.map Token.lexeme).Nodup
  /-- No class names itself as its superclass. -/
  inheritance : ∀ path name id superName,
    (path, Site.classHead name (some (.variable id superName))) ∈ Stmt.sitesAll [] program →
      superName.lexeme ≠ name.lexeme

/-- What is wrong with a site at a place. -/
def Site.violations (path : Place) : Site → List ScopeError
  | .returned keyword hasValue =>
    if !path.inFunction then [⟨keyword, .returnAtTopLevel⟩]
    else if hasValue && path.inInitializer then [⟨keyword, .returnFromInitializer⟩]
    else []
  | .broken keyword => if path.inLoop then [] else [⟨keyword, .breakOutsideLoop⟩]
  | .receiver keyword => if path.inClass then [] else [⟨keyword, .thisOutsideClass⟩]
  | .inherited keyword =>
    if path.inDerivedClass then []
    else if path.inClass then [⟨keyword, .superWithoutSuperclass⟩]
    else [⟨keyword, .superOutsideClass⟩]
  | .classHead name (some (.variable _ superName)) =>
    if superName.lexeme = name.lexeme then [⟨superName, .selfInheritance⟩] else []
  | .classHead .. | .initialized .. => []

/-- The declarations of names that were declared before, the names `seen` among them. -/
def redeclarations (seen : List String) : List Token → List ScopeError
  | [] => []
  | name :: rest =>
    (if name.lexeme ∈ seen then [⟨name, .redeclared⟩] else [])
      ++ redeclarations (name.lexeme :: seen) rest

/-- What is wrong with sites at their places. -/
def siteViolations (sites : List (Place × Site)) : List ScopeError :=
  sites.flatMap fun place => place.2.violations place.1

/-- What is wrong with local scopes. -/
def scopeViolations (scopes : List (List Token)) : List ScopeError :=
  scopes.flatMap (redeclarations [])

/-- Everything that is wrong with a program: one violation for each site out of place, and one for
each declaration of a name that its local scope has already. -/
def violations (program : Program) : List ScopeError :=
  siteViolations (Stmt.sitesAll [] program) ++ scopeViolations (Stmt.localScopesAll program)

/-- The variables in an initializer that name what is being initialized in a local scope. -/
def Site.ownReads (path : Place) : Site → List ScopeError
  | .initialized name value =>
    if path.isLocal then
      (value.variables.filter (·.lexeme = name.lexeme)).map (⟨·, .ownInitializer⟩)
    else []
  | _ => []

/-- The variables of a program that are read in their own initializers. -/
def ownReads (sites : List (Place × Site)) : List ScopeError :=
  sites.flatMap fun place => place.2.ownReads place.1

theorem redeclarations_eq_nil_iff {seen : List String} {names : List Token} :
    redeclarations seen names = [] ↔
      (names.map Token.lexeme).Nodup ∧ ∀ name ∈ names, name.lexeme ∉ seen := by
  induction names generalizing seen with
  | nil => simp [redeclarations]
  | cons name rest ih =>
      rw [redeclarations, List.append_eq_nil_iff, ih]
      simp only [ite_eq_right_iff, List.cons_ne_nil, imp_false, List.mem_cons, not_or,
        List.map_cons, List.nodup_cons, List.mem_map, not_exists, not_and, forall_eq_or_imp]
      constructor
      · rintro ⟨hname, hnodup, hrest⟩
        exact ⟨⟨fun other hother heq => (hrest other hother).1 heq, hnodup⟩, hname,
          fun other hother => (hrest other hother).2⟩
      · rintro ⟨⟨hname, hnodup⟩, hseen, hrest⟩
        exact ⟨hseen, hnodup, fun other hother => ⟨fun heq => hname other hother heq,
          hrest other hother⟩⟩

/-- What a site demands of its place. -/
def Site.InPlace (path : Place) : Site → Prop
  | .returned _ hasValue => path.inFunction ∧ (hasValue → ¬ path.inInitializer)
  | .broken _ => path.inLoop
  | .receiver _ => path.inClass
  | .inherited _ => path.inDerivedClass
  | .classHead name (some (.variable _ superName)) => superName.lexeme ≠ name.lexeme
  | .classHead .. | .initialized .. => True

theorem Site.violations_eq_nil_iff (path : Place) (site : Site) :
    site.violations path = [] ↔ site.InPlace path := by
  unfold Site.violations Site.InPlace
  split
  case h_1 keyword hasValue => cases path.inFunction <;> cases hasValue <;> simp
  case h_4 keyword =>
    cases path.inDerivedClass
    · simp only [Bool.false_eq_true, if_false, iff_false]
      split <;> exact List.cons_ne_nil _ _
    · simp
  all_goals simp

/-- A program is well formed exactly if nothing is wrong with it. -/
theorem violations_eq_nil_iff (program : Program) :
    violations program = [] ↔ WellFormed program := by
  simp only [violations, siteViolations, scopeViolations, List.append_eq_nil_iff,
    List.flatMap_eq_nil_iff, Site.violations_eq_nil_iff]
  constructor
  · rintro ⟨hsites, hscopes⟩
    exact {
      returns := fun path keyword hasValue hsite => (hsites _ hsite).1
      initializers := fun path keyword hsite => (hsites _ hsite).2 rfl
      breaks := fun path keyword hsite => hsites _ hsite
      receivers := fun path keyword hsite => hsites _ hsite
      inherited := fun path keyword hsite => hsites _ hsite
      scopes := fun scope hscope => (redeclarations_eq_nil_iff.mp (hscopes scope hscope)).1
      inheritance := fun path name id superName hsite => hsites _ hsite }
  · intro h
    refine ⟨?_, fun scope hscope =>
      redeclarations_eq_nil_iff.mpr ⟨h.scopes scope hscope, by simp⟩⟩
    rintro ⟨path, site⟩ hsite
    cases site with
    | returned keyword hasValue =>
        refine ⟨h.returns path keyword hasValue hsite, ?_⟩
        rintro rfl
        exact h.initializers path keyword hsite
    | broken keyword => exact h.breaks path keyword hsite
    | receiver keyword => exact h.receivers path keyword hsite
    | inherited keyword => exact h.inherited path keyword hsite
    | initialized name value => exact trivial
    | classHead name superclass =>
        cases superclass with
        | none => exact trivial
        | some superclass =>
            cases superclass with
            | «variable» id superName => exact h.inheritance path name id superName hsite
            | _ => exact trivial

end ScopeScript
