import ScopeScript.Syntax.Reference

/-!
# Static contexts

A context lists the scopes around a place in a program, the innermost first, each with the names
that are declared there so far. It says for each name how many scopes outward its binding is. The
outermost scope is left out: a name that a context does not have is global.

A program is well scoped if every node that refers to a name is recorded with the distance that the
context at the node gives, and no local scope declares a name twice. What "recorded" means is left
open here, so that a program stays well scoped while records of other programs are added.
-/

namespace ScopeScript

/-- The numbers of the references of an expression. -/
def Expr.ids (e : Expr) : List NodeId :=
  e.references.map Reference.id

/-- The numbers of the references of expressions. -/
def Expr.idsAll (list : List Expr) : List NodeId :=
  (Expr.referencesAll list).map Reference.id

/-- The numbers of the references of an expression, if there is one. -/
def Expr.idsOption (e : Option Expr) : List NodeId :=
  (Expr.referencesOption e).map Reference.id

/-- The numbers of the references of a statement. -/
def Stmt.ids (s : Stmt) : List NodeId :=
  s.references.map Reference.id

/-- The numbers of the references of statements. -/
def Stmt.idsAll (list : List Stmt) : List NodeId :=
  (Stmt.referencesAll list).map Reference.id

/-- The numbers of the references of a function. -/
def FunctionDecl.ids (declaration : FunctionDecl Stmt) : List NodeId :=
  (FunctionDecl.references declaration).map Reference.id

/-- The numbers of the references of methods. -/
def FunctionDecl.idsAll (methods : List (FunctionDecl Stmt)) : List NodeId :=
  (FunctionDecl.referencesAll methods).map Reference.id

theorem Expr.ids_binary (left : Expr) (operator : Token) (right : Expr) :
    (Expr.binary left operator right).ids = left.ids ++ right.ids := by
  simp [Expr.ids, Expr.references]

theorem Expr.ids_logical (left : Expr) (operator : Token) (right : Expr) :
    (Expr.logical left operator right).ids = left.ids ++ right.ids := by
  simp [Expr.ids, Expr.references]

theorem Expr.ids_call (callee : Expr) (paren : Token) (arguments : List Expr) :
    (Expr.call callee paren arguments).ids = callee.ids ++ Expr.idsAll arguments := by
  simp [Expr.ids, Expr.idsAll, Expr.references]

theorem Expr.ids_set (object : Expr) (name : Token) (value : Expr) :
    (Expr.set object name value).ids = object.ids ++ value.ids := by
  simp [Expr.ids, Expr.references]

theorem Expr.idsAll_cons (e : Expr) (rest : List Expr) :
    Expr.idsAll (e :: rest) = e.ids ++ Expr.idsAll rest := by
  simp [Expr.ids, Expr.idsAll, Expr.referencesAll]

theorem Stmt.ids_ifThen (condition : Expr) (thenBranch : Stmt) :
    (Stmt.ifElse condition thenBranch none).ids = condition.ids ++ thenBranch.ids := by
  simp [Stmt.ids, Expr.ids, Stmt.references]

theorem Stmt.ids_ifElse (condition : Expr) (thenBranch elseBranch : Stmt) :
    (Stmt.ifElse condition thenBranch (some elseBranch)).ids =
      condition.ids ++ (thenBranch.ids ++ elseBranch.ids) := by
  simp [Stmt.ids, Expr.ids, Stmt.references]

theorem Stmt.ids_whileLoop (condition : Expr) (body : Stmt) :
    (Stmt.whileLoop condition body).ids = condition.ids ++ body.ids := by
  simp [Stmt.ids, Expr.ids, Stmt.references]

theorem Stmt.ids_classDecl (name : Token) (superclass : Option Expr)
    (methods : List (FunctionDecl Stmt)) :
    (Stmt.classDecl name superclass methods).ids =
      Expr.idsOption superclass ++ FunctionDecl.idsAll methods := by
  simp [Stmt.ids, Expr.idsOption, FunctionDecl.idsAll, Stmt.references]

theorem Stmt.idsAll_cons (s : Stmt) (rest : List Stmt) :
    Stmt.idsAll (s :: rest) = s.ids ++ Stmt.idsAll rest := by
  simp [Stmt.ids, Stmt.idsAll, Stmt.referencesAll]

theorem FunctionDecl.idsAll_cons (method : FunctionDecl Stmt) (rest : List (FunctionDecl Stmt)) :
    FunctionDecl.idsAll (method :: rest) = method.ids ++ FunctionDecl.idsAll rest := by
  simp [FunctionDecl.ids, FunctionDecl.idsAll, FunctionDecl.referencesAll]

mutual
/-- The numbers of the references of a statement, without those in methods of classes that it
declares: what is left belongs to the same method as the statement. -/
def Stmt.ownIds : Stmt → List NodeId
  | .expression value | .print value => value.ids
  | .varDecl _ initializer => Expr.idsOption initializer
  | .letDecl _ initializer => initializer.ids
  | .block body => Stmt.ownIdsAll body
  | .ifElse condition thenBranch none => condition.ids ++ thenBranch.ownIds
  | .ifElse condition thenBranch (some elseBranch) =>
    condition.ids ++ (thenBranch.ownIds ++ elseBranch.ownIds)
  | .whileLoop condition body => condition.ids ++ body.ownIds
  | .function declaration => FunctionDecl.ownIds declaration
  | .returnStmt _ value => Expr.idsOption value
  | .breakStmt _ => []
  | .classDecl _ superclass _ => Expr.idsOption superclass

/-- The numbers of the references of statements that belong to the same method as these. -/
def Stmt.ownIdsAll : List Stmt → List NodeId
  | [] => []
  | s :: rest => s.ownIds ++ Stmt.ownIdsAll rest

/-- The numbers of the references of a function that belong to the same method as the function, or
to the method that it is. -/
def FunctionDecl.ownIds : FunctionDecl Stmt → List NodeId
  | ⟨_, _, body⟩ => Stmt.ownIdsAll body
end

/-- What a scope binds. -/
inductive Layer where
  /-- The names of a block, or of a function with its parameters. -/
  | names (list : List String)
  /-- The receiver of a method. -/
  | receiver (method : FunctionDecl Stmt)
  /-- The superclass of a class. -/
  | inherited

/-- The names that a scope binds. -/
def Layer.bound : Layer → List String
  | .names list => list
  | .receiver _ => ["this"]
  | .inherited => ["super"]

/-- The scopes around a place, the innermost first. -/
abbrev Context := List Layer

namespace Context

/-- How many scopes outward a name is bound. -/
def hops? (name : String) : Context → Option Nat
  | [] => none
  | layer :: outer => if name ∈ layer.bound then some 0 else (hops? name outer).map (· + 1)

theorem hops?_of_mem {layer : Layer} {outer : Context} {name : String} (h : name ∈ layer.bound) :
    hops? name (layer :: outer) = some 0 := by
  rw [hops?, if_pos h]

theorem hops?_of_not_mem {layer : Layer} {outer : Context} {name : String}
    (h : name ∉ layer.bound) : hops? name (layer :: outer) = (hops? name outer).map (· + 1) := by
  rw [hops?, if_neg h]

theorem hops?_congr {list list' : List String} {outer : Context} {name : String}
    (h : name ∈ list ↔ name ∈ list') :
    hops? name (.names list :: outer) = hops? name (.names list' :: outer) := by
  by_cases hmem : name ∈ list
  · rw [hops?_of_mem hmem, hops?_of_mem (h.mp hmem)]
  · rw [hops?_of_not_mem hmem, hops?_of_not_mem fun hmem' => hmem (h.mpr hmem')]

/-- The context behind the declaration of a name. -/
def declare (context : Context) (name : String) : Context :=
  match context with
  | .names list :: outer => .names (name :: list) :: outer
  | other => other

/-- Declarations are possible: the innermost scope is that of a block or function, or global. -/
def Open : Context → Prop
  | [] => True
  | .names _ :: _ => True
  | _ => False

/-- A name may be declared: it is global, or new in its scope. -/
def Fresh (context : Context) (name : String) : Prop :=
  match context with
  | [] => True
  | .names list :: _ => name ∉ list
  | _ => False

/-- The context around the methods of a class. -/
def ofClass (context : Context) (derived : Bool) : Context :=
  if derived then .inherited :: context else context

/-- The innermost method around a place. -/
def method? : Context → Option (FunctionDecl Stmt)
  | [] => none
  | .receiver method :: _ => some method
  | _ :: outer => method? outer

/-- A node belongs to the innermost method around it. -/
def Owns (context : Context) (id : NodeId) : Prop :=
  ∃ method, context.method? = some method ∧ id ∈ FunctionDecl.ownIds method

end Context

/-- A name that a program may give to something. -/
def Token.Plain (name : Token) : Prop :=
  name.lexeme ≠ "this" ∧ name.lexeme ≠ "super"

/-- The name that a statement declares in the scope it stands in. -/
def Stmt.declared? : Stmt → Option Token
  | .varDecl name _ | .letDecl name _ | .classDecl name _ _ => some name
  | .function declaration => some declaration.name
  | _ => none

/-- The context behind a statement. -/
def Stmt.after (context : Context) (stmt : Stmt) : Context :=
  match stmt.declared? with
  | some name => context.declare name.lexeme
  | none => context

section Scoped

-- `points id distance`: the node is recorded with a distance, or as global.
variable (points : NodeId → Option Nat → Prop)

mutual
/-- The references of an expression are recorded as its context says. -/
def Expr.Scoped (context : Context) : Expr → Prop
  | .literal _ => True
  | .unary _ right => right.Scoped context
  | .binary left _ right | .logical left _ right => left.Scoped context ∧ right.Scoped context
  | .grouping inner => inner.Scoped context
  | .variable id name => name.Plain ∧ points id (context.hops? name.lexeme)
  | .assign id name value =>
    name.Plain ∧ points id (context.hops? name.lexeme) ∧ value.Scoped context
  | .call callee _ arguments => callee.Scoped context ∧ Expr.ScopedAll context arguments
  | .get object _ => object.Scoped context
  | .set object _ value => object.Scoped context ∧ value.Scoped context
  | .superExpr id keyword _ =>
    keyword.lexeme = "super" ∧ context.Owns id ∧ ∃ distance, context.hops? "this" = some distance
      ∧ context.hops? "super" = some (distance + 1) ∧ points id (some (distance + 1))
  | .thisExpr id keyword =>
    keyword.lexeme = "this" ∧ context.Owns id ∧ ∃ distance, context.hops? "this" = some distance
      ∧ points id (some distance)

/-- The references of expressions are recorded as their context says. -/
def Expr.ScopedAll (context : Context) : List Expr → Prop
  | [] => True
  | e :: rest => e.Scoped context ∧ Expr.ScopedAll context rest
end

/-- The references of an expression, if there is one, are recorded as its context says. -/
def Expr.ScopedOption (context : Context) : Option Expr → Prop
  | none => True
  | some e => e.Scoped points context

mutual
/-- A statement is well scoped in a context. -/
def Stmt.Scoped (context : Context) : Stmt → Prop
  | .expression value | .print value => value.Scoped points context
  | .varDecl name initializer =>
    name.Plain ∧ context.Fresh name.lexeme ∧ Expr.ScopedOption points context initializer
  | .letDecl name initializer =>
    name.Plain ∧ context.Fresh name.lexeme ∧ initializer.Scoped points context
  | .block body => Stmt.ScopedAll (.names [] :: context) body
  | .ifElse condition thenBranch none =>
    condition.Scoped points context ∧ thenBranch.declared? = none ∧ thenBranch.Scoped context
  | .ifElse condition thenBranch (some elseBranch) =>
    condition.Scoped points context ∧ thenBranch.declared? = none ∧ thenBranch.Scoped context
      ∧ elseBranch.declared? = none ∧ elseBranch.Scoped context
  | .whileLoop condition body =>
    condition.Scoped points context ∧ body.declared? = none ∧ body.Scoped context
  | .function declaration =>
    declaration.name.Plain ∧ context.Fresh declaration.name.lexeme
      ∧ FunctionDecl.Scoped (context.declare declaration.name.lexeme) declaration
  | .returnStmt _ value => Expr.ScopedOption points context value
  | .breakStmt _ => True
  | .classDecl name superclass methods =>
    name.Plain ∧ context.Fresh name.lexeme ∧ Expr.ScopedOption points context superclass
      ∧ FunctionDecl.ScopedAll ((context.declare name.lexeme).ofClass superclass.isSome) methods

/-- Statements are well scoped one after another. -/
def Stmt.ScopedAll (context : Context) : List Stmt → Prop
  | [] => True
  | s :: rest => s.Scoped context ∧ Stmt.ScopedAll (s.after context) rest

/-- A function or method is well scoped. Its parameters and its body share a scope. -/
def FunctionDecl.Scoped (context : Context) : FunctionDecl Stmt → Prop
  | ⟨_, params, body⟩ =>
    (params.map Token.lexeme).Nodup ∧ (∀ param ∈ params, param.Plain)
      ∧ Stmt.ScopedAll (.names (params.map Token.lexeme) :: context) body

/-- Methods are well scoped. -/
def FunctionDecl.ScopedAll (context : Context) : List (FunctionDecl Stmt) → Prop
  | [] => True
  | method :: rest =>
    FunctionDecl.Scoped (.receiver method :: context) method ∧ FunctionDecl.ScopedAll context rest
end

end Scoped

theorem FunctionDecl.scoped_iff {points : NodeId → Option Nat → Prop} {context : Context}
    {declaration : FunctionDecl Stmt} :
    FunctionDecl.Scoped points context declaration ↔
      (declaration.params.map Token.lexeme).Nodup ∧ (∀ param ∈ declaration.params, param.Plain)
        ∧ Stmt.ScopedAll points (.names (declaration.params.map Token.lexeme) :: context)
          declaration.body := by
  cases declaration
  exact Iff.rfl

section Mono

variable {points points' : NodeId → Option Nat → Prop}

mutual
theorem Expr.scoped_mono (hpoints : ∀ id distance, points id distance → points' id distance)
    {context : Context} : ∀ e : Expr, e.Scoped points context → e.Scoped points' context
  | .literal _, _ => trivial
  | .unary _ right, h => right.scoped_mono hpoints h
  | .binary left _ right, h => ⟨left.scoped_mono hpoints h.1, right.scoped_mono hpoints h.2⟩
  | .logical left _ right, h => ⟨left.scoped_mono hpoints h.1, right.scoped_mono hpoints h.2⟩
  | .grouping inner, h => inner.scoped_mono hpoints h
  | .variable .., h => ⟨h.1, hpoints _ _ h.2⟩
  | .assign _ _ value, h => ⟨h.1, hpoints _ _ h.2.1, value.scoped_mono hpoints h.2.2⟩
  | .call callee _ arguments, h =>
      ⟨callee.scoped_mono hpoints h.1, Expr.scopedAll_mono hpoints arguments h.2⟩
  | .get object _, h => object.scoped_mono hpoints h
  | .set object _ value, h => ⟨object.scoped_mono hpoints h.1, value.scoped_mono hpoints h.2⟩
  | .superExpr .., ⟨hkeyword, howns, distance, hthis, hsuper, hpoint⟩ =>
      ⟨hkeyword, howns, distance, hthis, hsuper, hpoints _ _ hpoint⟩
  | .thisExpr .., ⟨hkeyword, howns, distance, hthis, hpoint⟩ =>
      ⟨hkeyword, howns, distance, hthis, hpoints _ _ hpoint⟩

theorem Expr.scopedAll_mono (hpoints : ∀ id distance, points id distance → points' id distance)
    {context : Context} : ∀ list : List Expr,
    Expr.ScopedAll points context list → Expr.ScopedAll points' context list
  | [], _ => trivial
  | e :: rest, h => ⟨e.scoped_mono hpoints h.1, Expr.scopedAll_mono hpoints rest h.2⟩
end

theorem Expr.scopedOption_mono (hpoints : ∀ id distance, points id distance → points' id distance)
    {context : Context} {e : Option Expr} (h : Expr.ScopedOption points context e) :
    Expr.ScopedOption points' context e := by
  cases e with
  | none => trivial
  | some e => exact e.scoped_mono hpoints h

mutual
theorem Stmt.scoped_mono (hpoints : ∀ id distance, points id distance → points' id distance) :
    ∀ (context : Context) (s : Stmt), s.Scoped points context → s.Scoped points' context
  | _, .expression value, h => value.scoped_mono hpoints h
  | _, .print value, h => value.scoped_mono hpoints h
  | _, .varDecl .., h => ⟨h.1, h.2.1, Expr.scopedOption_mono hpoints h.2.2⟩
  | _, .letDecl _ initializer, h => ⟨h.1, h.2.1, initializer.scoped_mono hpoints h.2.2⟩
  | _, .block body, h => Stmt.scopedAll_mono hpoints _ body h
  | context, .ifElse condition thenBranch none, h =>
      ⟨condition.scoped_mono hpoints h.1, h.2.1, thenBranch.scoped_mono hpoints context h.2.2⟩
  | context, .ifElse condition thenBranch (some elseBranch), h =>
      ⟨condition.scoped_mono hpoints h.1, h.2.1, thenBranch.scoped_mono hpoints context h.2.2.1,
        h.2.2.2.1, elseBranch.scoped_mono hpoints context h.2.2.2.2⟩
  | context, .whileLoop condition body, h =>
      ⟨condition.scoped_mono hpoints h.1, h.2.1, body.scoped_mono hpoints context h.2.2⟩
  | _, .function declaration, h =>
      ⟨h.1, h.2.1, FunctionDecl.scoped_mono hpoints _ declaration h.2.2⟩
  | _, .returnStmt .., h => Expr.scopedOption_mono hpoints h
  | _, .breakStmt _, _ => trivial
  | _, .classDecl _ _ methods, h =>
      ⟨h.1, h.2.1, Expr.scopedOption_mono hpoints h.2.2.1,
        FunctionDecl.scopedAll_mono hpoints _ methods h.2.2.2⟩

theorem Stmt.scopedAll_mono (hpoints : ∀ id distance, points id distance → points' id distance) :
    ∀ (context : Context) (list : List Stmt),
      Stmt.ScopedAll points context list → Stmt.ScopedAll points' context list
  | _, [], _ => trivial
  | context, s :: rest, h =>
      ⟨s.scoped_mono hpoints context h.1, Stmt.scopedAll_mono hpoints _ rest h.2⟩

theorem FunctionDecl.scoped_mono
    (hpoints : ∀ id distance, points id distance → points' id distance) :
    ∀ (context : Context) (declaration : FunctionDecl Stmt),
      FunctionDecl.Scoped points context declaration →
      FunctionDecl.Scoped points' context declaration
  | _, ⟨_, _, body⟩, h => ⟨h.1, h.2.1, Stmt.scopedAll_mono hpoints _ body h.2.2⟩

theorem FunctionDecl.scopedAll_mono
    (hpoints : ∀ id distance, points id distance → points' id distance) :
    ∀ (context : Context) (methods : List (FunctionDecl Stmt)),
      FunctionDecl.ScopedAll points context methods →
      FunctionDecl.ScopedAll points' context methods
  | _, [], _ => trivial
  | context, method :: rest, h =>
      ⟨FunctionDecl.scoped_mono hpoints _ method h.1,
        FunctionDecl.scopedAll_mono hpoints context rest h.2⟩
end

end Mono

end ScopeScript
