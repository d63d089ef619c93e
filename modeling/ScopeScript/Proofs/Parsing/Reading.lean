import ScopeScript.Syntax.Program

/-!
# Which tree a list of tokens is read into

For each part of the grammar a relation says which tokens are read into which tree, and how node
numbers are drawn on the way. It describes readings in which nothing is noted: it has no cursor, no
bound on the nesting and no recovery.
-/

namespace ScopeScript

/-- The constant that a kind of token stands for. -/
def Kind.constant? : Kind → Option Literal
  | .keyword .falseKw => some (.bool false)
  | .keyword .trueKw => some (.bool true)
  | .keyword .nilKw => some .nil
  | .number value => some (.number value)
  | .string text => some (.string text)
  | _ => none

/-- The parts of the grammar that are read into trees. -/
inductive Part where
  | expression
  | binary (levels : List Level)
  | unary
  | call
  | primary
  /-- One or more arguments. -/
  | arguments
  /-- The arguments of a call. -/
  | argumentList
  /-- An expression that may be missing. -/
  | optionalExpression
  /-- The initializer of a variable, which may be missing. -/
  | initializer
  /-- What follows `var`. -/
  | varRest
  /-- What follows `let`. -/
  | letRest
  | expressionStatement
  /-- The first clause of a `for` loop with its semicolon. -/
  | forInitializer
  | statement
  /-- What follows an opening brace. -/
  | blockRest
  /-- One or more parameters. -/
  | parameters
  /-- The parameters of a function. -/
  | parameterList
  | function
  | methods
  /-- The superclass that a class names, if it names one. -/
  | superclass
  | declaration
  | declarations

/-- What a part of the grammar is read into. -/
@[reducible] def Part.Tree : Part → Type
  | expression | binary _ | unary | call | primary => Expr
  | arguments | argumentList => List Expr
  | optionalExpression | initializer | superclass => Option Expr
  | varRest | letRest | expressionStatement | statement | declaration => Stmt
  | forInitializer => Option Stmt
  | blockRest | declarations => List Stmt
  | parameters | parameterList => List Token
  | function => FunctionDecl Stmt
  | methods => List (FunctionDecl Stmt)

/-- Tokens, with the first unused node number before them, are read into a tree and leave a first
unused node number. -/
inductive Reads : (part : Part) → List Token → NodeId → part.Tree → NodeId → Prop
  -- Expressions.
  | loosest {ts : List Token} {i j : NodeId} {e : Expr} :
      Reads (.binary Level.all) ts i e j → Reads .expression ts i e j
  | assign {target value : List Token} {equals name : Token} {i k j id : NodeId} {e : Expr} :
      Reads (.binary Level.all) target i (.variable id name) k → equals.tag = .punct .equal →
      Reads .expression value k e j →
      Reads .expression (target ++ equals :: value) i (.assign j name e) (j + 1)
  | set {target value : List Token} {equals name : Token} {i k j : NodeId} {object e : Expr} :
      Reads (.binary Level.all) target i (.get object name) k → equals.tag = .punct .equal →
      Reads .expression value k e j →
      Reads .expression (target ++ equals :: value) i (.set object name e) j
  | operand {ts : List Token} {i j : NodeId} {e : Expr} :
      Reads .unary ts i e j → Reads (.binary []) ts i e j
  | tighter {ts : List Token} {i j : NodeId} {e : Expr} {level : Level} {levels : List Level} :
      Reads (.binary levels) ts i e j → Reads (.binary (level :: levels)) ts i e j
  | operation {first second : List Token} {operator : Token} {i k j : NodeId} {left right : Expr}
      {level : Level} {levels : List Level} :
      Reads (.binary (level :: levels)) first i left k → operator.tag ∈ level.operators →
      Reads (.binary levels) second k right j →
      Reads (.binary (level :: levels)) (first ++ operator :: second) i
        (level.node left operator right) j
  | unary {ts : List Token} {operator : Token} {i j : NodeId} {e : Expr} :
      operator.tag ∈ [Tag.punct .bang, .punct .minus] → Reads .unary ts i e j →
      Reads .unary (operator :: ts) i (.unary operator e) j
  | noUnary {ts : List Token} {i j : NodeId} {e : Expr} :
      Reads .call ts i e j → Reads .unary ts i e j
  | callee {ts : List Token} {i j : NodeId} {e : Expr} :
      Reads .primary ts i e j → Reads .call ts i e j
  | call {ts inside : List Token} {opening closing : Token} {i k j : NodeId} {e : Expr}
      {arguments : List Expr} :
      Reads .call ts i e k → opening.tag = .punct .leftParen →
      Reads .argumentList inside k arguments j → closing.tag = .punct .rightParen →
      Reads .call (ts ++ opening :: (inside ++ [closing])) i (.call e closing arguments) j
  | get {ts : List Token} {dot name : Token} {i j : NodeId} {e : Expr} :
      Reads .call ts i e j → dot.tag = .punct .dot → name.tag = .identifier →
      Reads .call (ts ++ [dot, name]) i (.get e name) j
  | lastArgument {ts : List Token} {i j : NodeId} {e : Expr} :
      Reads .expression ts i e j → Reads .arguments ts i [e] j
  | moreArguments {first others : List Token} {comma : Token} {i k j : NodeId} {e : Expr}
      {rest : List Expr} :
      Reads .expression first i e k → comma.tag = .punct .comma →
      Reads .arguments others k rest j →
      Reads .arguments (first ++ comma :: others) i (e :: rest) j
  | noArguments {i : NodeId} : Reads .argumentList [] i [] i
  | someArguments {ts : List Token} {i j : NodeId} {arguments : List Expr} :
      Reads .arguments ts i arguments j → arguments.length ≤ maxArguments →
      Reads .argumentList ts i arguments j
  | literal {t : Token} {i : NodeId} {value : Literal} :
      t.kind.constant? = some value → Reads .primary [t] i (.literal value) i
  | thisExpr {t : Token} {i : NodeId} :
      t.tag = .keyword .thisKw → Reads .primary [t] i (.thisExpr i t) (i + 1)
  | variable {t : Token} {i : NodeId} :
      t.tag = .identifier → Reads .primary [t] i (.variable i t) (i + 1)
  | superExpr {keyword dot method : Token} {i : NodeId} :
      keyword.tag = .keyword .superKw → dot.tag = .punct .dot → method.tag = .identifier →
      Reads .primary [keyword, dot, method] i (.superExpr i keyword method) (i + 1)
  | grouping {inside : List Token} {opening closing : Token} {i j : NodeId} {e : Expr} :
      opening.tag = .punct .leftParen → Reads .expression inside i e j →
      closing.tag = .punct .rightParen →
      Reads .primary (opening :: (inside ++ [closing])) i (.grouping e) j
  | noExpression {i : NodeId} : Reads .optionalExpression [] i none i
  | someExpression {ts : List Token} {i j : NodeId} {e : Expr} :
      Reads .expression ts i e j → Reads .optionalExpression ts i (some e) j
  -- Statements.
  | uninitialized {i : NodeId} : Reads .initializer [] i none i
  | initialized {ts : List Token} {equals : Token} {i j : NodeId} {e : Expr} :
      equals.tag = .punct .equal → Reads .expression ts i e j →
      Reads .initializer (equals :: ts) i (some e) j
  | varRest {ts : List Token} {name semicolon : Token} {i j : NodeId} {e : Option Expr} :
      name.tag = .identifier → Reads .initializer ts i e j → semicolon.tag = .punct .semicolon →
      Reads .varRest (name :: (ts ++ [semicolon])) i (.varDecl name e) j
  | letRest {ts : List Token} {name equals semicolon : Token} {i j : NodeId} {e : Expr} :
      name.tag = .identifier → equals.tag = .punct .equal → Reads .expression ts i e j →
      semicolon.tag = .punct .semicolon →
      Reads .letRest (name :: equals :: (ts ++ [semicolon])) i (.letDecl name e) j
  | expressionStatement {ts : List Token} {semicolon : Token} {i j : NodeId} {e : Expr} :
      Reads .expression ts i e j → semicolon.tag = .punct .semicolon →
      Reads .expressionStatement (ts ++ [semicolon]) i (.expression e) j
  | noInitializer {semicolon : Token} {i : NodeId} :
      semicolon.tag = .punct .semicolon → Reads .forInitializer [semicolon] i none i
  | varInitializer {ts : List Token} {keyword : Token} {i j : NodeId} {s : Stmt} :
      keyword.tag = .keyword .varKw → Reads .varRest ts i s j →
      Reads .forInitializer (keyword :: ts) i (some s) j
  | letInitializer {ts : List Token} {keyword : Token} {i j : NodeId} {s : Stmt} :
      keyword.tag = .keyword .letKw → Reads .letRest ts i s j →
      Reads .forInitializer (keyword :: ts) i (some s) j
  | expressionInitializer {ts : List Token} {i j : NodeId} {s : Stmt} :
      Reads .expressionStatement ts i s j → Reads .forInitializer ts i (some s) j
  | forLoop {first second third body : List Token}
      {keyword opening semicolon closing : Token} {i k l m j : NodeId}
      {initializer : Option Stmt} {condition increment : Option Expr} {s : Stmt} :
      keyword.tag = .keyword .forKw → opening.tag = .punct .leftParen →
      Reads .forInitializer first i initializer k →
      Reads .optionalExpression second k condition l → semicolon.tag = .punct .semicolon →
      Reads .optionalExpression third l increment m → closing.tag = .punct .rightParen →
      Reads .statement body m s j →
      Reads .statement
        (keyword :: opening :: (first ++ (second ++ semicolon :: (third ++ closing :: body)))) i
        (ForClauses.loop ⟨initializer, condition, increment⟩ s) j
  | ifThen {test body : List Token} {keyword opening closing : Token} {i k j : NodeId} {e : Expr}
      {s : Stmt} :
      keyword.tag = .keyword .ifKw → opening.tag = .punct .leftParen →
      Reads .expression test i e k → closing.tag = .punct .rightParen →
      Reads .statement body k s j →
      Reads .statement (keyword :: opening :: (test ++ closing :: body)) i (.ifElse e s none) j
  | ifElse {test yes no : List Token} {keyword opening closing otherwise : Token}
      {i k l j : NodeId} {e : Expr} {s s' : Stmt} :
      keyword.tag = .keyword .ifKw → opening.tag = .punct .leftParen →
      Reads .expression test i e k → closing.tag = .punct .rightParen →
      Reads .statement yes k s l → otherwise.tag = .keyword .elseKw →
      Reads .statement no l s' j →
      Reads .statement (keyword :: opening :: (test ++ closing :: (yes ++ otherwise :: no))) i
        (.ifElse e s (some s')) j
  | whileLoop {test body : List Token} {keyword opening closing : Token} {i k j : NodeId}
      {e : Expr} {s : Stmt} :
      keyword.tag = .keyword .whileKw → opening.tag = .punct .leftParen →
      Reads .expression test i e k → closing.tag = .punct .rightParen →
      Reads .statement body k s j →
      Reads .statement (keyword :: opening :: (test ++ closing :: body)) i (.whileLoop e s) j
  | returnStmt {ts : List Token} {keyword semicolon : Token} {i j : NodeId} {e : Option Expr} :
      keyword.tag = .keyword .returnKw → Reads .optionalExpression ts i e j →
      semicolon.tag = .punct .semicolon →
      Reads .statement (keyword :: (ts ++ [semicolon])) i (.returnStmt keyword e) j
  | breakStmt {keyword semicolon : Token} {i : NodeId} :
      keyword.tag = .keyword .breakKw → semicolon.tag = .punct .semicolon →
      Reads .statement [keyword, semicolon] i (.breakStmt keyword) i
  | block {ts : List Token} {opening : Token} {i j : NodeId} {body : List Stmt} :
      opening.tag = .punct .leftBrace → Reads .blockRest ts i body j →
      Reads .statement (opening :: ts) i (.block body) j
  | print {ts : List Token} {keyword semicolon : Token} {i j : NodeId} {e : Expr} :
      keyword.tag = .keyword .printKw → Reads .expression ts i e j →
      semicolon.tag = .punct .semicolon →
      Reads .statement (keyword :: (ts ++ [semicolon])) i (.print e) j
  | expression {ts : List Token} {i j : NodeId} {s : Stmt} :
      Reads .expressionStatement ts i s j → Reads .statement ts i s j
  | blockRest {ts : List Token} {closing : Token} {i j : NodeId} {body : List Stmt} :
      Reads .declarations ts i body j → closing.tag = .punct .rightBrace →
      Reads .blockRest (ts ++ [closing]) i body j
  -- Declarations.
  | lastParameter {name : Token} {i : NodeId} :
      name.tag = .identifier → Reads .parameters [name] i [name] i
  | moreParameters {ts rest : List Token} {name comma : Token} {i j : NodeId} :
      name.tag = .identifier → comma.tag = .punct .comma → Reads .parameters ts i rest j →
      Reads .parameters (name :: comma :: ts) i (name :: rest) j
  | noParameters {i : NodeId} : Reads .parameterList [] i [] i
  | someParameters {ts : List Token} {i j : NodeId} {params : List Token} :
      Reads .parameters ts i params j → params.length ≤ maxArguments →
      Reads .parameterList ts i params j
  | function {inside ts : List Token} {name opening closing brace : Token} {i k j : NodeId}
      {params : List Token} {body : List Stmt} :
      name.tag = .identifier → opening.tag = .punct .leftParen →
      Reads .parameterList inside i params k → closing.tag = .punct .rightParen →
      brace.tag = .punct .leftBrace → Reads .blockRest ts k body j →
      Reads .function (name :: opening :: (inside ++ closing :: brace :: ts)) i
        ⟨name, params, body⟩ j
  | noMethods {i : NodeId} : Reads .methods [] i [] i
  | methods {first others : List Token} {i k j : NodeId} {method : FunctionDecl Stmt}
      {rest : List (FunctionDecl Stmt)} :
      Reads .function first i method k → Reads .methods others k rest j →
      Reads .methods (first ++ others) i (method :: rest) j
  | noSuperclass {i : NodeId} : Reads .superclass [] i none i
  | superclass {less name : Token} {i : NodeId} :
      less.tag = .punct .less → name.tag = .identifier →
      Reads .superclass [less, name] i (some (.variable i name)) (i + 1)
  | classDecl {parent body : List Token} {keyword name opening closing : Token} {i k j : NodeId}
      {superclass : Option Expr} {methods : List (FunctionDecl Stmt)} :
      keyword.tag = .keyword .classKw → name.tag = .identifier →
      Reads .superclass parent i superclass k → opening.tag = .punct .leftBrace →
      Reads .methods body k methods j → closing.tag = .punct .rightBrace →
      Reads .declaration (keyword :: name :: (parent ++ opening :: (body ++ [closing]))) i
        (.classDecl name superclass methods) j
  | functionDecl {ts : List Token} {keyword : Token} {i j : NodeId}
      {declaration : FunctionDecl Stmt} :
      keyword.tag = .keyword .funKw → Reads .function ts i declaration j →
      Reads .declaration (keyword :: ts) i (.function declaration) j
  | varDecl {ts : List Token} {keyword : Token} {i j : NodeId} {s : Stmt} :
      keyword.tag = .keyword .varKw → Reads .varRest ts i s j →
      Reads .declaration (keyword :: ts) i s j
  | letDecl {ts : List Token} {keyword : Token} {i j : NodeId} {s : Stmt} :
      keyword.tag = .keyword .letKw → Reads .letRest ts i s j →
      Reads .declaration (keyword :: ts) i s j
  | statement {ts : List Token} {i j : NodeId} {s : Stmt} :
      Reads .statement ts i s j → Reads .declaration ts i s j
  | noDeclarations {i : NodeId} : Reads .declarations [] i [] i
  | declarations {first others : List Token} {i k j : NodeId} {s : Stmt} {rest : List Stmt} :
      Reads .declaration first i s k → Reads .declarations others k rest j →
      Reads .declarations (first ++ others) i (s :: rest) j

theorem Kind.constant?_tag {kind : Kind} {value : Literal} (h : kind.constant? = some value) :
    kind.tag ≠ .eof := by
  cases kind with
  | eof => cases h
  | _ => nofun

theorem Level.operators_noEnd (level : Level) : ∀ tag ∈ level.operators, tag ≠ .eof := by
  cases level <;> decide

/-- No end token is read into anything. -/
theorem Reads.noEnd {part : Part} {ts : List Token} {i j : NodeId} {tree : part.Tree}
    (h : Reads part ts i tree j) : ∀ t ∈ ts, t.tag ≠ .eof := by
  induction h with
  | literal hconstant => exact List.forall_mem_singleton.mpr (Kind.constant?_tag hconstant)
  | operation _ hoperator _ ihLeft ihRight =>
      have htag := Level.operators_noEnd _ _ hoperator
      simp_all [or_imp]
  | unary hoperator _ ih =>
      have htag : ∀ tag ∈ [Tag.punct .bang, .punct .minus], tag ≠ .eof := by decide
      exact List.forall_mem_cons.mpr ⟨htag _ hoperator, ih⟩
  | _ => simp_all [or_imp]

end ScopeScript
