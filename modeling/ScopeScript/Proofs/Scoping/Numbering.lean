import Mathlib.Data.List.Nodup
import ScopeScript.Proofs.Parsing.Reading
import ScopeScript.Proofs.Scoping.Context

/-!
# Node numbers and names of programs that were read

Reading gives every node that refers to a binding a number of its own, between the first unused
number before and after. The names in the tree are those of the tokens, so where tokens are spelled
as their kind says, nothing is named `this` or `super`. Bodies of branches and loops declare nothing
in the scope around them, and a superclass is always a name.
-/

namespace ScopeScript

/-- Numbers that come once each and lie from `first` on and before `next`. -/
structure Numbered (ids : List Nat) (first next : Nat) : Prop where
  nodup : ids.Nodup
  bounds : ∀ id ∈ ids, first ≤ id ∧ id < next
  le : first ≤ next

namespace Numbered

variable {a b : List Nat} {i j k : Nat}

theorem nil (i : Nat) : Numbered [] i i :=
  ⟨List.nodup_nil, by simp, Nat.le_refl i⟩

theorem one (i : Nat) : Numbered [i] i (i + 1) :=
  ⟨List.nodup_singleton i, by simp, Nat.le_succ i⟩

theorem append (ha : Numbered a i k) (hb : Numbered b k j) : Numbered (a ++ b) i j := by
  have hle := ha.le
  have hle' := hb.le
  refine ⟨List.nodup_append.mpr ⟨ha.nodup, hb.nodup, ?_⟩, ?_, by omega⟩
  · intro x hx y hy
    have hxbound := ha.bounds x hx
    have hybound := hb.bounds y hy
    omega
  · intro id hid
    rcases List.mem_append.mp hid with hid | hid
    · have hbound := ha.bounds id hid
      omega
    · have hbound := hb.bounds id hid
      omega

/-- Numbers need not stand in the tree in the order in which they were given out. -/
theorem append_comm (hb : Numbered b i k) (ha : Numbered a k j) : Numbered (a ++ b) i j := by
  obtain ⟨hnodup, hbounds, hle⟩ := hb.append ha
  refine ⟨List.nodup_append_comm.mp hnodup, ?_, hle⟩
  intro id hid
  exact hbounds id (List.mem_append.mpr (List.mem_append.mp hid).symm)

/-- Numbers that do not occur in the tree may be left out at the front. -/
theorem widen (ha : Numbered a k j) (hle : i ≤ k) : Numbered a i j :=
  ⟨ha.nodup, fun id hid => ⟨Nat.le_trans hle (ha.bounds id hid).1, (ha.bounds id hid).2⟩,
    Nat.le_trans hle ha.le⟩

end Numbered

/-- The numbers in what a part of the grammar is read into. -/
def Part.ids : (part : Part) → part.Tree → List NodeId
  | .expression, e | .binary _, e | .unary, e | .call, e | .primary, e => e.ids
  | .arguments, list | .argumentList, list => Expr.idsAll list
  | .optionalExpression, e | .initializer, e | .superclass, e => Expr.idsOption e
  | .varRest, s | .letRest, s | .expressionStatement, s | .statement, s | .declaration, s => s.ids
  | .forInitializer, s => Stmt.idsAll s.toList
  | .blockRest, list | .declarations, list => Stmt.idsAll list
  | .parameters, _ | .parameterList, _ => []
  | .function, f => f.ids
  | .methods, list => FunctionDecl.idsAll list

theorem Numbered.assign {a : List Nat} {i j k : Nat} (ha : Numbered a k j) (hle : i ≤ k) :
    Numbered (j :: a) i (j + 1) :=
  (ha.widen hle).append_comm (.one j)

theorem ForClauses.loop_ids (clauses : ForClauses) (body : Stmt) :
    (clauses.loop body).ids =
      Stmt.idsAll clauses.initializer.toList ++ (Expr.idsOption clauses.condition
        ++ (body.ids ++ Expr.idsOption clauses.increment)) := by
  obtain ⟨first, second, third⟩ := clauses
  cases first <;> cases second <;> cases third <;>
    simp [ForClauses.loop, Stmt.ids, Stmt.idsAll, Expr.idsOption, Stmt.references,
      Stmt.referencesAll, Expr.references, Expr.referencesOption]

theorem Reads.numbered {part : Part} {ts : List Token} {i j : NodeId} {tree : part.Tree}
    (h : Reads part ts i tree j) : Numbered (part.ids tree) i j := by
  induction h with
  | assign _ _ _ ihTarget ihValue =>
      -- The number of the target is given up for one behind those of the value.
      exact ihValue.assign ihTarget.le
  | set _ _ _ ihTarget ihValue =>
      simpa [Part.ids, Expr.ids, Expr.references] using ihTarget.append ihValue
  | @operation _ _ _ _ _ _ _ _ level _ _ _ _ ihLeft ihRight =>
      cases level <;>
        simpa [Part.ids, Expr.ids, Level.node, Expr.references] using ihLeft.append ihRight
  | call _ _ _ _ ihCallee ihArguments =>
      simpa [Part.ids, Expr.ids, Expr.idsAll, Expr.references] using ihCallee.append ihArguments
  | moreArguments _ _ _ ihFirst ihOthers =>
      simpa [Part.ids, Expr.ids, Expr.idsAll, Expr.referencesAll] using ihFirst.append ihOthers
  | lastArgument _ ih =>
      simpa [Part.ids, Expr.ids, Expr.idsAll, Expr.referencesAll] using ih
  | literal | noArguments | noExpression | uninitialized | noParameters | noMethods | noSuperclass
  | noDeclarations | noInitializer | lastParameter | breakStmt => exact .nil _
  | thisExpr | «variable» | superExpr | superclass => exact .one _
  | varRest _ _ _ ih => exact ih
  | letRest _ _ _ _ ih => exact ih
  | varInitializer _ _ ih => simpa [Part.ids, Stmt.ids, Stmt.idsAll, Stmt.referencesAll] using ih
  | letInitializer _ _ ih => simpa [Part.ids, Stmt.ids, Stmt.idsAll, Stmt.referencesAll] using ih
  | expressionInitializer _ ih =>
      simpa [Part.ids, Stmt.ids, Stmt.idsAll, Stmt.referencesAll] using ih
  | forLoop _ _ _ _ _ _ _ _ ihFirst ihSecond ihThird ihBody =>
      -- The increment is read before the body and stands behind it in the loop.
      simp only [Part.ids, ForClauses.loop_ids]
      exact ihFirst.append (ihSecond.append (ihThird.append_comm ihBody))
  | ifThen _ _ _ _ _ ihTest ihBody =>
      simpa [Part.ids, Stmt.ids, Expr.ids, Stmt.references] using ihTest.append ihBody
  | ifElse _ _ _ _ _ _ _ ihTest ihYes ihNo =>
      simpa [Part.ids, Stmt.ids, Expr.ids, Stmt.references] using
        (ihTest.append ihYes).append ihNo
  | whileLoop _ _ _ _ _ ihTest ihBody =>
      simpa [Part.ids, Stmt.ids, Expr.ids, Stmt.references] using ihTest.append ihBody
  | methods _ _ ihFirst ihOthers =>
      simpa [Part.ids, FunctionDecl.ids, FunctionDecl.idsAll, FunctionDecl.referencesAll] using
        ihFirst.append ihOthers
  | classDecl _ _ _ _ _ _ ihSuperclass ihMethods =>
      simpa [Part.ids, Stmt.ids, Expr.idsOption, FunctionDecl.idsAll, Stmt.references] using
        ihSuperclass.append ihMethods
  | declarations _ _ ihFirst ihOthers =>
      simpa [Part.ids, Stmt.ids, Stmt.idsAll, Stmt.referencesAll] using ihFirst.append ihOthers
  | function _ _ _ _ _ _ ihParameters ihBody => exact ihBody.widen ihParameters.le
  | loosest | operand | tighter | unary | noUnary | callee | get | someArguments | grouping
  | someExpression | initialized | expressionStatement | returnStmt | block | print | expression
  | blockRest | moreParameters | someParameters | functionDecl | varDecl | letDecl | statement =>
      assumption

mutual
/-- The names in an expression are plain, and `this` and `super` are spelled so. -/
def Expr.Named : Expr → Prop
  | .literal _ => True
  | .unary _ right => right.Named
  | .binary left _ right | .logical left _ right => left.Named ∧ right.Named
  | .grouping inner => inner.Named
  | .variable _ name => name.Plain
  | .assign _ name value => name.Plain ∧ value.Named
  | .call callee _ arguments => callee.Named ∧ Expr.NamedAll arguments
  | .get object _ => object.Named
  | .set object _ value => object.Named ∧ value.Named
  | .superExpr _ keyword _ => keyword.lexeme = "super"
  | .thisExpr _ keyword => keyword.lexeme = "this"

/-- The names in expressions are plain. -/
def Expr.NamedAll : List Expr → Prop
  | [] => True
  | e :: rest => e.Named ∧ Expr.NamedAll rest
end

/-- The names in an expression, if there is one, are plain. -/
def Expr.NamedOption : Option Expr → Prop
  | none => True
  | some e => e.Named

mutual
/-- The names in a statement are plain, branches and bodies of loops declare nothing around them,
and superclasses are names. -/
def Stmt.Named : Stmt → Prop
  | .expression value | .print value => value.Named
  | .varDecl name initializer => name.Plain ∧ Expr.NamedOption initializer
  | .letDecl name initializer => name.Plain ∧ initializer.Named
  | .block body => Stmt.NamedAll body
  | .ifElse condition thenBranch none =>
    condition.Named ∧ thenBranch.declared? = none ∧ thenBranch.Named
  | .ifElse condition thenBranch (some elseBranch) =>
    condition.Named ∧ thenBranch.declared? = none ∧ thenBranch.Named
      ∧ elseBranch.declared? = none ∧ elseBranch.Named
  | .whileLoop condition body => condition.Named ∧ body.declared? = none ∧ body.Named
  | .function declaration => declaration.name.Plain ∧ FunctionDecl.Named declaration
  | .returnStmt _ value => Expr.NamedOption value
  | .breakStmt _ => True
  | .classDecl name superclass methods =>
    name.Plain
      ∧ (superclass = none ∨ ∃ id superName, superclass = some (.variable id superName)
        ∧ superName.Plain)
      ∧ FunctionDecl.NamedAll methods

/-- The names in statements are plain. -/
def Stmt.NamedAll : List Stmt → Prop
  | [] => True
  | s :: rest => s.Named ∧ Stmt.NamedAll rest

/-- The names in a function are plain. -/
def FunctionDecl.Named : FunctionDecl Stmt → Prop
  | ⟨_, params, body⟩ => (∀ param ∈ params, param.Plain) ∧ Stmt.NamedAll body

/-- The names in methods are plain. -/
def FunctionDecl.NamedAll : List (FunctionDecl Stmt) → Prop
  | [] => True
  | method :: rest => FunctionDecl.Named method ∧ FunctionDecl.NamedAll rest
end

/-- A token is spelled as its kind says, as far as names, `this` and `super` go. -/
structure Token.Spelled (token : Token) : Prop where
  plain : token.tag = .identifier → token.Plain
  this : token.tag = .keyword .thisKw → token.lexeme = "this"
  super : token.tag = .keyword .superKw → token.lexeme = "super"

/-- The names in what a part of the grammar is read into are plain. -/
def Part.Named : (part : Part) → part.Tree → Prop
  | .expression, e | .binary _, e | .unary, e | .call, e | .primary, e => e.Named
  | .arguments, list | .argumentList, list => Expr.NamedAll list
  | .optionalExpression, e | .initializer, e => Expr.NamedOption e
  | .superclass, e =>
    e = none ∨ ∃ id superName, e = some (.variable id superName) ∧ superName.Plain
  | .varRest, s | .letRest, s | .declaration, s => s.Named
  | .expressionStatement, s | .statement, s => s.declared? = none ∧ s.Named
  | .forInitializer, s => Stmt.NamedAll s.toList
  | .blockRest, list | .declarations, list => Stmt.NamedAll list
  | .parameters, list | .parameterList, list => ∀ param ∈ list, param.Plain
  | .function, f => f.name.Plain ∧ FunctionDecl.Named f
  | .methods, list => FunctionDecl.NamedAll list

theorem ForClauses.loop_named {clauses : ForClauses} {body : Stmt}
    (hfirst : Stmt.NamedAll clauses.initializer.toList)
    (hsecond : Expr.NamedOption clauses.condition) (hthird : Expr.NamedOption clauses.increment)
    (hdeclared : body.declared? = none) (hbody : body.Named) : (clauses.loop body).Named := by
  obtain ⟨first, second, third⟩ := clauses
  cases first <;> cases second <;> cases third <;>
    simp_all [ForClauses.loop, Stmt.Named, Stmt.NamedAll, Expr.NamedOption, Expr.Named,
      Stmt.declared?]

theorem ForClauses.loop_declared (clauses : ForClauses) (body : Stmt) :
    (clauses.loop body).declared? = none := by
  obtain ⟨first, second, third⟩ := clauses
  cases first <;> rfl

theorem Reads.named {part : Part} {ts : List Token} {i j : NodeId} {tree : part.Tree}
    (h : Reads part ts i tree j) (hts : ∀ t ∈ ts, t.Spelled) : part.Named tree := by
  -- The tokens are split as the rule splits them, and each part is handed to its own reading.
  induction h with try simp only [List.forall_mem_append, List.forall_mem_cons] at hts
  | assign _ _ _ ihTarget ihValue =>
      obtain ⟨htarget, -, hvalue⟩ := hts
      exact ⟨ihTarget htarget, ihValue hvalue⟩
  | set _ _ _ ihTarget ihValue =>
      obtain ⟨htarget, -, hvalue⟩ := hts
      exact ⟨ihTarget htarget, ihValue hvalue⟩
  | @operation _ _ _ _ _ _ _ _ level _ _ _ _ ihLeft ihRight =>
      obtain ⟨hleft, -, hright⟩ := hts
      cases level <;> exact ⟨ihLeft hleft, ihRight hright⟩
  | call _ _ _ _ ihCallee ihArguments =>
      obtain ⟨hcallee, -, harguments, -⟩ := hts
      exact ⟨ihCallee hcallee, ihArguments harguments⟩
  | moreArguments _ _ _ ihFirst ihOthers =>
      obtain ⟨hfirst, -, hothers⟩ := hts
      exact ⟨ihFirst hfirst, ihOthers hothers⟩
  | lastArgument _ ih => exact ⟨ih hts, trivial⟩
  | literal | noArguments | noExpression | uninitialized | noMethods | noDeclarations
  | noInitializer => exact trivial
  | breakStmt => exact ⟨rfl, trivial⟩
  | noParameters => exact fun _ h => nomatch h
  | thisExpr ht => exact hts.1.this ht
  | «variable» ht => exact hts.1.plain ht
  | superExpr hkeyword => exact hts.1.super hkeyword
  | noSuperclass => exact .inl rfl
  | superclass _ hname => exact .inr ⟨_, _, rfl, hts.2.1.plain hname⟩
  | varRest hname _ _ ih =>
      obtain ⟨hspelled, hinitializer, -⟩ := hts
      exact ⟨hspelled.plain hname, ih hinitializer⟩
  | letRest hname _ _ _ ih =>
      obtain ⟨hspelled, -, hinitializer, -⟩ := hts
      exact ⟨hspelled.plain hname, ih hinitializer⟩
  | varInitializer _ _ ih | letInitializer _ _ ih => exact ⟨ih hts.2, trivial⟩
  | expressionInitializer _ ih => exact ⟨(ih hts).2, trivial⟩
  | expressionStatement _ _ ih => exact ⟨rfl, ih hts.1⟩
  | forLoop _ _ _ _ _ _ _ _ ihFirst ihSecond ihThird ihBody =>
      obtain ⟨-, -, hfirst, hsecond, -, hthird, -, hbody⟩ := hts
      obtain ⟨hdeclared, hnamed⟩ := ihBody hbody
      exact ⟨ForClauses.loop_declared .., ForClauses.loop_named (ihFirst hfirst)
        (ihSecond hsecond) (ihThird hthird) hdeclared hnamed⟩
  | ifThen _ _ _ _ _ ihTest ihBody =>
      obtain ⟨-, -, htest, -, hbody⟩ := hts
      exact ⟨rfl, ihTest htest, ihBody hbody⟩
  | ifElse _ _ _ _ _ _ _ ihTest ihYes ihNo =>
      obtain ⟨-, -, htest, -, hyes, -, hno⟩ := hts
      obtain ⟨hdeclared, hnamed⟩ := ihYes hyes
      exact ⟨rfl, ihTest htest, hdeclared, hnamed, ihNo hno⟩
  | whileLoop _ _ _ _ _ ihTest ihBody =>
      obtain ⟨-, -, htest, -, hbody⟩ := hts
      exact ⟨rfl, ihTest htest, ihBody hbody⟩
  | returnStmt _ _ _ ih | print _ _ _ ih => exact ⟨rfl, ih hts.2.1⟩
  | block _ _ ih => exact ⟨rfl, ih hts.2⟩
  | lastParameter hname =>
      intro param hparam
      obtain rfl := List.mem_singleton.mp hparam
      exact hts.1.plain hname
  | moreParameters hname _ _ ih =>
      obtain ⟨hspelled, -, hothers⟩ := hts
      exact List.forall_mem_cons.mpr ⟨hspelled.plain hname, ih hothers⟩
  | function hname _ _ _ _ _ ihParameters ihBody =>
      obtain ⟨hspelled, -, hparams, -, -, hbody⟩ := hts
      exact ⟨hspelled.plain hname, ihParameters hparams, ihBody hbody⟩
  | methods _ _ ihFirst ihOthers => exact ⟨(ihFirst hts.1).2, ihOthers hts.2⟩
  | classDecl _ hname _ _ _ _ ihSuperclass ihMethods =>
      obtain ⟨-, hspelled, hparent, -, hbody, -⟩ := hts
      exact ⟨hspelled.plain hname, ihSuperclass hparent, ihMethods hbody⟩
  | declarations _ _ ihFirst ihOthers => exact ⟨ihFirst hts.1, ihOthers hts.2⟩
  | statement _ ih => exact (ih hts).2
  | loosest _ ih | operand _ ih | tighter _ ih | noUnary _ ih | callee _ ih | someExpression _ ih
  | expression _ ih => exact ih hts
  | someArguments _ _ ih | someParameters _ _ ih => exact ih hts
  | get _ _ _ ih => exact ih hts.1
  | grouping _ _ _ ih => exact ih hts.2.1
  | blockRest _ _ ih => exact ih hts.1
  | unary _ _ ih | initialized _ _ ih | functionDecl _ _ ih | varDecl _ _ ih | letDecl _ _ ih =>
      exact ih hts.2

end ScopeScript
