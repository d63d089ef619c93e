import ScopeScript.Proofs.Parsing.Determinacy
import ScopeScript.Proofs.Scoping.Numbering

/-!
# Assignment nodes and the variable nodes they replace

What stands in front of an assignment sign is read like any other expression. Where it is a
variable, its node is dropped and an assignment node takes its place, with the number that comes
behind those of the value. So the two nodes never share a number.
-/

namespace ScopeScript

open Grammar Rule

/-- An assignment node was made from some of the tokens: read by themselves, those in front of the
sign give a variable node, which is dropped, and all together give the assignment. -/
def Reference.MadeFrom (tokens : List Token) (discarded : NodeId) (r : Reference) : Prop :=
  ∃ (target value : List Token) (equals : Token) (i k : NodeId) (e : Expr),
    target ++ equals :: value <:+: tokens ∧ equals.tag = .punct .equal ∧
      ∀ (ending : Token) (fuel : Nat), ending.tag = .eof →
        ruleFuel (target ++ equals :: value).length ≤ fuel →
        let start := Cursor.start (target ++ equals :: value ++ [ending]) i
        binary fuel Level.all start =
            .ok (.variable discarded r.name) (start.past target.length k) ∧
          expression fuel start =
            .ok (.assign r.id r.name e) (start.past (target ++ equals :: value).length (r.id + 1))

/-- Each assignment node among the references replaces a variable node with another number. -/
def MadeApart (tokens : List Token) (references : List Reference) : Prop :=
  ∀ r ∈ references, r.kind = .assign → ∃ discarded, discarded < r.id ∧ r.MadeFrom tokens discarded

namespace MadeApart

variable {ts us : List Token} {a b : List Reference}

theorem nil : MadeApart ts [] :=
  nofun

theorem widen (h : MadeApart ts a) (hts : ts <:+: us) : MadeApart us a := by
  intro r hr hkind
  obtain ⟨discarded, hless, target, value, equals, i, k, e, hinfix, hmade⟩ := h r hr hkind
  exact ⟨discarded, hless, target, value, equals, i, k, e, hinfix.trans hts, hmade⟩

theorem cons {t : Token} (h : MadeApart ts a) : MadeApart (t :: ts) a :=
  h.widen (List.suffix_cons t ts).isInfix

theorem left (h : MadeApart ts a) : MadeApart (ts ++ us) a :=
  h.widen (List.prefix_append ts us).isInfix

theorem right (h : MadeApart ts a) : MadeApart (us ++ ts) a :=
  h.widen (List.suffix_append us ts).isInfix

theorem append (ha : MadeApart ts a) (hb : MadeApart ts b) : MadeApart ts (a ++ b) := by
  intro r hr
  rcases List.mem_append.mp hr with hr | hr
  · exact ha r hr
  · exact hb r hr

/-- What is read from tokens one behind the other. -/
theorem join (ha : MadeApart ts a) (hb : MadeApart us b) : MadeApart (ts ++ us) (a ++ b) :=
  ha.left.append hb.right

/-- A reference that is no assignment. -/
theorem one {r : Reference} (hr : r.kind ≠ .assign) : MadeApart ts [r] := by
  intro s hs hkind
  obtain rfl := List.mem_singleton.mp hs
  exact (hr hkind).elim

end MadeApart

/-- The references in what a part of the grammar is read into. -/
def Part.references : (part : Part) → part.Tree → List Reference
  | .expression, e | .binary _, e | .unary, e | .call, e | .primary, e => e.references
  | .arguments, list | .argumentList, list => Expr.referencesAll list
  | .optionalExpression, e | .initializer, e | .superclass, e => Expr.referencesOption e
  | .varRest, s | .letRest, s | .expressionStatement, s | .statement, s | .declaration, s =>
    s.references
  | .forInitializer, s => Stmt.referencesAll s.toList
  | .blockRest, list | .declarations, list => Stmt.referencesAll list
  | .parameters, _ | .parameterList, _ => []
  | .function, f => FunctionDecl.references f
  | .methods, list => FunctionDecl.referencesAll list

theorem ForClauses.loop_references (clauses : ForClauses) (body : Stmt) :
    (clauses.loop body).references =
      Stmt.referencesAll clauses.initializer.toList ++ (Expr.referencesOption clauses.condition
        ++ (body.references ++ Expr.referencesOption clauses.increment)) := by
  obtain ⟨first, second, third⟩ := clauses
  cases first <;> cases second <;> cases third <;>
    simp [ForClauses.loop, Stmt.references, Stmt.referencesAll, Expr.references,
      Expr.referencesOption]

section Tree

variable {ts target value : List Token} {equals name : Token} {i j k id : NodeId} {e : Expr}

/-- The variable node that stood in front of the sign has a smaller number. -/
theorem assign_apart
    (htarget : Reads (.binary Level.all) target i (.variable id name) k)
    (hequals : equals.tag = .punct .equal) (hvalue : Reads .expression value k e j) :
    id < j ∧ Reference.MadeFrom (target ++ equals :: value) id ⟨.assign, j, name⟩ := by
  have hbounds := htarget.numbered.bounds id (by simp [Part.ids, Expr.ids, Expr.references])
  have hwhole := Reads.assign htarget hequals hvalue
  refine ⟨Nat.lt_of_lt_of_le hbounds.2 hvalue.numbered.le,
    target, value, equals, i, k, e, List.infix_rfl, hequals, fun ending fuel hending hfuel => ?_⟩
  have hstart := (Cursor.start_append hwhole.noEnd hending [] i).1
  constructor
  · have havoids : Avoids (continuing Level.all) (equals :: value) :=
      avoids_cons.mpr (by rw [hequals]; decide)
    exact (htarget.runs.operand List.suffix_rfl ⟨hstart, rfl⟩ havoids).of_grammar
      (.binary _ List.suffix_rfl) (by rwa [hstart])
  · have hrest := hstart.trans (List.append_nil _).symm
    exact expression_runs hwhole ⟨hrest, rfl⟩ (avoids_nil _) (by rwa [List.append_nil])

end Tree

theorem Reads.madeApart {part : Part} {ts : List Token} {i j : NodeId} {tree : part.Tree}
    (h : Reads part ts i tree j) : MadeApart ts (part.references tree) := by
  induction h with
  | assign htarget hequals hvalue _ ihValue =>
      intro r hr hkind
      rcases List.mem_cons.mp hr with rfl | hr
      · exact ⟨_, assign_apart htarget hequals hvalue⟩
      · exact ihValue.cons.right r hr hkind
  | set _ _ _ ihTarget ihValue => exact ihTarget.join ihValue.cons
  | @operation _ _ _ _ _ _ _ _ level _ _ _ _ ihLeft ihRight =>
      cases level <;> exact ihLeft.join ihRight.cons
  | call _ _ _ _ ihCallee ihArguments => exact ihCallee.join ihArguments.left.cons
  | moreArguments _ _ _ ihFirst ihOthers => exact ihFirst.join ihOthers.cons
  | lastArgument _ ih => exact ih.append .nil
  | literal | noArguments | noExpression | uninitialized | noParameters | noMethods | noSuperclass
  | noDeclarations | noInitializer | lastParameter | breakStmt | moreParameters
  | someParameters => exact .nil
  | thisExpr | «variable» | superExpr | superclass => exact .one nofun
  | varInitializer _ _ ih | letInitializer _ _ ih => exact ih.cons.append .nil
  | expressionInitializer _ ih => exact ih.append .nil
  | forLoop _ _ _ _ _ _ _ _ ihFirst ihSecond ihThird ihBody =>
      -- The increment is read before the body and stands behind it in the loop.
      simp only [Part.references, ForClauses.loop_references]
      exact (ihFirst.join (ihSecond.join (ihBody.cons.right.append ihThird.left).cons)).cons.cons
  | ifThen _ _ _ _ _ ihTest ihBody | whileLoop _ _ _ _ _ ihTest ihBody =>
      exact (ihTest.join ihBody.cons).cons.cons
  | ifElse _ _ _ _ _ _ _ ihTest ihYes ihNo =>
      simp only [Part.references, Stmt.references, List.append_assoc]
      exact (ihTest.join (ihYes.join ihNo.cons).cons).cons.cons
  | methods _ _ ihFirst ihOthers | declarations _ _ ihFirst ihOthers =>
      exact ihFirst.join ihOthers
  | classDecl _ _ _ _ _ _ ihSuperclass ihMethods =>
      exact (ihSuperclass.join ihMethods.left.cons).cons.cons
  | function _ _ _ _ _ _ _ ihBody => exact ihBody.cons.cons.right.cons.cons
  | loosest | operand | tighter | noUnary | callee | someArguments | someExpression
  | expression | statement => assumption
  | unary _ _ ih | initialized _ _ ih | block _ _ ih | functionDecl _ _ ih | varDecl _ _ ih
  | letDecl _ _ ih => exact ih.cons
  | get _ _ _ ih | expressionStatement _ _ ih | blockRest _ _ ih => exact ih.left
  | grouping _ _ _ ih | varRest _ _ _ ih | returnStmt _ _ _ ih | print _ _ _ ih =>
      exact ih.left.cons
  | letRest _ _ _ _ ih => exact ih.left.cons.cons

end ScopeScript
