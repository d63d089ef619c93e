import Mathlib.Data.List.Forall2
import ScopeScript.Proofs.Parsing.Soundness

/-!
# The shape that precedence prescribes

Every expression binds with some tightness, which its outermost node tells. In a well-shaped tree no
node has a child that binds too loosely for its place. The yield of a tree is what it says about the
tokens it was read from, in their order. An expression that is read without anything being noted is
well shaped, and its yield are the tokens that were read.
-/

namespace ScopeScript

/-- How tightly the operators of a level bind. -/
def Level.tightness : Level → Nat
  | .disjunction => 1
  | .conjunction => 2
  | .equality => 3
  | .comparison => 4
  | .term => 5
  | .factor => 6

/-- How tightly unary operators bind. -/
def unaryTightness : Nat := 7

/-- How tightly calls, properties and primary expressions bind. -/
def callTightness : Nat := 8

/-- How tightly a binary operator binds. -/
def Tag.tightness (tag : Tag) : Nat :=
  match Level.all.find? (tag ∈ ·.operators) with
  | some level => level.tightness
  | none => 0

/-- How tightly the outermost node of an expression binds. Assignments bind loosest. -/
def Expr.tightness : Expr → Nat
  | .assign .. | .set .. => 0
  | .logical _ operator _ | .binary _ operator _ => operator.tag.tightness
  | .unary .. => unaryTightness
  | _ => callTightness

/-- Whether the operators of a level leave their right operand unevaluated if the left one
decides. -/
def Level.isLogical : Level → Bool
  | .disjunction | .conjunction => true
  | _ => false

/-- Both operands of an operator of a level bind tightly enough. Operators group to the left, so the
right operand has to bind tighter. -/
structure Level.Joins (level : Level) (left : Expr) (operator : Token) (right : Expr) : Prop where
  operator : operator.tag ∈ level.operators
  left : level.tightness ≤ left.tightness
  right : level.tightness < right.tightness

mutual
/-- Every part of an expression binds as tightly as its place demands, and every token in it is of
the kind that its place demands. -/
def Expr.WellShaped : Expr → Prop
  | .literal _ => True
  | .unary operator right =>
    operator.tag ∈ [Tag.punct .bang, .punct .minus] ∧ unaryTightness ≤ right.tightness
      ∧ right.WellShaped
  | .binary left operator right =>
    (∃ level : Level, level.isLogical = false ∧ level.Joins left operator right)
      ∧ left.WellShaped ∧ right.WellShaped
  | .logical left operator right =>
    (∃ level : Level, level.isLogical = true ∧ level.Joins left operator right)
      ∧ left.WellShaped ∧ right.WellShaped
  | .grouping inner => inner.WellShaped
  | .variable _ name => name.tag = .identifier
  | .assign _ name value => name.tag = .identifier ∧ value.WellShaped
  | .call callee paren arguments =>
    callTightness ≤ callee.tightness ∧ callee.WellShaped ∧ paren.tag = .punct .rightParen
      ∧ Expr.WellShapedAll arguments
  | .get object name =>
    callTightness ≤ object.tightness ∧ object.WellShaped ∧ name.tag = .identifier
  | .set object name value =>
    (callTightness ≤ object.tightness ∧ object.WellShaped ∧ name.tag = .identifier)
      ∧ value.WellShaped
  | .superExpr _ keyword method =>
    keyword.tag = .keyword .superKw ∧ method.tag = .identifier
  | .thisExpr _ keyword => keyword.tag = .keyword .thisKw

/-- All expressions of a list are well shaped. -/
def Expr.WellShapedAll : List Expr → Prop
  | [] => True
  | e :: rest => e.WellShaped ∧ Expr.WellShapedAll rest
end

/-- What a tree says about one of its tokens: all of it where the tree holds the token, and else the
kind with the value that it carries. -/
inductive Leaf where
  | token (token : Token)
  | kind (kind : Kind)

/-- Whether a token is as the tree says. -/
def Leaf.Matches : Leaf → Token → Prop
  | .token held, t => t = held
  | .kind k, t => t.kind = k

/-- The kind of the token that stands for a constant. -/
def Literal.kind : Literal → Kind
  | .number value => .number value
  | .string text => .string text
  | .bool true => .keyword .trueKw
  | .bool false => .keyword .falseKw
  | .nil => .keyword .nilKw

mutual
/-- What an expression says about its tokens, from left to right. -/
def Expr.yield : Expr → List Leaf
  | .literal value => [.kind value.kind]
  | .unary operator right => .token operator :: right.yield
  | .binary left operator right | .logical left operator right =>
    left.yield ++ .token operator :: right.yield
  | .grouping inner =>
    .kind (.punct .leftParen) :: (inner.yield ++ [.kind (.punct .rightParen)])
  | .variable _ name => [.token name]
  | .assign _ name value => .token name :: .kind (.punct .equal) :: value.yield
  | .call callee paren arguments =>
    callee.yield ++ .kind (.punct .leftParen) :: (Expr.yieldAll arguments ++ [.token paren])
  | .get object name => object.yield ++ [.kind (.punct .dot), .token name]
  | .set object name value =>
    (object.yield ++ [.kind (.punct .dot), .token name]) ++ .kind (.punct .equal) :: value.yield
  | .superExpr _ keyword method => [.token keyword, .kind (.punct .dot), .token method]
  | .thisExpr _ keyword => [.token keyword]

/-- What expressions say about their tokens, with commas in between. -/
def Expr.yieldAll : List Expr → List Leaf
  | [] => []
  | [e] => e.yield
  | e :: next :: rest => e.yield ++ .kind (.punct .comma) :: Expr.yieldAll (next :: rest)
end

/-- The tokens are those of the expression. -/
def Expr.Yields (e : Expr) (ts : List Token) : Prop :=
  List.Forall₂ Leaf.Matches e.yield ts

/-- The tokens are those of the expressions, with commas in between. -/
def Expr.YieldsAll (list : List Expr) (ts : List Token) : Prop :=
  List.Forall₂ Leaf.Matches (Expr.yieldAll list) ts

theorem Token.tag_punct {t : Token} {p : Punct} : t.tag = .punct p ↔ t.kind = .punct p := by
  obtain ⟨kind, lexeme, line⟩ := t
  cases kind <;> simp [Token.tag, Kind.tag]

theorem Kind.constant?_eq_some {kind : Kind} {value : Literal} :
    kind.constant? = some value ↔ kind = value.kind := by
  constructor
  · intro h
    unfold Kind.constant? at h
    split at h <;> cases h <;> rfl
  · rintro rfl
    cases value with
    | bool b => cases b <;> rfl
    | _ => rfl

theorem Leaf.matches_punct {p : Punct} {t : Token} (h : t.tag = .punct p) :
    (Leaf.kind (.punct p)).Matches t :=
  Token.tag_punct.mp h

theorem Level.tightness_operators (level : Level) :
    ∀ tag ∈ level.operators, tag.tightness = level.tightness := by
  cases level <;> decide

theorem Level.node_tightness {level : Level} {left right : Expr} {operator : Token}
    (h : operator.tag ∈ level.operators) :
    (level.node left operator right).tightness = level.tightness := by
  rw [← level.tightness_operators _ h]
  cases level <;> rfl

theorem Level.node_yield (level : Level) (left right : Expr) (operator : Token) :
    (level.node left operator right).yield = left.yield ++ .token operator :: right.yield := by
  cases level <;> rfl

theorem Level.node_wellShaped {level : Level} {left right : Expr} {operator : Token}
    (hjoins : level.Joins left operator right) (hleft : left.WellShaped)
    (hright : right.WellShaped) : (level.node left operator right).WellShaped := by
  cases level <;> exact ⟨⟨_, rfl, hjoins⟩, hleft, hright⟩

section Yields

variable {a b : List Leaf} {ts us : List Token}

theorem matches_append (ha : List.Forall₂ Leaf.Matches a ts)
    (hb : List.Forall₂ Leaf.Matches b us) : List.Forall₂ Leaf.Matches (a ++ b) (ts ++ us) :=
  List.rel_append ha hb

theorem yieldsAll_cons {e : Expr} {rest : List Expr} {comma : Token} (he : e.Yields ts)
    (hcomma : comma.tag = .punct .comma) (hrest : Expr.YieldsAll rest us) (hne : rest ≠ []) :
    Expr.YieldsAll (e :: rest) (ts ++ comma :: us) := by
  cases rest with
  | nil => exact (hne rfl).elim
  | cons next rest => exact matches_append he (.cons (Leaf.matches_punct hcomma) hrest)

end Yields

/-- How tightly what is read as a part of the grammar binds at least. -/
def Part.tightness : Part → Nat
  | .binary levels => unaryTightness - levels.length
  | .unary => unaryTightness
  | .call | .primary => callTightness
  | _ => 0

/-- An expression has the shape prescribed for the tokens it was read from, and binds as tightly as
the part of the grammar that it was read as. -/
structure Part.Shapes (part : Part) (ts : List Token) (e : Expr) : Prop where
  tight : part.tightness ≤ e.tightness
  shaped : e.WellShaped
  yields : e.Yields ts

/-- What is read as a part of the grammar has the prescribed shape. -/
def Part.Shaped : (part : Part) → List Token → part.Tree → Prop
  | .expression, ts, e => Part.expression.Shapes ts e
  | .binary levels, ts, e => levels <:+ Level.all → (Part.binary levels).Shapes ts e
  | .unary, ts, e => Part.unary.Shapes ts e
  | .call, ts, e => Part.call.Shapes ts e
  | .primary, ts, e => Part.primary.Shapes ts e
  | .arguments, ts, list => list ≠ [] ∧ Expr.WellShapedAll list ∧ Expr.YieldsAll list ts
  | .argumentList, ts, list => Expr.WellShapedAll list ∧ Expr.YieldsAll list ts
  | _, _, _ => True

theorem Level.tightness_suffix {level : Level} {tighter : List Level}
    (h : level :: tighter <:+ Level.all) :
    level.tightness = unaryTightness - (tighter.length + 1) := by
  simp only [Level.all, List.suffix_cons_iff, List.cons.injEq, List.suffix_nil, reduceCtorEq,
    or_false] at h
  rcases h with ⟨rfl, rfl⟩ | ⟨rfl, rfl⟩ | ⟨rfl, rfl⟩ | ⟨rfl, rfl⟩ | ⟨rfl, rfl⟩ | ⟨rfl, rfl⟩ <;> rfl

theorem Reads.shaped {part : Part} {ts : List Token} {i j : NodeId} {tree : part.Tree}
    (h : Reads part ts i tree j) : part.Shaped ts tree := by
  induction h with
  | loosest _ ih => exact ⟨Nat.zero_le _, (ih List.suffix_rfl).shaped, (ih List.suffix_rfl).yields⟩
  | assign _ hequals _ ihTarget ihValue =>
      have htarget := ihTarget List.suffix_rfl
      exact ⟨Nat.zero_le _, ⟨htarget.shaped, ihValue.shaped⟩,
        matches_append htarget.yields (.cons (Leaf.matches_punct hequals) ihValue.yields)⟩
  | set _ hequals _ ihTarget ihValue =>
      have htarget := ihTarget List.suffix_rfl
      exact ⟨Nat.zero_le _, ⟨htarget.shaped, ihValue.shaped⟩,
        matches_append htarget.yields (.cons (Leaf.matches_punct hequals) ihValue.yields)⟩
  | operand _ ih => exact fun _ => ⟨ih.tight, ih.shaped, ih.yields⟩
  | @tighter _ _ _ _ level levels _ ih =>
      intro hlevels
      obtain ⟨htight, hshaped, hyields⟩ := ih ((List.suffix_cons ..).trans hlevels)
      refine ⟨Nat.le_trans ?_ htight, hshaped, hyields⟩
      simp only [Part.tightness, List.length_cons]
      omega
  | @operation first second operator _ _ _ left right level levels _ hoperator _ ihLeft ihRight =>
      intro hlevels
      have hleft := ihLeft hlevels
      have hright := ihRight ((List.suffix_cons ..).trans hlevels)
      have hlevel := Level.tightness_suffix hlevels
      have hlength := hlevels.length_le
      simp only [Level.all, List.length_cons, List.length_nil] at hlength
      have hjoins : level.Joins left operator right := by
        refine ⟨hoperator, hlevel ▸ hleft.tight, Nat.lt_of_lt_of_le ?_ hright.tight⟩
        simp only [hlevel, Part.tightness, unaryTightness]
        omega
      refine ⟨?_, Level.node_wellShaped hjoins hleft.shaped hright.shaped, ?_⟩
      · rw [Level.node_tightness hoperator, hlevel]
        exact Nat.le_refl _
      · rw [Expr.Yields, Level.node_yield]
        exact matches_append hleft.yields (.cons rfl hright.yields)
  | unary hoperator _ ih =>
      exact ⟨Nat.le_refl _, ⟨hoperator, ih.tight, ih.shaped⟩, .cons rfl ih.yields⟩
  | noUnary _ ih => exact ⟨Nat.le_trans (by decide) ih.tight, ih.shaped, ih.yields⟩
  | callee _ ih => exact ⟨ih.tight, ih.shaped, ih.yields⟩
  | call _ hopening _ hclosing ihCallee ihArguments =>
      refine ⟨Nat.le_refl _, ⟨ihCallee.tight, ihCallee.shaped, hclosing, ihArguments.1⟩, ?_⟩
      exact matches_append ihCallee.yields
        (.cons (Leaf.matches_punct hopening) (matches_append ihArguments.2 (.cons rfl .nil)))
  | get _ hdot hname ih =>
      exact ⟨Nat.le_refl _, ⟨ih.tight, ih.shaped, hname⟩,
        matches_append ih.yields (.cons (Leaf.matches_punct hdot) (.cons rfl .nil))⟩
  | lastArgument _ ih => exact ⟨nofun, ⟨ih.shaped, trivial⟩, ih.yields⟩
  | moreArguments _ hcomma _ ihFirst ihOthers =>
      obtain ⟨hne, hshaped, hyields⟩ := ihOthers
      exact ⟨nofun, ⟨ihFirst.shaped, hshaped⟩, yieldsAll_cons ihFirst.yields hcomma hyields hne⟩
  | noArguments => exact ⟨trivial, .nil⟩
  | someArguments _ _ ih => exact ih.2
  | literal hconstant =>
      exact ⟨Nat.le_refl _, trivial, .cons (Kind.constant?_eq_some.mp hconstant) .nil⟩
  | thisExpr ht => exact ⟨Nat.le_refl _, ht, .cons rfl .nil⟩
  | «variable» ht => exact ⟨Nat.le_refl _, ht, .cons rfl .nil⟩
  | superExpr hkeyword hdot hmethod =>
      exact ⟨Nat.le_refl _, ⟨hkeyword, hmethod⟩,
        .cons rfl (.cons (Leaf.matches_punct hdot) (.cons rfl .nil))⟩
  | grouping hopening _ hclosing ih =>
      exact ⟨Nat.le_refl _, ih.shaped, .cons (Leaf.matches_punct hopening)
        (matches_append ih.yields (.cons (Leaf.matches_punct hclosing) .nil))⟩
  | _ => exact trivial

/-- An expression that is read without anything being noted is well shaped, and its tokens are those
that were read. -/
theorem expression_shaped {fuel : Nat} {c c' : Cursor} {e : Expr}
    (hrun : expression fuel c = .ok e c') (hquiet : c'.errors = c.errors) :
    ∃ ts, c.rest = ts ++ c'.rest ∧ e.WellShaped ∧ e.Yields ts := by
  obtain ⟨ts, hts, hreads⟩ := expression_sound fuel c c' e hrun (by simp [hquiet])
  exact ⟨ts, hts, hreads.shaped.shaped, hreads.shaped.yields⟩

end ScopeScript
