import ScopeScript.Proofs.Parsing.Determinacy
import ScopeScript.Proofs.Parsing.Shape
import ScopeScript.Proofs.Scoping.Renaming

/-!
# Expressions are read as precedence prescribes

Every well-shaped tree is read back from its own tokens, up to the numbers of its nodes, and every
expression that is read is well shaped. So precedence and grouping are exactly what the shape says:
no other tree could be read from the same tokens.
-/

namespace ScopeScript

/-- An expression without the numbers of its nodes. -/
def Expr.anonymous (e : Expr) : Expr :=
  e.rename fun _ => 0

mutual
/-- No call in an expression has more arguments than the limit. -/
def Expr.ArgumentsWithin (limit : Nat) : Expr → Prop
  | .unary _ right => right.ArgumentsWithin limit
  | .binary left _ right | .logical left _ right =>
    left.ArgumentsWithin limit ∧ right.ArgumentsWithin limit
  | .grouping inner => inner.ArgumentsWithin limit
  | .assign _ _ value => value.ArgumentsWithin limit
  | .call callee _ arguments =>
    callee.ArgumentsWithin limit ∧ arguments.length ≤ limit
      ∧ Expr.AllArgumentsWithin limit arguments
  | .get object _ => object.ArgumentsWithin limit
  | .set object _ value => object.ArgumentsWithin limit ∧ value.ArgumentsWithin limit
  | .literal _ | .variable .. | .superExpr .. | .thisExpr .. => True

/-- No call in expressions has more arguments than the limit. -/
def Expr.AllArgumentsWithin (limit : Nat) : List Expr → Prop
  | [] => True
  | e :: rest => e.ArgumentsWithin limit ∧ Expr.AllArgumentsWithin limit rest
end

section Matches

variable {a b : List Leaf} {leaf : Leaf} {ts : List Token}

theorem matches_append_iff : List.Forall₂ Leaf.Matches (a ++ b) ts ↔
    ∃ us vs, List.Forall₂ Leaf.Matches a us ∧ List.Forall₂ Leaf.Matches b vs ∧ ts = us ++ vs := by
  constructor
  · intro h
    induction a generalizing ts with
    | nil => exact ⟨[], ts, .nil, h, rfl⟩
    | cons leaf a ih =>
        obtain ⟨t, rest, ht, hrest, rfl⟩ := List.forall₂_cons_left_iff.mp h
        obtain ⟨us, vs, hus, hvs, rfl⟩ := ih hrest
        exact ⟨t :: us, vs, .cons ht hus, hvs, rfl⟩
  · rintro ⟨us, vs, hus, hvs, rfl⟩
    exact matches_append hus hvs

theorem matches_punct_cons {p : Punct}
    (h : List.Forall₂ Leaf.Matches (.kind (.punct p) :: b) ts) :
    ∃ t us, t.tag = .punct p ∧ List.Forall₂ Leaf.Matches b us ∧ ts = t :: us := by
  obtain ⟨t, us, ht, hus, rfl⟩ := List.forall₂_cons_left_iff.mp h
  exact ⟨t, us, Token.tag_punct.mpr ht, hus, rfl⟩

theorem matches_token_cons {t : Token} (h : List.Forall₂ Leaf.Matches (.token t :: b) ts) :
    ∃ us, List.Forall₂ Leaf.Matches b us ∧ ts = t :: us := by
  obtain ⟨u, us, rfl, hus, rfl⟩ := List.forall₂_cons_left_iff.mp h
  exact ⟨us, hus, rfl⟩

theorem matches_nil (h : List.Forall₂ Leaf.Matches [] ts) : ts = [] :=
  List.forall₂_nil_left_iff.mp h

end Matches

/-- The reading of tokens as an expression that binds at least so tightly. -/
def ReadsAt : Nat → List Token → NodeId → Expr → NodeId → Prop
  | 0 => Reads .expression
  | 7 => Reads .unary
  | 8 => Reads .call
  | tightness + 1 => Reads (.binary (Level.all.drop tightness))

namespace ReadsAt

variable {ts us : List Token} {i k j : NodeId} {e left right : Expr} {m n : Nat}

theorem loosen (h : ReadsAt (n + 1) ts i e j) (hn : n < callTightness) : ReadsAt n ts i e j := by
  match n, hn with
  | 0, _ => exact .loosest h
  | 1, _ | 2, _ | 3, _ | 4, _ | 5, _ => exact .tighter h
  | 6, _ => exact .tighter (.operand h)
  | 7, _ => exact .noUnary h

theorem of_le (h : ReadsAt n ts i e j) (hmn : m ≤ n) (hn : n ≤ callTightness) :
    ReadsAt m ts i e j := by
  induction hmn with
  | refl => exact h
  | step hmn ih => exact ih (h.loosen hn) (Nat.le_of_succ_le hn)

theorem operation {level : Level} {operator : Token} (hoperator : operator.tag ∈ level.operators)
    (hleft : ReadsAt level.tightness ts i left k)
    (hright : ReadsAt (level.tightness + 1) us k right j) :
    ReadsAt level.tightness (ts ++ operator :: us) i (level.node left operator right) j := by
  cases level with
  | factor => exact Reads.operation hleft hoperator (.operand hright)
  | _ => exact Reads.operation hleft hoperator hright

end ReadsAt

theorem Level.node_anonymous (level : Level) (left right : Expr) (operator : Token) :
    (level.node left operator right).anonymous =
      level.node left.anonymous operator right.anonymous := by
  cases level <;> rfl

theorem Level.tightness_lt (level : Level) : level.tightness < unaryTightness := by
  cases level <;> decide

theorem Expr.tightness_le (e : Expr) : e.tightness ≤ callTightness := by
  have hoperator : ∀ tag : Tag, tag.tightness ≤ callTightness := by
    intro tag
    unfold Tag.tightness
    split
    next level _ => exact Nat.le_trans (Nat.le_of_lt level.tightness_lt) (by decide)
    next => exact Nat.zero_le _
  cases e with
  | binary left operator right => exact hoperator operator.tag
  | logical left operator right => exact hoperator operator.tag
  | _ => simp [Expr.tightness, unaryTightness, callTightness]

/-- The tokens of an expression are read into it, up to the numbers of its nodes. -/
def Expr.ReadBack (e : Expr) : Prop :=
  ∀ ⦃ts : List Token⦄, e.Yields ts → ∀ i : NodeId,
    ∃ e' j, e'.anonymous = e.anonymous ∧ ReadsAt e.tightness ts i e' j

/-- The tokens of expressions with commas in between are read into them, up to the numbers of their
nodes. -/
def Expr.ReadBackAll (list : List Expr) : Prop :=
  ∀ ⦃ts : List Token⦄, Expr.YieldsAll list ts → ∀ i : NodeId,
    ∃ list' j, list'.map Expr.anonymous = list.map Expr.anonymous ∧ Reads .arguments ts i list' j

namespace Expr.ReadBack

variable {e left right object callee : Expr} {operator name : Token} {ts : List Token}

/-- An expression is read back in any place that does not demand more tightness than it has. -/
theorem at_le (h : e.ReadBack) {n : Nat} (hn : n ≤ e.tightness) (hts : e.Yields ts) (i : NodeId) :
    ∃ e' j, e'.anonymous = e.anonymous ∧ ReadsAt n ts i e' j := by
  obtain ⟨e', j, hsame, hreads⟩ := h hts i
  exact ⟨e', j, hsame, hreads.of_le hn e.tightness_le⟩

theorem node {level : Level} (hjoins : level.Joins left operator right) (hleft : left.ReadBack)
    (hright : right.ReadBack) : (level.node left operator right).ReadBack := by
  intro ts hts i
  rw [Expr.Yields, Level.node_yield] at hts
  obtain ⟨us, vs, hus, hvs, rfl⟩ := matches_append_iff.mp hts
  obtain ⟨ws, hws, rfl⟩ := matches_token_cons hvs
  obtain ⟨left', k, hsame, hreads⟩ := hleft.at_le hjoins.left hus i
  obtain ⟨right', j, hsame', hreads'⟩ := hright.at_le (Nat.succ_le_of_lt hjoins.right) hws k
  refine ⟨level.node left' operator right', j, ?_, ?_⟩
  · rw [Level.node_anonymous, Level.node_anonymous, hsame, hsame']
  · rw [Level.node_tightness hjoins.operator]
    exact .operation hjoins.operator hreads hreads'

theorem unary (hoperator : operator.tag ∈ [Tag.punct .bang, .punct .minus])
    (hright : unaryTightness ≤ right.tightness) (h : right.ReadBack) :
    (Expr.unary operator right).ReadBack := by
  intro ts hts i
  obtain ⟨us, hus, rfl⟩ := matches_token_cons hts
  obtain ⟨right', j, hsame, hreads⟩ := h.at_le hright hus i
  exact ⟨.unary operator right', j, congrArg (Expr.unary operator) hsame, .unary hoperator hreads⟩

theorem grouping (h : e.ReadBack) : (Expr.grouping e).ReadBack := by
  intro ts hts i
  obtain ⟨opening, us, hopening, hus, rfl⟩ := matches_punct_cons hts
  obtain ⟨inside, vs, hinside, hvs, rfl⟩ := matches_append_iff.mp hus
  obtain ⟨closing, ws, hclosing, hws, rfl⟩ := matches_punct_cons hvs
  obtain rfl := matches_nil hws
  obtain ⟨e', j, hsame, hreads⟩ := h.at_le (Nat.zero_le _) hinside i
  exact ⟨.grouping e', j, congrArg Expr.grouping hsame,
    .callee (.grouping hopening hreads hclosing)⟩

theorem get (hname : name.tag = .identifier) (hobject : callTightness ≤ object.tightness)
    (h : object.ReadBack) : (Expr.get object name).ReadBack := by
  intro ts hts i
  obtain ⟨us, vs, hus, hvs, rfl⟩ := matches_append_iff.mp hts
  obtain ⟨dot, ws, hdot, hws, rfl⟩ := matches_punct_cons hvs
  obtain ⟨end', hend, rfl⟩ := matches_token_cons hws
  obtain rfl := matches_nil hend
  obtain ⟨object', j, hsame, hreads⟩ := h.at_le hobject hus i
  exact ⟨.get object' name, j, congrArg (Expr.get · name) hsame, .get hreads hdot hname⟩

theorem literal (value : Literal) : (Expr.literal value).ReadBack := by
  intro ts hts i
  obtain ⟨t, us, ht, hus, rfl⟩ := List.forall₂_cons_left_iff.mp hts
  obtain rfl := matches_nil hus
  exact ⟨.literal value, i, rfl, .callee (.literal (Kind.constant?_eq_some.mpr ht))⟩

theorem thisExpr {id : NodeId} {keyword : Token} (h : keyword.tag = .keyword .thisKw) :
    (Expr.thisExpr id keyword).ReadBack := by
  intro ts hts i
  obtain ⟨us, hus, rfl⟩ := matches_token_cons hts
  obtain rfl := matches_nil hus
  exact ⟨.thisExpr i keyword, i + 1, rfl, .callee (.thisExpr h)⟩

theorem «variable» {id : NodeId} (h : name.tag = .identifier) :
    (Expr.variable id name).ReadBack := by
  intro ts hts i
  obtain ⟨us, hus, rfl⟩ := matches_token_cons hts
  obtain rfl := matches_nil hus
  exact ⟨.variable i name, i + 1, rfl, .callee (.variable h)⟩

theorem superExpr {id : NodeId} {keyword method : Token}
    (hkeyword : keyword.tag = .keyword .superKw)
    (hmethod : method.tag = .identifier) : (Expr.superExpr id keyword method).ReadBack := by
  intro ts hts i
  obtain ⟨us, hus, rfl⟩ := matches_token_cons hts
  obtain ⟨dot, vs, hdot, hvs, rfl⟩ := matches_punct_cons hus
  obtain ⟨ws, hws, rfl⟩ := matches_token_cons hvs
  obtain rfl := matches_nil hws
  exact ⟨.superExpr i keyword method, i + 1, rfl, .callee (.superExpr hkeyword hdot hmethod)⟩

/-- What is assigned to is read first, as the expression that it would be without the sign. -/
theorem assign {id : NodeId} (hname : name.tag = .identifier) (hvalue : e.ReadBack) :
    (Expr.assign id name e).ReadBack := by
  intro ts hts i
  obtain ⟨us, hus, rfl⟩ := matches_token_cons hts
  obtain ⟨equals, vs, hequals, hvs, rfl⟩ := matches_punct_cons hus
  have htarget : ReadsAt callTightness [name] i (.variable i name) (i + 1) :=
    .callee (.variable hname)
  obtain ⟨value', j, hsame, hreads⟩ := hvalue.at_le (Nat.zero_le _) hvs (i + 1)
  exact ⟨.assign j name value', j + 1, congrArg (Expr.assign 0 name) hsame,
    Reads.assign (htarget.of_le (m := 1) (by decide) (Nat.le_refl _)) hequals hreads⟩

theorem set (hname : name.tag = .identifier) (hobject : callTightness ≤ object.tightness)
    (h : object.ReadBack) (hvalue : e.ReadBack) : (Expr.set object name e).ReadBack := by
  intro ts hts i
  obtain ⟨us, vs, hus, hvs, rfl⟩ := matches_append_iff.mp hts
  obtain ⟨equals, ws, hequals, hws, rfl⟩ := matches_punct_cons hvs
  have hget : 1 ≤ (Expr.get object name).tightness := show 1 ≤ callTightness by decide
  obtain ⟨target, k, hsame, hreads⟩ := (get hname hobject h).at_le (n := 1) hget hus i
  obtain ⟨value', j, hsame', hreads'⟩ := hvalue.at_le (Nat.zero_le _) hws k
  cases target with
  | get object' name' =>
      obtain ⟨hobject, rfl⟩ := Expr.get.inj hsame
      exact ⟨.set object' name' value', j, congrArg₂ (Expr.set · name' ·) hobject hsame',
        Reads.set hreads hequals hreads'⟩
  | _ => cases hsame

theorem call {paren : Token} {arguments : List Expr} (hparen : paren.tag = .punct .rightParen)
    (hcallee : callTightness ≤ callee.tightness) (hlength : arguments.length ≤ maxArguments)
    (h : callee.ReadBack) (hall : arguments ≠ [] → Expr.ReadBackAll arguments) :
    (Expr.call callee paren arguments).ReadBack := by
  intro ts hts i
  obtain ⟨us, vs, hus, hvs, rfl⟩ := matches_append_iff.mp hts
  obtain ⟨opening, ws, hopening, hws, rfl⟩ := matches_punct_cons hvs
  obtain ⟨inside, rest, hinside, hrest, rfl⟩ := matches_append_iff.mp hws
  obtain ⟨after, hafter, rfl⟩ := matches_token_cons hrest
  obtain rfl := matches_nil hafter
  obtain ⟨callee', k, hsame, hreads⟩ := h.at_le hcallee hus i
  have hlist : ∃ arguments' j, arguments'.map Expr.anonymous = arguments.map Expr.anonymous ∧
      Reads .argumentList inside k arguments' j := by
    by_cases hnone : arguments = []
    · subst hnone
      obtain rfl := matches_nil hinside
      exact ⟨[], k, rfl, .noArguments⟩
    · obtain ⟨arguments', j, hsame, hreads⟩ := hall hnone hinside k
      have hsameLength : arguments'.length = arguments.length := by
        simpa using congrArg List.length hsame
      exact ⟨arguments', j, hsame, .someArguments hreads (hsameLength ▸ hlength)⟩
  obtain ⟨arguments', j, hsame', hreads'⟩ := hlist
  refine ⟨.call callee' paren arguments', j, ?_, .call hreads hopening hreads' hparen⟩
  simp only [Expr.anonymous, Expr.rename, Expr.renameAll_eq] at hsame hsame' ⊢
  exact congrArg₂ (Expr.call · paren ·) hsame hsame'

end Expr.ReadBack

theorem Expr.readBackAll_one {e : Expr} (h : e.ReadBack) : Expr.ReadBackAll [e] := by
  intro ts hts i
  obtain ⟨e', j, hsame, hreads⟩ := h.at_le (Nat.zero_le _) hts i
  exact ⟨[e'], j, by simp [hsame], .lastArgument hreads⟩

theorem Expr.readBackAll_cons {e : Expr} {rest : List Expr} (h : e.ReadBack) (hne : rest ≠ [])
    (hrest : Expr.ReadBackAll rest) : Expr.ReadBackAll (e :: rest) := by
  intro ts hts i
  cases rest with
  | nil => exact (hne rfl).elim
  | cons next rest =>
      obtain ⟨us, vs, hus, hvs, rfl⟩ := matches_append_iff.mp hts
      obtain ⟨comma, ws, hcomma, hws, rfl⟩ := matches_punct_cons hvs
      obtain ⟨e', k, hsame, hreads⟩ := h.at_le (Nat.zero_le _) hus i
      obtain ⟨rest', j, hsame', hreads'⟩ := hrest hws k
      exact ⟨e' :: rest', j, congrArg₂ List.cons hsame hsame', .moreArguments hreads hcomma hreads'⟩

mutual
/-- A well-shaped expression is read back from its tokens. -/
theorem Expr.WellShaped.readBack : ∀ {e : Expr}, e.WellShaped → e.ArgumentsWithin maxArguments →
    e.ReadBack
  | .literal value, _, _ => .literal value
  | .unary _ _, ⟨hoperator, hright, h⟩, hlimit => .unary hoperator hright (h.readBack hlimit)
  | .binary _ _ _, ⟨⟨level, hlogical, hjoins⟩, hleft, hright⟩, ⟨hlimit, hlimit'⟩ => by
      have hnode := ReadBack.node hjoins (hleft.readBack hlimit) (hright.readBack hlimit')
      cases level <;> first | exact hnode | cases hlogical
  | .logical _ _ _, ⟨⟨level, hlogical, hjoins⟩, hleft, hright⟩, ⟨hlimit, hlimit'⟩ => by
      have hnode := ReadBack.node hjoins (hleft.readBack hlimit) (hright.readBack hlimit')
      cases level <;> first | exact hnode | cases hlogical
  | .grouping inner, h, hlimit =>
      .grouping (Expr.WellShaped.readBack (e := inner) h hlimit)
  | .variable _ _, hname, _ => .variable hname
  | .assign _ _ _, ⟨hname, hvalue⟩, hlimit => .assign hname (hvalue.readBack hlimit)
  | .call _ _ arguments, ⟨hcallee, h, hparen, hall⟩, ⟨hlimit, hlength, hlimits⟩ =>
      .call hparen hcallee hlength (h.readBack hlimit) fun hne =>
        Expr.WellShapedAll.readBack hall hlimits hne
  | .get _ _, ⟨hobject, h, hname⟩, hlimit => .get hname hobject (h.readBack hlimit)
  | .set _ _ _, ⟨⟨hobject, h, hname⟩, hvalue⟩, ⟨hlimit, hlimit'⟩ =>
      .set hname hobject (h.readBack hlimit) (hvalue.readBack hlimit')
  | .superExpr _ _ _, ⟨hkeyword, hmethod⟩, _ => .superExpr hkeyword hmethod
  | .thisExpr _ _, hkeyword, _ => .thisExpr hkeyword

theorem Expr.WellShapedAll.readBack : ∀ {list : List Expr}, Expr.WellShapedAll list →
    Expr.AllArgumentsWithin maxArguments list → list ≠ [] → Expr.ReadBackAll list
  | [], _, _, hne => (hne rfl).elim
  | [_], ⟨h, _⟩, ⟨hlimit, _⟩, _ => Expr.readBackAll_one (h.readBack hlimit)
  | _ :: _ :: _, ⟨h, hall⟩, ⟨hlimit, hlimits⟩, _ =>
      Expr.readBackAll_cons (h.readBack hlimit) nofun (hall.readBack hlimits nofun)
end

/-- What precedence and grouping prescribe is what is read. Wherever an expression is read and
nothing is noted, the tree is well shaped and its tokens are exactly those that were read. Every
well-shaped tree without too many arguments is read from its own tokens, up to the numbers of its
nodes, if what follows does not go on with it; then nothing is noted and nothing else is read. -/
theorem expression_precedence :
    (∀ (fuel : Nat) (c c' : Cursor) (e : Expr), expression fuel c = .ok e c' →
      c'.errors = c.errors → ∃ ts, c.rest = ts ++ c'.rest ∧ e.WellShaped ∧ e.Yields ts) ∧
    (∀ (e : Expr) (ts rest : List Token) (c : Cursor) (fuel : Nat), e.WellShaped →
      e.ArgumentsWithin 255 → e.Yields ts → c.rest = ts ++ rest → Avoids expressionContinuing rest →
      ruleFuel (ts ++ rest).length ≤ fuel → ∃ e' nextId', e'.anonymous = e.anonymous ∧
        expression fuel c =
          .ok e' { c with current := c.current + ts.length, nextId := nextId' }) := by
  refine ⟨fun fuel c c' e hrun hquiet => expression_shaped hrun hquiet, ?_⟩
  intro e ts rest c fuel hshaped hlimit hts hc hrest hfuel
  obtain ⟨e', nextId', hsame, hreads⟩ :=
    (hshaped.readBack hlimit).at_le (Nat.zero_le _) hts c.nextId
  exact ⟨e', nextId', hsame, expression_runs hreads ⟨hc, rfl⟩ hrest hfuel⟩

/-- The tokens of `x.f = a - b - c`. -/
def subtractions : List Token :=
  [⟨.identifier, "x", 1⟩, ⟨.punct .dot, ".", 1⟩, ⟨.identifier, "f", 1⟩, ⟨.punct .equal, "=", 1⟩,
    ⟨.identifier, "a", 1⟩, ⟨.punct .minus, "-", 1⟩, ⟨.identifier, "b", 1⟩,
    ⟨.punct .minus, "-", 1⟩, ⟨.identifier, "c", 1⟩]

/-- The tree of `x.f = a - b - c`, in which the first subtraction is made first. -/
def subtractionsTree : Expr :=
  .set (.variable 0 ⟨.identifier, "x", 1⟩) ⟨.identifier, "f", 1⟩
    (.binary
      (.binary (.variable 1 ⟨.identifier, "a", 1⟩) ⟨.punct .minus, "-", 1⟩
        (.variable 2 ⟨.identifier, "b", 1⟩))
      ⟨.punct .minus, "-", 1⟩ (.variable 3 ⟨.identifier, "c", 1⟩))

/-- Subtractions group to the left, on the right of an assignment to a property. -/
theorem expression_precedence_subtractions :
    let c := Cursor.start (subtractions ++ [⟨.punct .semicolon, ";", 1⟩]) 7
    ∃ e' nextId', e'.anonymous = subtractionsTree.anonymous ∧
      expression 220 c = .ok e' { c with current := 9, nextId := nextId' } ∧
      e'.WellShaped ∧ e'.Yields subtractions := by
  intro c
  obtain ⟨hsound, hcomplete⟩ := expression_precedence
  have hminus : ∀ left right : Expr, Level.term.tightness ≤ left.tightness →
      Level.term.tightness < right.tightness →
      Level.term.Joins left ⟨.punct .minus, "-", 1⟩ right :=
    fun left right hleft hright => ⟨by decide, hleft, hright⟩
  have hshaped : subtractionsTree.WellShaped :=
    ⟨⟨by decide, rfl, rfl⟩, ⟨.term, rfl, hminus _ _ (by decide) (by decide)⟩,
      ⟨⟨.term, rfl, hminus _ _ (by decide) (by decide)⟩, rfl, rfl⟩, rfl⟩
  have hbehind : c.rest = subtractions ++ [⟨.punct .semicolon, ";", 1⟩] :=
    (Cursor.start_of_noEnd (by decide) 7).1
  have hyields : subtractionsTree.Yields subtractions := by
    simp [Expr.Yields, subtractionsTree, subtractions, Expr.yield, Leaf.Matches]
  obtain ⟨e', nextId', hsame, hrun⟩ := hcomplete subtractionsTree subtractions
    [⟨.punct .semicolon, ";", 1⟩] c 220 hshaped
    (by simp [subtractionsTree, Expr.ArgumentsWithin]) hyields hbehind (avoids_cons.mpr (by decide))
    (by decide)
  obtain ⟨ts, hts, hshaped', hyields'⟩ := hsound 220 _ _ e' hrun rfl
  obtain rfl : subtractions = ts := List.append_cancel_right (hbehind.symm.trans hts)
  exact ⟨e', nextId', hsame, hrun, hshaped', hyields'⟩

end ScopeScript
