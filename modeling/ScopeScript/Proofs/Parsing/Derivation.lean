import ScopeScript.Proofs.Grammar.Phrase
import ScopeScript.Proofs.Parsing.Reading

/-!
# Readings follow the grammar

Tokens that are read into a tree are derived from the symbol of their part. What may be assigned to
is decided from the tree on the left of the sign, so the induction also says from which tokens a
variable or a property comes.
-/

namespace ScopeScript

open Grammar Phrase

/-- The symbol for operators of some levels. -/
def Level.symbol : List Level → Symbol
  | [] => .unary
  | .disjunction :: _ => .logicOr
  | .conjunction :: _ => .logicAnd
  | .equality :: _ => .equality
  | .comparison :: _ => .comparison
  | .term :: _ => .term
  | .factor :: _ => .factor

theorem Level.symbol_phrase {level : Level} {tighter : List Level}
    (h : level :: tighter <:+ Level.all) :
    (Level.symbol (level :: tighter)).phrase =
      operation (Level.symbol tighter) level.operators := by
  simp only [Level.all, List.suffix_cons_iff, List.cons.injEq, List.suffix_nil, reduceCtorEq,
    or_false] at h
  rcases h with ⟨rfl, rfl⟩ | ⟨rfl, rfl⟩ | ⟨rfl, rfl⟩ | ⟨rfl, rfl⟩ | ⟨rfl, rfl⟩ | ⟨rfl, rfl⟩ <;> rfl

/-- Derivations with the lengths of lists that are accepted. -/
abbrev Accepted : Phrase → List Token → Prop :=
  Derives (· ≤ maxArguments)

/-- As many items as `count` says, with commas between them. -/
def Listed (item : Phrase) (count : Nat) (ts : List Token) : Prop :=
  ∃ (first : List Token) (others : List (List Token)), Accepted item first
    ∧ (∀ part ∈ others, Accepted (.seq (.token (.punct .comma)) item) part)
    ∧ others.length + 1 = count ∧ ts = first ++ others.flatten

namespace Listed

variable {item : Phrase} {count : Nat} {ts first : List Token}

theorem one (h : Accepted item first) : Listed item 1 first :=
  ⟨first, [], h, by simp, rfl, by simp⟩

theorem more {comma : Token} (h : Accepted item first) (hcomma : comma.tag = .punct .comma)
    (hothers : Listed item count ts) : Listed item (count + 1) (first ++ comma :: ts) := by
  obtain ⟨second, others, hsecond, hparts, rfl, rfl⟩ := hothers
  refine ⟨first, (comma :: second) :: others, h, ?_, rfl, by simp⟩
  intro part hpart
  rcases List.mem_cons.mp hpart with rfl | hpart
  · exact .token_seq hcomma hsecond
  · exact hparts part hpart

theorem items (h : Listed item count ts) (hcount : count ≤ maxArguments) :
    Accepted (.items item) ts := by
  obtain ⟨first, others, hfirst, hparts, rfl, rfl⟩ := h
  exact .items hfirst hparts hcount

end Listed

/-- The tokens that a tree comes from, if it may be assigned to. -/
def Expr.ComesFrom : Expr → List Token → Prop
  | .variable _ name, ts => name.tag = .identifier ∧ ts = [name]
  | .get _ name, ts =>
    name.tag = .identifier
      ∧ ∃ us dot, dot.tag = .punct .dot ∧ Accepted (.symbol .call) us ∧ ts = us ++ [dot, name]
  | _, _ => True

/-- What the tokens of a part are derived from, given the tree that they are read into. -/
def Part.Derived : (part : Part) → List Token → part.Tree → Prop
  | .expression, ts, _ => Accepted (.symbol .expression) ts
  | .binary levels, ts, e =>
    levels <:+ Level.all → Accepted (.symbol (Level.symbol levels)) ts ∧ e.ComesFrom ts
  | .unary, ts, e => Accepted (.symbol .unary) ts ∧ e.ComesFrom ts
  | .call, ts, e => Accepted (.symbol .call) ts ∧ e.ComesFrom ts
  | .primary, ts, e => Accepted (.symbol .primary) ts ∧ e.ComesFrom ts
  | .arguments, ts, list => Listed (.symbol .expression) list.length ts
  | .argumentList, ts, _ => Accepted (Phrase.optional (.symbol .arguments)) ts
  | .optionalExpression, ts, _ => Accepted (Phrase.optional (.symbol .expression)) ts
  | .initializer, ts, _ =>
    Accepted (Phrase.optional (sequence [mark .equal, .symbol .expression])) ts
  | .varRest, ts, _ =>
    ∀ keyword : Token, keyword.tag = .keyword .varKw →
      Accepted (.symbol .varDecl) (keyword :: ts)
  | .letRest, ts, _ =>
    ∀ keyword : Token, keyword.tag = .keyword .letKw →
      Accepted (.symbol .letDecl) (keyword :: ts)
  | .expressionStatement, ts, _ => Accepted (.symbol .exprStmt) ts
  | .forInitializer, ts, _ =>
    Accepted (choice [.symbol .varDecl, .symbol .letDecl, .symbol .exprStmt, mark .semicolon]) ts
  | .statement, ts, _ => Accepted (.symbol .statement) ts
  | .blockRest, ts, _ =>
    ∀ opening : Token, opening.tag = .punct .leftBrace →
      Accepted (.symbol .block) (opening :: ts)
  | .parameters, ts, list => Listed name list.length ts
  | .parameterList, ts, _ => Accepted (Phrase.optional (.symbol .parameters)) ts
  | .function, ts, _ => Accepted (.symbol .function) ts
  | .methods, ts, _ => Accepted (.many (.symbol .function)) ts
  | .superclass, ts, _ => Accepted (Phrase.optional (sequence [mark .less, name])) ts
  | .declaration, ts, _ => Accepted (.symbol .declaration) ts
  | .declarations, ts, _ => Accepted (.many (.symbol .declaration)) ts

theorem accepted_constant {t : Token} {value : Literal} (h : t.kind.constant? = some value) :
    Accepted Symbol.primary.phrase [t] := by
  obtain ⟨kind, lexeme, line⟩ := t
  unfold Kind.constant? at h
  split at h
  case h_6 => cases h
  all_goals
    subst_vars
    refine .choice ?_ (.token _)
    simp [Token.tag, Kind.tag, word]

theorem Accepted.call_primary {ts : List Token} (h : Accepted (.symbol .primary) ts) :
    Accepted (.symbol .call) ts := by
  refine .symbol ?_
  rw [← List.append_nil ts]
  exact .sequence_cons h (.sequence_last .many_nil)

theorem Accepted.call_append {callee suffix : List Token}
    (hcallee : Accepted (.symbol .call) callee)
    (hsuffix : Accepted (choice [
      sequence [mark .leftParen, Phrase.optional (.symbol .arguments), mark .rightParen],
      sequence [mark .dot, name]]) suffix) : Accepted (.symbol .call) (callee ++ suffix) := by
  obtain ⟨first, rest, hfirst, hrest, rfl⟩ := derives_sequence_cons.mp (derives_symbol.mp hcallee)
  obtain ⟨others, last, hothers, hlast, rfl⟩ := derives_sequence_cons.mp hrest
  obtain rfl := derives_sequence_nil.mp hlast
  rw [List.append_assoc, List.append_nil]
  exact .symbol (.sequence_cons hfirst (.sequence_last (hothers.many_append hsuffix)))

/-- Tokens are derived from the symbol of the part that they are read as. -/
theorem Reads.derived {part : Part} {ts : List Token} {i j : NodeId} {tree : part.Tree}
    (h : Reads part ts i tree j) : part.Derived ts tree := by
  induction h with
  | loosest _ ih => exact .symbol (.symbol (.choice (.tail _ (.head _)) (ih List.suffix_rfl).1))
  | assign _ hequals _ ihTarget ihValue =>
      obtain ⟨hname, rfl⟩ := (ihTarget List.suffix_rfl).2
      refine .symbol (.symbol (.choice (.head _) ?_))
      exact .sequence_skip <| .sequence_token hname <| .sequence_token hequals <|
        .sequence_last (derives_symbol.mp ihValue)
  | set _ hequals _ ihTarget ihValue =>
      -- The tree of the target tells that its last two tokens are a dot and a name.
      obtain ⟨hname, us, dot, hdot, hcall, rfl⟩ := (ihTarget List.suffix_rfl).2
      refine .symbol (.symbol (.choice (.head _) ?_))
      have hobject := Derives.optional_some <|
        Derives.sequence_cons hcall <| .sequence_token hdot .sequence_nil
      have hrest := Derives.sequence_token hname <| .sequence_token hequals <|
        .sequence_last (derives_symbol.mp ihValue)
      have hassign := Derives.sequence_cons hobject hrest
      rw [List.append_assoc, List.singleton_append] at hassign
      rw [List.append_assoc]
      exact hassign
  | operand _ ih => exact fun _ => ih
  | tighter _ ih =>
      intro hlevels
      obtain ⟨hderives, htarget⟩ := ih ((List.suffix_cons ..).trans hlevels)
      refine ⟨.symbol ?_, htarget⟩
      rw [Level.symbol_phrase hlevels]
      exact .operation_one hderives
  | @operation _ _ _ _ _ _ _ _ level _ _ hoperator _ ihLeft ihRight =>
      intro hlevels
      obtain ⟨hleft, -⟩ := ihLeft hlevels
      obtain ⟨hright, -⟩ := ihRight ((List.suffix_cons ..).trans hlevels)
      refine ⟨.symbol ?_, ?_⟩
      · have hleft := derives_symbol.mp hleft
        rw [Level.symbol_phrase hlevels] at hleft ⊢
        exact .operation_append hleft hoperator hright
      · -- An operation may not be assigned to, so nothing is asked about its tokens.
        cases level <;> trivial
  | unary hoperator _ ih =>
      refine ⟨.symbol (.choice (.head _) ?_), trivial⟩
      have hmark : Accepted (choice [mark .bang, mark .minus]) [_] :=
        derives_choice_token.mpr ⟨_, hoperator, rfl⟩
      exact .sequence_cons hmark (.sequence_last ih.1)
  | noUnary _ ih => exact ⟨.symbol (.choice (.tail _ (.head _)) ih.1), ih.2⟩
  | callee _ ih => exact ⟨.call_primary ih.1, ih.2⟩
  | call _ hopening _ hclosing ihCallee ihArguments =>
      refine ⟨.call_append ihCallee.1 (.choice (.head _) ?_), trivial⟩
      exact .sequence_token hopening <| .sequence_cons ihArguments <| .sequence_token hclosing
        .sequence_nil
  | get _ hdot hname ih =>
      refine ⟨.call_append ih.1 (.choice (.tail _ (.head _)) ?_), hname, _, _, hdot, ih.1, rfl⟩
      exact .sequence_token hdot <| .sequence_token hname .sequence_nil
  | lastArgument _ ih => exact .one ih
  | moreArguments _ hcomma _ ihFirst ihOthers => exact .more ihFirst hcomma ihOthers
  | noArguments => exact .optional_none
  | someArguments _ hcount ih => exact .optional_some (.symbol (ih.items hcount))
  | literal hconstant => exact ⟨.symbol (accepted_constant hconstant), trivial⟩
  | thisExpr ht => exact ⟨.symbol (.choice (p := word .thisKw) (by simp) (.tagged ht)), trivial⟩
  | «variable» ht => exact ⟨.symbol (.choice (p := name) (by simp) (.tagged ht)), ht, rfl⟩
  | superExpr hkeyword hdot hmethod =>
      refine ⟨.symbol (.choice (List.mem_of_getElem? (i := 8) rfl) ?_), trivial⟩
      exact .sequence_token hkeyword <| .sequence_token hdot <| .sequence_token hmethod
        .sequence_nil
  | grouping hopening _ hclosing ih =>
      refine ⟨.symbol (.choice (List.mem_of_getElem? (i := 7) rfl) ?_), trivial⟩
      exact .sequence_token hopening <| .sequence_cons ih <| .sequence_token hclosing .sequence_nil
  | noExpression => exact .optional_none
  | someExpression _ ih => exact .optional_some ih
  | uninitialized => exact .optional_none
  | initialized hequals _ ih =>
      exact .optional_some (.sequence_token hequals (.sequence_last ih))
  | varRest hname _ hsemicolon ih =>
      intro keyword hkeyword
      refine .symbol ?_
      exact .sequence_token hkeyword <| .sequence_token hname <| .sequence_cons ih <|
        .sequence_token hsemicolon .sequence_nil
  | letRest hname hequals _ hsemicolon ih =>
      intro keyword hkeyword
      refine .symbol ?_
      exact .sequence_token hkeyword <| .sequence_token hname <| .sequence_token hequals <|
        .sequence_cons ih <| .sequence_token hsemicolon .sequence_nil
  | expressionStatement _ hsemicolon ih =>
      exact .symbol (.sequence_cons ih (.sequence_token hsemicolon .sequence_nil))
  | noInitializer hsemicolon => exact .choice (p := mark .semicolon) (by simp) (.tagged hsemicolon)
  | varInitializer hkeyword _ ih => exact .choice (.head _) (ih _ hkeyword)
  | letInitializer hkeyword _ ih => exact .choice (.tail _ (.head _)) (ih _ hkeyword)
  | expressionInitializer _ ih => exact .choice (.tail _ (.tail _ (.head _))) ih
  | forLoop hkeyword hopening _ _ hsemicolon _ hclosing _ ihFirst ihSecond ihThird ihBody =>
      refine .symbol (.choice (p := .symbol .forStmt) (by simp) (.symbol ?_))
      exact .sequence_token hkeyword <| .sequence_token hopening <| .sequence_cons ihFirst <|
        .sequence_cons ihSecond <| .sequence_token hsemicolon <| .sequence_cons ihThird <|
          .sequence_token hclosing <| .sequence_last ihBody
  | ifThen hkeyword hopening _ hclosing _ ihTest ihBody =>
      refine .symbol (.choice (p := .symbol .ifStmt) (by simp) (.symbol ?_))
      exact .sequence_token hkeyword <| .sequence_token hopening <| .sequence_cons ihTest <|
        .sequence_token hclosing <| derives_sequence_cons.mpr
          ⟨_, [], ihBody, .sequence_last .optional_none, (List.append_nil _).symm⟩
  | ifElse hkeyword hopening _ hclosing _ hotherwise _ ihTest ihYes ihNo =>
      refine .symbol (.choice (p := .symbol .ifStmt) (by simp) (.symbol ?_))
      exact .sequence_token hkeyword <| .sequence_token hopening <| .sequence_cons ihTest <|
        .sequence_token hclosing <| .sequence_cons ihYes <| .sequence_last <| .optional_some <|
          .sequence_token hotherwise <| .sequence_last ihNo
  | whileLoop hkeyword hopening _ hclosing _ ihTest ihBody =>
      refine .symbol (.choice (p := .symbol .whileStmt) (by simp) (.symbol ?_))
      exact .sequence_token hkeyword <| .sequence_token hopening <| .sequence_cons ihTest <|
        .sequence_token hclosing <| .sequence_last ihBody
  | returnStmt hkeyword _ hsemicolon ih =>
      refine .symbol (.choice (p := .symbol .returnStmt) (by simp) (.symbol ?_))
      exact .sequence_token hkeyword <| .sequence_cons ih <| .sequence_token hsemicolon
        .sequence_nil
  | breakStmt hkeyword hsemicolon =>
      refine .symbol (.choice (p := .symbol .breakStmt) (by simp) (.symbol ?_))
      exact .sequence_token hkeyword <| .sequence_token hsemicolon .sequence_nil
  | block hopening _ ih =>
      exact .symbol (.choice (p := .symbol .block) (by simp) (ih _ hopening))
  | print hkeyword _ hsemicolon ih =>
      refine .symbol (.choice (p := .symbol .printStmt) (by simp) (.symbol ?_))
      exact .sequence_token hkeyword <| .sequence_cons ih <| .sequence_token hsemicolon
        .sequence_nil
  | expression _ ih => exact .symbol (.choice (.head _) ih)
  | blockRest _ hclosing ih =>
      intro opening hopening
      exact .symbol <| .sequence_token hopening <| .sequence_cons ih <|
        .sequence_token hclosing .sequence_nil
  | lastParameter hname => exact .one (.tagged hname)
  | moreParameters hname hcomma _ ih => exact .more (.tagged hname) hcomma ih
  | noParameters => exact .optional_none
  | someParameters _ hcount ih => exact .optional_some (.symbol (ih.items hcount))
  | function hname hopening _ hclosing hbrace _ ihParameters ihBody =>
      exact .symbol <| .sequence_token hname <| .sequence_token hopening <|
        .sequence_cons ihParameters <| .sequence_token hclosing <| .sequence_last (ihBody _ hbrace)
  | noMethods => exact .many_nil
  | methods _ _ ihFirst ihOthers => exact .many_cons ihFirst ihOthers
  | noSuperclass => exact .optional_none
  | superclass hless hname =>
      exact .optional_some <| .sequence_token hless <| .sequence_token hname .sequence_nil
  | classDecl hkeyword hname _ hopening _ hclosing ihSuperclass ihMethods =>
      refine .symbol (.choice (.head _) (.symbol ?_))
      exact .sequence_token hkeyword <| .sequence_token hname <| .sequence_cons ihSuperclass <|
        .sequence_token hopening <| .sequence_cons ihMethods <| .sequence_token hclosing
          .sequence_nil
  | functionDecl hkeyword _ ih =>
      refine .symbol (.choice (p := .symbol .funDecl) (by simp) (.symbol ?_))
      exact .sequence_token hkeyword <| .sequence_last ih
  | varDecl hkeyword _ ih =>
      exact .symbol (.choice (p := .symbol .varDecl) (by simp) (ih _ hkeyword))
  | letDecl hkeyword _ ih =>
      exact .symbol (.choice (p := .symbol .letDecl) (by simp) (ih _ hkeyword))
  | statement _ ih => exact .symbol (.choice (p := .symbol .statement) (by simp) ih)
  | noDeclarations => exact .many_nil
  | declarations _ _ ihFirst ihOthers => exact .many_cons ihFirst ihOthers

end ScopeScript
