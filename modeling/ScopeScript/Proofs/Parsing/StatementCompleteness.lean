import ScopeScript.Proofs.Grammar.Dangling
import ScopeScript.Proofs.Parsing.ExpressionCompleteness

/-!
# Statements that the grammar derives are taken

A statement is followed in the form in which every `else` belongs to the nearest `if`, which is how
the rules read it. Statements and declarations contain one another, so one induction on the number
of tokens covers both.
-/

namespace ScopeScript

open Grammar Phrase Rule

section Statements

variable {n fuel : Nat} {ts rest : List Token} {t : Token}

theorem expression_taken {tag : Tag} (h : Accepted (.symbol .expression) ts)
    (hfuel : 20 * ts.length ≤ fuel + 5) (ht : t.tag = tag) (htag : tag ∉ expressionContinuing) :
    (expression fuel).Takes ts (t :: rest) fun _ => True :=
  expressionComplete ts.length h (Nat.le_refl _) hfuel (avoids_cons.mpr (ht ▸ htag))

theorem optionalExpression_takes {tag : Tag}
    (h : Accepted (Phrase.optional (.symbol .expression)) ts) (hfuel : 20 * ts.length ≤ fuel + 5)
    (ht : t.tag = tag) (htag : tag ∉ expressionContinuing ++ expressionStarts) :
    (unlessNext tag none (some <$> expression fuel)).Takes ts (t :: rest) fun _ => True := by
  rcases derives_optional.mp h with h | rfl
  · rw [List.mem_append, not_or] at htag
    refine .unlessNext (h.avoids fun other hother hsame => ?_)
      (.map (expression_taken h hfuel ht htag.1) fun _ _ => trivial)
    rw [List.mem_singleton.mp hsame] at hother
    exact htag.2 hother
  · exact .unlessNext_default ht trivial

theorem initializer_takes
    (h : Accepted (Phrase.optional (sequence [mark .equal, .symbol .expression])) ts)
    (hfuel : 20 * ts.length ≤ fuel + 5) (ht : t.tag = .punct .semicolon) :
    (initializer fuel).Takes ts (t :: rest) fun _ => True := by
  rcases derives_optional.mp h with h | rfl
  · obtain ⟨equals, us, hequals, hus, rfl⟩ := derives_sequence_token.mp h
    rw [List.length_cons] at hfuel
    exact .accept hequals (.map (expression_taken (derives_sequence_last.mp hus) (by omega) ht
      (by decide)) fun _ _ => trivial)
  · exact .accept_none (by simp [ht]) (.pure trivial)

theorem varRest_takes (h : Accepted (.symbol .varDecl) (t :: ts)) (hfuel : 20 * ts.length ≤ fuel) :
    (varRest fuel).Takes ts rest fun _ => True := by
  obtain ⟨_, us, -, hus, heq⟩ := derives_sequence_token.mp (derives_symbol.mp h)
  obtain ⟨-, rfl⟩ := List.cons.inj heq
  obtain ⟨name, vs, hname, hvs, rfl⟩ := derives_sequence_token.mp hus
  obtain ⟨ws, xs, hws, hxs, rfl⟩ := derives_sequence_cons.mp hvs
  obtain ⟨semicolon, ys, hsemicolon, hys, rfl⟩ := derives_sequence_token.mp hxs
  obtain rfl := derives_sequence_nil.mp hys
  simp only [List.length_cons, List.length_append] at hfuel
  refine .expect hname (.bind (initializer_takes hws (by omega) hsemicolon) fun _ _ => ?_)
  exact .expect hsemicolon (.pure trivial)

theorem letRest_takes (h : Accepted (.symbol .letDecl) (t :: ts)) (hfuel : 20 * ts.length ≤ fuel) :
    (letRest fuel).Takes ts rest fun _ => True := by
  obtain ⟨_, us, -, hus, heq⟩ := derives_sequence_token.mp (derives_symbol.mp h)
  obtain ⟨-, rfl⟩ := List.cons.inj heq
  obtain ⟨name, vs, hname, hvs, rfl⟩ := derives_sequence_token.mp hus
  obtain ⟨equals, ws, hequals, hws, rfl⟩ := derives_sequence_token.mp hvs
  obtain ⟨value, xs, hvalue, hxs, rfl⟩ := derives_sequence_cons.mp hws
  obtain ⟨semicolon, ys, hsemicolon, hys, rfl⟩ := derives_sequence_token.mp hxs
  obtain rfl := derives_sequence_nil.mp hys
  simp only [List.length_cons, List.length_append] at hfuel
  refine .expect hname (.expect hequals ?_)
  exact .bind (expression_taken hvalue (by omega) hsemicolon (by decide)) fun _ _ =>
    .expect hsemicolon (.pure trivial)

theorem expressionStatement_takes (h : Accepted (.symbol .exprStmt) ts)
    (hfuel : 20 * ts.length ≤ fuel + 5) :
    (expressionStatement fuel).Takes ts rest fun _ => True := by
  obtain ⟨value, us, hvalue, hus, rfl⟩ := derives_sequence_cons.mp (derives_symbol.mp h)
  obtain ⟨semicolon, vs, hsemicolon, hvs, rfl⟩ := derives_sequence_token.mp hus
  obtain rfl := derives_sequence_nil.mp hvs
  rw [List.length_append] at hfuel
  exact .bind (expression_taken hvalue (by omega) hsemicolon (by decide)) fun _ _ =>
    .expect hsemicolon (.pure trivial)

theorem printRest_takes (h : Accepted (.symbol .printStmt) (t :: ts))
    (hfuel : 20 * ts.length ≤ fuel) : (printRest fuel).Takes ts rest fun _ => True := by
  obtain ⟨_, us, -, hus, heq⟩ := derives_sequence_token.mp (derives_symbol.mp h)
  obtain ⟨-, rfl⟩ := List.cons.inj heq
  obtain ⟨value, vs, hvalue, hvs, rfl⟩ := derives_sequence_cons.mp hus
  obtain ⟨semicolon, ws, hsemicolon, hws, rfl⟩ := derives_sequence_token.mp hvs
  obtain rfl := derives_sequence_nil.mp hws
  rw [List.length_append] at hfuel
  exact .bind (expression_taken hvalue (by omega) hsemicolon (by decide)) fun _ _ =>
    .expect hsemicolon (.pure trivial)

theorem returnRest_takes (h : Accepted (.symbol .returnStmt) (t :: ts))
    (hfuel : 20 * ts.length ≤ fuel) (keyword : Token) :
    (returnRest fuel keyword).Takes ts rest fun _ => True := by
  obtain ⟨_, us, -, hus, heq⟩ := derives_sequence_token.mp (derives_symbol.mp h)
  obtain ⟨-, rfl⟩ := List.cons.inj heq
  obtain ⟨value, vs, hvalue, hvs, rfl⟩ := derives_sequence_cons.mp hus
  obtain ⟨semicolon, ws, hsemicolon, hws, rfl⟩ := derives_sequence_token.mp hvs
  obtain rfl := derives_sequence_nil.mp hws
  rw [List.length_append] at hfuel
  exact .bind (optionalExpression_takes hvalue (by omega) hsemicolon (by decide)) fun _ _ =>
    .expect hsemicolon (.pure trivial)

theorem breakRest_takes (h : Accepted (.symbol .breakStmt) (t :: ts)) (keyword : Token) :
    (breakRest keyword).Takes ts rest fun _ => True := by
  obtain ⟨_, us, -, hus, heq⟩ := derives_sequence_token.mp (derives_symbol.mp h)
  obtain ⟨-, rfl⟩ := List.cons.inj heq
  obtain ⟨semicolon, vs, hsemicolon, hvs, rfl⟩ := derives_sequence_token.mp hus
  obtain rfl := derives_sequence_nil.mp hvs
  exact .expect hsemicolon (.pure trivial)

theorem condition_takes {cause : SyntaxCause}
    (h : Accepted (sequence [mark .leftParen, .symbol .expression, mark .rightParen]) ts)
    (hfuel : 20 * ts.length ≤ fuel) : (condition fuel cause).Takes ts rest fun _ => True := by
  obtain ⟨opening, us, hopening, hus, rfl⟩ := derives_sequence_token.mp h
  obtain ⟨value, vs, hvalue, hvs, rfl⟩ := derives_sequence_cons.mp hus
  obtain ⟨closing, ws, hclosing, hws, rfl⟩ := derives_sequence_token.mp hvs
  obtain rfl := derives_sequence_nil.mp hws
  simp only [List.length_cons, List.length_append] at hfuel
  refine .expect hopening ?_
  exact .bind (expression_taken hvalue (by omega) hclosing (by decide)) fun _ _ =>
    .expect hclosing (.pure trivial)

theorem forInitializer_takes
    (h : Accepted (choice [.symbol .varDecl, .symbol .letDecl, .symbol .exprStmt,
      mark .semicolon]) ts) (hfuel : 20 * ts.length ≤ fuel) :
    (forInitializer fuel).Takes ts rest fun _ => True := by
  obtain ⟨p, hp, hts⟩ := derives_choice.mp h
  simp only [List.mem_cons, List.not_mem_nil, or_false] at hp
  rcases hp with rfl | rfl | rfl | rfl
  · obtain ⟨keyword, us, rfl, hkeyword⟩ := hts.exists_cons
    have hkeyword := List.mem_singleton.mp hkeyword
    rw [List.length_cons] at hfuel
    refine .accept_none (by simp [hkeyword]) (.accept hkeyword ?_)
    exact .map (varRest_takes hts (by omega)) fun _ _ => trivial
  · obtain ⟨keyword, us, rfl, hkeyword⟩ := hts.exists_cons
    have hkeyword := List.mem_singleton.mp hkeyword
    rw [List.length_cons] at hfuel
    refine .accept_none (by simp [hkeyword]) (.accept_none (by simp [hkeyword]) ?_)
    exact .accept hkeyword (.map (letRest_takes hts (by omega)) fun _ _ => trivial)
  · refine .accept_none (hts.avoids (by decide)) (.accept_none (hts.avoids (by decide)) ?_)
    refine .accept_none (hts.avoids (by decide)) ?_
    exact .map (expressionStatement_takes hts (by omega)) fun _ _ => trivial
  · obtain ⟨semicolon, hsemicolon, rfl⟩ := derives_mark.mp hts
    exact .accept hsemicolon (.pure trivial)

theorem forClauses_takes (h : Accepted (sequence forHead.tail) ts) (hfuel : 20 * ts.length ≤ fuel) :
    (forClauses fuel).Takes ts rest fun _ => True := by
  obtain ⟨opening, us, hopening, hus, rfl⟩ := derives_sequence_token.mp h
  obtain ⟨first, vs, hfirst, hvs, rfl⟩ := derives_sequence_cons.mp hus
  obtain ⟨second, ws, hsecond, hws, rfl⟩ := derives_sequence_cons.mp hvs
  obtain ⟨semicolon, xs, hsemicolon, hxs, rfl⟩ := derives_sequence_token.mp hws
  obtain ⟨third, ys, hthird, hys, rfl⟩ := derives_sequence_cons.mp hxs
  obtain ⟨closing, zs, hclosing, hzs, rfl⟩ := derives_sequence_token.mp hys
  obtain rfl := derives_sequence_nil.mp hzs
  simp only [List.length_cons, List.length_append] at hfuel
  refine .expect hopening (.bind (forInitializer_takes hfirst (by omega)) fun _ _ => ?_)
  refine .bind (optionalExpression_takes hsecond (by omega) hsemicolon (by decide)) fun _ _ => ?_
  refine .expect hsemicolon (.bind (optionalExpression_takes hthird (by omega) hclosing (by decide))
    fun _ _ => .expect hclosing (.pure trivial))

theorem superclassClause_takes (h : Accepted (Phrase.optional (sequence [mark .less, name])) ts)
    (ht : t.tag = .punct .leftBrace) : superclassClause.Takes ts (t :: rest) fun _ => True := by
  rcases derives_optional.mp h with h | rfl
  · obtain ⟨less, us, hless, hus, rfl⟩ := derives_sequence_token.mp h
    obtain ⟨name, vs, hname, hvs, rfl⟩ := derives_sequence_token.mp hus
    obtain rfl := derives_sequence_nil.mp hvs
    exact .accept hless (.expect hname (.bind_last Takes.freshId fun _ _ => .pure trivial))
  · exact .accept_none (by simp [ht]) (.pure trivial)

theorem parameters_takes {first : List Token} {others : List (List Token)} {count : Nat}
    (hfirst : Accepted name first)
    (hothers : ∀ part ∈ others, Accepted (.seq (.token (.punct .comma)) name) part)
    (hcount : count + others.length < maxArguments)
    (hfuel : (first ++ others.flatten).length ≤ fuel) (ht : t.tag = .punct .rightParen) :
    (parameters fuel count).Takes (first ++ others.flatten) (t :: rest) fun _ => True := by
  obtain ⟨name, hname, rfl⟩ := derives_name.mp hfirst
  induction others generalizing count fuel name with
  | nil =>
      rw [List.flatten_nil, List.append_nil, List.length_singleton] at hfuel
      obtain ⟨fuel, rfl⟩ : ∃ k, fuel = k + 1 := ⟨fuel - 1, by omega⟩
      refine .skip (.noteBeyondLimit (by omega)) fun _ _ => .expect hname ?_
      exact .accept_none (by simp [ht]) (.pure trivial)
  | cons part others ih =>
      obtain ⟨comma, second, hcomma, hsecond, rfl⟩ := derives_token_seq.mp (hothers _ (.head _))
      obtain ⟨name', hname', rfl⟩ := derives_name.mp hsecond
      simp only [List.flatten_cons, List.length_append, List.length_cons, List.length_nil]
        at hcount hfuel
      obtain ⟨fuel, rfl⟩ : ∃ k, fuel = k + 1 := ⟨fuel - 1, by omega⟩
      refine .skip (.noteBeyondLimit (by omega)) fun _ _ => .expect hname (.accept hcomma ?_)
      refine .bind_last (ih (fun q hq => hothers q (.tail _ hq)) (by omega) name' hname' hsecond ?_)
        fun _ _ => .pure trivial
      simp only [List.length_append, List.length_cons, List.length_nil]
      omega

/-- Declarations of at most so many tokens are taken, except in front of an `else`. -/
def DeclarationComplete (n : Nat) : Prop :=
  ∀ ⦃ts rest : List Token⦄ ⦃fuel : Nat⦄, Accepted (.symbol .declaration) ts → ts.length ≤ n →
    20 * ts.length ≤ fuel → Avoids [.keyword .elseKw] rest →
    (declaration fuel).Takes ts rest fun _ => True

/-- No declaration starts with an `else`, so the next one ends the one before. -/
theorem declarations_avoid {parts : List (List Token)}
    (hparts : ∀ part ∈ parts, Accepted (.symbol .declaration) part)
    (hrest : Avoids [.keyword .elseKw] rest) :
    Avoids [.keyword .elseKw] (parts.flatten ++ rest) := by
  cases parts with
  | nil => exact hrest
  | cons part parts =>
      rw [List.flatten_cons, List.append_assoc]
      exact (hparts _ (.head _)).avoids (by decide)

theorem declarationList_takes (hdecl : DeclarationComplete n) {parts : List (List Token)}
    (hparts : ∀ part ∈ parts, Accepted (.symbol .declaration) part)
    (hlength : parts.flatten.length ≤ n) (hfuel : 20 * parts.flatten.length < fuel)
    (ht : t.tag = .punct .rightBrace) :
    (declarationList fuel).Takes parts.flatten (t :: rest) fun _ => True := by
  induction parts generalizing fuel with
  | nil =>
      obtain ⟨fuel, rfl⟩ : ∃ k, fuel = k + 1 := ⟨fuel - 1, by omega⟩
      exact .listEnd ht (.pure trivial)
  | cons part parts ih =>
      have hpart := hparts _ (.head _)
      have hmore := fun q hq => hparts q (.tail _ hq)
      obtain ⟨u, us, rfl, hu⟩ := hpart.exists_cons
      obtain ⟨fuel, rfl⟩ : ∃ k, fuel = k + 1 := ⟨fuel - 1, by omega⟩
      simp only [List.flatten_cons, List.length_append, List.length_cons] at hlength hfuel
      refine .listMore (fun hclosing => absurd (hclosing ▸ hu) (by decide)) ?_
      refine .bind (.recover (hdecl hpart (by rw [List.length_cons]; omega)
        (by rw [List.length_cons]; omega) (declarations_avoid hmore (by simp [ht])))) fun _ _ => ?_
      exact .bind_last (ih hmore (by omega) (by omega)) fun _ _ => .pure trivial

theorem blockRest_takes (hdecl : DeclarationComplete n) (h : Accepted (.symbol .block) (t :: ts))
    (hlength : ts.length ≤ n + 1) (hfuel : 20 * ts.length ≤ fuel) :
    (blockRest fuel).Takes ts rest fun _ => True := by
  obtain ⟨_, us, -, hus, heq⟩ := derives_sequence_token.mp (derives_symbol.mp h)
  obtain ⟨-, rfl⟩ := List.cons.inj heq
  obtain ⟨body, vs, hbody, hvs, rfl⟩ := derives_sequence_cons.mp hus
  obtain ⟨closing, ws, hclosing, hws, rfl⟩ := derives_sequence_token.mp hvs
  obtain rfl := derives_sequence_nil.mp hws
  obtain ⟨parts, hparts, rfl⟩ := derives_many.mp hbody
  simp only [List.length_append, List.length_cons, List.length_nil] at hlength hfuel
  obtain ⟨fuel, rfl⟩ : ∃ k, fuel = k + 1 := ⟨fuel - 1, by omega⟩
  exact .bind (declarationList_takes hdecl hparts (by omega) (by omega) hclosing) fun _ _ =>
    .expect hclosing (.pure trivial)

theorem parameterList_takes (h : Accepted (Phrase.optional (.symbol .parameters)) ts)
    (hfuel : ts.length ≤ fuel) (ht : t.tag = .punct .rightParen) :
    (unlessNext (.punct .rightParen) [] (parameters fuel 0)).Takes ts (t :: rest)
      fun _ => True := by
  rcases derives_optional.mp h with h | rfl
  · obtain ⟨first, others, hfirst, hothers, hcount, rfl⟩ := derives_items.mp (derives_symbol.mp h)
    exact .unlessNext (h.avoids (by decide))
      (parameters_takes hfirst hothers (by omega) hfuel ht)
  · exact .unlessNext_default ht trivial

theorem function_takes (hdecl : DeclarationComplete n) (h : Accepted (.symbol .function) ts)
    (hlength : ts.length ≤ n + 1) (hfuel : 20 * ts.length ≤ fuel) (callee : Callee) :
    (function fuel callee).Takes ts rest fun _ => True := by
  obtain ⟨name, us, hname, hus, rfl⟩ := derives_sequence_token.mp (derives_symbol.mp h)
  obtain ⟨opening, vs, hopening, hvs, rfl⟩ := derives_sequence_token.mp hus
  obtain ⟨params, ws, hparams, hws, rfl⟩ := derives_sequence_cons.mp hvs
  obtain ⟨closing, xs, hclosing, hxs, rfl⟩ := derives_sequence_token.mp hws
  have hblock := derives_sequence_last.mp hxs
  obtain ⟨brace, ys, rfl, hbrace⟩ := hblock.exists_cons
  have hbrace := List.mem_singleton.mp hbrace
  simp only [List.length_append, List.length_cons] at hlength hfuel
  obtain ⟨fuel, rfl⟩ : ∃ k, fuel = k + 1 := ⟨fuel - 1, by omega⟩
  refine .expect hname (.expect hopening ?_)
  refine .bind (parameterList_takes hparams (by omega) hclosing) fun _ _ => ?_
  refine .expect hclosing (.expect hbrace ?_)
  exact .bind_last (blockRest_takes hdecl hblock (by omega) (by omega)) fun _ _ => .pure trivial

theorem methodList_takes (hdecl : DeclarationComplete n) {parts : List (List Token)}
    (hparts : ∀ part ∈ parts, Accepted (.symbol .function) part)
    (hlength : parts.flatten.length ≤ n + 1) (hfuel : 20 * parts.flatten.length < fuel)
    (ht : t.tag = .punct .rightBrace) :
    (methodList fuel).Takes parts.flatten (t :: rest) fun _ => True := by
  induction parts generalizing fuel with
  | nil =>
      obtain ⟨fuel, rfl⟩ : ∃ k, fuel = k + 1 := ⟨fuel - 1, by omega⟩
      exact .listEnd ht (.pure trivial)
  | cons part parts ih =>
      have hpart := hparts _ (.head _)
      have hmore := fun q hq => hparts q (.tail _ hq)
      obtain ⟨u, us, rfl, hu⟩ := hpart.exists_cons
      obtain ⟨fuel, rfl⟩ : ∃ k, fuel = k + 1 := ⟨fuel - 1, by omega⟩
      simp only [List.flatten_cons, List.length_append, List.length_cons] at hlength hfuel
      refine .listMore (fun hclosing => absurd (hclosing ▸ hu) (by decide)) ?_
      refine .bind (function_takes hdecl hpart (by rw [List.length_cons]; omega)
        (by rw [List.length_cons]; omega) _) fun _ _ => ?_
      exact .bind_last (ih hmore (by omega) (by omega)) fun _ _ => .pure trivial

theorem classRest_takes (hdecl : DeclarationComplete n)
    (h : Accepted (.symbol .classDecl) (t :: ts))
    (hlength : ts.length ≤ n + 1) (hfuel : 20 * ts.length ≤ fuel) :
    (classRest fuel).Takes ts rest fun _ => True := by
  obtain ⟨_, us, -, hus, heq⟩ := derives_sequence_token.mp (derives_symbol.mp h)
  obtain ⟨-, rfl⟩ := List.cons.inj heq
  obtain ⟨name, vs, hname, hvs, rfl⟩ := derives_sequence_token.mp hus
  obtain ⟨parent, ws, hparent, hws, rfl⟩ := derives_sequence_cons.mp hvs
  obtain ⟨opening, xs, hopening, hxs, rfl⟩ := derives_sequence_token.mp hws
  obtain ⟨body, ys, hbody, hys, rfl⟩ := derives_sequence_cons.mp hxs
  obtain ⟨closing, zs, hclosing, hzs, rfl⟩ := derives_sequence_token.mp hys
  obtain rfl := derives_sequence_nil.mp hzs
  obtain ⟨parts, hparts, rfl⟩ := derives_many.mp hbody
  simp only [List.length_append, List.length_cons, List.length_nil] at hlength hfuel
  obtain ⟨fuel, rfl⟩ : ∃ k, fuel = k + 1 := ⟨fuel - 1, by omega⟩
  refine .expect hname (.bind (superclassClause_takes hparent hopening) fun _ _ => ?_)
  refine .expect hopening ?_
  exact .bind (methodList_takes hdecl hparts (by omega) (by omega) hclosing) fun _ _ =>
    .expect hclosing (.pure trivial)

/-- Statements that do not end in another statement are taken in front of anything. -/
theorem simple_takes (hdecl : DeclarationComplete n) (h : Accepted simpleStatement ts)
    (hlength : ts.length ≤ n + 1) (hfuel : 20 * ts.length ≤ fuel + 1) :
    (statement fuel).Takes ts rest fun _ => True := by
  obtain ⟨p, hp, hts⟩ := derives_choice.mp h
  simp only [List.mem_cons, List.not_mem_nil, or_false] at hp
  have hsymbol : ∃ s, p = .symbol s := by
    rcases hp with rfl | rfl | rfl | rfl | rfl <;> exact ⟨_, rfl⟩
  obtain ⟨s, rfl⟩ := hsymbol
  obtain ⟨u, us, rfl, hu⟩ := hts.exists_cons
  have hcons : (u :: us).length = us.length + 1 := rfl
  obtain ⟨fuel, rfl⟩ : ∃ k, fuel = k + 1 := ⟨fuel - 1, by omega⟩
  simp only [Phrase.symbol.injEq] at hp
  rcases hp with rfl | rfl | rfl | rfl | rfl
  · refine .accept_none (hts.avoids (by decide)) (.accept_none (hts.avoids (by decide)) ?_)
    refine .accept_none (hts.avoids (by decide)) (.accept_none (hts.avoids (by decide)) ?_)
    refine .accept_none (hts.avoids (by decide)) (.accept_none (hts.avoids (by decide)) ?_)
    refine .accept_none (hts.avoids (by decide)) ?_
    exact expressionStatement_takes hts (by omega)
  all_goals
    have hu := List.mem_singleton.mp hu
    refine .accept_none (by simp [hu]) (.accept_none (by simp [hu]) ?_)
    refine .accept_none (by simp [hu]) ?_
  · refine .accept_none (by simp [hu]) (.accept_none (by simp [hu]) ?_)
    refine .accept_none (by simp [hu]) (.accept hu ?_)
    exact printRest_takes hts (by omega)
  · refine .accept_none (by simp [hu]) (.accept hu ?_)
    exact breakRest_takes hts _
  · exact .accept hu (returnRest_takes hts (by omega) _)
  · refine .accept_none (by simp [hu]) (.accept_none (by simp [hu]) (.accept hu ?_))
    exact .map (blockRest_takes hdecl hts (by omega) (by omega)) fun _ _ => trivial

/-- Statements are taken in front of anything if they are closed, and otherwise in front of anything
but an `else`. -/
theorem nested_takes (hdecl : DeclarationComplete n) {closed : Bool}
    (h : Nested (· ≤ maxArguments) closed ts) (hlength : ts.length ≤ n + 1)
    (hfuel : 20 * ts.length ≤ fuel + 1)
    (hrest : closed = false → Avoids [.keyword .elseKw] rest) :
    (statement fuel).Takes ts rest fun _ => True := by
  induction h generalizing fuel rest with
  | simple hts => exact simple_takes hdecl hts hlength hfuel
  | whileLoop hhead _ ih =>
      obtain ⟨keyword, us, hkeyword, hus, rfl⟩ := derives_sequence_token.mp hhead
      simp only [List.length_append, List.length_cons] at hlength hfuel
      obtain ⟨fuel, rfl⟩ : ∃ k, fuel = k + 1 := ⟨fuel - 1, by omega⟩
      refine .accept_none (by simp [hkeyword]) (.accept_none (by simp [hkeyword]) ?_)
      refine .accept hkeyword (.bind (condition_takes hus (by omega)) fun _ _ => ?_)
      exact .bind_last (ih (by omega) (by omega) hrest) fun _ _ => .pure trivial
  | forLoop hhead _ ih =>
      obtain ⟨keyword, us, hkeyword, hus, rfl⟩ := derives_sequence_token.mp hhead
      simp only [List.length_append, List.length_cons] at hlength hfuel
      obtain ⟨fuel, rfl⟩ : ∃ k, fuel = k + 1 := ⟨fuel - 1, by omega⟩
      refine .accept hkeyword (.bind (forClauses_takes hus (by omega)) fun _ _ => ?_)
      exact .bind_last (ih (by omega) (by omega) hrest) fun _ _ => .pure trivial
  | ifThen hhead _ ih =>
      obtain ⟨keyword, us, hkeyword, hus, rfl⟩ := derives_sequence_token.mp hhead
      simp only [List.length_append, List.length_cons] at hlength hfuel
      obtain ⟨fuel, rfl⟩ : ∃ k, fuel = k + 1 := ⟨fuel - 1, by omega⟩
      have helse := hrest rfl
      refine .accept_none (by simp [hkeyword]) (.accept hkeyword ?_)
      refine .bind (condition_takes hus (by omega)) fun _ _ => ?_
      refine .bind_last (ih (by omega) (by omega) fun _ => helse) fun _ _ => ?_
      exact .accept_none helse (.pure trivial)
  | @ifElse _ yes no _ _ hhead _ hotherwise _ ihYes ihNo =>
      obtain ⟨keyword, us, hkeyword, hus, rfl⟩ := derives_sequence_token.mp hhead
      simp only [List.length_append, List.length_cons] at hlength hfuel
      obtain ⟨fuel, rfl⟩ : ∃ k, fuel = k + 1 := ⟨fuel - 1, by omega⟩
      refine .accept_none (by simp [hkeyword]) (.accept hkeyword ?_)
      refine .bind (condition_takes hus (by omega)) fun _ _ => ?_
      -- The first branch is closed, so it leaves the `else` to this `if`.
      refine .bind (ihYes (by omega) (by omega) nofun) fun _ _ => .accept hotherwise ?_
      exact .bind_last (ihNo (by omega) (by omega) hrest) fun _ _ => .pure trivial

theorem declaration_takes (hdecl : DeclarationComplete n) : DeclarationComplete (n + 1) := by
  intro ts rest fuel h hlength hfuel hrest
  have hpositive := Accepted.length_pos h
  obtain ⟨fuel, rfl⟩ : ∃ k, fuel = k + 1 := ⟨fuel - 1, by omega⟩
  obtain ⟨p, hp, hts⟩ := derives_choice.mp (derives_symbol.mp h)
  simp only [List.mem_cons, List.not_mem_nil, or_false] at hp
  rcases hp with rfl | rfl | rfl | rfl | rfl
  · obtain ⟨u, us, rfl, hu⟩ := hts.exists_cons
    have hu := List.mem_singleton.mp hu
    rw [List.length_cons] at hlength hfuel
    exact .accept hu (classRest_takes hdecl hts (by omega) (by omega))
  · obtain ⟨u, us, hu, hus, rfl⟩ := derives_sequence_token.mp (derives_symbol.mp hts)
    rw [List.length_cons] at hlength hfuel
    have hfunction := derives_sequence_last.mp hus
    refine .accept_none (by simp [hu]) (.accept hu ?_)
    exact .map (function_takes hdecl hfunction (by omega) (by omega) _) fun _ _ => trivial
  · obtain ⟨u, us, rfl, hu⟩ := hts.exists_cons
    have hu := List.mem_singleton.mp hu
    rw [List.length_cons] at hlength hfuel
    refine .accept_none (by simp [hu]) (.accept_none (by simp [hu]) ?_)
    exact .accept hu (varRest_takes hts (by omega))
  · obtain ⟨u, us, rfl, hu⟩ := hts.exists_cons
    have hu := List.mem_singleton.mp hu
    rw [List.length_cons] at hlength hfuel
    refine .accept_none (by simp [hu]) (.accept_none (by simp [hu]) ?_)
    exact .accept_none (by simp [hu]) (.accept hu (letRest_takes hts (by omega)))
  · -- The derivation may put an `else` at an outer `if`; the rule always takes the nearest.
    obtain ⟨closed, hnested⟩ := exists_nested hts
    refine .accept_none (hts.avoids (by decide)) (.accept_none (hts.avoids (by decide)) ?_)
    refine .accept_none (hts.avoids (by decide)) (.accept_none (hts.avoids (by decide)) ?_)
    exact nested_takes hdecl hnested hlength (by omega) fun _ => hrest

/-- Declarations are taken, whatever their length. -/
theorem declarationComplete (n : Nat) : DeclarationComplete n := by
  induction n with
  | zero =>
      intro ts rest fuel h hlength
      have hpositive := Accepted.length_pos h
      omega
  | succ n ih => exact declaration_takes ih

theorem topLevel_takes {parts : List (List Token)}
    (hparts : ∀ part ∈ parts, Accepted (.symbol .declaration) part)
    (hfuel : 20 * parts.flatten.length < fuel) :
    (topLevel fuel).Takes parts.flatten [] fun _ => True := by
  induction parts generalizing fuel with
  | nil =>
      obtain ⟨fuel, rfl⟩ : ∃ k, fuel = k + 1 := ⟨fuel - 1, by omega⟩
      exact .look (fun _ hc => Rule.atEnd_nil hc) (.pure trivial)
  | cons part parts ih =>
      have hpart := hparts _ (.head _)
      have hmore := fun q hq => hparts q (.tail _ hq)
      have havoid := declarations_avoid hmore (avoids_nil _)
      obtain ⟨u, us, rfl, -⟩ := hpart.exists_cons
      obtain ⟨fuel, rfl⟩ : ∃ k, fuel = k + 1 := ⟨fuel - 1, by omega⟩
      simp only [List.flatten_cons, List.length_append, List.length_cons] at hfuel
      refine .notAtEnd nofun <| .bind (.recover <|
        declarationComplete _ hpart (Nat.le_refl _) ?_ havoid) fun _ _ =>
          .bind_last (ih hmore (by omega)) fun _ _ => .pure trivial
      rw [List.length_cons]
      omega

end Statements

end ScopeScript
