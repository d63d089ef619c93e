import ScopeScript.Proofs.Parsing.Derivation
import ScopeScript.Proofs.Parsing.Takes

/-!
# Expressions that the grammar derives are taken

Derivations are followed rule by rule. A bound on the nesting of twenty for each token is enough: a
rule calls others on the same tokens only down the levels of operators, and everywhere else has read
a token in between. Greedy rules need to know that the next token is not one they would go on with.
-/

namespace ScopeScript

open Grammar Phrase Rule

/-- The tags with which an expression of the given levels would go on. -/
def continuing (levels : List Level) : List Tag :=
  .punct .leftParen :: .punct .dot :: levels.flatMap Level.operators

/-- The tags with which an expression would go on. -/
def expressionContinuing : List Tag :=
  .punct .equal :: continuing Level.all

/-- Expressions of at most so many tokens are taken. -/
def ExpressionComplete (n : Nat) : Prop :=
  ∀ ⦃ts rest : List Token⦄ ⦃fuel : Nat⦄, Accepted (.symbol .expression) ts → ts.length ≤ n →
    20 * ts.length ≤ fuel + 5 → Avoids expressionContinuing rest →
    (expression fuel).Takes ts rest fun _ => True

/-- What an argument list may be followed by. -/
def argumentsContinuing : List Tag :=
  .punct .comma :: expressionContinuing

/-- The trees that may be assigned to. -/
def Expr.Assignable : Expr → Prop
  | .variable .. | .get .. => True
  | _ => False

section Expressions

variable {n fuel : Nat} {ts rest : List Token}

/-- A symbol stands for at least one token. -/
theorem Accepted.length_pos {s : Symbol} (h : Accepted (.symbol s) ts) : 0 < ts.length :=
  List.length_pos_iff.mpr (h.ne_nil rfl)

theorem arguments_takes (hexpr : ExpressionComplete n) {first : List Token}
    {others : List (List Token)} {count : Nat} (hfirst : Accepted (.symbol .expression) first)
    (hothers : ∀ part ∈ others, Accepted (.seq (.token (.punct .comma)) (.symbol .expression)) part)
    (hcount : count + others.length < maxArguments)
    (hlength : (first ++ others.flatten).length ≤ n)
    (hfuel : 20 * (first ++ others.flatten).length ≤ fuel + 4)
    (hrest : Avoids argumentsContinuing rest) :
    (arguments fuel count).Takes (first ++ others.flatten) rest fun _ => True := by
  induction others generalizing first count fuel with
  | nil =>
      have hpositive := Accepted.length_pos hfirst
      simp only [List.flatten_nil, List.append_nil] at hlength hfuel
      obtain ⟨fuel, rfl⟩ : ∃ k, fuel = k + 1 := ⟨fuel - 1, by omega⟩
      refine .skip (.noteBeyondLimit hcount) fun _ _ => ?_
      refine .bind (hexpr hfirst hlength (by omega) (hrest.mono (List.subset_cons_self ..)))
        fun _ _ => .accept_none (hrest.mono (by decide)) (.pure trivial)
  | cons part others ih =>
      obtain ⟨comma, second, hcomma, hsecond, rfl⟩ := derives_token_seq.mp (hothers _ (.head _))
      simp only [List.flatten_cons, List.length_append, List.length_cons] at hlength hfuel hcount
      obtain ⟨fuel, rfl⟩ : ∃ k, fuel = k + 1 := ⟨fuel - 1, by omega⟩
      refine .skip (.noteBeyondLimit (by omega)) fun _ _ => ?_
      have hcommaNext : comma.tag ∉ expressionContinuing := by
        rw [hcomma]
        decide
      refine .bind (hexpr hfirst (by omega) (by omega) (avoids_cons.mpr hcommaNext))
        fun _ _ => .accept hcomma (.bind_last (ih hsecond ?_ ?_ ?_ ?_) fun _ _ => .pure trivial)
      · exact fun q hq => hothers q (.tail _ hq)
      · omega
      · rw [List.length_append]
        omega
      · rw [List.length_append]
        omega

/-- The tags of the primary expressions that are a single token. -/
def atomTags : List Tag :=
  [.number, .string, .keyword .trueKw, .keyword .falseKw, .keyword .nilKw, .keyword .thisKw,
    .identifier]

theorem atom_takes {t : Token} (ht : t.tag ∈ atomTags) :
    (primary (fuel + 1)).Takes [t] rest fun e => t.tag = .identifier → e.Assignable := by
  obtain ⟨kind, lexeme, line⟩ := t
  have hatom : (atom? ⟨kind, lexeme, line⟩).isSome = true := by
    cases kind with
    | keyword k => cases k <;> first | rfl | simp [atomTags, Token.tag, Kind.tag] at ht
    | punct p => simp [atomTags, Token.tag, Kind.tag] at ht
    | eof => simp [atomTags, Token.tag, Kind.tag] at ht
    | _ => rfl
  refine .acceptIf hatom ?_
  cases kind with
  | keyword k =>
      cases k with
      | thisKw => exact .bind_last Takes.freshId fun _ _ => .pure (by rintro ⟨⟩)
      | falseKw | trueKw | nilKw => exact .pure (by rintro ⟨⟩)
      | _ => simp [atom?] at hatom
  | punct p => simp [atom?] at hatom
  | eof => simp [atom?] at hatom
  | identifier => exact .bind_last Takes.freshId fun _ _ => .pure fun _ => trivial
  | _ => exact .pure (by rintro ⟨⟩)

theorem primary_takes (hexpr : ExpressionComplete n) (h : Accepted (.symbol .primary) ts)
    (hlength : ts.length ≤ n + 1) (hfuel : 20 * ts.length ≤ fuel + 15) :
    (primary fuel).Takes ts rest fun _ => True := by
  have hpositive := Accepted.length_pos h
  obtain ⟨fuel, rfl⟩ : ∃ k, fuel = k + 1 := ⟨fuel - 1, by omega⟩
  have hnoAtom : ∀ {t : Token}, t.tag = .keyword .superKw ∨ t.tag = .punct .leftParen →
      (atom? t).isSome = false := by
    rintro ⟨kind, lexeme, line⟩ (ht | ht) <;> cases kind <;> cases ht <;> rfl
  obtain ⟨p, hp, hts⟩ := derives_choice.mp (derives_symbol.mp h)
  by_cases hatom : p ∈ atomTags.map .token
  · obtain ⟨tag, htag, rfl⟩ := List.mem_map.mp hatom
    obtain ⟨t, rfl, rfl⟩ := derives_token.mp hts
    exact (atom_takes htag).mono fun _ _ => trivial
  -- The other two start with tokens that are no atoms, so the rule gets to them.
  have hrest : p = sequence [mark .leftParen, .symbol .expression, mark .rightParen]
      ∨ p = sequence [word .superKw, mark .dot, name] := by
    simp only [List.mem_cons, List.not_mem_nil, or_false, atomTags, List.map_cons,
      List.map_nil] at hp hatom
    simp only [word, name] at hp ⊢
    grind
  rcases hrest with rfl | rfl
  · obtain ⟨opening, us, hopening, hus, rfl⟩ := derives_sequence_token.mp hts
    obtain ⟨inside, vs, hinside, hvs, rfl⟩ := derives_sequence_cons.mp hus
    obtain ⟨closing, ws, hclosing, hws, rfl⟩ := derives_sequence_token.mp hvs
    obtain rfl := derives_sequence_nil.mp hws
    simp only [List.length_cons, List.length_append, List.length_nil] at hlength hfuel
    refine .acceptIf_none (by simpa using hnoAtom (.inr hopening)) ?_
    refine .accept_none (by simp [hopening]) (.accept hopening ?_)
    refine .bind (hexpr hinside (by omega) (by omega) ?_) fun _ _ =>
      .expect hclosing (.pure trivial)
    rw [List.cons_append, avoids_cons, hclosing]
    decide
  · obtain ⟨keyword, us, hkeyword, hus, rfl⟩ := derives_sequence_token.mp hts
    obtain ⟨dot, vs, hdot, hvs, rfl⟩ := derives_sequence_token.mp hus
    obtain ⟨method, ws, hmethod, hws, rfl⟩ := derives_sequence_token.mp hvs
    obtain rfl := derives_sequence_nil.mp hws
    refine .acceptIf_none (by simpa using hnoAtom (.inl hkeyword)) (.accept hkeyword ?_)
    exact .expect hdot (.expect hmethod (.bind_last Takes.freshId fun _ _ => .pure trivial))

/-- A call or a property behind a callee. -/
def suffixPhrase : Phrase :=
  choice [sequence [mark .leftParen, Phrase.optional (.symbol .arguments), mark .rightParen],
    sequence [mark .dot, name]]

/-- Suffixes are read one after another, whatever comes behind them. -/
theorem callRest_takes (hexpr : ExpressionComplete n) {parts : List (List Token)}
    {tail : List Token} {P : Expr → Prop} (hparts : ∀ part ∈ parts, Accepted suffixPhrase part)
    (htail : ∀ {fuel : Nat} (callee : Expr), 20 * tail.length < fuel →
      (callRest fuel callee).Takes tail rest P)
    (hlength : parts.flatten.length ≤ n) (hfuel : 20 * (parts.flatten ++ tail).length < fuel)
    (callee : Expr) : (callRest fuel callee).Takes (parts.flatten ++ tail) rest P := by
  induction parts generalizing fuel callee with
  | nil => exact htail callee (by simpa using hfuel)
  | cons part parts ih =>
      obtain ⟨fuel, rfl⟩ : ∃ k, fuel = k + 1 := ⟨fuel - 1, by omega⟩
      have hmore := fun q hq => hparts q (.tail _ hq)
      obtain ⟨p, hp, hpart⟩ := derives_choice.mp (hparts _ (.head _))
      simp only [List.mem_cons, List.not_mem_nil, or_false] at hp
      rcases hp with rfl | rfl
      · obtain ⟨opening, us, hopening, hus, rfl⟩ := derives_sequence_token.mp hpart
        obtain ⟨inside, vs, hinside, hvs, rfl⟩ := derives_sequence_cons.mp hus
        obtain ⟨closing, ws, hclosing, hws, rfl⟩ := derives_sequence_token.mp hvs
        obtain rfl := derives_sequence_nil.mp hws
        simp only [List.flatten_cons, List.length_cons, List.length_append, List.length_nil]
          at hlength hfuel
        -- No argument starts with a closing parenthesis, so one token tells if there are any.
        have harguments : (unlessNext (.punct .rightParen) [] (arguments fuel 0)).Takes inside
            (closing :: (parts.flatten ++ tail) ++ rest) fun _ => True := by
          rcases derives_optional.mp hinside with hinside | rfl
          · obtain ⟨first, others, hfirst, hothers, hcount, rfl⟩ :=
              derives_items.mp (derives_symbol.mp hinside)
            refine .unlessNext (hinside.avoids (by decide)) ?_
            apply arguments_takes hexpr hfirst hothers (by omega) (by omega) (by omega)
            rw [List.cons_append, avoids_cons, hclosing]
            decide
          · exact .unlessNext_default hclosing trivial
        have hrest : ∀ callee, (callRest fuel callee).Takes (parts.flatten ++ tail) rest P := by
          apply ih hmore (by omega)
          rw [List.length_append]
          omega
        rw [List.flatten_cons, List.cons_append, List.cons_append, List.append_assoc,
          List.append_assoc]
        exact .accept hopening (harguments.bind fun _ _ => .expect hclosing (hrest _))
      · obtain ⟨dot, us, hdot, hus, rfl⟩ := derives_sequence_token.mp hpart
        obtain ⟨name, vs, hname, hvs, rfl⟩ := derives_sequence_token.mp hus
        obtain rfl := derives_sequence_nil.mp hvs
        simp only [List.flatten_cons, List.length_cons, List.length_append, List.length_nil]
          at hlength hfuel
        refine .accept_none (by simp [hdot]) (.accept hdot (.expect hname ?_))
        refine ih hmore (by omega) ?_ _
        rw [List.length_append]
        omega

theorem derives_call (h : Accepted (.symbol .call) ts) :
    ∃ (head : List Token) (parts : List (List Token)), Accepted (.symbol .primary) head
      ∧ (∀ part ∈ parts, Accepted suffixPhrase part) ∧ ts = head ++ parts.flatten := by
  obtain ⟨head, rest, hhead, hrest, rfl⟩ := derives_sequence_cons.mp (derives_symbol.mp h)
  obtain ⟨parts, hparts, rfl⟩ := derives_many.mp (derives_sequence_last.mp hrest)
  exact ⟨head, parts, hhead, hparts, rfl⟩

theorem callRest_stops {P : Expr → Prop} {callee : Expr}
    (hrest : Avoids [.punct .leftParen, .punct .dot] rest) (hcallee : P callee) :
    (callRest (fuel + 1) callee).Takes [] rest P :=
  .accept_none (hrest.mono (by simp)) (.accept_none (hrest.mono (by simp)) (.pure hcallee))

theorem call_takes (hexpr : ExpressionComplete n) {tail : List Token} {P : Expr → Prop}
    (h : Accepted (.symbol .call) ts)
    (htail : ∀ {fuel : Nat} (callee : Expr), 20 * tail.length < fuel →
      (callRest fuel callee).Takes tail rest P)
    (hlength : ts.length ≤ n + 1) (hfuel : 20 * (ts ++ tail).length ≤ fuel + 14) :
    (call fuel).Takes (ts ++ tail) rest P := by
  obtain ⟨head, parts, hhead, hparts, rfl⟩ := derives_call h
  have hpositive := Accepted.length_pos hhead
  simp only [List.length_append] at hlength hfuel
  obtain ⟨fuel, rfl⟩ : ∃ k, fuel = k + 1 := ⟨fuel - 1, by omega⟩
  rw [List.append_assoc]
  refine .bind (primary_takes hexpr hhead (by omega) (by omega)) fun callee _ => ?_
  refine callRest_takes hexpr hparts htail (by omega) ?_ callee
  rw [List.length_append]
  omega

/-- The tokens of a property are taken and give a tree that may be assigned to. -/
theorem property_takes (hexpr : ExpressionComplete n) {dot name : Token}
    (h : Accepted (.symbol .call) ts) (hdot : dot.tag = .punct .dot)
    (hname : name.tag = .identifier) (hlength : ts.length ≤ n + 1)
    (hfuel : 20 * (ts ++ [dot, name]).length ≤ fuel + 14)
    (hrest : Avoids [.punct .leftParen, .punct .dot] rest) :
    (call fuel).Takes (ts ++ [dot, name]) rest Expr.Assignable := by
  refine call_takes hexpr h (fun {fuel} callee hfuel => ?_) hlength hfuel
  simp only [List.length_cons, List.length_nil] at hfuel
  obtain ⟨fuel, rfl⟩ : ∃ k, fuel = k + 2 := ⟨fuel - 2, by omega⟩
  refine .accept_none (by simp [hdot]) (.accept hdot (.expect hname ?_))
  exact callRest_stops hrest trivial

theorem unary_of_call {P : Expr → Prop} (h : (call fuel).Takes ts rest P)
    (hnext : Avoids [.punct .bang, .punct .minus] (ts ++ rest)) :
    (unary (fuel + 1)).Takes ts rest P :=
  .acceptIf_none (fun t ht => by simpa using hnext t ht) h

theorem unary_takes (hexpr : ExpressionComplete n) (h : Accepted (.symbol .unary) ts)
    (hlength : ts.length ≤ n + 1) (hfuel : 20 * ts.length ≤ fuel + 13)
    (hrest : Avoids [.punct .leftParen, .punct .dot] rest) :
    (unary fuel).Takes ts rest fun _ => True := by
  induction ts generalizing fuel with
  | nil => exact (h.ne_nil rfl rfl).elim
  | cons t ts ih =>
      have hcons : (t :: ts).length = ts.length + 1 := rfl
      obtain ⟨fuel, rfl⟩ : ∃ k, fuel = k + 1 := ⟨fuel - 1, by omega⟩
      obtain ⟨p, hp, hts⟩ := derives_choice.mp (derives_symbol.mp h)
      simp only [List.mem_cons, List.not_mem_nil, or_false] at hp
      rcases hp with rfl | rfl
      · obtain ⟨_, operand, hoperator, hoperand, heq⟩ := derives_sequence_cons.mp hts
        obtain ⟨operator, hoperator, rfl⟩ : ∃ t : Token, t.tag ∈ [Tag.punct .bang, .punct .minus]
            ∧ _ = [t] := derives_choice_token.mp hoperator
        obtain ⟨rfl, rfl⟩ := List.cons.inj heq
        refine .acceptIf (by simpa using hoperator) ?_
        refine .bind_last (ih ?_ (by omega) (by omega)) fun _ _ => .pure trivial
        exact derives_sequence_last.mp hoperand
      · refine unary_of_call ?_ (Derives.avoids hts (by decide))
        rw [← List.append_nil (t :: ts)] at hfuel ⊢
        refine call_takes hexpr hts (fun {fuel} callee hfuel => ?_) hlength (by omega)
        obtain ⟨fuel, rfl⟩ : ∃ k, fuel = k + 1 := ⟨fuel - 1, by omega⟩
        exact callRest_stops hrest trivial

theorem operators_not_continuing {level : Level} {tighter : List Level}
    (h : level :: tighter <:+ Level.all) : ∀ tag ∈ level.operators, tag ∉ continuing tighter := by
  simp only [Level.all, List.suffix_cons_iff, List.cons.injEq, List.suffix_nil, reduceCtorEq,
    or_false] at h
  rcases h with ⟨rfl, rfl⟩ | ⟨rfl, rfl⟩ | ⟨rfl, rfl⟩ | ⟨rfl, rfl⟩ | ⟨rfl, rfl⟩ | ⟨rfl, rfl⟩ <;>
    decide

theorem continuing_subset {level : Level} {tighter : List Level} :
    continuing tighter ⊆ continuing (level :: tighter) := by
  intro tag htag
  simp only [continuing, List.flatMap_cons, List.mem_cons, List.mem_append] at htag ⊢
  grind

theorem Avoids.no_operator {level : Level} {tighter : List Level}
    (h : Avoids (continuing (level :: tighter)) rest) :
    ∀ t ∈ rest.head?, decide (t.tag ∈ level.operators) = false := by
  intro t ht
  have hnot := h t ht
  simp only [continuing, List.flatMap_cons, List.mem_cons, List.mem_append, not_or] at hnot
  exact decide_eq_false hnot.2.2.1

/-- An operator of a level with its right operand. -/
def Operation (level : Level) (tighter : List Level) (part : List Token) : Prop :=
  ∃ (operator : Token) (operand : List Token), operator.tag ∈ level.operators
    ∧ Accepted (.symbol (Level.symbol tighter)) operand ∧ part = operator :: operand

theorem derives_level {level : Level} {tighter : List Level}
    (hlevels : level :: tighter <:+ Level.all)
    (h : Accepted (.symbol (Level.symbol (level :: tighter))) ts) :
    ∃ (first : List Token) (parts : List (List Token)),
      Accepted (.symbol (Level.symbol tighter)) first
        ∧ (∀ part ∈ parts, Operation level tighter part) ∧ ts = first ++ parts.flatten := by
  have hphrase := derives_symbol.mp h
  rw [Level.symbol_phrase hlevels] at hphrase
  obtain ⟨first, others, hfirst, hothers, rfl⟩ := derives_seq.mp hphrase
  obtain ⟨parts, hparts, rfl⟩ := derives_many.mp hothers
  refine ⟨first, parts, hfirst, fun part hpart => ?_, rfl⟩
  obtain ⟨_, operand, hchoice, hoperand, rfl⟩ := derives_seq.mp (hparts part hpart)
  obtain ⟨operator, hoperator, rfl⟩ := derives_choice_token.mp hchoice
  exact ⟨operator, operand, hoperator, hoperand, rfl⟩

theorem operations_avoid {level : Level} {tighter : List Level} {parts : List (List Token)}
    (hlevels : level :: tighter <:+ Level.all)
    (hparts : ∀ part ∈ parts, Operation level tighter part)
    (hrest : Avoids (continuing (level :: tighter)) rest) :
    Avoids (continuing tighter) (parts.flatten ++ rest) := by
  cases parts with
  | nil => exact hrest.mono continuing_subset
  | cons part parts =>
      obtain ⟨operator, operand, hoperator, -, rfl⟩ := hparts _ (.head _)
      exact avoids_cons.mpr (operators_not_continuing hlevels _ hoperator)

/-- Expressions of some levels, of at most so many tokens, are taken. -/
def BinaryComplete (n : Nat) (levels : List Level) : Prop :=
  ∀ ⦃ts rest : List Token⦄ ⦃fuel : Nat⦄, Accepted (.symbol (Level.symbol levels)) ts →
    ts.length ≤ n → 20 * ts.length + levels.length ≤ fuel + 12 →
    Avoids (continuing levels) rest → (binary fuel levels).Takes ts rest fun _ => True

theorem binaryRest_takes {level : Level} {tighter : List Level} {parts : List (List Token)}
    (hoperand : BinaryComplete n tighter) (hlevels : level :: tighter <:+ Level.all)
    (hparts : ∀ part ∈ parts, Operation level tighter part) (hlength : parts.flatten.length ≤ n)
    (hfuel : 20 * parts.flatten.length < fuel)
    (hrest : Avoids (continuing (level :: tighter)) rest) (left : Expr) :
    (binaryRest fuel level tighter left).Takes parts.flatten rest fun _ => True := by
  induction parts generalizing fuel left with
  | nil =>
      obtain ⟨fuel, rfl⟩ : ∃ k, fuel = k + 1 := ⟨fuel - 1, by omega⟩
      exact .acceptIf_none hrest.no_operator (.pure trivial)
  | cons part parts ih =>
      obtain ⟨operator, operand, hoperator, haccepted, rfl⟩ := hparts _ (.head _)
      have hmore := fun q hq => hparts q (.tail _ hq)
      -- The operand passes all tighter levels without reading a token in between.
      have htighter : tighter.length ≤ 5 := by
        have hle := hlevels.length_le
        simp only [Level.all, List.length_cons, List.length_nil] at hle
        omega
      obtain ⟨fuel, rfl⟩ : ∃ k, fuel = k + 1 := ⟨fuel - 1, by omega⟩
      simp only [List.flatten_cons, List.length_cons, List.length_append] at hlength hfuel
      refine .acceptIf (by simpa using hoperator) ?_
      refine .bind (hoperand haccepted (by omega) (by omega) (operations_avoid hlevels hmore hrest))
        fun _ _ => ?_
      exact ih hmore (by omega) (by omega) _

theorem binary_takes (hexpr : ExpressionComplete n) {levels : List Level}
    (hlevels : levels <:+ Level.all) : BinaryComplete (n + 1) levels := by
  induction levels with
  | nil =>
      intro ts rest fuel h hlength hfuel hrest
      have hpositive := Accepted.length_pos h
      rw [List.length_nil] at hfuel
      obtain ⟨fuel, rfl⟩ : ∃ k, fuel = k + 1 := ⟨fuel - 1, by omega⟩
      exact unary_takes hexpr h hlength (by omega) hrest
  | cons level tighter ih =>
      intro ts rest fuel h hlength hfuel hrest
      obtain ⟨first, parts, hfirst, hparts, rfl⟩ := derives_level hlevels h
      have hpositive := Accepted.length_pos hfirst
      have hoperand := ih ((List.suffix_cons ..).trans hlevels)
      simp only [List.length_append, List.length_cons] at hlength hfuel
      obtain ⟨fuel, rfl⟩ : ∃ k, fuel = k + 1 := ⟨fuel - 1, by omega⟩
      refine .bind (hoperand hfirst (by omega) (by omega) (operations_avoid hlevels hparts hrest))
        fun left _ => ?_
      exact binaryRest_takes hoperand hlevels hparts (by omega) (by omega) hrest left

/-- A lone operand is taken at all levels. -/
theorem binary_of_unary {P : Expr → Prop} {levels : List Level} (h : (unary fuel).Takes ts rest P)
    (hrest : Avoids (continuing levels) rest) :
    (binary (fuel + levels.length + 1) levels).Takes ts rest P := by
  induction levels with
  | nil => exact h
  | cons level tighter ih =>
      refine .bind_last (ih (hrest.mono continuing_subset)) fun left hleft => ?_
      exact .acceptIf_none hrest.no_operator (.pure hleft)

theorem assignmentTo_takes {target : Expr} (htarget : target.Assignable) (equals : Token)
    (value : Expr) : (assignmentTo target equals value).Takes [] rest fun _ => True := by
  cases target with
  | «variable» id name => exact .bind_last Takes.freshId fun _ _ => .pure trivial
  | get object name => exact .pure trivial
  | _ => exact htarget.elim

/-- The tokens to the left of an assignment sign give a tree that may be assigned to. -/
theorem target_takes (hexpr : ExpressionComplete n) {name : Token}
    (h : Accepted (Phrase.optional (sequence [.symbol .call, mark .dot])) ts)
    (hname : name.tag = .identifier) (hlength : ts.length ≤ n)
    (hfuel : 20 * (ts ++ [name]).length ≤ fuel + 6) (hrest : Avoids (continuing Level.all) rest) :
    (binary fuel Level.all).Takes (ts ++ [name]) rest Expr.Assignable := by
  rw [List.length_append, List.length_singleton] at hfuel
  -- Ten rules are entered on the way to a name: seven for the levels, and then three more.
  obtain ⟨fuel, rfl⟩ : ∃ k, fuel = k + 3 + Level.all.length + 1 :=
    ⟨fuel - 10, by simp only [Level.all, List.length_cons, List.length_nil]; omega⟩
  simp only [Level.all, List.length_cons, List.length_nil] at hfuel
  refine binary_of_unary ?_ hrest
  rcases derives_optional.mp h with h | rfl
  · obtain ⟨us, vs, hus, hvs, rfl⟩ := derives_sequence_cons.mp h
    obtain ⟨dot, ws, hdot, hws, rfl⟩ := derives_sequence_token.mp hvs
    obtain rfl := derives_sequence_nil.mp hws
    simp only [List.length_append, List.length_cons, List.length_nil] at hlength hfuel
    rw [List.append_assoc]
    refine unary_of_call (property_takes hexpr hus hdot hname (by omega) ?_
      (hrest.mono (by decide))) ?_
    · simp only [List.length_append, List.length_cons, List.length_nil]
      omega
    · rw [List.append_assoc]
      exact hus.avoids (by decide)
  · have hatom : name.tag ∈ atomTags := by simp [hname, atomTags]
    refine unary_of_call ?_ (by simp [hname])
    refine .bind_last (atom_takes hatom) fun e he => ?_
    exact callRest_stops (hrest.mono (by decide)) (he hname)

theorem expression_takes (hexpr : ExpressionComplete n) : ExpressionComplete (n + 1) := by
  intro ts rest fuel h hlength hfuel hrest
  have hpositive := Accepted.length_pos h
  obtain ⟨fuel, rfl⟩ : ∃ k, fuel = k + 1 := ⟨fuel - 1, by omega⟩
  obtain ⟨p, hp, hts⟩ := derives_choice.mp (derives_symbol.mp (derives_symbol.mp h))
  simp only [List.mem_cons, List.not_mem_nil, or_false] at hp
  rcases hp with rfl | rfl
  · obtain ⟨us, vs, hus, hvs, rfl⟩ := derives_sequence_cons.mp hts
    obtain ⟨name, ws, hname, hws, rfl⟩ := derives_sequence_token.mp hvs
    obtain ⟨equals, value, hequals, hvalue, rfl⟩ := derives_sequence_token.mp hws
    simp only [List.length_append, List.length_cons] at hlength hfuel
    -- The rule reads the target as any expression, before it sees the sign behind it.
    have htarget : (binary fuel Level.all).Takes (us ++ [name]) (equals :: value ++ rest)
        Expr.Assignable := by
      apply target_takes hexpr hus hname (by omega)
      · rw [List.length_append, List.length_singleton]
        omega
      · rw [List.cons_append, avoids_cons, hequals]
        decide
    rw [List.append_cons]
    refine .bind htarget fun target hassignable => .accept hequals ?_
    refine .bind_last
      (hexpr (.symbol (derives_sequence_last.mp hvalue)) (by omega) (by omega) hrest)
      fun _ _ => assignmentTo_takes hassignable _ _
  · have hbinary : (binary fuel Level.all).Takes ts rest fun _ => True := by
      refine binary_takes hexpr List.suffix_rfl hts hlength ?_
        (hrest.mono (List.subset_cons_self ..))
      simp only [Level.all, List.length_cons, List.length_nil]
      omega
    refine .bind_last hbinary fun _ _ => .accept_none (hrest.mono ?_) (.pure trivial)
    decide

/-- Expressions are taken, whatever their length. -/
theorem expressionComplete (n : Nat) : ExpressionComplete n := by
  induction n with
  | zero =>
      intro ts rest fuel h hlength
      have hpositive := Accepted.length_pos h
      omega
  | succ n ih => exact expression_takes ih

end Expressions

end ScopeScript
