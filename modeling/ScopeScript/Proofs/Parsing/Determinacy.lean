import ScopeScript.Proofs.Parsing.ExpressionCompleteness
import ScopeScript.Proofs.Parsing.Reading
import ScopeScript.Proofs.Parsing.Termination

/-!
# Every reading of an expression is the one that the rules give

Tokens that are read into an expression are read into it by the rules, in front of any token with
which the expression could not go on. Operators and calls are followed from the left: what the rule
for a level does behind a left operand is what it does behind the whole of that operand's tokens.
-/

namespace ScopeScript

namespace Rule

variable {α β : Type}

/-- With any large enough bound on the nesting, a rule has the given result. -/
def Settles (rule : Nat → Rule α) (c : Cursor) (r : EStateM.Result Failure Cursor α) : Prop :=
  ∃ bound, ∀ fuel, bound ≤ fuel → rule fuel c = r

namespace Settles

variable {rule : Nat → Rule α} {f : Nat → Option Token → Rule α} {c d : Cursor}
  {r : EStateM.Result Failure Cursor α} {t : Token} {tag : Tag} {rest : List Token}

/-- A rule is entered, and one level of nesting is used up. -/
theorem enter (h : Settles (fun fuel => rule (fuel + 1)) c r) : Settles rule c r := by
  obtain ⟨bound, h⟩ := h
  refine ⟨bound + 1, fun fuel hfuel => ?_⟩
  obtain ⟨fuel, rfl⟩ : ∃ k, fuel = k + 1 := ⟨fuel - 1, by omega⟩
  exact h fuel (by omega)

theorem always {x : Rule α} (h : x c = r) : Settles (fun _ => x) c r :=
  ⟨0, fun _ _ => h⟩

/-- Nothing is left to do where the result says. -/
theorem done {a : α} (h : c = d) : Settles (fun _ => (pure a : Rule α)) c (.ok a d) :=
  always (congrArg (EStateM.Result.ok a) h)

theorem bind {x : Nat → Rule β} {g : Nat → β → Rule α} {b : β} (hx : Settles x c (.ok b d))
    (hg : Settles (fun fuel => g fuel b) d r) : Settles (fun fuel => x fuel >>= g fuel) c r := by
  obtain ⟨bound, hx⟩ := hx
  obtain ⟨bound', hg⟩ := hg
  refine ⟨max bound bound', fun fuel hfuel => ?_⟩
  exact (bind_of_ok (hx fuel (by omega))).trans (hg fuel (by omega))

theorem acceptIf {test : Token → Bool} (hc : c.rest = t :: rest) (ht : test t = true)
    (h : Settles (fun fuel => f fuel (some t)) c.next r) :
    Settles (fun fuel => Rule.acceptIf test >>= f fuel) c r :=
  bind (always (acceptIf_true hc ht)) h

theorem acceptIf_none {test : Token → Bool} (ht : ∀ t ∈ c.rest.head?, test t = false)
    (h : Settles (fun fuel => f fuel none) c r) :
    Settles (fun fuel => Rule.acceptIf test >>= f fuel) c r := by
  refine bind (always ?_) h
  cases hc : c.rest with
  | nil => exact acceptIf_nil hc test
  | cons t rest => exact acceptIf_false hc (ht t (by rw [hc]; rfl))

theorem accept (hc : c.rest = t :: rest) (ht : t.tag = tag)
    (h : Settles (fun fuel => f fuel (some t)) c.next r) :
    Settles (fun fuel => Rule.accept tag >>= f fuel) c r :=
  acceptIf hc (by simp [ht]) h

theorem accept_none (ht : Avoids [tag] c.rest) (h : Settles (fun fuel => f fuel none) c r) :
    Settles (fun fuel => Rule.accept tag >>= f fuel) c r :=
  acceptIf_none (fun t hmem => by simpa using ht t hmem) h

theorem expect {cause : SyntaxCause} {g : Nat → Token → Rule α} (hc : c.rest = t :: rest)
    (ht : t.tag = tag) (h : Settles (fun fuel => g fuel t) c.next r) :
    Settles (fun fuel => Rule.expect tag cause >>= g fuel) c r :=
  bind (always (expect_of_tag hc cause ht)) h

theorem unlessNext {default : α} (hnext : Avoids [tag] c.rest) (h : Settles rule c r) :
    Settles (fun fuel => Rule.unlessNext tag default (rule fuel)) c r := by
  have hcheck : check tag c = .ok false c := by
    cases hc : c.rest with
    | nil => exact check_nil hc tag
    | cons t rest =>
        rw [hc, avoids_cons, List.mem_singleton] at hnext
        rw [check_cons hc, decide_eq_false hnext]
  exact bind (always hcheck) (by simpa using h)

theorem unlessNext_default {default : α} (hc : c.rest = t :: rest) (ht : t.tag = tag) :
    Settles (fun fuel => Rule.unlessNext tag default (rule fuel)) c (.ok default c) := by
  refine bind (always (check_cons hc tag)) ?_
  simp only [ht, decide_true, if_true]
  exact always rfl

/-- A bound that grows with the number of tokens is large enough. -/
theorem of_grammar (h : Settles rule c r) (hrule : OfGrammar rule) {fuel : Nat}
    (hfuel : ruleFuel c.rest.length ≤ fuel) : rule fuel c = r := by
  obtain ⟨bound, h⟩ := h
  calc rule fuel c = rule (ruleFuel c.rest.length) c := hrule.unbounded hfuel
    _ = rule (max bound fuel) c := (hrule.unbounded (by omega)).symm
    _ = r := h _ (by omega)

end Settles

end Rule

open Grammar Rule

/-- Given tokens are left at a cursor, and a given number is the next one there. -/
structure Cursor.Before (all : List Token) (i : NodeId) (c : Cursor) : Prop where
  rest : c.rest = all
  nextId : c.nextId = i

namespace Cursor.Before

variable {c : Cursor} {t : Token} {ts rest : List Token} {i : NodeId}

theorem next (h : c.Before (t :: rest) i) : c.next.Before rest i :=
  ⟨next_rest h.rest, h.nextId⟩

theorem past (h : c.Before (ts ++ rest) i) (j : NodeId) :
    (c.past ts.length j).Before rest j :=
  ⟨past_rest h.rest j, rfl⟩

end Cursor.Before

section Runs

/-- The rule for a part of the grammar reads the tokens into the tree, wherever they stand in front
of tokens with which it would not go on. Where a rule loops over what follows a left operand, it
does behind all the tokens what the loop does with the tree. -/
def RunsAs : (part : Part) → List Token → NodeId → part.Tree → NodeId → Prop
  | .expression, ts, i, e, j => ∀ (c : Cursor) rest, c.Before (ts ++ rest) i →
    Avoids expressionContinuing rest → Settles expression c (.ok e (c.past ts.length j))
  | .binary [], ts, i, e, j => ∀ (c : Cursor) rest, c.Before (ts ++ rest) i →
    Avoids (continuing []) rest → Settles (binary · []) c (.ok e (c.past ts.length j))
  | .binary (level :: tighter), ts, i, e, j => level :: tighter <:+ Level.all →
    ∀ (c : Cursor) rest r, c.Before (ts ++ rest) i → Avoids (continuing tighter) rest →
      Settles (binaryRest · level tighter e) (c.past ts.length j) r →
      Settles (binary · (level :: tighter)) c r
  | .unary, ts, i, e, j => ∀ (c : Cursor) rest, c.Before (ts ++ rest) i →
    Avoids (continuing []) rest → Settles unary c (.ok e (c.past ts.length j))
  | .call, ts, i, e, j => ∀ (c : Cursor) rest r, c.Before (ts ++ rest) i →
    Settles (callRest · e) (c.past ts.length j) r → Settles call c r
  | .primary, ts, i, e, j => ∀ (c : Cursor) rest, c.Before (ts ++ rest) i →
    Settles primary c (.ok e (c.past ts.length j))
  | .arguments, ts, i, list, j => ∀ (c : Cursor) count rest, c.Before (ts ++ rest) i →
    count + list.length ≤ maxArguments → Avoids argumentsContinuing rest →
    Settles (arguments · count) c (.ok list (c.past ts.length j))
  | .argumentList, ts, i, list, j => ∀ (c : Cursor) closing rest,
    c.Before (ts ++ closing :: rest) i → closing.tag = .punct .rightParen →
    Settles (fun fuel => unlessNext (.punct .rightParen) [] (arguments fuel 0)) c
      (.ok list (c.past ts.length j))
  | _, _, _, _, _ => True

variable {ts : List Token} {i j : NodeId} {e : Expr} {c : Cursor}

/-- Behind an operand the loop over its operators stops where none follows. -/
theorem RunsAs.operand {levels : List Level} (hlevels : levels <:+ Level.all)
    (h : RunsAs (.binary levels) ts i e j) {rest : List Token} (hc : c.Before (ts ++ rest) i)
    (hrest : Avoids (continuing levels) rest) :
    Settles (binary · levels) c (.ok e (c.past ts.length j)) := by
  cases levels with
  | nil => exact h c rest hc hrest
  | cons level tighter =>
      refine h hlevels c rest _ hc (hrest.mono continuing_subset) (.enter ?_)
      exact .acceptIf_none ((hc.past j).rest ▸ hrest.no_operator) (.always rfl)

theorem RunsAs.loop {level : Level} {tighter : List Level}
    (hlevels : level :: tighter <:+ Level.all) (h : RunsAs (.binary tighter) ts i e j) :
    RunsAs (.binary (level :: tighter)) ts i e j :=
  fun _ _ _ _ hc hrest hloop =>
    .enter (.bind (h.operand ((List.suffix_cons ..).trans hlevels) hc hrest) hloop)

/-- An assignment to what is read in front of the sign, of what is read behind it. -/
theorem RunsAs.assignment {target value : List Token} {equals : Token} {k l : NodeId}
    {left right : Expr} (hleft : RunsAs (.binary Level.all) target i left k)
    (hequals : equals.tag = .punct .equal) (hright : RunsAs .expression value k right j)
    (hassign : ∀ c : Cursor, c.nextId = j →
      assignmentTo left equals right c = .ok e { c with nextId := l }) :
    RunsAs .expression (target ++ equals :: value) i e l := by
  intro c rest hc hrest
  rw [List.append_assoc, List.cons_append] at hc
  have hnext : Avoids (continuing Level.all) (equals :: (value ++ rest)) :=
    avoids_cons.mpr (by rw [hequals]; decide)
  have hbehind := hc.past k
  refine .enter (.bind (hleft.operand List.suffix_rfl hc hnext) ?_)
  refine .accept hbehind.rest hequals (.bind (hright _ rest hbehind.next hrest) ?_)
  rw [← Cursor.past_append c target _ k, ← Cursor.past_cons]
  exact .always (hassign _ rfl)

theorem noteBeyondLimit_runs {count : Nat} {cause : SyntaxCause} {c : Cursor}
    (h : count < maxArguments) : noteBeyondLimit count cause c = .ok () c := by
  unfold noteBeyondLimit
  rw [if_neg (Nat.not_le.mpr h)]
  rfl

/-- A token that is a whole expression is read into it. -/
theorem atom_runs {t : Token} {rest : List Token} (hc : c.Before (t :: rest) i)
    (hatom : (atom? t).isSome = true)
    (h : (atom? t).getD (Rule.fail .expression) c.next = .ok e (c.past 1 j)) :
    Settles primary c (.ok e (c.past 1 j)) :=
  .enter (.acceptIf hc.rest hatom (.always h))

theorem atom?_constant {t : Token} {value : Literal} (h : t.kind.constant? = some value) :
    atom? t = some (return .literal value) := by
  obtain ⟨kind, lexeme, line⟩ := t
  cases kind with
  | keyword k => cases k <;> cases h <;> rfl
  | number | string =>
      cases h
      rfl
  | punct | identifier | eof => cases h

/-- Neither `super` nor a parenthesis is a whole expression. -/
theorem atom?_none {t : Token} (h : t.tag = .keyword .superKw ∨ t.tag = .punct .leftParen) :
    (atom? t).isSome = false := by
  obtain ⟨kind, lexeme, line⟩ := t
  rcases h with h | h <;> cases kind <;> cases h <;> rfl

theorem Reads.runs {part : Part} {ts : List Token} {i j : NodeId} {tree : part.Tree}
    (h : Reads part ts i tree j) : RunsAs part ts i tree j := by
  induction h with
  | loosest _ ih =>
      intro c rest hc hrest
      refine .enter
        (.bind (ih.operand List.suffix_rfl hc (hrest.mono (List.subset_cons_self ..))) ?_)
      refine .accept_none ?_ (.done rfl)
      rw [(hc.past _).rest]
      exact hrest.mono (by simp [expressionContinuing])
  | assign _ hequals _ ihTarget ihValue =>
      refine ihTarget.assignment hequals ihValue ?_
      rintro c rfl
      rfl
  | set _ hequals _ ihTarget ihValue =>
      refine ihTarget.assignment hequals ihValue ?_
      rintro c rfl
      rfl
  | operand _ ih => exact fun c rest hc hrest => .enter (ih c rest hc hrest)
  | tighter _ ih => exact fun hlevels => ih.loop hlevels hlevels
  | @operation first second operator _ k _ _ _ level levels _ hoperator _ ihLeft ihRight =>
      intro hlevels c rest r hc hrest hloop
      rw [List.append_assoc, List.cons_append] at hc
      have hbehind := hc.past k
      refine ihLeft hlevels c _ _ hc
        (avoids_cons.mpr (operators_not_continuing hlevels _ hoperator)) (.enter ?_)
      refine .acceptIf hbehind.rest (by simpa using hoperator) ?_
      rw [← Cursor.past_append c first _ k, ← Cursor.past_cons] at hloop
      exact .bind (ihRight.operand ((List.suffix_cons ..).trans hlevels) hbehind.next hrest) hloop
  | unary hoperator _ ih =>
      intro c rest hc hrest
      refine .enter (.acceptIf hc.rest (by simpa using hoperator) ?_)
      rw [← Cursor.past_cons]
      exact .bind (ih _ rest hc.next hrest) (.done rfl)
  | @noUnary _ _ j _ hcall ih =>
      intro c rest hc hrest
      have hnext : Avoids [.punct .bang, .punct .minus] c.rest :=
        hc.rest ▸ hcall.derived.1.avoids (by decide)
      have hbehind := (hc.past j).rest
      refine .enter (.acceptIf_none (fun t ht => by simpa using hnext t ht)
        (ih c rest _ hc (.enter ?_)))
      refine .accept_none ?_ (.accept_none ?_ (.done rfl)) <;>
        exact hbehind ▸ hrest.mono (by simp [continuing])
  | callee _ ih => exact fun c rest r hc hloop => .enter (.bind (ih c rest hc) hloop)
  | @call callee inside opening closing _ k j _ _ _ hopening _ hclosing ihCallee ihArguments =>
      intro c rest r hc hloop
      rw [List.append_assoc, List.cons_append, List.append_assoc, List.singleton_append] at hc
      have hbehind := hc.past k
      have hinside := hbehind.next.past j
      refine ihCallee c _ r hc (.enter (.accept hbehind.rest hopening ?_))
      refine .bind (ihArguments _ _ rest hbehind.next hclosing) (.expect hinside.rest hclosing ?_)
      rw [← Cursor.past_append c callee _ k, ← Cursor.past_cons, ← Cursor.past_append _ inside _ j]
        at hloop
      exact hloop
  | @get object dot name _ j _ _ hdot hname ih =>
      intro c rest r hc hloop
      rw [List.append_assoc] at hc
      have hbehind := hc.past j
      refine ih c _ r hc (.enter (.accept_none ?_ (.accept hbehind.rest hdot ?_)))
      · rw [hbehind.rest]
        simp [hdot]
      · rw [← Cursor.past_append c object _ j] at hloop
        exact .expect hbehind.next.rest hname hloop
  | lastArgument _ ih =>
      intro c count rest hc hcount hrest
      refine .enter (.bind (.always (noteBeyondLimit_runs hcount)) ?_)
      refine .bind (ih c rest hc (hrest.mono (List.subset_cons_self ..))) ?_
      refine .accept_none ?_ (.done rfl)
      exact (hc.past _).rest ▸ hrest.mono (by simp [argumentsContinuing])
  | @moreArguments first others comma _ k j _ _ _ hcomma _ ihFirst ihOthers =>
      intro c count rest hc hcount hrest
      rw [List.length_cons] at hcount
      rw [List.append_assoc, List.cons_append] at hc
      have hbehind := hc.past k
      refine .enter (.bind (.always (noteBeyondLimit_runs (by omega))) ?_)
      refine .bind (ihFirst c _ hc (avoids_cons.mpr (by rw [hcomma]; decide))) ?_
      refine .accept hbehind.rest hcomma ?_
      rw [← Cursor.past_append c first _ k, ← Cursor.past_cons]
      exact .bind (ihOthers _ (count + 1) rest hbehind.next (by omega) hrest) (.done rfl)
  | noArguments =>
      intro c closing rest hc hclosing
      obtain rfl := hc.nextId
      exact .unlessNext_default hc.rest hclosing
  | someArguments harguments hcount ih =>
      intro c closing rest hc hclosing
      have haccepted : Accepted (.symbol .arguments) _ := .symbol (harguments.derived.items hcount)
      refine .unlessNext (hc.rest ▸ haccepted.avoids (by decide)) (ih c 0 _ hc (by omega) ?_)
      rw [avoids_cons, hclosing]
      decide
  | literal hconstant =>
      have hatom := atom?_constant hconstant
      intro c rest hc
      obtain rfl := hc.nextId
      exact atom_runs hc (by simp [hatom]) (by rw [hatom]; rfl)
  | @thisExpr t _ ht =>
      intro c rest hc
      obtain rfl := hc.nextId
      obtain ⟨kind, lexeme, line⟩ := t
      cases kind <;> cases ht
      exact atom_runs hc rfl rfl
  | @«variable» t _ ht =>
      intro c rest hc
      obtain rfl := hc.nextId
      obtain ⟨kind, lexeme, line⟩ := t
      cases kind <;> cases ht
      exact atom_runs hc rfl rfl
  | superExpr hkeyword hdot hmethod =>
      intro c rest hc
      obtain rfl := hc.nextId
      refine .enter (.acceptIf_none ?_ (.accept hc.rest hkeyword ?_))
      · rw [hc.rest]
        simpa using atom?_none (.inl hkeyword)
      · exact .expect hc.next.rest hdot (.expect hc.next.next.rest hmethod (.always rfl))
  | @grouping inside opening closing _ j _ hopening _ hclosing ih =>
      intro c rest hc
      rw [List.cons_append, List.append_assoc, List.singleton_append] at hc
      have hinside := hc.next.past j
      refine .enter (.acceptIf_none ?_ (.accept_none ?_ (.accept hc.rest hopening ?_)))
      · rw [hc.rest]
        simpa using atom?_none (.inr hopening)
      · rw [hc.rest]
        simp [hopening]
      · refine .bind (ih _ _ hc.next (avoids_cons.mpr (by rw [hclosing]; decide))) ?_
        rw [← Cursor.past_cons, ← Cursor.past_append _ inside _ j]
        exact .expect hinside.rest hclosing (.done rfl)
  | _ => exact trivial

/-- In front of tokens with which it could not go on, an expression is read into the tree that its
tokens are read into, and nothing is noted. -/
theorem expression_runs {rest : List Token} (h : Reads .expression ts i e j)
    (hc : c.Before (ts ++ rest) i) (hrest : Avoids expressionContinuing rest) {fuel : Nat}
    (hfuel : ruleFuel (ts ++ rest).length ≤ fuel) :
    expression fuel c = .ok e (c.past ts.length j) :=
  (h.runs c rest hc hrest).of_grammar .expression (hc.rest ▸ hfuel)

end Runs

end ScopeScript
