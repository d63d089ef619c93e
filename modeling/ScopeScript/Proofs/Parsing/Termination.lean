import ScopeScript.Proofs.Parsing.Likeness

/-!
# Reading always comes to an end

What a rule calls has fewer tokens left, or it is one of a few rules that are entered in between
without reading a token. So a bound on the nesting that grows with the number of tokens is never
reached: whatever the tokens are, every rule gives a result or is refused. As a rule that does not
come to its bound does the same under every larger one, the rules stand for recursive procedures
without a bound, and these terminate. A program is read up to the first end token, or up to the end
of the list where there is none.
-/

namespace ScopeScript

namespace Rule

variable {α β : Type}

/-- Where at most `n` tokens are left, a rule does not come to its bound. -/
def Halts (n : Nat) (rule : Rule α) : Prop :=
  ∀ c : Cursor, c.rest.length ≤ n → ∀ d, rule c ≠ .error .exhausted d

theorem bind_exhausted {x : Rule α} {f : α → Rule β} {c d : Cursor} :
    (x >>= f) c = .error .exhausted d ↔
      x c = .error .exhausted d ∨ ∃ a e, x c = .ok a e ∧ f a e = .error .exhausted d := by
  change EStateM.bind x f c = _ ↔ _
  unfold EStateM.bind
  cases x c <;> simp

namespace Halts

variable {n : Nat}

theorem pure (a : α) : Halts n (Pure.pure a : Rule α) :=
  fun _ _ _ => nofun

theorem bind {x : Rule α} {f : α → Rule β} (hx : Halts n x) (hadv : x.Advances)
    (hf : ∀ a, Halts n (f a)) : Halts n (x >>= f) := by
  intro c hc d hrun
  rcases bind_exhausted.mp hrun with hrun | ⟨a, e, hrun, hrest⟩
  · exact hx c hc d hrun
  · exact hf a e (Nat.le_trans (hadv.rest_le hrun) hc) d hrest

/-- Behind a rule that reads a token, fewer tokens are left. -/
theorem bind_less {x : Rule α} {f : α → Rule β} (hx : Halts n x) (hread : x.Consumes)
    (hf : ∀ a, ∀ m < n, Halts m (f a)) : Halts n (x >>= f) := by
  intro c hc d hrun
  rcases bind_exhausted.mp hrun with hrun | ⟨a, e, hrun, hrest⟩
  · exact hx c hc d hrun
  · exact hf a _ (Nat.lt_of_lt_of_le (hread _ _ _ hrun) hc) e (Nat.le_refl _) d hrest

theorem map {f : α → β} {x : Rule α} (hx : Halts n x) : Halts n (f <$> x) := by
  intro c hc d hrun
  rw [map_eq_pure_bind] at hrun
  rcases bind_exhausted.mp hrun with hrun | ⟨a, e, -, hrest⟩
  · exact hx c hc d hrun
  · cases hrest

theorem ite {p : Prop} [Decidable p] {x y : Rule α} (hx : Halts n x) (hy : Halts n y) :
    Halts n (if p then x else y) := by
  split
  · exact hx
  · exact hy

theorem check (tag : Tag) : Halts n (Rule.check tag) :=
  fun _ _ _ => nofun

theorem atEnd : Halts n Rule.atEnd :=
  fun _ _ _ => nofun

theorem freshId : Halts n Rule.freshId :=
  fun _ _ _ => nofun

theorem note (token : Token) (cause : SyntaxCause) : Halts n (Rule.note token cause) :=
  fun _ _ _ => nofun

theorem fail (cause : SyntaxCause) : Halts n (Rule.fail cause : Rule α) :=
  fun _ _ _ => nofun

/-- A token may be accepted, and then fewer are left. -/
theorem acceptIf {test : Token → Bool} {f : Option Token → Rule β}
    (hsome : ∀ t, ∀ m < n, Halts m (f (some t))) (hnone : Halts n (f none)) :
    Halts n (Rule.acceptIf test >>= f) := by
  intro c hc d hrun
  cases hrest : c.rest with
  | nil =>
      rw [bind_of_ok (acceptIf_nil hrest test)] at hrun
      exact hnone c hc d hrun
  | cons t rest =>
      cases ht : test t with
      | true =>
          rw [bind_of_ok (acceptIf_true hrest ht)] at hrun
          rw [hrest, List.length_cons] at hc
          exact hsome t _ hc _ (by rw [Cursor.next_rest hrest]) d hrun
      | false =>
          rw [bind_of_ok (acceptIf_false hrest ht)] at hrun
          exact hnone c hc d hrun

theorem ifAccept {tag : Tag} {x y : Rule β} (hx : ∀ m < n, Halts m x) (hy : Halts n y) :
    Halts n (do if (← Rule.accept tag).isSome then x else y) :=
  acceptIf (fun _ => hx) hy

/-- Behind a token that is expected, fewer are left. -/
theorem expect {tag : Tag} {cause : SyntaxCause} {f : Token → Rule β}
    (hf : ∀ t, ∀ m < n, Halts m (f t)) : Halts n (Rule.expect tag cause >>= f) := by
  have hexpect : Halts n (Rule.expect tag cause) :=
    acceptIf (fun t _ _ => pure t) (fail cause)
  exact hexpect.bind_less (.expect tag cause) hf

theorem unlessNext {tag : Tag} {default : α} {x : Rule α} (h : Halts n x) :
    Halts n (Rule.unlessNext tag default x) :=
  (check tag).bind (.check tag) fun _ => .ite (pure _) h

theorem noteBeyondLimit (count : Nat) (cause : SyntaxCause) :
    Halts n (noteBeyondLimit count cause) := by
  unfold ScopeScript.noteBeyondLimit
  exact .ite (fun _ _ _ => nofun) (pure ())

/-- A rule that is recovered from gives a result. -/
theorem recover_ok {x : Rule α} (h : Halts n x) {c : Cursor} (hc : c.rest.length ≤ n) :
    ∃ result d, recover x c = .ok result d := by
  unfold recover
  rcases hrun : x c with ⟨a, d⟩ | ⟨e | _, d⟩
  · exact ⟨_, _, rfl⟩
  · exact ⟨_, _, rfl⟩
  · exact (h c hc d hrun).elim

/-- Before the end, fewer tokens are left behind a rule that is recovered from. -/
theorem recover_less {x : Rule α} {f : Option α → Rule β} (h : Halts n x) (hadv : x.Advances)
    (hread : x.Consumes) (hf : ∀ a, ∀ m < n, Halts m (f a)) {c : Cursor} (hc : c.rest.length ≤ n)
    (hmore : c.rest ≠ []) (d : Cursor) : (recover x >>= f) c ≠ .error .exhausted d := by
  intro hrun
  obtain ⟨result, e, hrecover⟩ := h.recover_ok hc
  rw [bind_of_ok hrecover] at hrun
  have hless := recover_progress hadv hread hmore hrecover
  exact hf result _ (Nat.lt_of_lt_of_le hless hc) e (Nat.le_refl _) d hrun

end Halts

end Rule

open Rule (Advances Consumes Halts)

section Tails

variable {n : Nat}

theorem assignmentTo_halts (target : Expr) (equals : Token) (value : Expr) :
    Halts n (assignmentTo target equals value) := by
  unfold assignmentTo
  split
  · exact Halts.freshId.bind .freshId fun _ => .pure _
  · exact .pure _
  · exact (Halts.note _ _).bind (.note _ _) fun _ => .pure _

theorem superRest_halts (keyword : Token) : Halts n (superRest keyword) :=
  .expect fun _ _ _ => .expect fun _ _ _ => Halts.freshId.bind .freshId fun _ => .pure _

theorem atom_halts (token : Token) :
    Halts n ((atom? token).getD (Rule.fail .expression)) := by
  unfold atom?
  split
  case h_6 | h_7 => exact Halts.freshId.bind .freshId fun _ => .pure _
  case h_8 => exact .fail _
  all_goals exact .pure _

theorem breakRest_halts (keyword : Token) : Halts n (breakRest keyword) :=
  .expect fun _ _ _ => .pure _

theorem superclassClause_halts : Halts n superclassClause :=
  .ifAccept (fun _ _ => .expect fun _ _ _ => Halts.freshId.bind .freshId fun _ => .pure _) (.pure _)

theorem argumentsRest_halts {fuel : Nat} (h : Halts n (arguments fuel 0)) (callee : Expr) :
    Halts n (argumentsRest fuel callee) :=
  h.unlessNext.bind (.unlessNext _ _ ((expressionsAdvance fuel).arguments 0)) fun _ =>
    .expect fun _ _ _ => .pure _

end Tails

/-- The rules for expressions do not come to a bound that is large enough for the tokens that are
left. -/
structure ExpressionsHalt (fuel : Nat) : Prop where
  expression : ∀ n, 20 * n + 11 ≤ fuel → Halts n (expression fuel)
  binary : ∀ levels n, 20 * n + 4 + levels.length ≤ fuel → Halts n (binary fuel levels)
  binaryRest : ∀ level tighter left n, 20 * n + 1 + tighter.length ≤ fuel →
    Halts n (binaryRest fuel level tighter left)
  unary : ∀ n, 20 * n + 3 ≤ fuel → Halts n (unary fuel)
  call : ∀ n, 20 * n + 2 ≤ fuel → Halts n (call fuel)
  callRest : ∀ callee n, 20 * n + 1 ≤ fuel → Halts n (callRest fuel callee)
  arguments : ∀ count n, 20 * n + 12 ≤ fuel → Halts n (arguments fuel count)
  primary : ∀ n, 20 * n + 1 ≤ fuel → Halts n (primary fuel)

theorem expressionsHalt (fuel : Nat) : ExpressionsHalt fuel := by
  induction fuel with
  | zero => constructor <;> intros <;> omega
  | succ fuel ih =>
      have hadv := expressionsAdvance fuel
      have hread := expressionsConsume fuel
      constructor
      case expression =>
        intro n hn
        have hlevels : Level.all.length = 6 := rfl
        exact (ih.binary _ n (by omega)).bind (hadv.binary _) fun _ =>
          .acceptIf (fun _ m hm => (ih.expression m (by omega)).bind hadv.expression fun _ =>
            assignmentTo_halts _ _ _) (.pure _)
      case binary =>
        intro levels n hn
        cases levels with
        | nil => exact ih.unary n (by simpa using hn)
        | cons level tighter =>
            rw [List.length_cons] at hn
            exact (ih.binary tighter n (by omega)).bind_less (hread.binary _) fun _ m hm =>
              ih.binaryRest _ _ _ m (by omega)
      case binaryRest =>
        intro level tighter left n hn
        exact .acceptIf (fun _ m hm => (ih.binary tighter m (by omega)).bind (hadv.binary _)
          fun _ => ih.binaryRest _ _ _ m (by omega)) (.pure _)
      case unary =>
        intro n hn
        exact .acceptIf (fun _ m hm => (ih.unary m (by omega)).bind hadv.unary fun _ => .pure _)
          (ih.call n (by omega))
      case call =>
        intro n hn
        exact (ih.primary n (by omega)).bind hadv.primary fun _ => ih.callRest _ n (by omega)
      case callRest =>
        intro callee n hn
        rw [callRest_succ]
        refine .ifAccept (fun m hm => ?_) <| .ifAccept (fun m hm => ?_) (.pure _)
        · exact (argumentsRest_halts (ih.arguments 0 m (by omega)) callee).bind
            (argumentsRest_advances hadv.arguments callee) fun _ => ih.callRest _ m (by omega)
        · exact .expect fun _ k hk => ih.callRest _ k (by omega)
      case arguments =>
        intro count n hn
        exact (Halts.noteBeyondLimit _ _).bind (noteBeyondLimit_advances _ _) fun _ =>
          (ih.expression n (by omega)).bind hadv.expression fun _ =>
            .ifAccept (fun m hm => (ih.arguments _ m (by omega)).bind (hadv.arguments _) fun _ =>
              .pure _) (.pure _)
      case primary =>
        intro n hn
        exact .acceptIf (fun _ _ _ => atom_halts _) <|
          .acceptIf (fun _ _ _ => superRest_halts _) <|
            .ifAccept (fun m hm => (ih.expression m (by omega)).bind hadv.expression fun _ =>
              .expect fun _ _ _ => .pure _) (.fail _)

section Halting

variable {fuel n : Nat}

theorem expression_halts (h : 20 * n + 11 ≤ fuel) : Halts n (expression fuel) :=
  (expressionsHalt fuel).expression n h

theorem optionalExpression_halts (tag : Tag) (h : 20 * n + 11 ≤ fuel) :
    Halts n (Rule.unlessNext tag none (some <$> expression fuel)) :=
  (expression_halts h).map.unlessNext

theorem parameters_halts {count : Nat} (h : n < fuel) : Halts n (parameters fuel count) := by
  induction fuel generalizing count n with
  | zero => omega
  | succ fuel ih =>
      exact (Halts.noteBeyondLimit _ _).bind (noteBeyondLimit_advances _ _) fun _ =>
        .expect fun _ m hm => .ifAccept (fun k hk => (ih (by omega)).bind
          (parameters_advances fuel _) fun _ => .pure _) (.pure _)

theorem initializer_halts (h : 20 * n + 11 ≤ fuel) : Halts n (initializer fuel) :=
  .ifAccept (fun m hm => (expression_halts (by omega)).map) (.pure _)

theorem varRest_halts (h : 20 * n + 11 ≤ fuel) : Halts n (varRest fuel) :=
  .expect fun _ m hm => (initializer_halts (by omega)).bind (initializer_advances fuel) fun _ =>
    .expect fun _ _ _ => .pure _

theorem letRest_halts (h : 20 * n + 11 ≤ fuel) : Halts n (letRest fuel) :=
  .expect fun _ m hm => .expect fun _ k hk =>
    (expression_halts (by omega)).bind (expression_advances fuel) fun _ =>
      .expect fun _ _ _ => .pure _

theorem expressionStatement_halts (h : 20 * n + 11 ≤ fuel) : Halts n (expressionStatement fuel) :=
  (expression_halts h).bind (expression_advances fuel) fun _ => .expect fun _ _ _ => .pure _

theorem printRest_halts (h : 20 * n + 11 ≤ fuel) : Halts n (printRest fuel) :=
  (expression_halts h).bind (expression_advances fuel) fun _ => .expect fun _ _ _ => .pure _

theorem returnRest_halts (keyword : Token) (h : 20 * n + 11 ≤ fuel) :
    Halts n (returnRest fuel keyword) :=
  (optionalExpression_halts _ h).bind (optionalExpression_advances fuel _) fun _ =>
    .expect fun _ _ _ => .pure _

theorem condition_halts (opening : SyntaxCause) (h : 20 * n + 11 ≤ fuel) :
    Halts n (condition fuel opening) :=
  .expect fun _ m hm => (expression_halts (by omega)).bind (expression_advances fuel) fun _ =>
    .expect fun _ _ _ => .pure _

theorem forInitializer_halts (h : 20 * n + 11 ≤ fuel) : Halts n (forInitializer fuel) :=
  .ifAccept (fun _ _ => .pure _) <| .ifAccept (fun m hm => (varRest_halts (by omega)).map) <|
    .ifAccept (fun m hm => (letRest_halts (by omega)).map) (expressionStatement_halts h).map

theorem forClauses_halts (h : 20 * n + 11 ≤ fuel) : Halts n (forClauses fuel) :=
  .expect fun _ m hm => (forInitializer_halts (by omega)).bind (forInitializer_advances fuel)
    fun _ => (optionalExpression_halts _ (by omega)).bind (optionalExpression_advances fuel _)
      fun _ => .expect fun _ k hk =>
        (optionalExpression_halts _ (by omega)).bind (optionalExpression_advances fuel _) fun _ =>
          .expect fun _ _ _ => .pure _

end Halting

/-- The rules for statements do not come to a bound that is large enough for the tokens that are
left. -/
structure StatementsHalt (fuel : Nat) : Prop where
  declaration : ∀ n, 20 * n + 13 ≤ fuel → Halts n (declaration fuel)
  classRest : ∀ n, 20 * n + 2 ≤ fuel → Halts n (classRest fuel)
  methodList : ∀ n, 20 * n + 2 ≤ fuel → Halts n (methodList fuel)
  function : ∀ callee n, 20 * n + 1 ≤ fuel → Halts n (function fuel callee)
  statement : ∀ n, 20 * n + 12 ≤ fuel → Halts n (statement fuel)
  blockRest : ∀ n, 20 * n + 15 ≤ fuel → Halts n (blockRest fuel)
  declarationList : ∀ n, 20 * n + 14 ≤ fuel → Halts n (declarationList fuel)

namespace StatementsHalt

variable {fuel n : Nat} (ih : StatementsHalt fuel) (h : 20 * n + 12 ≤ fuel)
include ih h

theorem forRest : Halts n (forRest fuel) :=
  (forClauses_halts (by omega)).bind (forClauses_advances fuel) fun _ =>
    (ih.statement n h).bind (statementsAdvance fuel).statement fun _ => .pure _

theorem ifRest : Halts n (ifRest fuel) :=
  (condition_halts _ (by omega)).bind (condition_advances fuel _) fun _ =>
    (ih.statement n h).bind (statementsAdvance fuel).statement fun _ =>
      .ifAccept (fun m hm => (ih.statement m (by omega)).bind (statementsAdvance fuel).statement
        fun _ => .pure _) (.pure _)

theorem whileRest : Halts n (whileRest fuel) :=
  (condition_halts _ (by omega)).bind (condition_advances fuel _) fun _ =>
    (ih.statement n h).bind (statementsAdvance fuel).statement fun _ => .pure _

end StatementsHalt

theorem statementsHalt (fuel : Nat) : StatementsHalt fuel := by
  induction fuel with
  | zero => constructor <;> intros <;> omega
  | succ fuel ih =>
      have hadv := statementsAdvance fuel
      have hread := statementsConsume fuel
      constructor
      case declaration =>
        intro n hn
        exact .ifAccept (fun m hm => ih.classRest m (by omega)) <|
          .ifAccept (fun m hm => (ih.function _ m (by omega)).map) <|
            .ifAccept (fun m hm => varRest_halts (by omega)) <|
              .ifAccept (fun m hm => letRest_halts (by omega)) (ih.statement n (by omega))
      case classRest =>
        intro n hn
        exact .expect fun _ m hm =>
          superclassClause_halts.bind superclassClause_advances fun _ => .expect fun _ k hk =>
            (ih.methodList k (by omega)).bind hadv.methodList fun _ =>
              .expect fun _ _ _ => .pure _
      case methodList =>
        intro n hn
        exact (Halts.check _).bind (.check _) fun _ => Halts.atEnd.bind .atEnd fun _ =>
          .ite (.pure _) <| (ih.function _ n (by omega)).bind_less (hread.function _) fun _ m hm =>
            (ih.methodList m (by omega)).bind hadv.methodList fun _ => .pure _
      case function =>
        intro callee n hn
        exact .expect fun _ m hm => .expect fun _ k hk =>
          (parameters_halts (by omega)).unlessNext.bind
            (.unlessNext _ _ (parameters_advances fuel 0)) fun _ => .expect fun _ _ _ =>
              .expect fun _ _ _ => (ih.blockRest _ (by omega)).bind hadv.blockRest fun _ => .pure _
      case statement =>
        intro n hn
        rw [statement_succ]
        exact .ifAccept (fun m hm => ih.forRest (by omega)) <|
          .ifAccept (fun m hm => ih.ifRest (by omega)) <|
            .ifAccept (fun m hm => ih.whileRest (by omega)) <|
              .acceptIf (fun _ m hm => returnRest_halts _ (by omega)) <|
                .acceptIf (fun _ _ _ => breakRest_halts _) <|
                  .ifAccept (fun m hm => (ih.blockRest m (by omega)).map) <|
                    .ifAccept (fun m hm => printRest_halts (by omega))
                      (expressionStatement_halts (by omega))
      case blockRest =>
        intro n hn
        exact (ih.declarationList n (by omega)).bind hadv.declarationList fun _ =>
          .expect fun _ _ _ => .pure _
      case declarationList =>
        intro n hn
        refine (Halts.check _).bind (.check _) fun closes c hc d hrun => ?_
        rcases Rule.bind_exhausted.mp hrun with hrun | ⟨ends, e, hends, hrun⟩
        · cases hrun
        · cases hends
          split at hrun
          next => cases hrun
          next hmore =>
            simp only [Bool.or_eq_true, Cursor.atEnd_iff, not_or] at hmore
            refine (ih.declaration n (by omega)).recover_less hadv.declaration hread.declaration
              (fun _ m hm => ?_) hc hmore.2 d hrun
            exact (ih.declarationList m (by omega)).bind hadv.declarationList fun _ => .pure _

/-- No rule of the grammar comes to the bound that programs are read with. -/
theorem OfGrammar.halts {α : Type} {rule : Nat → Rule α} (h : OfGrammar rule) {fuel n : Nat}
    (hfuel : ruleFuel n ≤ fuel) : Halts n (rule fuel) := by
  have hexpr := expressionsHalt fuel
  have hstmt := statementsHalt fuel
  unfold ruleFuel at hfuel
  cases h with
  | expression => exact hexpr.expression n (by omega)
  | binary levels hlevels =>
      have hlength : levels.length ≤ 6 := hlevels.length_le
      exact hexpr.binary levels n (by omega)
  | unary => exact hexpr.unary n (by omega)
  | call => exact hexpr.call n (by omega)
  | argumentsRest callee => exact argumentsRest_halts (hexpr.arguments 0 n (by omega)) callee
  | primary => exact hexpr.primary n (by omega)
  | declaration => exact hstmt.declaration n (by omega)
  | classRest => exact hstmt.classRest n (by omega)
  | function callee => exact hstmt.function callee n (by omega)
  | varRest => exact varRest_halts (by omega)
  | letRest => exact letRest_halts (by omega)
  | statement => exact hstmt.statement n (by omega)
  | forRest => exact hstmt.forRest (by omega)
  | ifRest => exact hstmt.ifRest (by omega)
  | whileRest => exact hstmt.whileRest (by omega)
  | returnRest keyword => exact returnRest_halts keyword (by omega)
  | breakRest keyword => exact breakRest_halts keyword
  | printRest => exact printRest_halts (by omega)
  | expressionStatement => exact expressionStatement_halts (by omega)
  | blockRest => exact hstmt.blockRest n (by omega)

/-- Any larger bound gives what that one gives. -/
theorem OfGrammar.unbounded {α : Type} {rule : Nat → Rule α} (h : OfGrammar rule) {fuel : Nat}
    {c : Cursor} (hfuel : ruleFuel c.rest.length ≤ fuel) :
    rule fuel c = rule (ruleFuel c.rest.length) c :=
  (h.respects identical hfuel).unbounded (h.halts (Nat.le_refl _) c (Nat.le_refl _))

/-- Declarations are read up to the end. -/
theorem topLevel_ends {fuel : Nat} {c : Cursor} (h : ruleFuel c.rest.length ≤ fuel) :
    ∃ program c', topLevel fuel c = .ok program c' ∧ c'.rest = [] := by
  unfold ruleFuel at h
  induction fuel generalizing c with
  | zero => omega
  | succ fuel ih =>
      by_cases hc : c.rest = []
      · exact ⟨[], c, Rule.bind_of_ok (Rule.atEnd_nil hc), hc⟩
      · have hhalts := (statementsHalt fuel).declaration c.rest.length (by omega)
        obtain ⟨first, d, hfirst⟩ := hhalts.recover_ok (Nat.le_refl _)
        have hless := declaration_progress hc hfirst
        obtain ⟨others, c', hothers, hend⟩ := ih (c := d) (by omega)
        refine ⟨first.toList ++ others, c', ?_, hend⟩
        obtain ⟨t, rest, hrest⟩ := List.exists_cons_of_ne_nil hc
        refine (Rule.bind_of_ok (Rule.atEnd_cons hrest)).trans ?_
        exact Rule.bind_ok.mpr ⟨first, d, hfirst, Rule.map_ok.mpr ⟨others, hothers, rfl⟩⟩

/-- Any larger bound gives the same program. -/
theorem topLevel_unbounded {fuel more : Nat} {c : Cursor} (h : ruleFuel c.rest.length ≤ fuel)
    (hmore : fuel ≤ more) : topLevel more c = topLevel fuel c := by
  obtain ⟨program, c', hrun, -⟩ := topLevel_ends h
  refine (topLevel_respects identical hmore).unbounded fun d hexhausted => ?_
  rw [hrun] at hexhausted
  cases hexhausted

/-! ## Places among all tokens -/

/-- Reading goes on from one place to another among the same tokens, over tokens that are no end
tokens. -/
structure Cursor.Passes (c d : Cursor) : Prop where
  tokens : d.tokens = c.tokens
  le : c.current ≤ d.current
  plain : ∀ i, c.current ≤ i → i < d.current → ∃ t, c.tokens[i]? = some t ∧ t.tag ≠ .eof

theorem Cursor.Leads.passes {c d : Cursor} (h : c.Leads d) : c.Passes d := by
  refine ⟨h.tokens, h.le, fun i hfrom hto => ?_⟩
  have hwithin := h.within
  have hlt : i - c.current < c.rest.length := by omega
  refine ⟨c.rest[i - c.current], ?_, Cursor.tag_of_mem_rest (List.getElem_mem hlt)⟩
  have hprefix : c.rest <+: c.tokens.toList.drop c.current := List.takeWhile_prefix _
  have hget := List.prefix_iff_getElem?.mp hprefix (i - c.current) hlt
  rw [List.getElem?_drop, Nat.add_sub_cancel' hfrom] at hget
  rw [← Array.getElem?_toList, hget]

theorem ruleFuel_start (tokens : List Token) (nextId : NodeId) :
    ruleFuel (Cursor.start tokens nextId).rest.length ≤ ruleFuel tokens.length :=
  Nat.mul_le_mul_left 20 (Nat.succ_le_succ (Cursor.start_length_le tokens nextId))

/-- Programs are parsed by reading to the end. -/
theorem parseTokens_ends (nextId : NodeId) (tokens : List Token) : ∃ program stop,
    topLevel (ruleFuel tokens.length) (Cursor.start tokens nextId) = .ok program stop ∧
      stop.rest = [] ∧ parseTokens nextId tokens =
        (if stop.errors.isEmpty then .ok program else .error stop.errors, stop.nextId) := by
  obtain ⟨program, stop, hrun, hend⟩ := topLevel_ends (ruleFuel_start tokens nextId)
  exact ⟨program, stop, hrun, hend, by rw [parseTokens, hrun]⟩

/-- Every list of tokens is read to its end. Reading stops at the first end token, or at the end of
the list where there is none, with a program that the bound on the nesting has no part in, and what
has been read is what the program is parsed into.

Wherever the end has not been reached, a declaration moves the cursor on, whether it gives a
statement or is noted as failed. No rule moves the cursor back, or over an end token, and each that
gives a result has read at least one token. No rule comes to its bound, if that is large enough for
the tokens that are left, and any larger bound gives the same. -/
theorem reading_terminates_and_progresses :
    (∀ (tokens : List Token) (nextId : NodeId), ∃ program stop,
      (Cursor.start tokens nextId).Passes stop ∧ stop.current = tokens.findIdx (·.tag = .eof) ∧
        (∀ fuel, ruleFuel tokens.length ≤ fuel →
          topLevel fuel (Cursor.start tokens nextId) = .ok program stop) ∧
        parseTokens nextId tokens =
          (if stop.errors.isEmpty then .ok program else .error stop.errors, stop.nextId)) ∧
    (∀ (fuel : Nat) (c : Cursor), c.atEnd = false →
      (∀ result stop, recover (declaration fuel) c = .ok result stop →
        c.Passes stop ∧ c.current < stop.current) ∧
      (ruleFuel c.rest.length ≤ fuel →
        ∃ result stop, recover (declaration fuel) c = .ok result stop)) ∧
    (∀ {α : Type} (rule : Nat → Rule α), OfGrammar rule → ∀ (fuel : Nat) (c : Cursor),
      c.Passes ((rule fuel).stop c) ∧
      (∀ result stop, rule fuel c = .ok result stop → c.current < stop.current) ∧
      (ruleFuel c.rest.length ≤ fuel → (∀ stop, rule fuel c ≠ .error .exhausted stop) ∧
        rule fuel c = rule (ruleFuel c.rest.length) c)) := by
  refine ⟨fun tokens nextId => ?_, fun fuel c hc => ⟨fun result stop hrun => ?_, fun hfuel => ?_⟩,
    fun rule hrule fuel c => ⟨(hrule.advances fuel c).passes, ?_, fun hfuel => ?_⟩⟩
  · obtain ⟨program, stop, hrun, hend, hparsed⟩ := parseTokens_ends nextId tokens
    have hlead := (topLevel_advances _).leads_ok hrun
    refine ⟨program, stop, hlead.passes, ?_, fun fuel hfuel => ?_, hparsed⟩
    · have hadd := hlead.current_add
      rw [hend, Cursor.start_rest_length] at hadd
      simpa [Cursor.start] using hadd
    · rw [← hrun]
      exact topLevel_unbounded (ruleFuel_start tokens nextId) hfuel
  · have hmore : c.rest ≠ [] := by
      intro hnil
      simp [Cursor.atEnd_nil hnil] at hc
    have hlead := (recover_advances (statementsAdvance fuel).declaration).leads_ok hrun
    have hless := declaration_progress hmore hrun
    have hadd := hlead.current_add
    exact ⟨hlead.passes, by omega⟩
  · exact (OfGrammar.declaration.halts hfuel).recover_ok (Nat.le_refl _)
  · intro result stop hrun
    have hless := hrule.consumes fuel _ _ _ hrun
    have hadd := ((hrule.advances fuel).leads_ok hrun).current_add
    omega
  · exact ⟨hrule.halts hfuel c (Nat.le_refl _), hrule.unbounded hfuel⟩

/-- The tokens of `{ ) x`. Nothing closes the block, and there is no end token. -/
def unclosedBlock : List Token :=
  [⟨.punct .leftBrace, "\x7b", 1⟩, ⟨.punct .rightParen, ")", 1⟩, ⟨.identifier, "x", 1⟩]

/-- An unclosed block that begins with a stray parenthesis is read to its end, the parenthesis is
passed over, and the name behind it is read as an expression. -/
theorem reading_terminates_and_progresses_unclosed :
    (∃ program stop, stop.current = 3 ∧ ∀ fuel, 80 ≤ fuel →
      topLevel fuel (Cursor.start unclosedBlock 0) = .ok program stop) ∧
    (∃ result stop, recover (declaration 60) ⟨unclosedBlock.toArray, 1, [], 0⟩ = .ok result stop ∧
      1 < stop.current) ∧
    (∀ fuel, 40 ≤ fuel → expression fuel ⟨unclosedBlock.toArray, 2, [], 0⟩ =
      .ok (.variable 0 ⟨.identifier, "x", 1⟩) ⟨unclosedBlock.toArray, 3, [], 1⟩) := by
  obtain ⟨hread, hmove, hrule⟩ := reading_terminates_and_progresses
  refine ⟨?_, ?_, fun fuel hfuel => ?_⟩
  · obtain ⟨program, stop, -, hend, hrun, -⟩ := hread unclosedBlock 0
    exact ⟨program, stop, hend, hrun⟩
  · obtain ⟨hmoves, hends⟩ := hmove 60 ⟨unclosedBlock.toArray, 1, [], 0⟩ rfl
    obtain ⟨result, stop, hrun⟩ := hends (by decide)
    exact ⟨result, stop, hrun, (hmoves result stop hrun).2⟩
  · obtain ⟨-, -, hbound⟩ :=
      hrule expression .expression fuel ⟨unclosedBlock.toArray, 2, [], 0⟩
    exact (hbound hfuel).2

end ScopeScript
