import ScopeScript.Proofs.Parsing.Endings

/-!
# Programs one behind the other

No statement but an `if` without `else` looks past its own last token, and nothing that was read
before shows in what is read later, errors included. So the tokens of a program in front of other
tokens are read into the program, and the others as if they stood alone.
-/

namespace ScopeScript

open Rule (Respects Advances Consumes)

/-! ## More tokens behind -/

/-- At the second cursor more tokens are left behind those left at the first, up to another end
token. -/
structure Cursor.ExtendedBy (tail : List Token) (ending : Token) (c c' : Cursor) : Prop where
  rest : c'.rest = c.rest ++ tail
  ending : c'.ending = ending
  errors : c'.errors = c.errors
  nextId : c'.nextId = c.nextId

/-- A boundary among some tokens is found whatever follows them. -/
theorem toBoundary_append (previous : Token) (ts tail : List Token)
    (h : toBoundary previous ts < ts.length) :
    toBoundary previous (ts ++ tail) = toBoundary previous ts := by
  induction ts generalizing previous with
  | nil => exact (Nat.not_lt_zero _ h).elim
  | cons t ts ih =>
      unfold toBoundary at h
      rw [List.cons_append, toBoundary, toBoundary]
      split at h
      next hstop => rw [if_pos hstop, if_pos hstop]
      next hgo => rw [if_neg hgo, if_neg hgo, ih t (Nat.lt_of_succ_lt_succ h)]

namespace Cursor.ExtendedBy

variable {tail : List Token} {ending : Token} {c c' : Cursor} (h : c.ExtendedBy tail ending c')
include h

/-- The next token is the same, if one was left. -/
theorem rest_cons {t : Token} {ts : List Token} (hc : c.rest = t :: ts) :
    c'.rest = t :: (ts ++ tail) := by
  rw [h.rest, hc, List.cons_append]

theorem next {t : Token} {ts : List Token} (hc : c.rest = t :: ts) :
    c.next.ExtendedBy tail ending c'.next := by
  have hc' := h.rest_cons hc
  refine { h with rest := ?_, ending := (next_eq hc').2.trans h.ending }
  rw [next_rest hc, next_rest hc']

theorem note (e : SyntaxError) : (c.note e).ExtendedBy tail ending (c'.note e) :=
  { h with errors := congrArg (· ++ [e]) h.errors }

/-- Where reading resumes in front of a token, it does so whatever is behind. -/
theorem resume (hleft : c.resume.rest ≠ []) : c.resume.ExtendedBy tail ending c'.resume := by
  cases hc : c.rest with
  | nil =>
      rw [resume_nil hc] at hleft
      exact (hleft hc).elim
  | cons t ts =>
      have hc' := h.rest_cons hc
      rw [resume_rest_cons hc] at hleft
      have hboundary : toBoundary t ts < ts.length := by simpa using hleft
      refine ⟨?_, c'.leads_resume.ending.trans h.ending, ?_, ?_⟩
      · rw [resume_rest_cons hc, resume_rest_cons hc', toBoundary_append t ts tail hboundary,
          List.drop_append_of_le_length (Nat.le_of_lt hboundary)]
      · rw [resume_errors, resume_errors, h.errors]
      · rw [resume_nextId, resume_nextId, h.nextId]

end Cursor.ExtendedBy

/-- As long as a token is left, no rule sees what is behind. -/
def extended (tail : List Token) (ending : Token) : Likeness where
  cursors := Cursor.ExtendedBy tail ending
  errors e e' := e' = e
  counts c := c.rest ≠ []
  counts_of_leads h hd hc := hd (List.suffix_nil.mp (hc ▸ h.suffix))
  next {c _} h hcounts := by
    obtain ⟨t, ts, hc⟩ := List.exists_cons_of_ne_nil hcounts
    rw [hc, h.rest_cons hc, List.head?_cons, List.head?_cons]
  read h hc _ := h.next hc
  fail {c _} cause h hcounts := by
    obtain ⟨t, ts, hc⟩ := List.exists_cons_of_ne_nil hcounts
    rw [Cursor.peek_cons hc, Cursor.peek_cons (h.rest_cons hc)]
  same _ := rfl
  note {_ _ e _} h he := he ▸ h.note e
  nextId h := h.nextId
  fresh h := { h with nextId := congrArg (· + 1) h.nextId }
  resume h hcounts := h.resume hcounts

/-! ## Rules that need not look further -/

namespace Rule

variable {α β : Type} {tail : List Token} {ending : Token}

theorem map_congr {x y : Rule α} {c d : Cursor} (g : α → β) (h : x c = y d) :
    (g <$> x) c = (g <$> y) d := by
  change EStateM.map g x c = EStateM.map g y d
  unfold EStateM.map
  rw [h]

/-- A rule that leaves a token does not see what is behind it. -/
theorem Respects.extended_ok {rule : Rule α} (h : Respects (extended tail ending) rule rule)
    {c c' d : Cursor} {a : α} (hrun : rule c = .ok a d) (hd : d.rest ≠ [])
    (hc : c.ExtendedBy tail ending c') :
    ∃ d', rule c' = .ok a d' ∧ d.ExtendedBy tail ending d' := by
  have hcounts : (extended tail ending).counts (rule.stop c) := by
    rw [stop, hrun]
    exact hd
  have hresult := h.alike hc hcounts
  rw [hrun] at hresult
  exact Likeness.results_ok hresult

/-- Where no token was left to accept, the first one behind must not be accepted either. -/
theorem acceptIf_extended {test : Token → Bool} {c c' d : Cursor} {result : Option Token}
    (hrun : acceptIf test c = .ok result d) (hc : c.ExtendedBy tail ending c')
    (htail : c.rest = [] → ∀ t ∈ tail.head?, test t = false) :
    ∃ d', acceptIf test c' = .ok result d' ∧ d.ExtendedBy tail ending d' := by
  cases hrest : c.rest with
  | nil =>
      rw [acceptIf_nil hrest] at hrun
      cases hrun
      have hrest' : c'.rest = tail := by rw [hc.rest, hrest, List.nil_append]
      cases htl : tail with
      | nil => exact ⟨c', acceptIf_nil (hrest'.trans htl) test, htl ▸ hc⟩
      | cons t ts =>
          have ht : test t = false := htail hrest t (by rw [htl]; rfl)
          exact ⟨c', acceptIf_false (hrest'.trans htl) ht, htl ▸ hc⟩
  | cons t ts =>
      cases ht : test t with
      | true =>
          rw [acceptIf_true hrest ht] at hrun
          cases hrun
          exact ⟨c'.next, acceptIf_true (hc.rest_cons hrest) ht, hc.next hrest⟩
      | false =>
          rw [acceptIf_false hrest ht] at hrun
          cases hrun
          exact ⟨c', acceptIf_false (hc.rest_cons hrest) ht, hc⟩

/-- What a rule reads, it also reads with more tokens behind, even if it has read all that were left
without them. -/
structure Closes (tail : List Token) (ending : Token) (rule : Rule α) : Prop where
  advances : rule.Advances
  extends_ok : ∀ {c c' d : Cursor} {a : α}, rule c = .ok a d → c.ExtendedBy tail ending c' →
    ∃ d', rule c' = .ok a d' ∧ d.ExtendedBy tail ending d'

namespace Closes

theorem pure (a : α) : Closes tail ending (Pure.pure a : Rule α) := by
  refine ⟨.pure a, fun {c c' d b} hrun hc => ?_⟩
  obtain ⟨rfl, rfl⟩ := pure_ok.mp hrun
  exact ⟨c', rfl, hc⟩

theorem bind {x : Rule α} {f : α → Rule β} (hx : Closes tail ending x)
    (hf : ∀ a, Closes tail ending (f a)) : Closes tail ending (x >>= f) := by
  refine ⟨hx.advances.bind fun a => (hf a).advances, fun hrun hc => ?_⟩
  obtain ⟨a, d, hfirst, hsecond⟩ := bind_ok.mp hrun
  obtain ⟨d', hfirst', hd⟩ := hx.extends_ok hfirst hc
  rw [bind_of_ok hfirst']
  exact (hf a).extends_ok hsecond hd

theorem ite {p : Prop} [Decidable p] {x y : Rule α} (hx : Closes tail ending x)
    (hy : Closes tail ending y) : Closes tail ending (if p then x else y) := by
  split
  · exact hx
  · exact hy

/-- A token that is not accepted for want of one would have to be the first one behind. -/
theorem acceptIf {test : Token → Bool} (htail : ∀ t ∈ tail.head?, test t = false) :
    Closes tail ending (Rule.acceptIf test) :=
  ⟨.acceptIf test, fun hrun hc => acceptIf_extended hrun hc fun _ => htail⟩

end Closes

/-- A rule that besides does not give a result without reading a token. -/
structure Concludes (tail : List Token) (ending : Token) (rule : Rule α) : Prop
    extends Closes tail ending rule where
  consumes : rule.Consumes

namespace Concludes

theorem fail (cause : SyntaxCause) : Concludes tail ending (Rule.fail cause : Rule α) :=
  ⟨⟨.fail cause, fun hrun => (fail_ok hrun).elim⟩, .fail cause⟩

theorem exhausted : Concludes tail ending (Rule.exhausted : Rule α) :=
  ⟨⟨.exhausted, fun hrun => (exhausted_ok hrun).elim⟩, .exhausted⟩

theorem bind {x : Rule α} {f : α → Rule β} (hx : Concludes tail ending x)
    (hf : ∀ a, Closes tail ending (f a)) : Concludes tail ending (x >>= f) :=
  ⟨hx.toCloses.bind hf, hx.consumes.bind_left fun a => (hf a).advances⟩

/-- A rule may look at the token behind what it reads, if another rule follows that reads it. -/
theorem bind_read {x : Rule α} {f : α → Rule β} (hx : Respects (extended tail ending) x x)
    (hf : ∀ a, Concludes tail ending (f a)) : Concludes tail ending (x >>= f) := by
  refine ⟨⟨hx.advances.bind fun a => (hf a).advances, fun hrun hc => ?_⟩,
    .bind_right hx.advances fun a => (hf a).consumes⟩
  obtain ⟨a, d, hfirst, hsecond⟩ := bind_ok.mp hrun
  have hleft : d.rest ≠ [] :=
    List.ne_nil_of_length_pos (Nat.zero_lt_of_lt ((hf a).consumes _ _ _ hsecond))
  obtain ⟨d', hfirst', hd⟩ := hx.extended_ok hfirst hleft hc
  rw [bind_of_ok hfirst']
  exact (hf a).extends_ok hsecond hd

/-- A token may be accepted, and where it is not, another rule reads one. -/
theorem acceptIf {test : Token → Bool} {f : Option Token → Rule β}
    (hsome : ∀ t, Closes tail ending (f (some t))) (hnone : Concludes tail ending (f none)) :
    Concludes tail ending (Rule.acceptIf test >>= f) := by
  have hf : ∀ result, Closes tail ending (f result)
    | none => hnone.toCloses
    | some t => hsome t
  refine ⟨⟨(Advances.acceptIf test).bind fun result => (hf result).advances,
    fun {c _ _ _} hrun hc => ?_⟩, .acceptIf (fun t => (hsome t).advances) hnone.consumes⟩
  obtain ⟨result, d, haccept, hsecond⟩ := bind_ok.mp hrun
  have hleft : c.rest ≠ [] := by
    -- With no token left nothing is accepted, and the other rule has none to read.
    intro hend
    rw [acceptIf_nil hend] at haccept
    cases haccept
    have hless := hnone.consumes _ _ _ hsecond
    rw [hend] at hless
    exact (Nat.not_lt_zero _ hless).elim
  obtain ⟨d', haccept', hd⟩ := acceptIf_extended haccept hc fun hend => (hleft hend).elim
  rw [bind_of_ok haccept']
  exact (hf result).extends_ok hsecond hd

theorem ifAccept {tag : Tag} {x y : Rule β} (hx : Closes tail ending x)
    (hy : Concludes tail ending y) :
    Concludes tail ending (do if (← Rule.accept tag).isSome then x else y) :=
  acceptIf (fun _ => hx) hy

theorem expect (tag : Tag) (cause : SyntaxCause) : Concludes tail ending (Rule.expect tag cause) :=
  acceptIf (fun _ => .pure _) (.fail _)

/-- Whatever stands in front of a closing token. -/
theorem closedBy {x : Rule α} {f : α → Token → Rule β} {tag : Tag} {cause : SyntaxCause}
    (hx : Respects (extended tail ending) x x) (hf : ∀ a t, Closes tail ending (f a t)) :
    Concludes tail ending (x >>= fun a => Rule.expect tag cause >>= f a) :=
  bind_read hx fun a => (expect _ _).bind (hf a)

end Concludes

/-! Behind a token that is read, a rule need not read another one. -/

namespace Closes

theorem expect {tag : Tag} {cause : SyntaxCause} : Closes tail ending (Rule.expect tag cause) :=
  (Concludes.expect tag cause).toCloses

theorem map {f : α → β} {x : Rule α} (hx : Closes tail ending x) :
    Closes tail ending (f <$> x) := by
  rw [map_eq_pure_bind]
  exact hx.bind fun _ => .pure _

theorem bind_read {x : Rule α} {f : α → Rule β} (hx : Respects (extended tail ending) x x)
    (hf : ∀ a, Concludes tail ending (f a)) : Closes tail ending (x >>= f) :=
  (Concludes.bind_read hx hf).toCloses

theorem closedBy {x : Rule α} {f : α → Token → Rule β} {tag : Tag} {cause : SyntaxCause}
    (hx : Respects (extended tail ending) x x) (hf : ∀ a t, Closes tail ending (f a t)) :
    Closes tail ending (x >>= fun a => Rule.expect tag cause >>= f a) :=
  (Concludes.closedBy hx hf).toCloses

end Closes

end Rule

open Rule (Closes Concludes)

section Rules

variable {tail : List Token} {ending : Token} (fuel : Nat)

theorem varRest_concludes : Concludes tail ending (varRest fuel) :=
  (Concludes.expect _ _).bind fun _ =>
    .closedBy (initializer_respects (Nat.le_refl fuel)) fun _ _ => .pure _

theorem letRest_concludes : Concludes tail ending (letRest fuel) :=
  (Concludes.expect _ _).bind fun _ => Closes.expect.bind fun _ =>
    .closedBy (expression_respects (Nat.le_refl fuel)) fun _ _ => .pure _

theorem expressionStatement_concludes : Concludes tail ending (expressionStatement fuel) :=
  .closedBy (expression_respects (Nat.le_refl fuel)) fun _ _ => .pure _

theorem printRest_concludes : Concludes tail ending (printRest fuel) :=
  .closedBy (expression_respects (Nat.le_refl fuel)) fun _ _ => .pure _

theorem returnRest_concludes (keyword : Token) : Concludes tail ending (returnRest fuel keyword) :=
  .closedBy (optionalExpression_respects (Nat.le_refl fuel) _) fun _ _ => .pure _

theorem breakRest_concludes (keyword : Token) : Concludes tail ending (breakRest keyword) :=
  (Concludes.expect _ _).bind fun _ => .pure _

end Rules

/-- The rules for statements need not look past what they read, if no `else` follows. -/
structure StatementsConclude (tail : List Token) (ending : Token) (fuel : Nat) : Prop where
  declaration : Concludes tail ending (declaration fuel)
  classRest : Concludes tail ending (classRest fuel)
  function : ∀ callee, Concludes tail ending (function fuel callee)
  statement : Concludes tail ending (statement fuel)
  blockRest : Concludes tail ending (blockRest fuel)

variable {tail : List Token} {ending : Token}

theorem statementsConclude (htail : ∀ t ∈ tail.head?, t.tag ≠ .keyword .elseKw) (fuel : Nat) :
    StatementsConclude tail ending fuel := by
  induction fuel with
  | zero => constructor <;> intros <;> exact .exhausted
  | succ fuel ih =>
      have hle := Nat.le_refl fuel
      have hrespect := statementsRespect (extended tail ending) hle
      have helse : Closes tail ending (Rule.accept (.keyword .elseKw)) :=
        .acceptIf fun t ht => decide_eq_false (htail t ht)
      constructor
      case declaration =>
        exact .ifAccept ih.classRest.toCloses <| .ifAccept (ih.function _).toCloses.map <|
          .ifAccept (varRest_concludes fuel).toCloses <|
            .ifAccept (letRest_concludes fuel).toCloses ih.statement
      case classRest =>
        exact (Concludes.expect _ _).bind fun _ => .bind_read superclassClause_respects fun _ =>
          (Concludes.expect _ _).bind fun _ => .closedBy hrespect.methodList fun _ _ => .pure _
      case function =>
        intro callee
        exact (Concludes.expect _ _).bind fun _ => Closes.expect.bind fun _ =>
          .closedBy (.unlessNext _ _ (parameters_respects hle 0)) fun _ _ =>
            Closes.expect.bind fun _ => ih.blockRest.toCloses.bind fun _ => .pure _
      case statement =>
        rw [statement_succ]
        refine .ifAccept ?forLoop <| .ifAccept ?ifElse <| .ifAccept ?whileLoop <|
          .acceptIf (fun _ => (returnRest_concludes fuel _).toCloses) <|
            .acceptIf (fun _ => (breakRest_concludes _).toCloses) <|
              .ifAccept ih.blockRest.toCloses.map <|
                .ifAccept (printRest_concludes fuel).toCloses (expressionStatement_concludes fuel)
        case forLoop =>
          exact .bind_read (forClauses_respects hle) fun _ => ih.statement.bind fun _ => .pure _
        case whileLoop =>
          exact .bind_read (condition_respects hle _) fun _ => ih.statement.bind fun _ => .pure _
        case ifElse =>
          exact .bind_read (condition_respects hle _) fun _ => ih.statement.bind fun _ =>
            helse.bind fun _ => .ite (ih.statement.toCloses.bind fun _ => .pure _) (.pure _)
      case blockRest => exact .closedBy hrespect.declarationList fun _ _ => .pure _

/-! ## Programs -/

/-- Where a program is read to the end without an error, what is behind is read as if it stood
alone. -/
theorem topLevel_extended (htail : ∀ t ∈ tail.head?, t.tag ≠ .keyword .elseKw) {fuel : Nat}
    {c c' d : Cursor} {program : Program} (hfuel : ruleFuel (c.rest.length + tail.length) ≤ fuel)
    (hrun : topLevel fuel c = .ok program d) (hend : d.rest = [])
    (hquiet : d.errors.length ≤ c.errors.length) (hc : c.ExtendedBy tail ending c') :
    ∃ d', d.ExtendedBy tail ending d' ∧
      topLevel fuel c' = ((program ++ ·) <$> topLevel fuel : Rule Program) d' := by
  unfold ruleFuel at hfuel
  induction fuel generalizing c c' program with
  | zero => omega
  | succ fuel ih =>
      cases hrest : c.rest with
      | nil =>
          cases (Rule.bind_of_ok (Rule.atEnd_nil hrest)).symm.trans hrun
          exact ⟨c', hc, (congrFun (id_map (topLevel (fuel + 1))) c').symm⟩
      | cons t ts =>
          replace hrun := (Rule.bind_of_ok (Rule.atEnd_cons hrest)).symm.trans hrun
          obtain ⟨first, e, hrecover, hrun⟩ := Rule.bind_ok.mp hrun
          obtain ⟨others, hothers, rfl⟩ := Rule.map_ok.mp hrun
          have hadv := (statementsAdvance fuel).declaration
          have hless := (recover_advances hadv).errors_le hrecover
          have hmore := (topLevel_advances fuel).errors_le hothers
          obtain ⟨s, rfl, hfirst⟩ := recover_ok hadv hrecover (by omega)
          have hread := (statementsConsume fuel).declaration _ _ _ hfirst
          obtain ⟨e', hfirst', he⟩ :=
            (statementsConclude htail fuel).declaration.extends_ok hfirst hc
          obtain ⟨d', hd, hothers'⟩ := ih (by omega) hothers (by omega) he
          refine ⟨d', hd, ?_⟩
          have hrecover' : recover (declaration fuel) c' = .ok (some s) e' := by
            unfold recover
            rw [hfirst']
          have hsettled : topLevel (fuel + 1) d' = topLevel fuel d' := by
            refine topLevel_unbounded ?_ (Nat.le_succ fuel)
            rw [hd.rest, hend, List.nil_append]
            unfold ruleFuel
            omega
          calc topLevel (fuel + 1) c'
            _ = ((s :: ·) <$> topLevel fuel : Rule Program) e' :=
                (Rule.bind_of_ok (Rule.atEnd_cons (hc.rest_cons hrest))).trans
                  (Rule.bind_of_ok hrecover')
            _ = ((s :: ·) <$> (others ++ ·) <$> topLevel fuel : Rule Program) d' :=
                Rule.map_congr _ hothers'
            _ = ((s :: others ++ ·) <$> topLevel fuel : Rule Program) d' := by
                rw [Functor.map_map]
                rfl
            _ = ((s :: others ++ ·) <$> topLevel (fuel + 1) : Rule Program) d' :=
                Rule.map_congr _ hsettled.symm

theorem outcome_map (f : Program → Program) (rule : Rule Program) (c : Cursor) :
    outcome ((f <$> rule) c) = ((outcome (rule c)).1.map f, (outcome (rule c)).2) := by
  change outcome (EStateM.map f rule c) = _
  unfold EStateM.map
  cases rule c with
  | error => rfl
  | ok program d =>
      simp only [outcome]
      split <;> rfl

/-- What is left when a program has been read: no token, no error and the next number. -/
theorem topLevel_of_parseTokens {tokens : List Token} {nextId nextId' : NodeId} {program : Program}
    (h : parseTokens nextId tokens = (.ok program, nextId')) {fuel : Nat}
    (hfuel : ruleFuel (Cursor.start tokens nextId).rest.length ≤ fuel) :
    ∃ d, topLevel fuel (Cursor.start tokens nextId) = .ok program d ∧
      d.rest = [] ∧ d.errors = [] ∧ d.nextId = nextId' := by
  obtain ⟨program', d, hrun, hend⟩ := topLevel_ends hfuel
  rw [parseTokens_of_fuel nextId tokens hfuel, hrun] at h
  unfold outcome at h
  dsimp only at h
  split at h
  next hempty =>
    cases h
    exact ⟨d, hrun, hend, List.isEmpty_iff.mp hempty, rfl⟩
  next => cases h

/-- What is wrong with tokens does not depend on the number that reading starts with. -/
theorem parseTokens_error {tokens : List Token} {errors : List SyntaxError} {nextId : NodeId}
    (h : (parseTokens nextId tokens).1 = .error errors) (nextId' : NodeId) :
    (parseTokens nextId' tokens).1 = .error errors := by
  have hzero : ∀ n, (parseTokens n tokens).1 =
      (parseTokens 0 tokens).1.map (Stmt.renameAll (· + n)) := by
    intro n
    have hadd := parseTokens_add 0 n tokens
    rw [Nat.zero_add] at hadd
    rw [hadd]
  rw [hzero] at h
  rw [hzero]
  cases hresult : (parseTokens 0 tokens).1 with
  | ok program =>
      rw [hresult] at h
      cases h
  | error errors' =>
      rw [hresult] at h
      exact h

section Join

variable {ts body : List Token} (hts : ∀ t ∈ ts, t.tag ≠ .eof) (hbody : ∀ t ∈ body, t.tag ≠ .eof)
  (hending : ending.tag = .eof) (helse : ∀ t ∈ body.head?, t.tag ≠ .keyword .elseKw)
include hts hbody hending helse

theorem parseTokens_append {nextId nextId' : NodeId} {program : Program}
    (h : parseTokens nextId ts = (.ok program, nextId')) :
    parseTokens nextId (ts ++ (body ++ [ending])) =
      ((parseTokens nextId' (body ++ [ending])).1.map (program ++ ·),
        (parseTokens nextId' (body ++ [ending])).2) := by
  obtain ⟨hfirst, -⟩ := Cursor.start_of_noEnd hts nextId
  obtain ⟨hsecond, hends⟩ := Cursor.start_append hbody hending [] nextId'
  have hall : ∀ t ∈ ts ++ body, t.tag ≠ .eof := by
    simpa [or_imp, forall_and] using And.intro hts hbody
  obtain ⟨hboth, hend⟩ := Cursor.start_append hall hending [] nextId
  rw [List.append_assoc] at hboth hend
  -- One bound that is large enough for all three lists.
  let fuel := ruleFuel (ts.length + body.length)
  have hmono : ∀ {n}, n ≤ ts.length + body.length → ruleFuel n ≤ fuel := by
    intro n hn
    exact Nat.mul_le_mul_left 20 (Nat.succ_le_succ hn)
  have hfuel : ruleFuel (Cursor.start ts nextId).rest.length ≤ fuel := hmono (by simp [hfirst])
  have hfuel' : ruleFuel (Cursor.start (body ++ [ending]) nextId').rest.length ≤ fuel :=
    hmono (by simp [hsecond])
  have hfuel'' : ruleFuel (Cursor.start (ts ++ (body ++ [ending])) nextId).rest.length ≤ fuel :=
    hmono (by simp [hboth])
  obtain ⟨d, hrun, hempty, herrors, hnext⟩ := topLevel_of_parseTokens h hfuel
  have hextended : (Cursor.start ts nextId).ExtendedBy body ending
      (Cursor.start (ts ++ (body ++ [ending])) nextId) :=
    ⟨by rw [hboth, hfirst], hend, rfl, rfl⟩
  obtain ⟨d', hd, hjoined⟩ := topLevel_extended helse (by rw [hfirst]) hrun hempty
    (by simp [herrors]) hextended
  have halone : (Cursor.start (body ++ [ending]) nextId').ReportsAlike id d' :=
    .of_same (by rw [hd.rest, hempty, hsecond, List.nil_append]) (hd.ending.trans hends.symm)
      (hd.errors.trans herrors) (hd.nextId.trans hnext)
  rw [parseTokens_of_fuel _ _ hfuel'', parseTokens_of_fuel _ _ hfuel', hjoined, outcome_map,
    outcome_of_same halone hfuel']

end Join

/-- Reading is compositional over complete programs. If tokens without an end token are read into a
program, and more tokens follow that do not begin with `else`, then all of them together are read
into that program and the one that the others are read into alone; or they are refused for exactly
the errors for which the others are refused alone. -/
theorem parseTokens_compositional (ts body : List Token) (ending : Token) (nextId : NodeId)
    (program : Program) (hts : ∀ t ∈ ts, t.tag ≠ .eof) (hbody : ∀ t ∈ body, t.tag ≠ .eof)
    (hending : ending.tag = .eof)
    (helse : ∀ t ∈ (body ++ [ending]).head?, t.tag ≠ .keyword .elseKw)
    (h : (parseTokens nextId ts).1 = .ok program) :
    (∀ (nextId' nextId'' : NodeId) (program' : Program),
      (parseTokens nextId' (body ++ [ending])).1 = .ok program' →
        outline (parseTokens nextId'' (ts ++ (body ++ [ending]))).1 =
          outline (.ok (program ++ program'))) ∧
    (∀ (nextId' nextId'' : NodeId) (errors : List SyntaxError),
      (parseTokens nextId' (body ++ [ending])).1 = .error errors →
        (parseTokens nextId'' (ts ++ (body ++ [ending]))).1 = .error errors) ∧
    parseTokens nextId (ts ++ (body ++ [ending])) =
      ((parseTokens (parseTokens nextId ts).2 (body ++ [ending])).1.map (program ++ ·),
        (parseTokens (parseTokens nextId ts).2 (body ++ [ending])).2) := by
  have hhead : ∀ t ∈ body.head?, t.tag ≠ .keyword .elseKw := by
    intro t ht
    exact helse t (by rw [List.head?_append, Option.mem_def.mp ht]; rfl)
  have hjoined := parseTokens_append hts hbody hending hhead (Prod.ext h rfl)
  refine ⟨fun nextId' nextId'' program' h' => ?_, fun nextId' nextId'' errors h' => ?_, hjoined⟩
  · have hsecond : outline (parseTokens (parseTokens nextId ts).2 (body ++ [ending])).1 =
        outline (.ok program') := by
      rw [outline_parseTokens _ nextId', h']
    rw [outline_parseTokens nextId'' nextId, hjoined]
    cases hresult : (parseTokens (parseTokens nextId ts).2 (body ++ [ending])).1 with
    | error =>
        rw [hresult] at hsecond
        cases hsecond
    | ok program'' =>
        rw [hresult] at hsecond
        have hsame := Except.ok.inj hsecond
        simp only [Except.map, outline, Stmt.renameAll_eq, List.map_append] at hsame ⊢
        rw [hsame]
  · have halone : (parseTokens nextId (ts ++ (body ++ [ending]))).1 = .error errors := by
      rw [hjoined, parseTokens_error h' _]
      rfl
    exact parseTokens_error halone nextId''

/-- A `print nil;` in front of another is read into both of them, and in front of one without its
semicolon it is refused for what is missing there. -/
theorem parseTokens_compositional_of_prints :
    outline (parseTokens 3 (printNil ++ (printNil ++ [⟨.eof, "", 1⟩]))).1 =
        .ok [.print (.literal .nil), .print (.literal .nil)] ∧
      (parseTokens 3 (printNil ++ (printNil.take 2 ++ [⟨.eof, "", 1⟩]))).1 =
        .error [⟨⟨.eof, "", 1⟩, .printEnd⟩] := by
  obtain ⟨hprograms, -, -⟩ := parseTokens_compositional printNil printNil ⟨.eof, "", 1⟩ 0
    [.print (.literal .nil)] (by decide) (by decide) rfl (by decide) rfl
  obtain ⟨-, hrefused, -⟩ := parseTokens_compositional printNil (printNil.take 2) ⟨.eof, "", 1⟩ 0
    [.print (.literal .nil)] (by decide) (by decide) rfl (by decide) rfl
  exact ⟨hprograms 0 3 [.print (.literal .nil)] rfl, hrefused 0 3 _ rfl⟩

end ScopeScript
