import ScopeScript.Proofs.Parsing.Acceptance
import ScopeScript.Proofs.Parsing.Likeness
import ScopeScript.Proofs.Parsing.Shifting
import ScopeScript.Proofs.Parsing.Termination

/-!
# Only the tokens before the first end token matter

No rule looks behind the first end token, and none goes over it: from the same place, every rule
does the same whatever tokens follow. Of the end token itself only the line shows, in the reports of
errors that are noticed there. So the tokens may as well go without one, if the one that stands in
for it is on the same line.
-/

namespace ScopeScript

open Rule (Respects)

/-! ## What a result says apart from numbers -/

/-- The result of reading as its reader sees it: the program, with all nodes numbered alike, or the
reports of all errors. -/
def outline : Except (List SyntaxError) Program → Except (List Diagnostic) Program
  | .ok program => .ok (Stmt.renameAll (fun _ => 0) program)
  | .error errors => .error (errors.map SyntaxError.diagnostic)

theorem outline_rename (f : NodeId → NodeId) (result : Except (List SyntaxError) Program) :
    outline (result.map (Stmt.renameAll f)) = outline result := by
  cases result with
  | error => rfl
  | ok program => exact congrArg Except.ok (Stmt.renameAll_renameAll f _ program)

/-- The outline does not depend on the number that reading starts with. -/
theorem outline_parseTokens (nextId nextId' : NodeId) (tokens : List Token) :
    outline (parseTokens nextId tokens).1 = outline (parseTokens nextId' tokens).1 := by
  have hzero : ∀ n, outline (parseTokens n tokens).1 = outline (parseTokens 0 tokens).1 := by
    intro n
    have hadd := parseTokens_add 0 n tokens
    rw [Nat.zero_add] at hadd
    rw [hadd]
    exact outline_rename _ _
  rw [hzero nextId, hzero nextId']

theorem Token.location_of_eof {t : Token} (h : t.tag = .eof) : t.location = "at end" := by
  obtain ⟨kind, lexeme, line⟩ := t
  cases kind <;> first | rfl | cases h

/-! ## What is left, and what is reported -/

section Reports

variable {β : Type} (report : SyntaxError → β)

/-- The same tokens are left at two cursors, wherever these may stand, and what has been noted there
and what fails at their end tokens is reported alike. -/
structure Cursor.ReportsAlike (c c' : Cursor) : Prop where
  rest : c'.rest = c.rest
  ending : ∀ cause, report ⟨c'.ending, cause⟩ = report ⟨c.ending, cause⟩
  errors : c'.errors.map report = c.errors.map report
  nextId : c'.nextId = c.nextId

namespace Cursor.ReportsAlike

variable {report} {c c' : Cursor} (h : c.ReportsAlike report c')
include h

/-- What fails at the next token is reported alike. -/
theorem peek (cause : SyntaxCause) : report ⟨c'.peek, cause⟩ = report ⟨c.peek, cause⟩ := by
  cases hrest : c.rest with
  | nil =>
      rw [peek_nil hrest, peek_nil (h.rest.trans hrest)]
      exact h.ending cause
  | cons t ts => rw [peek_cons hrest, peek_cons (h.rest.trans hrest)]

theorem note {e e' : SyntaxError} (he : report e' = report e) :
    (c.note e).ReportsAlike report (c'.note e') := by
  refine { h with errors := ?_ }
  simp only [Cursor.note, List.map_append, h.errors, List.map_cons, List.map_nil, he]

theorem next {t : Token} {ts : List Token} (hc : c.rest = t :: ts) :
    c.next.ReportsAlike report c'.next := by
  obtain ⟨hrest, hending⟩ := next_eq hc
  obtain ⟨hrest', hending'⟩ := next_eq (h.rest.trans hc)
  exact ⟨hrest'.trans hrest.symm, by rw [hending, hending']; exact h.ending, h.errors, h.nextId⟩

theorem resume : c.resume.ReportsAlike report c'.resume := by
  cases hrest : c.rest with
  | nil =>
      rw [resume_nil hrest, resume_nil (h.rest.trans hrest)]
      exact h
  | cons t ts =>
      refine ⟨?_, ?_, ?_, ?_⟩
      · rw [resume_rest_cons hrest, resume_rest_cons (h.rest.trans hrest)]
      · rw [c.leads_resume.ending, c'.leads_resume.ending]
        exact h.ending
      · rw [resume_errors, resume_errors]
        exact h.errors
      · rw [resume_nextId, resume_nextId]
        exact h.nextId

end Cursor.ReportsAlike

/-- No rule sees more than the tokens that are left. -/
def reportsAlike : Likeness where
  cursors := Cursor.ReportsAlike report
  errors e e' := report e' = report e
  counts _ := True
  counts_of_leads _ _ := trivial
  next h _ := congrArg List.head? h.rest
  read h hc _ := h.next hc
  fail cause h _ := h.peek cause
  same _ := rfl
  note h he := h.note he
  nextId h := h.nextId
  fresh h := { h with nextId := congrArg (· + 1) h.nextId }
  resume h _ := h.resume

variable {report}

/-- Cursors that see the very same are those that are alike if errors are reported as they are. -/
theorem Cursor.ReportsAlike.of_same {c c' : Cursor} (hrest : c'.rest = c.rest)
    (hending : c'.ending = c.ending) (herrors : c'.errors = c.errors)
    (hnextId : c'.nextId = c.nextId) :
    c.ReportsAlike id c' :=
  ⟨hrest, fun cause => congrArg (SyntaxError.mk · cause) hending, congrArg (List.map id) herrors,
    hnextId⟩

end Reports

/-! ## What is parsed -/

/-- The program or the errors that reading all declarations gives. -/
def outcome : EStateM.Result Failure Cursor Program → Except (List SyntaxError) Program × NodeId
  | .ok program cursor =>
    (if cursor.errors.isEmpty then .ok program else .error cursor.errors, cursor.nextId)
  | .error _ cursor => (.error cursor.errors, cursor.nextId)

/-- Tokens are parsed by reading them to the end, with any bound that is large enough. -/
theorem parseTokens_of_fuel (nextId : NodeId) (tokens : List Token) {fuel : Nat}
    (hfuel : ruleFuel (Cursor.start tokens nextId).rest.length ≤ fuel) :
    parseTokens nextId tokens = outcome (topLevel fuel (Cursor.start tokens nextId)) := by
  have hparsed : parseTokens nextId tokens =
      outcome (topLevel (ruleFuel tokens.length) (Cursor.start tokens nextId)) := by
    unfold parseTokens
    cases topLevel (ruleFuel tokens.length) (Cursor.start tokens nextId) <;> rfl
  rw [hparsed, topLevel_unbounded (Nat.le_refl _) hfuel,
    topLevel_unbounded (Nat.le_refl _) (ruleFuel_start tokens nextId)]

/-- Where the same tokens are left, the same bound is large enough. -/
theorem parseTokens_of_rest {tokens tokens' : List Token} {nextId nextId' : NodeId}
    (hrest : (Cursor.start tokens' nextId').rest = (Cursor.start tokens nextId).rest) :
    let fuel := ruleFuel (Cursor.start tokens nextId).rest.length
    parseTokens nextId tokens = outcome (topLevel fuel (Cursor.start tokens nextId)) ∧
      parseTokens nextId' tokens' = outcome (topLevel fuel (Cursor.start tokens' nextId')) :=
  ⟨parseTokens_of_fuel nextId tokens (Nat.le_refl _),
    parseTokens_of_fuel nextId' tokens' (by rw [hrest])⟩

section Alike

variable {β : Type} {report : SyntaxError → β}

/-- Where the same tokens are left, the same program is read, or what is wrong is reported alike. -/
theorem outcome_reportsAlike {c c' : Cursor} (h : c.ReportsAlike report c') {fuel : Nat}
    (hfuel : ruleFuel c.rest.length ≤ fuel) :
    (outcome (topLevel fuel c')).1.mapError (List.map report) =
        (outcome (topLevel fuel c)).1.mapError (List.map report) ∧
      (outcome (topLevel fuel c')).2 = (outcome (topLevel fuel c)).2 := by
  obtain ⟨program, stop, hrun, -⟩ := topLevel_ends hfuel
  have hresult := (topLevel_respects (reportsAlike report) (Nat.le_refl fuel)).alike h trivial
  rw [hrun] at hresult
  obtain ⟨stop', hrun', hstop⟩ := Likeness.results_ok hresult
  have hempty : stop'.errors.isEmpty = stop.errors.isEmpty := by
    simpa only [List.isEmpty_map] using congrArg List.isEmpty hstop.errors
  rw [hrun, hrun']
  refine ⟨?_, hstop.nextId⟩
  simp only [outcome, hempty]
  split
  · rfl
  · exact congrArg Except.error hstop.errors

theorem parseTokens_reportsAlike {tokens tokens' : List Token} {nextId nextId' : NodeId}
    (h : (Cursor.start tokens nextId).ReportsAlike report (Cursor.start tokens' nextId')) :
    (parseTokens nextId' tokens').1.mapError (List.map report) =
      (parseTokens nextId tokens).1.mapError (List.map report) := by
  obtain ⟨hread, hread'⟩ := parseTokens_of_rest h.rest
  rw [hread, hread']
  exact (outcome_reportsAlike h (Nat.le_refl _)).1

end Alike

/-- Where the very same is left, the same is read. -/
theorem outcome_of_same {c c' : Cursor} (h : c.ReportsAlike id c') {fuel : Nat}
    (hfuel : ruleFuel c.rest.length ≤ fuel) :
    outcome (topLevel fuel c') = outcome (topLevel fuel c) := by
  obtain ⟨hresult, hnext⟩ := outcome_reportsAlike h hfuel
  refine Prod.ext ?_ hnext
  rw [List.map_id_fun] at hresult
  cases hread : (outcome (topLevel fuel c)).1 <;>
    cases hread' : (outcome (topLevel fuel c')).1 <;>
      rw [hread, hread'] at hresult <;> exact hresult

theorem parseTokens_of_same {tokens tokens' : List Token} {nextId : NodeId}
    (h : (Cursor.start tokens nextId).ReportsAlike id (Cursor.start tokens' nextId)) :
    parseTokens nextId tokens' = parseTokens nextId tokens := by
  obtain ⟨hread, hread'⟩ := parseTokens_of_rest h.rest
  rw [hread, hread']
  exact outcome_of_same h (Nat.le_refl _)

/-- What is reported alike has one outline. -/
theorem outline_congr {result result' : Except (List SyntaxError) Program}
    (h : result'.mapError (List.map SyntaxError.diagnostic) =
      result.mapError (List.map SyntaxError.diagnostic)) : outline result' = outline result := by
  cases result with
  | error errors =>
      cases result' with
      | error errors' => exact congrArg Except.error (Except.error.inj h)
      | ok => cases h
  | ok program =>
      cases result' with
      | error => cases h
      | ok program' => rw [Except.ok.inj h]

/-! ## Every rule -/

/-- The same result at the same place among other tokens. -/
def Rule.inTokens {α : Type} (tokens : Array Token) :
    EStateM.Result Failure Cursor α → EStateM.Result Failure Cursor α
  | .ok a c => .ok a { c with tokens }
  | .error failure c => .error failure { c with tokens }

/-- Cursors that come from the same place and have the same tokens left are at the same place. -/
theorem Cursor.Leads.eq_of_same {c c' d d' : Cursor} (hlead : c.Leads d) (hlead' : c'.Leads d')
    (hcurrent : c'.current = c.current) (h : c.ReportsAlike id c') (hd : d.ReportsAlike id d') :
    d' = { d with tokens := c'.tokens } := by
  have hadd := hlead.current_add
  have hadd' := hlead'.current_add
  rw [h.rest, hd.rest] at hadd'
  obtain ⟨tokens, current, errors, nextId⟩ := d'
  have htokens : tokens = c'.tokens := hlead'.tokens
  have hplace : current = d.current := by
    dsimp only at hadd'
    omega
  have herrors : errors = d.errors := by simpa using hd.errors
  have hnextId : nextId = d.nextId := hd.nextId
  rw [htokens, hplace, herrors, hnextId]

/-- From the same place every rule does the same, if the same tokens are left. -/
theorem OfGrammar.inTokens {α : Type} {rule : Nat → Rule α} (h : OfGrammar rule) {c c' : Cursor}
    (hcurrent : c'.current = c.current) (hsame : c.ReportsAlike id c') {fuel : Nat}
    (hfuel : ruleFuel c.rest.length ≤ fuel) :
    rule fuel c' = Rule.inTokens c'.tokens (rule fuel c) := by
  have hresult := (h.respects (reportsAlike id) (Nat.le_refl fuel)).alike hsame trivial
  have hadv := h.advances fuel
  rcases hrun : rule fuel c with ⟨a, d⟩ | ⟨error | _, d⟩
  · rw [hrun] at hresult
    obtain ⟨d', hrun', hd⟩ := Likeness.results_ok hresult
    rw [hrun', (hadv.leads_ok hrun).eq_of_same (hadv.leads_ok hrun') hcurrent hsame hd]
    rfl
  · rw [hrun] at hresult
    obtain ⟨error', d', hrun', rfl, hd⟩ := Likeness.results_refused hresult
    rw [hrun', (hadv.leads_error hrun).eq_of_same (hadv.leads_error hrun') hcurrent hsame hd]
    rfl
  · exact (h.halts hfuel c (Nat.le_refl _) d hrun).elim

/-! ## The first end token -/

section End

variable {pre : List Token} (hpre : ∀ t ∈ pre, t.tag ≠ .eof) {ending : Token}
  (hending : ending.tag = .eof)
include hpre hending

theorem parseTokens_append_ending (rest : List Token) (nextId : NodeId) :
    parseTokens nextId (pre ++ [ending] ++ rest) = parseTokens nextId (pre ++ [ending]) := by
  obtain ⟨hrest, hend⟩ := Cursor.start_append hpre hending [] nextId
  obtain ⟨hrest', hend'⟩ := Cursor.start_append hpre hending rest nextId
  rw [List.append_assoc]
  exact parseTokens_of_same (.of_same (hrest'.trans hrest.symm) (hend'.trans hend.symm) rfl rfl)

/-- The token that stands in for an end token on its line is reported like it. -/
theorem outline_of_noEnd (hline : ending.line = (pre.getLast?.map Token.line).getD 1)
    (nextId : NodeId) :
    outline (parseTokens nextId pre).1 = outline (parseTokens nextId (pre ++ [ending])).1 := by
  obtain ⟨hrest, hend⟩ := Cursor.start_append hpre hending [] nextId
  obtain ⟨hrest', hend'⟩ := Cursor.start_of_noEnd hpre nextId
  have hstandIn : (Cursor.start pre nextId).standIn.line = ending.line := by
    simp [Cursor.standIn, Cursor.start, hline]
  refine outline_congr (parseTokens_reportsAlike
    ⟨hrest'.trans hrest.symm, fun cause => ?_, rfl, rfl⟩)
  rw [hend, hend']
  simp only [SyntaxError.diagnostic, Diagnostic.atToken, hstandIn,
    Token.location_of_eof hending, Token.location_of_eof (t := Cursor.standIn _) rfl]

/-- From a place that is not behind the end token, no rule goes over it or sees what follows it. -/
theorem OfGrammar.append_ending {α : Type} {rule : Nat → Rule α} (hrule : OfGrammar rule)
    (rest : List Token) {c : Cursor} {fuel : Nat} (htokens : c.tokens = (pre ++ [ending]).toArray)
    (hcurrent : c.current ≤ pre.length) (hfuel : ruleFuel c.rest.length ≤ fuel) :
    ((rule fuel).stop c).current ≤ pre.length ∧
      rule fuel { c with tokens := (pre ++ [ending] ++ rest).toArray } =
        Rule.inTokens (pre ++ [ending] ++ rest).toArray (rule fuel c) := by
  have hplain : ∀ t ∈ pre.drop c.current, t.tag ≠ .eof :=
    fun t ht => hpre t (List.mem_of_mem_drop ht)
  let c' := { c with tokens := (pre ++ [ending] ++ rest).toArray }
  have hdrop : c.tokens.toList.drop c.current = pre.drop c.current ++ ending :: [] := by
    rw [htokens]
    exact List.drop_append_of_le_length hcurrent
  have hdrop' : c'.tokens.toList.drop c'.current = pre.drop c.current ++ ending :: rest := by
    rw [← List.drop_append_of_le_length hcurrent]
    simp only [c', List.append_assoc, List.singleton_append]
  obtain ⟨hrest, hend⟩ := Cursor.rest_of_drop hdrop hplain hending
  obtain ⟨hrest', hend'⟩ := Cursor.rest_of_drop hdrop' hplain hending
  have hsame : c.ReportsAlike id c' :=
    .of_same (hrest'.trans hrest.symm) (hend'.trans hend.symm) rfl rfl
  have hplace : c'.current = c.current := rfl
  refine ⟨?_, hrule.inTokens hplace hsame hfuel⟩
  have hwithin := (hrule.advances fuel c).within
  rw [hrest, List.length_drop] at hwithin
  omega

end End

/-- Only the tokens in front of the first end token matter. Tokens are read into the same program,
or refused for the same errors, whatever follows their first end token; and without any end token
they are read like the same tokens with one on the line of the last token, which is the first line
where there is none. From any place that is not behind the first end token, every rule does the same
whatever follows that token, and does not go over it. -/
theorem parseTokens_up_to_end (pre : List Token) (hpre : ∀ t ∈ pre, t.tag ≠ .eof) :
    (∀ (ending : Token) (rest : List Token) (nextId : NodeId), ending.tag = .eof →
      parseTokens nextId (pre ++ [ending] ++ rest) = parseTokens nextId (pre ++ [ending]) ∧
        ∀ nextId', outline (parseTokens nextId' (pre ++ [ending] ++ rest)).1 =
          outline (parseTokens nextId (pre ++ [ending])).1) ∧
    (∀ (ending : Token) (nextId nextId' : NodeId), ending.tag = .eof →
      ending.line = (pre.getLast?.map Token.line).getD 1 →
        outline (parseTokens nextId' pre).1 = outline (parseTokens nextId (pre ++ [ending])).1) ∧
    (∀ {α : Type} (rule : Nat → Rule α), OfGrammar rule →
      ∀ (ending : Token) (rest : List Token) (c : Cursor) (fuel : Nat), ending.tag = .eof →
        c.tokens = (pre ++ [ending]).toArray → c.current ≤ pre.length →
        ruleFuel c.rest.length ≤ fuel →
        ((rule fuel).stop c).current ≤ pre.length ∧
          rule fuel { c with tokens := (pre ++ [ending] ++ rest).toArray } =
            Rule.inTokens (pre ++ [ending] ++ rest).toArray (rule fuel c)) := by
  refine ⟨?_, ?_, ?_⟩
  · intro ending rest nextId hending
    have hsame := parseTokens_append_ending hpre hending rest nextId
    refine ⟨hsame, fun nextId' => ?_⟩
    rw [outline_parseTokens nextId' nextId, hsame]
  · intro ending nextId nextId' hending hline
    rw [outline_parseTokens nextId' nextId]
    exact outline_of_noEnd hpre hending hline nextId
  · intro α rule hrule ending rest c fuel hending htokens hcurrent hfuel
    exact hrule.append_ending hpre hending rest htokens hcurrent hfuel

/-- A `print nil` without its semicolon is refused at the end, on the line of the word `nil`,
whatever follows the end token and also if there is none. -/
theorem parseTokens_up_to_end_of_print :
    outline (parseTokens 7 (printNil.take 2 ++ [⟨.eof, "", 1⟩] ++ printNil)).1 =
        .error [.located .parse 1 "at end" "Expected ';' after value"] ∧
      outline (parseTokens 7 (printNil.take 2)).1 =
        .error [.located .parse 1 "at end" "Expected ';' after value"] ∧
      let tokens := (printNil.take 2 ++ [(⟨.eof, "", 1⟩ : Token)] ++ printNil).toArray
      printRest 60 ⟨tokens, 1, [], 0⟩ =
        .error (.refused ⟨⟨.eof, "", 1⟩, .printEnd⟩) ⟨tokens, 2, [], 0⟩ := by
  have hread : outline (parseTokens 0 (printNil.take 2 ++ [⟨.eof, "", 1⟩])).1 =
      .error [.located .parse 1 "at end" "Expected ';' after value"] := rfl
  obtain ⟨hbehind, hwithout, hrules⟩ := parseTokens_up_to_end (printNil.take 2) (by decide)
  refine ⟨((hbehind ⟨.eof, "", 1⟩ printNil 0 rfl).2 7).trans hread,
    (hwithout ⟨.eof, "", 1⟩ 0 7 rfl rfl).trans hread, ?_⟩
  exact (hrules printRest .printRest ⟨.eof, "", 1⟩ printNil
    ⟨(printNil.take 2 ++ [(⟨.eof, "", 1⟩ : Token)]).toArray, 1, [], 0⟩ 60 rfl rfl (by decide)
    (by decide)).2

end ScopeScript
