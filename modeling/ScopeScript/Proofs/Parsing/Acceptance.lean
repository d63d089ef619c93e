import ScopeScript.Proofs.Parsing.StatementCompleteness
import ScopeScript.Proofs.Parsing.Termination

/-!
# The accepted programs are those of the grammar

A list of tokens is accepted exactly if it is a program of the grammar in which no list of
parameters or arguments is longer than the limit. Recovery from errors plays no part in that: what
is noted is never taken back, so a program with a failed declaration is refused.
-/

namespace ScopeScript

open Grammar Phrase Rule

variable {ts : List Token} {ending : Token} {nextId : NodeId}

/-- An accepted program is read from the tokens in front of the end token. -/
theorem parseTokens_reads {tokens : List Token} {nextId' : NodeId} {program : Program}
    (h : parseTokens nextId tokens = (.ok program, nextId')) :
    Reads .declarations (Cursor.start tokens nextId).rest nextId program nextId' := by
  unfold parseTokens at h
  split at h
  next c hrun =>
    split at h
    next hempty =>
      cases h
      have hquiet : c.errors.length ≤ 0 := by
        simp [List.isEmpty_iff.mp hempty]
      exact (topLevel_sound hrun hquiet).2
    next => cases h
  next => cases h

/-- A program is refused with at least one error, since reading always comes to an end. -/
theorem parseTokens_errors {tokens : List Token} {errors : List SyntaxError} {nextId' : NodeId}
    (h : parseTokens nextId tokens = (.error errors, nextId')) : errors ≠ [] := by
  obtain ⟨program, stop, -, -, hparsed⟩ := parseTokens_ends nextId tokens
  rw [hparsed] at h
  split at h
  next => cases h
  next hempty =>
    cases h
    simpa using hempty

/-- Reading gives no number back. -/
theorem parseTokens_le (nextId : NodeId) (tokens : List Token) :
    nextId ≤ (parseTokens nextId tokens).2 := by
  obtain ⟨program, stop, hrun, -, hparsed⟩ := parseTokens_ends nextId tokens
  rw [hparsed]
  exact ((topLevel_advances _).leads_ok hrun).nextId

theorem parseTokens_of_accepted (hts : ∀ t ∈ ts, t.tag ≠ .eof) (hending : ending.tag = .eof)
    (h : Accepted (.many (.symbol .declaration)) ts) :
    ∃ program, (parseTokens nextId (ts ++ [ending])).1 = .ok program := by
  obtain ⟨parts, hparts, rfl⟩ := derives_many.mp h
  have htaken : (topLevel (ruleFuel (parts.flatten ++ [ending]).length)).Takes parts.flatten []
      fun _ => True := by
    apply topLevel_takes hparts
    rw [ruleFuel, List.length_append]
    omega
  obtain ⟨hrest, -⟩ := Cursor.start_append hts hending [] nextId
  obtain ⟨program, nextId', -, hrun⟩ := htaken _ (hrest.trans (List.append_nil _).symm)
  refine ⟨program, ?_⟩
  rw [parseTokens, hrun]
  rfl

theorem derives_program (hending : ending.tag = .eof) :
    Accepted (.symbol .program) (ts ++ [ending]) ↔ Accepted (.many (.symbol .declaration)) ts := by
  constructor
  · intro h
    obtain ⟨body, last, hbody, hlast, heq⟩ := derives_sequence_cons.mp (derives_symbol.mp h)
    obtain ⟨t, rest, -, hrest, rfl⟩ := derives_sequence_token.mp hlast
    obtain rfl := derives_sequence_nil.mp hrest
    obtain ⟨rfl, -⟩ := List.append_inj' heq rfl
    exact hbody
  · intro h
    exact .symbol (.sequence_cons h (.sequence_token hending .sequence_nil))

/-- Tokens are accepted exactly if they are a program of the grammar whose lists of parameters and
arguments have at most 255 elements. Where they are not, there is an error to report. -/
theorem parseTokens_accepts_grammar (nextId : NodeId) (ts : List Token) (ending : Token)
    (hts : ∀ t ∈ ts, t.tag ≠ .eof) (hending : ending.tag = .eof) :
    ((∃ program, (parseTokens nextId (ts ++ [ending])).1 = .ok program) ↔
        Derives (· ≤ 255) (.symbol .program) (ts ++ [ending]))
      ∧ (¬ Derives (· ≤ 255) (.symbol .program) (ts ++ [ending]) →
        ∃ errors, errors ≠ [] ∧ (parseTokens nextId (ts ++ [ending])).1 = .error errors) := by
  have hiff : (∃ program, (parseTokens nextId (ts ++ [ending])).1 = .ok program) ↔
      Derives (· ≤ 255) (.symbol .program) (ts ++ [ending]) := by
    change _ ↔ Accepted (.symbol .program) (ts ++ [ending])
    rw [derives_program hending]
    constructor
    · rintro ⟨program, hprogram⟩
      have hreads := parseTokens_reads (Prod.ext hprogram rfl)
      rw [(Cursor.start_append hts hending [] nextId).1] at hreads
      exact hreads.derived
    · exact parseTokens_of_accepted hts hending
  refine ⟨hiff, fun hnot => ?_⟩
  cases hresult : (parseTokens nextId (ts ++ [ending])).1 with
  | ok program => exact (hnot (hiff.mp ⟨program, hresult⟩)).elim
  | error errors => exact ⟨errors, parseTokens_errors (Prod.ext hresult rfl), rfl⟩

/-- The tokens of `print nil;`. -/
def printNil : List Token :=
  [⟨.keyword .printKw, "print", 1⟩, ⟨.keyword .nilKw, "nil", 1⟩, ⟨.punct .semicolon, ";", 1⟩]

/-- A small program is accepted, and so are its tokens by the grammar. -/
theorem parseTokens_accepts_printNil :
    Derives (· ≤ 255) (.symbol .program) (printNil ++ [⟨.eof, "", 1⟩]) :=
  (parseTokens_accepts_grammar 0 printNil ⟨.eof, "", 1⟩ (by decide) rfl).1.mp ⟨_, rfl⟩

end ScopeScript
