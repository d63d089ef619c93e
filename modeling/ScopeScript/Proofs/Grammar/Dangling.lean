import ScopeScript.Proofs.Grammar.Starts

/-!
# The dangling `else`

The grammar does not say to which `if` an `else` belongs. Here every statement is brought into the
one form in which an `else` belongs to the nearest `if` that can take it: what stands between an
`if` and its `else` is closed, which means that it could not take the `else` itself.
-/

namespace ScopeScript.Grammar

open Phrase

variable {allowed : Nat → Prop}

/-- The statements that do not end in another statement. -/
def simpleStatement : Phrase :=
  choice [.symbol .exprStmt, .symbol .printStmt, .symbol .breakStmt, .symbol .returnStmt,
    .symbol .block]

/-- What stands before the first statement of an `if`. -/
def ifHead : List Phrase :=
  [word .ifKw, mark .leftParen, .symbol .expression, mark .rightParen]

/-- What stands before the body of a `while` loop. -/
def whileHead : List Phrase :=
  [word .whileKw, mark .leftParen, .symbol .expression, mark .rightParen]

/-- What stands before the body of a `for` loop. -/
def forHead : List Phrase :=
  [word .forKw, mark .leftParen,
    choice [.symbol .varDecl, .symbol .letDecl, .symbol .exprStmt, mark .semicolon],
    Phrase.optional (.symbol .expression), mark .semicolon,
    Phrase.optional (.symbol .expression), mark .rightParen]

/-- Statements in which every `else` belongs to the nearest `if`. A closed one cannot take an `else`
that comes after it. -/
inductive Nested (allowed : Nat → Prop) : (closed : Bool) → List Token → Prop
  | simple {ts : List Token} : Derives allowed simpleStatement ts → Nested allowed true ts
  | whileLoop {head body : List Token} {closed : Bool} :
      Derives allowed (sequence whileHead) head → Nested allowed closed body →
      Nested allowed closed (head ++ body)
  | forLoop {head body : List Token} {closed : Bool} :
      Derives allowed (sequence forHead) head → Nested allowed closed body →
      Nested allowed closed (head ++ body)
  | ifThen {head body : List Token} {closed : Bool} :
      Derives allowed (sequence ifHead) head → Nested allowed closed body →
      Nested allowed false (head ++ body)
  | ifElse {head yes no : List Token} {otherwise : Token} {closed : Bool} :
      Derives allowed (sequence ifHead) head → Nested allowed true yes →
      otherwise.tag = .keyword .elseKw → Nested allowed closed no →
      Nested allowed closed (head ++ (yes ++ otherwise :: no))

/-- A statement that is not closed takes an `else` that comes after it. -/
theorem Nested.extend {ts us : List Token} {otherwise : Token} {closed : Bool}
    (h : Nested allowed false ts) (hotherwise : otherwise.tag = .keyword .elseKw)
    (hno : Nested allowed closed us) :
    ∃ closed', Nested allowed closed' (ts ++ otherwise :: us) := by
  generalize hopen : false = start at h
  induction h with
  | simple _ => cases hopen
  | whileLoop hhead _ ih =>
      obtain ⟨closed', hbody⟩ := ih hopen
      exact ⟨closed', by simpa using Nested.whileLoop hhead hbody⟩
  | forLoop hhead _ ih =>
      obtain ⟨closed', hbody⟩ := ih hopen
      exact ⟨closed', by simpa using Nested.forLoop hhead hbody⟩
  | @ifThen _ _ inner hhead hbody ih =>
      cases inner with
      | true => exact ⟨closed, by simpa using Nested.ifElse hhead hbody hotherwise hno⟩
      | false =>
          -- The branch can take the `else` itself, so it belongs further inward.
          obtain ⟨closed', hbody⟩ := ih rfl
          exact ⟨false, by simpa using Nested.ifThen hhead hbody⟩
  | ifElse hhead hyes hotherwise' _ _ ih =>
      obtain ⟨closed', hlast⟩ := ih hopen
      exact ⟨closed', by simpa using Nested.ifElse hhead hyes hotherwise' hlast⟩

/-- A statement is simple, or ends in a statement behind a head, or is an `if` with an `else`. -/
theorem derives_statement {ts : List Token} (h : Derives allowed (.symbol .statement) ts) :
    Derives allowed simpleStatement ts
      ∨ (∃ heads ∈ [ifHead, whileHead, forHead], ∃ head body,
          Derives allowed (sequence heads) head ∧ Derives allowed (.symbol .statement) body
            ∧ ts = head ++ body)
      ∨ ∃ head yes otherwise no, Derives allowed (sequence ifHead) head
        ∧ Derives allowed (.symbol .statement) yes ∧ otherwise.tag = .keyword .elseKw
        ∧ Derives allowed (.symbol .statement) no ∧ ts = head ++ (yes ++ otherwise :: no) := by
  have hlooping : ∀ heads : List Phrase,
      Derives allowed (sequence (heads ++ [.symbol .statement])) ts →
      ∃ head body, Derives allowed (sequence heads) head
        ∧ Derives allowed (.symbol .statement) body ∧ ts = head ++ body := by
    intro heads hts
    obtain ⟨head, last, hhead, hlast, rfl⟩ := derives_sequence_append.mp hts
    obtain ⟨body, rest, hbody, hrest, rfl⟩ := derives_sequence_cons.mp hlast
    obtain rfl := derives_sequence_nil.mp hrest
    exact ⟨head, body, hhead, hbody, by simp⟩
  obtain ⟨p, hp, hts⟩ := derives_choice.mp (derives_symbol.mp h)
  by_cases hsimple : p ∈ [Phrase.symbol .exprStmt, .symbol .printStmt, .symbol .breakStmt,
      .symbol .returnStmt, .symbol .block]
  · exact .inl (.choice hsimple hts)
  have hrest : p = .symbol .forStmt ∨ p = .symbol .ifStmt ∨ p = .symbol .whileStmt := by
    simp only [List.mem_cons, List.not_mem_nil, or_false] at hp hsimple
    grind
  rcases hrest with rfl | rfl | rfl
  · exact .inr (.inl ⟨forHead, by simp, hlooping forHead (derives_symbol.mp hts)⟩)
  · have hif : Derives allowed (sequence (ifHead ++
        [.symbol .statement, Phrase.optional (sequence [word .elseKw, .symbol .statement])])) ts :=
      derives_symbol.mp hts
    obtain ⟨head, last, hhead, hlast, rfl⟩ := derives_sequence_append.mp hif
    obtain ⟨yes, rest, hyes, hrest, rfl⟩ := derives_sequence_cons.mp hlast
    simp only [derives_sequence_cons, derives_optional, derives_word, derives_sequence_nil] at hrest
    obtain ⟨other, _, hother | rfl, rfl, rfl⟩ := hrest
    · obtain ⟨_, _, ⟨otherwise, hotherwise, rfl⟩, ⟨no, _, hno, rfl, rfl⟩, rfl⟩ := hother
      exact .inr (.inr ⟨head, yes, otherwise, no, hhead, hyes, hotherwise, hno, by simp⟩)
    · exact .inr (.inl ⟨ifHead, by simp, head, yes, hhead, hyes, by simp⟩)
  · exact .inr (.inl ⟨whileHead, by simp, hlooping whileHead (derives_symbol.mp hts)⟩)

/-- Every statement can be read with each `else` at the nearest `if`. -/
theorem exists_nested {ts : List Token} (h : Derives allowed (.symbol .statement) ts) :
    ∃ closed, Nested allowed closed ts := by
  induction hn : ts.length using Nat.strongRecOn generalizing ts with
  | ind n ih =>
      subst hn
      have hpositive : ∀ {heads : List Phrase} {head : List Token},
          heads ∈ [ifHead, whileHead, forHead] → Derives allowed (sequence heads) head →
          0 < head.length := by
        intro heads head hheads hhead
        refine List.length_pos_iff.mpr (hhead.ne_nil ?_)
        simp only [List.mem_cons, List.not_mem_nil, or_false] at hheads
        rcases hheads with rfl | rfl | rfl <;> rfl
      rcases derives_statement h with hsimple | ⟨heads, hheads, head, body, hhead, hbody, rfl⟩ |
        ⟨head, yes, otherwise, no, hhead, hyes, hotherwise, hno, rfl⟩
      · exact ⟨true, .simple hsimple⟩
      · have hlength := hpositive hheads hhead
        obtain ⟨closed, hbody⟩ := ih _ (by simp [hlength]) hbody rfl
        simp only [List.mem_cons, List.not_mem_nil, or_false] at hheads
        rcases hheads with rfl | rfl | rfl
        · exact ⟨false, .ifThen hhead hbody⟩
        · exact ⟨closed, .whileLoop hhead hbody⟩
        · exact ⟨closed, .forLoop hhead hbody⟩
      · have hlength := hpositive (.head _) hhead
        obtain ⟨closed, hyes⟩ := ih _ (by simp; omega) hyes rfl
        obtain ⟨closed', hno⟩ := ih _ (by simp; omega) hno rfl
        cases closed with
        | true => exact ⟨closed', .ifElse hhead hyes hotherwise hno⟩
        | false =>
            -- The `else` moves inward, and the outer `if` is left without one.
            obtain ⟨closed'', hinner⟩ := hyes.extend hotherwise hno
            exact ⟨false, .ifThen hhead hinner⟩

end ScopeScript.Grammar
