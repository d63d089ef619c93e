import ScopeScript.Proofs.Grammar.Phrase

/-!
# First tokens

No symbol stands for the empty list of tokens, and each symbol has a short list of tags that its
first token may have. The lists are checked against the table of phrases symbol by symbol; what
follows for derivations is an induction that knows nothing about the language.
-/

namespace ScopeScript.Grammar

open Phrase

/-- Whether a phrase may stand for no tokens at all. -/
def Phrase.nullable : Phrase → Bool
  | .empty | .many _ => true
  | .never | .token _ | .symbol _ => false
  | .seq first second => first.nullable && second.nullable
  | .either left right => left.nullable || right.nullable
  | .items item => item.nullable

/-- The tags that a primary expression may start with. -/
def primaryStarts : List Tag :=
  [.number, .string, .keyword .trueKw, .keyword .falseKw, .keyword .nilKw, .keyword .thisKw,
    .identifier, .punct .leftParen, .keyword .superKw]

/-- The tags that an expression may start with. -/
def expressionStarts : List Tag :=
  [.punct .bang, .punct .minus] ++ primaryStarts

/-- The tags that a statement may start with, where it is not an expression. -/
def statementStarts : List Tag :=
  [.keyword .printKw, .keyword .forKw, .keyword .ifKw, .keyword .whileKw, .keyword .breakKw,
    .keyword .returnKw, .punct .leftBrace]

/-- The tags that a declaration may start with, where it is not a statement. -/
def declarationStarts : List Tag :=
  [.keyword .classKw, .keyword .funKw, .keyword .varKw, .keyword .letKw]

/-- The tags that a symbol may start with. -/
def Symbol.starts : Symbol → List Tag
  | program => .eof :: (declarationStarts ++ (statementStarts ++ expressionStarts))
  | declaration => declarationStarts ++ (statementStarts ++ expressionStarts)
  | classDecl => [.keyword .classKw]
  | funDecl => [.keyword .funKw]
  | function | parameters => [.identifier]
  | varDecl => [.keyword .varKw]
  | letDecl => [.keyword .letKw]
  | statement => statementStarts ++ expressionStarts
  | printStmt => [.keyword .printKw]
  | forStmt => [.keyword .forKw]
  | ifStmt => [.keyword .ifKw]
  | whileStmt => [.keyword .whileKw]
  | breakStmt => [.keyword .breakKw]
  | returnStmt => [.keyword .returnKw]
  | block => [.punct .leftBrace]
  | exprStmt | expression | assignment | logicOr | logicAnd | equality | comparison | term | factor
  | unary | arguments => expressionStarts
  | call | primary => primaryStarts

/-- The tags that a phrase may start with. -/
def Phrase.starts : Phrase → List Tag
  | .empty | .never => []
  | .token tag => [tag]
  | .symbol s => s.starts
  | .seq first second => first.starts ++ if first.nullable then second.starts else []
  | .either left right => left.starts ++ right.starts
  | .many body => body.starts
  | .items item => item.starts ++ if item.nullable then [.punct .comma] else []

theorem Symbol.phrase_not_nullable (s : Symbol) : s.phrase.nullable = false := by
  cases s <;> rfl

theorem Symbol.phrase_starts (s : Symbol) : s.phrase.starts ⊆ s.starts := by
  cases s <;> decide

variable {allowed : Nat → Prop} {p : Phrase} {ts : List Token}

theorem Derives.ne_nil (h : Derives allowed p ts) (hp : p.nullable = false) : ts ≠ [] := by
  induction h with
  | empty => simp [Phrase.nullable] at hp
  | token t => simp
  | symbol _ ih => exact ih (Symbol.phrase_not_nullable _)
  | seq _ _ ihFirst ihSecond =>
      simp only [Phrase.nullable, Bool.and_eq_false_iff] at hp
      rcases hp with hp | hp
      · exact List.append_ne_nil_of_left_ne_nil (ihFirst hp) _
      · exact List.append_ne_nil_of_right_ne_nil _ (ihSecond hp)
  | left _ ih =>
      simp only [Phrase.nullable, Bool.or_eq_false_iff] at hp
      exact ih hp.1
  | right _ ih =>
      simp only [Phrase.nullable, Bool.or_eq_false_iff] at hp
      exact ih hp.2
  | many _ _ => simp [Phrase.nullable] at hp
  | items _ _ _ ihFirst _ => exact List.append_ne_nil_of_left_ne_nil (ihFirst hp) _

theorem Derives.nullable_of_nil (h : Derives allowed p []) : p.nullable = true := by
  cases hp : p.nullable with
  | true => rfl
  | false => exact (h.ne_nil hp rfl).elim

/-- The first token of a list of parts is the first token of one of them. -/
theorem exists_head_of_flatten {parts : List (List Token)} {t : Token}
    (ht : parts.flatten.head? = some t) : ∃ part ∈ parts, part.head? = some t := by
  induction parts with
  | nil => simp at ht
  | cons part others ih =>
      cases part with
      | nil =>
          obtain ⟨part, hpart, ht⟩ := ih (by simpa using ht)
          exact ⟨part, .tail _ hpart, ht⟩
      | cons t' rest => exact ⟨_, .head _, by simpa using ht⟩

theorem Derives.head_mem (h : Derives allowed p ts) {t : Token} (ht : ts.head? = some t) :
    t.tag ∈ p.starts := by
  induction h with
  | empty => simp at ht
  | token t' =>
      obtain rfl : t' = t := by simpa using ht
      exact List.mem_singleton.mpr rfl
  | symbol _ ih => exact Symbol.phrase_starts _ (ih ht)
  | @seq p _ first second hfirst _ ihFirst ihSecond =>
      cases first with
      | cons t' rest => exact List.mem_append_left _ (ihFirst (by simpa using ht))
      | nil =>
          -- The first part stands for nothing here, so the second one begins.
          rw [Phrase.starts, if_pos hfirst.nullable_of_nil]
          exact List.mem_append_right _ (ihSecond (by simpa using ht))
  | left _ ih => exact List.mem_append_left _ (ih ht)
  | right _ ih => exact List.mem_append_right _ (ih ht)
  | many _ ih =>
      obtain ⟨part, hpart, ht⟩ := exists_head_of_flatten ht
      exact ih part hpart ht
  | @items item first others hfirst _ _ ihFirst ihOthers =>
      cases first with
      | cons t' rest => exact List.mem_append_left _ (ihFirst (by simpa using ht))
      | nil =>
          obtain ⟨part, hpart, ht⟩ := exists_head_of_flatten (by simpa using ht)
          have htag : t.tag ∈ [Tag.punct .comma] := by
            simpa [Phrase.starts, Phrase.nullable] using ihOthers part hpart ht
          rw [Phrase.starts, if_pos hfirst.nullable_of_nil]
          exact List.mem_append_right _ htag

/-- A symbol stands for a first token of one of its tags and more tokens. -/
theorem Derives.exists_cons {s : Symbol} (h : Derives allowed (.symbol s) ts) :
    ∃ t rest, ts = t :: rest ∧ t.tag ∈ s.starts := by
  cases ts with
  | nil => exact (h.ne_nil rfl rfl).elim
  | cons t rest => exact ⟨t, rest, rfl, h.head_mem rfl⟩

end ScopeScript.Grammar
