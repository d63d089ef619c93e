import ScopeScript.Proofs.Scanning.Lines
import ScopeScript.Proofs.Scanning.Texts

/-!
# Tokens are read back from their texts

A token that is found in a source is found again wherever its text stands in front of a blank or of
the end. So the texts of the tokens of a source, with single spaces between them, hold the same
tokens and nothing else: no text runs into the next one, and none falls apart.
-/

namespace ScopeScript

/-- What a token is, wherever it stands. -/
def Token.content (token : Token) : Kind × String :=
  (token.kind, token.lexeme)

/-- The piece that the text of a token is cut off as. -/
def Token.piece (token : Token) : Source.Piece :=
  .lexeme token.kind (Utf8.encode token.lexeme)

/-- The token may be found in a source. -/
def Token.Found (token : Token) : Prop :=
  ∃ after, Source.TokenAt token.kind (Utf8.encode token.lexeme) after

namespace Source

/-! ## The tokens of a source -/

theorem found_of_mem {source : String} {token : Token}
    (h : token ∈ tokens (Utf8.encode source)) (htag : token.tag ≠ .eof) : token.Found := by
  obtain ⟨item, hitem, htoken⟩ := List.mem_filterMap.mp h
  cases item with
  | error => cases htoken
  | ok scanned =>
      obtain rfl : scanned = token := Option.some.inj htoken
      rcases exists_piece hitem with ⟨last, hend⟩ | ⟨piece, hpiece, last, hof⟩
      · cases hend
        exact absurd rfl htag
      · obtain ⟨parts, hpieces, -, hparts⟩ := exists_parts source
        rw [hpieces] at hpiece
        obtain ⟨⟨text, piece⟩, hpart, rfl⟩ := List.mem_map.mp hpiece
        obtain ⟨hbytes, after, hat⟩ := hparts _ hpart
        cases piece with
        | blank | comment | fault => cases hof
        | lexeme kind bytes =>
            cases hof
            obtain rfl : bytes = Utf8.encode text := hbytes
            refine ⟨after, ?_⟩
            rw [Utf8.lossy_encode]
            exact hat

/-! ## Texts with spaces between them -/

theorem pieces_of_found {token : Token} (h : token.Found) {rest : List UInt8}
    (hrest : ∀ next ∈ rest.head?, isBlank next) :
    pieces (Utf8.encode token.lexeme ++ rest) = token.piece :: pieces rest := by
  obtain ⟨after, hat⟩ := h
  have hpiece : token.piece.At rest := hat.upTo List.nil_prefix hrest
  exact pieces_of_at hpiece

theorem pieces_spaced {list : List Token} (h : ∀ token ∈ list, token.Found) :
    pieces (Utf8.encode (" ".intercalate (list.map Token.lexeme))) =
      (list.map Token.piece).intersperse (.blank (ascii ' ')) := by
  have hnone : pieces [] = [] := by rw [pieces]
  induction list with
  | nil => exact hnone
  | cons token rest ih =>
      obtain ⟨hfirst, hrest⟩ := List.forall_mem_cons.mp h
      cases rest with
      | nil =>
          have hpieces : pieces (Utf8.encode token.lexeme ++ []) = token.piece :: pieces [] :=
            pieces_of_found hfirst (by simp)
          rw [List.append_nil, hnone] at hpieces
          exact hpieces
      | cons next rest =>
          have hspace : Utf8.encode " " = [ascii ' '] := rfl
          have hspaced := ih hrest
          simp only [List.map_cons] at hspaced ⊢
          rw [String.intercalate_cons_cons, Utf8.encode_append, Utf8.encode_append, hspace,
            List.append_assoc, List.singleton_append, pieces_of_found hfirst (by simp [isBlank]),
            pieces_blank rfl, hspaced, List.intersperse_cons_cons]

theorem itemsFrom_piece (line : Nat) (token : Token) (list : List Piece) :
    itemsFrom line (token.piece :: list) =
      .ok { token with line := line + lineBreaks (Utf8.encode token.lexeme) }
        :: itemsFrom (line + lineBreaks (Utf8.encode token.lexeme)) list := by
  simp only [itemsFrom, Token.piece, Piece.item?, Piece.bytes, Utf8.lossy_encode,
    Option.toList_some, List.singleton_append]

theorem itemsFrom_spaced (line : Nat) (list : List Token) :
    ∃ (again : List Token) (last : Nat),
      itemsFrom line ((list.map Token.piece).intersperse (.blank (ascii ' '))) =
        again.map .ok ++ [.ok ⟨.eof, "", last⟩]
      ∧ again.map Token.content = list.map Token.content := by
  induction list generalizing line with
  | nil => exact ⟨[], line, rfl, rfl⟩
  | cons token rest ih =>
      cases rest with
      | nil =>
          let line' := line + lineBreaks (Utf8.encode token.lexeme)
          exact ⟨[{ token with line := line' }], line', itemsFrom_piece line token [], rfl⟩
      | cons next rest =>
          let line' := line + lineBreaks (Utf8.encode token.lexeme)
          obtain ⟨again, last, hitems, hagain⟩ := ih line'
          refine ⟨{ token with line := line' } :: again, last, ?_, ?_⟩
          · simp only [List.map_cons] at hitems ⊢
            rw [List.intersperse_cons_cons, itemsFrom_piece, List.cons_append, ← hitems]
            rfl
          · rw [List.map_cons, hagain]
            rfl

/-- The tokens of a text are read back, also if the text has faults. Their texts with single spaces
between them hold no fault and the same tokens, as far as kinds, texts and values go, whatever stood
around them before. -/
theorem tokens_read_back (source : String) :
    ∃ found line, tokens (Utf8.encode source) = found ++ [⟨.eof, "", line⟩]
      ∧ (∀ token ∈ found, token.tag ≠ .eof)
      ∧ errors (Utf8.encode (" ".intercalate (found.map Token.lexeme))) = []
      ∧ ∃ again last,
        tokens (Utf8.encode (" ".intercalate (found.map Token.lexeme))) =
          again ++ [⟨.eof, "", last⟩]
        ∧ again.map Token.content = found.map Token.content := by
  obtain ⟨found, line, htokens, hfound⟩ := tokens_end (Utf8.encode source)
  have hall : ∀ token ∈ found, token.Found := by
    intro token htoken
    have hmem : token ∈ tokens (Utf8.encode source) := by
      rw [htokens]
      exact List.mem_append_left _ htoken
    exact found_of_mem hmem (hfound token htoken)
  obtain ⟨again, last, hitems, hagain⟩ := itemsFrom_spaced 1 found
  rw [← pieces_spaced hall, ← items] at hitems
  refine ⟨found, line, htokens, hfound, ?_, again, last, ?_, hagain⟩
  · rw [errors, hitems]
    simp
  · have hkept : (Except.toOption : Item → Option Token) ∘ Except.ok = some := rfl
    rw [tokens, hitems, List.filterMap_append, List.filterMap_map, hkept, List.filterMap_some]
    rfl

end Source

end ScopeScript
