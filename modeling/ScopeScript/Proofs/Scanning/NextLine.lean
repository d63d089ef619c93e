import ScopeScript.Proofs.Scanning.Determinacy
import ScopeScript.Proofs.Scanning.Spans

/-!
# Sources joined at a line break

A line break ends every blank, line comment, token and fault just as the end of the source does. So
unless the first of two sources ends inside a string or a block comment, the items of the one with
the other in the next line are the items of both, and nothing but the lines is carried over.
-/

namespace ScopeScript.Source

instance (bytes : List UInt8) : Decidable (Unclosed bytes) :=
  inferInstanceAs (Decidable (¬ [ascii '*', ascii '/'] <:+: bytes))

/-- The piece is a block comment that nothing closes. -/
def Piece.isOpenComment : Piece → Bool
  | .comment (_ :: second :: text) => second = ascii '*' && decide (Unclosed text)
  | _ => false

/-- The source ends inside a block comment. -/
def endsInComment (source : List UInt8) : Bool :=
  (pieces source).any Piece.isOpenComment

/-- The piece is a string without a second quote. -/
def Piece.isOpenString : Piece → Bool
  | .fault .unterminated _ => true
  | _ => false

/-! ## The pieces -/

/-- A piece ends in front of a line break just as at the end of the source. -/
theorem Piece.At.before_newline {piece : Piece} {after : List UInt8} (h : piece.At after)
    (hcomment : piece.isOpenComment = false) (hstring : piece.isOpenString = false)
    (second : List UInt8) : piece.At (after ++ ascii '\n' :: second) := by
  have hhead : ∀ next ∈ (after ++ ascii '\n' :: second).head?,
      next ∈ after.head? ∨ next = ascii '\n' := by
    cases after with
    | nil => simp
    | cons => simp
  cases piece with
  | blank byte => exact h
  | comment bytes =>
      cases h with
      | line htext hnext =>
          refine CommentAt.line htext ?_
          intro next hmem
          exact (hhead next hmem).elim (hnext next) id
      | closed htext => exact CommentAt.closed htext
      | unclosed htext => simp [isOpenComment, Unclosed, htext] at hcomment
  | lexeme kind bytes => exact TokenAt.upTo h (List.prefix_refl after) (by simp [isBlank])
  | fault cause bytes =>
      cases h with
      | ascii hblank hnone hascii => exact FaultAt.ascii hblank hnone hascii
      | wide hnone hwide hmore hnext =>
          refine FaultAt.wide hnone hwide hmore ?_
          intro next hmem
          rcases hhead next hmem with hmem | rfl
          · exact hnext next hmem
          · rfl
      | unterminated => cases hstring

theorem pieces_at_newline {first : List UInt8}
    (hcomment : ∀ piece ∈ pieces first, piece.isOpenComment = false)
    (hstring : ∀ piece ∈ pieces first, piece.isOpenString = false) (second : List UInt8) :
    pieces (first ++ ascii '\n' :: second) =
      pieces first ++ .blank (ascii '\n') :: pieces second := by
  fun_induction pieces first with
  | case1 => exact pieces_blank rfl second
  | case2 byte rest ih =>
      obtain ⟨hcomment, hcomments⟩ := List.forall_mem_cons.mp hcomment
      obtain ⟨hstring, hstrings⟩ := List.forall_mem_cons.mp hstring
      have hat := (cutFirst_at byte rest).before_newline hcomment hstring second
      rw [← cutFirst_append byte rest, List.append_assoc, pieces_of_at hat, ih hcomments hstrings,
        List.cons_append]

/-! ## The items -/

/-- The item, so many lines further down. -/
def Item.later (lines : Nat) : Item → Item
  | .ok token => .ok { token with line := token.line + lines }
  | .error error => .error { error with line := error.line + lines }

theorem itemsFrom_later (lines line : Nat) (list : List Piece) :
    itemsFrom (line + lines) list = (itemsFrom line list).map (Item.later lines) := by
  induction list generalizing line with
  | nil => rfl
  | cons piece rest ih =>
      have hitem : (piece.item? (line + lineBreaks piece.bytes + lines)).toList =
          (piece.item? (line + lineBreaks piece.bytes)).toList.map (Item.later lines) := by
        cases piece <;> rfl
      rw [itemsFrom, itemsFrom, List.map_append, ← ih, ← hitem, Nat.add_right_comm]

theorem mem_errors_of_fault {cause : LexCause} {bytes source : List UInt8}
    (h : .fault cause bytes ∈ pieces source) : ∃ line, ⟨line, cause⟩ ∈ errors source := by
  obtain ⟨line, hline⟩ := exists_line h 1
  exact ⟨line, List.mem_filterMap.mpr ⟨.error ⟨line, cause⟩, hline _ rfl, rfl⟩⟩

/-- Scanning goes line by line. Unless the first of two sources ends inside a string or a block
comment, the items of the one with the other in the next line are those of the first, without its
end token, and those of the second, as many lines further down as the first has and otherwise
unchanged. -/
theorem items_at_newline (first second : List UInt8)
    (hstring : ∀ error ∈ errors first, error.cause ≠ .unterminated)
    (hcomment : endsInComment first = false) :
    ∃ found, items first = found ++ [.ok ⟨.eof, "", 1 + lineBreaks first⟩]
      ∧ items (first ++ ascii '\n' :: second) =
        found ++ (items second).map (Item.later (1 + lineBreaks first)) := by
  have hstrings : ∀ piece ∈ pieces first, piece.isOpenString = false := by
    intro piece hpiece
    cases piece with
    | fault cause bytes =>
        cases cause with
        | unexpected => rfl
        | unterminated =>
            obtain ⟨line, herror⟩ := mem_errors_of_fault hpiece
            exact absurd rfl (hstring _ herror)
    | blank | comment | lexeme => rfl
  have hcomments : ∀ piece ∈ pieces first, piece.isOpenComment = false := by
    simpa [endsInComment] using hcomment
  have hpieces := pieces_at_newline hcomments hstrings second
  have hbreak : 1 + lineBreaks first + lineBreaks (Piece.blank (ascii '\n')).bytes =
      1 + (1 + lineBreaks first) := Nat.add_comm _ _
  refine ⟨(spannedFrom 0 1 (pieces first)).map Prod.snd, ?_, ?_⟩
  · rw [items, itemsFrom_eq 0, pieces_flatMap_bytes]
  · rw [items, hpieces, itemsFrom_append 0, pieces_flatMap_bytes, itemsFrom, hbreak,
      itemsFrom_later]
    rfl

/-- A line comment that holds a quote and the opening of a comment ends with its line. -/
theorem items_at_newline_of_line_comment :
    let first := Utf8.encode "a /* b\n */ \"c\nd\" é // \" /*"
    let second := Utf8.encode "= \"e"
    (∀ error ∈ errors first, error.cause ≠ .unterminated) ∧ endsInComment first = false
      ∧ ∃ found, items first = found ++ [.ok ⟨.eof, "", 3⟩]
        ∧ items (first ++ ascii '\n' :: second) = found ++ (items second).map (Item.later 3) := by
  intro first second
  have hstring : ∀ error ∈ errors first, error.cause ≠ .unterminated := by decide +kernel
  have hcomment : endsInComment first = false := by decide +kernel
  have hlines : lineBreaks first = 2 := by decide +kernel
  have hitems := items_at_newline first second hstring hcomment
  rw [hlines] at hitems
  exact ⟨hstring, hcomment, hitems⟩

end ScopeScript.Source
