import ScopeScript.Proofs.Scanning.Texts

/-!
# Characters that start no token

A character that starts no token is reported alone, as it stands in the source, and does nothing
else: with a space in its place the source has the same pieces around it. So it neither joins nor
splits nor hides what stands beside it.
-/

namespace ScopeScript.Source

/-- The piece is a character that starts no token. -/
def Piece.isUnexpected : Piece → Bool
  | .fault (.unexpected _) _ => true
  | _ => false

/-- The piece, or a space in place of a character that starts no token. -/
def Piece.cleared (piece : Piece) : Piece :=
  if piece.isUnexpected then .blank (ascii ' ') else piece

/-- The source with a space in place of every character that starts no token. -/
def cleared (source : List UInt8) : List UInt8 :=
  (pieces source).flatMap (·.cleared.bytes)

/-! ## The pieces that stay -/

theorem cleared_cons (byte : UInt8) (rest : List UInt8) :
    cleared (byte :: rest) =
      (cutFirst byte rest).1.cleared.bytes ++ cleared (cutFirst byte rest).2 := by
  rw [cleared, pieces, List.flatMap_cons, ← cleared]

theorem cleared_nil : cleared [] = [] := by
  rw [cleared, pieces, List.flatMap_nil]

/-- Up to the first space that is put into it a source stays as it is. -/
theorem cleared_front (source : List UInt8) :
    ∃ common rest, common <+: source ∧ cleared source = common ++ rest
      ∧ ∀ next ∈ rest.head?, isBlank next := by
  fun_induction pieces source with
  | case1 => exact ⟨[], [], List.prefix_refl [], cleared_nil, by simp⟩
  | case2 byte rest ih =>
      rw [cleared_cons, Piece.cleared]
      split
      next =>
        refine ⟨[], _, List.nil_prefix, rfl, ?_⟩
        simp [isBlank]
      next =>
        obtain ⟨common, more, hcommon, hmore, hblank⟩ := ih
        refine ⟨(cutFirst byte rest).1.bytes ++ common, more, ?_, ?_, hblank⟩
        · have hfront := (List.prefix_append_right_inj (cutFirst byte rest).1.bytes).mpr hcommon
          rwa [cutFirst_append] at hfront
        · rw [hmore, List.append_assoc]

theorem cleared_newline {source : List UInt8} (h : ∀ next ∈ source.head?, next = ascii '\n') :
    ∀ next ∈ (cleared source).head?, next = ascii '\n' := by
  cases source with
  | nil =>
      simp [cleared_nil]
  | cons byte rest =>
      obtain rfl : byte = ascii '\n' := h byte rfl
      rw [cleared, pieces_blank rfl, List.flatMap_cons]
      intro next hnext
      exact (Option.some.inj hnext).symm

theorem Piece.At.cleared {piece : Piece} {after : List UInt8} (h : piece.At after) :
    piece.cleared.At (Source.cleared after) := by
  cases piece with
  | blank byte => exact h
  | comment bytes =>
      cases h with
      | line htext hnext => exact CommentAt.line htext (cleared_newline hnext)
      | closed htext => exact CommentAt.closed htext
      | unclosed htext =>
          rw [cleared_nil]
          exact CommentAt.unclosed htext
  | lexeme kind bytes =>
      obtain ⟨common, rest, hcommon, hrest, hblank⟩ := cleared_front after
      rw [hrest]
      exact TokenAt.upTo h hcommon hblank
  | fault cause bytes =>
      cases h with
      | ascii | wide => exact rfl
      | unterminated hinside =>
          rw [cleared_nil]
          exact FaultAt.unterminated hinside

theorem pieces_cleared (source : List UInt8) :
    pieces (cleared source) = (pieces source).map Piece.cleared := by
  fun_induction pieces source with
  | case1 => rw [cleared_nil, pieces, List.map_nil]
  | case2 byte rest ih =>
      rw [cleared_cons, pieces_of_at (cutFirst_at byte rest).cleared, ih, List.map_cons]

/-! ## The items that stay -/

/-- The item is the fault of a character that starts no token. -/
def Item.isUnexpected : Item → Bool
  | .error ⟨_, .unexpected _⟩ => true
  | _ => false

/-- A character that starts no token is no line break. -/
theorem lineBreaks_cleared {piece : Piece} {after : List UInt8} (h : piece.At after) :
    lineBreaks piece.cleared.bytes = lineBreaks piece.bytes := by
  cases piece with
  | blank | comment | lexeme => rfl
  | fault cause bytes =>
      cases cause with
      | unterminated => rfl
      | unexpected text =>
          have hnone : ascii '\n' ∉ bytes := by
            intro hnewline
            cases h with
            | ascii hblank =>
                obtain rfl := List.mem_singleton.mp hnewline
                cases hblank
            | wide _ hwide hmore =>
                rcases List.mem_cons.mp hnewline with rfl | hlater
                · exact absurd hwide (by decide)
                · exact absurd (hmore _ hlater) (by decide)
          exact (List.count_eq_zero.mpr hnone).symm

theorem Piece.cleared_item? (piece : Piece) (line : Nat) :
    (piece.cleared.item? line).toList =
      (piece.item? line).toList.filter (!Item.isUnexpected ·) := by
  cases piece with
  | blank | comment | lexeme => rfl
  | fault cause bytes => cases cause <;> rfl

theorem itemsFrom_cleared (line : Nat) (source : List UInt8) :
    itemsFrom line ((pieces source).map Piece.cleared) =
      (itemsFrom line (pieces source)).filter (!Item.isUnexpected ·) := by
  fun_induction pieces source generalizing line with
  | case1 => rfl
  | case2 byte rest ih =>
      rw [List.map_cons, itemsFrom, itemsFrom, lineBreaks_cleared (cutFirst_at byte rest), ih,
        Piece.cleared_item?, List.filter_append]

/-- With spaces in place of the characters that start no token, exactly their faults are gone. -/
theorem items_cleared (source : List UInt8) :
    items (cleared source) = (items source).filter (!Item.isUnexpected ·) := by
  rw [items, pieces_cleared, itemsFrom_cleared, ← items]

theorem tokens_cleared (source : List UInt8) : tokens (cleared source) = tokens source := by
  rw [tokens, items_cleared, List.filterMap_filter, tokens]
  congr 1
  funext item
  cases item with
  | ok => rfl
  | error error =>
      obtain ⟨line, cause⟩ := error
      cases cause <;> rfl

theorem errors_cleared (source : List UInt8) :
    errors (cleared source) = (errors source).filter (·.cause = .unterminated) := by
  rw [errors, items_cleared, List.filterMap_filter, errors, List.filter_filterMap]
  congr 1
  funext item
  cases item with
  | ok => rfl
  | error error =>
      obtain ⟨line, cause⟩ := error
      cases cause <;> rfl

/-! ## Texts -/

theorem encode_cleared {parts : List (String × Piece)}
    (h : ∀ part ∈ parts, part.2.bytes = Utf8.encode part.1) :
    Utf8.encode (String.join (parts.map fun part => if part.2.isUnexpected then " " else part.1)) =
      (parts.map Prod.snd).flatMap (·.cleared.bytes) := by
  induction parts with
  | nil => rfl
  | cons part rest ih =>
      obtain ⟨hpart, hrest⟩ := List.forall_mem_cons.mp h
      have hfirst : Utf8.encode (if part.2.isUnexpected then " " else part.1) =
          part.2.cleared.bytes := by
        unfold Piece.cleared
        split
        · rfl
        · exact hpart.symm
      rw [List.map_cons, String.join_cons, Utf8.encode_append, ih hrest, hfirst, List.map_cons,
        List.flatMap_cons]

/-- Characters that start no token are reported one by one and do nothing else. A text falls into
parts, one for each piece, and what an item shows is its part: a token the text it was read from, a
string what is between its quotes, the report of an unexpected character that one character. With a
space in place of each of these characters no such fault is left, and the tokens and the fault of a
string without a second quote are what they were, line by line. -/
theorem unexpected_characters_isolated (source : String) :
    ∃ parts : List (String × Piece), pieces (Utf8.encode source) = parts.map Prod.snd
      ∧ source = String.join (parts.map Prod.fst)
      ∧ (∀ part ∈ parts, part.2.bytes = Utf8.encode part.1
        ∧ ∀ line, ∀ item ∈ part.2.item? line, Item.Shows part.1 item)
      ∧ let spaced := Utf8.encode
          (String.join (parts.map fun part => if part.2.isUnexpected then " " else part.1))
        (∀ error ∈ errors spaced, error.cause = .unterminated)
        ∧ tokens spaced = tokens (Utf8.encode source)
        ∧ errors spaced = (errors (Utf8.encode source)).filter (·.cause = .unterminated) := by
  obtain ⟨parts, hpieces, hjoin, hparts⟩ := exists_parts source
  have hcleared : Utf8.encode
      (String.join (parts.map fun part => if part.2.isUnexpected then " " else part.1)) =
        cleared (Utf8.encode source) := by
    rw [encode_cleared fun part hpart => (hparts part hpart).1, ← hpieces, cleared]
  refine ⟨parts, hpieces, hjoin, ?_, ?_⟩
  · intro part hpart
    obtain ⟨hbytes, after, hat⟩ := hparts part hpart
    exact ⟨hbytes, hat.shows hbytes⟩
  · intro spaced
    simp only [spaced, hcleared, tokens_cleared, errors_cleared]
    simp

end ScopeScript.Source
