import ScopeScript.Proofs.Parsing.Unread
import ScopeScript.Proofs.Scanning.Characters
import ScopeScript.Proofs.Scanning.Spans

/-!
# The lines of a source

Tokens and faults carry the lines of their source and no others, which are counted from one. The end
token that reading stops at is the one that the source itself ends with, never one that stands in
for it.
-/

namespace ScopeScript.Source

/-! ## Line breaks in bytes and in text -/

/-- A byte of a character that takes several is no line break. -/
theorem count_newline_cons {n : Nat} (h : 128 ≤ n % 256) (rest : List UInt8) :
    (UInt8.ofNat n :: rest).count (ascii '\n') = rest.count (ascii '\n') := by
  refine List.count_cons_of_ne fun heq => ?_
  have hbyte := congrArg UInt8.toNat heq
  rw [UInt8.toNat_ofNat'] at hbyte
  have hten : (ascii '\n').toNat = 10 := rfl
  omega

theorem lineBreaks_utf8EncodeChar (c : Char) :
    lineBreaks (String.utf8EncodeChar c) = if c = '\n' then 1 else 0 := by
  have hnewline : c = '\n' ↔ c.val.toNat = 10 := by
    rw [Char.ext_iff, ← UInt32.toNat_inj]
    rfl
  unfold lineBreaks String.utf8EncodeChar
  dsimp only
  split
  next hsmall =>
    have hbyte : UInt8.ofNat c.val.toNat = ascii '\n' ↔ c.val.toNat = 10 := by
      rw [← UInt8.toNat_inj, UInt8.toNat_ofNat']
      have hten : (ascii '\n').toNat = 10 := rfl
      omega
    simp only [List.count_singleton, beq_iff_eq, hbyte, hnewline]
  next hlarge =>
    have hne : c ≠ '\n' := by
      rw [Ne, hnewline]
      omega
    rw [if_neg hne]
    split
    · simp (disch := omega) only [count_newline_cons, List.count_nil]
    split <;> simp (disch := omega) only [count_newline_cons, List.count_nil]

/-- A text has as many line breaks as its bytes. -/
theorem lineBreaks_encode (source : String) :
    lineBreaks (Utf8.encode source) = source.toList.count '\n' := by
  rw [Utf8.encode_eq]
  induction source.toList with
  | nil => rfl
  | cons c rest ih =>
      have hchar := lineBreaks_utf8EncodeChar c
      unfold lineBreaks at ih hchar ⊢
      rw [List.flatMap_cons, List.count_append, ih, hchar, List.count_cons, Nat.add_comm]
      simp only [beq_iff_eq]

/-! ## Lines of items -/

/-- The line of a token or a fault. -/
def Item.line : Item → Nat
  | .ok token => token.line
  | .error error => error.line

/-- The item of a piece is on the line on which the piece ends. -/
theorem Piece.item?_line {line : Nat} {piece : Piece} {item : Item}
    (h : piece.item? line = some item) : Item.line item = line := by
  cases piece with
  | blank | comment => cases h
  | lexeme | fault =>
      obtain rfl := Option.some.inj h
      rfl

theorem itemsFrom_line {first : Nat} {list : List Piece} :
    ∀ item ∈ itemsFrom first list,
      first ≤ Item.line item ∧ Item.line item ≤ first + lineBreaks (list.flatMap Piece.bytes) := by
  induction list generalizing first with
  | nil => simp [itemsFrom, Item.line, lineBreaks]
  | cons piece rest ih =>
      intro item hitem
      rw [List.flatMap_cons, lineBreaks_append]
      rcases List.mem_append.mp hitem with hitem | hitem
      · have hline := Piece.item?_line (Option.mem_toList.mp hitem)
        omega
      · have hrest := ih item hitem
        omega

theorem items_line {source : List UInt8} :
    ∀ item ∈ items source, 1 ≤ Item.line item ∧ Item.line item ≤ 1 + lineBreaks source := by
  have h := @itemsFrom_line 1 (pieces source)
  rwa [pieces_flatMap_bytes] at h

theorem errors_line {source : List UInt8} {error : LexError} (h : error ∈ errors source) :
    1 ≤ error.line ∧ error.line ≤ 1 + lineBreaks source := by
  obtain ⟨item, hitem, heq⟩ := List.mem_filterMap.mp h
  cases item with
  | ok => cases heq
  | error found =>
      obtain rfl : found = error := Option.some.inj heq
      exact items_line _ hitem

/-! ## The end token -/

/-- The tokens of a source end with an end token, and there is no other among them. -/
theorem tokens_end (source : List UInt8) :
    ∃ before line, tokens source = before ++ [⟨.eof, "", line⟩]
      ∧ ∀ token ∈ before, token.tag ≠ .eof := by
  obtain ⟨found, line, hitems, hlocated⟩ := located_pieces 1 (List.drop_zero (l := source))
  refine ⟨(found.map Prod.snd).filterMap Except.toOption, line, ?_, ?_⟩
  · rw [tokens, items, hitems, List.filterMap_append]
    rfl
  · intro token htoken
    obtain ⟨item, hitem, heq⟩ := List.mem_filterMap.mp htoken
    obtain ⟨entry, hentry, rfl⟩ := List.mem_map.mp hitem
    obtain ⟨-, -, hat⟩ := hlocated.itemAt entry hentry
    cases hfound : entry.2 with
    | error => simp [hfound, Except.toOption] at heq
    | ok scanned =>
        rw [hfound] at heq hat
        obtain rfl : scanned = token := Option.some.inj heq
        have hkind := hat.1.spells.ne_eof
        intro htag
        rw [Token.tag] at htag
        cases hcase : scanned.kind <;> simp_all [Kind.tag]

/-- Reading starts in front of the tokens of the source and stops at its own end token. -/
theorem start_tokens (source : List UInt8) (nextId : NodeId) :
    (Cursor.start (tokens source) nextId).rest ++ [(Cursor.start (tokens source) nextId).ending] =
      tokens source := by
  obtain ⟨before, line, htokens, hbefore⟩ := tokens_end source
  have hend : (⟨.eof, "", line⟩ : Token).tag = .eof := rfl
  obtain ⟨hrest, hending⟩ := Cursor.start_append hbefore hend [] nextId
  rw [htokens, hrest, hending]

end ScopeScript.Source
