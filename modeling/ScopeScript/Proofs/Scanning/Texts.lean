import ScopeScript.Proofs.Scanning.Characters
import ScopeScript.Proofs.Scanning.Determinacy

/-!
# The pieces of a text are texts

Every piece of a text ends with an ASCII byte, in front of a byte that continues no character or at
the end. So a text is cut between characters only: the bytes of each piece are those of a part of
the text, and what an item shows of the source is that part as it stands there.
-/

namespace ScopeScript.Source

theorem Spells.exists_last {kind : Kind} {bytes : List UInt8} (h : Spells kind bytes) :
    ∃ front last, bytes = front ++ [last] ∧ last < 0x80 := by
  have hall : (∀ byte ∈ bytes, byte < 0x80) → ∃ front last, bytes = front ++ [last] ∧ last < 0x80 :=
    fun hascii => ⟨bytes.dropLast, bytes.getLast h.ne_nil,
      (List.dropLast_concat_getLast h.ne_nil).symm, hascii _ (List.getLast_mem h.ne_nil)⟩
  cases bytes with
  | nil => exact absurd rfl h.ne_nil
  | cons byte tail =>
      rcases h.start with ⟨punct, hpunct⟩ | ⟨-, hnumber⟩ | ⟨rfl, inside, -, rfl⟩ | ⟨hfirst, hrest⟩
      · refine hall fun b hb => (punct_byte punct b ?_).2
        rwa [hpunct]
      · exact hall hnumber.all_ascii
      · exact ⟨ascii '"' :: inside, ascii '"', rfl, by decide⟩
      · refine hall (List.forall_mem_cons.mpr ⟨?_, ?_⟩)
        · exact (name_byte byte (nameByte_of_start hfirst)).1
        · exact fun b hb => (name_byte b (hrest b hb)).1

/-- No character of a text goes on behind a piece of it. -/
theorem Piece.At.boundary {source : String} {piece : Piece} {after : List UInt8}
    (h : piece.At after) (hsource : Utf8.encode source = piece.bytes ++ after) :
    ∀ next ∈ after.head?, isContinuation next = false := by
  cases piece with
  | blank byte =>
      obtain ⟨-, -, -, hascii, -⟩ := blank_byte byte h
      exact boundary_of_ascii [] hsource hascii
  | comment bytes =>
      cases h with
      | line htext hnext =>
          intro next hmem
          rw [hnext next hmem]
          rfl
      | @closed text _ htext =>
          have hclosing : Utf8.encode source =
              ascii '/' :: ascii '*' :: text ++ [ascii '*'] ++ ascii '/' :: after := by
            simpa [Piece.bytes] using hsource
          exact boundary_of_ascii _ hclosing (by decide)
      | unclosed => simp
  | lexeme kind bytes =>
      obtain ⟨front, last, rfl, hlast⟩ := (TokenAt.spells h).exists_last
      exact boundary_of_ascii front (by simpa [Piece.bytes] using hsource) hlast
  | fault cause bytes =>
      cases h with
      | ascii _ _ hascii => exact boundary_of_ascii [] hsource hascii
      | wide _ _ _ hnext => exact hnext
      | unterminated => simp

/-- A text falls into parts, one for each piece. -/
theorem exists_parts (source : String) :
    ∃ parts : List (String × Piece), pieces (Utf8.encode source) = parts.map Prod.snd
      ∧ source = String.join (parts.map Prod.fst)
      ∧ ∀ part ∈ parts, part.2.bytes = Utf8.encode part.1 ∧ ∃ after, part.2.At after := by
  generalize hbytes : Utf8.encode source = bytes
  fun_induction pieces bytes generalizing source with
  | case1 =>
      refine ⟨[], rfl, ?_, List.forall_mem_nil _⟩
      exact Utf8.encode_inj hbytes
  | case2 byte rest ih =>
      have hat := cutFirst_at byte rest
      have hcut := hbytes.trans (cutFirst_append byte rest).symm
      obtain ⟨front, back, rfl, hfront, hback⟩ := encode_split hcut (hat.boundary hcut)
      obtain ⟨parts, hpieces, hjoin, hparts⟩ := ih back hback
      refine ⟨(front, (cutFirst byte rest).1) :: parts, ?_, ?_, ?_⟩
      · rw [List.map_cons, hpieces]
      · rw [List.map_cons, String.join_cons, ← hjoin]
      · exact List.forall_mem_cons.mpr ⟨⟨hfront.symm, _, hat⟩, hparts⟩

/-! ## What items show -/

/-- What an item shows of a part of the source: a token shows all of it, and a string also what is
between its quotes; the report of a character that starts no token quotes that one character. -/
def Item.Shows (text : String) : Item → Prop
  | .ok token => token.lexeme = text
      ∧ ∀ inside, token.kind = .string inside → text = "\"" ++ inside ++ "\""
  | .error ⟨line, .unexpected shown⟩ => (∃ c, text = String.singleton c)
      ∧ LexError.diagnostic ⟨line, .unexpected shown⟩ =
        .located .lex line s!"at '{text}'" s!"Unexpected character: {text}"
  | .error ⟨_, .unterminated⟩ => True

/-- A string stands between its quotes. -/
theorem string_between {text : String} {inside : List UInt8}
    (h : Utf8.encode text = ascii '"' :: (inside ++ [ascii '"'])) :
    text = "\"" ++ Utf8.lossy inside ++ "\"" := by
  have hquote : ∀ {part : String}, Utf8.encode part = [ascii '"'] → part = "\"" :=
    fun hpart => Utf8.encode_inj hpart
  have hopening : Utf8.encode text = [ascii '"'] ++ (inside ++ [ascii '"']) := h
  obtain ⟨front, back, rfl, hfront, hback⟩ :=
    encode_split hopening (boundary_of_ascii [] hopening (by decide))
  obtain ⟨between, closing, rfl, rfl, hclosing⟩ := encode_split hback fun next hnext => by
    obtain rfl := Option.some.inj hnext
    rfl
  rw [hquote hfront, hquote hclosing, Utf8.lossy_encode, String.append_assoc]

theorem Piece.At.shows {text : String} {piece : Piece} {after : List UInt8} (h : piece.At after)
    (htext : piece.bytes = Utf8.encode text) (line : Nat) :
    ∀ item ∈ piece.item? line, Item.Shows text item := by
  intro item hitem
  cases piece with
  | blank | comment => cases hitem
  | lexeme kind bytes =>
      obtain rfl := Option.some.inj hitem
      obtain rfl : bytes = Utf8.encode text := htext
      refine ⟨Utf8.lossy_encode text, ?_⟩
      rintro inside rfl
      have hspells : Spells (.string inside) (Utf8.encode text) := TokenAt.spells h
      generalize hbytes : Utf8.encode text = bytes at hspells
      cases hspells with
      | string => exact string_between hbytes
  | fault cause bytes =>
      obtain rfl := Option.some.inj hitem
      obtain rfl : bytes = Utf8.encode text := htext
      generalize hbytes : Utf8.encode text = bytes at h
      have hshown : Utf8.lossy bytes = text := by rw [← hbytes, Utf8.lossy_encode]
      cases h with
      | ascii =>
          refine ⟨exists_singleton hbytes (List.forall_mem_nil _), ?_⟩
          rw [hshown]
          rfl
      | wide _ _ hmore =>
          refine ⟨exists_singleton hbytes hmore, ?_⟩
          rw [hshown]
          rfl
      | unterminated => trivial

end ScopeScript.Source
