import ScopeScript.Proofs.Scanning.Determinacy
import ScopeScript.Proofs.Scanning.Lines

/-!
# Line numbers are exact

An item carries the line on which its span ends: one more than the line breaks of the source up to
there, whatever blanks, comments, strings and faults these belong to. Nothing but strings and what
is passed over holds line breaks, so any other token, and a string on one line, carries the line on
which it starts as well.
-/

namespace ScopeScript.Source

/-- What comes in front of a place and the piece at that place. -/
theorem take_behind {source bytes after : List UInt8} {offset : Nat}
    (hsource : source.drop offset = bytes ++ after) :
    source.take (offset + bytes.length) = source.take offset ++ bytes := by
  rw [List.take_add, hsource, List.take_left]

theorem Span.take_append {span : Span} (h : span.start ≤ span.stop) (source : List UInt8) :
    source.take span.start ++ span.bytes source = source.take span.stop := by
  rw [Span.bytes, ← List.take_add, Nat.add_sub_cancel' h]

theorem spannedFrom_line {source : List UInt8} {offset line : Nat} {list : List Piece}
    (hsource : source.drop offset = list.flatMap Piece.bytes)
    (hline : line = 1 + lineBreaks (source.take offset)) :
    ∀ entry ∈ spannedFrom offset line list,
      Item.line entry.2 = 1 + lineBreaks (source.take entry.1.stop) := by
  induction list generalizing offset line with
  | nil => exact nofun
  | cons piece rest ih =>
      rw [List.flatMap_cons] at hsource
      have hbehind : line + lineBreaks piece.bytes =
          1 + lineBreaks (source.take (offset + piece.bytes.length)) := by
        rw [take_behind hsource, lineBreaks_append, hline, Nat.add_assoc]
      intro entry hentry
      rcases List.mem_append.mp hentry with hown | hrest
      · obtain ⟨item, hitem, rfl⟩ := Option.map_eq_some_iff.mp (Option.mem_toList.mp hown)
        exact (Piece.item?_line hitem).trans hbehind
      · exact ih (drop_behind hsource) hbehind entry hrest

theorem itemsFrom_pairwise (line : Nat) (list : List Piece) :
    (itemsFrom line list).Pairwise fun a b => Item.line a ≤ Item.line b := by
  induction list generalizing line with
  | nil => exact List.pairwise_singleton _ _
  | cons piece rest ih =>
      refine List.pairwise_append.mpr ⟨?_, ih _, ?_⟩
      · cases piece.item? (line + lineBreaks piece.bytes) <;> simp
      · intro item hitem later hlater
        rw [Piece.item?_line (Option.mem_toList.mp hitem)]
        exact (itemsFrom_line later hlater).1

/-- A token that holds a line break is a string. -/
theorem Spells.string_of_newline {kind : Kind} {bytes : List UInt8} (h : Spells kind bytes)
    (hnewline : ascii '\n' ∈ bytes) : ∃ text, kind = .string text := by
  obtain ⟨inside, hinside, rfl⟩ := h.quoted_of_blank hnewline rfl
  exact ⟨_, h.kind_unique (.string hinside)⟩

theorem FaultAt.after_unterminated {bytes after : List UInt8}
    (h : FaultAt .unterminated bytes after) : after = [] := by
  cases h
  rfl

/-- Line numbers are exact. Every item has a span, and its line is one more than the number of line
breaks of the source in front of the end of that span; for the end token and a string without a
second quote these are all line breaks there are. So lines never decrease from one item to the next.
A token other than a string of several lines is on the line of its first byte. -/
theorem items_on_their_lines (source : List UInt8) :
    ∃ found : List (Span × Item),
      items source = found.map Prod.snd ++ [.ok ⟨.eof, "", 1 + lineBreaks source⟩]
      ∧ Located source 0 found
      ∧ (∀ entry ∈ found, Item.line entry.2 = 1 + lineBreaks (source.take entry.1.stop))
      ∧ (∀ entry ∈ found, ∀ line, entry.2 = .error ⟨line, .unterminated⟩ →
        entry.1.stop = source.length ∧ line = 1 + lineBreaks source)
      ∧ (items source).Pairwise (fun a b => Item.line a ≤ Item.line b)
      ∧ ∀ entry ∈ found, ∀ token, entry.2 = .ok token →
        (∀ text, token.kind = .string text → ascii '\n' ∉ entry.1.bytes source) →
        token.line = 1 + lineBreaks (source.take entry.1.start) := by
  have hwhole : (pieces source).flatMap Piece.bytes = source := pieces_flatMap_bytes source
  have hlocated : Located source 0 (spannedFrom 0 1 (pieces source)) :=
    located_spannedFrom 1 List.drop_zero
  have hlines := @spannedFrom_line source 0 1 (pieces source) hwhole.symm rfl
  refine ⟨spannedFrom 0 1 (pieces source), ?_, hlocated, hlines, ?_, itemsFrom_pairwise 1 _, ?_⟩
  · rw [items, itemsFrom_eq 0, hwhole]
  · intro entry hentry line herror
    obtain ⟨-, hle, hat⟩ := hlocated.itemAt entry hentry
    have hline := hlines entry hentry
    rw [herror] at hat hline
    have hend : source.length ≤ entry.1.stop := List.drop_eq_nil_iff.mp hat.after_unterminated
    rw [List.take_of_length_le hend] at hline
    exact ⟨Nat.le_antisymm hle hend, hline⟩
  · intro entry hentry token htoken hplain
    obtain ⟨hlt, -, hat⟩ := hlocated.itemAt entry hentry
    have hline := hlines entry hentry
    rw [htoken] at hat hline
    have hnone : lineBreaks (entry.1.bytes source) = 0 := by
      rw [lineBreaks, List.count_eq_zero]
      intro hnewline
      obtain ⟨text, hstring⟩ := hat.1.spells.string_of_newline hnewline
      exact hplain text hstring hnewline
    rw [← Span.take_append (Nat.le_of_lt hlt), lineBreaks_append, hnone] at hline
    exact hline

end ScopeScript.Source
