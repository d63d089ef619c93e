import ScopeScript.Proofs.Scanning.Cut
import ScopeScript.Proofs.Scanning.Reader

/-!
# The lexical grammar of a source

A source is covered by spans. Every item but the end token has a span of its own, one behind the
other, and between them, in front of the first and behind the last there is nothing but blanks and
comments. What an item is follows from the bytes of its span and from what comes after it.
-/

namespace ScopeScript.Source

/-- Blanks and comments, and what follows them. -/
inductive Skipped : List UInt8 → List UInt8 → Prop
  | nil {after : List UInt8} : Skipped [] after
  | blank {byte : UInt8} {gap after : List UInt8} : isBlank byte → Skipped gap after →
      Skipped (byte :: gap) after
  | comment {bytes gap after : List UInt8} : CommentAt bytes (gap ++ after) → Skipped gap after →
      Skipped (bytes ++ gap) after

/-- An item, and what follows it. -/
def ItemAt (bytes after : List UInt8) : Item → Prop
  | .ok token => TokenAt token.kind bytes after ∧ token.lexeme = Utf8.lossy bytes
  | .error error => FaultAt error.cause bytes after

/-- A part of a source, from one place up to another. -/
structure Span where
  start : Nat
  stop : Nat

/-- The bytes of a part of a source. -/
def Span.bytes (span : Span) (source : List UInt8) : List UInt8 :=
  (source.drop span.start).take (span.stop - span.start)

/-- The parts of a source around spans, from a place up to the end. -/
def gaps (offset length : Nat) : List Span → List Span
  | [] => [⟨offset, length⟩]
  | span :: rest => ⟨offset, span.start⟩ :: gaps span.stop length rest

/-- From a place on, a source holds items at spans, and nothing else but blanks and comments. -/
def Located (source : List UInt8) (offset : Nat) : List (Span × Item) → Prop
  | [] => Skipped (source.drop offset) []
  | (span, item) :: rest =>
    offset ≤ span.start ∧ span.start < span.stop ∧ span.stop ≤ source.length
      ∧ Skipped (Span.bytes ⟨offset, span.start⟩ source) (source.drop span.start)
      ∧ ItemAt (span.bytes source) (source.drop span.stop) item
      ∧ Located source span.stop rest

theorem Span.bytes_append {span : Span} (h : span.start ≤ span.stop) (source : List UInt8) :
    span.bytes source ++ source.drop span.stop = source.drop span.start := by
  have hstop : source.drop span.stop = (source.drop span.start).drop (span.stop - span.start) := by
    rw [List.drop_drop, Nat.add_sub_cancel' h]
  rw [Span.bytes, hstop, List.take_append_drop]

section Located

variable {source bytes after : List UInt8} {offset : Nat} {found : List (Span × Item)}

theorem drop_behind (hsource : source.drop offset = bytes ++ after) :
    source.drop (offset + bytes.length) = after := by
  rw [← List.drop_drop, hsource, List.drop_left]

/-- What is passed over belongs to the first gap. -/
theorem Located.skip (hsource : source.drop offset = bytes ++ after)
    (hskip : ∀ gap rest, gap ++ rest = after → Skipped gap rest → Skipped (bytes ++ gap) rest)
    (h : Located source (offset + bytes.length) found) : Located source offset found := by
  have hafter := drop_behind hsource
  cases found with
  | nil =>
      rw [Located, hafter] at h
      rw [Located, hsource]
      exact hskip after [] (List.append_nil after) h
  | cons entry rest =>
      obtain ⟨span, item⟩ := entry
      obtain ⟨hstart, hlt, hstop, hgap, hrest⟩ := h
      have hjoin : Span.bytes ⟨offset + bytes.length, span.start⟩ source ++ source.drop span.start =
          after := (Span.bytes_append hstart source).trans hafter
      have hbytes : Span.bytes ⟨offset, span.start⟩ source =
          bytes ++ Span.bytes ⟨offset + bytes.length, span.start⟩ source := by
        have hlength : span.start - offset =
            bytes.length + (span.start - (offset + bytes.length)) := by omega
        simp only [Span.bytes, hsource, hafter, hlength, List.take_length_add_append]
      refine ⟨by omega, hlt, hstop, ?_, hrest⟩
      rw [hbytes]
      exact hskip _ _ hjoin hgap

/-- An item in front has a span without a gap. -/
theorem Located.item (hsource : source.drop offset = bytes ++ after) (hne : bytes ≠ [])
    {item : Item} (hitem : ItemAt bytes after item)
    (h : Located source (offset + bytes.length) found) :
    Located source offset ((⟨offset, offset + bytes.length⟩, item) :: found) := by
  have hpos := List.length_pos_iff.mpr hne
  have hlength := congrArg List.length hsource
  simp only [List.length_drop, List.length_append] at hlength
  have hnone : Span.bytes ⟨offset, offset⟩ source = [] := by simp [Span.bytes]
  have hbytes : Span.bytes ⟨offset, offset + bytes.length⟩ source = bytes := by
    simp [Span.bytes, hsource]
  refine ⟨Nat.le_refl _, by simpa using hpos, by simp only; omega, ?_, ?_, h⟩
  · rw [hnone]
    exact .nil
  · rw [hbytes, drop_behind hsource]
    exact hitem

end Located

/-- The items of pieces that start at a place, on a line, with their spans. -/
def spannedFrom (offset line : Nat) : List Piece → List (Span × Item)
  | [] => []
  | piece :: rest =>
    let stop := offset + piece.bytes.length
    let line' := line + lineBreaks piece.bytes
    ((piece.item? line').map (⟨offset, stop⟩, ·)).toList ++ spannedFrom stop line' rest

theorem lineBreaks_append (bytes more : List UInt8) :
    lineBreaks (bytes ++ more) = lineBreaks bytes + lineBreaks more :=
  List.count_append

/-- The items of pieces do not depend on the pieces after them, and these start on the line on which
the former end. -/
theorem itemsFrom_append (offset line : Nat) (list more : List Piece) :
    itemsFrom line (list ++ more) = (spannedFrom offset line list).map Prod.snd
      ++ itemsFrom (line + lineBreaks (list.flatMap Piece.bytes)) more := by
  induction list generalizing offset line with
  | nil => rfl
  | cons piece rest ih =>
      have hitem : (((piece.item? (line + lineBreaks piece.bytes)).map
          (Span.mk offset (offset + piece.bytes.length), ·)).toList).map Prod.snd =
            (piece.item? (line + lineBreaks piece.bytes)).toList := by
        cases piece.item? (line + lineBreaks piece.bytes) <;> rfl
      rw [List.cons_append, itemsFrom, ih (offset + piece.bytes.length), spannedFrom,
        List.map_append, hitem, List.append_assoc, List.flatMap_cons, lineBreaks_append,
        Nat.add_assoc]

/-- The end token is on the line on which the source ends. -/
theorem itemsFrom_eq (offset line : Nat) (list : List Piece) :
    itemsFrom line list = (spannedFrom offset line list).map Prod.snd
      ++ [.ok ⟨.eof, "", line + lineBreaks (list.flatMap Piece.bytes)⟩] := by
  have happend := itemsFrom_append offset line list []
  rwa [List.append_nil] at happend

/-- Every item but the end token is that of a piece. -/
theorem exists_piece {item : Item} {first : Nat} {list : List Piece}
    (h : item ∈ itemsFrom first list) :
    (∃ line, item = .ok ⟨.eof, "", line⟩)
      ∨ ∃ piece ∈ list, ∃ line, piece.item? line = some item := by
  induction list generalizing first with
  | nil => exact .inl ⟨first, List.mem_singleton.mp h⟩
  | cons piece rest ih =>
      rcases List.mem_append.mp h with hown | hrest
      · exact .inr ⟨piece, List.mem_cons_self, _, Option.mem_toList.mp hown⟩
      · rcases ih hrest with hend | ⟨other, hother, hitem⟩
        · exact .inl hend
        · exact .inr ⟨other, List.mem_cons_of_mem piece hother, hitem⟩

/-- The item of a piece is among the items, on some line. -/
theorem exists_line {piece : Piece} {list : List Piece} (h : piece ∈ list) (first : Nat) :
    ∃ line, ∀ item ∈ piece.item? line, item ∈ itemsFrom first list := by
  induction list generalizing first with
  | nil => cases h
  | cons other rest ih =>
      rcases List.mem_cons.mp h with rfl | hrest
      · refine ⟨first + lineBreaks piece.bytes, ?_⟩
        intro item hitem
        exact List.mem_append_left _ (Option.mem_toList.mpr hitem)
      · obtain ⟨line, hline⟩ := ih hrest (first + lineBreaks other.bytes)
        exact ⟨line, fun item hitem => List.mem_append_right _ (hline item hitem)⟩

/-- Every piece is passed over or is an item. -/
theorem Piece.At.located {source after : List UInt8} {offset line : Nat} {piece : Piece}
    (hat : piece.At after) (hsource : source.drop offset = piece.bytes ++ after)
    (hne : piece.bytes ≠ []) {found : List (Span × Item)}
    (h : Located source (offset + piece.bytes.length) found) :
    Located source offset
      (((piece.item? line).map (⟨offset, offset + piece.bytes.length⟩, ·)).toList ++ found) := by
  cases piece with
  | blank byte =>
      refine h.skip hsource ?_
      intro gap rest _ hgap
      exact .blank hat hgap
  | comment bytes =>
      refine h.skip hsource ?_
      rintro gap rest rfl hgap
      exact .comment hat hgap
  | lexeme kind bytes =>
      have hitem : ItemAt bytes after (.ok ⟨kind, Utf8.lossy bytes, line⟩) := ⟨hat, rfl⟩
      exact h.item hsource hne hitem
  | fault cause bytes =>
      have hitem : ItemAt bytes after (.error ⟨line, cause⟩) := hat
      exact h.item hsource hne hitem

theorem located_spannedFrom {source rest : List UInt8} {offset : Nat} (line : Nat)
    (hsource : source.drop offset = rest) :
    Located source offset (spannedFrom offset line (pieces rest)) := by
  fun_induction pieces rest generalizing offset line with
  | case1 =>
      rw [spannedFrom, Located, hsource]
      exact .nil
  | case2 byte rest ih =>
      have hcut := hsource.trans (cutFirst_append byte rest).symm
      exact (cutFirst_at byte rest).located hcut (cutFirst_ne_nil byte rest)
        (ih _ (drop_behind hcut))

/-- The items of what is left of a source have their spans in it. -/
theorem located_pieces {source rest : List UInt8} {offset : Nat} (line : Nat)
    (hsource : source.drop offset = rest) :
    ∃ found last, itemsFrom line (pieces rest) = found.map Prod.snd ++ [.ok ⟨.eof, "", last⟩]
      ∧ Located source offset found :=
  ⟨_, _, itemsFrom_eq offset line (pieces rest), located_spannedFrom line hsource⟩

/-! ## The grammar -/

section Located

variable {source : List UInt8} {offset : Nat} {found : List (Span × Item)}

theorem Located.start_le (h : Located source offset found) :
    ∀ span ∈ found.map Prod.fst, offset ≤ span.start := by
  induction found generalizing offset with
  | nil => exact nofun
  | cons entry rest ih =>
      obtain ⟨hstart, hlt, -, -, -, hrest⟩ := h
      refine List.forall_mem_cons.mpr ⟨hstart, ?_⟩
      intro span hspan
      have hlater := ih hrest span hspan
      omega

theorem Located.pairwise (h : Located source offset found) :
    (found.map Prod.fst).Pairwise fun a b => a.stop ≤ b.start := by
  induction found generalizing offset with
  | nil => exact .nil
  | cons entry rest ih =>
      obtain ⟨-, -, -, -, -, hrest⟩ := h
      exact .cons hrest.start_le (ih hrest)

theorem Located.itemAt (h : Located source offset found) :
    ∀ entry ∈ found, entry.1.start < entry.1.stop ∧ entry.1.stop ≤ source.length
      ∧ ItemAt (entry.1.bytes source) (source.drop entry.1.stop) entry.2 := by
  induction found generalizing offset with
  | nil => exact nofun
  | cons entry rest ih =>
      obtain ⟨-, hlt, hstop, -, hitem, hrest⟩ := h
      exact List.forall_mem_cons.mpr ⟨⟨hlt, hstop, hitem⟩, ih hrest⟩

theorem Located.skipped (h : Located source offset found) :
    ∀ gap ∈ gaps offset source.length (found.map Prod.fst),
      Skipped (gap.bytes source) (source.drop gap.stop) := by
  induction found generalizing offset with
  | nil =>
      refine List.forall_mem_singleton.mpr ?_
      have hbytes : Span.bytes ⟨offset, source.length⟩ source = source.drop offset := by
        rw [Span.bytes, ← List.length_drop, List.take_length]
      rw [hbytes, List.drop_length]
      exact h
  | cons entry rest ih =>
      obtain ⟨-, -, -, hgap, -, hrest⟩ := h
      exact List.forall_mem_cons.mpr ⟨hgap, ih hrest⟩

end Located

theorem Spells.ne_eof {kind : Kind} {bytes : List UInt8} (h : Spells kind bytes) : kind ≠ .eof := by
  rintro rfl
  cases h

/-- The items of a source follow the lexical grammar. They come to an end: the end token is the last
of them and no other, and after it a reader gives nothing more. The others have spans that come one
after another and are not empty, and around the spans there are only blanks and comments. Every
token is the longest one at its place, a reserved word exactly if the table says so, and a slash
only where no comment starts; every fault is a byte that starts no token, with the continuation
bytes after it if it is no ASCII byte, or a quote without a second one and all that follows it. -/
theorem items_follow_grammar (source : List UInt8) :
    ∃ (found : List (Span × Item)) (line : Nat),
      items source = found.map Prod.snd ++ [.ok ⟨.eof, "", line⟩]
      ∧ (∀ entry ∈ found, ∀ token, entry.2 = .ok token → token.kind ≠ .eof)
      ∧ (∀ count, (Reader.start source).answer count = (items source)[count]?)
      ∧ (found.map Prod.fst).Pairwise (fun a b => a.stop ≤ b.start)
      ∧ (∀ entry ∈ found, entry.1.start < entry.1.stop ∧ entry.1.stop ≤ source.length
        ∧ ItemAt (entry.1.bytes source) (source.drop entry.1.stop) entry.2)
      ∧ ∀ gap ∈ gaps 0 source.length (found.map Prod.fst),
        Skipped (gap.bytes source) (source.drop gap.stop) := by
  obtain ⟨found, line, hitems, hlocated⟩ := located_pieces 1 (List.drop_zero (l := source))
  refine ⟨found, line, hitems, ?_, answer_start source, hlocated.pairwise, hlocated.itemAt,
    hlocated.skipped⟩
  rintro ⟨span, item⟩ hentry token rfl
  obtain ⟨-, -, htoken, -⟩ := hlocated.itemAt _ hentry
  exact htoken.spells.ne_eof

end ScopeScript.Source
