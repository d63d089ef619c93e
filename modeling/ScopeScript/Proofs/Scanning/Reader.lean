import ScopeScript.Source.Scan

/-!
# Reading items one at a time

The items of a source may be asked for one by one. A reader keeps what is left of the source and the
line it has come to, passes over blanks and comments, and gives the end token once. Its answers are
the items of the source in order, and after them nothing any more.
-/

namespace ScopeScript.Source

/-- What is left of a source, unless the end token has been given, and the line it starts on. -/
structure Reader where
  rest : Option (List UInt8)
  line : Nat

namespace Reader

/-- The reader in front of a source. -/
def start (source : List UInt8) : Reader :=
  ⟨some source, 1⟩

/-- The first item of a source that starts on a line, and the reader behind it. -/
def scan (line : Nat) : List UInt8 → Item × Reader
  | [] => (.ok ⟨.eof, "", line⟩, ⟨none, line⟩)
  | byte :: rest =>
    let line' := line + lineBreaks (cutFirst byte rest).1.bytes
    match (cutFirst byte rest).1.item? line' with
    | some item => (item, ⟨some (cutFirst byte rest).2, line'⟩)
    | none => scan line' (cutFirst byte rest).2
termination_by source => source.length
decreasing_by exact Nat.lt_succ_of_le (cutFirst_length byte rest)

/-- The next item, if there is one, and the reader behind it. -/
def next (reader : Reader) : Option Item × Reader :=
  match reader.rest with
  | none => (none, reader)
  | some rest => ((scan reader.line rest).1, (scan reader.line rest).2)

/-- The answer after so many others. -/
def answer : Nat → Reader → Option Item
  | 0, reader => reader.next.1
  | count + 1, reader => answer count reader.next.2

/-- The items that are still to be given. -/
def items (reader : Reader) : List Item :=
  match reader.rest with
  | none => []
  | some rest => itemsFrom reader.line (pieces rest)

theorem items_scan (line : Nat) (source : List UInt8) :
    itemsFrom line (pieces source) = (scan line source).1 :: (scan line source).2.items := by
  fun_induction scan line source with
  | case1 line => rw [pieces]; rfl
  | case2 line byte rest line' item hitem =>
      rw [pieces, itemsFrom]
      simp only [line'] at hitem
      rw [hitem]
      rfl
  | case3 line byte rest line' hitem ih =>
      rw [pieces, itemsFrom]
      simp only [line'] at hitem
      rw [hitem, ← ih]
      rfl

/-- The answers are the items in order, and after the last of them there is none. -/
theorem answer_eq (count : Nat) (reader : Reader) :
    reader.answer count = reader.items[count]? := by
  induction count generalizing reader with
  | zero =>
      obtain ⟨rest, line⟩ := reader
      cases rest with
      | none => rfl
      | some rest =>
          have hitems : items ⟨some rest, line⟩ = _ := items_scan line rest
          rw [hitems]
          rfl
  | succ count ih =>
      obtain ⟨rest, line⟩ := reader
      cases rest with
      | none => exact ih ⟨none, line⟩
      | some rest =>
          have hitems : items ⟨some rest, line⟩ = _ := items_scan line rest
          rw [hitems, answer, ih]
          rfl

end Reader

/-- What a reader gives, question by question, are the items of the source. -/
theorem answer_start (source : List UInt8) (count : Nat) :
    (Reader.start source).answer count = (items source)[count]? :=
  Reader.answer_eq count (.start source)

end ScopeScript.Source
