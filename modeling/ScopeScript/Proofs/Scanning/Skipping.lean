import ScopeScript.Proofs.Scanning.Spans

/-!
# Skipping a comment in jumps

A scanner that keeps its place in the source and its line can skip a comment in jumps: only at a
star may the comment close, and only at a line break the line changes, so it searches for the next
of the two and looks at nothing in between. Such a scanner never reads behind the end of the source.
It stops where one stops that goes byte by byte, which is behind the first `*/` or at the end, and
its line has gone up by the line breaks on the way. This is also where the comment is cut off the
source.
-/

namespace ScopeScript.Source

/-- A search for the first of two bytes. If it finds one, it tells how many bytes it has passed. -/
abbrev ByteSearch := UInt8 → UInt8 → List UInt8 → Option Nat

/-- A search tells the place of the first byte that is one of the two, unless there is none. -/
structure ByteSearch.FindsFirst (search : ByteSearch) : Prop where
  absent : ∀ {a b bytes}, search a b bytes = none → ∀ byte ∈ bytes, byte ≠ a ∧ byte ≠ b
  found : ∀ {a b bytes place}, search a b bytes = some place →
    (bytes[place]? = some a ∨ bytes[place]? = some b)
      ∧ ∀ byte ∈ bytes.take place, byte ≠ a ∧ byte ≠ b

/-- A place in a source that a scanner has come to, and its line there. -/
structure Mark where
  position : Nat
  line : Nat
  deriving DecidableEq

/-- Skip a comment that is open at a place, from star or line break to the next one. There is no
answer where the source would be read behind its end. -/
def skipComment (search : ByteSearch) (source : List UInt8) (mark : Mark) : Option Mark :=
  if source.length < mark.position then none
  else
    match search (ascii '*') (ascii '\n') (source.drop mark.position) with
    | some jump =>
      match _ : source[mark.position + jump]? with
      | none => none
      | some byte =>
        let behind := mark.position + jump + 1
        if byte = ascii '\n' then skipComment search source ⟨behind, mark.line + 1⟩
        else if source[behind]? = some (ascii '/') then some ⟨behind + 1, mark.line⟩
        else skipComment search source ⟨behind, mark.line⟩
    | none => some ⟨source.length, mark.line⟩
termination_by source.length - mark.position
decreasing_by
  all_goals
    have hinside := (List.getElem?_eq_some_iff.mp ‹source[_]? = some _›).1
    omega

/-- Skip a comment that is open at a place, one byte after the other. -/
def skipByBytes (source : List UInt8) (mark : Mark) : Mark :=
  match _ : source[mark.position]? with
  | none => mark
  | some byte =>
    if byte = ascii '*' ∧ source[mark.position + 1]? = some (ascii '/') then
      ⟨mark.position + 2, mark.line⟩
    else skipByBytes source ⟨mark.position + 1, mark.line + lineBreaks [byte]⟩
termination_by source.length - mark.position
decreasing_by
  have hinside := (List.getElem?_eq_some_iff.mp ‹source[_]? = some _›).1
  omega

/-! ## Nothing is missed in a jump -/

section Jumps

variable {source : List UInt8} {mark : Mark}

theorem skipByBytes_end (hend : source[mark.position]? = none) :
    skipByBytes source mark = mark := by
  rw [skipByBytes]
  split
  next => rfl
  next hbyte => rw [hend] at hbyte; cases hbyte

theorem skipByBytes_step {byte : UInt8} (hbyte : source[mark.position]? = some byte) :
    skipByBytes source mark =
      if byte = ascii '*' ∧ source[mark.position + 1]? = some (ascii '/') then
        ⟨mark.position + 2, mark.line⟩
      else skipByBytes source ⟨mark.position + 1, mark.line + lineBreaks [byte]⟩ := by
  rw [skipByBytes]
  split
  next hend => rw [hbyte] at hend; cases hend
  next found hfound =>
    obtain rfl := Option.some.inj (hbyte.symm.trans hfound)
    rfl

theorem lineBreaks_of_ne {byte : UInt8} (h : byte ≠ ascii '\n') : lineBreaks [byte] = 0 :=
  List.count_eq_zero.mpr fun hmem => h (List.mem_singleton.mp hmem).symm

/-- Bytes that are neither star nor line break make no difference. -/
theorem skipByBytes_jump {jump : Nat} (hinside : mark.position + jump ≤ source.length)
    (hplain : ∀ byte ∈ (source.drop mark.position).take jump,
      byte ≠ ascii '*' ∧ byte ≠ ascii '\n') :
    skipByBytes source mark = skipByBytes source ⟨mark.position + jump, mark.line⟩ := by
  induction jump generalizing mark with
  | zero => rfl
  | succ jump ih =>
      have hlt : mark.position < source.length := by omega
      have hbehind : mark.position + 1 + jump ≤ source.length := by omega
      rw [List.drop_eq_getElem_cons hlt, List.take_succ_cons] at hplain
      obtain ⟨⟨hstar, hnewline⟩, hrest⟩ := List.forall_mem_cons.mp hplain
      rw [skipByBytes_step (List.getElem?_eq_getElem hlt), if_neg fun h => hstar h.1,
        lineBreaks_of_ne hnewline, ih hbehind hrest, Nat.add_assoc, Nat.add_comm 1]
      rfl

/-- Where a search finds nothing, going byte by byte comes to the end. -/
theorem skipByBytes_absent {search : ByteSearch} (hsearch : search.FindsFirst)
    (hinside : mark.position ≤ source.length)
    (habsent : search (ascii '*') (ascii '\n') (source.drop mark.position) = none) :
    skipByBytes source mark = ⟨source.length, mark.line⟩ := by
  have hend : mark.position + (source.length - mark.position) = source.length :=
    Nat.add_sub_cancel' hinside
  rw [skipByBytes_jump (Nat.le_of_eq hend)
    fun byte hbyte => hsearch.absent habsent byte (List.mem_of_mem_take hbyte), hend]
  exact skipByBytes_end (List.getElem?_eq_none (Nat.le_refl _))

/-- Where a search finds a star or a line break, going byte by byte comes there as well. -/
theorem skipByBytes_found {search : ByteSearch} (hsearch : search.FindsFirst) {jump : Nat}
    (hfound : search (ascii '*') (ascii '\n') (source.drop mark.position) = some jump) :
    (source[mark.position + jump]? = some (ascii '*')
        ∨ source[mark.position + jump]? = some (ascii '\n'))
      ∧ skipByBytes source mark = skipByBytes source ⟨mark.position + jump, mark.line⟩ := by
  obtain ⟨hbyte, hplain⟩ := hsearch.found hfound
  rw [List.getElem?_drop] at hbyte
  have hlt : mark.position + jump < source.length := by
    rcases hbyte with hbyte | hbyte <;> exact (List.getElem?_eq_some_iff.mp hbyte).1
  exact ⟨hbyte, skipByBytes_jump (Nat.le_of_lt hlt) hplain⟩

/-- In jumps or byte by byte, the same place is reached, and the same line. -/
theorem skipComment_eq_skipByBytes {search : ByteSearch} (hsearch : search.FindsFirst)
    (hinside : mark.position ≤ source.length) :
    skipComment search source mark = some (skipByBytes source mark) := by
  have hdistinct : ascii '\n' ≠ ascii '*' := by decide
  fun_induction skipComment search source mark with
  | case1 mark hbeyond => exact absurd hinside (Nat.not_le_of_lt hbeyond)
  | case2 mark _ jump hfound hnone =>
      obtain ⟨hbyte, -⟩ := skipByBytes_found hsearch hfound
      rw [hnone] at hbyte
      rcases hbyte with hbyte | hbyte <;> cases hbyte
  | case3 mark _ jump hfound behind hnewline ih =>
      -- The line break is no star, so the comment goes on in the next line.
      obtain ⟨-, hjump⟩ := skipByBytes_found hsearch hfound
      have hlt := (List.getElem?_eq_some_iff.mp hnewline).1
      rw [hjump, skipByBytes_step hnewline, if_neg fun h => hdistinct h.1]
      exact ih hlt
  | case4 mark _ jump hfound byte hbyte behind hline hslash =>
      obtain ⟨hstar | hnewline, hjump⟩ := skipByBytes_found hsearch hfound
      · obtain rfl := Option.some.inj (hbyte.symm.trans hstar)
        rw [hjump, skipByBytes_step hstar, if_pos ⟨rfl, hslash⟩]
      · exact absurd (Option.some.inj (hbyte.symm.trans hnewline)) hline
  | case5 mark _ jump hfound byte hbyte behind hline hslash ih =>
      -- The byte behind the star is not passed: it may be a star that a slash follows.
      obtain ⟨-, hjump⟩ := skipByBytes_found hsearch hfound
      have hlt := (List.getElem?_eq_some_iff.mp hbyte).1
      rw [hjump, skipByBytes_step hbyte, if_neg fun h => hslash h.2, lineBreaks_of_ne hline]
      exact ih hlt
  | case6 mark _ habsent => rw [skipByBytes_absent hsearch hinside habsent]

end Jumps

/-! ## Where a comment ends -/

/-- There is a `*/` at a place. -/
def ClosesAt (source : List UInt8) (place : Nat) : Prop :=
  source[place]? = some (ascii '*') ∧ source[place + 1]? = some (ascii '/')

/-- The end of a comment that is open at a position: behind the first `*/` that lies at the position
or further on, and at the end of the source if none does. -/
inductive CommentEnd (source : List UInt8) (position : Nat) : Nat → Prop
  | closed {place : Nat} : position ≤ place → ClosesAt source place →
      (∀ earlier, position ≤ earlier → earlier < place → ¬ ClosesAt source earlier) →
      CommentEnd source position (place + 2)
  | unclosed : (∀ place, position ≤ place → ¬ ClosesAt source place) →
      CommentEnd source position source.length

section Ends

variable {source : List UInt8} {position stop : Nat}

theorem CommentEnd.of_succ (hopen : ¬ ClosesAt source position)
    (h : CommentEnd source (position + 1) stop) : CommentEnd source position stop := by
  have hearlier : ∀ place, position ≤ place → (position + 1 ≤ place → ¬ ClosesAt source place) →
      ¬ ClosesAt source place := by
    intro place hle hlater
    rcases Nat.eq_or_lt_of_le hle with rfl | hlt
    · exact hopen
    · exact hlater hlt
  cases h with
  | closed hle hcloses hfirst =>
      refine .closed (Nat.le_of_succ_le hle) hcloses fun earlier hle hlt => ?_
      exact hearlier earlier hle fun hle' => hfirst earlier hle' hlt
  | unclosed hnone => exact .unclosed fun place hle => hearlier place hle (hnone place)

theorem CommentEnd.unique {stop' : Nat} (h : CommentEnd source position stop)
    (h' : CommentEnd source position stop') : stop = stop' := by
  cases h with
  | @closed place hle hcloses hfirst =>
      cases h' with
      | @closed place' hle' hcloses' hfirst' =>
          have hge : ¬ place < place' := fun hlt => hfirst' place hle hlt hcloses
          have hge' : ¬ place' < place := fun hlt => hfirst place' hle' hlt hcloses'
          omega
      | unclosed hnone => exact absurd hcloses (hnone place hle)
  | unclosed hnone =>
      cases h' with
      | @closed place' hle' hcloses' => exact absurd hcloses' (hnone place' hle')
      | unclosed => rfl

theorem Span.bytes_cons {byte : UInt8} (hbyte : source[position]? = some byte)
    (hlt : position < stop) :
    Span.bytes ⟨position, stop⟩ source = byte :: Span.bytes ⟨position + 1, stop⟩ source := by
  obtain ⟨hinside, hget⟩ := List.getElem?_eq_some_iff.mp hbyte
  have hlength : stop - position = stop - (position + 1) + 1 := by omega
  simp only [Span.bytes]
  rw [List.drop_eq_getElem_cons hinside, hget, hlength, List.take_succ_cons]

/-- A scanner that goes byte by byte stops at the end of the comment, inside the source, and has
counted the line breaks that it has passed. -/
theorem skipByBytes_ends {mark : Mark} (hinside : mark.position ≤ source.length) :
    CommentEnd source mark.position (skipByBytes source mark).position
      ∧ mark.position ≤ (skipByBytes source mark).position
      ∧ (skipByBytes source mark).position ≤ source.length
      ∧ (skipByBytes source mark).line = mark.line
        + lineBreaks (Span.bytes ⟨mark.position, (skipByBytes source mark).position⟩ source) := by
  have hline (position : Nat) : lineBreaks (Span.bytes ⟨position, position⟩ source) = 0 := by
    simp [Span.bytes, lineBreaks]
  fun_induction skipByBytes source mark with
  | case1 mark hend =>
      have hle := List.getElem?_eq_none_iff.mp hend
      have hposition : mark.position = source.length := Nat.le_antisymm hinside hle
      refine ⟨?_, Nat.le_refl _, hinside, by rw [hline, Nat.add_zero]⟩
      have hnone : ∀ place, mark.position ≤ place → ¬ ClosesAt source place := by
        rintro place hplace ⟨hstar, -⟩
        rw [List.getElem?_eq_none (Nat.le_trans hle hplace)] at hstar
        cases hstar
      have hunclosed := CommentEnd.unclosed hnone
      rwa [← hposition] at hunclosed
  | case2 mark byte hbyte hcloses =>
      obtain ⟨rfl, hslash⟩ := hcloses
      have hlt := (List.getElem?_eq_some_iff.mp hslash).1
      refine ⟨.closed (Nat.le_refl _) ⟨hbyte, hslash⟩ fun _ hle hlt => ?_, ?_, hlt, ?_⟩
      · exact absurd hle (Nat.not_le_of_lt hlt)
      · exact Nat.le_add_right _ _
      · have hfirst : mark.position < mark.position + 2 := by omega
        have hsecond : mark.position + 1 < mark.position + 2 := by omega
        rw [Span.bytes_cons hbyte hfirst, Span.bytes_cons hslash hsecond]
        simp [Span.bytes, lineBreaks, ascii]
  | case3 mark byte hbyte hopen ih =>
      have hlt := (List.getElem?_eq_some_iff.mp hbyte).1
      obtain ⟨hend, hle, hstop, hcount⟩ := ih hlt
      refine ⟨hend.of_succ fun hcloses => hopen ?_, Nat.le_of_succ_le hle, hstop, ?_⟩
      · exact ⟨Option.some.inj (hbyte.symm.trans hcloses.1), hcloses.2⟩
      · rw [hcount, Span.bytes_cons hbyte hle]
        exact (Nat.add_assoc ..).trans (congrArg _ (lineBreaks_append [byte] _).symm)

/-! ## Where a comment is cut off -/

/-- Bytes without a `*/` close no comment. -/
theorem Unclosed.not_closesAt {bytes : List UInt8} (h : Unclosed bytes) (place : Nat) :
    ¬ ClosesAt bytes place := by
  rintro ⟨hstar, hslash⟩
  obtain ⟨hlt, hstar⟩ := List.getElem?_eq_some_iff.mp hstar
  obtain ⟨hlt', hslash⟩ := List.getElem?_eq_some_iff.mp hslash
  have hdrop : bytes.drop place = ascii '*' :: ascii '/' :: bytes.drop (place + 2) := by
    rw [List.drop_eq_getElem_cons hlt, List.drop_eq_getElem_cons hlt', hstar, hslash]
  refine h ⟨bytes.take place, bytes.drop (place + 2), ?_⟩
  rw [List.append_assoc, List.cons_append, List.cons_append, List.nil_append, ← hdrop,
    List.take_append_drop]

/-- What follows two bytes makes them no `*/`. -/
theorem closesAt_append {bytes after : List UInt8} {place : Nat} (h : place + 1 < bytes.length) :
    ClosesAt (bytes ++ after) place ↔ ClosesAt bytes place := by
  unfold ClosesAt
  rw [List.getElem?_append_left h, List.getElem?_append_left (Nat.lt_of_succ_lt h)]

/-- A comment that starts a source is cut off at its end. -/
theorem splitComment_end (bytes : List UInt8) :
    CommentEnd bytes 0 (splitComment bytes).1.length := by
  have hparts := splitComment_append bytes
  rcases splitComment_spec bytes with ⟨text, htext, hunclosed⟩ | ⟨hall, hunclosed⟩
  · generalize (splitComment bytes).2 = after at hparts
    rw [htext] at hparts ⊢
    subst hparts
    have hcloses : ClosesAt (text ++ [ascii '*', ascii '/'] ++ after) text.length :=
      ⟨by simp, by simp⟩
    rw [List.length_append]
    refine .closed (Nat.zero_le _) hcloses fun earlier _ hlt => ?_
    -- The star of the `*/` may be the last byte at an earlier place, but not its slash.
    have hshorter : earlier + 1 < (text ++ [ascii '*']).length := by simpa using hlt
    have hsplit : text ++ [ascii '*', ascii '/'] ++ after =
        (text ++ [ascii '*']) ++ ascii '/' :: after := by simp
    rw [hsplit, closesAt_append hshorter]
    exact hunclosed.not_closesAt earlier
  · rw [hall]
    exact .unclosed fun place _ => hunclosed.not_closesAt place

theorem closesAt_drop {place : Nat} :
    ClosesAt (source.drop position) place ↔ ClosesAt source (position + place) := by
  unfold ClosesAt
  rw [List.getElem?_drop, List.getElem?_drop, Nat.add_assoc]

/-- The end of a comment does not depend on what is in front of it. -/
theorem CommentEnd.of_drop (hinside : position ≤ source.length)
    (h : CommentEnd (source.drop position) 0 stop) :
    CommentEnd source position (position + stop) := by
  cases h with
  | @closed place _ hcloses hfirst =>
      refine .closed (Nat.le_add_right position place) (closesAt_drop.mp hcloses) ?_
      intro earlier hle hlt
      obtain ⟨ahead, rfl⟩ := Nat.exists_eq_add_of_le hle
      rw [← closesAt_drop]
      exact hfirst ahead (Nat.zero_le _) (Nat.lt_of_add_lt_add_left hlt)
  | unclosed hnone =>
      rw [List.length_drop, Nat.add_sub_cancel' hinside]
      refine .unclosed fun place hle => ?_
      obtain ⟨ahead, rfl⟩ := Nat.exists_eq_add_of_le hle
      rw [← closesAt_drop]
      exact hnone ahead (Nat.zero_le _)

/-- Where a comment ends, it is cut off. -/
theorem CommentEnd.splitComment_eq (hinside : position ≤ source.length)
    (h : CommentEnd source position stop) :
    splitComment (source.drop position) =
      (Span.bytes ⟨position, stop⟩ source, source.drop stop) := by
  have hparts := splitComment_append (source.drop position)
  obtain rfl : position + (splitComment (source.drop position)).1.length = stop :=
    ((splitComment_end _).of_drop hinside).unique h
  refine Prod.ext ?_ (drop_behind hparts.symm).symm
  rw [Span.bytes, Nat.add_sub_cancel_left]
  exact List.prefix_iff_eq_take.mp ⟨_, hparts⟩

end Ends

/-- A comment that is open at any place of a source is skipped in jumps, if the search that they are
made with finds the first of the two bytes it is asked for. The source is never read behind its end,
and the scanner stops where going byte by byte does: behind the first `*/` that lies at the place or
further on, or at the end of the source if none does. The line has gone up by the line breaks that
were skipped, and what was skipped is what is cut off as the rest of the comment. -/
theorem comment_skipped {search : ByteSearch} (hsearch : search.FindsFirst) {source : List UInt8}
    {start : Mark} (hinside : start.position ≤ source.length) :
    ∃ stop : Mark, skipComment search source start = some stop
      ∧ stop = skipByBytes source start
      ∧ CommentEnd source start.position stop.position
      ∧ start.position ≤ stop.position ∧ stop.position ≤ source.length
      ∧ stop.line =
        start.line + lineBreaks (Span.bytes ⟨start.position, stop.position⟩ source)
      ∧ splitComment (source.drop start.position) =
        (Span.bytes ⟨start.position, stop.position⟩ source, source.drop stop.position) := by
  obtain ⟨hend, hle, hstop, hline⟩ := skipByBytes_ends hinside
  exact ⟨_, skipComment_eq_skipByBytes hsearch hinside, rfl, hend, hle, hstop, hline,
    hend.splitComment_eq hinside⟩

/-- A search that looks at one byte after the other. -/
def firstOfTwo : ByteSearch := fun a b bytes => bytes.findIdx? fun byte => byte = a ∨ byte = b

theorem firstOfTwo_findsFirst : firstOfTwo.FindsFirst where
  absent h byte hbyte := by
    simpa using List.findIdx?_eq_none_iff.mp h byte hbyte
  found {a b bytes place} h := by
    obtain ⟨hlt, hbyte, hearlier⟩ := List.findIdx?_eq_some_iff_getElem.mp h
    refine ⟨?_, ?_⟩
    · rw [List.getElem?_eq_getElem hlt]
      simpa using hbyte
    · intro byte hmem
      obtain ⟨earlier, hbound, rfl⟩ := List.mem_take_iff_getElem.mp hmem
      simpa using hearlier earlier (Nat.lt_of_lt_of_le hbound (Nat.min_le_left _ _))

/-- The slash behind the opening star closes nothing, nor does one behind a line break. The comment
closes at the second of two stars, and not only at the next `*/`. -/
theorem comment_skipped_over_stars :
    let source := Utf8.encode "/*/ *\n/ **/ */"
    firstOfTwo.FindsFirst ∧ 2 ≤ source.length
      ∧ skipComment firstOfTwo source ⟨2, 1⟩ = some ⟨11, 2⟩
      ∧ CommentEnd source 2 11 := by
  intro source
  have hinside : (⟨2, 1⟩ : Mark).position ≤ source.length := by decide +kernel
  have hskip : skipComment firstOfTwo source ⟨2, 1⟩ = some ⟨11, 2⟩ := by decide +kernel
  obtain ⟨stop, hstop, -, hend, -⟩ := comment_skipped firstOfTwo_findsFirst hinside
  obtain rfl := Option.some.inj (hskip.symm.trans hstop)
  exact ⟨firstOfTwo_findsFirst, hinside, hskip, hend⟩

end ScopeScript.Source
