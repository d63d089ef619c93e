import ScopeScript.Proofs.Scanning.Cut

/-!
# The grammar leaves no choice

The bytes at the front of a source tell what its first piece is, how far it goes and which kind of
token it is. So wherever the grammar allows a piece, that piece is the one that is cut off. This is
how the pieces of one source are found from those of another: it is enough that each of them still
is what the grammar says with what follows it now.
-/

namespace ScopeScript.Source

/-! ## The kind of a token -/

/-- The kind of the token that bytes spell, if they spell one. -/
def kindOf? : List UInt8 → Option Kind
  | [] => none
  | byte :: tail =>
    if isDigit byte then some (numberKind (byte :: tail))
    else if isNameStart byte then some (nameKind (byte :: tail))
    else if byte = ascii '"' then some (.string (Utf8.lossy tail.dropLast))
    else (Punct.all.find? (spell ·.spelling = byte :: tail)).map .punct

theorem kindOf?_name {byte : UInt8} (hname : isNameStart byte) (tail : List UInt8) :
    kindOf? (byte :: tail) = some (nameKind (byte :: tail)) := by
  obtain ⟨-, -, hdigit⟩ := name_byte byte (nameByte_of_start hname)
  simp [kindOf?, hdigit hname, hname]

theorem nameKind_of_identifier {first : UInt8} {rest : List UInt8} (hfirst : isNameStart first)
    (hrest : ∀ byte ∈ rest, isNameByte byte)
    (hplain : ∀ entry ∈ Keyword.spellings, first :: rest ≠ spell entry.1) :
    nameKind (first :: rest) = .identifier := by
  have hspells := nameKind_spells hfirst hrest
  unfold nameKind at hspells ⊢
  split
  next keyword hkeyword =>
    rw [hkeyword] at hspells
    generalize first :: rest = bytes at hspells hplain
    cases hspells with
    | keyword hmem => exact absurd rfl (hplain _ hmem)
  next => rfl

/-- Bytes spell tokens of one kind only. -/
theorem Spells.kindOf? {kind : Kind} {bytes : List UInt8} (h : Spells kind bytes) :
    kindOf? bytes = some kind := by
  cases h with
  | punct punct => cases punct <;> rfl
  | number hnumber hvalue =>
      obtain ⟨byte, tail, rfl, hdigit⟩ := hnumber.cons
      simp [Source.kindOf?, hdigit, numberKind, hvalue]
  | @string inside hinside =>
      have hdigit : isDigit (ascii '"') = false := rfl
      have hname : isNameStart (ascii '"') = false := rfl
      simp [Source.kindOf?, hdigit, hname]
  | @keyword word keyword hmem =>
      obtain ⟨hlossy, hlookup, hhead, -⟩ := keyword_plain _ hmem
      have hkind : nameKind (spell word) = .keyword keyword := by
        simp only [nameKind, hlossy, hlookup]
      revert hhead hkind
      cases spell word with
      | nil => intro hhead; cases hhead
      | cons byte tail =>
          intro hhead hkind
          rw [kindOf?_name hhead, hkind]
  | identifier hfirst hrest hplain =>
      rw [kindOf?_name hfirst, nameKind_of_identifier hfirst hrest hplain]

theorem Spells.kind_unique {kind kind' : Kind} {bytes : List UInt8} (h : Spells kind bytes)
    (h' : Spells kind' bytes) : kind = kind' :=
  Option.some.inj (h.kindOf?.symm.trans h'.kindOf?)

/-! ## Blanks -/

/-- A blank belongs to no number and no name, starts no token and is part of no character of several
bytes. -/
theorem blank_byte : ∀ byte, isBlank byte →
    isDigit byte = false ∧ isNameByte byte = false ∧ isContinuation byte = false ∧ byte < 0x80
      ∧ byte ≠ ascii '.' ∧ byte ≠ ascii '"' ∧ byte ≠ ascii '/' ∧ byte ≠ ascii '*' :=
  forall_byte (by decide +kernel)

theorem IsNumber.not_blank {bytes : List UInt8} (h : IsNumber bytes) :
    ∀ byte ∈ bytes, isBlank byte = false := by
  intro byte hbyte
  by_contra hblank
  obtain ⟨hdigit, -, -, -, hpoint, -⟩ := blank_byte byte (by simpa using hblank)
  have hno : isDigit byte ≠ true := by simp [hdigit]
  cases h with
  | whole _ hdigits => exact hno (hdigits byte hbyte)
  | decimal _ hdigits _ hfraction =>
      simp only [List.mem_append, List.mem_cons] at hbyte
      rcases hbyte with hbyte | hbyte | hbyte
      · exact hno (hdigits byte hbyte)
      · exact hpoint hbyte
      · exact hno (hfraction byte hbyte)

/-- Operators and delimiters are spelled in ASCII and without blanks. -/
theorem punct_byte (punct : Punct) :
    ∀ byte ∈ spell punct.spelling, isBlank byte = false ∧ byte < 0x80 := by
  cases punct <;> decide +kernel

/-- Only a string holds a blank. -/
theorem Spells.quoted_of_blank {kind : Kind} {bytes : List UInt8} (h : Spells kind bytes)
    {blank : UInt8} (hmem : blank ∈ bytes) (hblank : isBlank blank) :
    ∃ inside, ascii '"' ∉ inside ∧ bytes = ascii '"' :: (inside ++ [ascii '"']) := by
  obtain ⟨-, hname, -⟩ := blank_byte blank hblank
  cases bytes with
  | nil => cases hmem
  | cons byte tail =>
      rcases h.start with
        ⟨punct, hpunct⟩ | ⟨-, hnumber⟩ | ⟨rfl, inside, hinside, rfl⟩ | ⟨hfirst, hrest⟩
      · rw [← hpunct] at hmem
        rw [(punct_byte punct blank hmem).1] at hblank
        cases hblank
      · rw [hnumber.not_blank blank hmem] at hblank
        cases hblank
      · exact ⟨inside, hinside, rfl⟩
      · have hall : isNameByte blank := by
          rcases List.mem_cons.mp hmem with rfl | hlater
          · exact nameByte_of_start hfirst
          · exact hrest blank hlater
        rw [hname] at hall
        cases hall

/-- A token does not start with a blank. -/
theorem Spells.not_blank {kind : Kind} {byte : UInt8} {tail : List UInt8}
    (h : Spells kind (byte :: tail)) : isBlank byte = false := by
  by_contra hblank
  have hblank : isBlank byte = true := by simpa using hblank
  obtain ⟨inside, -, hquoted⟩ := h.quoted_of_blank List.mem_cons_self hblank
  obtain ⟨-, -, -, -, -, hquote, -⟩ := blank_byte byte hblank
  exact hquote (List.cons.inj hquoted).1

/-! ## What the front of a source tells -/

/-- The source starts with a blank. -/
def StartsBlank (source : List UInt8) : Prop :=
  ∃ byte ∈ source.head?, isBlank byte

/-- The source starts with a comment. -/
def StartsComment (source : List UInt8) : Prop :=
  ∃ next, (next = ascii '/' ∨ next = ascii '*') ∧ [ascii '/', next] <+: source

/-- The source starts with a token. -/
def StartsToken (source : List UInt8) : Prop :=
  ∃ kind bytes, Spells kind bytes ∧ bytes <+: source

/-- What the front of a source says about its first piece. -/
def Piece.Starts (source : List UInt8) : Piece → Prop
  | .blank _ => StartsBlank source
  | .comment _ => ¬ StartsBlank source ∧ StartsComment source
  | .lexeme _ _ => ¬ StartsBlank source ∧ ¬ StartsComment source ∧ StartsToken source
  | .fault _ _ => ¬ StartsBlank source ∧ ¬ StartsComment source ∧ ¬ StartsToken source

theorem not_startsBlank {byte : UInt8} (h : isBlank byte = false) (rest : List UInt8) :
    ¬ StartsBlank (byte :: rest) := by
  simp [StartsBlank, h]

/-- What starts with a slash is the slash itself or a comment. -/
theorem Spells.of_slash {kind : Kind} {tail : List UInt8} (h : Spells kind (ascii '/' :: tail)) :
    kind = .punct .slash ∧ tail = [] := by
  obtain ⟨punct, hpunct⟩ := h.of_other (by decide) (by decide) (by decide)
  rcases punct_first hpunct with ⟨rfl, -⟩ | ⟨_, _, -, hdouble⟩
  · exact ⟨h.kind_unique (.punct .slash), rfl⟩
  · cases hdouble

theorem CommentAt.starts {bytes after : List UInt8} (h : CommentAt bytes after) :
    Piece.Starts (bytes ++ after) (.comment bytes) := by
  cases h with
  | line => exact ⟨not_startsBlank rfl _, _, .inl rfl, by simp⟩
  | closed => exact ⟨not_startsBlank rfl _, _, .inr rfl, by simp⟩
  | unclosed => exact ⟨not_startsBlank rfl _, _, .inr rfl, by simp⟩

theorem TokenAt.starts {kind : Kind} {bytes after : List UInt8} (h : TokenAt kind bytes after) :
    Piece.Starts (bytes ++ after) (.lexeme kind bytes) := by
  have htoken : StartsToken (bytes ++ after) := ⟨kind, bytes, h.spells, List.prefix_append _ _⟩
  cases bytes with
  | nil => exact absurd rfl h.spells.ne_nil
  | cons byte tail =>
      refine ⟨not_startsBlank h.spells.not_blank _, ?_, htoken⟩
      rintro ⟨next, hnext, hcomment⟩
      obtain ⟨rfl, hbehind⟩ := List.cons_prefix_cons.mp hcomment
      obtain ⟨hkind, rfl⟩ := h.spells.of_slash
      obtain ⟨more, rfl⟩ := hbehind
      obtain ⟨hline, hblock⟩ := h.slash hkind next rfl
      exact hnext.elim hline hblock

/-- Where no token starts, no comment does. -/
theorem starts_nothing {byte : UInt8} (hnone : ∀ kind tail, ¬ Spells kind (byte :: tail))
    (rest : List UInt8) : ¬ StartsComment (byte :: rest) ∧ ¬ StartsToken (byte :: rest) := by
  constructor
  · rintro ⟨next, -, hcomment⟩
    obtain ⟨rfl, -⟩ := List.cons_prefix_cons.mp hcomment
    exact hnone _ _ (.punct .slash)
  · rintro ⟨kind, bytes, hspells, hfront⟩
    cases bytes with
    | nil => exact hspells.ne_nil rfl
    | cons first tail =>
        obtain ⟨rfl, -⟩ := List.cons_prefix_cons.mp hfront
        exact hnone kind tail hspells

theorem FaultAt.starts {cause : LexCause} {bytes after : List UInt8}
    (h : FaultAt cause bytes after) : Piece.Starts (bytes ++ after) (.fault cause bytes) := by
  cases h with
  | ascii hblank hnone => exact ⟨not_startsBlank hblank _, starts_nothing hnone _⟩
  | @wide byte more after hnone hwide =>
      refine ⟨not_startsBlank ?_ _, starts_nothing hnone _⟩
      by_contra hblank
      obtain ⟨-, -, -, hascii, -⟩ := blank_byte byte (by simpa using hblank)
      exact UInt8.not_lt.mpr hwide hascii
  | @unterminated inside hinside =>
      refine ⟨not_startsBlank rfl _, ?_, ?_⟩
      · rintro ⟨next, -, hcomment⟩
        exact absurd (List.cons_prefix_cons.mp hcomment).1 (by decide)
      · rintro ⟨kind, bytes, hspells, hfront⟩
        cases bytes with
        | nil => exact hspells.ne_nil rfl
        | cons first tail =>
            rw [List.append_nil] at hfront
            obtain ⟨rfl, htail⟩ := List.cons_prefix_cons.mp hfront
            obtain ⟨closed, -, rfl⟩ := hspells.of_quote
            exact hinside (htail.subset (by simp))

theorem Piece.At.starts {piece : Piece} {after : List UInt8} (h : piece.At after) :
    piece.Starts (piece.bytes ++ after) := by
  cases piece with
  | blank byte => exact ⟨byte, rfl, h⟩
  | comment bytes => exact CommentAt.starts h
  | lexeme kind bytes => exact TokenAt.starts h
  | fault cause bytes => exact FaultAt.starts h

/-! ## How far a piece goes -/

/-- A stretch of bytes with a property ends where the property does. -/
theorem stretch_unique {p : UInt8 → Bool} {bytes bytes' after after' : List UInt8}
    (hbytes : ∀ byte ∈ bytes, p byte) (hafter : ∀ next ∈ after.head?, p next = false)
    (hbytes' : ∀ byte ∈ bytes', p byte) (hafter' : ∀ next ∈ after'.head?, p next = false)
    (h : bytes ++ after = bytes' ++ after') : bytes = bytes' := by
  have htake : ∀ {list rest : List UInt8}, (∀ byte ∈ list, p byte) →
      (∀ next ∈ rest.head?, p next = false) → (list ++ rest).takeWhile p = list := by
    intro list rest hlist hrest
    rw [List.takeWhile_append_of_pos hlist]
    cases rest with
    | nil => simp
    | cons next rest => simp [hrest next rfl]
  rw [← htake hbytes hafter, h, htake hbytes' hafter']

/-- No comment goes beyond a `*/`. -/
theorem length_le_of_closing {text text' after : List UInt8}
    (hunclosed : Unclosed (text ++ [ascii '*']))
    (h : text' ++ [ascii '*', ascii '/'] <+: text ++ [ascii '*', ascii '/'] ++ after) :
    text.length ≤ text'.length := by
  by_contra hlt
  have hfront : text' ++ [ascii '*', ascii '/'] <+: text ++ [ascii '*'] := by
    refine List.prefix_of_prefix_length_le h ?_ ?_
    · exact ⟨ascii '/' :: after, by simp⟩
    · simp only [List.length_append, List.length_cons, List.length_nil]
      omega
  exact hunclosed ((List.infix_append text' _ []).trans (by simpa using hfront.isInfix))

theorem closing_unique {text text' after after' : List UInt8}
    (htext : Unclosed (text ++ [ascii '*'])) (htext' : Unclosed (text' ++ [ascii '*']))
    (h : text ++ [ascii '*', ascii '/'] ++ after = text' ++ [ascii '*', ascii '/'] ++ after') :
    text = text' := by
  have hle : text.length ≤ text'.length := length_le_of_closing htext ⟨after', h.symm⟩
  have hge : text'.length ≤ text.length := length_le_of_closing htext' ⟨after, h⟩
  rw [List.append_assoc, List.append_assoc] at h
  exact (List.append_inj h (Nat.le_antisymm hle hge)).1

theorem CommentAt.unique {bytes bytes' after after' : List UInt8} (h : CommentAt bytes after)
    (h' : CommentAt bytes' after') (heq : bytes ++ after = bytes' ++ after') : bytes = bytes' := by
  have hsecond : ascii '/' ≠ ascii '*' := by decide
  cases h with
  | @line text _ htext hnext =>
      cases h' with
      | @line text' _ htext' hnext' =>
          have hrest : text ++ after = text' ++ after' := by simpa using heq
          have hinside : ∀ {list : List UInt8}, ascii '\n' ∉ list →
              ∀ byte ∈ list, decide (byte ≠ ascii '\n') = true := by
            intro list hlist byte hbyte
            exact decide_eq_true fun hnewline => hlist (hnewline ▸ hbyte)
          have hbehind : ∀ {rest : List UInt8}, (∀ next ∈ rest.head?, next = ascii '\n') →
              ∀ next ∈ rest.head?, decide (next ≠ ascii '\n') = false := by
            intro rest hrest next hnext
            simp [hrest next hnext]
          obtain rfl : text = text' := stretch_unique (hinside htext) (hbehind hnext)
            (hinside htext') (hbehind hnext') hrest
          rfl
      | closed | unclosed => simp [hsecond] at heq
  | @closed text _ htext =>
      cases h' with
      | line => simp [hsecond.symm] at heq
      | @closed text' _ htext' =>
          obtain rfl : text = text' := closing_unique htext htext' (by simpa using heq)
          rfl
      | @unclosed text' htext' =>
          have hwhole : text' = text ++ [ascii '*', ascii '/'] ++ after := by simpa using heq.symm
          exact absurd (hwhole ▸ List.infix_append _ _ _) htext'
  | @unclosed text htext =>
      cases h' with
      | line => simp [hsecond.symm] at heq
      | @closed text' _ htext' =>
          have hwhole : text = text' ++ [ascii '*', ascii '/'] ++ after' := by simpa using heq
          exact absurd (hwhole ▸ List.infix_append _ _ _) htext
      | unclosed => simpa using heq

theorem TokenAt.unique {kind kind' : Kind} {bytes bytes' after after' : List UInt8}
    (h : TokenAt kind bytes after) (h' : TokenAt kind' bytes' after')
    (heq : bytes ++ after = bytes' ++ after') : kind = kind' ∧ bytes = bytes' := by
  have hle := h'.longest kind bytes h.spells (heq ▸ List.prefix_append bytes after)
  have hge := h.longest kind' bytes' h'.spells (heq ▸ List.prefix_append bytes' after')
  obtain rfl : bytes = bytes' := (List.append_inj heq (Nat.le_antisymm hle hge)).1
  exact ⟨h.spells.kind_unique h'.spells, rfl⟩

theorem FaultAt.unique {cause cause' : LexCause} {bytes bytes' after after' : List UInt8}
    (h : FaultAt cause bytes after) (h' : FaultAt cause' bytes' after')
    (heq : bytes ++ after = bytes' ++ after') : cause = cause' ∧ bytes = bytes' := by
  -- A quote does start a token, and it is an ASCII byte.
  have hquote : Spells (.string (Utf8.lossy [])) [Source.ascii '"', Source.ascii '"'] :=
    .string (by simp)
  cases h with
  | ascii _ hnone hascii =>
      cases h' with
      | ascii =>
          obtain ⟨rfl, -⟩ := List.cons.inj heq
          exact ⟨rfl, rfl⟩
      | wide _ hwide =>
          obtain ⟨rfl, -⟩ := List.cons.inj heq
          exact absurd hascii (UInt8.not_lt.mpr hwide)
      | unterminated =>
          obtain ⟨rfl, -⟩ := List.cons.inj heq
          exact absurd hquote (hnone _ _)
  | wide _ hwide hmore hnext =>
      cases h' with
      | ascii _ _ hascii =>
          obtain ⟨rfl, -⟩ := List.cons.inj heq
          exact absurd hascii (UInt8.not_lt.mpr hwide)
      | wide _ _ hmore' hnext' =>
          obtain ⟨rfl, hrest⟩ := List.cons.inj heq
          obtain rfl := stretch_unique hmore hnext hmore' hnext' hrest
          exact ⟨rfl, rfl⟩
      | unterminated =>
          obtain ⟨rfl, -⟩ := List.cons.inj heq
          exact absurd hwide (by decide)
  | unterminated =>
      cases h' with
      | ascii _ hnone =>
          obtain ⟨rfl, -⟩ := List.cons.inj heq
          exact absurd hquote (hnone _ _)
      | wide _ hwide =>
          obtain ⟨rfl, -⟩ := List.cons.inj heq
          exact absurd hwide (by decide)
      | unterminated => simpa using heq

/-- No two pieces are allowed at the same place. -/
theorem Piece.At.unique {piece piece' : Piece} {after after' : List UInt8} (h : piece.At after)
    (h' : piece'.At after') (heq : piece.bytes ++ after = piece'.bytes ++ after') :
    piece = piece' := by
  have hstarts := h.starts
  have hstarts' := h'.starts
  rw [heq] at hstarts
  cases piece <;> cases piece' <;> simp only [Piece.Starts] at hstarts hstarts'
  case blank.blank =>
    obtain ⟨rfl, -⟩ := List.cons.inj heq
    rfl
  case comment.comment => exact congrArg _ (CommentAt.unique h h' heq)
  case lexeme.lexeme =>
    obtain ⟨rfl, rfl⟩ := TokenAt.unique h h' heq
    rfl
  case fault.fault =>
    obtain ⟨rfl, rfl⟩ := FaultAt.unique h h' heq
    rfl
  -- Pieces of two sorts have different fronts.
  all_goals grind

theorem Piece.At.ne_nil {piece : Piece} {after : List UInt8} (h : piece.At after) :
    piece.bytes ≠ [] := by
  cases piece with
  | blank => simp [Piece.bytes]
  | lexeme => exact (TokenAt.spells h).ne_nil
  | comment | fault => cases h <;> simp [Piece.bytes]

/-- What the grammar allows in front of a source is what is cut off there. -/
theorem pieces_of_at {piece : Piece} {after : List UInt8} (h : piece.At after) :
    pieces (piece.bytes ++ after) = piece :: pieces after := by
  cases hsource : piece.bytes ++ after with
  | nil => exact absurd (List.append_eq_nil_iff.mp hsource).1 h.ne_nil
  | cons byte rest =>
      have hcut := cutFirst_append byte rest
      have hpiece : (cutFirst byte rest).1 = piece :=
        (cutFirst_at byte rest).unique h (hcut.trans hsource.symm)
      have hafter : (cutFirst byte rest).2 = after := by
        rw [hpiece, ← hsource] at hcut
        exact List.append_cancel_left hcut
      rw [pieces, hpiece, hafter]

theorem pieces_blank {byte : UInt8} (h : isBlank byte) (rest : List UInt8) :
    pieces (byte :: rest) = .blank byte :: pieces rest := by
  have hat : (Piece.blank byte).At rest := h
  exact pieces_of_at hat

/-! ## Tokens with other bytes behind them -/

/-- A string does not go beyond its second quote. -/
theorem not_quoted_beyond {inside inside' more : List UInt8} (hinside' : ascii '"' ∉ inside')
    (hmore : more ≠ []) : inside ++ [ascii '"'] ++ more ≠ inside' ++ [ascii '"'] := by
  intro heq
  have hlength := congrArg List.length heq
  have hpos := List.length_pos_iff.mpr hmore
  simp only [List.length_append, List.length_singleton] at hlength
  have hfront : inside ++ [ascii '"'] <+: inside' := by
    refine List.prefix_of_prefix_length_le ⟨more, heq⟩ (List.prefix_append _ _) ?_
    simp only [List.length_append, List.length_singleton]
    omega
  exact hinside' (hfront.subset (by simp))

/-- A token stays one if what follows it is cut short at a blank or at the end of the source. -/
theorem TokenAt.upTo {kind : Kind} {bytes after common rest : List UInt8}
    (h : TokenAt kind bytes after) (hcommon : common <+: after)
    (hrest : ∀ next ∈ rest.head?, isBlank next) : TokenAt kind bytes (common ++ rest) := by
  refine ⟨h.spells, ?_, ?_⟩
  · intro kind' bytes' hspells' hfront
    rw [← List.append_assoc] at hfront
    by_cases hshort : bytes'.length ≤ (bytes ++ common).length
    · have hinside : bytes' <+: bytes ++ common :=
        List.prefix_of_prefix_length_le hfront (List.prefix_append _ _) hshort
      exact h.longest kind' bytes' hspells'
        (hinside.trans ((List.prefix_append_right_inj bytes).mpr hcommon))
    · -- A longer token holds the blank, so both are strings.
      exfalso
      obtain ⟨more, rfl⟩ : bytes ++ common <+: bytes' :=
        List.prefix_of_prefix_length_le (List.prefix_append _ _) hfront (by omega)
      cases more with
      | nil => simp at hshort
      | cons next more =>
          obtain ⟨_, rfl⟩ := (List.prefix_append_right_inj _).mp hfront
          obtain ⟨inside', hinside', hquoted⟩ :=
            hspells'.quoted_of_blank (by simp) (hrest next rfl)
          cases bytes with
          | nil => exact h.spells.ne_nil rfl
          | cons byte tail =>
              obtain ⟨rfl, htail⟩ := List.cons.inj hquoted
              obtain ⟨inside, -, rfl⟩ := h.spells.of_quote
              exact not_quoted_beyond hinside' (by simp) ((List.append_assoc ..).symm.trans htail)
  · intro hkind next hnext
    cases common with
    | nil =>
        obtain ⟨-, -, -, -, -, -, hslash, hstar⟩ := blank_byte next (hrest next hnext)
        exact ⟨hslash, hstar⟩
    | cons first common =>
        obtain ⟨more, rfl⟩ := hcommon
        exact h.slash hkind next hnext

end ScopeScript.Source
