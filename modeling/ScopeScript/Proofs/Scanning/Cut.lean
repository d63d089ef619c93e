import ScopeScript.Proofs.Scanning.Lexeme

/-!
# What is cut off a source

Every piece of a source is what the grammar says, together with what follows it: a blank, a comment
that ends where comments end, the longest token at its place, or a fault at a byte where nothing
else starts.
-/

namespace ScopeScript.Source

/-- A token, and what follows it: no longer token starts where it starts, and a slash is one only
where no comment starts. -/
structure TokenAt (kind : Kind) (bytes after : List UInt8) : Prop where
  spells : Spells kind bytes
  longest : ∀ kind' bytes', Spells kind' bytes' → bytes' <+: bytes ++ after →
    bytes'.length ≤ bytes.length
  slash : kind = .punct .slash → ∀ next ∈ after.head?, next ≠ ascii '/' ∧ next ≠ ascii '*'

/-- A comment, and what follows it. A line comment goes up to the end of its line, and any other
through the first `*/` or to the end of the source. -/
inductive CommentAt : List UInt8 → List UInt8 → Prop
  | line {text after : List UInt8} : ascii '\n' ∉ text → (∀ next ∈ after.head?, next = ascii '\n') →
      CommentAt (ascii '/' :: ascii '/' :: text) after
  | closed {text after : List UInt8} : ¬ [ascii '*', ascii '/'] <:+: text ++ [ascii '*'] →
      CommentAt (ascii '/' :: ascii '*' :: text ++ [ascii '*', ascii '/']) after
  | unclosed {text : List UInt8} : ¬ [ascii '*', ascii '/'] <:+: text →
      CommentAt (ascii '/' :: ascii '*' :: text) []

/-- A fault, and what follows it. A byte that starts no token takes the continuation bytes after it
along if it is no ASCII byte, and a quote without a second one all that follows. -/
inductive FaultAt : LexCause → List UInt8 → List UInt8 → Prop
  | ascii {byte : UInt8} {after : List UInt8} : isBlank byte = false →
      (∀ kind tail, ¬ Spells kind (byte :: tail)) → byte < 0x80 →
      FaultAt (.unexpected (Utf8.lossy [byte])) [byte] after
  | wide {byte : UInt8} {more after : List UInt8} : (∀ kind tail, ¬ Spells kind (byte :: tail)) →
      0x80 ≤ byte → (∀ b ∈ more, isContinuation b) →
      (∀ next ∈ after.head?, isContinuation next = false) →
      FaultAt (.unexpected (Utf8.lossy (byte :: more))) (byte :: more) after
  | unterminated {inside : List UInt8} : Source.ascii '"' ∉ inside →
      FaultAt .unterminated (Source.ascii '"' :: inside) []

/-- A piece is what the grammar says, with what follows it. -/
def Piece.At (after : List UInt8) : Piece → Prop
  | .blank byte => isBlank byte
  | .comment bytes => CommentAt bytes after
  | .lexeme kind bytes => TokenAt kind bytes after
  | .fault cause bytes => FaultAt cause bytes after

/-! ## Comments -/

/-- Bytes without a `*/`. -/
def Unclosed (bytes : List UInt8) : Prop :=
  ¬ [ascii '*', ascii '/'] <:+: bytes

theorem unclosed_star {bytes : List UInt8} :
    Unclosed (ascii '*' :: bytes) ↔ bytes.head? ≠ some (ascii '/') ∧ Unclosed bytes := by
  unfold Unclosed
  rw [List.infix_cons_iff, not_or]
  cases bytes with
  | nil => simp
  | cons byte rest => simp [List.cons_prefix_cons, eq_comm]

theorem unclosed_append {run bytes : List UInt8} (h : ∀ byte ∈ run, byte ≠ ascii '*') :
    Unclosed (run ++ bytes) ↔ Unclosed bytes := by
  induction run with
  | nil => rfl
  | cons byte run ih =>
      obtain ⟨hbyte, hrun⟩ := List.forall_mem_cons.mp h
      rw [← ih hrun]
      unfold Unclosed
      rw [List.cons_append, List.infix_cons_iff, List.cons_prefix_cons]
      simp [Ne.symm hbyte]

theorem ne_of_mem_takeWhile {stop byte : UInt8} {bytes : List UInt8}
    (h : byte ∈ bytes.takeWhile (· ≠ stop)) : byte ≠ stop := by
  simpa using List.mem_takeWhile_imp h

/-- Where a search for a byte stops, the byte is. -/
theorem eq_of_dropWhile_ne {stop found : UInt8} {bytes rest : List UInt8}
    (h : bytes.dropWhile (· ≠ stop) = found :: rest) :
    found = stop ∧ bytes = bytes.takeWhile (· ≠ stop) ++ stop :: rest := by
  have hhead := List.head?_dropWhile_not (· ≠ stop) bytes
  rw [h] at hhead
  obtain rfl : found = stop := by simpa using hhead
  refine ⟨rfl, ?_⟩
  rw [← h, List.takeWhile_append_dropWhile]

/-- Bytes are split behind the first `*/`, or else at their end. -/
theorem splitComment_spec (bytes : List UInt8) :
    (∃ text, (splitComment bytes).1 = text ++ [ascii '*', ascii '/']
      ∧ Unclosed (text ++ [ascii '*']))
    ∨ splitComment bytes = (bytes, []) ∧ Unclosed bytes := by
  have hstar : Unclosed [ascii '*'] := unclosed_star.mpr ⟨by simp, by simp [Unclosed]⟩
  fun_induction splitComment bytes with
  | case1 bytes hnone =>
      refine .inr ⟨rfl, ?_⟩
      have hall : ∀ byte ∈ bytes, byte ≠ ascii '*' := by
        simpa using List.dropWhile_eq_nil_iff.mp hnone
      rw [← List.append_nil bytes, unclosed_append hall]
      simp [Unclosed]
  | case2 bytes star hfound =>
      refine .inr ⟨rfl, ?_⟩
      obtain ⟨-, hbytes⟩ := eq_of_dropWhile_ne hfound
      rw [hbytes, unclosed_append fun _ => ne_of_mem_takeWhile]
      exact hstar
  | case3 bytes star run after hfound =>
      obtain ⟨rfl, -⟩ := eq_of_dropWhile_ne hfound
      exact .inl ⟨run, rfl, (unclosed_append fun _ => ne_of_mem_takeWhile).mpr hstar⟩
  | case4 bytes star run next after hfound hnext inside outside hsplit _ ih =>
      obtain ⟨rfl, hbytes⟩ := eq_of_dropWhile_ne hfound
      have hrun : ∀ byte ∈ run, byte ≠ ascii '*' := fun _ => ne_of_mem_takeWhile
      have hparts := splitComment_append (next :: after)
      rw [hsplit] at ih hparts
      rcases ih with ⟨text, htext, hunclosed⟩ | ⟨hall, hunclosed⟩
      · obtain rfl : inside = text ++ [ascii '*', ascii '/'] := htext
        refine .inl ⟨run ++ ascii '*' :: text, ?_, ?_⟩
        · simp only [List.append_assoc, List.cons_append]
        rw [List.append_assoc, unclosed_append hrun, List.cons_append]
        refine unclosed_star.mpr ⟨?_, hunclosed⟩
        -- The bytes behind the star start with the next one, which is no slash.
        cases text with
        | nil => decide
        | cons first text =>
            obtain ⟨rfl, -⟩ := List.cons.inj hparts
            simpa using hnext
      · obtain ⟨rfl, rfl⟩ := Prod.mk.inj hall
        refine .inr ⟨Prod.ext hbytes.symm rfl, ?_⟩
        rw [hbytes, unclosed_append hrun]
        exact unclosed_star.mpr ⟨by simpa using hnext, hunclosed⟩

/-! ## Tokens -/

/-- A candidate for a token starts with the byte in front. -/
theorem TokenAt.of_first {kind : Kind} {byte : UInt8} {bytes after rest : List UInt8}
    (hall : bytes ++ after = byte :: rest) (hspells : Spells kind bytes)
    (hlongest : ∀ kind' tail, Spells kind' (byte :: tail) → tail <+: rest →
      tail.length < bytes.length)
    (hslash : kind = .punct .slash → ∀ next ∈ after.head?, next ≠ ascii '/' ∧ next ≠ ascii '*') :
    TokenAt kind bytes after := by
  refine ⟨hspells, ?_, hslash⟩
  intro kind' bytes' hspells' hfront
  rw [hall] at hfront
  cases bytes' with
  | nil => exact absurd rfl hspells'.ne_nil
  | cons first tail =>
      obtain ⟨rfl, htail⟩ := List.cons_prefix_cons.mp hfront
      exact hlongest kind' tail hspells' htail

theorem splitNumber_at {byte : UInt8} (hdigit : isDigit byte) (rest : List UInt8) :
    TokenAt (numberKind (splitNumber (byte :: rest)).1) (splitNumber (byte :: rest)).1
      (splitNumber (byte :: rest)).2 := by
  have hnumber := splitNumber_isNumber hdigit rest
  refine .of_first (splitNumber_append (byte :: rest)) ?_ ?_ nofun
  · obtain ⟨value, hvalue⟩ := hnumber.parse?
    rw [numberKind, hvalue]
    exact .number hnumber hvalue
  · intro kind' tail hspells htail
    exact length_le_splitNumber (List.cons_prefix_cons.mpr ⟨rfl, htail⟩) (hspells.of_digit hdigit)

theorem name_at {byte : UInt8} (hname : isNameStart byte) (rest : List UInt8) :
    TokenAt (nameKind (byte :: rest.takeWhile isNameByte)) (byte :: rest.takeWhile isNameByte)
      (rest.dropWhile isNameByte) := by
  have hall : byte :: rest.takeWhile isNameByte ++ rest.dropWhile isNameByte = byte :: rest := by
    simp
  refine .of_first hall (nameKind_spells hname fun _ => List.mem_takeWhile_imp) ?_ ?_
  · intro kind' tail hspells htail
    exact Nat.lt_succ_of_le (length_le_takeWhile htail (hspells.of_nameStart hname))
  · intro hkind
    unfold nameKind at hkind
    split at hkind <;> cases hkind

theorem cutString_at (rest : List UInt8) :
    (cutString (ascii '"') rest).1.At (cutString (ascii '"') rest).2 := by
  have hinside : ascii '"' ∉ rest.takeWhile (· ≠ ascii '"') := fun h => ne_of_mem_takeWhile h rfl
  unfold cutString
  dsimp only
  split
  next => exact .unterminated hinside
  next closing after hfound =>
    obtain ⟨rfl, hrest⟩ := eq_of_dropWhile_ne hfound
    have hall : ascii '"' :: rest.takeWhile (· ≠ ascii '"') ++ [ascii '"'] ++ after =
        ascii '"' :: rest := by
      simpa using hrest.symm
    refine .of_first hall (.string hinside) ?_ (by simp)
    intro kind' tail hspells htail
    obtain ⟨inside', hinside', rfl⟩ := hspells.of_quote
    have hle : inside'.length ≤ (rest.takeWhile (· ≠ ascii '"')).length := by
      refine length_le_takeWhile ((List.prefix_append _ _).trans htail) ?_
      intro b hb
      simpa using fun heq : b = ascii '"' => hinside' (heq ▸ hb)
    simp only [List.cons_append, List.length_cons, List.length_append, List.length_nil]
    omega

/-- An operator or delimiter that starts with a byte is one that is cut off there. -/
theorem punct_first {punct : Punct} {byte : UInt8} {tail : List UInt8}
    (h : spell punct.spelling = byte :: tail) :
    tail = [] ∧ (byte = ascii '/' ∨ single? byte = some punct
      ∨ ∃ extending long, double? byte = some (punct, extending, long))
    ∨ ∃ extending short, tail = [extending] ∧ double? byte = some (short, extending, punct) := by
  rcases punct_cut punct with ⟨_, hspell, hcut⟩ | ⟨_, extending, short, hspell, hcut⟩
  · obtain ⟨rfl, rfl⟩ := List.cons.inj (h.symm.trans hspell)
    exact .inl ⟨rfl, hcut⟩
  · obtain ⟨rfl, rfl⟩ := List.cons.inj (h.symm.trans hspell)
    exact .inr ⟨extending, short, rfl, hcut⟩

theorem slash_at {after : List UInt8}
    (hafter : ∀ next ∈ after.head?, next ≠ ascii '/' ∧ next ≠ ascii '*') :
    TokenAt (.punct .slash) [ascii '/'] after := by
  refine .of_first rfl (.punct .slash) ?_ fun _ => hafter
  intro kind' tail hspells _
  obtain ⟨punct, hpunct⟩ := hspells.of_other (by decide) (by decide) (by decide)
  rcases punct_first hpunct with ⟨rfl, -⟩ | ⟨_, _, -, hdouble⟩
  · simp
  · cases hdouble

theorem single_at {byte : UInt8} {punct : Punct} (h : single? byte = some punct)
    (rest : List UInt8) : TokenAt (.punct punct) [byte] rest := by
  obtain ⟨hspell, hdigit, hname, hquote, hslash, hdouble⟩ := single?_spells byte punct h
  refine .of_first rfl (hspell ▸ .punct punct) ?_ ?_
  · intro kind' tail hspells _
    obtain ⟨other, hother⟩ := hspells.of_other hdigit hname hquote
    rcases punct_first hother with ⟨rfl, -⟩ | ⟨_, _, -, hcut⟩
    · simp
    · rw [hdouble] at hcut
      cases hcut
  · rintro hkind
    obtain rfl : punct = .slash := by simpa using hkind
    exact absurd (List.cons.inj hspell).1.symm hslash

theorem cutDouble_at {byte extending : UInt8} {short long : Punct}
    (h : double? byte = some (short, extending, long)) (rest : List UInt8) :
    (cutDouble short extending long byte rest).1.At
      (cutDouble short extending long byte rest).2 := by
  obtain ⟨hshort, hlong, hdigit, hname, hquote, hslash⟩ :
      spell short.spelling = [byte] ∧ spell long.spelling = [byte, extending]
        ∧ isDigit byte = false ∧ isNameStart byte = false ∧ byte ≠ ascii '"'
        ∧ byte ≠ ascii '/' :=
    double?_spells byte _ h
  have hcandidate : ∀ kind' tail, Spells kind' (byte :: tail) → tail = [] ∨ tail = [extending] := by
    intro kind' tail hspells
    obtain ⟨other, hother⟩ := hspells.of_other hdigit hname hquote
    rcases punct_first hother with ⟨rfl, -⟩ | ⟨_, _, rfl, hcut⟩
    · exact .inl rfl
    · rw [h] at hcut
      cases hcut
      exact .inr rfl
  have hplain : ∀ after, Kind.punct short = .punct .slash → ∀ next ∈ List.head? after,
      next ≠ ascii '/' ∧ next ≠ ascii '*' := by
    intro _ hkind
    obtain rfl : short = .slash := by simpa using hkind
    exact absurd (List.cons.inj hshort).1.symm hslash
  unfold cutDouble
  split
  next =>
    refine .of_first rfl (hshort ▸ .punct short) ?_ (hplain [])
    intro kind' tail hspells htail
    simp [List.prefix_nil.mp htail]
  next next after =>
    split
    next hnext =>
      subst hnext
      refine .of_first rfl (hlong ▸ .punct long) ?_ ?_
      · intro kind' tail hspells _
        rcases hcandidate kind' tail hspells with rfl | rfl <;> simp
      · intro hkind
        obtain rfl : long = .slash := by simpa using hkind
        have hlength : [ascii '/'] = [byte, next] := hlong
        simp at hlength
    next hnext =>
      refine .of_first rfl (hshort ▸ .punct short) ?_ (hplain (next :: after))
      intro kind' tail hspells htail
      rcases hcandidate kind' tail hspells with rfl | rfl
      · simp
      · exact absurd (List.cons_prefix_cons.mp htail).1.symm hnext

/-- What starts with neither a blank, a quote, a digit, a letter nor an operator is no token. -/
theorem not_spells_of_none {byte : UInt8} (hslash : byte ≠ ascii '/') (hquote : byte ≠ ascii '"')
    (hdigit : isDigit byte = false) (hname : isNameStart byte = false)
    (hsingle : single? byte = none) (hdouble : double? byte = none) (kind : Kind)
    (tail : List UInt8) :
    ¬ Spells kind (byte :: tail) := by
  intro hspells
  obtain ⟨punct, hpunct⟩ := hspells.of_other hdigit hname hquote
  rcases punct_first hpunct with ⟨-, rfl | hcut | ⟨_, _, hcut⟩⟩ | ⟨_, _, -, hcut⟩
  · exact hslash rfl
  · rw [hsingle] at hcut
    cases hcut
  · rw [hdouble] at hcut
    cases hcut
  · rw [hdouble] at hcut
    cases hcut

theorem cutUnexpected_at {byte : UInt8} (hblank : isBlank byte = false)
    (hnone : ∀ kind tail, ¬ Spells kind (byte :: tail)) (rest : List UInt8) :
    (cutUnexpected byte rest).1.At (cutUnexpected byte rest).2 := by
  unfold cutUnexpected
  split
  next hascii => exact .ascii hblank hnone hascii
  next hwide =>
    refine .wide hnone (UInt8.not_lt.mp hwide) (fun _ => List.mem_takeWhile_imp) ?_
    intro next hnext
    have hhead := List.head?_dropWhile_not isContinuation rest
    rw [Option.mem_def.mp hnext] at hhead
    simpa using hhead

theorem cutSlash_at (rest : List UInt8) :
    (cutSlash (ascii '/') rest).1.At (cutSlash (ascii '/') rest).2 := by
  unfold cutSlash
  split
  next => exact slash_at (by simp)
  next next after =>
    split
    next hnext =>
      subst hnext
      refine .line (fun h => ne_of_mem_takeWhile h rfl) ?_
      intro found hfound
      have hhead := List.head?_dropWhile_not (· ≠ ascii '\n') after
      rw [Option.mem_def.mp hfound] at hhead
      simpa using hhead
    next hline =>
      split
      next hnext =>
        subst hnext
        rcases splitComment_spec after with ⟨text, htext, hunclosed⟩ | ⟨hall, hunclosed⟩
        · dsimp only
          rw [htext]
          exact .closed hunclosed
        · dsimp only
          rw [hall]
          exact .unclosed hunclosed
      next hblock =>
        refine slash_at ?_
        intro found hfound
        obtain rfl : next = found := by simpa using hfound
        exact ⟨hline, hblock⟩

/-- The first piece of a source is what the grammar says. -/
theorem cutFirst_at (byte : UInt8) (rest : List UInt8) :
    (cutFirst byte rest).1.At (cutFirst byte rest).2 := by
  unfold cutFirst
  split
  next hblank => exact hblank
  next hblank =>
    split
    next hslash =>
      subst hslash
      exact cutSlash_at rest
    next hslash =>
      split
      next hquote =>
        subst hquote
        exact cutString_at rest
      next hquote =>
        split
        next hdigit => exact splitNumber_at hdigit rest
        next hdigit =>
          split
          next hname => exact name_at hname rest
          next hname =>
            split
            next hsingle => exact single_at hsingle rest
            next hsingle =>
              split
              next hdouble => exact cutDouble_at hdouble rest
              next hdouble =>
                exact cutUnexpected_at (by simpa using hblank)
                  (not_spells_of_none hslash hquote (by simpa using hdigit) (by simpa using hname)
                    hsingle hdouble) rest

end ScopeScript.Source
