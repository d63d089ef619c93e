import ScopeScript.Proofs.Parsing.Acceptance
import ScopeScript.Proofs.Scanning.Spans
import ScopeScript.Proofs.Scoping.Numbering

/-!
# The spelling of tokens that were scanned

A token need not be spelled as its kind says, but one that was scanned from a source is. So in a
program that was read from a source, whatever is rejected in it, nothing is named `this` or `super`,
and every node has a number of its own that no earlier source has used.
-/

namespace ScopeScript

/-- A kind fits a text, as far as names, `this` and `super` go. -/
def Kind.Fits (kind : Kind) (text : String) : Prop :=
  ∀ line, Token.Spelled ⟨kind, text, line⟩

theorem Keyword.ofSpelling?_eq_some {word : String} {keyword : Keyword}
    (h : Keyword.ofSpelling? word = some keyword) : (word, keyword) ∈ Keyword.spellings := by
  obtain ⟨before, after, hsplit, -⟩ := List.lookup_eq_some_iff.mp h
  rw [hsplit]
  simp

namespace Source

theorem nameKind_fits (bytes : List UInt8) : (nameKind bytes).Fits (Utf8.lossy bytes) := by
  intro line
  unfold nameKind
  split
  next keyword h =>
    have hmem := Keyword.ofSpelling?_eq_some h
    refine ⟨?_, ?_, ?_⟩
    · intro htag
      cases htag
    · intro htag
      obtain rfl : keyword = .thisKw := by simpa [Token.tag, Kind.tag] using htag
      simpa [Keyword.spellings] using hmem
    · intro htag
      obtain rfl : keyword = .superKw := by simpa [Token.tag, Kind.tag] using htag
      simpa [Keyword.spellings] using hmem
  next h =>
    refine ⟨fun _ => ⟨?_, ?_⟩, ?_, ?_⟩
    · intro hthis
      simp only at hthis
      rw [hthis] at h
      exact absurd h (by decide)
    · intro hsuper
      simp only at hsuper
      rw [hsuper] at h
      exact absurd h (by decide)
    · intro htag
      cases htag
    · intro htag
      cases htag

/-- Only names and reserved words are bound to a spelling. -/
theorem fits_of_tag {kind : Kind} (hname : kind.tag ≠ .identifier)
    (hkeyword : ∀ keyword, kind.tag ≠ .keyword keyword) (text : String) : kind.Fits text := by
  intro line
  refine ⟨?_, ?_, ?_⟩
  · intro htag
    exact absurd htag hname
  · intro htag
    exact absurd htag (hkeyword _)
  · intro htag
    exact absurd htag (hkeyword _)

theorem punct_fits (punct : Punct) (text : String) : (Kind.punct punct).Fits text :=
  fits_of_tag (by simp [Kind.tag]) (by simp [Kind.tag]) text

/-- A piece that is the text of a token has a kind that fits the text. -/
def Piece.Fits : Piece → Prop
  | .lexeme kind bytes => kind.Fits (Utf8.lossy bytes)
  | _ => True

theorem cutSlash_fits (slash : UInt8) (rest : List UInt8) : (cutSlash slash rest).1.Fits := by
  unfold cutSlash
  split
  next => exact punct_fits _ _
  next =>
    split
    next => trivial
    next =>
      split
      next => trivial
      next => exact punct_fits _ _

theorem cutString_fits (quote : UInt8) (rest : List UInt8) : (cutString quote rest).1.Fits := by
  unfold cutString
  dsimp only
  split
  next => trivial
  next => exact fits_of_tag (by simp [Kind.tag]) (by simp [Kind.tag]) _

theorem cutDouble_fits (short long : Punct) (extending byte : UInt8) (rest : List UInt8) :
    (cutDouble short extending long byte rest).1.Fits := by
  unfold cutDouble
  split
  next => exact punct_fits _ _
  next => split <;> exact punct_fits _ _

theorem cutUnexpected_fits (byte : UInt8) (rest : List UInt8) :
    (cutUnexpected byte rest).1.Fits := by
  unfold cutUnexpected
  split <;> trivial

theorem cutFirst_fits (byte : UInt8) (rest : List UInt8) : (cutFirst byte rest).1.Fits := by
  unfold cutFirst
  split
  next => trivial
  split
  next => exact cutSlash_fits byte rest
  split
  next => exact cutString_fits byte rest
  split
  next => exact fits_of_tag (by simp [numberKind, Kind.tag]) (by simp [numberKind, Kind.tag]) _
  split
  next => exact nameKind_fits _
  split
  next => exact punct_fits _ _
  split
  next => exact cutDouble_fits ..
  next => exact cutUnexpected_fits byte rest

theorem pieces_fit (source : List UInt8) : ∀ piece ∈ pieces source, piece.Fits := by
  fun_induction pieces source with
  | case1 => simp
  | case2 byte rest ih =>
      intro piece hpiece
      rcases List.mem_cons.mp hpiece with rfl | hpiece
      · exact cutFirst_fits byte rest
      · exact ih piece hpiece

theorem itemsFrom_spelled {list : List Piece} (hlist : ∀ piece ∈ list, piece.Fits) (line : Nat)
    {token : Token} (htoken : .ok token ∈ itemsFrom line list) : token.Spelled := by
  rcases exists_piece htoken with ⟨last, hend⟩ | ⟨piece, hpiece, last, hitem⟩
  · cases hend
    exact fits_of_tag (by simp [Kind.tag]) (by simp [Kind.tag]) "" last
  · have hfits := hlist piece hpiece
    cases piece with
    | blank | comment | fault => cases hitem
    | lexeme kind bytes =>
        cases hitem
        exact hfits last

/-- The tokens of a source are spelled as their kinds say. -/
theorem tokens_spelled (source : List UInt8) : ∀ token ∈ tokens source, token.Spelled := by
  intro token htoken
  obtain ⟨item, hitem, heq⟩ := List.mem_filterMap.mp htoken
  cases item with
  | ok found =>
      obtain rfl : found = token := by simpa [Except.toOption] using heq
      exact itemsFrom_spelled (pieces_fit source) 1 hitem
  | error => simp [Except.toOption] at heq

end Source

/-- Reading a source uses up node numbers, whether the source is accepted or not. -/
theorem parseSource_nextId (nextId : NodeId) (source : String) :
    nextId ≤ (parseSource nextId source).2 := by
  have hle := parseTokens_le nextId (Source.tokens (Utf8.encode source))
  unfold parseSource
  dsimp only
  split
  next h =>
    rw [h] at hle
    exact hle
  next h =>
    rw [h] at hle
    exact hle

/-- An accepted source is read into a program whose nodes are numbered apart, with numbers that
were unused, and whose names are plain. -/
theorem parseSource_ok {nextId nextId' : NodeId} {source : String} {program : Program}
    (h : parseSource nextId source = (.ok program, nextId')) :
    Numbered (Stmt.idsAll program) nextId nextId' ∧ Stmt.NamedAll program := by
  unfold parseSource at h
  dsimp only at h
  split at h
  next program' next hparse =>
    split at h
    next =>
      cases h
      have hreads := parseTokens_reads hparse
      refine ⟨hreads.numbered, hreads.named ?_⟩
      intro token htoken
      -- The tokens that are read are those in front of the first end token.
      exact Source.tokens_spelled (Utf8.encode source) token
        ((Cursor.start_infix _ nextId).mem htoken)
    next => cases h
  next => cases h

end ScopeScript
