import Mathlib.Data.List.TakeWhile
import ScopeScript.Syntax.Program

/-!
# What is left to read

A cursor keeps all tokens, but the rules look at the next one only and stop at an end token. So all
that counts of the tokens are those between the cursor and the next end token, and that end token.
Each of the operations that the rules are made of is described by what is left before and after it.
-/

namespace ScopeScript

namespace Cursor

/-- The tokens that are left to read: those in front of the next end token. -/
def rest (c : Cursor) : List Token :=
  (c.tokens.toList.drop c.current).takeWhile (·.tag ≠ .eof)

/-- The end token at which reading stops. -/
def ending (c : Cursor) : Token :=
  ((c.tokens.toList.drop c.current).find? (·.tag = .eof)).getD c.standIn

/-- The cursor one token further on. -/
def next (c : Cursor) : Cursor :=
  { c with current := c.current + 1 }

/-- The cursor so many tokens further on, with the next unused node number there. -/
def past (c : Cursor) (count : Nat) (nextId : NodeId) : Cursor :=
  { c with current := c.current + count, nextId }

variable {c : Cursor} {t : Token} {ts us : List Token}

/-! ## The first cursor -/

theorem start_rest (tokens : List Token) (nextId : NodeId) :
    (start tokens nextId).rest = tokens.takeWhile (·.tag ≠ .eof) :=
  rfl

theorem start_infix (tokens : List Token) (nextId : NodeId) :
    (start tokens nextId).rest <:+: tokens :=
  (List.takeWhile_prefix _).isInfix

theorem start_rest_length (tokens : List Token) (nextId : NodeId) :
    (start tokens nextId).rest.length = tokens.findIdx (·.tag = .eof) := by
  rw [start_rest, List.takeWhile_eq_take_findIdx_not, List.length_take]
  simp [Nat.min_eq_left List.findIdx_le_length]

theorem start_length_le (tokens : List Token) (nextId : NodeId) :
    (start tokens nextId).rest.length ≤ tokens.length := by
  rw [start_rest_length]
  exact List.findIdx_le_length

/-- Tokens in front of an end token are left, whatever follows it. -/
theorem rest_of_drop {ending : Token} {behind : List Token}
    (hdrop : c.tokens.toList.drop c.current = ts ++ ending :: behind)
    (hts : ∀ t ∈ ts, t.tag ≠ .eof) (hending : ending.tag = .eof) :
    c.rest = ts ∧ c.ending = ending := by
  have hplain : ∀ t ∈ ts, decide (t.tag ≠ .eof) = true := by simpa using hts
  have hnone : ts.find? (·.tag = .eof) = none := by simpa using hts
  constructor
  · rw [rest, hdrop, List.takeWhile_append_of_pos hplain]
    simp [hending]
  · rw [Cursor.ending, hdrop, List.find?_append, hnone]
    simp [hending]

theorem start_append (hts : ∀ t ∈ ts, t.tag ≠ .eof) {ending : Token} (hending : ending.tag = .eof)
    (behind : List Token) (nextId : NodeId) :
    (start (ts ++ ending :: behind) nextId).rest = ts ∧
      (start (ts ++ ending :: behind) nextId).ending = ending :=
  rest_of_drop rfl hts hending

/-- Without an end token all tokens are left, and one stands in for it. -/
theorem start_of_noEnd (hts : ∀ t ∈ ts, t.tag ≠ .eof) (nextId : NodeId) :
    (start ts nextId).rest = ts ∧ (start ts nextId).ending = (start ts nextId).standIn := by
  have hplain : ∀ t ∈ ts, decide (t.tag ≠ .eof) = true := by simpa using hts
  have hnone : ts.find? (·.tag = .eof) = none := by simpa using hts
  refine ⟨(start_rest ts nextId).trans (List.takeWhile_eq_self_iff.mpr hplain), ?_⟩
  change (ts.find? _).getD _ = _
  rw [hnone]
  rfl

/-! ## The next token -/

theorem tag_of_mem_rest (h : t ∈ c.rest) : t.tag ≠ .eof := by
  unfold rest at h
  simpa using List.mem_takeWhile_imp h

theorem ending_tag (c : Cursor) : c.ending.tag = .eof := by
  unfold ending
  cases hfound : (c.tokens.toList.drop c.current).find? (·.tag = .eof) with
  | none => rfl
  | some t => simpa using List.find?_some hfound

theorem peek_eq (c : Cursor) : c.peek = c.rest.headD c.ending := by
  have hnext : c.tokens[c.current]? = (c.tokens.toList.drop c.current).head? := by simp
  rw [peek, hnext, rest, ending]
  cases c.tokens.toList.drop c.current with
  | nil => rfl
  | cons t ts => by_cases ht : t.tag = .eof <;> simp [ht]

theorem peek_nil (h : c.rest = []) : c.peek = c.ending := by
  rw [peek_eq, h]
  rfl

theorem peek_cons (h : c.rest = t :: ts) : c.peek = t := by
  rw [peek_eq, h]
  rfl

theorem atEnd_nil (h : c.rest = []) : c.atEnd = true := by
  rw [atEnd, peek_nil h, ending_tag]
  rfl

theorem atEnd_cons (h : c.rest = t :: ts) : c.atEnd = false := by
  rw [atEnd, peek_cons h]
  exact decide_eq_false (tag_of_mem_rest (h ▸ List.mem_cons_self))

theorem atEnd_iff : c.atEnd = true ↔ c.rest = [] := by
  constructor
  · intro hend
    cases hrest : c.rest with
    | nil => rfl
    | cons => simp [atEnd_cons hrest] at hend
  · exact atEnd_nil

/-! ## Further on -/

@[simp] theorem next_tokens (c : Cursor) : c.next.tokens = c.tokens :=
  rfl

@[simp] theorem next_current (c : Cursor) : c.next.current = c.current + 1 :=
  rfl

@[simp] theorem next_errors (c : Cursor) : c.next.errors = c.errors :=
  rfl

@[simp] theorem next_nextId (c : Cursor) : c.next.nextId = c.nextId :=
  rfl

@[simp] theorem past_tokens (c : Cursor) (count : Nat) (i : NodeId) :
    (c.past count i).tokens = c.tokens :=
  rfl

@[simp] theorem past_current (c : Cursor) (count : Nat) (i : NodeId) :
    (c.past count i).current = c.current + count :=
  rfl

@[simp] theorem past_errors (c : Cursor) (count : Nat) (i : NodeId) :
    (c.past count i).errors = c.errors :=
  rfl

@[simp] theorem past_nextId (c : Cursor) (count : Nat) (i : NodeId) :
    (c.past count i).nextId = i :=
  rfl

@[simp] theorem past_past (c : Cursor) (count count' : Nat) (i j : NodeId) :
    (c.past count i).past count' j = c.past (count + count') j := by
  simp [past, Nat.add_assoc]

@[simp] theorem next_past (c : Cursor) (count : Nat) (i : NodeId) :
    c.next.past count i = c.past (count + 1) i := by
  rw [Nat.add_comm]
  exact past_past c 1 count c.nextId i

theorem past_append (c : Cursor) (ts us : List Token) (i j : NodeId) :
    (c.past ts.length i).past us.length j = c.past (ts ++ us).length j := by
  rw [past_past, List.length_append]

theorem past_cons (c : Cursor) (t : Token) (ts : List Token) (i : NodeId) :
    c.next.past ts.length i = c.past (t :: ts).length i :=
  next_past c ts.length i

/-- One token further on, what is left is what was left behind it. -/
theorem next_eq (h : c.rest = t :: ts) : c.next.rest = ts ∧ c.next.ending = c.ending := by
  have ht : t.tag ≠ .eof := tag_of_mem_rest (h ▸ List.mem_cons_self)
  have hbehind : (c.tokens.toList.drop c.current).tail = c.tokens.toList.drop (c.current + 1) := by
    simp
  unfold rest at h
  simp only [rest, ending, next, standIn]
  rw [← hbehind]
  cases hdrop : c.tokens.toList.drop c.current with
  | nil =>
      rw [hdrop] at h
      cases h
  | cons t' ts' =>
      rw [hdrop, List.takeWhile_cons] at h
      split at h
      · obtain ⟨rfl, rfl⟩ := List.cons.inj h
        simp [ht]
      · cases h

theorem next_rest (h : c.rest = t :: ts) : c.next.rest = ts :=
  (next_eq h).1

theorem past_eq {count : Nat} (h : count ≤ c.rest.length) (i : NodeId) :
    (c.past count i).rest = c.rest.drop count ∧ (c.past count i).ending = c.ending := by
  induction count generalizing c with
  | zero => exact ⟨rfl, rfl⟩
  | succ count ih =>
      cases hrest : c.rest with
      | nil => simp [hrest] at h
      | cons t ts =>
          rw [hrest, List.length_cons] at h
          obtain ⟨hts, hending⟩ := next_eq hrest
          obtain ⟨hdrop, hending'⟩ := ih (c := c.next) (by rw [hts]; omega)
          rw [next_past] at hdrop hending'
          exact ⟨by rw [hdrop, hts, List.drop_succ_cons], hending'.trans hending⟩

/-- Behind tokens that were left, the others are left. -/
theorem past_rest (h : c.rest = ts ++ us) (i : NodeId) : (c.past ts.length i).rest = us := by
  rw [(past_eq (by simp [h]) i).1, h, List.drop_left]

theorem advance_nil (h : c.rest = []) : c.advance = c := by
  rw [advance, atEnd_nil h]
  rfl

theorem advance_cons (h : c.rest = t :: ts) : c.advance = c.next := by
  rw [advance, atEnd_cons h]
  rfl

@[simp] theorem note_rest (c : Cursor) (e : SyntaxError) : (c.note e).rest = c.rest :=
  rfl

end Cursor

/-! ## Resuming -/

theorem toBoundary_le (previous : Token) (ts : List Token) :
    toBoundary previous ts ≤ ts.length := by
  induction ts generalizing previous with
  | nil => exact Nat.le_refl _
  | cons t ts ih =>
      unfold toBoundary
      split
      · exact Nat.zero_le _
      · exact Nat.succ_le_succ (ih t)

/-- An end token is a boundary, so what is behind it makes no difference. -/
theorem toBoundary_takeWhile (previous : Token) (ts : List Token) :
    toBoundary previous (ts.takeWhile (·.tag ≠ .eof)) = toBoundary previous ts := by
  induction ts generalizing previous with
  | nil => rfl
  | cons t ts ih =>
      by_cases ht : t.tag = .eof
      · simp [ht, toBoundary]
      · rw [List.takeWhile_cons, if_pos (by simpa using ht), toBoundary, toBoundary, ih]

namespace Cursor

variable {c : Cursor} {t : Token} {ts : List Token}

theorem resume_nil (h : c.rest = []) : c.resume = c := by
  rw [resume, atEnd_nil h]
  rfl

theorem resume_cons (h : c.rest = t :: ts) :
    c.resume = c.past (1 + toBoundary t ts) c.nextId := by
  have hbehind : (c.tokens.toList.drop (c.current + 1)).takeWhile (·.tag ≠ .eof) = ts :=
    next_rest h
  rw [resume, atEnd_cons h, if_neg Bool.false_ne_true, peek_cons h, ← toBoundary_takeWhile, hbehind]
  simp only [past, Nat.add_assoc]

theorem resume_rest_cons (h : c.rest = t :: ts) : c.resume.rest = ts.drop (toBoundary t ts) := by
  have hle := toBoundary_le t ts
  have hcount : 1 + toBoundary t ts ≤ c.rest.length := by
    rw [h, List.length_cons]
    omega
  rw [resume_cons h, (past_eq hcount _).1, h, Nat.add_comm, List.drop_succ_cons]

/-- Reading resumes somewhere among the tokens that were left, and further on if there were any. -/
theorem resume_eq (c : Cursor) :
    ∃ count ≤ c.rest.length, c.resume = c.past count c.nextId ∧ (c.rest ≠ [] → 0 < count) := by
  cases h : c.rest with
  | nil => exact ⟨0, Nat.le_refl 0, resume_nil h, fun hne => (hne rfl).elim⟩
  | cons t ts =>
      refine ⟨_, ?_, resume_cons h, fun _ => by omega⟩
      have hle := toBoundary_le t ts
      rw [List.length_cons]
      omega

@[simp] theorem resume_errors (c : Cursor) : c.resume.errors = c.errors := by
  obtain ⟨count, -, hresume, -⟩ := c.resume_eq
  rw [hresume, past_errors]

@[simp] theorem resume_nextId (c : Cursor) : c.resume.nextId = c.nextId := by
  obtain ⟨count, -, hresume, -⟩ := c.resume_eq
  rw [hresume, past_nextId]

end Cursor

end ScopeScript
