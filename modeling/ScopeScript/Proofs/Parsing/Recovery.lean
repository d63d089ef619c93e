import ScopeScript.Proofs.Parsing.Rule

/-!
# Where reading resumes

When a declaration fails, the token at which it stands is skipped, whatever it is, and reading
resumes at the next statement boundary. If that token opens a statement it is a boundary itself, and
is passed over all the same: then reading resumes too late, and the statement that it opens is never
read. In all other cases reading resumes at the first boundary that there is.
-/

namespace ScopeScript

/-- A place among tokens is a statement boundary for those who start reading at another: the tokens
end there, or a statement is opened there, or a semicolon has been passed just before. -/
inductive Boundary (tokens : List Token) (start : Nat) : Nat → Prop
  | ending : Boundary tokens start tokens.length
  | opening {place : Nat} {token : Token} :
      tokens[place]? = some token → opensStatement token → Boundary tokens start place
  | semicolon {place : Nat} {token : Token} :
      start ≤ place → tokens[place]? = some token → token.tag = .punct .semicolon →
      Boundary tokens start (place + 1)

/-- A place is the first boundary from another place on. -/
structure NextBoundary (tokens : List Token) (start first place : Nat) : Prop where
  le : first ≤ place
  boundary : Boundary tokens start place
  nearest : ∀ earlier, first ≤ earlier → earlier < place → ¬ Boundary tokens start earlier

section Boundaries

variable {tokens : List Token} {start first place : Nat}

theorem NextBoundary.of_boundary (h : Boundary tokens start first) :
    NextBoundary tokens start first first :=
  ⟨Nat.le_refl _, h, fun _ hle hlt => absurd hle (Nat.not_le_of_lt hlt)⟩

theorem NextBoundary.of_succ (hfirst : ¬ Boundary tokens start first)
    (h : NextBoundary tokens start (first + 1) place) : NextBoundary tokens start first place := by
  refine ⟨Nat.le_of_succ_le h.le, h.boundary, fun earlier hle hlt => ?_⟩
  rcases Nat.eq_or_lt_of_le hle with rfl | hlt'
  · exact hfirst
  · exact h.nearest earlier hlt' hlt

theorem drop_eq_cons {token : Token} {rest : List Token} (h : tokens.drop place = token :: rest) :
    tokens[place]? = some token ∧ tokens.drop (place + 1) = rest := by
  rw [← List.head?_drop, ← List.tail_drop, h]
  exact ⟨rfl, rfl⟩

/-- Skipping comes to the first boundary behind the token that was skipped before. -/
theorem toBoundary_next {previous : Token} {rest : List Token} {before : Nat}
    (hplain : ∀ t ∈ rest, t.tag ≠ .eof) (hdrop : tokens.drop before = previous :: rest)
    (hbefore : start ≤ before) :
    NextBoundary tokens start (before + 1) (before + 1 + toBoundary previous rest) := by
  induction rest generalizing previous before with
  | nil =>
      have hlength : tokens.length = before + 1 := by
        have hsize := congrArg List.length hdrop
        rw [List.length_drop, List.length_singleton] at hsize
        omega
      exact .of_boundary (hlength ▸ .ending)
  | cons token rest ih =>
      obtain ⟨hprevious, hdrop'⟩ := drop_eq_cons hdrop
      obtain ⟨htoken, -⟩ := drop_eq_cons hdrop'
      obtain ⟨hnoEnd, hrest⟩ := List.forall_mem_cons.mp hplain
      rw [toBoundary]
      split
      next hstop =>
        refine .of_boundary ?_
        rcases hstop with hend | hsemicolon | hopens
        · exact (hnoEnd hend).elim
        · exact .semicolon hbefore hprevious hsemicolon
        · exact .opening htoken hopens
      next hgoing =>
        simp only [not_or] at hgoing
        obtain ⟨-, hsemicolon, hopens⟩ := hgoing
        have hnext := ih hrest hdrop' (Nat.le_succ_of_le hbefore)
        rw [Nat.add_right_comm _ _ (toBoundary token rest)] at hnext
        refine hnext.of_succ fun hboundary => ?_
        generalize hhere : before + 1 = here at hboundary htoken
        cases hboundary with
        | ending => rw [List.getElem?_length] at htoken; cases htoken
        | opening hother hopens' =>
            cases htoken.symm.trans hother
            exact hopens hopens'
        | semicolon _ hother hsemicolon' =>
            cases hhere
            cases hprevious.symm.trans hother
            exact hsemicolon hsemicolon'

/-- Reading resumes at the first boundary behind the place of the failure, or at the end. -/
theorem resume_next {d : Cursor} (hplain : ∀ t ∈ tokens, t.tag ≠ .eof)
    (hinside : d.current ≤ tokens.length) (hdrop : d.rest = tokens.drop d.current) :
    ∃ place, d.resume = { d with current := place }
      ∧ NextBoundary tokens d.current (min (d.current + 1) tokens.length) place := by
  cases hrest : d.rest with
  | nil =>
      have hend : tokens.length ≤ d.current := List.drop_eq_nil_iff.mp (hdrop.symm.trans hrest)
      refine ⟨d.current, Cursor.resume_nil hrest, ?_⟩
      obtain hend := Nat.le_antisymm hinside hend
      rw [Nat.min_eq_right (by omega), ← hend]
      exact .of_boundary (hend ▸ .ending)
  | cons token rest =>
      have hsize := congrArg List.length (hdrop.symm.trans hrest)
      rw [List.length_drop, List.length_cons] at hsize
      have hplain' : ∀ t ∈ rest, t.tag ≠ .eof := fun t ht =>
        hplain t (List.mem_of_mem_drop (hdrop.symm.trans hrest ▸ List.mem_cons_of_mem _ ht))
      refine ⟨d.current + (1 + toBoundary token rest), Cursor.resume_cons hrest, ?_⟩
      rw [Nat.min_eq_left (by omega), ← Nat.add_assoc]
      exact toBoundary_next hplain' (hdrop.symm.trans hrest) (Nat.le_refl _)

/-- Skipping one token misses no boundary, unless it is one at which a statement opens. -/
theorem nextBoundary_iff (hstart : start ≤ tokens.length)
    (h : NextBoundary tokens start (min (start + 1) tokens.length) place) :
    NextBoundary tokens start start place ↔
      ∀ token, tokens[start]? = some token → ¬ opensStatement token := by
  constructor
  · intro hnext token htoken hopens
    have hinside : start < tokens.length := (List.getElem?_eq_some_iff.mp htoken).1
    have hle := h.le
    rw [Nat.min_eq_left hinside] at hle
    exact hnext.nearest start (Nat.le_refl _) hle (.opening htoken hopens)
  · intro hcloses
    rcases Nat.eq_or_lt_of_le hstart with rfl | hinside
    · rwa [Nat.min_eq_right (Nat.le_succ _)] at h
    · rw [Nat.min_eq_left hinside] at h
      refine h.of_succ fun hboundary => ?_
      generalize hhere : start = here at hboundary
      cases hboundary with
      | ending => exact absurd hhere (Nat.ne_of_lt hinside)
      | opening htoken hopens => exact hcloses _ (hhere ▸ htoken) hopens
      | semicolon hle => omega

end Boundaries

/-- Wherever reading has come to and a declaration fails, the error is noted and reading resumes.
If the tokens have not come to an end there, it resumes at the first boundary behind the token at
which the declaration has failed. This is the first boundary of all, and nothing is lost, exactly if
that token does not open a statement. -/
theorem resumes_behind_failure {tokens : List Token} {nextId : NodeId} {c : Cursor}
    (hreached : (Cursor.start tokens nextId).Leads c) {fuel : Nat} {error : SyntaxError}
    {d : Cursor} (hfails : declaration fuel c = .error (.refused error) d) :
    let read := (Cursor.start tokens nextId).rest
    d.current ≤ read.length ∧ d.rest = read.drop d.current
      ∧ ∃ place, recover (declaration fuel) c = .ok none { d.note error with current := place }
        ∧ NextBoundary read d.current (min (d.current + 1) read.length) place
        ∧ (NextBoundary read d.current d.current place ↔
          ∀ token, read[d.current]? = some token → ¬ opensStatement token) := by
  intro read
  have hlead := hreached.trans ((statementsAdvance fuel).declaration.leads_error hfails)
  have hplain : ∀ t ∈ read, t.tag ≠ .eof := fun t => Cursor.tag_of_mem_rest
  have hinside : d.current ≤ read.length := by
    have hadd := hlead.current_add
    have hzero : (Cursor.start tokens nextId).current = 0 := rfl
    simp only [read]
    omega
  have hdrop : d.rest = read.drop d.current := hlead.rest_eq.1
  obtain ⟨place, hresume, hnext⟩ := resume_next (d := d.note error) hplain hinside hdrop
  refine ⟨hinside, hdrop, place, ?_, hnext, nextBoundary_iff hinside hnext⟩
  rw [recover, hfails]
  exact congrArg _ hresume

/-- The tokens of a `print` that lacks its semicolon and of a declaration that lacks its name. -/
def printBeforeVar : List Token :=
  [⟨.keyword .printKw, "print", 1⟩, ⟨.keyword .nilKw, "nil", 1⟩, ⟨.keyword .varKw, "var", 1⟩,
    ⟨.punct .equal, "=", 1⟩, ⟨.keyword .nilKw, "nil", 1⟩, ⟨.punct .semicolon, ";", 1⟩]

/-- The first declaration fails at the keyword of the second, which is the third token. -/
theorem printBeforeVar_fails :
    declaration 20 (Cursor.start printBeforeVar 0) =
      .error (.refused ⟨⟨.keyword .varKw, "var", 1⟩, .printEnd⟩)
        { Cursor.start printBeforeVar 0 with current := 2 } :=
  rfl

theorem printBeforeVar_resumes :
    recover (declaration 20) (Cursor.start printBeforeVar 0) =
      .ok none { (Cursor.start printBeforeVar 0).note ⟨⟨.keyword .varKw, "var", 1⟩, .printEnd⟩ with
        current := 6 } := by
  rw [recover, printBeforeVar_fails]
  rfl

/-- Reading resumes at the end, the first boundary behind the keyword at which it has failed. -/
theorem resumes_behind_keyword :
    let start := Cursor.start printBeforeVar 0
    ∃ error d, start.Leads start ∧ declaration 20 start = .error (.refused error) d
      ∧ d.current = 2
      ∧ recover (declaration 20) start = .ok none { d.note error with current := 6 }
      ∧ NextBoundary start.rest 2 3 6 := by
  intro start
  obtain ⟨-, -, place, hresumes, hnext, -⟩ :=
    resumes_behind_failure (.refl start) printBeforeVar_fails
  have hnext : NextBoundary start.rest 2 3 place := hnext
  -- All tokens have been skipped, and the end is the first place where there are none.
  obtain rfl : 6 = place := by
    have hcursor := (EStateM.Result.ok.inj (printBeforeVar_resumes.symm.trans hresumes)).2
    exact congrArg Cursor.current hcursor
  exact ⟨_, _, .refl start, printBeforeVar_fails, rfl, hresumes, hnext⟩

/-- The keyword at which the first declaration fails is the first boundary, and reading resumes
behind it all the same. So one error is reported, although the second declaration fails as well
where it is read. -/
theorem opening_keyword_lost :
    let start := Cursor.start printBeforeVar 0
    ∃ error d, declaration 20 start = .error (.refused error) d ∧ d.current = 2
      ∧ start.rest[2]? = some ⟨.keyword .varKw, "var", 1⟩ ∧ NextBoundary start.rest 2 2 2
      ∧ recover (declaration 20) start = .ok none { d.note error with current := 6 }
      ∧ ¬ NextBoundary start.rest 2 2 6
      ∧ (parseTokens 0 printBeforeVar).1 = .error [⟨⟨.keyword .varKw, "var", 1⟩, .printEnd⟩]
      ∧ (parseTokens 0 (printBeforeVar.drop 2)).1 =
        .error [⟨⟨.punct .equal, "=", 1⟩, .variableName⟩] := by
  intro start
  have hboundary : Boundary start.rest 2 2 := .opening rfl rfl
  exact ⟨_, _, printBeforeVar_fails, rfl, rfl, .of_boundary hboundary, printBeforeVar_resumes,
    fun hnext => hnext.nearest 2 (Nat.le_refl 2) (by decide) hboundary, rfl, rfl⟩

end ScopeScript
