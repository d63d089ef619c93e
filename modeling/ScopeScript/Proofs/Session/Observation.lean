import ScopeScript.Proofs.Scoping.Spelling
import ScopeScript.Session

/-!
# What can be seen of a session

A session is seen from outside by what each source reports and by what has been written when it ends
or is stopped.
-/

namespace ScopeScript

/-- The numbers that a source uses up are not used again. -/
theorem prepareSource_nextId {nextId nextId' : NodeId} {source : String}
    {result : Except Rejection Prepared}
    (h : prepareSource nextId source = (result, nextId')) : nextId ≤ nextId' := by
  have hle := parseSource_nextId nextId source
  unfold prepareSource at h
  split at h
  next hparse =>
    cases h
    rwa [hparse] at hle
  next hparse =>
    rw [hparse] at hle
    split at h <;> cases h <;> exact hle

/-- An accepted source has been read and its references have been bound. -/
theorem prepareSource_ok {nextId nextId' : NodeId} {source : String} {prepared : Prepared}
    (h : prepareSource nextId source = (.ok prepared, nextId')) :
    parseSource nextId source = (.ok prepared.program, nextId')
      ∧ resolve prepared.program = .ok prepared.resolution := by
  unfold prepareSource at h
  split at h
  next => cases h
  next hparse =>
    split at h
    next => cases h
    next hresolve =>
      cases h
      exact ⟨hparse, hresolve⟩

/-- What can be seen of a source: its report, if it has come to an end, and all that is written so
far. -/
abbrev Observation := Option (Except Rejection (List Diagnostic)) × Sink

/-- What can be seen of a session in which each source may take so many steps. A source that does
not come to an end is the last one. -/
def Session.observe (session : Session) : List (String × Nat) → List Observation
  | [] => []
  | (source, fuel) :: rest =>
    match prepareSource session.nextId source with
    | (.error rejection, nextId) =>
      (some (.error rejection), session.state.sink) :: observe ⟨session.state, nextId⟩ rest
    | (.ok prepared, nextId) =>
      let last := ScopeScript.run fuel
        (.ofProgram prepared.program prepared.resolution.locals session.state)
      match last.outcome? with
      | none => [(none, last.state.sink)]
      | some outcome =>
        (some (Session.report prepared (finish outcome last.state.sink)), last.state.sink)
          :: observe ⟨last.state, nextId⟩ rest

/-- What is seen of a source that ends is what running it gives. -/
theorem Session.observe_run {session session' : Session} {source : String} {fuel : Nat}
    {report : Except Rejection (List Diagnostic)} (rest : List (String × Nat))
    (h : session.run fuel source = some (report, session')) :
    session.observe ((source, fuel) :: rest) =
      (some report, session'.state.sink) :: session'.observe rest := by
  rw [Session.observe]
  rcases Session.run_cases h with ⟨rejection, nextId, hprepare, rfl, rfl⟩ |
    ⟨prepared, nextId, last, outcome, hprepare, rfl, houtcome, rfl, rfl⟩
  · rw [hprepare]
  · simp only [hprepare, houtcome]

end ScopeScript
