import Mathlib.Algebra.Group.Nat.Defs
import ScopeScript.Proofs.Execution.Programs
import ScopeScript.Proofs.Parsing.Shifting
import ScopeScript.Proofs.Scoping.Accepted
import ScopeScript.Proofs.Scoping.Beside
import ScopeScript.Proofs.Session.Observation

/-!
# Rejected sources leave no trace

A source that is rejected before it runs uses up node numbers and does nothing else. A session
without it goes on with smaller numbers: in its programs, in its table of bindings and in the code
that its store keeps. Reading, binding and running all go alike with other numbers, so nothing of
that can be seen.
-/

namespace ScopeScript

/-! ## Preparing a source with other numbers -/

section Prepare

variable {nextId nextId' k : NodeId} {source : String}

theorem prepareSource_error_add {rejection : Rejection}
    (h : prepareSource nextId source = (.error rejection, nextId')) :
    prepareSource (nextId + k) source = (.error rejection, nextId' + k) := by
  unfold prepareSource at h ⊢
  rw [parseSource_add]
  cases hparse : parseSource nextId source with
  | mk result next =>
      rw [hparse] at h
      cases result with
      | error =>
          cases h
          rfl
      | ok program =>
          simp only [Except.map] at h ⊢
          cases hresolve : resolve program with
          | error errors =>
              rw [hresolve] at h
              cases h
              rw [resolve_rename_error (add_left_injective k) program hresolve]
          | ok =>
              rw [hresolve] at h
              cases h

theorem prepareSource_ok_add {prepared : Prepared}
    (h : prepareSource nextId source = (.ok prepared, nextId')) :
    ∃ locals, prepareSource (nextId + k) source =
        (.ok ⟨Stmt.renameAll (· + k) prepared.program, locals, prepared.resolution.warnings⟩,
          nextId' + k)
      ∧ ∀ id, locals[id + k]? = prepared.resolution.locals[id]? := by
  obtain ⟨hparse, hresolve⟩ := prepareSource_ok h
  obtain ⟨locals, hrenamed, hlocals⟩ :=
    resolve_rename_ok (add_left_injective k) prepared.program hresolve
  refine ⟨locals, ?_, hlocals⟩
  unfold prepareSource
  rw [parseSource_add, hparse]
  simp only [Except.map, hrenamed]

/-- The nodes of a program have the numbers that it has used up. -/
theorem prepareSource_ids {prepared : Prepared}
    (h : prepareSource nextId source = (.ok prepared, nextId')) :
    ∀ id ∈ Stmt.idsAll prepared.program, nextId ≤ id ∧ id < nextId' :=
  (parseSource_ok (prepareSource_ok h).1).1.bounds

/-- The bindings of a program are about its own nodes. -/
theorem prepareSource_locals {prepared : Prepared}
    (h : prepareSource nextId source = (.ok prepared, nextId')) {id : NodeId}
    (hid : id < nextId ∨ nextId' ≤ id) : prepared.resolution.locals[id]? = none := by
  refine resolve_locals (prepareSource_ok h).2 fun hmem => ?_
  obtain ⟨hge, hlt⟩ := prepareSource_ids h id hmem
  rcases hid with hbelow | habove
  · exact Nat.not_le_of_lt hbelow hge
  · exact Nat.not_lt_of_le habove hlt

/-- A source is only rejected for what is wrong with it before it runs. -/
theorem prepareSource_static {rejection : Rejection}
    (h : prepareSource nextId source = (.error rejection, nextId')) :
    ∃ diagnostics, rejection = .static diagnostics := by
  unfold prepareSource parseSource at h
  dsimp only at h
  split at h
  next hparse =>
    cases h
    split at hparse
    next =>
      split at hparse
      next => cases hparse
      next =>
        cases hparse
        exact ⟨_, rfl⟩
    next =>
      cases hparse
      exact ⟨_, rfl⟩
  next =>
    split at h <;> cases h
    exact ⟨_, rfl⟩

end Prepare

/-! ## Sessions with other numbers -/

/-- The configuration in front of a program whose bindings are there. -/
def Config.before (program : Program) (state : State) : Config :=
  ⟨.done (.flow .normal), [.program program], state⟩

/-- Numbers below a bound go on to be changed as they were, and the others are made greater. -/
def renumberFrom (f : NodeId → NodeId) (next k id : NodeId) : NodeId :=
  if id < next then f id else id + k

theorem renumberFrom_lt {f : NodeId → NodeId} {next k id : NodeId} (h : id < next) :
    renumberFrom f next k id = f id :=
  if_pos h

theorem renumberFrom_ge {f : NodeId → NodeId} {next k id : NodeId} (h : next ≤ id) :
    renumberFrom f next k id = id + k :=
  if_neg (Nat.not_lt_of_le h)

/-- Between two sources, the second session has come to the same state as the first, with other
numbers and no fewer of them. -/
structure Session.Renumbered (f : NodeId → NodeId) (session session' : Session) : Prop where
  state : session'.state = session.state.rename f session'.state.locals
  nextId : session.nextId ≤ session'.nextId
  code : session.state.store.toHeap.All (FunctionDecl.Within (· < session.nextId))
  bound : ∀ id < session.nextId, f id < session'.nextId
  agree : ∀ id < session.nextId, session'.state.locals[f id]? = session.state.locals[id]?
  unused : ∀ id, session.nextId ≤ id → session.state.locals[id]? = none
  unused' : ∀ id, session'.nextId ≤ id → session'.state.locals[id]? = none

/-- A new session with natives of its host, in a process that has used up some numbers. -/
def Session.hosted (natives : List Native) (nextId : NodeId) (sink : Sink) (clock : Clock) :
    Session :=
  ⟨natives.foldl State.addNative (.start sink clock), nextId⟩

theorem State.addNatives_code (natives : List Native) (state : State) :
    (natives.foldl addNative state).store.functions = state.store.functions
      ∧ (natives.foldl addNative state).store.classes = state.store.classes
      ∧ (natives.foldl addNative state).locals = state.locals := by
  induction natives generalizing state with
  | nil => exact ⟨rfl, rfl, rfl⟩
  | cons native rest ih => exact ih (state.addNative native)

namespace Session.Renumbered

variable {f : NodeId → NodeId} {session session' : Session}

theorem sink (h : Renumbered f session session') :
    session'.state.sink = session.state.sink := by
  rw [h.state]
  rfl

/-- The second session has used up some more numbers. -/
theorem skip (h : Renumbered f session session') {nextId' : NodeId}
    (hle : session'.nextId ≤ nextId') : Renumbered f session ⟨session'.state, nextId'⟩ where
  state := h.state
  nextId := Nat.le_trans h.nextId hle
  code := h.code
  bound := fun id hid => Nat.lt_of_lt_of_le (h.bound id hid) hle
  agree := h.agree
  unused := h.unused
  unused' := fun id hid => h.unused' id (Nat.le_trans hle hid)

/-- In front of the first source there is no code, and no binding is known. -/
theorem hosted (natives : List Native) (nextId : NodeId) (sink : Sink) (clock : Clock) :
    Renumbered id (.hosted natives nextId sink clock) (.hosted natives nextId sink clock) := by
  let session := Session.hosted natives nextId sink clock
  obtain ⟨hfunctions, hclasses, hlocals⟩ : session.state.store.functions = #[]
      ∧ session.state.store.classes = #[] ∧ session.state.locals = ∅ :=
    State.addNatives_code natives (.start sink clock)
  have hunused : ∀ id, nextId ≤ id → session.state.locals[id]? = none := by
    intro id _
    rw [hlocals]
    rfl
  constructor
  case state => exact (State.rename_id session.state.locals session.state).symm
  case nextId => exact Nat.le_refl _
  case code =>
    constructor
    · exact fun _ hmem => absurd (hfunctions ▸ hmem) (Array.not_mem_empty _)
    · exact fun _ hmem => absurd (hclasses ▸ hmem) (Array.not_mem_empty _)
  case bound => exact fun _ hid => hid
  case agree => exact fun _ _ => rfl
  case unused => exact hunused
  case unused' => exact hunused

/-- Both sessions add the bindings of a program, in the second with greater numbers. -/
theorem addLocals (h : Renumbered f session session') {k next : NodeId}
    (hk : session'.nextId = session.nextId + k) (hle : session.nextId ≤ next)
    {locals locals' : Locals} (hlocals : ∀ id, locals'[id + k]? = locals[id]?)
    (hrange : ∀ id, id < session.nextId ∨ next ≤ id → locals[id]? = none)
    (hrange' : ∀ id, id < session'.nextId ∨ next + k ≤ id → locals'[id]? = none) :
    Renumbered (renumberFrom f session.nextId k) ⟨session.state.addLocals locals, next⟩
      ⟨session'.state.addLocals locals', next + k⟩ := by
  have hle' : session'.nextId ≤ next + k := hk ▸ Nat.add_le_add_right hle k
  constructor
  case state =>
    have hcode : session.state.store.toHeap.rename (renumberFrom f session.nextId k) =
        session.state.store.toHeap.rename f :=
      Heap.rename_congr (h.code.mono fun _ hids id hid => renumberFrom_lt (hids id hid))
    rw [h.state]
    simp only [State.addLocals, State.rename, Store.rename, hcode]
  case nextId => exact Nat.le_add_right next k
  case code => exact h.code.mono fun _ hids id hid => Nat.lt_of_lt_of_le (hids id hid) hle
  case bound =>
    intro id hid
    by_cases hold : id < session.nextId
    · rw [renumberFrom_lt hold]
      exact Nat.lt_of_lt_of_le (h.bound id hold) hle'
    · rw [renumberFrom_ge (Nat.le_of_not_lt hold)]
      exact Nat.add_lt_add_right hid k
  case agree =>
    intro id hid
    simp only [State.addLocals, Std.ExtTreeMap.getElem?_union]
    by_cases hold : id < session.nextId
    · rw [renumberFrom_lt hold, hrange id (.inl hold), hrange' _ (.inl (h.bound id hold)),
        h.agree id hold]
    · have hnew := Nat.le_of_not_lt hold
      have hunused := h.unused' (id + k) (hk ▸ Nat.add_le_add_right hnew k)
      rw [renumberFrom_ge hnew, hlocals, h.unused id hnew, hunused]
  case unused =>
    intro id hid
    rw [State.addLocals, Std.ExtTreeMap.getElem?_union, hrange id (.inr hid),
      h.unused id (Nat.le_trans hle hid), Option.or_none]
  case unused' =>
    intro id hid
    rw [State.addLocals, Std.ExtTreeMap.getElem?_union, hrange' id (.inr hid),
      h.unused' id (Nat.le_trans hle' hid), Option.or_none]

/-- Both sessions run a program. -/
theorem run (h : Renumbered f session session') {program : Program}
    (hprogram : ∀ id ∈ Stmt.idsAll program, id < session.nextId) (fuel : Nat) :
    let last := ScopeScript.run fuel (.before program session.state)
    let last' := ScopeScript.run fuel (.before (Stmt.renameAll f program) session'.state)
    last'.outcome? = last.outcome?
      ∧ Renumbered f ⟨last.state, session.nextId⟩ ⟨last'.state, session'.nextId⟩ := by
  intro last last'
  have hregular : (Config.before program session.state).Regular (· < session.nextId) .flow :=
    ⟨.flow, rfl, .one rfl rfl hprogram, h.code⟩
  have hbefore : Config.before (Stmt.renameAll f program) session'.state =
      (Config.before program session.state).rename f session'.state.locals := by
    rw [Stmt.renameAll_eq, Config.before, h.state]
    rfl
  have hlast' : last' = last.rename f session'.state.locals := by
    rw [← run_rename hregular h.agree fuel, ← hbefore]
  have hlocals : last.state.locals = session.state.locals :=
    (run_edits fuel (.before program session.state)).surroundings.2
  obtain ⟨-, -, -, hcode⟩ := hregular.run fuel
  rw [hlast', outcome?_rename]
  refine ⟨rfl, rfl, h.nextId, hcode, h.bound, ?_, ?_, h.unused'⟩
  · exact fun id hid => hlocals ▸ h.agree id hid
  · exact fun id hid => hlocals ▸ h.unused id hid

/-- Both sessions prepare and run a source. -/
theorem accepted (h : Renumbered f session session') {source : String} {prepared : Prepared}
    {next : NodeId} (hprepare : prepareSource session.nextId source = (.ok prepared, next)) :
    ∃ g prepared' next', prepareSource session'.nextId source = (.ok prepared', next')
      ∧ prepared'.resolution.warnings = prepared.resolution.warnings
      ∧ ∀ fuel,
        let last := ScopeScript.run fuel
          (.ofProgram prepared.program prepared.resolution.locals session.state)
        let last' := ScopeScript.run fuel
          (.ofProgram prepared'.program prepared'.resolution.locals session'.state)
        last'.outcome? = last.outcome? ∧ Renumbered g ⟨last.state, next⟩ ⟨last'.state, next'⟩ := by
  -- What the second session has used up more is what all new numbers differ by.
  obtain ⟨k, hk⟩ := Nat.exists_eq_add_of_le h.nextId
  obtain ⟨locals', hprepare', hlocals'⟩ := prepareSource_ok_add (k := k) hprepare
  rw [← hk] at hprepare'
  have hids := prepareSource_ids hprepare
  have hadded := h.addLocals hk (prepareSource_nextId hprepare) hlocals'
    (fun _ => prepareSource_locals hprepare) (fun _ => prepareSource_locals hprepare')
  have hprogram : Stmt.renameAll (renumberFrom f session.nextId k) prepared.program =
      Stmt.renameAll (· + k) prepared.program :=
    Stmt.renameAll_congr _ fun id hid => renumberFrom_ge (hids id hid).1
  refine ⟨renumberFrom f session.nextId k, _, _, hprepare', rfl, fun fuel => ?_⟩
  have hrun := hadded.run (fun id hid => (hids id hid).2) fuel
  rwa [hprogram] at hrun

end Session.Renumbered

/-! ## Leaving out what is rejected -/

/-- Whether a source was rejected before it ran. -/
def Observation.isRejected : Observation → Bool
  | (some (.error (.static _)), _) => true
  | _ => false

/-- The sources of a session that are not rejected, and what is seen of them. -/
def Session.kept (session : Session) (sources : List (String × Nat)) :
    List ((String × Nat) × Observation) :=
  (sources.zip (session.observe sources)).filter fun entry => !entry.2.isRejected

/-- What a source reports that ran is not a rejection. -/
theorem Session.report_isRejected (prepared : Prepared) (result : Except Fault Unit) (sink : Sink) :
    Observation.isRejected (some (Session.report prepared result), sink) = false := by
  cases result <;> rfl

theorem Session.kept_rejected {session : Session} {source : String} {fuel : Nat}
    {rejection : Rejection} {nextId : NodeId} (rest : List (String × Nat))
    (h : prepareSource session.nextId source = (.error rejection, nextId)) :
    session.kept ((source, fuel) :: rest) = Session.kept ⟨session.state, nextId⟩ rest := by
  obtain ⟨_, rfl⟩ := prepareSource_static h
  rw [kept, observe, h]
  rfl

/-- What is seen of a session that goes on with smaller numbers and only with the sources that are
not rejected. -/
theorem Session.Renumbered.observe_kept {f : NodeId → NodeId} {session session' : Session}
    (h : Renumbered f session session') (sources : List (String × Nat)) :
    session.observe ((session'.kept sources).map Prod.fst) =
      (session'.kept sources).map Prod.snd := by
  -- An accepted source leaves the sessions in states that differ in their numbers again.
  induction sources generalizing f session session' with
  | nil => rfl
  | cons first rest ih =>
      obtain ⟨source, fuel⟩ := first
      cases hprepare : prepareSource session.nextId source with
      | mk result next =>
          cases result with
          | error rejection =>
              obtain ⟨k, hk⟩ := Nat.exists_eq_add_of_le h.nextId
              have hprepare' := prepareSource_error_add (k := k) hprepare
              rw [← hk] at hprepare'
              rw [Session.kept_rejected rest hprepare']
              exact ih (h.skip (prepareSource_nextId hprepare'))
          | ok prepared =>
              obtain ⟨g, prepared', next', hprepare', hwarnings, hruns⟩ := h.accepted hprepare
              obtain ⟨houtcome, hnext⟩ := hruns fuel
              have hreport : Session.report prepared' = Session.report prepared := by
                funext result
                simp only [Session.report, hwarnings]
              rw [Session.kept, Session.observe, hprepare']
              dsimp only
              rw [houtcome, hreport, hnext.sink]
              cases hends : (ScopeScript.run fuel (.ofProgram prepared.program
                  prepared.resolution.locals session.state)).outcome? with
              | none => simp [Observation.isRejected, Session.observe, hprepare, hends]
              | some outcome =>
                  simpa [Session.kept, Session.report_isRejected, Session.observe, hprepare, hends]
                    using ih hnext

/-- A source that is rejected changes nothing but the numbers that are still unused. -/
theorem Session.run_rejected {session session' : Session} {fuel : Nat} {source : String}
    {diagnostics : List Diagnostic}
    (h : session.run fuel source = some (.error (.static diagnostics), session')) :
    session'.state = session.state := by
  rcases Session.run_cases h with ⟨rejection, nextId, -, -, rfl⟩ |
    ⟨prepared, nextId, last, outcome, -, -, -, hreport, rfl⟩
  · rfl
  · cases hresult : finish outcome last.state.sink <;> rw [hresult] at hreport <;> cases hreport

/-- Rejected sources leave no trace. What is seen of the other sources of a session is what is seen
if only they are run: the same reports, and the same output behind each of them. Of a source that
comes to its end its report and the output then are what is seen. And a rejected source leaves the
state as it was, with the output in it. -/
theorem rejected_without_trace (natives : List Native) (nextId : NodeId) (sink : Sink)
    (clock : Clock) (sources : List (String × Nat)) :
    let session := Session.hosted natives nextId sink clock
    session.observe ((session.kept sources).map Prod.fst) = (session.kept sources).map Prod.snd
      ∧ (∀ (before after : Session) (fuel : Nat) (source : String)
          (report : Except Rejection (List Diagnostic)) (others : List (String × Nat)),
        before.run fuel source = some (report, after) →
        before.observe ((source, fuel) :: others) =
          (some report, after.state.sink) :: after.observe others)
      ∧ ∀ (before after : Session) (fuel : Nat) (source : String) (diagnostics : List Diagnostic),
        before.run fuel source = some (.error (.static diagnostics), after) →
        after.state = before.state :=
  ⟨(Session.Renumbered.hosted natives nextId sink clock).observe_kept sources,
    fun _ _ _ _ _ others => Session.observe_run others, fun _ _ _ _ _ => Session.run_rejected⟩

/-- Between the declaration of a function and its call, a source returns from outside of any
function. -/
theorem rejected_without_trace_before_call :
    let session := Session.hosted [⟨"first", 1, .first⟩] 7 {} ⟨fun _ => 0, 0⟩
    let sources :=
      [("fun f(x) { return first(x); }", 60), ("return f;", 60), ("print f(true);", 60)]
    let kept := [("fun f(x) { return first(x); }", 60), ("print f(true);", 60)]
    (session.observe sources).map Observation.isRejected = [false, true, false]
      ∧ (session.kept sources).map Prod.fst = kept
      ∧ session.observe kept = (session.kept sources).map Prod.snd
      ∧ (session.observe kept).map (fun seen => seen.2.written) = ["", "true\n"] := by
  intro session sources kept
  have hrejected : (session.observe sources).map Observation.isRejected = [false, true, false] := by
    decide +kernel
  have hkept : (session.kept sources).map Prod.fst = kept := by decide +kernel
  have hwritten : (session.observe kept).map (fun seen => seen.2.written) = ["", "true\n"] := by
    decide +kernel
  obtain ⟨hseen, -⟩ := rejected_without_trace [⟨"first", 1, .first⟩] 7 {} ⟨fun _ => 0, 0⟩ sources
  rw [hkept] at hseen
  exact ⟨hrejected, hkept, hseen, hwritten⟩

end ScopeScript
