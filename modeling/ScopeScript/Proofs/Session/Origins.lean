import ScopeScript.Proofs.Execution.Origins
import ScopeScript.Proofs.Scanning.Lines
import ScopeScript.Proofs.Scoping.Origins
import ScopeScript.Proofs.Session.Receivers

/-!
# Where diagnostics point

Whatever is reported in a session points into a source. The stages before a run report lines and
tokens of the source that they are given. A run reports tokens of sources that were accepted, its
own or an earlier one that has left a function or a class behind. What stands in for a token, in
front of the parser or where the machine looks up a receiver, is never reported.
-/

namespace ScopeScript

/-- The tokens that a source is cut into. -/
abbrev scanned (source : String) : List Token :=
  Source.tokens (Utf8.encode source)

/-- A diagnostic points into a source, or, where a run reports it, into one of those accepted. -/
def Diagnostic.PointsInto (source : String) (accepted : List String) : Diagnostic → Prop
  | .located .lex line _ _ => 1 ≤ line ∧ line ≤ 1 + source.toList.count '\n'
  | .located .parse line location _ | .located .resolve line location _ =>
    ∃ token ∈ scanned source, line = token.line ∧ location = token.location
  | .located .runtime line location _ =>
    ∃ source ∈ accepted, ∃ token ∈ scanned source, line = token.line ∧ location = token.location
  | .output _ => True
  | .encoding _ => False

/-! ## Before a run -/

section Static

variable {nextId nextId' : NodeId} {source : String} {accepted : List String}

/-- What is read from a source holds no tokens but those of the source, and neither do the syntax
errors. -/
theorem parseTokens_scanned (nextId : NodeId) (source : String) {q : Token → Prop}
    (hq : ∀ token ∈ scanned source, q token) :
    (∀ program, (parseTokens nextId (scanned source)).1 = .ok program → Stmt.FromAll q program)
      ∧ ∀ errors, (parseTokens nextId (scanned source)).1 = .error errors →
        ∀ e ∈ errors, q e.token := by
  let start := Cursor.start (scanned source) nextId
  have hstart : start.rest ++ [start.ending] = scanned source := Source.start_tokens _ nextId
  rw [← hstart, List.forall_mem_append, List.forall_mem_singleton] at hq
  exact parseTokens_from hq.1 hq.2

/-- An accepted source has been read from its own tokens. -/
theorem parseSource_tokens {program : Program}
    (h : parseSource nextId source = (.ok program, nextId')) :
    (parseTokens nextId (scanned source)).1 = .ok program := by
  unfold parseSource at h
  dsimp only at h
  split at h
  next hparse =>
    split at h
    next =>
      cases h
      rw [hparse]
    next => cases h
  next => cases h

theorem lexical_pointsInto :
    ∀ d ∈ (Source.errors (Utf8.encode source)).map Source.LexError.diagnostic,
      d.PointsInto source accepted := by
  intro d hd
  obtain ⟨error, herror, rfl⟩ := List.mem_map.mp hd
  have hline := Source.errors_line herror
  rwa [Source.lineBreaks_encode] at hline

theorem parseSource_pointsInto {rejection : Rejection}
    (h : parseSource nextId source = (.error rejection, nextId')) :
    ∀ d ∈ rejection.diagnostics, d.PointsInto source accepted := by
  have hlexical := @lexical_pointsInto source accepted
  unfold parseSource at h
  dsimp only at h
  split at h
  next =>
    split at h
    next => cases h
    next =>
      cases h
      exact hlexical
  next errors _ hparse =>
    cases h
    intro d hd
    rcases List.mem_append.mp hd with hd | hd
    · exact hlexical d hd
    · obtain ⟨error, herror, rfl⟩ := List.mem_map.mp hd
      have hscanned := (parseTokens_scanned nextId source fun _ => id).2 errors (by rw [hparse])
      exact ⟨error.token, hscanned error herror, rfl, rfl⟩

/-- A source that is rejected before it runs is rejected for what is in it. -/
theorem prepareSource_pointsInto {rejection : Rejection}
    (h : prepareSource nextId source = (.error rejection, nextId')) :
    ∀ d ∈ rejection.diagnostics, d.PointsInto source accepted := by
  unfold prepareSource at h
  split at h
  next hparse =>
    cases h
    exact parseSource_pointsInto hparse
  next program _ hparse =>
    have hprogram := (parseTokens_scanned nextId source fun _ => id).1 program
      (parseSource_tokens hparse)
    split at h
    next errors hresolve =>
      cases h
      intro d hd
      obtain ⟨error, herror, rfl⟩ := List.mem_map.mp hd
      exact ⟨error.token, resolve_errors_from hprogram hresolve error herror, rfl, rfl⟩
    next => cases h

theorem prepareSource_program {prepared : Prepared}
    (h : prepareSource nextId source = (.ok prepared, nextId')) {q : Token → Prop}
    (hq : ∀ token ∈ scanned source, q token) : Stmt.FromAll q prepared.program :=
  (parseTokens_scanned nextId source hq).1 _ (parseSource_tokens (prepareSource_ok h).1)

theorem prepareSource_warnings {prepared : Prepared}
    (h : prepareSource nextId source = (.ok prepared, nextId')) :
    ∀ d ∈ prepared.resolution.warnings.map ScopeError.diagnostic, d.PointsInto source accepted := by
  intro d hd
  obtain ⟨error, herror, rfl⟩ := List.mem_map.mp hd
  have hscanned :=
    resolve_warnings_from (prepareSource_program h fun _ => id) (prepareSource_ok h).2
  exact ⟨error.token, hscanned error herror, rfl, rfl⟩

end Static

/-! ## In a run -/

namespace Point

variable {p : Point}

/-- At every point, what a step looks up under tokens that no code holds is there. -/
theorem Occurs.provides (hp : p.Occurs) : p.config.Provides := by
  obtain ⟨points, w, config', -, -, hagree⟩ := hp.sound
  obtain ⟨context, await, context', hstands, hgives, -⟩ := hagree.work
  constructor
  case receiver =>
    intro id keyword method hcontrol
    rw [hcontrol] at hgives
    cases hgives with
    | eval hscoped =>
        obtain ⟨distance, scope, object, owner, cls, method, superclass, hlocal, hout, -, hreceives,
          -, -, hsuper⟩ := Lexical.Meets.superAt ⟨hagree.state, hstands⟩ hscoped
        exact ⟨distance + 1, object, hlocal, (super_found hscoped.1 hout hreceives hsuper).2⟩
  case made =>
    intro flow closure frames _ hframes hinitializer
    obtain ⟨object, owner, cls, method, -, hreceives, -⟩ := hagree.initializer hframes hinitializer
    exact ⟨object, hreceives.getAt rfl rfl⟩
  case called =>
    intro callee arguments hcontrol
    rw [hcontrol] at hgives
    cases hgives with
    | call harity =>
        rw [hagree.state.store]
        cases callee with
        | native id =>
            obtain ⟨native, hnative, -⟩ := Option.map_eq_some_iff.mp harity
            have hbuiltin := hagree.state.memory.heap.builtin id native hnative
            exact ⟨native, hnative, by simpa [builtins] using hbuiltin⟩
        | function id =>
            obtain ⟨closure, hclosure, -⟩ := Option.map_eq_some_iff.mp harity
            exact ⟨closure, hclosure⟩
        | cls => trivial
        | nil | bool | number | string | object => cases harity

/-- A point of a session, after some sources have been accepted. -/
inductive After : List String → Point → Prop
  | start (sink : Sink) (clock : Clock) : After [] (start sink clock)
  | step {accepted : List String} {p : Point} :
      After accepted p → After accepted ⟨p.nextId, ScopeScript.step p.config⟩
  | rejected {accepted : List String} {p : Point} {source : String} {rejection : Rejection}
      {nextId : NodeId} : After accepted p → p.config.isDone →
      prepareSource p.nextId source = (.error rejection, nextId) → After accepted ⟨nextId, p.config⟩
  | accepted {accepted : List String} {p : Point} {source : String} {prepared : Prepared}
      {nextId : NodeId} : After accepted p → p.config.isDone →
      prepareSource p.nextId source = (.ok prepared, nextId) →
      After (accepted ++ [source])
        ⟨nextId, .ofProgram prepared.program prepared.resolution.locals p.state⟩

variable {accepted : List String}

theorem After.occurs (h : After accepted p) : p.Occurs := by
  induction h with
  | start sink clock => exact .start sink clock
  | step _ ih => exact ih.next (.step _)
  | rejected _ hdone hprepare ih => exact ih.next (.rejected hdone hprepare)
  | accepted _ hdone hprepare ih => exact ih.next (.accepted hdone hprepare)

/-- Every token at hand is one of an accepted source: the step brings in no others, and a program
those of its source. -/
theorem After.from {q : Token → Prop} (h : After accepted p)
    (hq : ∀ source ∈ accepted, ∀ token ∈ scanned source, q token) : p.config.From q := by
  induction h with
  | start sink clock => exact ⟨trivial, List.forall_mem_nil _, nofun, nofun⟩
  | step h ih => exact (ih hq).step h.occurs.provides
  | rejected _ _ _ ih => exact ih hq
  | accepted _ _ hprepare ih =>
      have hsource := hq _ (List.mem_append_right _ List.mem_cons_self)
      have hearlier := ih fun source hmem => hq source (List.mem_append_left _ hmem)
      have hprogram := prepareSource_program hprepare hsource
      exact ⟨trivial, List.forall_mem_singleton.mpr hprogram, hearlier.heap⟩

/-- A fault is at a token of an accepted source. -/
theorem After.error (h : After accepted p) {error : RuntimeError}
    (herror : p.config.control.error? = some error) :
    ∃ source ∈ accepted, error.token ∈ scanned source := by
  have hfrom : p.config.From fun token => ∃ source ∈ accepted, token ∈ scanned source :=
    h.from fun source hmem token htoken => ⟨source, hmem, htoken⟩
  have hcontrol := hfrom.control
  unfold Control.error? at herror
  split at herror
  next heq =>
    cases herror
    rwa [heq] at hcontrol
  next => cases herror

theorem After.run {config : Config} {nextId : NodeId} (h : After accepted ⟨nextId, config⟩)
    (fuel : Nat) : After accepted ⟨nextId, ScopeScript.run fuel config⟩ := by
  induction fuel generalizing config with
  | zero => exact h
  | succ fuel ih =>
      rw [ScopeScript.run]
      split
      next => exact h
      next => exact ih h.step

end Point

/-! ## Reports -/

theorem ConfigOf.error?_of_outcome {config : Config} {error : RuntimeError}
    (h : config.outcome? = some (.fault (.runtime error))) :
    config.control.error? = some error := by
  unfold outcome? at h
  split at h
  next hcontrol _ =>
    cases h
    rw [hcontrol]
    rfl
  next => cases h

/-- What a source has to report, whether it has run or was rejected. -/
def reported : Except Rejection (List Diagnostic) → List Diagnostic
  | .ok warnings => warnings
  | .error rejection => rejection.diagnostics

namespace Session

/-- The sources accepted so far, with the next one if it is accepted as well. -/
def accepting (session : Session) (accepted : List String) (source : String) : List String :=
  match (session.prepare source).1 with
  | .ok _ => accepted ++ [source]
  | .error _ => accepted

/-- A session between two sources, with the sources that it has accepted. Each has come to an end,
with a fault or without. -/
inductive Ran : List String → Session → Prop
  | start (sink : Sink) (clock : Clock) : Ran [] (.start sink clock)
  | next {accepted : List String} {session session' : Session} {source : String} {fuel : Nat}
      {report : Except Rejection (List Diagnostic)} : Ran accepted session →
      session.run fuel source = some (report, session') →
      Ran (session.accepting accepted source) session'

variable {accepted : List String} {session session' : Session} {source : String} {fuel : Nat}
  {report : Except Rejection (List Diagnostic)}

theorem report_pointsInto {prepared : Prepared} {outcome : Outcome} {sink : Sink}
    (hwarnings : ∀ d ∈ prepared.resolution.warnings.map ScopeError.diagnostic,
      d.PointsInto source accepted)
    (hfault : ∀ error, outcome = .fault (.runtime error) →
      ∃ origin ∈ accepted, error.token ∈ scanned origin) :
    ∀ d ∈ reported (Session.report prepared (finish outcome sink)),
      d.PointsInto source accepted := by
  unfold finish
  split
  next => exact List.forall_mem_singleton.mpr trivial
  next =>
    split
    next fault =>
      refine List.forall_mem_singleton.mpr ?_
      cases fault with
      | output => trivial
      | runtime error =>
          obtain ⟨origin, hmem, htoken⟩ := hfault error rfl
          exact ⟨origin, hmem, error.token, htoken, rfl, rfl⟩
    next => exact hwarnings

/-- Between two sources, a session pauses at a point. What a source that comes to an end reports
points where it should. -/
theorem run_after {p : Point} (h : Point.After accepted p) (hp : p.Pauses session)
    (hrun : session.run fuel source = some (report, session')) :
    (∃ q, Point.After (session.accepting accepted source) q ∧ q.Pauses session')
      ∧ ∀ d ∈ reported report, d.PointsInto source (session.accepting accepted source) := by
  unfold accepting prepare
  rcases run_cases hrun with ⟨rejection, nextId, hprepare, rfl, rfl⟩ |
    ⟨prepared, nextId, last, outcome, hprepare, rfl, houtcome, rfl, rfl⟩
  · have hpoint : prepareSource p.nextId source = (.error rejection, nextId) := hp.nextId ▸ hprepare
    rw [hprepare]
    exact ⟨⟨_, h.rejected hp.ended hpoint, rfl, hp.state, hp.ended⟩,
      prepareSource_pointsInto hpoint⟩
  · have hpoint : prepareSource p.nextId source = (.ok prepared, nextId) := hp.nextId ▸ hprepare
    have hend := (h.accepted hp.ended hpoint).run fuel
    rw [hp.state] at hend
    rw [hprepare]
    refine ⟨⟨_, hend, rfl, rfl, by simp [ConfigOf.isDone, houtcome]⟩, ?_⟩
    refine report_pointsInto (prepareSource_warnings hpoint) ?_
    rintro error rfl
    exact hend.error (ConfigOf.error?_of_outcome houtcome)

theorem Ran.pauses (h : Ran accepted session) : ∃ p, Point.After accepted p ∧ p.Pauses session := by
  induction h with
  | start sink clock => exact ⟨_, .start sink clock, .start sink clock⟩
  | next _ hrun ih =>
      obtain ⟨p, hafter, hpauses⟩ := ih
      exact (run_after hafter hpauses hrun).1

end Session

/-- Every diagnostic points into a source. In a session with the built-in natives, what a source
reports when it comes to its end is on a line of that source, at a token of that source or, if it is
a fault of the run, at a token of a source accepted by then; faults of the output have no place. The
origins are such tokens as well. Reading starts in front of exactly the tokens that the source is
cut into, with no end token that stands in for its own, and every syntax error, static error and
warning is at one of them. At every point of every session, a fault is at a token of an accepted
source, and what the machine looks up under a made-up token is there, so it never reports one. -/
theorem diagnostics_point_into_sources :
    (∀ accepted session source fuel report session', Session.Ran accepted session →
      session.run fuel source = some (report, session') →
      ∀ d ∈ reported report, d.PointsInto source (session.accepting accepted source))
    ∧ (∀ nextId source,
      let start := Cursor.start (scanned source) nextId
      start.rest ++ [start.ending] = scanned source
        ∧ (∀ errors, (parseTokens nextId (scanned source)).1 = .error errors →
          ∀ e ∈ errors, e.token ∈ scanned source)
        ∧ ∀ program, (parseTokens nextId (scanned source)).1 = .ok program →
          (∀ errors, resolve program = .error errors → ∀ e ∈ errors, e.token ∈ scanned source)
          ∧ ∀ resolution, resolve program = .ok resolution →
            ∀ e ∈ resolution.warnings, e.token ∈ scanned source)
    ∧ ∀ accepted p, Point.After accepted p → p.config.Provides
      ∧ ∀ error, p.config.control.error? = some error →
        ∃ source ∈ accepted, error.token ∈ scanned source := by
  refine ⟨?_, ?_, fun accepted p hp => ⟨hp.occurs.provides, fun error => hp.error⟩⟩
  · intro accepted session source fuel report session' hran hrun
    obtain ⟨p, hafter, hpauses⟩ := hran.pauses
    exact (Session.run_after hafter hpauses hrun).2
  · intro nextId source
    obtain ⟨hprograms, herrors⟩ := parseTokens_scanned nextId source fun _ => id
    refine ⟨Source.start_tokens _ nextId, herrors, ?_⟩
    intro program hparse
    have hprogram := hprograms program hparse
    exact ⟨fun _ => resolve_errors_from hprogram, fun _ => resolve_warnings_from hprogram⟩

/-- A function fails that an earlier source has declared: the fault is on a line that the source
which calls the function does not have. -/
theorem diagnostics_point_into_earlier_source :
    let declaring := "fun f() \x7b\n  return x;\n\x7d"
    let calling := "f();"
    let fault := Diagnostic.located .runtime 2 "at 'x'" "Undefined variable 'x'"
    ∃ session session', (Session.start {} ⟨fun _ => 0, 0⟩).run 20 declaring = some (.ok [], session)
      ∧ session.run 20 calling = some (.error (.runtime fault), session')
      ∧ fault.PointsInto calling [declaring, calling] := by
  intro declaring calling fault
  let start := Session.start {} ⟨fun _ => 0, 0⟩
  let first := start.run 20 declaring
  let second := first.bind fun done => done.2.run 20 calling
  have hfirst : first.map Prod.fst = some (.ok []) := by decide +kernel
  have hsecond : second.map Prod.fst = some (.error (.runtime fault)) := by decide +kernel
  have hstart : start.accepting [] declaring = [declaring] := by decide +kernel
  have haccepting : first.map (fun done => done.2.accepting [declaring] calling) =
      some [declaring, calling] := by
    decide +kernel
  obtain ⟨⟨_, session⟩, hdeclaring, rfl⟩ := Option.map_eq_some_iff.mp hfirst
  obtain ⟨⟨_, session'⟩, hcalling, rfl⟩ := Option.map_eq_some_iff.mp hsecond
  change first.bind _ = _ at hcalling
  rw [hdeclaring] at hcalling haccepting
  refine ⟨session, session', hdeclaring, hcalling, ?_⟩
  have hran := (Session.Ran.start {} ⟨fun _ => 0, 0⟩).next hdeclaring
  have hpoints := diagnostics_point_into_sources.1 _ _ _ _ _ _ hran hcalling fault
    List.mem_cons_self
  have hlist : session.accepting [declaring] calling = [declaring, calling] :=
    Option.some.inj haccepting
  rwa [hstart, hlist] at hpoints

end ScopeScript
