import ScopeScript.Proofs.Execution.Signals
import ScopeScript.Proofs.Session.Point

/-!
# Signals stay inside their constructs

A session runs programs one after another, read from sources or put together by hand, each with any
table of bindings. As long as all of them are accepted, a `return` ends a function and a `break`
ends a loop, and neither is ever seen outside. This rests on nothing but the places where the
statements stand: the walk over a program and the machine draw the same borders.
-/

namespace ScopeScript

/-- A configuration of a session in which all programs are accepted. Natives may be added whenever
nothing runs. -/
inductive Running : Config → Prop
  | start (sink : Sink) (clock : Clock) :
      Running ⟨.done (.flow .normal), [], .start sink clock⟩
  | native {config : Config} (native : Native) : Running config → config.isDone →
      Running { config with state := config.state.addNative native }
  | program {config : Config} {program : Program} {resolution : Resolution} (locals : Locals) :
      Running config → config.isDone → resolve program = .ok resolution →
      Running (.ofProgram program locals config.state)
  | step {config : Config} : Running config → Running (step config)

/-- The points of a session of sources are among them. -/
theorem Point.Occurs.running {p : Point} (h : p.Occurs) : Running p.config := by
  obtain ⟨sink, clock, hleads⟩ := h
  induction hleads with
  | refl => exact .start sink clock
  | tail _ hnext ih =>
      cases hnext with
      | step => exact ih.step
      | rejected => exact ih
      | accepted hdone hprepare =>
          exact ih.program _ hdone (prepareSource_ok hprepare).2

theorem addNative_sound {state : State} (h : state.store.toHeap.Sound) (native : Native) :
    (state.addNative native).store.toHeap.Sound :=
  ⟨h.functions, h.methods⟩

theorem start_sound (sink : Sink) (clock : Clock) :
    (State.start sink clock).store.toHeap.Sound := by
  have hempty : Heap.Sound {} := ⟨nofun, nofun⟩
  exact addNative_sound (addNative_sound hempty _) _

/-- At every moment of a session, the machine fits a program. -/
theorem Running.fits {config : Config} (h : Running config) :
    config.Fits [] (.flow .none false) := by
  induction h with
  | start sink clock =>
      exact ⟨[], .flow .none false, rfl, .nil, trivial, start_sound sink clock⟩
  | native native _ _ ih =>
      obtain ⟨upper, inner, hframes, hupper, hcontrol, hsound⟩ := ih
      exact ⟨upper, inner, hframes, hupper, hcontrol, addNative_sound hsound native⟩
  | @program config program _ locals _ hdone hresolve ih =>
      obtain ⟨-, -, -, -, -, hsound⟩ := ih
      exact ⟨[.program program], .flow .none false, rfl, .one (.program (resolve_placed hresolve)),
        trivial, hsound⟩
  | @step config _ ih =>
      by_cases hrests : config.RestsOn []
      · obtain ⟨outcome, state, rfl⟩ := hrests
        exact ih
      · exact ih.step hrests

/-- The innermost frame gets what it waits for. -/
theorem Running.links {outcome : Outcome} {frame : Frame ScopeId} {frames : List (Frame ScopeId)}
    {state : State} (h : Running ⟨.done outcome, frame :: frames, state⟩) :
    ∃ inner outer, frame.Links inner outer ∧ outcome.Meets inner := by
  obtain ⟨upper, inner, hframes, hupper, hcontrol, -⟩ := h.fits
  rw [List.append_nil] at hframes
  subst hframes
  cases hupper with
  | cons hlinks => exact ⟨inner, _, hlinks, hcontrol⟩

/-- A statement ends as it may where it stands. -/
theorem Running.ends {config : Config} (h : Running config) {stmt : Stmt}
    {context : FunctionContext} {inLoop : Bool} (hplaced : stmt.Placed context inLoop)
    {frames : List (Frame ScopeId)} {outcome : Outcome} {last : State}
    (hfinishes : Finishes frames ⟨.exec stmt, frames, config.state⟩ outcome last) :
    outcome.Meets (.flow context inLoop) := by
  obtain ⟨-, -, -, -, -, hsound⟩ := h.fits
  exact hfinishes.meets ⟨[], .flow context inLoop, rfl, .nil, hplaced, hsound⟩

/-- A statement ends with a fault, or in a way that is allowed. -/
def Outcome.Ends (allowed : Flow → Prop) : Outcome → Prop
  | .fault _ => True
  | .flow ending => allowed ending
  | .value _ => False

theorem Outcome.Meets.ends {outcome : Outcome} {context : FunctionContext} {inLoop : Bool}
    (h : outcome.Meets (.flow context inLoop)) : outcome.Ends (Flow.Allowed context inLoop) := by
  cases outcome with
  | fault => trivial
  | flow => exact h
  | value => cases h

theorem Outcome.Ends.mono {allowed allowed' : Flow → Prop} {outcome : Outcome}
    (h : outcome.Ends allowed) (hmono : ∀ flow, allowed flow → allowed' flow) :
    outcome.Ends allowed' := by
  cases outcome with
  | fault => trivial
  | flow ending => exact hmono ending h
  | value => cases h

/-- No signal leaves its construct. A statement of a program ends normally or with a fault. The body
of a function never ends with a `break`, and that of an initializer returns nothing but the absent
value. A loop never ends with a `break`. And a statement that the walk over an accepted program
reaches outside all functions never ends with a `return`, nor one that it reaches outside all loops
of its function with a `break`. -/
theorem signals_confined {config : Config} (h : Running config) :
    (∀ outcome rest frames state, config = ⟨.done outcome, .program rest :: frames, state⟩ →
      outcome.Ends fun flow => flow = .normal)
    ∧ (∀ outcome closure frames state,
      config = ⟨.done outcome, .activation closure :: frames, state⟩ →
      outcome.Ends fun flow => flow ≠ .broke
        ∧ (closure.isInitializer → flow = .normal ∨ flow = .returned .nil))
    ∧ (∀ condition body frames state outcome last,
      config = ⟨.exec (.whileLoop condition body), frames, state⟩ →
      Finishes frames config outcome last → outcome.Ends fun flow => flow ≠ .broke)
    ∧ ∀ program resolution r stmt frames outcome last, resolve program = .ok resolution →
      Resolver.Reaches program r stmt →
      Finishes frames ⟨.exec stmt, frames, config.state⟩ outcome last →
      outcome.Ends fun flow => (r.enclosingFunction = .none → ∀ value, flow ≠ .returned value)
        ∧ (r.loopDepth = 0 → flow ≠ .broke) := by
  refine ⟨?_, ?_, ?_, ?_⟩
  · rintro outcome rest frames state rfl
    obtain ⟨inner, outer, hlinks, hmeets⟩ := h.links
    cases hlinks with
    | program =>
        exact hmeets.ends.mono fun _ hallowed => hallowed.normal_of_program
  · rintro outcome closure frames state rfl
    obtain ⟨inner, outer, hlinks, hmeets⟩ := h.links
    cases hlinks with
    | activation hruns =>
        exact hmeets.ends.mono fun _ hallowed =>
          ⟨hallowed.ne_broke, hruns.initializer_ends hallowed⟩
  · rintro condition body frames state outcome last rfl hfinishes
    obtain ⟨upper, inner, hframes, hupper, hcontrol, -⟩ := h.fits
    cases inner with
    | value => cases hcontrol
    | flow context inLoop =>
        cases hcontrol with
        | whileLoop hbody =>
            -- Where a loop stands does not matter to it, so it may stand outside all loops.
            have hplaced : (Stmt.whileLoop condition body).Placed context false := .whileLoop hbody
            exact (h.ends hplaced hfinishes).ends.mono fun _ hallowed => hallowed.ne_broke
  · intro program resolution r stmt frames outcome last hresolve hreaches hfinishes
    refine (h.ends (placed_of_reaches hresolve hreaches) hfinishes).ends.mono ?_
    intro flow hallowed
    refine ⟨?_, ?_⟩
    · rintro hnone value rfl
      exact hallowed.1 hnone
    · rintro hdepth rfl
      simp [Flow.Allowed, hdepth] at hallowed

/-- The function that a `return` with some value has just come to. -/
def Config.returns? (config : Config) : Option (Value × Closure ScopeId) :=
  match config.control, config.frames with
  | .done (.flow (.returned value)), .activation closure :: _ => some (value, closure)
  | _, _ => none

theorem Config.returns?_eq_some {config : Config} {value : Value} {closure : Closure ScopeId}
    (h : config.returns? = some (value, closure)) :
    ∃ frames, config =
      ⟨.done (.flow (.returned value)), .activation closure :: frames, config.state⟩ := by
  obtain ⟨control, frames, state⟩ := config
  unfold Config.returns? at h
  split at h
  next hcontrol hframes =>
    cases h
    cases hcontrol
    cases hframes
    exact ⟨_, rfl⟩
  next => cases h

/-- An initializer leaves a loop by `break` and then returns. -/
theorem signals_confined_in_initializer :
    let p := Point.inSource {} ⟨fun _ => 0, 0⟩
      "class A { init() { while (true) { break; } return; } } A();" 20
    Running p.config ∧ ∃ closure frames, closure.isInitializer
      ∧ p.config.control = .done (.flow (.returned .nil))
      ∧ p.config.frames = .activation closure :: frames := by
  intro p
  have hrunning : Running p.config := (Point.inSource_occurs _ _ _ _).running
  have hseen : p.config.returns?.any (·.2.isInitializer) = true := by
    decide +kernel
  obtain ⟨⟨value, closure⟩, hreturns, hinit⟩ := (Option.any_eq_true _ _).mp hseen
  obtain ⟨frames, hconfig⟩ := Config.returns?_eq_some hreturns
  obtain ⟨-, hactivation, -, -⟩ := signals_confined hrunning
  have hflow : Flow.returned value = .normal ∨ Flow.returned value = .returned .nil :=
    (hactivation _ closure frames _ hconfig).2 hinit
  rcases hflow with hnormal | hnil
  · cases hnormal
  · cases hnil
    exact ⟨hrunning, closure, frames, hinit, by rw [hconfig], by rw [hconfig]⟩

end ScopeScript
