import ScopeScript.Machine.Run
import ScopeScript.Proofs.Execution.Surroundings

/-!
# Runs that end

A run may end or go on for ever; how many steps it is allowed makes no difference to where it ends.
What is done on top of frames does not depend on them: it comes to its own end first, and then the
frames go on.
-/

namespace ScopeScript

/-- A run from a configuration comes to an end. -/
inductive Ends : Config → Outcome → State → Prop
  | rest {outcome : Outcome} {state : State} : Ends ⟨.done outcome, [], state⟩ outcome state
  | step {config : Config} {outcome : Outcome} {last : State} :
      config.isDone = false → Ends (step config) outcome last → Ends config outcome last

theorem isDone_iff {config : Config} :
    config.isDone ↔ ∃ outcome state, config = ⟨.done outcome, [], state⟩ := by
  obtain ⟨control, frames, state⟩ := config
  constructor
  · intro h
    cases control with
    | eval | exec | call => cases frames <;> cases h
    | done outcome =>
        cases frames with
        | nil => exact ⟨outcome, state, rfl⟩
        | cons => cases h
  · rintro ⟨outcome, last, heq⟩
    rw [heq]
    rfl

theorem ends_iff_run {config : Config} {outcome : Outcome} {last : State} :
    Ends config outcome last ↔ ∃ fuel, run fuel config = ⟨.done outcome, [], last⟩ := by
  constructor
  · intro h
    induction h with
    | rest => exact ⟨0, rfl⟩
    | step hgoing _ ih =>
        obtain ⟨fuel, hrun⟩ := ih
        refine ⟨fuel + 1, ?_⟩
        rw [run, hgoing]
        exact hrun
  · rintro ⟨fuel, hrun⟩
    induction fuel generalizing config with
    | zero =>
        obtain rfl : config = _ := hrun
        exact .rest
    | succ fuel ih =>
        rw [run] at hrun
        split at hrun
        next =>
          subst hrun
          exact .rest
        next hgoing => exact .step (Bool.eq_false_iff.mpr hgoing) (ih hrun)

/-! ## What does not change -/

theorem Sink.flushFails_writeLines (sink : Sink) (lines : List String) :
    (sink.writeLines lines).2.flushFails = sink.flushFails := by
  have hwrite : ∀ (sink : Sink) (text : String),
      (sink.write text).2.flushFails = sink.flushFails := by
    intro sink text
    unfold write
    split <;> rfl
  have hwriteLine : ∀ (sink : Sink) (text : String),
      (sink.writeLine text).2.flushFails = sink.flushFails := by
    intro sink text
    unfold writeLine
    split
    next => exact hwrite sink "\n"
    next =>
      split
      next sink' hfirst =>
        rw [hwrite, ← hwrite sink text, hfirst]
      next => exact hwrite sink text
  induction lines generalizing sink with
  | nil => rfl
  | cons text rest ih =>
      rw [writeLines]
      split
      next sink' hfirst =>
        rw [ih, ← hwriteLine sink text, hfirst]
      next => exact hwriteLine sink text

theorem Edit.flushFails {state state' : State} (h : Edit state state') :
    state'.sink.flushFails = state.sink.flushFails := by
  cases h with
  | write lines => exact state.sink.flushFails_writeLines lines
  | _ => rfl

theorem Edits.flushFails {state state' : State} (h : Edits state state') :
    state'.sink.flushFails = state.sink.flushFails := by
  induction h with
  | refl => rfl
  | tail _ hedit ih => exact hedit.flushFails.trans ih

/-- A run changes the state by edits. -/
theorem run_edits (fuel : Nat) (config : Config) : Edits config.state (run fuel config).state := by
  induction fuel generalizing config with
  | zero => exact .refl _
  | succ fuel ih =>
      rw [run]
      split
      next => exact .refl _
      next => exact (step_edits config).trans (ih (step config))

namespace Ends

variable {config : Config} {outcome outcome' : Outcome} {last last' : State}

theorem of_done {state : State} (h : Ends ⟨.done outcome, [], state⟩ outcome' last) :
    outcome' = outcome ∧ last = state := by
  cases h with
  | rest => exact ⟨rfl, rfl⟩
  | step hgoing => cases hgoing

theorem of_step (hgoing : config.isDone = false) (h : Ends config outcome last) :
    Ends (ScopeScript.step config) outcome last := by
  cases h with
  | rest => cases hgoing
  | step _ hrest => exact hrest

/-- A run comes to one end only. -/
theorem unique (h : Ends config outcome last) (h' : Ends config outcome' last') :
    outcome' = outcome ∧ last' = last := by
  induction h with
  | rest => exact h'.of_done
  | step hgoing _ ih => exact ih (h'.of_step hgoing)

theorem edits (h : Ends config outcome last) : Edits config.state last := by
  obtain ⟨fuel, hrun⟩ := ends_iff_run.mp h
  have hedits := run_edits fuel config
  rwa [hrun] at hedits

theorem locals (h : Ends config outcome last) : last.locals = config.state.locals :=
  h.edits.surroundings.2

end Ends

/-- A program has a result exactly if its run ends. -/
theorem interpret_eq_some_iff {fuel : Nat} {program : Program} {locals : Locals}
    {state final : State} {result : Except Fault Unit} :
    interpret fuel program locals state = some (result, final) ↔
      ∃ outcome, run fuel (.ofProgram program locals state) = ⟨.done outcome, [], final⟩
        ∧ result = finish outcome final.sink := by
  unfold interpret
  cases run fuel (.ofProgram program locals state) with
  | mk control frames last =>
      cases control with
      | eval | exec | call => simp [ConfigOf.outcome?]
      | done outcome =>
          cases frames with
          | nil =>
              simp only [ConfigOf.outcome?, Option.map_some, Option.some.injEq, Prod.mk.injEq,
                ConfigOf.mk.injEq, Control.done.injEq, true_and]
              constructor
              · rintro ⟨rfl, rfl⟩
                exact ⟨outcome, ⟨rfl, rfl⟩, rfl⟩
              · rintro ⟨_, ⟨rfl, rfl⟩, rfl⟩
                exact ⟨rfl, rfl⟩
          | cons => simp [ConfigOf.outcome?]

/-- A program has a result if and only if its run comes to an end. -/
theorem interpret_iff_ends {program : Program} {locals : Locals} {state last : State}
    {result : Except Fault Unit} :
    (∃ fuel, interpret fuel program locals state = some (result, last)) ↔
      ∃ outcome, Ends (.ofProgram program locals state) outcome last
        ∧ result = finish outcome last.sink := by
  constructor
  · rintro ⟨fuel, hrun⟩
    obtain ⟨outcome, hlast, hresult⟩ := interpret_eq_some_iff.mp hrun
    exact ⟨outcome, ends_iff_run.mpr ⟨fuel, hlast⟩, hresult⟩
  · rintro ⟨outcome, hends, hresult⟩
    obtain ⟨fuel, hlast⟩ := ends_iff_run.mp hends
    exact ⟨fuel, interpret_eq_some_iff.mpr ⟨outcome, hlast, hresult⟩⟩

/-! ## Frames below a run -/

/-- A configuration on top of more frames. -/
def Config.onto (config : Config) (base : List (Frame ScopeId)) : Config :=
  ⟨config.control, config.frames ++ base, config.state⟩

theorem step_onto {config : Config} (hgoing : config.isDone = false) (base : List (Frame ScopeId)) :
    step (config.onto base) = (step config).onto base := by
  obtain ⟨control, frames, state⟩ := config
  cases control with
  | eval | exec | call => simp [Config.onto, step, MoveOf.onto]
  | done outcome =>
      cases frames with
      | nil => cases hgoing
      | cons => simp [Config.onto, step, MoveOf.onto]

theorem isDone_onto {config : Config} (hgoing : config.isDone = false)
    (base : List (Frame ScopeId)) : (config.onto base).isDone = false := by
  obtain ⟨control, frames, state⟩ := config
  cases control with
  | eval | exec | call => rfl
  | done outcome =>
      cases frames with
      | nil => cases hgoing
      | cons => rfl

/-- A run on top of frames comes to its end, and then the frames go on. -/
theorem ends_onto {config : Config} {base : List (Frame ScopeId)} {outcome : Outcome}
    {last : State} :
    Ends (config.onto base) outcome last ↔ ∃ inner middle, Ends config inner middle
      ∧ Ends ⟨.done inner, base, middle⟩ outcome last := by
  constructor
  · intro h
    generalize hwhole : config.onto base = whole at h
    induction h generalizing config with
    | @rest outcome state =>
        by_cases hdone : config.isDone
        · obtain ⟨inner, middle, rfl⟩ := isDone_iff.mp hdone
          refine ⟨inner, middle, .rest, ?_⟩
          rw [show (⟨.done inner, base, middle⟩ : Config) = _ from hwhole]
          exact .rest
        · have hgoing := isDone_onto (Bool.eq_false_iff.mpr hdone) base
          rw [hwhole] at hgoing
          cases hgoing
    | step hgoing hrest ih =>
        subst hwhole
        by_cases hdone : config.isDone
        · obtain ⟨inner, middle, rfl⟩ := isDone_iff.mp hdone
          exact ⟨inner, middle, .rest, .step hgoing hrest⟩
        · have hgoing' := Bool.eq_false_iff.mpr hdone
          obtain ⟨inner, middle, hinner, houter⟩ := ih (step_onto hgoing' base).symm
          exact ⟨inner, middle, .step hgoing' hinner, houter⟩
  · rintro ⟨inner, middle, hinner, houter⟩
    induction hinner with
    | rest => exact houter
    | step hgoing _ ih =>
        refine .step (isDone_onto hgoing base) ?_
        rw [step_onto hgoing]
        exact ih houter

end ScopeScript
