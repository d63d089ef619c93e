import ScopeScript.Proofs.Execution.Chain
import ScopeScript.Proofs.Execution.Edits
import ScopeScript.Proofs.Execution.Signals

/-!
# Making an instance

A call of a class makes the instance first and then runs the initializer above a frame that keeps
the instance. Whatever the initializer does and gives, its value never gets past that frame: if the
call gives a value, it is the instance.
-/

namespace ScopeScript

/-- A step of something that is not done yet does not touch the frames below it. -/
theorem step_frames {config : Config} {upper base : List (Frame ScopeId)}
    (hframes : config.frames = upper ++ base) (hgoing : ¬ config.RestsOn base) :
    ∃ upper', (step config).frames = upper' ++ base := by
  obtain ⟨control, frames, state⟩ := config
  obtain rfl : frames = upper ++ base := hframes
  have honto : ∀ (move : Move) (upper : List (Frame ScopeId)),
      ∃ upper', (move.onto (upper ++ base)).frames = upper' ++ base :=
    fun move upper => ⟨move.push ++ upper, (List.append_assoc ..).symm⟩
  cases control with
  | eval expr => exact honto (evalMove expr state) upper
  | exec stmt => exact honto (execMove stmt state) upper
  | call callee arguments => exact honto (callMove callee arguments state) upper
  | done outcome =>
      cases upper with
      | nil => exact absurd ⟨outcome, state, rfl⟩ hgoing
      | cons frame upper => exact honto (frame.resume outcome state) upper

namespace Finishes

variable {base : List (Frame ScopeId)} {config : Config} {outcome : Outcome} {last : State}

theorem of_rest {inner : Outcome} {state : State}
    (h : Finishes base ⟨.done inner, base, state⟩ outcome last) :
    outcome = inner ∧ last = state := by
  cases h with
  | rest => exact ⟨rfl, rfl⟩
  | step hgoing => exact absurd ⟨inner, state, rfl⟩ hgoing

theorem edits (h : Finishes base config outcome last) : Edits config.state last := by
  induction h with
  | rest => exact .refl _
  | step _ _ ih => exact (step_edits _).trans ih

/-- What is done above the frame of an instance gives no value but the instance. -/
theorem of_construct (h : Finishes base config outcome last) {object : InstanceId}
    {upper : List (Frame ScopeId)} (hframes : config.frames = upper ++ .construct object :: base)
    {value : Value} (hvalue : outcome = .value value) : value = .object object := by
  induction h generalizing upper with
  | rest => exact absurd (congrArg List.length hframes) (by simp; omega)
  | @step config outcome last hgoing hrest ih =>
      by_cases hrests : config.RestsOn (.construct object :: base)
      · obtain ⟨inner, state, rfl⟩ := hrests
        subst hvalue
        cases inner with
        | value =>
            obtain ⟨hsame, -⟩ := of_rest hrest
            exact Outcome.value.inj hsame
        | flow | fault =>
            obtain ⟨hsame, -⟩ := of_rest hrest
            cases hsame
      · obtain ⟨upper', hframes'⟩ := step_frames hframes hrests
        exact ih hframes' hvalue

end Finishes

section Calls

variable {frames : List (Frame ScopeId)} {classId : ClassId} {arguments : List Value}
  {state last : State} {outcome : Outcome}

/-- The state with a new instance of a class. -/
def State.withInstance (state : State) (classId : ClassId) : State :=
  { state with store := (state.store.addInstance classId).2 }

/-- The state with a new scope that binds a method to its receiver. -/
def State.withReceiver (state : State) (method : Closure ScopeId) (receiver : InstanceId) : State :=
  { state with store := (state.store.bindMethod method receiver).2 }

/-- A call of a class without an initializer is done at once; otherwise the initializer is entered,
bound to the new instance. -/
theorem step_construct :
    step ⟨.call (.cls classId) arguments, frames, state⟩ =
      match state.store.findMethod? classId initializerName with
      | none =>
        ⟨.done (.value (.object state.store.instances.size)), frames, state.withInstance classId⟩
      | some initializer =>
        (enterMove { initializer with scope := state.store.scopes.size } arguments
          ((state.withInstance classId).withReceiver initializer state.store.instances.size)).onto
            (.construct state.store.instances.size :: frames) := by
  have hclasses : (state.withInstance classId).store.classes = state.store.classes := rfl
  have hfound : (state.withInstance classId).store.findMethod? classId initializerName =
      state.store.findMethod? classId initializerName :=
    Heap.findMethod?_congr hclasses classId initializerName
  rw [← hfound]
  change (constructMove classId arguments state).onto frames = _
  unfold constructMove
  dsimp only
  split
  next hnone =>
    rw [show (state.withInstance classId).store.findMethod? _ _ = none from hnone]
    rfl
  next initializer hsome =>
    rw [show (state.withInstance classId).store.findMethod? _ _ = some initializer from hsome]
    simp only [MoveOf.onto, List.append_assoc, List.singleton_append]
    rfl

/-- A call of a class gives the new instance, if it gives a value. -/
theorem Finishes.construct_value {value : Value}
    (h : Finishes frames ⟨.call (.cls classId) arguments, frames, state⟩ (.value value) last) :
    value = .object state.store.instances.size := by
  cases h with
  | step _ hrest =>
      rw [step_construct] at hrest
      split at hrest
      next =>
        obtain ⟨hsame, -⟩ := hrest.of_rest
        exact Outcome.value.inj hsame
      next => exact hrest.of_construct rfl rfl

/-- After a call of a class, the instance has been made before anything else. -/
theorem Finishes.construct_edits
    (h : Finishes frames ⟨.call (.cls classId) arguments, frames, state⟩ outcome last) :
    Edits (state.withInstance classId) last := by
  cases h with
  | step _ hrest => exact (constructMove_edits_made state classId arguments).trans hrest.edits

end Calls

end ScopeScript
