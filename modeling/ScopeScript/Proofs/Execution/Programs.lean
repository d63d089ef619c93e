import ScopeScript.Proofs.Execution.Ends
import ScopeScript.Proofs.Execution.Regular

/-!
# Programs as sequences of statements

A statement is run for itself: what it does does not depend on the frames that wait for its end. So
a run of a program is one of its first statement and then one of the others, whatever the first one
ends with short of a fault; and a program in front of another is run as the two are, one after the
other. A program runs alike with other numbers and another table, if the tables agree on the nodes
that the run can come to.
-/

namespace ScopeScript

/-- A run goes on alike with other numbers, if the tables agree on the nodes that it comes to. -/
theorem run_rename {f : NodeId → NodeId} {locals : Locals} {p : NodeId → Prop} {ending : Ending}
    {config : Config} (h : config.Regular p ending)
    (hagree : ∀ id, p id → locals[f id]? = config.state.locals[id]?) (fuel : Nat) :
    run fuel (config.rename f locals) = (run fuel config).rename f locals := by
  induction fuel generalizing config with
  | zero => rfl
  | succ fuel ih =>
      have hdone : (config.rename f locals).isDone = config.isDone := by
        rw [ConfigOf.isDone, ConfigOf.isDone, outcome?_rename]
      rw [run, run, hdone]
      split
      next => rfl
      next =>
        have hstep : step (config.rename f locals) = (step config).rename f locals := by
          obtain ⟨inner, hcontrol, hframes, -⟩ := id h
          exact step_rename (fun id hid => hagree id (hcontrol.within id hid))
            fun frame hframe id hid => hagree id (hframes.ids frame hframe id hid)
        have hsame : (step config).state.locals = config.state.locals :=
          (step_edits config).surroundings.2
        rw [hstep]
        exact ih h.step (hsame ▸ hagree)

namespace Ends

variable {config : Config} {outcome : Outcome} {last : State}

/-- A run comes to no other nodes, and ends as it should. -/
theorem regular {p : NodeId → Prop} {ending : Ending} (h : Ends config outcome last)
    (hregular : config.Regular p ending) :
    (Control.done outcome).Regular p ending ∧ last.store.toHeap.All (FunctionDecl.Within p) := by
  obtain ⟨fuel, hrun⟩ := ends_iff_run.mp h
  have hlast := hregular.run fuel
  rw [hrun] at hlast
  obtain ⟨inner, hcontrol, hframes, hheap⟩ := hlast
  cases hframes
  exact ⟨hcontrol, hheap⟩

theorem rename {f : NodeId → NodeId} {locals : Locals} {p : NodeId → Prop} {ending : Ending}
    (h : Ends config outcome last) (hregular : config.Regular p ending)
    (hagree : ∀ id, p id → locals[f id]? = config.state.locals[id]?) :
    Ends (config.rename f locals) outcome (last.rename f locals) := by
  obtain ⟨fuel, hrun⟩ := ends_iff_run.mp h
  refine ends_iff_run.mpr ⟨fuel, ?_⟩
  rw [run_rename hregular hagree, hrun]
  rfl

end Ends

/-! ## Programs -/

/-- A program is run statement by statement, up to the first fault. -/
inductive Runs : List Stmt → State → Outcome → State → Prop
  | nil {state : State} : Runs [] state (.flow .normal) state
  | cons {stmt : Stmt} {rest : List Stmt} {state middle last : State} {flow : Flow}
      {outcome : Outcome} :
      Ends ⟨.exec stmt, [], state⟩ (.flow flow) middle → Runs rest middle outcome last →
      Runs (stmt :: rest) state outcome last
  | fault {stmt : Stmt} {rest : List Stmt} {state last : State} {cause : Fault} :
      Ends ⟨.exec stmt, [], state⟩ (.fault cause) last →
      Runs (stmt :: rest) state (.fault cause) last

/-- A statement ends without a value. -/
theorem Ends.of_exec {stmt : Stmt} {state last : State} {outcome : Outcome}
    (h : Ends ⟨.exec stmt, [], state⟩ outcome last) :
    (∃ flow, outcome = .flow flow) ∨ ∃ cause, outcome = .fault cause := by
  have hall : state.store.toHeap.All (FunctionDecl.Within fun _ => True) :=
    ⟨fun _ _ _ _ => trivial, fun _ _ _ _ _ _ => trivial⟩
  have hregular : Config.Regular (fun _ => True) .flow ⟨.exec stmt, [], state⟩ :=
    ⟨.flow, ⟨rfl, fun _ _ => trivial⟩, .nil, hall⟩
  obtain ⟨houtcome, -⟩ := h.regular hregular
  cases outcome with
  | value => cases houtcome
  | flow flow => exact .inl ⟨flow, rfl⟩
  | fault cause => exact .inr ⟨cause, rfl⟩

theorem ends_program {rest : List Stmt} {flow : Flow} {state last : State} {outcome : Outcome} :
    Ends ⟨.done (.flow flow), [.program rest], state⟩ outcome last ↔
      Runs rest state outcome last := by
  induction rest generalizing flow state with
  | nil =>
      constructor
      · intro h
        obtain ⟨rfl, rfl⟩ := (h.of_step rfl).of_done
        exact .nil
      · rintro ⟨⟩
        exact .step rfl .rest
  | cons stmt rest ih =>
      have hfirst : Ends ⟨.done (.flow flow), [.program (stmt :: rest)], state⟩ outcome last ↔
          Ends (Config.onto ⟨.exec stmt, [], state⟩ [.program rest]) outcome last :=
        ⟨fun h => h.of_step rfl, fun h => .step rfl h⟩
      rw [hfirst, ends_onto]
      constructor
      · rintro ⟨inner, middle, hinner, houter⟩
        rcases hinner.of_exec with ⟨flow, rfl⟩ | ⟨cause, rfl⟩
        · exact .cons hinner (ih.mp houter)
        · obtain ⟨rfl, rfl⟩ := (houter.of_step rfl).of_done
          exact .fault hinner
      · intro h
        cases h with
        | cons hinner hrest => exact ⟨_, _, hinner, ih.mpr hrest⟩
        | fault hinner => exact ⟨_, _, hinner, .step rfl .rest⟩

/-- A program has a result exactly if its statements can be run to the end or to a fault. -/
theorem interpret_iff_runs {program : Program} {locals : Locals} {state last : State}
    {result : Except Fault Unit} :
    (∃ fuel, interpret fuel program locals state = some (result, last)) ↔
      ∃ outcome, Runs program (state.addLocals locals) outcome last
        ∧ result = finish outcome last.sink := by
  rw [interpret_iff_ends]
  simp only [Config.ofProgram, ends_program]

namespace Runs

variable {program first second : List Stmt} {state last : State} {outcome : Outcome}

/-- A program is run from some flow on, which it does not look at. -/
theorem ends (h : Runs program state outcome last) :
    Ends ⟨.done (.flow .normal), [.program program], state⟩ outcome last :=
  ends_program.mpr h

theorem normal_or_fault (h : Runs program state outcome last) :
    outcome = .flow .normal ∨ ∃ cause, outcome = .fault cause := by
  induction h with
  | nil => exact .inl rfl
  | cons _ _ ih => exact ih
  | fault => exact .inr ⟨_, rfl⟩

/-- A program with other numbers runs alike, if the tables agree on its nodes and on those in the
code that is there. -/
theorem rename {f : NodeId → NodeId} {locals : Locals} {p : NodeId → Prop}
    (h : Runs program state outcome last) (hprogram : ∀ id ∈ Stmt.idsAll program, p id)
    (hcode : state.store.toHeap.All (FunctionDecl.Within p))
    (hagree : ∀ id, p id → locals[f id]? = state.locals[id]?) :
    Runs (Stmt.renameAll f program) (state.rename f locals) outcome (last.rename f locals) := by
  have hregular : Config.Regular p .flow ⟨.done (.flow .normal), [.program program], state⟩ :=
    ⟨.flow, rfl, .one rfl rfl hprogram, hcode⟩
  have hends := h.ends.rename hregular hagree
  rw [Stmt.renameAll_eq]
  exact ends_program.mp hends

theorem unique {outcome' : Outcome} {last' : State} (h : Runs program state outcome last)
    (h' : Runs program state outcome' last') : outcome' = outcome ∧ last' = last :=
  h.ends.unique h'.ends

/-- A program runs alike with another table, if the tables agree on its nodes and on those in the
code that is there. -/
theorem withLocals {locals : Locals} {p : NodeId → Prop} (h : Runs program state outcome last)
    (hprogram : ∀ id ∈ Stmt.idsAll program, p id)
    (hcode : state.store.toHeap.All (FunctionDecl.Within p))
    (hagree : ∀ id, p id → locals[id]? = state.locals[id]?) :
    Runs program { state with locals } outcome { last with locals } := by
  have hrenamed := h.rename (f := id) hprogram hcode hagree
  rwa [Stmt.renameAll_id, State.rename_id, State.rename_id] at hrenamed

theorem append_iff : Runs (first ++ second) state outcome last ↔
    (∃ middle, Runs first state (.flow .normal) middle ∧ Runs second middle outcome last)
      ∨ ∃ cause, outcome = .fault cause ∧ Runs first state outcome last := by
  induction first generalizing state with
  | nil =>
      constructor
      · exact fun h => .inl ⟨state, .nil, h⟩
      · rintro (⟨_, ⟨⟩, h⟩ | ⟨cause, rfl, h⟩)
        · exact h
        · cases h
  | cons stmt rest ih =>
      constructor
      · intro h
        cases h with
        | cons hstmt hrest =>
            rcases ih.mp hrest with ⟨middle, hfirst, hsecond⟩ | ⟨cause, rfl, hfirst⟩
            · exact .inl ⟨middle, .cons hstmt hfirst, hsecond⟩
            · exact .inr ⟨cause, rfl, .cons hstmt hfirst⟩
        | fault hstmt => exact .inr ⟨_, rfl, .fault hstmt⟩
      · rintro (⟨middle, hfirst, hsecond⟩ | ⟨cause, rfl, hfirst⟩)
        · cases hfirst with
          | cons hstmt hrest => exact .cons hstmt (ih.mpr (.inl ⟨middle, hrest, hsecond⟩))
        · cases hfirst with
          | cons hstmt hrest => exact .cons hstmt (ih.mpr (.inr ⟨cause, rfl, hrest⟩))
          | fault hstmt => exact .fault hstmt

end Runs

end ScopeScript
