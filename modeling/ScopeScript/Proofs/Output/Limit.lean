import ScopeScript.Proofs.Execution.Ends
import ScopeScript.Proofs.Output.Writes
import ScopeScript.Session

/-!
# Output that does not fit

A program is run twice from the same state, once with a sink that takes everything and once with a
sink that has a limit. As long as what is written fits, the two runs go in step. The first write
that does not fit ends the limited run: its fault leaves all frames, and none of them writes. So a
limit cuts off the end of the output and changes nothing else.
-/

namespace ScopeScript

/-- The sink with a limit. -/
def Sink.limitTo (sink : Sink) (limit : Nat) : Sink :=
  { sink with limit := some limit }

/-- The configuration with a limit to its sink. -/
def Config.limitTo (config : Config) (limit : Nat) : Config :=
  config.withSink (config.state.sink.limitTo limit)

theorem Sink.fits_limitTo (sink : Sink) (limit : Nat) (text : String) :
    (sink.limitTo limit).fits text = true ↔
      sink.written.utf8ByteSize + text.utf8ByteSize ≤ limit :=
  decide_eq_true_iff

theorem writeMove_of_writes {lines : List String} {outcome : Outcome} {state : State} {sink : Sink}
    (h : state.sink.writeAll (lines.flatMap lineWrites) = (none, sink)) :
    writeMove lines outcome state = ⟨.done outcome, [], state.withSink sink⟩ := by
  rw [← Sink.writeLines_eq] at h
  simp [writeMove, State.writeLines, h, State.withSink]

theorem writeMove_of_fails {lines : List String} {outcome : Outcome} {state : State} {sink : Sink}
    {fault : SinkFault} (h : state.sink.writeAll (lines.flatMap lineWrites) = (some fault, sink)) :
    writeMove lines outcome state =
      ⟨.done (.fault (.output fault)), [], state.withSink sink⟩ := by
  rw [← Sink.writeLines_eq] at h
  simp [writeMove, State.writeLines, h, State.withSink, MoveOf.fault]

/-- So many texts fit, and the next one does not. -/
structure Sink.Overflows (sink : Sink) (limit : Nat) (before : List String) (text : String) :
    Prop where
  fits : sink.written.utf8ByteSize + (String.join before).utf8ByteSize ≤ limit
  exceeds : limit < sink.written.utf8ByteSize + (String.join before).utf8ByteSize
    + text.utf8ByteSize

/-- Texts that were stored before come in front. -/
theorem Sink.Overflows.after {sink : Sink} {limit : Nat} {stored before : List String}
    {text : String} (h : (sink.store (String.join stored)).Overflows limit before text) :
    sink.Overflows limit (stored ++ before) text := by
  obtain ⟨hfits, hexceeds⟩ := h
  simp only [store, String.utf8ByteSize_append] at hfits hexceeds
  constructor
  · rw [String.join_append, String.utf8ByteSize_append]
    omega
  · rw [String.join_append, String.utf8ByteSize_append]
    omega

/-! ## A sink without a limit -/

section Free

variable {config : Config} (hfree : config.state.sink.limit = none)

include hfree

theorem Config.attempts_of_free {writing : Writing} (h : config.writes? = some writing) :
    config.attempts = writing.lines.flatMap lineWrites := by
  have hfits : config.state.sink.fits (String.join (writing.lines.flatMap lineWrites)) := by
    simp [Sink.fits, hfree]
  simp only [attempts, h]
  exact (Sink.writeAll_of_fits _ hfits).2

/-- A step that writes is done with its work if there is no limit. -/
theorem step_of_free {writing : Writing} (h : config.writes? = some writing) :
    step config = ⟨.done writing.outcome, writing.frames,
      config.state.withSink (config.state.sink.store (String.join config.attempts))⟩ := by
  have hfits : config.state.sink.fits (String.join (writing.lines.flatMap lineWrites)) := by
    simp [Sink.fits, hfree]
  rw [step_writes h, writeMove_of_writes (Sink.writeAll_of_fits _ hfits).1,
    Config.attempts_of_free hfree h]
  rfl

theorem step_sink : (step config).state.sink =
    config.state.sink.store (String.join config.attempts) := by
  cases hwrites : config.writes? with
  | some writing =>
      rw [step_of_free hfree hwrites]
      rfl
  | none =>
      -- The step does the same with the sink that the configuration has.
      have hsame := step_silent hwrites config.state.sink
      have hsink := congrArg (·.state.sink) hsame
      have hattempts : config.attempts = [] := by simp [Config.attempts, hwrites]
      rw [hattempts, String.join_nil, Sink.store_empty]
      exact hsink

theorem step_free : (step config).state.sink.limit = none := by
  rw [step_sink hfree]
  exact hfree

end Free

/-- A sink without a limit ends up with everything that is written. -/
theorem run_sink (fuel : Nat) {config : Config} (hfree : config.state.sink.limit = none) :
    (run fuel config).state.sink =
      config.state.sink.store (String.join (attempted fuel config)) := by
  induction fuel generalizing config with
  | zero => exact (Sink.store_empty _).symm
  | succ fuel ih =>
      rw [run, attempted]
      split
      next => exact (Sink.store_empty _).symm
      next =>
        rw [ih (step_free hfree), step_sink hfree, Sink.store_store, String.join_append]

/-! ## A sink with a limit -/

section Limit

variable {config : Config} {limit : Nat} (hfree : config.state.sink.limit = none)

include hfree

/-- A step whose writes fit goes as it does without a limit. -/
theorem step_limitTo_of_fits
    (hfits : config.state.sink.written.utf8ByteSize + (String.join config.attempts).utf8ByteSize
      ≤ limit) :
    step (config.limitTo limit) = (step config).limitTo limit
      ∧ (config.limitTo limit).attempts = config.attempts := by
  cases hwrites : config.writes? with
  | some writing =>
      have hlimited : (config.limitTo limit).writes? = some writing := hwrites
      have hattempts := config.attempts_of_free hfree hwrites
      rw [hattempts, ← Sink.fits_limitTo] at hfits
      obtain ⟨hall, hsame⟩ := Sink.writeAll_of_fits _ hfits
      refine ⟨?_, ?_⟩
      · have hmove : writeMove writing.lines writing.outcome (config.limitTo limit).state = _ :=
          writeMove_of_writes hall
        rw [step_writes hlimited, hmove, step_of_free hfree hwrites, hattempts]
        rfl
      · rw [hattempts]
        simp only [Config.attempts, hlimited]
        exact hsame
  | none =>
      have hlimited : (config.limitTo limit).writes? = none := hwrites
      have hsink : (step config).state.sink = config.state.sink :=
        congrArg (·.state.sink) (step_silent hwrites config.state.sink)
      refine ⟨?_, ?_⟩
      · rw [Config.limitTo, Config.limitTo, hsink]
        exact step_silent hwrites _
      · simp only [Config.attempts, hlimited, hwrites]

/-- A step whose writes do not fit stops with a fault behind those that do. -/
theorem step_limitTo_of_not_fits (hroom : config.state.sink.written.utf8ByteSize ≤ limit)
    (hfull : limit < config.state.sink.written.utf8ByteSize
      + (String.join config.attempts).utf8ByteSize) :
    ∃ before text after state', config.attempts = before ++ text :: after
      ∧ (config.limitTo limit).attempts = before ++ [text]
      ∧ step (config.limitTo limit) =
        ⟨.done (.fault (.output .full)), (step config).frames, state'⟩
      ∧ state'.sink = (config.state.sink.limitTo limit).store (String.join before)
      ∧ config.state.sink.Overflows limit before text := by
  cases hwrites : config.writes? with
  | none =>
      have hattempts : config.attempts = [] := by simp [Config.attempts, hwrites]
      simp only [hattempts, String.join_nil, String.utf8ByteSize_empty] at hfull
      omega
  | some writing =>
      have hlimited : (config.limitTo limit).writes? = some writing := hwrites
      have hattempts := config.attempts_of_free hfree hwrites
      have hempty : (config.state.sink.limitTo limit).fits "" := by
        rw [Sink.fits_limitTo]
        simpa using hroom
      rw [hattempts, ← Nat.not_le, ← Sink.fits_limitTo] at hfull
      obtain ⟨before, text, after, hsplit, hbefore, htext, hall, hstop⟩ :=
        Sink.writeAll_of_not_fits _ hempty hfull
      have hmove : writeMove writing.lines writing.outcome (config.limitTo limit).state = _ :=
        writeMove_of_fails hall
      have hover := mt
        (Sink.fits_limitTo (config.state.sink.store (String.join before)) limit text).mpr htext
      refine ⟨before, text, after, config.state.withSink _, hattempts.trans hsplit, ?_, ?_, rfl,
        (Sink.fits_limitTo _ _ _).mp hbefore, ?_⟩
      · simp only [Config.attempts, hlimited]
        exact hstop
      · rw [step_writes hlimited, hmove, step_of_free hfree hwrites]
        rfl
      · simpa [Sink.store, String.utf8ByteSize_append] using hover

end Limit

/-! ## Whole runs -/

/-- A step takes away at most one frame. -/
theorem frames_step (config : Config) :
    config.frames.length ≤ (step config).frames.length + 1 := by
  obtain ⟨control, frames, state⟩ := config
  cases control with
  | eval | exec | call =>
      simp only [step, MoveOf.onto, List.length_append]
      omega
  | done outcome =>
      cases frames with
      | nil => simp
      | cons frame frames =>
          simp only [step, MoveOf.onto, List.length_append, List.length_cons]
          omega

theorem frames_of_isDone {config : Config} (h : config.isDone) : config.frames = [] := by
  obtain ⟨control, frames, state⟩ := config
  cases frames with
  | nil => rfl
  | cons => cases control <;> cases h

/-- A run that ends takes at least a step for every frame. -/
theorem frames_le_of_run_isDone {fuel : Nat} {config : Config} (h : (run fuel config).isDone) :
    config.frames.length ≤ fuel := by
  induction fuel generalizing config with
  | zero =>
      have hframes : config.frames = [] := frames_of_isDone h
      simp [hframes]
  | succ fuel ih =>
      rw [run] at h
      split at h
      next hdone =>
        simp [frames_of_isDone hdone]
      next =>
        have hstep := frames_step config
        have hrest := ih h
        omega

/-- A fault leaves all frames, and nothing more is written. -/
theorem run_fault {fuel : Nat} {frames : List (Frame ScopeId)} (fault : Fault) (state : State)
    (h : frames.length ≤ fuel) :
    ∃ state', run fuel ⟨.done (.fault fault), frames, state⟩ = ⟨.done (.fault fault), [], state'⟩
      ∧ state'.sink = state.sink
      ∧ attempted fuel ⟨.done (.fault fault), frames, state⟩ = [] := by
  induction frames generalizing fuel state with
  | nil => cases fuel <;> exact ⟨state, rfl, rfl, rfl⟩
  | cons frame frames ih =>
      have hpos : 0 < fuel := Nat.lt_of_lt_of_le (Nat.succ_pos _) h
      obtain ⟨fuel, rfl⟩ := Nat.exists_eq_add_one.mpr hpos
      obtain ⟨state', hrun, hsink, hattempted⟩ := ih (frame.leave state) (Nat.le_of_succ_le_succ h)
      have hleave : (frame.leave state).sink = state.sink := by cases frame <;> rfl
      exact ⟨state', hrun, hsink.trans hleave, hattempted⟩

/-- A run whose output fits goes as it does without a limit. -/
theorem run_limitTo_of_fits {fuel limit : Nat} {config : Config}
    (hfree : config.state.sink.limit = none)
    (hfits : (run fuel config).state.sink.written.utf8ByteSize ≤ limit) :
    run fuel (config.limitTo limit) = (run fuel config).limitTo limit
      ∧ attempted fuel (config.limitTo limit) = attempted fuel config := by
  induction fuel generalizing config with
  | zero => exact ⟨rfl, rfl⟩
  | succ fuel ih =>
      have hdone : (config.limitTo limit).isDone = config.isDone := rfl
      rw [run] at hfits
      rw [run, run, attempted, attempted, hdone]
      split at hfits
      next h => simp only [if_pos h, and_self]
      next h =>
        have hsink := step_sink hfree
        have hfree' := step_free hfree
        have hnow : config.state.sink.written.utf8ByteSize
            + (String.join config.attempts).utf8ByteSize ≤ limit := by
          rw [run_sink fuel hfree', hsink] at hfits
          simp only [Sink.store, String.utf8ByteSize_append] at hfits
          omega
        obtain ⟨hstep, hattempts⟩ := step_limitTo_of_fits hfree hnow
        obtain ⟨hrun, hattempted⟩ := ih hfree' hfits
        simp only [if_neg h, hstep, hattempts, hrun, hattempted, and_self]

/-- A run whose output does not fit ends at the first write that does not. -/
theorem run_limitTo_of_not_fits {fuel limit : Nat} {config : Config}
    (hfree : config.state.sink.limit = none)
    (hroom : config.state.sink.written.utf8ByteSize ≤ limit)
    (hdone : (run fuel config).isDone)
    (hfull : limit < (run fuel config).state.sink.written.utf8ByteSize) :
    ∃ before text state',
      run fuel (config.limitTo limit) = ⟨.done (.fault (.output .full)), [], state'⟩
      ∧ state'.sink = (config.state.sink.limitTo limit).store (String.join before)
      ∧ attempted fuel (config.limitTo limit) = before ++ [text]
      ∧ before ++ [text] <+: attempted fuel config
      ∧ config.state.sink.Overflows limit before text := by
  induction fuel generalizing config with
  | zero => exact absurd hroom (Nat.not_le.mpr hfull)
  | succ fuel ih =>
      have hsame : (config.limitTo limit).isDone = config.isDone := rfl
      rw [run] at hdone hfull
      split at hfull
      next => exact absurd hroom (Nat.not_le.mpr hfull)
      next h =>
        rw [if_neg h] at hdone
        rw [run, attempted, attempted, hsame, if_neg h, if_neg h, if_neg h]
        have hsink := step_sink hfree
        have hfree' := step_free hfree
        by_cases hnow : config.state.sink.written.utf8ByteSize
            + (String.join config.attempts).utf8ByteSize ≤ limit
        · obtain ⟨hstep, hattempts⟩ := step_limitTo_of_fits hfree hnow
          have hroom' : (step config).state.sink.written.utf8ByteSize ≤ limit := by
            rw [hsink]
            simpa [Sink.store, String.utf8ByteSize_append] using hnow
          obtain ⟨before, text, state', hrun, hstored, hattempted, hfirst, hover⟩ :=
            ih hfree' hroom' hdone hfull
          rw [hsink] at hstored hover
          refine ⟨config.attempts ++ before, text, state', ?_, ?_, ?_, ?_, hover.after⟩
          · rw [hstep, hrun]
          · rw [hstored, String.join_append, ← Sink.store_store]
            rfl
          · rw [hattempts, hstep, hattempted, List.append_assoc]
          · rw [List.append_assoc]
            exact (List.prefix_append_right_inj _).mpr hfirst
        · obtain ⟨before, text, after, state', hall, hattempts, hstep, hstored, hover⟩ :=
            step_limitTo_of_not_fits hfree hroom (Nat.not_le.mp hnow)
          obtain ⟨last, hrun, hlast, hnone⟩ :=
            run_fault (.output .full) state' (frames_le_of_run_isDone hdone)
          refine ⟨before, text, last, ?_, hlast.trans hstored, ?_, ?_, hover⟩
          · rw [hstep, hrun]
          · rw [hattempts, hstep, hnone, List.append_nil]
          · rw [hall]
            exact ⟨after ++ attempted fuel (step config), by simp⟩

/-- The state whose sink takes so many more bytes. -/
def State.limitOutput (state : State) (bytes : Nat) : State :=
  state.withSink (state.sink.limitTo (state.sink.written.utf8ByteSize + bytes))

/-- A limit to the output of a program cuts off the end of it and changes nothing else. If what the
program writes without a limit fits, the program ends in the same way and in the same state. If not,
it ends with the fault of the first write that does not fit, and that write is its last. -/
theorem limited_output_truncates {fuel : Nat} {program : Program} {locals : Locals}
    {state final : State} {result : Except Fault Unit} (bytes : Nat)
    (hfree : state.sink.limit = none) (hflush : state.sink.flushFails = false)
    (hrun : interpret fuel program locals state = some (result, final)) :
    ∃ output, final.sink.written = state.sink.written ++ output
      ∧ output = String.join (attempted fuel (.ofProgram program locals state))
      ∧ ∃ result' final' output',
        interpret fuel program locals (state.limitOutput bytes) = some (result', final')
        ∧ final'.sink.written = state.sink.written ++ output'
        ∧ (∃ rest, output = output' ++ rest)
        ∧ (output.utf8ByteSize ≤ bytes →
          result' = result ∧ output' = output ∧ final' = final.withSink
            (final.sink.limitTo (state.sink.written.utf8ByteSize + bytes)))
        ∧ (bytes < output.utf8ByteSize →
          result' = .error (.output .full)
          ∧ ∃ before text,
            attempted fuel (.ofProgram program locals (state.limitOutput bytes)) = before ++ [text]
            ∧ before ++ [text] <+: attempted fuel (.ofProgram program locals state)
            ∧ output' = String.join before
            ∧ output'.utf8ByteSize ≤ bytes
            ∧ bytes < output'.utf8ByteSize + text.utf8ByteSize) := by
  let config := Config.ofProgram program locals state
  let limit := state.sink.written.utf8ByteSize + bytes
  obtain ⟨outcome, hlast, rfl⟩ := interpret_eq_some_iff.mp hrun
  have hsink' : (run fuel config).state.sink = state.sink.store _ := run_sink fuel hfree
  have hsink := hsink'
  rw [hlast] at hsink
  have hsize : (run fuel config).state.sink.written.utf8ByteSize =
      state.sink.written.utf8ByteSize + (String.join (attempted fuel config)).utf8ByteSize := by
    rw [hsink', Sink.store, String.utf8ByteSize_append]
  refine ⟨_, congrArg Sink.written hsink, rfl, ?_⟩
  by_cases hfits : (String.join (attempted fuel config)).utf8ByteSize ≤ bytes
  · have hfinal : (run fuel config).state.sink.written.utf8ByteSize ≤ limit := by omega
    obtain ⟨hlimited, -⟩ := run_limitTo_of_fits hfree hfinal
    rw [hlast] at hlimited
    refine ⟨finish outcome final.sink, final.withSink (final.sink.limitTo limit), _,
      interpret_eq_some_iff.mpr ⟨outcome, hlimited, rfl⟩, congrArg Sink.written hsink,
      ⟨"", String.append_empty.symm⟩, fun _ => ⟨rfl, rfl, rfl⟩,
      fun h => absurd hfits (Nat.not_le.mpr h)⟩
  · have hfull : limit < (run fuel config).state.sink.written.utf8ByteSize := by omega
    have hdone : (run fuel config).isDone := by rw [hlast]; rfl
    obtain ⟨before, text, final', hlimited, hstored, hattempted, hfirst, hbefore, htext⟩ :=
      run_limitTo_of_not_fits hfree (Nat.le_add_right _ _) hdone hfull
    refine ⟨finish _ final'.sink, final', String.join before,
      interpret_eq_some_iff.mpr ⟨_, hlimited, rfl⟩, congrArg Sink.written hstored, ?_,
      fun h => absurd h hfits,
      fun _ => ⟨?_, before, text, hattempted, hfirst, rfl, Nat.add_le_add_iff_left.mp hbefore, ?_⟩⟩
    · obtain ⟨after, hafter⟩ := hfirst
      rw [← hafter, String.join_append, String.join_append, String.append_assoc]
      exact ⟨_, rfl⟩
    · have hflush' : final'.sink.flushFails = false := by
        rw [hstored]
        exact hflush
      simp [finish, Sink.flushFault?, hflush']
    · omega

/-- The first line fits into three bytes and the second does not. -/
theorem limited_output_truncates_second_line :
    let program : Program :=
      [.block [.print (.literal (.string "ab")), .print (.literal (.string "c"))]]
    let state := State.start {} ⟨fun _ => 0, 0⟩
    attempted 20 (.ofProgram program ∅ state) = ["ab", "\n", "c", "\n"]
      ∧ attempted 20 (.ofProgram program ∅ (state.limitOutput 3)) = ["ab", "\n", "c"]
      ∧ ∃ final, interpret 20 program ∅ (state.limitOutput 3) = some (.error (.output .full), final)
        ∧ final.sink.written = "ab\n" := by
  intro program state
  have hwrites : attempted 20 (.ofProgram program ∅ state) = ["ab", "\n", "c", "\n"] := by
    decide +kernel
  have hlimited : attempted 20 (.ofProgram program ∅ (state.limitOutput 3)) =
      ["ab", "\n"] ++ ["c"] := by
    decide +kernel
  obtain ⟨final, hrun⟩ : ∃ final, interpret 20 program ∅ state = some (.ok (), final) := ⟨_, rfl⟩
  obtain ⟨output, -, houtput, result', final', output', hrun', hwritten, -, -, hcut⟩ :=
    limited_output_truncates 3 rfl rfl hrun
  rw [hwrites] at houtput
  obtain ⟨rfl, before, text, hattempted, -, rfl, -⟩ := hcut (by rw [houtput]; decide +kernel)
  obtain ⟨rfl, -⟩ := List.append_inj' (hlimited.symm.trans hattempted) rfl
  exact ⟨hwrites, hlimited, final', hrun', hwritten⟩

end ScopeScript
