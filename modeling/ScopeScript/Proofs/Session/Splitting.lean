import ScopeScript.Proofs.Execution.Programs
import ScopeScript.Proofs.Scoping.Accepted
import ScopeScript.Proofs.Scoping.Concatenation
import ScopeScript.Session

/-!
# Splitting a program into consecutive runs

A program may be split anywhere into two that are run one after the other. The first of them is run
with a smaller table of bindings then, but what the whole table has more is about nodes of the
second, and neither the first nor any code that is there already comes to those.
-/

namespace ScopeScript

/-- A program has a result, with enough steps. -/
def Interprets (program : Program) (locals : Locals) (state : State) (result : Except Fault Unit)
    (last : State) : Prop :=
  ∃ fuel, interpret fuel program locals state = some (result, last)

theorem interprets_run {fuel : Nat} {program : Program} {locals : Locals} {state : State}
    (h : (interpret fuel program locals state).any fun final => final.1.isOk) :
    Interprets program locals state (.ok ())
      (run fuel (.ofProgram program locals state)).state := by
  obtain ⟨⟨result, final⟩, hrun, hok⟩ := (Option.any_eq_true _ _).mp h
  obtain ⟨outcome, hlast, -⟩ := interpret_eq_some_iff.mp hrun
  rw [hlast]
  cases result with
  | ok => exact ⟨fuel, hrun⟩
  | error => cases hok

/-- A node is in the code of a function or method. -/
def Heap.Mentions {ε : Type} (heap : Heap ε) (id : NodeId) : Prop :=
  (∃ closure ∈ heap.functions, id ∈ closure.declaration.ids)
    ∨ ∃ cls ∈ heap.classes, ∃ entry ∈ cls.methods.entries, id ∈ entry.2.declaration.ids

theorem Heap.all_of_mentions {ε : Type} {heap : Heap ε} {p : NodeId → Prop}
    (h : ∀ id, heap.Mentions id → p id) : heap.All (FunctionDecl.Within p) := by
  refine ⟨?_, ?_⟩
  · exact fun closure hclosure id hid => h id (.inl ⟨closure, hclosure, hid⟩)
  · exact fun cls hcls entry hentry id hid => h id (.inr ⟨cls, hcls, entry, hentry, hid⟩)

/-- A table of bindings is about the nodes of a program only. -/
def Locals.About (locals : Locals) (program : Program) : Prop :=
  ∀ id ∉ Stmt.idsAll program, locals[id]? = none

/-- A program runs on its own as it does with a table that is about another one. -/
theorem runs_addLocals_iff {first second : Program} {locals : Locals} {state last : State}
    {outcome : Outcome} (hlocals : locals.About second)
    (hfirst : ∀ id ∈ Stmt.idsAll first, id ∉ Stmt.idsAll second)
    (hcode : ∀ id, state.store.toHeap.Mentions id → id ∉ Stmt.idsAll second) :
    Runs first (state.addLocals locals) outcome last ↔
      ∃ middle, Runs first state outcome middle ∧ last = middle.addLocals locals := by
  let p : NodeId → Prop := fun id => id ∉ Stmt.idsAll second
  have hall : state.store.toHeap.All (FunctionDecl.Within p) := Heap.all_of_mentions hcode
  have hagree : ∀ id, p id → (state.locals ∪ locals)[id]? = state.locals[id]? := by
    intro id hid
    rw [Std.ExtTreeMap.getElem?_union, hlocals id hid, Option.none_or]
  constructor
  · intro h
    have hlast : last.locals = state.locals ∪ locals := h.ends.locals
    refine ⟨{ last with locals := state.locals }, ?_, ?_⟩
    · exact h.withLocals hfirst hall fun id hid => (hagree id hid).symm
    · rw [State.addLocals, ← hlast]
  · rintro ⟨middle, h, rfl⟩
    have hmiddle : middle.locals = state.locals := h.ends.locals
    rw [State.addLocals, State.addLocals, hmiddle]
    exact h.withLocals hfirst hall hagree

theorem State.addLocals_union (state : State) (l l' : Locals) :
    state.addLocals (l ∪ l') = (state.addLocals l).addLocals l' := by
  simp only [State.addLocals, Locals.union_assoc]

theorem finish_ok_iff {outcome : Outcome} {sink : Sink} (hflush : sink.flushFails = false) :
    finish outcome sink = .ok () ↔ ∀ cause, outcome ≠ .fault cause := by
  cases outcome <;> simp [finish, Sink.flushFault?, hflush]

theorem finish_error_iff {outcome : Outcome} {sink : Sink} {fault : Fault}
    (hflush : sink.flushFails = false) :
    finish outcome sink = .error fault ↔ outcome = .fault fault := by
  cases outcome <;> simp [finish, Sink.flushFault?, hflush]

section Split

variable {first second : Program} {l l' : Locals} {state middle last : State}
  {result : Except Fault Unit}

theorem Interprets.flushFails (h : Interprets first l state result last)
    (hflush : state.sink.flushFails = false) : last.sink.flushFails = false := by
  obtain ⟨outcome, hrun, -⟩ := interpret_iff_runs.mp h
  exact hrun.ends.edits.flushFails.trans hflush

variable (hflush : state.sink.flushFails = false) (hlocals : l'.About second)
  (hfresh : ∀ id ∈ Stmt.idsAll second, id ∉ Stmt.idsAll first ∧ ¬ state.store.toHeap.Mentions id)

include hlocals hfresh

/-- The first of two programs runs as it does when both are run as one. -/
theorem runs_first_iff {outcome : Outcome} :
    Runs first (state.addLocals (l ∪ l')) outcome last ↔
      ∃ middle, Runs first (state.addLocals l) outcome middle ∧ last = middle.addLocals l' := by
  rw [State.addLocals_union]
  exact runs_addLocals_iff hlocals (fun id hid hsecond => (hfresh id hsecond).1 hid)
    fun id hid hsecond => (hfresh id hsecond).2 hid

/-- Two programs come to an end as one only if the first does. -/
theorem interprets_first (h : Interprets (first ++ second) (l ∪ l') state result last) :
    ∃ result' middle, Interprets first l state result' middle := by
  obtain ⟨outcome, hrun, -⟩ := interpret_iff_runs.mp h
  obtain ⟨_, _, hfirst⟩ : ∃ outcome last, Runs first (state.addLocals (l ∪ l')) outcome last := by
    rcases Runs.append_iff.mp hrun with ⟨_, hfirst, -⟩ | ⟨_, -, hfirst⟩
    · exact ⟨_, _, hfirst⟩
    · exact ⟨_, _, hfirst⟩
  obtain ⟨middle, hmiddle, -⟩ := (runs_first_iff hlocals hfresh).mp hfirst
  exact ⟨_, middle, interpret_iff_runs.mpr ⟨_, hmiddle, rfl⟩⟩

include hflush

theorem interprets_append_of_ok (hfirst : Interprets first l state (.ok ()) middle) :
    Interprets second l' middle result last ↔
      Interprets (first ++ second) (l ∪ l') state result last := by
  obtain ⟨outcome, hrun, hresult⟩ := interpret_iff_runs.mp hfirst
  have hnormal : outcome = .flow .normal := by
    refine hrun.normal_or_fault.resolve_right ?_
    rintro ⟨cause, hcause⟩
    exact (finish_ok_iff (hfirst.flushFails hflush)).mp hresult.symm cause hcause
  subst hnormal
  have hjoined : Runs first (state.addLocals (l ∪ l')) (.flow .normal) (middle.addLocals l') :=
    (runs_first_iff hlocals hfresh).mpr ⟨middle, hrun, rfl⟩
  -- What the first program does is settled, so both sides are about a run of the second.
  have hsecond : ∀ outcome, Runs (first ++ second) (state.addLocals (l ∪ l')) outcome last ↔
      Runs second (middle.addLocals l') outcome last := by
    intro outcome
    rw [Runs.append_iff]
    constructor
    · rintro (⟨_, hfirst', hsecond⟩ | ⟨cause, rfl, hfault⟩)
      · obtain ⟨-, rfl⟩ := hjoined.unique hfirst'
        exact hsecond
      · cases (hjoined.unique hfault).1
    · exact fun hsecond => .inl ⟨_, hjoined, hsecond⟩
  simp only [Interprets, interpret_iff_runs, hsecond]

theorem interprets_append_of_error {fault : Fault}
    (hfirst : Interprets first l state (.error fault) middle) :
    Interprets (first ++ second) (l ∪ l') state (.error fault) (middle.addLocals l') := by
  obtain ⟨outcome, hrun, hresult⟩ := interpret_iff_runs.mp hfirst
  have hmiddle := hfirst.flushFails hflush
  have hjoined := (runs_first_iff hlocals hfresh).mpr ⟨middle, hrun, rfl⟩
  obtain rfl := (finish_error_iff hmiddle).mp hresult.symm
  refine interpret_iff_runs.mpr ⟨_, Runs.append_iff.mpr (.inr ⟨fault, rfl, hjoined⟩), ?_⟩
  have hlast : (middle.addLocals l').sink.flushFails = false := hmiddle
  exact ((finish_error_iff hlast).mpr rfl).symm

end Split

/-- A program may be split in two. What comes of resolving it is what comes of resolving both parts,
and the bindings of a part are about its own nodes. And if the nodes of the second part are not
those of the first or of any code that is there already, then running the first part and, if that
succeeds, the second, each with its own bindings, has the same results and leaves the same states as
running the whole. Only after a fault in the first part there is a difference: the bindings of the
second are in the table if the whole has been run. -/
theorem split_program (first second : Program) :
    resolve (first ++ second) = joinResolutions (resolve first) (resolve second)
      ∧ (∀ resolution, resolve second = .ok resolution → resolution.locals.About second)
      ∧ ∀ state : State, state.sink.flushFails = false →
        (∀ id ∈ Stmt.idsAll second,
          id ∉ Stmt.idsAll first ∧ ¬ state.store.toHeap.Mentions id) →
        ∀ l l' : Locals, l'.About second →
          (∀ middle, Interprets first l state (.ok ()) middle → ∀ result last,
            Interprets second l' middle result last ↔
              Interprets (first ++ second) (l ∪ l') state result last)
          ∧ (∀ fault middle, Interprets first l state (.error fault) middle →
            Interprets (first ++ second) (l ∪ l') state (.error fault) (middle.addLocals l'))
          ∧ ∀ result last, Interprets (first ++ second) (l ∪ l') state result last →
            ∃ result' middle, Interprets first l state result' middle := by
  refine ⟨resolve_append first second, fun _ hresolve _ => resolve_locals hresolve, ?_⟩
  intro state hflush hfresh l l' hlocals
  refine ⟨?_, ?_, ?_⟩
  · exact fun _ hfirst _ _ => interprets_append_of_ok hflush hlocals hfresh hfirst
  · exact fun _ _ => interprets_append_of_error hflush hlocals hfresh
  · exact fun _ _ => interprets_first hlocals hfresh

/-- A function is declared in one part and called in the next, which binds the name of its parameter
to something else. -/
theorem split_program_before_call :
    let f : Token := ⟨.identifier, "f", 1⟩
    let x : Token := ⟨.identifier, "x", 1⟩
    let first : Program := [.function ⟨f, [x], [.print (.variable 0 x)]⟩]
    let second : Program :=
      [.block [.varDecl x (some (.literal (.bool true))), .print (.variable 1 x),
        .expression (.call (.variable 2 f) x [.literal (.bool false)])]]
    let state := State.start {} ⟨fun _ => 0, 0⟩
    ∃ l l' middle last, resolve first = .ok ⟨l, []⟩ ∧ resolve second = .ok ⟨l', []⟩
      ∧ resolve (first ++ second) = .ok ⟨l ∪ l', []⟩ ∧ l[0]? = some 0 ∧ l'[1]? = some 0
      ∧ Interprets first l state (.ok ()) middle ∧ Interprets second l' middle (.ok ()) last
      ∧ Interprets (first ++ second) (l ∪ l') state (.ok ()) last
      ∧ last.sink.written = "true\nfalse\n" := by
  intro f x first second state
  let l := (Resolver.start.statements first).locals
  let l' := (Resolver.start.statements second).locals
  let middle := (run 40 (.ofProgram first l state)).state
  let last := (run 40 (.ofProgram second l' middle)).state
  obtain ⟨hjoin, habout, hruns⟩ := split_program first second
  have hfirst : resolve first = .ok ⟨l, []⟩ := by
    have hwarnings : (Resolver.start.statements first).warnings = [] :=
      List.isEmpty_iff.mp (by decide +kernel)
    rw [resolve_of_isEmpty (List.isEmpty_iff.mp (by decide +kernel)), hwarnings]
  have hsecond : resolve second = .ok ⟨l', []⟩ := by
    have hwarnings : (Resolver.start.statements second).warnings = [] :=
      List.isEmpty_iff.mp (by decide +kernel)
    rw [resolve_of_isEmpty (List.isEmpty_iff.mp (by decide +kernel)), hwarnings]
  have hmiddle : Interprets first l state (.ok ()) middle := interprets_run (by decide +kernel)
  have hlast : Interprets second l' middle (.ok ()) last := interprets_run (by decide +kernel)
  have hx : l[0]? = some 0 ∧ l'[1]? = some 0 := by decide +kernel
  have hwritten : last.sink.written = "true\nfalse\n" := by decide +kernel
  have hfresh : ∀ id ∈ Stmt.idsAll second,
      id ∉ Stmt.idsAll first ∧ ¬ state.store.toHeap.Mentions id := by
    have hids : ∀ id ∈ Stmt.idsAll second, id ∉ Stmt.idsAll first := by decide
    refine fun id hid => ⟨hids id hid, ?_⟩
    rintro (⟨_, hmem, -⟩ | ⟨_, hmem, -⟩)
    · exact absurd hmem (Array.not_mem_empty _)
    · exact absurd hmem (Array.not_mem_empty _)
  obtain ⟨hok, -⟩ := hruns state rfl hfresh l l' (habout _ hsecond)
  rw [hfirst, hsecond] at hjoin
  exact ⟨l, l', middle, last, hfirst, hsecond, hjoin, hx.1, hx.2, hmiddle, hlast,
    (hok middle hmiddle _ _).mp hlast, hwritten⟩

end ScopeScript
