import ScopeScript.Proofs.Execution.Moves
import ScopeScript.Proofs.Lexical.Objects

/-!
# When two configurations agree

Two configurations agree if they work on the same thing, their memories agree, they see the same
from where they stand, and their frames wait for the same. What a frame waits for is a value or the
end of a statement, in the context that will hold then; a declaration that waits for its initializer
lets the statements behind it expect one name more. A fault passes all frames whatever they wait
for, so it may meet any.
-/

namespace ScopeScript.Lexical

/-- What a frame waits for. -/
inductive Await where
  | value
  | flow

section Relation

variable (points : NodeId → Option Nat → Prop)

/-- A table holds what is recorded, and nothing else. -/
structure Records (locals : Locals) : Prop where
  known : ∀ id distance, points id distance → locals[id]? = distance
  unknown : ∀ id, (∀ distance, ¬ points id distance) → locals[id]? = none

/-- The states of the two machines agree. -/
structure SameState (w : World) (state : ScopeScript.State) (state' : State) : Prop where
  store : state.store = w.store
  globals : state.globals = w.globals
  locals : Records points state.locals
  memory : SameMemory points w state'
  sink : state'.sink = state.sink
  clock : state'.clock = state.clock

/-- Work that is begun in one context gives what frames wait for in another. -/
inductive Gives (w : World) (context : Context) : Control → Await → Context → Prop
  | eval {expr : Expr} : expr.Scoped points context → Gives w context (.eval expr) .value context
  | exec {stmt : Stmt} : stmt.Scoped points context →
      Gives w context (.exec stmt) .flow (stmt.after context)
  | call {callee : Value} {arguments : List Value} :
      w.store.arity? callee = some arguments.length →
      Gives w context (.call callee arguments) .value context
  | value {value : Value} : Gives w context (.done (.value value)) .value context
  | flow {flow : Flow} : Gives w context (.done (.flow flow)) .flow context
  | fault {fault : Fault} {await : Await} {context' : Context} :
      Gives w context (.done (.fault fault)) await context'

/-- Frames that wait for something in a context, and what the work they do then gives. -/
inductive Waits (w : World) : Await → Context → Frame ScopeId → Frame Environment → Await →
    Context → Prop
  | unary {context : Context} {operator : Token} :
      Waits w .value context (.unary operator) (.unary operator) .value context
  | binaryLeft {context : Context} {operator : Token} {right : Expr} :
      right.Scoped points context →
      Waits w .value context (.binaryLeft operator right) (.binaryLeft operator right) .value
        context
  | binaryRight {context : Context} {left : Value} {operator : Token} :
      Waits w .value context (.binaryRight left operator) (.binaryRight left operator) .value
        context
  | logical {context : Context} {operator : Token} {right : Expr} :
      right.Scoped points context →
      Waits w .value context (.logical operator right) (.logical operator right) .value context
  | assign {context : Context} {id : NodeId} {name : Token} :
      name.Plain → points id (context.hops? name.lexeme) →
      Waits w .value context (.assign id name) (.assign id name) .value context
  | callee {context : Context} {paren : Token} {arguments : List Expr} :
      Expr.ScopedAll points context arguments →
      Waits w .value context (.callee paren arguments) (.callee paren arguments) .value context
  | argument {context : Context} {callee : Value} {paren : Token} {before : List Value}
      {after : List Expr} :
      Expr.ScopedAll points context after →
      Waits w .value context (.argument callee paren before after)
        (.argument callee paren before after) .value context
  | get {context : Context} {name : Token} :
      Waits w .value context (.get name) (.get name) .value context
  | setObject {context : Context} {name : Token} {value : Expr} :
      value.Scoped points context →
      Waits w .value context (.setObject name value) (.setObject name value) .value context
  | setValue {context : Context} {object : InstanceId} {name : Token} :
      Waits w .value context (.setValue object name) (.setValue object name) .value context
  | discard {context : Context} : Waits w .value context .discard .discard .flow context
  | print {context : Context} : Waits w .value context .print .print .flow context
  | declare {context : Context} {name : Token} {mutable : Bool} :
      name.Plain → context.Fresh name.lexeme →
      Waits w .value context (.declare name mutable) (.declare name mutable) .flow
        (context.declare name.lexeme)
  | returning {context : Context} : Waits w .value context .returning .returning .flow context
  | branch {context : Context} {thenBranch : Stmt} {elseBranch : Option Stmt} :
      thenBranch.declared? = none → thenBranch.Scoped points context →
      (∀ stmt, elseBranch = some stmt → stmt.declared? = none ∧ stmt.Scoped points context) →
      Waits w .value context (.branch thenBranch elseBranch) (.branch thenBranch elseBranch) .flow
        context
  | whileTest {context : Context} {condition : Expr} {body : Stmt} :
      (Stmt.whileLoop condition body).Scoped points context →
      Waits w .value context (.whileTest condition body) (.whileTest condition body) .flow context
  | whileBody {context : Context} {condition : Expr} {body : Stmt} :
      (Stmt.whileLoop condition body).Scoped points context →
      Waits w .flow context (.whileBody condition body) (.whileBody condition body) .flow context
  | superclass {context : Context} {name : Token} {superclass : Expr}
      {methods : List (FunctionDecl Stmt)} :
      (Stmt.classDecl name (some superclass) methods).Scoped points context →
      Waits w .value context (.superclass name superclass methods)
        (.superclass name superclass methods) .flow (context.declare name.lexeme)
  | activation {context : Context} {closure : Closure ScopeId} {closure' : Closure Environment} :
      SameClosure points w closure closure' →
      Waits w .flow context (.activation closure) (.activation closure') .value context
  | construct {context : Context} {object : InstanceId} :
      Waits w .value context (.construct object) (.construct object) .value context

/-- Frames that wait for something in a context at a scope. The end of a block returns to a scope
that was made earlier. -/
inductive Stacks (w : World) : Await → ScopeId → Context → List (Frame ScopeId) →
    List (Frame Environment) → Prop
  | nil {id : ScopeId} : id = w.globals → Stacks w .flow id [] [] []
  | program {id : ScopeId} {rest : List Stmt} {frames : List (Frame ScopeId)}
      {frames' : List (Frame Environment)} :
      Stmt.ScopedAll points [] rest → Stacks w .flow id [] frames frames' →
      Stacks w .flow id [] (.program rest :: frames) (.program rest :: frames')
  | block {id outer : ScopeId} {context context' : Context} {env : Environment} {rest : List Stmt}
      {frames : List (Frame ScopeId)} {frames' : List (Frame Environment)} :
      Stmt.ScopedAll points context rest → outer < id → w.Stands outer context' env →
      Stacks w .flow outer context' frames frames' →
      Stacks w .flow id context (.block rest outer :: frames) (.block rest env :: frames')
  | frame {await await' : Await} {id : ScopeId} {context context' : Context}
      {frame : Frame ScopeId} {frame' : Frame Environment} {frames : List (Frame ScopeId)}
      {frames' : List (Frame Environment)} :
      Waits points w await context frame frame' await' context' →
      Stacks w await' id context' frames frames' →
      Stacks w await id context (frame :: frames) (frame' :: frames')

/-- Two configurations agree in a world. -/
structure Agree (w : World) (config : ScopeScript.Config) (config' : Config) : Prop where
  state : SameState points w config.state config'.state
  control : config'.control = config.control
  work : ∃ context await context', w.Stands config.state.current context config'.state.current
    ∧ Gives points w context config.control await context'
    ∧ Stacks points w await config.state.current context' config.frames config'.frames

/-- Two moves that are made at a scope agree: on top of frames that wait for what the moves give,
they lead to configurations that agree. -/
def Answers (w : World) (await : Await) (id : ScopeId) (context : Context)
    (move : ScopeScript.Move) (move' : Move) : Prop :=
  ∃ w', w.Follows w' id ∧ ∀ frames frames', Stacks points w' await id context frames frames' →
    Agree points w' (move.onto frames) (move'.onto frames')

end Relation

/-- What a configuration binds next may be made. -/
def World.Permits (w : World) (config : ScopeScript.Config) : Prop :=
  ∀ method object, config.binds? = some (method, object) →
    w.made w.store.scopes.size method object

variable {points : NodeId → Option Nat → Prop} {w w' : World}

theorem Waits.mono (hgrows : w.Grows w') {await await' : Await} {context context' : Context}
    {frame : Frame ScopeId} {frame' : Frame Environment}
    (h : Waits points w await context frame frame' await' context') :
    Waits points w' await context frame frame' await' context' := by
  cases h with
  | activation hclosure => exact .activation (hclosure.mono hgrows)
  | unary => exact .unary
  | binaryLeft hright => exact .binaryLeft hright
  | binaryRight => exact .binaryRight
  | logical hright => exact .logical hright
  | assign hname hpoint => exact .assign hname hpoint
  | callee harguments => exact .callee harguments
  | argument hafter => exact .argument hafter
  | get => exact .get
  | setObject hvalue => exact .setObject hvalue
  | setValue => exact .setValue
  | discard => exact .discard
  | print => exact .print
  | declare hname hfresh => exact .declare hname hfresh
  | returning => exact .returning
  | branch hdeclared hthen helse => exact .branch hdeclared hthen helse
  | whileTest hloop => exact .whileTest hloop
  | whileBody hloop => exact .whileBody hloop
  | superclass hclass => exact .superclass hclass
  | construct => exact .construct

/-- Frames go on waiting while inner scopes change. -/
theorem Stacks.mono (hgrows : w.Grows w') {id : ScopeId} (hkeeps : w.Keeps w' id) {await : Await}
    {context : Context} {frames : List (Frame ScopeId)} {frames' : List (Frame Environment)}
    (h : Stacks points w await id context frames frames') :
    Stacks points w' await id context frames frames' := by
  induction h with
  | nil hglobal => exact .nil (hglobal.trans hgrows.globals.symm)
  | program hrest _ ih => exact .program hrest (ih hkeeps)
  | block hrest hlt hstands _ ih =>
      exact .block hrest hlt (hstands.mono hgrows (hkeeps _ hlt))
        (ih (hkeeps.mono (Nat.le_of_lt hlt)))
  | frame hwaits _ ih => exact .frame (hwaits.mono hgrows) (ih hkeeps)

/-- More may be made, as long as everything that was made may. -/
theorem Agree.permit {config : ScopeScript.Config} {config' : Config}
    (h : Agree points w config config') {made : ScopeId → Closure ScopeId → InstanceId → Prop}
    (hmade : ∀ scope method object, w.made scope method object → made scope method object) :
    Agree points { w with made } config config' := by
  have hgrows : w.Grows { w with made } := ⟨.refl w.store, rfl, fun _ _ h => h, hmade⟩
  obtain ⟨control, frames, state⟩ := config
  obtain ⟨hstate, hcontrol, context, await, context', hstands, hgives, hframes⟩ := h
  have hmemory := hstate.memory
  refine ⟨⟨hstate.store, hstate.globals, hstate.locals, ⟨hmemory.root, hmemory.inside,
    hmemory.names, hmemory.size, hmemory.cells, hmemory.apart, hmemory.heap.mono hgrows rfl⟩,
    hstate.sink, hstate.clock⟩, hcontrol, context, await, context',
    hstands.mono hgrows fun _ h => h, ?_, hframes.mono hgrows fun _ _ _ h => h⟩
  cases hgives with
  | eval hexpr => exact .eval hexpr
  | exec hstmt => exact .exec hstmt
  | call harity => exact .call harity
  | value => exact .value
  | flow => exact .flow
  | fault => exact .fault

end ScopeScript.Lexical
