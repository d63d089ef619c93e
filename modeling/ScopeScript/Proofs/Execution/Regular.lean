import ScopeScript.Proofs.Execution.Methods
import ScopeScript.Proofs.Execution.Renaming

/-!
# What a run comes to

Whatever trees a run is given, and whatever table of bindings: an expression or a call gives a value
or a fault, and a statement ends without a value; and the only nodes that come up are those of the
trees that it was given and of the code that was there before. Both are kept by every step, each
frame waiting for one kind of end and giving one.
-/

namespace ScopeScript

/-- How a piece of work ends, unless it runs into a fault. -/
inductive Ending where
  | value | flow

/-- Some property holds of the declarations of all functions and methods. -/
structure Heap.All {ε : Type} (heap : Heap ε) (p : FunctionDecl Stmt → Prop) : Prop where
  functions : ∀ closure ∈ heap.functions, p closure.declaration
  methods : ∀ cls ∈ heap.classes, ∀ entry ∈ cls.methods.entries, p entry.2.declaration

/-- A property holds of all numbers in a function. -/
def FunctionDecl.Within (p : NodeId → Prop) (declaration : FunctionDecl Stmt) : Prop :=
  ∀ id ∈ declaration.ids, p id

/-- Work ends as it should, and a property holds of all numbers in it. -/
def Control.Regular (p : NodeId → Prop) (ending : Ending) : Control → Prop
  | .eval expr => ending = .value ∧ ∀ id ∈ expr.ids, p id
  | .exec stmt => ending = .flow ∧ ∀ id ∈ stmt.ids, p id
  | .call .. | .done (.value _) => ending = .value
  | .done (.flow _) => ending = .flow
  | .done (.fault _) => True

namespace Frame

/-- How the work ends that a frame waits for. -/
def awaits : Frame ScopeId → Ending
  | .whileBody .. | .block .. | .activation _ | .program _ => .flow
  | _ => .value

/-- How a frame ends. -/
def gives : Frame ScopeId → Ending
  | .unary _ | .binaryLeft .. | .binaryRight .. | .logical .. | .assign .. | .callee ..
  | .argument .. | .get _ | .setObject .. | .setValue .. | .activation _ | .construct _ => .value
  | _ => .flow

end Frame

/-- Each frame waits for what the one inside it gives, and a property holds of all numbers in
them. -/
inductive Stacked (p : NodeId → Prop) : Ending → List (Frame ScopeId) → Ending → Prop
  | nil {ending : Ending} : Stacked p ending [] ending
  | cons {frame : Frame ScopeId} {frames : List (Frame ScopeId)} {ending : Ending} :
      (∀ id ∈ frame.ids, p id) → Stacked p frame.gives frames ending →
      Stacked p frame.awaits (frame :: frames) ending

/-- A configuration ends as it should, and a property holds of all numbers in it. -/
def Config.Regular (p : NodeId → Prop) (ending : Ending) (config : Config) : Prop :=
  ∃ inner, config.control.Regular p inner ∧ Stacked p inner config.frames ending
    ∧ config.state.store.toHeap.All (FunctionDecl.Within p)

/-- A move ends as it should, and a property holds of all numbers in it. -/
def Move.Regular (p : NodeId → Prop) (ending : Ending) (move : Move) : Prop :=
  ∃ inner, move.control.Regular p inner ∧ Stacked p inner move.push ending
    ∧ move.state.store.toHeap.All (FunctionDecl.Within p)

namespace Stacked

variable {p : NodeId → Prop} {inner middle ending : Ending} {first second : List (Frame ScopeId)}

theorem one {frame : Frame ScopeId} (hawaits : frame.awaits = inner) (hgives : frame.gives = ending)
    (hids : ∀ id ∈ frame.ids, p id) : Stacked p inner [frame] ending := by
  subst hawaits hgives
  exact .cons hids .nil

theorem append (hfirst : Stacked p inner first middle) (hsecond : Stacked p middle second ending) :
    Stacked p inner (first ++ second) ending := by
  induction hfirst with
  | nil => exact hsecond
  | cons hids _ ih => exact .cons hids (ih hsecond)

theorem ids (h : Stacked p inner first ending) : ∀ frame ∈ first, ∀ id ∈ frame.ids, p id := by
  induction h with
  | nil => exact List.forall_mem_nil _
  | cons hids _ ih => exact List.forall_mem_cons.mpr ⟨hids, ih⟩

end Stacked

theorem Control.Regular.within {p : NodeId → Prop} {ending : Ending} {control : Control}
    (h : control.Regular p ending) : ∀ id ∈ control.ids, p id := by
  cases control with
  | eval | exec => exact h.2
  | call | done => exact List.forall_mem_nil _

/-! ## The numbers in code -/

theorem FunctionDecl.ids_eq (declaration : FunctionDecl Stmt) :
    declaration.ids = Stmt.idsAll declaration.body := by
  cases declaration
  rfl

theorem FunctionDecl.ids_subset_idsAll {methods : List (FunctionDecl Stmt)}
    {method : FunctionDecl Stmt} (hmem : method ∈ methods) :
    method.ids ⊆ FunctionDecl.idsAll methods := by
  induction methods with
  | nil => cases hmem
  | cons first rest ih =>
      rw [FunctionDecl.idsAll_cons]
      rcases List.mem_cons.mp hmem with rfl | hmem
      · exact List.subset_append_left _ _
      · exact List.subset_append_of_subset_right _ (ih hmem)


namespace Heap.All

variable {ε : Type} {heap : Heap ε} {p : FunctionDecl Stmt → Prop} (h : heap.All p)

include h

theorem mono {q : FunctionDecl Stmt → Prop} (hpq : ∀ declaration, p declaration → q declaration) :
    heap.All q :=
  ⟨fun closure hmem => hpq _ (h.functions closure hmem),
    fun cls hmem entry hentry => hpq _ (h.methods cls hmem entry hentry)⟩

theorem addFunction {closure : Closure ε} (hclosure : p closure.declaration) :
    (heap.addFunction closure).2.All p := by
  refine ⟨?_, h.methods⟩
  intro other hother
  rcases Array.mem_push.mp hother with hold | rfl
  · exact h.functions other hold
  · exact hclosure

theorem addClass {cls : Class ε} (hcls : ∀ entry ∈ cls.methods.entries, p entry.2.declaration) :
    (heap.addClass cls).2.All p := by
  refine ⟨h.functions, ?_⟩
  intro other hother
  rcases Array.mem_push.mp hother with hold | rfl
  · exact h.methods other hold
  · exact hcls

theorem declares {owner : ClassId} {cls : Class ε} {method : Closure ε}
    (hdeclares : heap.Declares owner cls method) : p method.declaration := by
  obtain ⟨name, hmethod⟩ := hdeclares.named
  obtain ⟨_, hentry⟩ := NameMap.mem_of_find? hmethod
  exact h.methods cls (Array.mem_of_getElem? hdeclares.found) _ hentry

theorem findMethod? {id : ClassId} {name : String} {method : Closure ε}
    (hfind : heap.findMethod? id name = some method) : p method.declaration := by
  obtain ⟨_, _, -, hdeclares⟩ := Heap.findMethod?_declares hfind
  exact h.declares hdeclares

theorem property? {id : InstanceId} {name : String} {method : Closure ε}
    (hfind : heap.property? id name = some (.method method)) : p method.declaration := by
  obtain ⟨_, _, -, hdeclares⟩ := Heap.property?_declares hfind
  exact h.declares hdeclares

end Heap.All

/-- Code does not change with its numbers where those stay the same. -/
theorem Heap.rename_congr {ε : Type} {f g : NodeId → NodeId} {heap : Heap ε}
    (h : heap.All (FunctionDecl.Within fun id => f id = g id)) : heap.rename f = heap.rename g := by
  have hclosure : ∀ closure : Closure ε, FunctionDecl.Within (fun id => f id = g id)
      closure.declaration → closure.rename f = closure.rename g := by
    intro closure hids
    rw [Closure.rename, Closure.rename, FunctionDecl.rename_congr _ hids]
  have hfunctions : heap.functions.map (Closure.rename f) =
      heap.functions.map (Closure.rename g) :=
    Array.map_congr_left fun closure hmem => hclosure closure (h.functions closure hmem)
  have hclasses : heap.classes.map (Class.rename f) = heap.classes.map (Class.rename g) := by
    refine Array.map_congr_left fun cls hmem => ?_
    have hmethods : cls.methods.map (Closure.rename f) = cls.methods.map (Closure.rename g) :=
      NameMap.map_congr fun entry hentry => hclosure entry.2 (h.methods cls hmem entry hentry)
    rw [Class.rename, Class.rename, hmethods]
  rw [Heap.rename, Heap.rename, hfunctions, hclasses]

/-! ## Moves -/

section Moves

variable {p : NodeId → Prop} {state : State}
  (h : state.store.toHeap.All (FunctionDecl.Within p))

include h

theorem Move.regular_value (value : Value) : Move.Regular p .value (.value value state) :=
  ⟨.value, rfl, .nil, h⟩

theorem Move.regular_flow (flow : Flow) : Move.Regular p .flow (.flow flow state) :=
  ⟨.flow, rfl, .nil, h⟩

theorem Move.regular_fault (fault : Fault) (ending : Ending) :
    Move.Regular p ending (.fault fault state) :=
  ⟨ending, trivial, .nil, h⟩

theorem Move.regular_result (result : Except RuntimeError Value) :
    Move.Regular p .value (.result result state) := by
  cases result with
  | ok value => exact regular_value h value
  | error => exact regular_fault h _ _

theorem Move.regular_eval {expr : Expr} (hexpr : ∀ id ∈ expr.ids, p id)
    {push : List (Frame ScopeId)} {ending : Ending} (hpush : Stacked p .value push ending) :
    Move.Regular p ending (.eval expr push state) :=
  ⟨.value, ⟨rfl, hexpr⟩, hpush, h⟩

theorem Move.regular_exec {stmt : Stmt} (hstmt : ∀ id ∈ stmt.ids, p id)
    {push : List (Frame ScopeId)} {ending : Ending} (hpush : Stacked p .flow push ending) :
    Move.Regular p ending (.exec stmt push state) :=
  ⟨.flow, ⟨rfl, hstmt⟩, hpush, h⟩

open Move

theorem writeMove_regular (lines : List String) {outcome : Outcome} {ending : Ending}
    (houtcome : (Control.done outcome).Regular p ending) :
    (writeMove lines outcome state).Regular p ending := by
  unfold writeMove State.writeLines
  obtain ⟨fault?, sink⟩ := state.sink.writeLines lines
  cases fault? with
  | none => exact ⟨ending, houtcome, .nil, h⟩
  | some => exact ⟨ending, trivial, .nil, h⟩

theorem declareMove_regular (name : Token) (binding : Binding) :
    (declareMove name binding state).Regular p .flow := by
  unfold declareMove
  split
  next => exact regular_fault h _ _
  next => exact ⟨.flow, rfl, .nil, h⟩

theorem assignMove_regular (id : NodeId) (name : Token) (value : Value) :
    (assignMove id name value state).Regular p .value := by
  unfold assignMove
  split
  next => exact regular_fault h _ _
  next => exact ⟨.value, rfl, .nil, h⟩

theorem bindMethodValue_regular {method : Closure ScopeId}
    (hmethod : method.declaration.Within p) (receiver : InstanceId) :
    Move.Regular p .value (.value (state.store.bindMethodValue method receiver).1
      { state with store := (state.store.bindMethodValue method receiver).2 }) := by
  have hbound : (state.store.bindMethod method receiver).1.declaration.Within p := hmethod
  exact ⟨.value, rfl, .nil, h.addFunction hbound⟩

theorem getMove_regular (name : Token) (object : Value) :
    (getMove name object state).Regular p .value := by
  unfold getMove
  split
  next =>
    split
    next => exact regular_fault h _ _
    next => exact regular_value h _
    next hmethod => exact bindMethodValue_regular h (h.property? hmethod) _
  next => exact regular_fault h _ _

theorem superMove_regular (id : NodeId) (keyword name : Token) :
    (superMove id keyword name state).Regular p .value := by
  unfold superMove
  split
  next => exact regular_fault h _ _
  next =>
    split
    next => exact regular_fault h _ _
    next =>
      split
      next => exact regular_fault h _ _
      next =>
        split
        next => exact regular_fault h _ _
        next hmethod => exact bindMethodValue_regular h (h.findMethod? hmethod) _
      next => exact regular_fault h _ _
    next => exact regular_fault h _ _

theorem invokeMove_regular (callee : Value) (paren : Token) (arguments : List Value) :
    (invokeMove callee paren arguments state).Regular p .value := by
  unfold invokeMove
  split
  next => exact regular_fault h _ _
  next =>
    split
    next => exact ⟨.value, rfl, .nil, h⟩
    next => exact regular_fault h _ _

theorem enterMove_regular {closure : Closure ScopeId}
    (hclosure : closure.declaration.Within p) (arguments : List Value) :
    (enterMove closure arguments state).Regular p .value := by
  unfold enterMove
  dsimp only
  split
  next => exact regular_fault h _ _
  next =>
    let block : Frame ScopeId := .block closure.declaration.body state.current
    have hblock : ∀ id ∈ block.ids, p id := by
      rw [FunctionDecl.Within, FunctionDecl.ids_eq] at hclosure
      exact hclosure
    have hactivation : ∀ id ∈ (Frame.activation closure).ids, p id := hclosure
    exact ⟨.flow, rfl, Stacked.append (.one rfl rfl hblock) (.one rfl rfl hactivation), h⟩

theorem constructMove_regular (classId : ClassId) (arguments : List Value) :
    (constructMove classId arguments state).Regular p .value := by
  have hadded : (state.store.addInstance classId).2.toHeap.All (FunctionDecl.Within p) :=
    ⟨h.functions, h.methods⟩
  unfold constructMove
  dsimp only
  split
  next => exact ⟨.value, rfl, .nil, hadded⟩
  next method hmethod =>
    let bound := (state.store.addInstance classId).2.bindMethod method
      (state.store.addInstance classId).1
    have hfound : method.declaration.Within p := hadded.findMethod? hmethod
    have hbound : bound.1.declaration.Within p := hfound
    have hstate : ({ state with store := bound.2 } : State).store.toHeap.All _ := hadded
    have henter := enterMove_regular hstate hbound arguments
    obtain ⟨inner, hcontrol, hpush, hheap⟩ := henter
    exact ⟨inner, hcontrol, hpush.append (.one rfl rfl (List.forall_mem_nil _)), hheap⟩

theorem nativeMove_regular (behaviour : NativeBehaviour) (arguments : List Value) :
    (nativeMove behaviour arguments state).Regular p .value := by
  cases behaviour with
  | clock => exact ⟨.value, rfl, .nil, h⟩
  | printLine => exact writeMove_regular h _ rfl
  | first => exact regular_value h _
  | count => exact regular_value h _
  | emit => exact writeMove_regular h _ rfl
  | fail => exact regular_fault h _ _
  | apply =>
      cases arguments with
      | nil => exact regular_fault h _ _
      | cons => exact ⟨.value, rfl, .nil, h⟩

theorem callMove_regular (callee : Value) (arguments : List Value) :
    (callMove callee arguments state).Regular p .value := by
  unfold callMove
  split
  next =>
    split
    next => exact nativeMove_regular h _ arguments
    next => exact regular_fault h _ _
  next =>
    split
    next hclosure =>
      exact enterMove_regular h (h.functions _ (Array.mem_of_getElem? hclosure)) arguments
    next => exact regular_fault h _ _
  next => exact constructMove_regular h _ arguments
  next => exact regular_fault h _ _

theorem classMove_regular (name : Token) (superclass : Option ClassId)
    {methods : List (FunctionDecl Stmt)} (hmethods : ∀ id ∈ FunctionDecl.idsAll methods, p id) :
    (classMove name superclass methods state).Regular p .flow := by
  let scope := classScope superclass { state with
    store := state.store.bind state.current name.lexeme ⟨.nil, true⟩ }
  have hscope : scope.2.toHeap.All (FunctionDecl.Within p) := by cases superclass <;> exact h
  let cls : Class ScopeId := ⟨name.lexeme, superclass, methodTable scope.1 methods⟩
  have hadded : (scope.2.addClass cls).2.toHeap.All (FunctionDecl.Within p) := by
    refine hscope.addClass ?_
    intro entry hentry id hid
    obtain ⟨declaration, hmem, heq⟩ := mem_methodTable hentry
    rw [heq] at hid
    exact hmethods id (FunctionDecl.ids_subset_idsAll hmem hid)
  unfold classMove defineClass
  dsimp only
  split
  next => exact regular_fault h _ _
  next =>
    split
    next => exact ⟨.flow, trivial, .nil, hadded⟩
    next => exact ⟨.flow, rfl, .nil, hadded⟩

/-! ## Expressions and statements -/

theorem evalMove_regular (expr : Expr) (hexpr : ∀ id ∈ expr.ids, p id) :
    (evalMove expr state).Regular p .value := by
  cases expr with
  | literal => exact regular_value h _
  | «variable» | thisExpr => exact regular_result h _
  | superExpr => exact superMove_regular h ..
  | grouping => exact regular_eval h hexpr .nil
  | unary => exact regular_eval h hexpr (.one rfl rfl (List.forall_mem_nil _))
  | get => exact regular_eval h hexpr (.one rfl rfl (List.forall_mem_nil _))
  | binary left operator right =>
      rw [Expr.ids_binary, List.forall_mem_append] at hexpr
      exact regular_eval h hexpr.1 (.one rfl rfl hexpr.2)
  | logical left operator right =>
      rw [Expr.ids_logical, List.forall_mem_append] at hexpr
      exact regular_eval h hexpr.1 (.one rfl rfl hexpr.2)
  | assign id name value =>
      obtain ⟨hid, hvalue⟩ := List.forall_mem_cons.mp hexpr
      exact regular_eval h hvalue (.one rfl rfl (List.forall_mem_singleton.mpr hid))
  | call callee paren arguments =>
      rw [Expr.ids_call, List.forall_mem_append] at hexpr
      exact regular_eval h hexpr.1 (.one rfl rfl hexpr.2)
  | set object name value =>
      rw [Expr.ids_set, List.forall_mem_append] at hexpr
      exact regular_eval h hexpr.1 (.one rfl rfl hexpr.2)

theorem execMove_regular (stmt : Stmt) (hstmt : ∀ id ∈ stmt.ids, p id) :
    (execMove stmt state).Regular p .flow := by
  cases stmt with
  | expression => exact regular_eval h hstmt (.one rfl rfl (List.forall_mem_nil _))
  | print => exact regular_eval h hstmt (.one rfl rfl (List.forall_mem_nil _))
  | letDecl => exact regular_eval h hstmt (.one rfl rfl (List.forall_mem_nil _))
  | varDecl name initializer =>
      cases initializer with
      | none => exact declareMove_regular h name _
      | some => exact regular_eval h hstmt (.one rfl rfl (List.forall_mem_nil _))
  | block body => exact ⟨.flow, rfl, .one rfl rfl hstmt, h⟩
  | ifElse condition thenBranch elseBranch =>
      cases elseBranch with
      | none =>
          rw [Stmt.ids_ifThen, List.forall_mem_append] at hstmt
          refine regular_eval h hstmt.1 (.one rfl rfl ?_)
          simpa [Frame.ids, Stmt.idsAll, Stmt.referencesAll] using hstmt.2
      | some elseBranch =>
          rw [Stmt.ids_ifElse, List.forall_mem_append] at hstmt
          refine regular_eval h hstmt.1 (.one rfl rfl ?_)
          simpa [Frame.ids, Stmt.idsAll, Stmt.referencesAll, Stmt.ids] using hstmt.2
  | whileLoop condition body =>
      rw [Stmt.ids_whileLoop] at hstmt
      exact regular_eval h (List.forall_mem_append.mp hstmt).1 (.one rfl rfl hstmt)
  | function declaration =>
      apply declareMove_regular
      exact h.addFunction hstmt
  | returnStmt keyword value =>
      cases value with
      | none => exact regular_flow h _
      | some => exact regular_eval h hstmt (.one rfl rfl (List.forall_mem_nil _))
  | breakStmt => exact regular_flow h _
  | classDecl name superclass methods =>
      rw [Stmt.ids_classDecl] at hstmt
      cases superclass with
      | none => exact classMove_regular h name none hstmt
      | some superclass =>
          exact regular_eval h (List.forall_mem_append.mp hstmt).1 (.one rfl rfl hstmt)

/-! ## Frames -/

theorem nextArgument_regular (called : Value) (paren : Token) (before : List Value)
    {after : List Expr} (hafter : ∀ id ∈ Expr.idsAll after, p id) :
    (Frame.nextArgument called paren before after state).Regular p .value := by
  cases after with
  | nil => exact invokeMove_regular h ..
  | cons next rest =>
      rw [Expr.idsAll_cons, List.forall_mem_append] at hafter
      exact regular_eval h hafter.1 (.one rfl rfl hafter.2)

theorem onValue_regular {frame : Frame ScopeId} (hframe : ∀ id ∈ frame.ids, p id)
    (hawaits : frame.awaits = .value) (value : Value) :
    (frame.onValue value state).Regular p frame.gives := by
  cases frame with
  | unary => exact regular_result h _
  | binaryLeft => exact regular_eval h hframe (.one rfl rfl (List.forall_mem_nil _))
  | binaryRight => exact regular_result h _
  | logical =>
      simp only [Frame.onValue]
      split
      next => exact regular_value h _
      next => exact regular_eval h hframe .nil
  | assign => exact assignMove_regular h ..
  | callee => exact nextArgument_regular h _ _ _ hframe
  | argument => exact nextArgument_regular h _ _ _ hframe
  | get => exact getMove_regular h ..
  | setObject =>
      cases value with
      | object => exact regular_eval h hframe (.one rfl rfl (List.forall_mem_nil _))
      | nil | bool | number | string | native | function | cls => exact regular_fault h _ _
  | setValue => exact ⟨.value, rfl, .nil, h.functions, h.methods⟩
  | discard => exact regular_flow h _
  | print => exact writeMove_regular h _ rfl
  | declare => exact declareMove_regular h ..
  | returning => exact regular_flow h _
  | branch thenBranch elseBranch =>
      obtain ⟨hthen, helse⟩ := List.forall_mem_append.mp hframe
      simp only [Frame.onValue]
      split
      next => exact regular_exec h hthen .nil
      next =>
        cases elseBranch with
        | none => exact regular_flow h _
        | some elseBranch =>
            rw [Option.toList_some, Stmt.idsAll_cons, List.forall_mem_append] at helse
            exact regular_exec h helse.1 .nil
  | whileTest =>
      simp only [Frame.onValue]
      split
      next => exact regular_exec h (List.forall_mem_append.mp hframe).2 (.one rfl rfl hframe)
      next => exact regular_flow h _
  | superclass =>
      cases value with
      | cls => exact classMove_regular h _ _ (List.forall_mem_append.mp hframe).2
      | nil | bool | number | string | native | function | object => exact regular_fault h _ _
  | construct => exact regular_value h _
  | block | whileBody | activation | program => cases hawaits

theorem onFlow_regular {frame : Frame ScopeId} (hframe : ∀ id ∈ frame.ids, p id)
    (hawaits : frame.awaits = .flow) (flow : Flow) :
    (frame.onFlow flow state).Regular p frame.gives := by
  cases frame with
  | whileBody =>
      cases flow with
      | normal => exact regular_eval h (List.forall_mem_append.mp hframe).1 (.one rfl rfl hframe)
      | broke => exact regular_flow h _
      | returned => exact regular_flow h _
  | block rest outer =>
      cases flow with
      | normal =>
          cases rest with
          | nil => exact ⟨.flow, rfl, .nil, h⟩
          | cons stmt rest =>
              rw [Frame.ids, Stmt.idsAll_cons, List.forall_mem_append] at hframe
              exact regular_exec h hframe.1 (.one rfl rfl hframe.2)
      | returned | broke => cases rest <;> exact ⟨.flow, rfl, .nil, h⟩
  | activation =>
      simp only [Frame.onFlow]
      split
      next => exact regular_result h _
      next => cases flow <;> exact regular_value h _
  | program rest =>
      cases rest with
      | nil => exact regular_flow h _
      | cons stmt rest =>
          rw [Frame.ids, Stmt.idsAll_cons, List.forall_mem_append] at hframe
          exact regular_exec h hframe.1 (.one rfl rfl hframe.2)
  | _ => cases hawaits

theorem resume_regular {frame : Frame ScopeId} (hframe : ∀ id ∈ frame.ids, p id)
    {outcome : Outcome} (houtcome : (Control.done outcome).Regular p frame.awaits) :
    (frame.resume outcome state).Regular p frame.gives := by
  cases outcome with
  | value value => exact onValue_regular h hframe houtcome value
  | flow flow => exact onFlow_regular h hframe houtcome flow
  | fault fault =>
      refine ⟨frame.gives, trivial, .nil, ?_⟩
      cases frame <;> exact h

end Moves

/-! ## Runs -/

variable {p : NodeId → Prop} {ending : Ending}

theorem Move.Regular.onto {move : Move} {middle : Ending} (h : move.Regular p middle)
    {frames : List (Frame ScopeId)} (hframes : Stacked p middle frames ending) :
    Config.Regular p ending (move.onto frames) := by
  obtain ⟨inner, hcontrol, hpush, hheap⟩ := h
  exact ⟨inner, hcontrol, hpush.append hframes, hheap⟩

theorem Config.Regular.step {config : Config} (h : config.Regular p ending) :
    (step config).Regular p ending := by
  obtain ⟨control, frames, state⟩ := config
  obtain ⟨inner, hcontrol, hframes, hheap⟩ := h
  cases control with
  | eval expr =>
      obtain ⟨rfl, hexpr⟩ := hcontrol
      exact (evalMove_regular hheap expr hexpr).onto hframes
  | exec stmt =>
      obtain ⟨rfl, hstmt⟩ := hcontrol
      exact (execMove_regular hheap stmt hstmt).onto hframes
  | call callee arguments =>
      obtain rfl : inner = .value := hcontrol
      exact (callMove_regular hheap callee arguments).onto hframes
  | done outcome =>
      cases hframes with
      | nil => exact ⟨_, hcontrol, .nil, hheap⟩
      | cons hids hrest => exact (resume_regular hheap hids hcontrol).onto hrest

/-- A run comes to no other nodes, and ends as it should. -/
theorem Config.Regular.run {config : Config} (h : config.Regular p ending) (fuel : Nat) :
    (run fuel config).Regular p ending := by
  induction fuel generalizing config with
  | zero => exact h
  | succ fuel ih =>
      rw [ScopeScript.run]
      split
      next => exact h
      next => exact ih h.step

end ScopeScript
