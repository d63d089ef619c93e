import ScopeScript.Proofs.Execution.Moves
import ScopeScript.Proofs.Execution.Origins
import ScopeScript.Proofs.Execution.Signals
import ScopeScript.Proofs.Parsing.Rule
import ScopeScript.Proofs.Session.ObjectGraph

/-!
# Declaring a class

A class is declared in four steps: the superclass is looked up, the name is bound to nothing yet, a
scope for `super` and the class are made, and the class is assigned to the name. Only the first two
can fail, and until then nothing has been changed. So a class is declared as a whole or not at all,
wherever an interpreter comes to its declaration.
-/

namespace ScopeScript

/-! ## What the grammar gives -/

/-- The declaration of a class as it is written: the superclass is a name, if there is one. -/
def Stmt.ofClass (name : Token) (superclass : Option (NodeId × Token))
    (methods : List (FunctionDecl Stmt)) : Stmt :=
  .classDecl name (superclass.map fun use => .variable use.1 use.2) methods

theorem superclassClause_ok {c c' : Cursor} {superclass : Option Expr}
    (h : superclassClause c = .ok superclass c') :
    ∃ use : Option (NodeId × Token), superclass = use.map fun use => .variable use.1 use.2 := by
  obtain ⟨accepted, d, -, h⟩ := Rule.bind_ok.mp h
  split at h
  next =>
    obtain ⟨superName, e, -, h⟩ := Rule.bind_ok.mp h
    obtain ⟨id, e', -, h⟩ := Rule.bind_ok.mp h
    obtain ⟨rfl, -⟩ := Rule.pure_ok.mp h
    exact ⟨some (id, superName), rfl⟩
  next =>
    obtain ⟨rfl, -⟩ := Rule.pure_ok.mp h
    exact ⟨none, rfl⟩

theorem classRest_ok {fuel : Nat} {c c' : Cursor} {stmt : Stmt}
    (h : classRest fuel c = .ok stmt c') :
    ∃ name superclass methods, stmt = .ofClass name superclass methods := by
  cases fuel with
  | zero => cases h
  | succ fuel =>
      rw [classRest] at h
      obtain ⟨name, d, -, h⟩ := Rule.bind_ok.mp h
      obtain ⟨superclass, e, hclause, h⟩ := Rule.bind_ok.mp h
      obtain ⟨_, e₁, -, h⟩ := Rule.bind_ok.mp h
      obtain ⟨methods, e₂, -, h⟩ := Rule.bind_ok.mp h
      obtain ⟨_, e₃, -, h⟩ := Rule.bind_ok.mp h
      obtain ⟨rfl, -⟩ := Rule.pure_ok.mp h
      obtain ⟨use, rfl⟩ := superclassClause_ok hclause
      exact ⟨name, use, methods, rfl⟩

/-! ## Declarations -/

/-- Why a class cannot be declared: its superclass is undefined or is no class, or its name is
declared in the current scope. -/
inductive State.RefusesClass (state : State) (name : Token) :
    Option (NodeId × Token) → RuntimeError → Prop
  | undefined {id : NodeId} {superName : Token} :
      state.lookUp id superName = .error ⟨superName, .undefinedVariable superName.lexeme⟩ →
      RefusesClass state name (some (id, superName))
        ⟨superName, .undefinedVariable superName.lexeme⟩
  | notClass {id : NodeId} {superName : Token} {value : Value} :
      state.lookUp id superName = .ok value → (∀ id, value ≠ .cls id) →
      RefusesClass state name (some (id, superName)) ⟨superName, .superclassNotClass⟩
  | declared {superclass : Option (NodeId × Token)} {binding : Binding} :
      state.store.binding? state.current name.lexeme = some binding →
      RefusesClass state name superclass ⟨name, .alreadyDeclared name.lexeme⟩

/-- The class that a name stands for, if the declaration of a class names one. -/
def State.FindsClass (state : State) : Option (NodeId × Token) → Option ClassId → Prop
  | none, found => found = none
  | some (id, superName), found =>
    ∃ superclass, state.lookUp id superName = .ok (.cls superclass) ∧ found = some superclass

/-- The scope in which the methods of a class are declared: the current one or, where there is a
superclass, a new one inside it that binds nothing but `super`. -/
structure State.MethodScope (state last : State) (superclass : Option ClassId) (scope : ScopeId) :
    Prop where
  current : superclass = none → scope = state.current
    ∧ last.store.scopes.size = state.store.scopes.size
  inside : ∀ above, superclass = some above → scope = state.store.scopes.size
    ∧ last.store.scopes.size = state.store.scopes.size + 1
    ∧ last.store.outer? scope = some state.current
    ∧ ∀ asked, last.store.binding? scope asked =
      if asked = "super" then some ⟨.cls above, true⟩ else none

/-- The only difference between two states is that a class has been declared: it is new, has the
methods that are given, of each name the last, and is bound in the current scope to a name that was
not bound there before. -/
structure State.DeclaresClass (state last : State) (name : Token) (superclass : Option ClassId)
    (methods : List (FunctionDecl Stmt)) : Prop where
  free : state.store.binding? state.current name.lexeme = none
  bindings : ∀ id < state.store.scopes.size, ∀ asked, last.store.binding? id asked =
    if id = state.current ∧ asked = name.lexeme then some ⟨.cls state.store.classes.size, true⟩
    else state.store.binding? id asked
  parents : ∀ id < state.store.scopes.size, last.store.outer? id = state.store.outer? id
  classes : ∃ scope table, state.MethodScope last superclass scope
    ∧ last.store.classes = state.store.classes.push ⟨name.lexeme, superclass, table⟩
    ∧ ∀ asked, table.find? asked = (FunctionDecl.last? methods asked).map fun declaration =>
      ⟨declaration, scope, declaration.isInitializer⟩
  functions : last.store.functions = state.store.functions
  instances : last.store.instances = state.store.instances
  natives : last.store.natives = state.store.natives
  surroundings : last.current = state.current ∧ last.globals = state.globals
    ∧ last.locals = state.locals
  sink : last.sink = state.sink
  clock : last.clock = state.clock

section Declarations

variable {state : State} {name : Token}

/-- The work of a move ends at once, with an outcome, in a state. -/
def Move.Gives (move : Move) (outcome : Outcome) (last : State) : Prop :=
  move = ⟨.done outcome, [], last⟩

theorem classScope_outer? (superclass : Option ClassId) {id : ScopeId}
    (hid : id < state.store.scopes.size) :
    (classScope superclass state).2.outer? id = state.store.outer? id := by
  cases superclass with
  | none => rfl
  | some superclass =>
      rw [Store.outer?, classScope, Store.scope_addScope, if_neg (Nat.ne_of_lt hid)]
      rfl

theorem classScope_toHeap (superclass : Option ClassId) :
    (classScope superclass state).2.toHeap = state.store.toHeap := by
  cases superclass <;> rfl

theorem classScope_extends (superclass : Option ClassId) :
    state.store.Extends (classScope superclass state).2 := by
  cases superclass with
  | none => exact .refl _
  | some superclass => exact .addScope _ _

/-- The state in which a class has been assigned to its name, which had been declared. -/
def State.withClass (state : State) (name : Token) (superclass : Option ClassId)
    (methods : List (FunctionDecl Stmt)) : State :=
  let (scope, store) := classScope superclass state
  let (id, store) := store.addClass ⟨name.lexeme, superclass, methodTable scope methods⟩
  { state with store := store.put state.current name (.cls id) }

theorem State.withClass_binding? (name : Token) (superclass : Option ClassId)
    (methods : List (FunctionDecl Stmt)) (hcurrent : state.current < state.store.scopes.size)
    {id : ScopeId} (hid : id < state.store.scopes.size) (asked : String) :
    (state.withClass name superclass methods).store.binding? id asked =
      if id = state.current ∧ asked = name.lexeme then some ⟨.cls state.store.classes.size, true⟩
      else state.store.binding? id asked := by
  have hinside := Nat.lt_of_lt_of_le hcurrent (classScope_extends superclass).scopes
  have hclass : (classScope superclass state).2.classes.size = state.store.classes.size := by
    rw [classScope_toHeap]
  rw [← classScope_binding? superclass hid asked, ← hclass]
  exact Store.binding?_bind hinside asked

theorem State.withClass_outer? (name : Token) (superclass : Option ClassId)
    (methods : List (FunctionDecl Stmt)) {id : ScopeId} (hid : id < state.store.scopes.size) :
    (state.withClass name superclass methods).store.outer? id = state.store.outer? id := by
  have hput : (state.withClass name superclass methods).store.outer? id =
      (classScope superclass state).2.outer? id :=
    Store.parent_bind
  rw [hput, classScope_outer? superclass hid]

theorem State.withClass_methodScope (name : Token) (superclass : Option ClassId)
    (methods : List (FunctionDecl Stmt)) (hcurrent : state.current < state.store.scopes.size) :
    state.MethodScope (state.withClass name superclass methods) superclass
      (classScope superclass state).1 where
  current := by
    rintro rfl
    exact ⟨rfl, Array.size_modify⟩
  inside := by
    rintro above rfl
    have hsize : (classScope (some above) state).2.scopes.size = state.store.scopes.size + 1 :=
      Array.size_push _
    have hnew : (classScope (some above) state).2.scope state.store.scopes.size =
        (Scope.empty (some state.current)).bind "super" ⟨.cls above, true⟩ := by
      rw [classScope, Store.scope_addScope, if_pos rfl]
    have hbinding : ∀ asked,
        (classScope (some above) state).2.binding? state.store.scopes.size asked =
          if asked = "super" then some ⟨.cls above, true⟩ else none := fun asked => by
      rw [Store.binding?, hnew]
      exact NameMap.find?_insert ..
    refine ⟨rfl, Array.size_modify.trans hsize, ?_, fun asked => ?_⟩
    · exact Store.parent_bind.trans (congrArg Scope.parent hnew)
    · -- The new scope is not the one in which the name is bound.
      refine (Store.binding?_bind (hsize ▸ Nat.lt_succ_of_lt hcurrent) asked).trans ?_
      rw [if_neg fun heq => Nat.ne_of_gt hcurrent heq.1]
      exact hbinding asked

theorem State.withClass_classes (name : Token) (superclass : Option ClassId)
    (methods : List (FunctionDecl Stmt)) :
    (state.withClass name superclass methods).store.classes = state.store.classes.push
      ⟨name.lexeme, superclass, methodTable (classScope superclass state).1 methods⟩ := by
  cases superclass <;> rfl

/-- The state in which a name has been declared and has no value yet. -/
def State.withName (state : State) (name : Token) : State :=
  { state with store := state.store.bind state.current name.lexeme ⟨.nil, true⟩ }

theorem State.withName_size (name : Token) :
    (state.withName name).store.scopes.size = state.store.scopes.size :=
  Array.size_modify

theorem State.withName_binding? (name : Token) (hcurrent : state.current < state.store.scopes.size)
    (id : ScopeId) (asked : String) :
    (state.withName name).store.binding? id asked =
      if id = state.current ∧ asked = name.lexeme then some ⟨.nil, true⟩
      else state.store.binding? id asked :=
  Store.binding?_bind hcurrent asked

/-- Nothing of the name's first value is left when the class has been assigned to it. -/
theorem State.declaresClass_withClass (superclass : Option ClassId)
    (methods : List (FunctionDecl Stmt)) (hcurrent : state.current < state.store.scopes.size)
    (hfree : state.store.binding? state.current name.lexeme = none) :
    state.DeclaresClass ((state.withName name).withClass name superclass methods) name superclass
      methods := by
  have hsize := state.withName_size name
  have hinside : (state.withName name).current < (state.withName name).store.scopes.size :=
    hsize ▸ hcurrent
  have hscope : state.MethodScope ((state.withName name).withClass name superclass methods)
      superclass (classScope superclass (state.withName name)).1 := by
    obtain ⟨hnone, hsome⟩ := State.withClass_methodScope name superclass methods hinside
    rw [hsize] at hnone hsome
    exact ⟨hnone, hsome⟩
  exact {
    free := hfree
    bindings := fun id hid asked => by
      rw [withClass_binding? name superclass methods hinside (hsize ▸ hid),
        withName_binding? name hcurrent]
      by_cases hname : id = state.current ∧ asked = name.lexeme
      · exact (if_pos hname).trans (if_pos hname).symm
      · exact (if_neg hname).trans ((if_neg hname).trans (if_neg hname).symm)
    parents := fun id hid =>
      (withClass_outer? name superclass methods (hsize ▸ hid)).trans Store.parent_bind
    classes := ⟨_, _, hscope, withClass_classes name superclass methods,
      find?_methodTable_eq _ methods⟩
    functions := by cases superclass <;> rfl
    instances := by cases superclass <;> rfl
    natives := by cases superclass <;> rfl
    surroundings := ⟨rfl, rfl, rfl⟩
    sink := rfl
    clock := rfl }

/-- Once the superclass is known, a class is declared as a whole or not at all. -/
theorem classMove_gives {superclass : Option ClassId} {methods : List (FunctionDecl Stmt)}
    (hcurrent : state.current < state.store.scopes.size) :
    (∃ binding, state.store.binding? state.current name.lexeme = some binding
      ∧ (classMove name superclass methods state).Gives
        (.fault (.runtime ⟨name, .alreadyDeclared name.lexeme⟩)) state)
    ∨ ∃ last, (classMove name superclass methods state).Gives (.flow .normal) last
      ∧ state.DeclaresClass last name superclass methods := by
  cases hbound : state.store.binding? state.current name.lexeme with
  | some binding =>
      refine .inl ⟨binding, rfl, ?_⟩
      simp [Move.Gives, classMove, Store.checkDeclare, hbound, MoveOf.fault]
  | none =>
      refine .inr ⟨_, ?_, state.declaresClass_withClass superclass methods hcurrent hbound⟩
      have hcheck : state.store.checkDeclare state.current name = none := by
        simp [Store.checkDeclare, hbound]
      have hinside : (state.withName name).current < (state.withName name).store.scopes.size :=
        (state.withName_size name).symm ▸ hcurrent
      -- The class is assigned where its name has just been declared, so this cannot fail.
      have hname : (state.withName name).store.binding? (state.withName name).current name.lexeme =
          some ⟨.nil, true⟩ := by
        rw [State.withName_binding? name hcurrent]
        exact if_pos ⟨rfl, rfl⟩
      rw [Move.Gives, classMove, hcheck]
      exact defineClass_eq hinside hname

/-! ## Running a declaration -/

variable {frames : List (Frame ScopeId)}

theorem Move.Gives.finishes {move : Move} {outcome : Outcome} {last : State}
    (h : move.Gives outcome last) : Finishes frames (move.onto frames) outcome last := by
  obtain rfl : move = _ := h
  exact .rest

/-- A declaration that names a superclass looks it up and goes on with what comes of it. -/
theorem finishes_superclass {id : NodeId} {superName : Token} {methods : List (FunctionDecl Stmt)}
    {found outcome : Outcome} {last : State}
    (hfound : (evalMove (.variable id superName) state).Gives found state)
    (h : Finishes frames (((Frame.superclass name (.variable id superName) methods).resume found
      state).onto frames) outcome last) :
    Finishes frames ⟨.exec (.ofClass name (some (id, superName)) methods), frames, state⟩
      outcome last := by
  obtain hfound : evalMove (.variable id superName) state = _ := hfound
  refine .step (by rintro ⟨_, _, heq⟩; cases heq) (.step (by rintro ⟨_, _, heq⟩; cases heq) ?_)
  have hlooked : step ⟨.eval (.variable id superName),
      .superclass name (.variable id superName) methods :: frames, state⟩ =
        ⟨.done found, .superclass name (.variable id superName) methods :: frames, state⟩ := by
    rw [step, hfound]
    rfl
  refine hlooked ▸ Finishes.step ?_ h
  rintro ⟨_, _, heq⟩
  exact List.cons_ne_self _ _ (congrArg ConfigOf.frames heq)

/-- A class declaration comes to an end: it is refused and has changed nothing, or the class has
been declared. -/
theorem finishes_ofClass {superclass : Option (NodeId × Token)}
    {methods : List (FunctionDecl Stmt)} (hcurrent : state.current < state.store.scopes.size) :
    ∃ outcome last,
      Finishes frames ⟨.exec (.ofClass name superclass methods), frames, state⟩ outcome last
      ∧ ((∃ error, outcome = .fault (.runtime error) ∧ last = state
          ∧ state.RefusesClass name superclass error)
        ∨ outcome = .flow .normal ∧ ∃ found, state.FindsClass superclass found
          ∧ state.DeclaresClass last name found methods) := by
  rcases superclass with _ | ⟨id, superName⟩
  · -- Without a superclass, the statement is a single step.
    have hstep : ∀ {outcome last}, (classMove name none methods state).Gives outcome last →
        Finishes frames ⟨.exec (.ofClass name none methods), frames, state⟩ outcome last :=
      fun hgives => .step (by rintro ⟨_, _, heq⟩; cases heq) hgives.finishes
    rcases classMove_gives hcurrent with ⟨binding, hbinding, hgives⟩ | ⟨last, hgives, hdeclares⟩
    · exact ⟨_, _, hstep hgives, .inl ⟨_, rfl, rfl, .declared hbinding⟩⟩
    · exact ⟨_, _, hstep hgives, .inr ⟨rfl, none, rfl, hdeclares⟩⟩
  · cases hlookUp : state.lookUp id superName with
    | error error =>
        obtain rfl := State.lookUp_error hlookUp
        have hfound : (evalMove (.variable id superName) state).Gives (.fault (.runtime _)) state :=
          congrArg (MoveOf.result · state) hlookUp
        exact ⟨_, _, finishes_superclass hfound .rest, .inl ⟨_, rfl, rfl, .undefined hlookUp⟩⟩
    | ok value =>
        have hfound : (evalMove (.variable id superName) state).Gives (.value value) state :=
          congrArg (MoveOf.result · state) hlookUp
        cases value with
        | cls above =>
            have hstep : ∀ {outcome last},
                (classMove name (some above) methods state).Gives outcome last →
                Finishes frames
                  ⟨.exec (.ofClass name (some (id, superName)) methods), frames, state⟩ outcome
                  last :=
              fun hgives => finishes_superclass hfound hgives.finishes
            rcases classMove_gives hcurrent with
              ⟨binding, hbinding, hgives⟩ | ⟨last, hgives, hdeclares⟩
            · exact ⟨_, _, hstep hgives, .inl ⟨_, rfl, rfl, .declared hbinding⟩⟩
            · exact ⟨_, _, hstep hgives, .inr ⟨rfl, some above, ⟨above, hlookUp, rfl⟩, hdeclares⟩⟩
        | nil | bool | number | string | native | function | object =>
            exact ⟨_, _, finishes_superclass hfound .rest,
              .inl ⟨_, rfl, rfl, .notClass hlookUp (by simp)⟩⟩

end Declarations

/-- Wherever an interpreter comes to a class statement that the parser has built, the statement
ends. Either it is refused, because the superclass is undefined or is no class or because the name
is declared in the current scope, and the state is what it was; or it ends normally, and the only
difference is that the current scope binds the name, which was new there, to a new class with the
superclass that was found and the methods that were declared. -/
theorem class_declared_or_refused {config : Config} (hconfig : Driven config) {fuel : Nat}
    {c c' : Cursor} {stmt : Stmt} (hread : classRest fuel c = .ok stmt c')
    (frames : List (Frame ScopeId)) :
    ∃ name superclass methods, stmt = .ofClass name superclass methods
      ∧ ∃ outcome last, Finishes frames ⟨.exec stmt, frames, config.state⟩ outcome last
      ∧ ((∃ error, outcome = .fault (.runtime error) ∧ last = config.state
          ∧ config.state.RefusesClass name superclass error)
        ∨ outcome = .flow .normal ∧ ∃ found, config.state.FindsClass superclass found
          ∧ config.state.DeclaresClass last name found methods) := by
  obtain ⟨name, superclass, methods, rfl⟩ := classRest_ok hread
  exact ⟨name, superclass, methods, rfl, finishes_ofClass hconfig.grounded.state.current⟩

/-- The tokens of `B < A {}`, behind the keyword of a class statement. -/
def classBelow : List Token :=
  [⟨.identifier, "B", 2⟩, ⟨.punct .less, "<", 2⟩, ⟨.identifier, "A", 2⟩,
    ⟨.punct .leftBrace, "\x7b", 2⟩, ⟨.punct .rightBrace, "\x7d", 2⟩, ⟨.eof, "", 2⟩]

/-- After a class has been declared, another one is declared below it. -/
theorem class_declared_below :
    let config := (Point.inSource {} ⟨fun _ => 0, 0⟩ "class A {}" 10).config
    let name : Token := ⟨.identifier, "B", 2⟩
    let superName : Token := ⟨.identifier, "A", 2⟩
    let stmt := Stmt.ofClass name (some (0, superName)) []
    Driven config
      ∧ (∃ c', classRest 9 (.start classBelow 0) = .ok stmt c')
      ∧ ∃ last, Finishes [] ⟨.exec stmt, [], config.state⟩ (.flow .normal) last
        ∧ config.state.DeclaresClass last name (some 0) []
        ∧ last.store.binding? config.state.current "B" = some ⟨.cls 1, true⟩ := by
  intro config name superName stmt
  have hdriven : Driven config := (Point.inSource_occurs _ _ _ _).driven
  have hread : ∃ c', classRest 9 (.start classBelow 0) = .ok stmt c' := ⟨_, rfl⟩
  have hseen : (config.state.lookUp 0 superName).toOption.any (· == .cls 0) = true := by
    decide +kernel
  have hfree : (config.state.store.binding? config.state.current "B").isNone = true := by
    decide +kernel
  have hclasses : config.state.store.classes.size = 1 := by decide +kernel
  have hlookUp : config.state.lookUp 0 superName = .ok (.cls 0) := by
    cases hvalue : config.state.lookUp 0 superName with
    | error => rw [hvalue] at hseen; cases hseen
    | ok value =>
        rw [hvalue] at hseen
        exact congrArg _ (Value.eq_of_beq hseen (by simp))
  have hinside := hdriven.grounded.state.current
  obtain ⟨c', hok⟩ := hread
  obtain ⟨_, superclass, _, hstmt, outcome, last, hfinishes, hdone⟩ :=
    class_declared_or_refused hdriven hok []
  clear_value config
  obtain ⟨rfl, hsuperclass, rfl⟩ := Stmt.classDecl.inj hstmt
  rcases superclass with _ | ⟨id, found⟩
  · cases hsuperclass
  obtain ⟨rfl, rfl⟩ := Expr.variable.inj (Option.some.inj hsuperclass)
  rcases hdone with ⟨error, -, -, hrefuses⟩ | ⟨rfl, found, ⟨above, habove, rfl⟩, hdeclares⟩
  · -- The superclass is there and the name is new, so that nothing stands in the way.
    cases hrefuses with
    | undefined hundefined => cases hlookUp.symm.trans hundefined
    | notClass hfound hne =>
        cases hlookUp.symm.trans hfound
        exact absurd rfl (hne 0)
    | declared hbinding =>
        rw [show name.lexeme = "B" from rfl] at hbinding
        rw [hbinding] at hfree
        cases hfree
  · cases hlookUp.symm.trans habove
    refine ⟨hdriven, ⟨c', hok⟩, last, hfinishes, hdeclares, ?_⟩
    rw [hdeclares.bindings _ hinside, if_pos ⟨rfl, rfl⟩, hclasses]

end ScopeScript
