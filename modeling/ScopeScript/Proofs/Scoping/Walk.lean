import ScopeScript.Binding.Resolve
import ScopeScript.Proofs.Scoping.Context

/-!
# What the walk over a program leaves alone

Whatever it finds, the walk never takes back an error and never changes the record of a node that is
not in the part it walks over. An expression leaves the scopes as they are, and every part returns
to the class around it.
-/

namespace ScopeScript.Resolver

/-- A part of the walk takes back no error and changes at most the records of some nodes. -/
structure Walk (r r' : Resolver) (ids : List NodeId) : Prop where
  errors : r'.errors = [] → r.errors = []
  locals : ∀ id, id ∉ ids → r'.locals[id]? = r.locals[id]?

namespace Walk

variable {r r' r'' : Resolver} {a b : List NodeId}

theorem refl (r : Resolver) (ids : List NodeId) : Walk r r ids :=
  ⟨fun h => h, fun _ _ => rfl⟩

theorem trans (ha : Walk r r' a) (hb : Walk r' r'' b) : Walk r r'' (a ++ b) := by
  refine ⟨fun h => ha.errors (hb.errors h), ?_⟩
  intro id hid
  rw [List.mem_append, not_or] at hid
  rw [hb.locals id hid.2, ha.locals id hid.1]

theorem trans_comm (hb : Walk r r' b) (ha : Walk r' r'' a) : Walk r r'' (a ++ b) := by
  refine ⟨fun h => hb.errors (ha.errors h), ?_⟩
  intro id hid
  rw [List.mem_append, not_or] at hid
  rw [ha.locals id hid.1, hb.locals id hid.2]

/-- A step that records nothing may come first. -/
theorem after (ha : Walk r r' []) (hb : Walk r' r'' b) : Walk r r'' b :=
  ha.trans hb

/-- A step that records nothing may come last. -/
theorem andThen (ha : Walk r r' a) (hb : Walk r' r'' []) : Walk r r'' a := by
  simpa using ha.trans hb

end Walk

theorem error_walk (r : Resolver) (token : Token) (cause : ScopeCause) (ids : List NodeId) :
    Walk r (r.error token cause) ids :=
  ⟨by simp [error], fun _ _ => rfl⟩

theorem bind_walk (r : Resolver) (id : NodeId) (name : Token) : Walk r (r.bind id name) [id] := by
  unfold bind
  split
  next =>
    refine ⟨fun h => h, ?_⟩
    intro other hother
    have hne : id ≠ other := fun h => hother (by simp [h])
    simp [Std.ExtTreeMap.getElem?_insert, hne]
  next => exact .refl r _

theorem receiver_walk (r : Resolver) (id : NodeId) (keyword : Token) :
    Walk r (r.receiver id keyword) [id] := by
  unfold receiver
  split
  next => exact error_walk ..
  next => exact bind_walk ..

theorem inherited_walk (r : Resolver) (id : NodeId) (keyword : Token) :
    Walk r (r.inherited id keyword) [id] := by
  unfold inherited
  split
  next => exact error_walk ..
  next => exact error_walk ..
  next => exact bind_walk ..

theorem read_walk (r : Resolver) (id : NodeId) (name : Token) : Walk r (r.read id name) [id] := by
  unfold read
  split
  next =>
    have hwarn : Walk r (r.warn name .ownInitializer) [] := ⟨fun h => h, fun _ _ => rfl⟩
    exact hwarn.after (bind_walk ..)
  next => exact bind_walk ..

mutual
theorem expression_walk : ∀ (e : Expr) (r : Resolver), Walk r (r.expression e) e.ids
  | .literal _, r => .refl r _
  | .grouping inner, r => expression_walk inner r
  | .unary _ right, r => expression_walk right r
  | .binary left _ right, r => by
      rw [Expr.ids_binary]
      exact (expression_walk left r).trans (expression_walk right _)
  | .logical left _ right, r => by
      rw [Expr.ids_logical]
      exact (expression_walk left r).trans (expression_walk right _)
  | .variable id name, r => read_walk r id name
  | .assign id name value, r =>
      (expression_walk value r).trans_comm (bind_walk (r.expression value) id name)
  | .call callee _ arguments, r => by
      rw [Expr.ids_call]
      exact (expression_walk callee r).trans (expressions_walk arguments _)
  | .get object _, r => expression_walk object r
  | .set object _ value, r => by
      rw [Expr.ids_set]
      exact (expression_walk value r).trans_comm (expression_walk object _)
  | .thisExpr id keyword, r => receiver_walk r id keyword
  | .superExpr id keyword _, r => inherited_walk r id keyword

theorem expressions_walk : ∀ (list : List Expr) (r : Resolver),
    Walk r (r.expressions list) (Expr.idsAll list)
  | [], r => .refl r _
  | e :: rest, r => by
      rw [Expr.idsAll_cons]
      exact (expression_walk e r).trans (expressions_walk rest _)
end

theorem expression?_walk (r : Resolver) (e : Option Expr) :
    Walk r (r.expression? e) (Expr.idsOption e) := by
  cases e with
  | none => exact .refl r _
  | some e => exact expression_walk e r

/-! ## Scopes and the class around an expression -/

/-- The scopes and the class around two moments of the walk are the same. -/
structure Same (r r' : Resolver) : Prop where
  scopes : r'.scopes = r.scopes
  enclosingClass : r'.enclosingClass = r.enclosingClass

theorem Same.refl (r : Resolver) : Same r r :=
  ⟨rfl, rfl⟩

theorem Same.trans {r r' r'' : Resolver} (h : Same r r') (h' : Same r' r'') : Same r r'' :=
  ⟨h'.scopes.trans h.scopes, h'.enclosingClass.trans h.enclosingClass⟩

theorem bind_same (r : Resolver) (id : NodeId) (name : Token) : Same r (r.bind id name) := by
  unfold bind
  split <;> exact ⟨rfl, rfl⟩

theorem receiver_same (r : Resolver) (id : NodeId) (keyword : Token) :
    Same r (r.receiver id keyword) := by
  unfold receiver
  split
  next => exact ⟨rfl, rfl⟩
  next => exact bind_same ..

theorem inherited_same (r : Resolver) (id : NodeId) (keyword : Token) :
    Same r (r.inherited id keyword) := by
  unfold inherited
  split
  next => exact ⟨rfl, rfl⟩
  next => exact ⟨rfl, rfl⟩
  next => exact bind_same ..

theorem read_same (r : Resolver) (id : NodeId) (name : Token) : Same r (r.read id name) := by
  unfold read
  split
  next =>
    have hwarn : Same r (r.warn name .ownInitializer) := ⟨rfl, rfl⟩
    exact hwarn.trans (bind_same ..)
  next => exact bind_same ..

mutual
theorem expression_same : ∀ (e : Expr) (r : Resolver), Same r (r.expression e)
  | .literal _, r => .refl r
  | .grouping inner, r => expression_same inner r
  | .unary _ right, r => expression_same right r
  | .binary left _ right, r => (expression_same left r).trans (expression_same right _)
  | .logical left _ right, r => (expression_same left r).trans (expression_same right _)
  | .variable id name, r => read_same r id name
  | .assign id name value, r => (expression_same value r).trans (bind_same _ id name)
  | .call callee _ arguments, r => (expression_same callee r).trans (expressions_same arguments _)
  | .get object _, r => expression_same object r
  | .set object _ value, r => (expression_same value r).trans (expression_same object _)
  | .thisExpr id keyword, r => receiver_same r id keyword
  | .superExpr id keyword _, r => inherited_same r id keyword

theorem expressions_same : ∀ (list : List Expr) (r : Resolver), Same r (r.expressions list)
  | [], r => .refl r
  | e :: rest, r => (expression_same e r).trans (expressions_same rest _)
end

theorem expression?_same (r : Resolver) (e : Option Expr) : Same r (r.expression? e) := by
  cases e with
  | none => exact .refl r
  | some e => exact expression_same e r

/-! ## Statements -/

theorem declare_walk (r : Resolver) (name : Token) (ids : List NodeId) :
    Walk r (r.declare name) ids := by
  unfold declare
  split
  next => exact .refl r _
  next =>
    split
    next => exact error_walk ..
    next => exact ⟨fun h => h, fun _ _ => rfl⟩

theorem define_walk (r : Resolver) (name : String) (ids : List NodeId) :
    Walk r (r.define name) ids := by
  unfold define
  split
  next => exact .refl r _
  next => exact ⟨fun h => h, fun _ _ => rfl⟩

theorem introduce_walk (r : Resolver) (name : Token) (ids : List NodeId) :
    Walk r (r.introduce name) ids :=
  .after (declare_walk r name []) (define_walk _ _ ids)

theorem introduceAll_walk (params : List Token) (r : Resolver) (ids : List NodeId) :
    Walk r (params.foldl introduce r) ids := by
  induction params generalizing r with
  | nil => exact .refl r ids
  | cons param rest ih => exact .after (introduce_walk r param []) (ih (r.introduce param))

theorem checkReturn_walk (r : Resolver) (keyword : Token) (hasValue : Bool) (ids : List NodeId) :
    Walk r (r.checkReturn keyword hasValue) ids := by
  unfold checkReturn
  dsimp only
  split
  next =>
    refine .after (error_walk r keyword .returnAtTopLevel []) ?_
    split
    next => exact error_walk ..
    next => exact .refl _ _
  next =>
    split
    next => exact error_walk ..
    next => exact .refl r _

theorem checkBreak_walk (r : Resolver) (keyword : Token) (ids : List NodeId) :
    Walk r (r.checkBreak keyword) ids := by
  unfold checkBreak
  split
  next => exact error_walk ..
  next => exact .refl r _

theorem checkInheritance_walk (r : Resolver) (name : Token) (superclass : Expr)
    (ids : List NodeId) : Walk r (r.checkInheritance name superclass) ids := by
  unfold checkInheritance
  split
  next =>
    split
    next => exact error_walk ..
    next => exact .refl r _
  next => exact .refl r _

theorem push_walk (r : Resolver) : Walk r r.push [] :=
  ⟨fun h => h, fun _ _ => rfl⟩

theorem pop_walk (r : Resolver) : Walk r r.pop [] :=
  ⟨fun h => h, fun _ _ => rfl⟩

theorem enterFunction_walk (r : Resolver) (context : FunctionContext) (params : List Token) :
    Walk r (r.enterFunction context params) [] := by
  have hpush : Walk r { r with enclosingFunction := context, loopDepth := 0 }.push [] :=
    ⟨fun h => h, fun _ _ => rfl⟩
  exact hpush.after (introduceAll_walk params _ [])

theorem leaveFunction_walk (r : Resolver) (outer : FunctionContext) (loopDepth : Nat) :
    Walk r (r.leaveFunction outer loopDepth) [] :=
  ⟨fun h => h, fun _ _ => rfl⟩

theorem push_define_walk (r : Resolver) (name : String) (ids : List NodeId) :
    Walk r (r.push.define name) ids :=
  .after (push_walk r) (define_walk r.push name ids)

theorem enterClass_walk (r : Resolver) (name : Token) (superclass : Option Expr) :
    Walk r (r.enterClass name superclass) (Expr.idsOption superclass) := by
  have hclass : ∀ (r : Resolver) (context : ClassContext),
      Walk r { r with enclosingClass := context } [] :=
    fun r context => ⟨fun h => h, fun _ _ => rfl⟩
  have hintroduce : Walk r ({ r with enclosingClass := .plain }.introduce name) [] :=
    (hclass r .plain).after (introduce_walk _ name [])
  unfold enterClass
  dsimp only
  cases superclass with
  | none => exact hintroduce.after (push_define_walk _ "this" _)
  | some superclass =>
      refine hintroduce.after (.after (checkInheritance_walk _ name superclass []) ?_)
      refine (hclass _ .derived).after (.andThen (expression_walk superclass _) ?_)
      exact .after (push_define_walk _ "super" []) (push_define_walk _ "this" [])

theorem leaveClass_walk (r : Resolver) (superclass : Option Expr) (outer : ClassContext)
    (ids : List NodeId) : Walk r (r.leaveClass superclass outer) ids := by
  unfold leaveClass
  dsimp only
  split <;> exact ⟨fun h => h, fun _ _ => rfl⟩

mutual
theorem statement_walk : ∀ (s : Stmt) (r : Resolver), Walk r (r.statement s) s.ids
  | .expression value, r => expression_walk value r
  | .print value, r => expression_walk value r
  | .varDecl name initializer, r =>
      .after (declare_walk r name [])
        (.andThen (expression?_walk _ initializer) (define_walk _ name.lexeme []))
  | .letDecl name initializer, r =>
      .after (declare_walk r name [])
        (.andThen (expression_walk initializer _) (define_walk _ name.lexeme []))
  | .block body, r =>
      .after (push_walk r) (.andThen (statements_walk body r.push) (pop_walk _))
  | .ifElse condition thenBranch none, r => by
      rw [Stmt.ids_ifThen]
      exact (expression_walk condition r).trans (statement_walk thenBranch _)
  | .ifElse condition thenBranch (some elseBranch), r => by
      rw [Stmt.ids_ifElse]
      exact (expression_walk condition r).trans
        ((statement_walk thenBranch _).trans (statement_walk elseBranch _))
  | .whileLoop condition body, r => by
      rw [Stmt.ids_whileLoop]
      apply (expression_walk condition r).trans
      refine .andThen (.after ?_ (statement_walk body _)) (⟨fun h => h, fun _ _ => rfl⟩)
      exact ⟨fun h => h, fun _ _ => rfl⟩
  | .function declaration, r =>
      .after (introduce_walk r declaration.name []) (function_walk declaration .function _)
  | .returnStmt keyword value, r =>
      .after (checkReturn_walk r keyword value.isSome []) (expression?_walk _ value)
  | .breakStmt keyword, r => checkBreak_walk r keyword _
  | .classDecl name superclass methods, r => by
      rw [Stmt.ids_classDecl]
      exact ((enterClass_walk r name superclass).trans (methods_walk methods _)).andThen
        (leaveClass_walk _ superclass r.enclosingClass [])

theorem statements_walk : ∀ (list : List Stmt) (r : Resolver),
    Walk r (r.statements list) (Stmt.idsAll list)
  | [], r => .refl r _
  | s :: rest, r => by
      rw [Stmt.idsAll_cons]
      exact (statement_walk s r).trans (statements_walk rest _)

theorem function_walk : ∀ (declaration : FunctionDecl Stmt) (context : FunctionContext)
    (r : Resolver), Walk r (r.function context declaration) declaration.ids
  | ⟨_, params, body⟩, context, r =>
      .after (enterFunction_walk r context params)
        (.andThen (statements_walk body _) (leaveFunction_walk _ r.enclosingFunction r.loopDepth))

theorem methods_walk : ∀ (list : List (FunctionDecl Stmt)) (r : Resolver),
    Walk r (r.methods list) (FunctionDecl.idsAll list)
  | [], r => .refl r _
  | method :: rest, r => by
      rw [FunctionDecl.idsAll_cons]
      exact (function_walk method (methodContext method) r).trans (methods_walk rest _)
end

/-! ## The class around a statement -/

theorem declare_enclosingClass (r : Resolver) (name : Token) :
    (r.declare name).enclosingClass = r.enclosingClass := by
  unfold declare
  split
  next => rfl
  next => split <;> rfl

theorem define_enclosingClass (r : Resolver) (name : String) :
    (r.define name).enclosingClass = r.enclosingClass := by
  unfold define
  split <;> rfl

theorem introduce_enclosingClass (r : Resolver) (name : Token) :
    (r.introduce name).enclosingClass = r.enclosingClass := by
  rw [introduce, define_enclosingClass, declare_enclosingClass]

theorem introduceAll_enclosingClass (params : List Token) (r : Resolver) :
    (params.foldl introduce r).enclosingClass = r.enclosingClass := by
  induction params generalizing r with
  | nil => rfl
  | cons param rest ih => rw [List.foldl_cons, ih, introduce_enclosingClass]

theorem checkReturn_same (r : Resolver) (keyword : Token) (hasValue : Bool) :
    Same r (r.checkReturn keyword hasValue) := by
  unfold checkReturn
  dsimp only
  split <;> split <;> exact ⟨rfl, rfl⟩

theorem checkInheritance_same (r : Resolver) (name : Token) (superclass : Expr) :
    Same r (r.checkInheritance name superclass) := by
  unfold checkInheritance
  split
  next => split <;> exact ⟨rfl, rfl⟩
  next => exact .refl r

mutual
theorem statement_enclosingClass : ∀ (s : Stmt) (r : Resolver),
    (r.statement s).enclosingClass = r.enclosingClass
  | .expression value, r => (expression_same value r).enclosingClass
  | .print value, r => (expression_same value r).enclosingClass
  | .varDecl name initializer, r => by
      rw [statement, define_enclosingClass, (expression?_same _ initializer).enclosingClass,
        declare_enclosingClass]
  | .letDecl name initializer, r => by
      rw [statement, define_enclosingClass, (expression_same initializer _).enclosingClass,
        declare_enclosingClass]
  | .block body, r => statements_enclosingClass body r.push
  | .ifElse condition thenBranch none, r => by
      rw [statement, statement_enclosingClass thenBranch,
        (expression_same condition r).enclosingClass]
  | .ifElse condition thenBranch (some elseBranch), r => by
      rw [statement, statement_enclosingClass elseBranch, statement_enclosingClass thenBranch,
        (expression_same condition r).enclosingClass]
  | .whileLoop condition body, r => by
      rw [statement]
      exact (statement_enclosingClass body _).trans (expression_same condition r).enclosingClass
  | .function declaration, r => by
      rw [statement, function_enclosingClass, introduce_enclosingClass]
  | .returnStmt keyword value, r =>
      ((checkReturn_same r keyword value.isSome).trans (expression?_same _ value)).enclosingClass
  | .breakStmt keyword, r => by
      rw [statement, checkBreak]
      split <;> rfl
  | .classDecl .., _ => rfl

theorem statements_enclosingClass : ∀ (list : List Stmt) (r : Resolver),
    (r.statements list).enclosingClass = r.enclosingClass
  | [], _ => rfl
  | s :: rest, r => by
      rw [statements, statements_enclosingClass rest, statement_enclosingClass s]

theorem function_enclosingClass : ∀ (declaration : FunctionDecl Stmt) (context : FunctionContext)
    (r : Resolver), (r.function context declaration).enclosingClass = r.enclosingClass
  | ⟨_, params, body⟩, context, r => by
      rw [function]
      exact (statements_enclosingClass body _).trans (introduceAll_enclosingClass params _)
end

end ScopeScript.Resolver
