import ScopeScript.Proofs.Scoping.Context

/-!
# Renumbering trees

Nothing depends on which numbers the nodes of a program have, as long as the table of bindings goes
by the same numbers. A map of node numbers renumbers a tree and leaves everything else in it alone.
-/

namespace ScopeScript

mutual
/-- An expression with other numbers. -/
def Expr.rename (f : NodeId → NodeId) : Expr → Expr
  | .literal value => .literal value
  | .unary operator right => .unary operator (right.rename f)
  | .binary left operator right => .binary (left.rename f) operator (right.rename f)
  | .logical left operator right => .logical (left.rename f) operator (right.rename f)
  | .grouping inner => .grouping (inner.rename f)
  | .variable id name => .variable (f id) name
  | .assign id name value => .assign (f id) name (value.rename f)
  | .call callee paren arguments => .call (callee.rename f) paren (Expr.renameAll f arguments)
  | .get object name => .get (object.rename f) name
  | .set object name value => .set (object.rename f) name (value.rename f)
  | .superExpr id keyword method => .superExpr (f id) keyword method
  | .thisExpr id keyword => .thisExpr (f id) keyword

/-- Expressions with other numbers. -/
def Expr.renameAll (f : NodeId → NodeId) : List Expr → List Expr
  | [] => []
  | e :: rest => e.rename f :: Expr.renameAll f rest
end

mutual
/-- A statement with other numbers. -/
def Stmt.rename (f : NodeId → NodeId) : Stmt → Stmt
  | .expression value => .expression (value.rename f)
  | .print value => .print (value.rename f)
  | .varDecl name initializer => .varDecl name (initializer.map (Expr.rename f))
  | .letDecl name initializer => .letDecl name (initializer.rename f)
  | .block body => .block (Stmt.renameAll f body)
  | .ifElse condition thenBranch none => .ifElse (condition.rename f) (thenBranch.rename f) none
  | .ifElse condition thenBranch (some elseBranch) =>
    .ifElse (condition.rename f) (thenBranch.rename f) (some (elseBranch.rename f))
  | .whileLoop condition body => .whileLoop (condition.rename f) (body.rename f)
  | .function declaration => .function (FunctionDecl.rename f declaration)
  | .returnStmt keyword value => .returnStmt keyword (value.map (Expr.rename f))
  | .breakStmt keyword => .breakStmt keyword
  | .classDecl name superclass methods =>
    .classDecl name (superclass.map (Expr.rename f)) (FunctionDecl.renameAll f methods)

/-- Statements with other numbers. -/
def Stmt.renameAll (f : NodeId → NodeId) : List Stmt → List Stmt
  | [] => []
  | s :: rest => s.rename f :: Stmt.renameAll f rest

/-- A function with other numbers. -/
def FunctionDecl.rename (f : NodeId → NodeId) : FunctionDecl Stmt → FunctionDecl Stmt
  | ⟨name, params, body⟩ => ⟨name, params, Stmt.renameAll f body⟩

/-- Methods with other numbers. -/
def FunctionDecl.renameAll (f : NodeId → NodeId) :
    List (FunctionDecl Stmt) → List (FunctionDecl Stmt)
  | [] => []
  | method :: rest => FunctionDecl.rename f method :: FunctionDecl.renameAll f rest
end

@[simp] theorem Expr.renameAll_eq (f : NodeId → NodeId) (list : List Expr) :
    Expr.renameAll f list = list.map (Expr.rename f) := by
  induction list with
  | nil => rfl
  | cons e rest ih => rw [renameAll, ih, List.map_cons]

@[simp] theorem Stmt.renameAll_eq (f : NodeId → NodeId) (list : List Stmt) :
    Stmt.renameAll f list = list.map (Stmt.rename f) := by
  induction list with
  | nil => rfl
  | cons s rest ih => rw [renameAll, ih, List.map_cons]

@[simp] theorem FunctionDecl.renameAll_eq (f : NodeId → NodeId) (list : List (FunctionDecl Stmt)) :
    FunctionDecl.renameAll f list = list.map (FunctionDecl.rename f) := by
  induction list with
  | nil => rfl
  | cons method rest ih => rw [renameAll, ih, List.map_cons]

section Fields

variable (f : NodeId → NodeId) (declaration : FunctionDecl Stmt)

@[simp] theorem FunctionDecl.rename_name :
    (FunctionDecl.rename f declaration).name = declaration.name := by
  cases declaration
  rfl

@[simp] theorem FunctionDecl.rename_params :
    (FunctionDecl.rename f declaration).params = declaration.params := by
  cases declaration
  rfl

@[simp] theorem FunctionDecl.rename_body :
    (FunctionDecl.rename f declaration).body = declaration.body.map (Stmt.rename f) := by
  obtain ⟨name, params, body⟩ := declaration
  exact Stmt.renameAll_eq f body

@[simp] theorem FunctionDecl.rename_isInitializer :
    (FunctionDecl.rename f declaration).isInitializer = declaration.isInitializer := by
  cases declaration
  rfl

end Fields

/-! ## Only the numbers in a tree matter -/

variable {f g : NodeId → NodeId}

mutual
theorem Expr.rename_congr : ∀ (e : Expr), (∀ id ∈ e.ids, f id = g id) → e.rename f = e.rename g
  | .literal _, _ => rfl
  | .unary operator right, h => congrArg (Expr.unary operator) (right.rename_congr h)
  | .grouping inner, h => congrArg Expr.grouping (inner.rename_congr h)
  | .get object name, h => congrArg (Expr.get · name) (object.rename_congr h)
  | .binary left operator right, h => by
      rw [Expr.ids_binary] at h
      rw [Expr.rename, Expr.rename,
        left.rename_congr fun id hid => h id (List.mem_append_left _ hid),
        right.rename_congr fun id hid => h id (List.mem_append_right _ hid)]
  | .logical left operator right, h => by
      rw [Expr.ids_logical] at h
      rw [Expr.rename, Expr.rename,
        left.rename_congr fun id hid => h id (List.mem_append_left _ hid),
        right.rename_congr fun id hid => h id (List.mem_append_right _ hid)]
  | .variable id name, h => congrArg (Expr.variable · name) (h id (List.mem_singleton_self id))
  | .assign id name value, h => by
      rw [Expr.rename, Expr.rename, h id List.mem_cons_self,
        value.rename_congr fun other hother => h other (List.mem_cons_of_mem _ hother)]
  | .call callee paren arguments, h => by
      rw [Expr.ids_call] at h
      rw [Expr.rename, Expr.rename,
        callee.rename_congr fun id hid => h id (List.mem_append_left _ hid),
        Expr.renameAll_congr arguments fun id hid => h id (List.mem_append_right _ hid)]
  | .set object name value, h => by
      rw [Expr.ids_set] at h
      rw [Expr.rename, Expr.rename,
        object.rename_congr fun id hid => h id (List.mem_append_left _ hid),
        value.rename_congr fun id hid => h id (List.mem_append_right _ hid)]
  | .superExpr id keyword method, h =>
      congrArg (Expr.superExpr · keyword method) (h id (List.mem_singleton_self id))
  | .thisExpr id keyword, h =>
      congrArg (Expr.thisExpr · keyword) (h id (List.mem_singleton_self id))

theorem Expr.renameAll_congr : ∀ (list : List Expr), (∀ id ∈ Expr.idsAll list, f id = g id) →
    Expr.renameAll f list = Expr.renameAll g list
  | [], _ => rfl
  | e :: rest, h => by
      rw [Expr.idsAll_cons] at h
      rw [Expr.renameAll, Expr.renameAll,
        e.rename_congr fun id hid => h id (List.mem_append_left _ hid),
        Expr.renameAll_congr rest fun id hid => h id (List.mem_append_right _ hid)]
end

theorem Expr.renameOption_congr (e : Option Expr) (h : ∀ id ∈ Expr.idsOption e, f id = g id) :
    e.map (Expr.rename f) = e.map (Expr.rename g) := by
  cases e with
  | none => rfl
  | some e => exact congrArg some (e.rename_congr h)

mutual
theorem Stmt.rename_congr : ∀ (s : Stmt), (∀ id ∈ s.ids, f id = g id) → s.rename f = s.rename g
  | .expression value, h => congrArg Stmt.expression (value.rename_congr h)
  | .print value, h => congrArg Stmt.print (value.rename_congr h)
  | .varDecl name initializer, h =>
      congrArg (Stmt.varDecl name) (Expr.renameOption_congr initializer h)
  | .letDecl name initializer, h => congrArg (Stmt.letDecl name) (initializer.rename_congr h)
  | .block body, h => congrArg Stmt.block (Stmt.renameAll_congr body h)
  | .ifElse condition thenBranch none, h => by
      rw [Stmt.ids_ifThen] at h
      rw [Stmt.rename, Stmt.rename,
        condition.rename_congr fun id hid => h id (List.mem_append_left _ hid),
        thenBranch.rename_congr fun id hid => h id (List.mem_append_right _ hid)]
  | .ifElse condition thenBranch (some elseBranch), h => by
      rw [Stmt.ids_ifElse] at h
      have hbranches := fun id hid => h id (List.mem_append_right _ hid)
      rw [Stmt.rename, Stmt.rename,
        condition.rename_congr fun id hid => h id (List.mem_append_left _ hid),
        thenBranch.rename_congr fun id hid => hbranches id (List.mem_append_left _ hid),
        elseBranch.rename_congr fun id hid => hbranches id (List.mem_append_right _ hid)]
  | .whileLoop condition body, h => by
      rw [Stmt.ids_whileLoop] at h
      rw [Stmt.rename, Stmt.rename,
        condition.rename_congr fun id hid => h id (List.mem_append_left _ hid),
        body.rename_congr fun id hid => h id (List.mem_append_right _ hid)]
  | .function declaration, h => congrArg Stmt.function (FunctionDecl.rename_congr declaration h)
  | .returnStmt keyword value, h =>
      congrArg (Stmt.returnStmt keyword) (Expr.renameOption_congr value h)
  | .breakStmt _, _ => rfl
  | .classDecl name superclass methods, h => by
      rw [Stmt.ids_classDecl] at h
      rw [Stmt.rename, Stmt.rename,
        Expr.renameOption_congr superclass fun id hid => h id (List.mem_append_left _ hid),
        FunctionDecl.renameAll_congr methods fun id hid => h id (List.mem_append_right _ hid)]

theorem Stmt.renameAll_congr : ∀ (list : List Stmt), (∀ id ∈ Stmt.idsAll list, f id = g id) →
    Stmt.renameAll f list = Stmt.renameAll g list
  | [], _ => rfl
  | s :: rest, h => by
      rw [Stmt.idsAll_cons] at h
      rw [Stmt.renameAll, Stmt.renameAll,
        s.rename_congr fun id hid => h id (List.mem_append_left _ hid),
        Stmt.renameAll_congr rest fun id hid => h id (List.mem_append_right _ hid)]

theorem FunctionDecl.rename_congr : ∀ (declaration : FunctionDecl Stmt),
    (∀ id ∈ declaration.ids, f id = g id) →
    FunctionDecl.rename f declaration = FunctionDecl.rename g declaration
  | ⟨name, params, body⟩, h => congrArg (FunctionDecl.mk name params) (Stmt.renameAll_congr body h)

theorem FunctionDecl.renameAll_congr : ∀ (list : List (FunctionDecl Stmt)),
    (∀ id ∈ FunctionDecl.idsAll list, f id = g id) →
    FunctionDecl.renameAll f list = FunctionDecl.renameAll g list
  | [], _ => rfl
  | method :: rest, h => by
      rw [FunctionDecl.idsAll_cons] at h
      rw [FunctionDecl.renameAll, FunctionDecl.renameAll,
        FunctionDecl.rename_congr method fun id hid => h id (List.mem_append_left _ hid),
        FunctionDecl.renameAll_congr rest fun id hid => h id (List.mem_append_right _ hid)]
end

/-! ## The same numbers -/

mutual
@[simp] theorem Expr.rename_id : ∀ (e : Expr), e.rename id = e
  | .literal _ | .variable .. | .superExpr .. | .thisExpr .. => rfl
  | .unary operator right => congrArg (Expr.unary operator) right.rename_id
  | .grouping inner => congrArg Expr.grouping inner.rename_id
  | .get object name => congrArg (Expr.get · name) object.rename_id
  | .assign id name value => congrArg (Expr.assign id name) value.rename_id
  | .binary left operator right => by rw [Expr.rename, left.rename_id, right.rename_id]
  | .logical left operator right => by rw [Expr.rename, left.rename_id, right.rename_id]
  | .set object name value => by rw [Expr.rename, object.rename_id, value.rename_id]
  | .call callee paren arguments => by
      rw [Expr.rename, callee.rename_id, Expr.renameAll_id arguments]

theorem Expr.renameAll_id : ∀ (list : List Expr), Expr.renameAll id list = list
  | [] => rfl
  | e :: rest => by rw [Expr.renameAll, e.rename_id, Expr.renameAll_id rest]
end

theorem Expr.renameOption_id (e : Option Expr) : e.map (Expr.rename id) = e := by
  cases e with
  | none => rfl
  | some e => exact congrArg some e.rename_id

mutual
@[simp] theorem Stmt.rename_id : ∀ (s : Stmt), s.rename id = s
  | .expression value => congrArg Stmt.expression value.rename_id
  | .print value => congrArg Stmt.print value.rename_id
  | .varDecl name initializer => congrArg (Stmt.varDecl name) (Expr.renameOption_id initializer)
  | .letDecl name initializer => congrArg (Stmt.letDecl name) initializer.rename_id
  | .block body => congrArg Stmt.block (Stmt.renameAll_id body)
  | .ifElse condition thenBranch none => by
      rw [Stmt.rename, condition.rename_id, thenBranch.rename_id]
  | .ifElse condition thenBranch (some elseBranch) => by
      rw [Stmt.rename, condition.rename_id, thenBranch.rename_id, elseBranch.rename_id]
  | .whileLoop condition body => by rw [Stmt.rename, condition.rename_id, body.rename_id]
  | .function declaration => congrArg Stmt.function (FunctionDecl.rename_id declaration)
  | .returnStmt keyword value => congrArg (Stmt.returnStmt keyword) (Expr.renameOption_id value)
  | .breakStmt _ => rfl
  | .classDecl name superclass methods => by
      rw [Stmt.rename, Expr.renameOption_id superclass, FunctionDecl.renameAll_id methods]

theorem Stmt.renameAll_id : ∀ (list : List Stmt), Stmt.renameAll id list = list
  | [] => rfl
  | s :: rest => by rw [Stmt.renameAll, s.rename_id, Stmt.renameAll_id rest]

@[simp] theorem FunctionDecl.rename_id : ∀ (declaration : FunctionDecl Stmt),
    FunctionDecl.rename id declaration = declaration
  | ⟨name, params, body⟩ => congrArg (FunctionDecl.mk name params) (Stmt.renameAll_id body)

theorem FunctionDecl.renameAll_id : ∀ (list : List (FunctionDecl Stmt)),
    FunctionDecl.renameAll id list = list
  | [] => rfl
  | method :: rest => by
      rw [FunctionDecl.renameAll, FunctionDecl.rename_id method, FunctionDecl.renameAll_id rest]
end

/-! ## Renumbering twice -/

section Twice

variable (f g : NodeId → NodeId)

mutual
@[simp] theorem Expr.rename_rename : ∀ (e : Expr), (e.rename f).rename g = e.rename (g ∘ f)
  | .literal _ | .variable .. | .superExpr .. | .thisExpr .. => rfl
  | .unary operator right => congrArg (Expr.unary operator) right.rename_rename
  | .grouping inner => congrArg Expr.grouping inner.rename_rename
  | .get object name => congrArg (Expr.get · name) object.rename_rename
  | .assign id name value => congrArg (Expr.assign (g (f id)) name) value.rename_rename
  | .binary left operator right => by
      rw [Expr.rename, Expr.rename, left.rename_rename, right.rename_rename, Expr.rename]
  | .logical left operator right => by
      rw [Expr.rename, Expr.rename, left.rename_rename, right.rename_rename, Expr.rename]
  | .set object name value => by
      rw [Expr.rename, Expr.rename, object.rename_rename, value.rename_rename, Expr.rename]
  | .call callee paren arguments => by
      rw [Expr.rename, Expr.rename, callee.rename_rename, Expr.renameAll_renameAll arguments,
        Expr.rename]

theorem Expr.renameAll_renameAll : ∀ (list : List Expr),
    Expr.renameAll g (Expr.renameAll f list) = Expr.renameAll (g ∘ f) list
  | [] => rfl
  | e :: rest => by
      rw [Expr.renameAll, Expr.renameAll, e.rename_rename, Expr.renameAll_renameAll rest,
        Expr.renameAll]
end

theorem Expr.renameOption_renameOption (e : Option Expr) :
    (e.map (Expr.rename f)).map (Expr.rename g) = e.map (Expr.rename (g ∘ f)) := by
  cases e with
  | none => rfl
  | some e => exact congrArg some (e.rename_rename f g)

mutual
@[simp] theorem Stmt.rename_rename : ∀ (s : Stmt), (s.rename f).rename g = s.rename (g ∘ f)
  | .expression value => congrArg Stmt.expression (value.rename_rename f g)
  | .print value => congrArg Stmt.print (value.rename_rename f g)
  | .varDecl name initializer =>
      congrArg (Stmt.varDecl name) (Expr.renameOption_renameOption f g initializer)
  | .letDecl name initializer => congrArg (Stmt.letDecl name) (initializer.rename_rename f g)
  | .block body => congrArg Stmt.block (Stmt.renameAll_renameAll body)
  | .ifElse condition thenBranch none => by
      rw [Stmt.rename, Stmt.rename, condition.rename_rename, thenBranch.rename_rename, Stmt.rename]
  | .ifElse condition thenBranch (some elseBranch) => by
      rw [Stmt.rename, Stmt.rename, condition.rename_rename, thenBranch.rename_rename,
        elseBranch.rename_rename, Stmt.rename]
  | .whileLoop condition body => by
      rw [Stmt.rename, Stmt.rename, condition.rename_rename, body.rename_rename, Stmt.rename]
  | .function declaration => congrArg Stmt.function (FunctionDecl.rename_rename declaration)
  | .returnStmt keyword value =>
      congrArg (Stmt.returnStmt keyword) (Expr.renameOption_renameOption f g value)
  | .breakStmt _ => rfl
  | .classDecl name superclass methods => by
      rw [Stmt.rename, Stmt.rename, Expr.renameOption_renameOption,
        FunctionDecl.renameAll_renameAll methods, Stmt.rename]

theorem Stmt.renameAll_renameAll : ∀ (list : List Stmt),
    Stmt.renameAll g (Stmt.renameAll f list) = Stmt.renameAll (g ∘ f) list
  | [] => rfl
  | s :: rest => by
      rw [Stmt.renameAll, Stmt.renameAll, s.rename_rename, Stmt.renameAll_renameAll rest,
        Stmt.renameAll]

@[simp] theorem FunctionDecl.rename_rename : ∀ (declaration : FunctionDecl Stmt),
    FunctionDecl.rename g (FunctionDecl.rename f declaration) =
      FunctionDecl.rename (g ∘ f) declaration
  | ⟨name, params, body⟩ => congrArg (FunctionDecl.mk name params) (Stmt.renameAll_renameAll body)

theorem FunctionDecl.renameAll_renameAll : ∀ (list : List (FunctionDecl Stmt)),
    FunctionDecl.renameAll g (FunctionDecl.renameAll f list) = FunctionDecl.renameAll (g ∘ f) list
  | [] => rfl
  | method :: rest => by
      rw [FunctionDecl.renameAll, FunctionDecl.renameAll, FunctionDecl.rename_rename method,
        FunctionDecl.renameAll_renameAll rest, FunctionDecl.renameAll]
end

end Twice

end ScopeScript
