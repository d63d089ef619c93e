import Mathlib.Data.List.Perm.Basic
import ScopeScript.Proofs.Scoping.Walk

/-!
# The walk comes to every reference once

A record of the walk: each reference it comes to, with what is known there. The table of bindings
changes at no other moment, and then at most in the entry of that reference. As the walk comes to
every node of a program once, no entry is ever written twice when their numbers differ.
-/

namespace ScopeScript

/-- A reference that the walk comes to, and what is known when it does. -/
structure Visit where
  reference : Reference
  before : Resolver

namespace Visit

/-- Whether the binding of the reference is looked up: `this` needs a class around it, `super` one
with a superclass. -/
def looksUp (visit : Visit) : Bool :=
  match visit.reference.kind with
  | .variable | .assign => true
  | .thisRef => visit.before.enclosingClass ≠ .none
  | .superRef => visit.before.enclosingClass = .derived

/-- The entry that is written for the reference. A global binding gets none. -/
def written? (visit : Visit) : Option (NodeId × Nat) :=
  if visit.looksUp then
    (Resolver.hops? visit.reference.name.lexeme visit.before.scopes).map (visit.reference.id, ·)
  else none

/-- What is known after the reference. -/
def after (visit : Visit) : Resolver :=
  match visit with
  | ⟨⟨.variable, id, name⟩, r⟩ => r.read id name
  | ⟨⟨.assign, id, name⟩, r⟩ => r.bind id name
  | ⟨⟨.thisRef, id, keyword⟩, r⟩ => r.receiver id keyword
  | ⟨⟨.superRef, id, keyword⟩, r⟩ => r.inherited id keyword

theorem written?_id {visit : Visit} {entry : NodeId × Nat} (h : visit.written? = some entry) :
    entry.1 = visit.reference.id := by
  unfold written? at h
  split at h
  · obtain ⟨distance, -, rfl⟩ := Option.map_eq_some_iff.mp h
    rfl
  · cases h

end Visit

/-- The table with an entry written to it, if there is one. -/
def Locals.write (table : Locals) : Option (NodeId × Nat) → Locals
  | none => table
  | some (id, distance) => table.insert id distance

theorem Resolver.bind_locals (r : Resolver) (id : NodeId) (name : Token) :
    (r.bind id name).locals = Locals.write r.locals ((hops? name.lexeme r.scopes).map (id, ·)) := by
  unfold bind
  split
  next h => rw [h]; rfl
  next h => rw [h]; rfl

/-- The table changes at a reference by what is written for it. -/
theorem Visit.after_locals (visit : Visit) :
    visit.after.locals = Locals.write visit.before.locals visit.written? := by
  obtain ⟨⟨kind, id, name⟩, r⟩ := visit
  cases kind with
  | assign => exact r.bind_locals id name
  | «variable» =>
      change (r.read id name).locals = _
      unfold Resolver.read
      split
      · exact Resolver.bind_locals _ id name
      · exact r.bind_locals id name
  | thisRef =>
      change (r.receiver id name).locals = _
      unfold Resolver.receiver
      split
      next h => simp [written?, looksUp, h, Locals.write, Resolver.error]
      next h =>
        have hlooks : (⟨⟨.thisRef, id, name⟩, r⟩ : Visit).looksUp = true := by
          simpa [looksUp] using h
        rw [written?, if_pos hlooks]
        exact r.bind_locals id name
  | superRef =>
      change (r.inherited id name).locals = _
      unfold Resolver.inherited
      split
      next h => simp [written?, looksUp, h, Locals.write, Resolver.error]
      next h => simp [written?, looksUp, h, Locals.write, Resolver.error]
      next h =>
        have hlooks : (⟨⟨.superRef, id, name⟩, r⟩ : Visit).looksUp = true := by
          simpa [looksUp] using h
        rw [written?, if_pos hlooks]
        exact r.bind_locals id name

namespace Resolver

mutual
/-- The references that the walk over an expression comes to. -/
def visits (r : Resolver) : Expr → List Visit
  | .literal _ => []
  | .grouping inner => r.visits inner
  | .unary _ right => r.visits right
  | .binary left _ right | .logical left _ right =>
    r.visits left ++ (r.expression left).visits right
  | .variable id name => [⟨⟨.variable, id, name⟩, r⟩]
  | .assign id name value => r.visits value ++ [⟨⟨.assign, id, name⟩, r.expression value⟩]
  | .call callee _ arguments => r.visits callee ++ (r.expression callee).visitsAll arguments
  | .get object _ => r.visits object
  | .set object _ value => r.visits value ++ (r.expression value).visits object
  | .thisExpr id keyword => [⟨⟨.thisRef, id, keyword⟩, r⟩]
  | .superExpr id keyword _ => [⟨⟨.superRef, id, keyword⟩, r⟩]

/-- The references that the walk over expressions comes to. -/
def visitsAll (r : Resolver) : List Expr → List Visit
  | [] => []
  | e :: rest => r.visits e ++ (r.expression e).visitsAll rest
end

/-- The references that the walk over an expression comes to, if there is one. -/
def visits? (r : Resolver) : Option Expr → List Visit
  | none => []
  | some e => r.visits e

/-- What is known where the superclass of a class is looked up. -/
def atSuperclass (r : Resolver) (name : Token) (superclass : Expr) : Resolver :=
  { ({ r with enclosingClass := .plain }.introduce name).checkInheritance name superclass with
    enclosingClass := .derived }

/-- The references that the walk over the head of a class comes to. -/
def visitsHead (r : Resolver) (name : Token) : Option Expr → List Visit
  | none => []
  | some superclass => (r.atSuperclass name superclass).visits superclass

mutual
/-- The references that the walk over a statement comes to. -/
def visitsIn (r : Resolver) : Stmt → List Visit
  | .expression value | .print value => r.visits value
  | .varDecl name initializer => (r.declare name).visits? initializer
  | .letDecl name initializer => (r.declare name).visits initializer
  | .block body => r.push.visitsInAll body
  | .ifElse condition thenBranch none =>
    r.visits condition ++ (r.expression condition).visitsIn thenBranch
  | .ifElse condition thenBranch (some elseBranch) =>
    r.visits condition ++ (r.expression condition).visitsIn thenBranch
      ++ ((r.expression condition).statement thenBranch).visitsIn elseBranch
  | .whileLoop condition body =>
    r.visits condition ++
      { r.expression condition with
        loopDepth := (r.expression condition).loopDepth + 1 }.visitsIn body
  | .function declaration =>
    (r.introduce declaration.name).visitsInFunction .function declaration
  | .returnStmt keyword value => (r.checkReturn keyword value.isSome).visits? value
  | .breakStmt _ => []
  | .classDecl name superclass methods =>
    r.visitsHead name superclass ++ (r.enterClass name superclass).visitsInMethods methods

/-- The references that the walk over statements comes to. -/
def visitsInAll (r : Resolver) : List Stmt → List Visit
  | [] => []
  | s :: rest => r.visitsIn s ++ (r.statement s).visitsInAll rest

/-- The references that the walk over a function comes to. -/
def visitsInFunction (r : Resolver) (context : FunctionContext) : FunctionDecl Stmt → List Visit
  | ⟨_, params, body⟩ => (r.enterFunction context params).visitsInAll body

/-- The references that the walk over methods comes to. -/
def visitsInMethods (r : Resolver) : List (FunctionDecl Stmt) → List Visit
  | [] => []
  | method :: rest =>
    r.visitsInFunction (methodContext method) method
      ++ (r.function (methodContext method) method).visitsInMethods rest
end

end Resolver

/-! ## Every node is visited once -/

namespace Resolver

mutual
theorem visits_references : ∀ (e : Expr) (r : Resolver),
    ((r.visits e).map Visit.reference).Perm e.references
  | .literal _, _ => .refl _
  | .grouping inner, r => visits_references inner r
  | .unary _ right, r => visits_references right r
  | .variable _ _, _ | .thisExpr _ _, _ | .superExpr _ _ _, _ => .refl _
  | .binary left _ right, r | .logical left _ right, r => by
      rw [visits, List.map_append]
      exact (visits_references left r).append (visits_references right _)
  | .assign id name value, r => by
      rw [visits, List.map_append]
      exact ((visits_references value r).append_right _).trans List.perm_append_comm
  | .call callee _ arguments, r => by
      rw [visits, List.map_append]
      exact (visits_references callee r).append (visitsAll_references arguments _)
  | .get object _, r => visits_references object r
  | .set object _ value, r => by
      rw [visits, List.map_append]
      exact ((visits_references value r).append (visits_references object _)).trans
        List.perm_append_comm

theorem visitsAll_references : ∀ (list : List Expr) (r : Resolver),
    ((r.visitsAll list).map Visit.reference).Perm (Expr.referencesAll list)
  | [], _ => .refl _
  | e :: rest, r => by
      rw [visitsAll, List.map_append]
      exact (visits_references e r).append (visitsAll_references rest _)
end

theorem visits?_references (e : Option Expr) (r : Resolver) :
    ((r.visits? e).map Visit.reference).Perm (Expr.referencesOption e) := by
  cases e with
  | none => exact .refl _
  | some e => exact visits_references e r

theorem visitsHead_references (superclass : Option Expr) (name : Token) (r : Resolver) :
    ((r.visitsHead name superclass).map Visit.reference).Perm
      (Expr.referencesOption superclass) := by
  cases superclass with
  | none => exact .refl _
  | some superclass => exact visits_references superclass _

mutual
theorem visitsIn_references : ∀ (s : Stmt) (r : Resolver),
    ((r.visitsIn s).map Visit.reference).Perm s.references
  | .expression value, r | .print value, r => visits_references value r
  | .varDecl name initializer, r => visits?_references initializer _
  | .letDecl name initializer, r => visits_references initializer _
  | .block body, r => visitsInAll_references body _
  | .ifElse condition thenBranch none, r => by
      rw [visitsIn, List.map_append, Stmt.references]
      exact (visits_references condition r).append (visitsIn_references thenBranch _)
  | .ifElse condition thenBranch (some elseBranch), r => by
      rw [visitsIn, List.map_append, List.map_append, Stmt.references]
      exact ((visits_references condition r).append (visitsIn_references thenBranch _)).append
        (visitsIn_references elseBranch _)
  | .whileLoop condition body, r => by
      rw [visitsIn, List.map_append, Stmt.references]
      exact (visits_references condition r).append (visitsIn_references body _)
  | .function declaration, r => visitsInFunction_references declaration .function _
  | .returnStmt keyword value, r => visits?_references value _
  | .breakStmt _, _ => .refl _
  | .classDecl name superclass methods, r => by
      rw [visitsIn, List.map_append, Stmt.references]
      exact (visitsHead_references superclass name r).append (visitsInMethods_references methods _)

theorem visitsInAll_references : ∀ (list : List Stmt) (r : Resolver),
    ((r.visitsInAll list).map Visit.reference).Perm (Stmt.referencesAll list)
  | [], _ => .refl _
  | s :: rest, r => by
      rw [visitsInAll, List.map_append, Stmt.referencesAll]
      exact (visitsIn_references s r).append (visitsInAll_references rest _)

theorem visitsInFunction_references : ∀ (declaration : FunctionDecl Stmt)
    (context : FunctionContext) (r : Resolver),
    ((r.visitsInFunction context declaration).map Visit.reference).Perm
      (FunctionDecl.references declaration)
  | ⟨_, _, body⟩, _, _ => visitsInAll_references body _

theorem visitsInMethods_references : ∀ (list : List (FunctionDecl Stmt)) (r : Resolver),
    ((r.visitsInMethods list).map Visit.reference).Perm (FunctionDecl.referencesAll list)
  | [], _ => .refl _
  | method :: rest, r => by
      rw [visitsInMethods, List.map_append, FunctionDecl.referencesAll]
      exact (visitsInFunction_references method _ r).append (visitsInMethods_references rest _)
end

end Resolver

/-! ## The table changes nowhere else -/

/-- The table changes at the visits only, and each finds it as the one before has left it. -/
inductive Linked : Locals → List Visit → Locals → Prop
  | nil (table : Locals) : Linked table [] table
  | cons {visit : Visit} {rest : List Visit} {table : Locals} :
      Linked visit.after.locals rest table → Linked visit.before.locals (visit :: rest) table

namespace Linked

variable {r r' : Resolver} {table table' : Locals} {a b : List Visit}

theorem one (visit : Visit) : Linked visit.before.locals [visit] visit.after.locals :=
  .cons (.nil _)

theorem append {middle : Locals} (ha : Linked table a middle) (hb : Linked middle b table') :
    Linked table (a ++ b) table' := by
  induction ha with
  | nil => exact hb
  | cons _ ih => exact .cons (ih hb)

/-- A part of the walk that writes nothing comes first. -/
theorem behind (hstep : Resolver.Walk r r' []) (h : Linked r'.locals a table) :
    Linked r.locals a table := by
  have hsame : r'.locals = r.locals :=
    Std.ExtTreeMap.ext_getElem? fun id => hstep.locals id List.not_mem_nil
  exact hsame ▸ h

/-- A part of the walk that writes nothing comes last. -/
theorem before (h : Linked table a r.locals) (hstep : Resolver.Walk r r' []) :
    Linked table a r'.locals := by
  have hsame : r'.locals = r.locals :=
    Std.ExtTreeMap.ext_getElem? fun id => hstep.locals id List.not_mem_nil
  exact hsame ▸ h

end Linked

namespace Resolver

mutual
theorem expression_linked : ∀ (e : Expr) (r : Resolver),
    Linked r.locals (r.visits e) (r.expression e).locals
  | .literal _, r => .nil r.locals
  | .grouping inner, r => expression_linked inner r
  | .unary _ right, r => expression_linked right r
  | .binary left _ right, r | .logical left _ right, r =>
      (expression_linked left r).append (expression_linked right _)
  | .variable id name, r => .one ⟨⟨.variable, id, name⟩, r⟩
  | .assign id name value, r =>
      (expression_linked value r).append (.one ⟨⟨.assign, id, name⟩, r.expression value⟩)
  | .call callee _ arguments, r =>
      (expression_linked callee r).append (expressions_linked arguments _)
  | .get object _, r => expression_linked object r
  | .set object _ value, r => (expression_linked value r).append (expression_linked object _)
  | .thisExpr id keyword, r => .one ⟨⟨.thisRef, id, keyword⟩, r⟩
  | .superExpr id keyword _, r => .one ⟨⟨.superRef, id, keyword⟩, r⟩

theorem expressions_linked : ∀ (list : List Expr) (r : Resolver),
    Linked r.locals (r.visitsAll list) (r.expressions list).locals
  | [], r => .nil r.locals
  | e :: rest, r => (expression_linked e r).append (expressions_linked rest _)
end

theorem expression?_linked (e : Option Expr) (r : Resolver) :
    Linked r.locals (r.visits? e) (r.expression? e).locals := by
  cases e with
  | none => exact .nil r.locals
  | some e => exact expression_linked e r

theorem enterClass_linked (r : Resolver) (name : Token) (superclass : Option Expr) :
    Linked r.locals (r.visitsHead name superclass) (r.enterClass name superclass).locals := by
  have hclass : ∀ (r : Resolver) (context : ClassContext),
      Walk r { r with enclosingClass := context } [] :=
    fun r context => ⟨fun h => h, fun _ _ => rfl⟩
  have hintroduce : Walk r ({ r with enclosingClass := .plain }.introduce name) [] :=
    (hclass r .plain).after (introduce_walk _ name [])
  cases superclass with
  | none => exact (Linked.nil _).behind (hintroduce.after (push_define_walk _ "this" []))
  | some superclass =>
      have hhead : Walk r (r.atSuperclass name superclass) [] :=
        hintroduce.after ((checkInheritance_walk _ name superclass []).after (hclass _ .derived))
      refine ((expression_linked superclass _).behind hhead).before ?_
      exact (push_define_walk _ "super" []).after (push_define_walk _ "this" [])

mutual
theorem statement_linked : ∀ (s : Stmt) (r : Resolver),
    Linked r.locals (r.visitsIn s) (r.statement s).locals
  | .expression value, r | .print value, r => expression_linked value r
  | .varDecl name initializer, r =>
      ((expression?_linked initializer _).behind (declare_walk r name [])).before
        (define_walk _ name.lexeme [])
  | .letDecl name initializer, r =>
      ((expression_linked initializer _).behind (declare_walk r name [])).before
        (define_walk _ name.lexeme [])
  | .block body, r =>
      ((statements_linked body r.push).behind (push_walk r)).before (pop_walk _)
  | .ifElse condition thenBranch none, r =>
      (expression_linked condition r).append (statement_linked thenBranch _)
  | .ifElse condition thenBranch (some elseBranch), r =>
      ((expression_linked condition r).append (statement_linked thenBranch _)).append
        (statement_linked elseBranch _)
  | .whileLoop condition body, r =>
      (expression_linked condition r).append
        (statement_linked body
          { r.expression condition with loopDepth := (r.expression condition).loopDepth + 1 })
  | .function declaration, r =>
      (function_linked declaration .function _).behind (introduce_walk r declaration.name [])
  | .returnStmt keyword value, r =>
      (expression?_linked value _).behind (checkReturn_walk r keyword value.isSome [])
  | .breakStmt keyword, r => (Linked.nil _).behind (checkBreak_walk r keyword [])
  | .classDecl name superclass methods, r =>
      ((enterClass_linked r name superclass).append (methods_linked methods _)).before
        (leaveClass_walk _ superclass r.enclosingClass [])

theorem statements_linked : ∀ (list : List Stmt) (r : Resolver),
    Linked r.locals (r.visitsInAll list) (r.statements list).locals
  | [], r => .nil r.locals
  | s :: rest, r => (statement_linked s r).append (statements_linked rest _)

theorem function_linked : ∀ (declaration : FunctionDecl Stmt) (context : FunctionContext)
    (r : Resolver),
    Linked r.locals (r.visitsInFunction context declaration) (r.function context declaration).locals
  | ⟨_, params, body⟩, context, r =>
      ((statements_linked body _).behind (enterFunction_walk r context params)).before
        (leaveFunction_walk _ r.enclosingFunction r.loopDepth)

theorem methods_linked : ∀ (list : List (FunctionDecl Stmt)) (r : Resolver),
    Linked r.locals (r.visitsInMethods list) (r.methods list).locals
  | [], r => .nil r.locals
  | method :: rest, r =>
      (function_linked method (methodContext method) r).append (methods_linked rest _)
end

end Resolver

/-! ## Every entry is written once -/

/-- The entries that are written at some visits, in their order. -/
def writes (visits : List Visit) : List (NodeId × Nat) :=
  visits.filterMap Visit.written?

theorem writes_sublist (visits : List Visit) :
    ((writes visits).map Prod.fst).Sublist (visits.map (·.reference.id)) := by
  induction visits with
  | nil => exact .slnil
  | cons visit rest ih =>
      cases hentry : visit.written? with
      | none =>
          rw [writes, List.filterMap_cons_none hentry]
          exact ih.cons _
      | some entry =>
          rw [writes, List.filterMap_cons_some hentry, List.map_cons, List.map_cons,
            Visit.written?_id hentry]
          exact ih.cons_cons _

/-- If no entry is written twice, the table has what it had before in the others. -/
theorem Linked.getElem? {table table' : Locals} {visits : List Visit}
    (h : Linked table visits table') (hnodup : ((writes visits).map Prod.fst).Nodup)
    (id : NodeId) (distance : Nat) :
    table'[id]? = some distance ↔ (id, distance) ∈ writes visits ∨
      (id ∉ (writes visits).map Prod.fst ∧ table[id]? = some distance) := by
  induction h with
  | nil => simp [writes]
  | @cons visit rest _ _ ih =>
      have hafter := visit.after_locals
      cases hentry : visit.written? with
      | none =>
          have hwrites : writes (visit :: rest) = writes rest := List.filterMap_cons_none hentry
          rw [hentry] at hafter
          rw [hwrites] at hnodup ⊢
          rw [ih hnodup, hafter]
          rfl
      | some entry =>
          obtain ⟨written, value⟩ := entry
          have hwrites : writes (visit :: rest) = (written, value) :: writes rest :=
            List.filterMap_cons_some hentry
          rw [hentry] at hafter
          rw [hwrites, List.map_cons, List.nodup_cons] at hnodup
          rw [hwrites, ih hnodup.2, hafter, Locals.write, Std.ExtTreeMap.getElem?_insert]
          by_cases hid : written = id
          · obtain rfl := hid
            have hnone : (written, distance) ∉ writes rest :=
              fun hmem => hnodup.1 (List.mem_map.mpr ⟨_, hmem, rfl⟩)
            simp [hnone, hnodup.1, eq_comm]
          · simp [hid, Ne.symm hid]

/-- Where no entry was written before, the table has those that are written. -/
theorem Linked.getElem?_empty {table : Locals} {visits : List Visit} (h : Linked ∅ visits table)
    (hnodup : ((writes visits).map Prod.fst).Nodup) (id : NodeId) (distance : Nat) :
    table[id]? = some distance ↔ (id, distance) ∈ writes visits := by
  rw [h.getElem? hnodup]
  simp

end ScopeScript
