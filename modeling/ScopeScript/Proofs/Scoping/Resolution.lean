import Mathlib.Data.List.Forall2
import ScopeScript.Proofs.Scoping.Spelling
import ScopeScript.Proofs.Scoping.Walk

/-!
# An accepted program is well scoped

Where the walk over a program finds no error, the scopes it keeps mirror the context at each place:
a name counts as defined in a scope exactly if the context has it there. So every node is recorded
with the distance that its context gives, or not at all where its name is global.
-/

namespace ScopeScript

/-- A scope of the walk has the names of a layer. -/
def StaticScope.Shows (scope : StaticScope) (layer : Layer) : Prop :=
  ∀ name, scope.find? name = some .defined ↔ name ∈ layer.bound

/-- The scopes of the walk have the names of a context. -/
abbrev Mirrors (scopes : List StaticScope) (context : Context) : Prop :=
  List.Forall₂ StaticScope.Shows scopes context

theorem Mirrors.hops? {scopes : List StaticScope} {context : Context} (h : Mirrors scopes context)
    (name : String) : Resolver.hops? name scopes = context.hops? name := by
  induction h with
  | nil => rfl
  | cons hshows _ ih =>
      unfold Resolver.hops? Context.hops?
      rw [ih]
      simp only [hshows name]

namespace Context

/-- Where there is a method around a place, some nodes belong to it. -/
def Within (context : Context) (ids : List NodeId) : Prop :=
  ∀ method, context.method? = some method → ∀ id ∈ ids, id ∈ FunctionDecl.ownIds method

/-- What the class around a place promises about `this` and `super`. -/
def Agrees (context : Context) : ClassContext → Prop
  | .none => True
  | .plain =>
    ∃ method distance, context.method? = some method ∧ context.hops? "this" = some distance
  | .derived =>
    ∃ method distance, context.method? = some method ∧ context.hops? "this" = some distance
      ∧ context.hops? "super" = some (distance + 1)

variable {context : Context}

theorem Open.declare (h : context.Open) (name : String) : (context.declare name).Open := by
  unfold Context.declare
  split
  next => trivial
  next => exact h

theorem hops?_declare {name other : String} (hne : other ≠ name) :
    (context.declare name).hops? other = context.hops? other := by
  unfold Context.declare
  split
  next => exact hops?_congr (by simp [hne])
  next => rfl

theorem method?_declare (name : String) : (context.declare name).method? = context.method? := by
  unfold Context.declare
  split
  next => rfl
  next => rfl

theorem tail_declare (name : String) : (context.declare name).tail = context.tail := by
  unfold Context.declare
  split
  next => rfl
  next => rfl

theorem Within.declare {ids : List NodeId} (h : context.Within ids) (name : String) :
    (context.declare name).Within ids := by
  intro method hmethod
  rw [method?_declare] at hmethod
  exact h method hmethod

theorem Within.mono {a b : List NodeId} (h : context.Within b) (hsub : a ⊆ b) : context.Within a :=
  fun method hmethod id hid => h method hmethod id (hsub hid)

theorem Agrees.declare {cls : ClassContext} (h : context.Agrees cls) {name : Token}
    (hname : name.Plain) : (context.declare name.lexeme).Agrees cls := by
  cases cls with
  | none => trivial
  | plain =>
      obtain ⟨method, distance, hmethod, hthis⟩ := h
      refine ⟨method, distance, ?_, ?_⟩
      · rw [method?_declare, hmethod]
      · rw [hops?_declare hname.1.symm, hthis]
  | derived =>
      obtain ⟨method, distance, hmethod, hthis, hsuper⟩ := h
      refine ⟨method, distance, ?_, ?_, ?_⟩
      · rw [method?_declare, hmethod]
      · rw [hops?_declare hname.1.symm, hthis]
      · rw [hops?_declare hname.2.symm, hsuper]

theorem Agrees.names {cls : ClassContext} (h : context.Agrees cls) {list : List Token}
    (hlist : ∀ name ∈ list, name.Plain) :
    Agrees (.names (list.map Token.lexeme) :: context) cls := by
  have hthisNot : "this" ∉ (Layer.names (list.map Token.lexeme)).bound := by
    rintro hmem
    obtain ⟨name, hname, heq⟩ := List.mem_map.mp hmem
    exact (hlist name hname).1 heq
  have hsuperNot : "super" ∉ (Layer.names (list.map Token.lexeme)).bound := by
    rintro hmem
    obtain ⟨name, hname, heq⟩ := List.mem_map.mp hmem
    exact (hlist name hname).2 heq
  cases cls with
  | none => trivial
  | plain =>
      obtain ⟨method, distance, hmethod, hthis⟩ := h
      refine ⟨method, distance + 1, hmethod, ?_⟩
      rw [hops?_of_not_mem hthisNot, hthis]
      rfl
  | derived =>
      obtain ⟨method, distance, hmethod, hthis, hsuper⟩ := h
      refine ⟨method, distance + 1, hmethod, ?_, ?_⟩
      · rw [hops?_of_not_mem hthisNot, hthis]
        rfl
      · rw [hops?_of_not_mem hsuperNot, hsuper]
        rfl

end Context

namespace Resolver

/-- The node is one of some nodes, and the walk has recorded it so. -/
def Recorded (r : Resolver) (ids : List NodeId) (id : NodeId) (distance : Option Nat) : Prop :=
  id ∈ ids ∧ r.locals[id]? = distance

/-- The walk stands at a place with a context, in front of nodes that it has not come to yet. -/
structure At (r : Resolver) (context : Context) (ids : List NodeId) : Prop where
  mirrors : Mirrors r.scopes context
  agrees : context.Agrees r.enclosingClass
  nodup : ids.Nodup
  fresh : ∀ id ∈ ids, r.locals[id]? = none

variable {r r' : Resolver} {context context' : Context} {a b : List NodeId}

theorem Recorded.sub (hsub : a ⊆ b) (id : NodeId) (distance : Option Nat)
    (h : r.Recorded a id distance) : r.Recorded b id distance :=
  ⟨hsub h.1, h.2⟩

/-- What is recorded stays when the walk goes on to other nodes. -/
theorem Recorded.later (hwalk : Walk r r' b) (hdisjoint : a.Disjoint b) (id : NodeId)
    (distance : Option Nat) (h : r.Recorded a id distance) : r'.Recorded a id distance := by
  refine ⟨h.1, ?_⟩
  rw [hwalk.locals id (hdisjoint h.1)]
  exact h.2

theorem Recorded.later_append (hwalk : Walk r r' b) (hdisjoint : a.Disjoint b) (id : NodeId)
    (distance : Option Nat) (h : r.Recorded a id distance) : r'.Recorded (a ++ b) id distance :=
  .sub (List.subset_append_left a b) id distance (h.later hwalk hdisjoint)

namespace At

theorem part (h : r.At context b) (hsub : a.Sublist b) : r.At context a :=
  ⟨h.mirrors, h.agrees, h.nodup.sublist hsub, fun id hid => h.fresh id (hsub.mem hid)⟩

theorem left (h : r.At context (a ++ b)) : r.At context a :=
  h.part (List.sublist_append_left a b)

theorem right (h : r.At context (a ++ b)) : r.At context b :=
  h.part (List.sublist_append_right a b)

theorem disjoint (h : r.At context (a ++ b)) : a.Disjoint b :=
  List.disjoint_of_nodup_append h.nodup

theorem disjoint_comm (h : r.At context (a ++ b)) : b.Disjoint a :=
  fun _ hb ha => h.disjoint ha hb

/-- The walk has come over nodes and stands in front of others. -/
theorem move (h : r.At context b) (hwalk : Walk r r' a) (hdisjoint : a.Disjoint b)
    (hmirrors : Mirrors r'.scopes context') (hagrees : context'.Agrees r'.enclosingClass) :
    r'.At context' b := by
  refine ⟨hmirrors, hagrees, h.nodup, ?_⟩
  intro id hid
  rw [hwalk.locals id fun hmem => hdisjoint hmem hid]
  exact h.fresh id hid

theorem moveSame (h : r.At context b) (hwalk : Walk r r' a) (hdisjoint : a.Disjoint b)
    (hsame : Same r r') : r'.At context b := by
  apply h.move hwalk hdisjoint
  · rw [hsame.scopes]
    exact h.mirrors
  · rw [hsame.enclosingClass]
    exact h.agrees

end At

theorem bind_recorded (id : NodeId) (name : Token) (hmirrors : Mirrors r.scopes context)
    (hfresh : r.locals[id]? = none) :
    (r.bind id name).Recorded [id] id (context.hops? name.lexeme) := by
  refine ⟨List.mem_singleton_self id, ?_⟩
  rw [← hmirrors.hops?]
  unfold bind
  split
  next h => simp [h]
  next h => rw [h, hfresh]

theorem read_recorded (id : NodeId) (name : Token) (hmirrors : Mirrors r.scopes context)
    (hfresh : r.locals[id]? = none) :
    (r.read id name).Recorded [id] id (context.hops? name.lexeme) := by
  unfold read
  split
  next => exact bind_recorded (r := r.warn name .ownInitializer) id name hmirrors hfresh
  next => exact bind_recorded id name hmirrors hfresh

/-- A receiver that is no error stands in a method of a class. -/
theorem receiver_bind {id : NodeId} {keyword : Token} (hagrees : context.Agrees r.enclosingClass)
    (herrors : (r.receiver id keyword).errors = []) :
    ∃ method distance, context.method? = some method ∧ context.hops? "this" = some distance
      ∧ r.receiver id keyword = r.bind id keyword := by
  revert herrors hagrees
  simp only [receiver]
  cases r.enclosingClass with
  | none => simp [error]
  | plain =>
      rintro ⟨method, distance, hmethod, hthis⟩ -
      exact ⟨method, distance, hmethod, hthis, rfl⟩
  | derived =>
      rintro ⟨method, distance, hmethod, hthis, -⟩ -
      exact ⟨method, distance, hmethod, hthis, rfl⟩

/-- An inherited method that is no error is asked for in a method of a subclass. -/
theorem inherited_bind {id : NodeId} {keyword : Token} (hagrees : context.Agrees r.enclosingClass)
    (herrors : (r.inherited id keyword).errors = []) :
    ∃ method distance, context.method? = some method ∧ context.hops? "this" = some distance
      ∧ context.hops? "super" = some (distance + 1)
      ∧ r.inherited id keyword = r.bind id keyword := by
  revert herrors hagrees
  simp only [inherited]
  cases r.enclosingClass with
  | none => simp [error]
  | plain => simp [error]
  | derived =>
      rintro ⟨method, distance, hmethod, hthis, hsuper⟩ -
      exact ⟨method, distance, hmethod, hthis, hsuper, rfl⟩

/-- Where the walk over an expression finds no error, the expression is well scoped. -/
def ScopesExpr (context : Context) (e : Expr) : Prop :=
  ∀ r : Resolver, e.Named → r.At context e.ids → context.Within e.ids →
    (r.expression e).errors = [] → e.Scoped ((r.expression e).Recorded e.ids) context

theorem ScopesExpr.pair {left right : Expr} (ihLeft : ScopesExpr context left)
    (ihRight : ScopesExpr context right) (hleft : left.Named) (hright : right.Named)
    (hat : r.At context (left.ids ++ right.ids)) (hwithin : context.Within (left.ids ++ right.ids))
    (herrors : ((r.expression left).expression right).errors = []) :
    left.Scoped (((r.expression left).expression right).Recorded (left.ids ++ right.ids)) context
      ∧ right.Scoped (((r.expression left).expression right).Recorded (left.ids ++ right.ids))
        context := by
  have hwalk := expression_walk left r
  have hwalk' := expression_walk right (r.expression left)
  have hat' := hat.right.moveSame hwalk hat.disjoint (expression_same left r)
  have hscoped := ihLeft _ hleft hat.left (hwithin.mono (List.subset_append_left _ _))
    (hwalk'.errors herrors)
  have hscoped' := ihRight _ hright hat' (hwithin.mono (List.subset_append_right _ _)) herrors
  exact ⟨left.scoped_mono (fun _ _ h => h.later_append hwalk' hat.disjoint) hscoped,
    right.scoped_mono (Recorded.sub (List.subset_append_right _ _)) hscoped'⟩

mutual
theorem expression_scoped : ∀ e : Expr, ScopesExpr context e
  | .literal _, _, _, _, _, _ => trivial
  | .grouping inner, _, hnamed, hat, hwithin, herrors =>
      expression_scoped inner _ hnamed hat hwithin herrors
  | .unary _ right, _, hnamed, hat, hwithin, herrors =>
      expression_scoped right _ hnamed hat hwithin herrors
  | .binary left _ right, r, hnamed, hat, hwithin, herrors => by
      rw [Expr.ids_binary] at hat hwithin ⊢
      exact (expression_scoped left).pair (expression_scoped right) hnamed.1 hnamed.2 hat hwithin
        herrors
  | .logical left _ right, r, hnamed, hat, hwithin, herrors => by
      rw [Expr.ids_logical] at hat hwithin ⊢
      exact (expression_scoped left).pair (expression_scoped right) hnamed.1 hnamed.2 hat hwithin
        herrors
  | .variable id name, _, hnamed, hat, _, _ =>
      ⟨hnamed, read_recorded id name hat.mirrors (hat.fresh id (List.mem_singleton_self id))⟩
  | .assign id name value, r, hnamed, hat, hwithin, herrors => by
      -- The node comes first in the list but is recorded last, behind its value.
      have hids : (Expr.assign id name value).ids = [id] ++ value.ids := rfl
      rw [hids] at hat hwithin ⊢
      have hwalk := expression_walk value r
      have hat' := hat.left.moveSame hwalk hat.disjoint_comm (expression_same value r)
      have hbind := bind_walk (r.expression value) id name
      have hvalue := expression_scoped value _ hnamed.2 hat.right
        (hwithin.mono (List.subset_append_right _ _)) (hbind.errors herrors)
      refine ⟨hnamed.1, ?_, ?_⟩
      · exact .sub (List.subset_append_left _ _) _ _
          (bind_recorded id name hat'.mirrors (hat'.fresh id (List.mem_singleton_self id)))
      · refine value.scoped_mono ?_ hvalue
        intro id' distance h
        exact .sub (List.subset_append_right _ _) _ _ (h.later hbind hat.disjoint_comm)
  | .call callee _ arguments, r, hnamed, hat, hwithin, herrors => by
      rw [Expr.ids_call] at hat hwithin ⊢
      have hwalk := expression_walk callee r
      have hwalk' := expressions_walk arguments (r.expression callee)
      have hat' := hat.right.moveSame hwalk hat.disjoint (expression_same callee r)
      have hcallee := expression_scoped callee _ hnamed.1 hat.left
        (hwithin.mono (List.subset_append_left _ _)) (hwalk'.errors herrors)
      have harguments := expressions_scoped arguments hnamed.2 hat'
        (hwithin.mono (List.subset_append_right _ _)) herrors
      exact ⟨callee.scoped_mono (fun _ _ h => h.later_append hwalk' hat.disjoint) hcallee,
        Expr.scopedAll_mono (Recorded.sub (List.subset_append_right _ _)) arguments harguments⟩
  | .get object _, _, hnamed, hat, hwithin, herrors =>
      expression_scoped object _ hnamed hat hwithin herrors
  | .set object _ value, r, hnamed, hat, hwithin, herrors => by
      -- The value is walked before the object, against the order of the list.
      rw [Expr.ids_set] at hat hwithin ⊢
      have hwalk := expression_walk value r
      have hwalk' := expression_walk object (r.expression value)
      have hat' := hat.left.moveSame hwalk hat.disjoint_comm (expression_same value r)
      have hvalue := expression_scoped value _ hnamed.2 hat.right
        (hwithin.mono (List.subset_append_right _ _)) (hwalk'.errors herrors)
      have hobject := expression_scoped object _ hnamed.1 hat'
        (hwithin.mono (List.subset_append_left _ _)) herrors
      refine ⟨object.scoped_mono (Recorded.sub (List.subset_append_left _ _)) hobject,
        value.scoped_mono ?_ hvalue⟩
      intro id distance h
      exact .sub (List.subset_append_right _ _) _ _ (h.later hwalk' hat.disjoint_comm)
  | .thisExpr id keyword, r, hnamed, hat, hwithin, herrors => by
      have hid : id ∈ (Expr.thisExpr id keyword).ids := List.mem_singleton_self id
      obtain ⟨method, distance, hmethod, hthis, hreceiver⟩ := receiver_bind hat.agrees herrors
      have hrecorded := bind_recorded id keyword hat.mirrors (hat.fresh id hid)
      rw [hnamed, hthis, ← hreceiver] at hrecorded
      exact ⟨hnamed, ⟨method, hmethod, hwithin method hmethod id hid⟩, distance, hthis, hrecorded⟩
  | .superExpr id keyword method, r, hnamed, hat, hwithin, herrors => by
      have hid : id ∈ (Expr.superExpr id keyword method).ids := List.mem_singleton_self id
      obtain ⟨method, distance, hmethod, hthis, hsuper, hinherited⟩ :=
        inherited_bind hat.agrees herrors
      have hrecorded := bind_recorded id keyword hat.mirrors (hat.fresh id hid)
      rw [hnamed, hsuper, ← hinherited] at hrecorded
      exact ⟨hnamed, ⟨method, hmethod, hwithin method hmethod id hid⟩, distance, hthis, hsuper,
        hrecorded⟩

theorem expressions_scoped : ∀ (list : List Expr) {r : Resolver}, Expr.NamedAll list →
    r.At context (Expr.idsAll list) → context.Within (Expr.idsAll list) →
    (r.expressions list).errors = [] →
    Expr.ScopedAll ((r.expressions list).Recorded (Expr.idsAll list)) context list
  | [], _, _, _, _, _ => trivial
  | e :: rest, r, hnamed, hat, hwithin, herrors => by
      rw [Expr.idsAll_cons] at hat hwithin ⊢
      have hwalk := expression_walk e r
      have hwalk' := expressions_walk rest (r.expression e)
      have hat' := hat.right.moveSame hwalk hat.disjoint (expression_same e r)
      have hscoped := expression_scoped e _ hnamed.1 hat.left
        (hwithin.mono (List.subset_append_left _ _)) (hwalk'.errors herrors)
      have hscoped' := expressions_scoped rest hnamed.2 hat'
        (hwithin.mono (List.subset_append_right _ _)) herrors
      exact ⟨e.scoped_mono (fun _ _ h => h.later_append hwalk' hat.disjoint) hscoped,
        Expr.scopedAll_mono (Recorded.sub (List.subset_append_right _ _)) rest hscoped'⟩
end

end Resolver

end ScopeScript
