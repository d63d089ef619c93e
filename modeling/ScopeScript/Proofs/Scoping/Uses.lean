import ScopeScript.Proofs.Scoping.Context

/-!
# What code does with names, and how far in

Code refers to names and declares them, in the scope that it runs in or so many scopes further in.
In a well-scoped program, a name that lies so many scopes outward is referred to by at most so many
hops more than the reference lies further in: a nearer declaration may hide it, but nothing looks
past it. And what a statement declares in its own scope is the one name that it is a declaration of.
-/

namespace ScopeScript

/-- Something that is done with a name. -/
inductive Act where
  | refers (reference : Reference)
  | declares (name : Token)

/-- Something that code does with a name, so many scopes further in than the code itself runs. -/
structure Use where
  depth : Nat
  act : Act

namespace Use

/-- References that are followed where the code itself runs. -/
def here (references : List Reference) : List Use :=
  references.map fun reference => ⟨0, .refers reference⟩

/-- A declaration where the code itself runs. -/
def declares (name : Token) : Use :=
  ⟨0, .declares name⟩

/-- What is done one scope further in. -/
def inside (uses : List Use) : List Use :=
  uses.map fun use => ⟨use.depth + 1, use.act⟩

end Use

mutual
/-- What a statement does with names. -/
def Stmt.uses : Stmt → List Use
  | .expression value | .print value => Use.here value.references
  | .varDecl name initializer => .declares name :: Use.here (Expr.referencesOption initializer)
  | .letDecl name initializer => .declares name :: Use.here initializer.references
  | .block body => Use.inside (Stmt.usesAll body)
  | .ifElse condition thenBranch none => Use.here condition.references ++ thenBranch.uses
  | .ifElse condition thenBranch (some elseBranch) =>
    Use.here condition.references ++ (thenBranch.uses ++ elseBranch.uses)
  | .whileLoop condition body => Use.here condition.references ++ body.uses
  | .function declaration => .declares declaration.name :: FunctionDecl.uses declaration
  | .returnStmt _ value => Use.here (Expr.referencesOption value)
  | .breakStmt _ => []
  | .classDecl name none methods => .declares name :: FunctionDecl.usesAll methods
  | .classDecl name (some superclass) methods =>
    .declares name :: (Use.here superclass.references ++ Use.inside (FunctionDecl.usesAll methods))

/-- What statements do with names. -/
def Stmt.usesAll : List Stmt → List Use
  | [] => []
  | s :: rest => s.uses ++ Stmt.usesAll rest

/-- What a function does with names. Its body runs in a scope inside the one that it was declared
in. -/
def FunctionDecl.uses : FunctionDecl Stmt → List Use
  | ⟨_, _, body⟩ => Use.inside (Stmt.usesAll body)

/-- What methods do with names. Binding one to an instance puts a scope around it. -/
def FunctionDecl.usesAll : List (FunctionDecl Stmt) → List Use
  | [] => []
  | method :: rest => Use.inside (FunctionDecl.uses method) ++ FunctionDecl.usesAll rest
end

theorem FunctionDecl.uses_eq (declaration : FunctionDecl Stmt) :
    FunctionDecl.uses declaration = Use.inside (Stmt.usesAll declaration.body) := by
  cases declaration
  rw [FunctionDecl.uses]

theorem FunctionDecl.uses_subset_usesAll {methods : List (FunctionDecl Stmt)}
    {method : FunctionDecl Stmt} (hmem : method ∈ methods) :
    Use.inside (FunctionDecl.uses method) ⊆ FunctionDecl.usesAll methods := by
  induction methods with
  | nil => cases hmem
  | cons first rest ih =>
      rw [FunctionDecl.usesAll]
      rcases List.mem_cons.mp hmem with rfl | hmem
      · exact List.subset_append_left _ _
      · exact List.subset_append_of_subset_right _ (ih hmem)

/-! ## Well-scoped code -/

namespace Context

/-- A name is bound at most so many scopes outward. -/
def BoundWithin (context : Context) (name : String) (bound : Nat) : Prop :=
  ∃ distance ≤ bound, context.hops? name = some distance

variable {context : Context} {name : String} {bound : Nat}

theorem BoundWithin.layer (h : context.BoundWithin name bound) (layer : Layer) :
    Context.BoundWithin (layer :: context) name (bound + 1) := by
  obtain ⟨distance, hle, hhops⟩ := h
  by_cases hmem : name ∈ layer.bound
  · exact ⟨0, Nat.zero_le _, hops?_of_mem hmem⟩
  · exact ⟨distance + 1, Nat.succ_le_succ hle, by rw [hops?_of_not_mem hmem, hhops]; rfl⟩

theorem BoundWithin.declare (h : context.BoundWithin name bound) (declared : String) :
    (context.declare declared).BoundWithin name bound := by
  obtain ⟨distance, hle, hhops⟩ := h
  cases context with
  | nil => exact ⟨distance, hle, hhops⟩
  | cons layer outer =>
      cases layer with
      | receiver | inherited => exact ⟨distance, hle, hhops⟩
      | names list =>
          by_cases hname : name = declared
          · exact ⟨0, Nat.zero_le _, hops?_of_mem (by simp [Layer.bound, hname])⟩
          · refine ⟨distance, hle, ?_⟩
            rw [← hhops]
            exact hops?_congr (by simp [hname])

theorem BoundWithin.after (h : context.BoundWithin name bound) (stmt : Stmt) :
    (stmt.after context).BoundWithin name bound := by
  unfold Stmt.after
  split
  next => exact h.declare _
  next => exact h

end Context

section Near

variable {points : NodeId → Option Nat → Prop} {name : String} {bound : Nat}

/-- Where a reference has a name, it is recorded with at most so many hops. -/
def Reference.Near (points : NodeId → Option Nat → Prop) (name : String) (bound : Nat)
    (reference : Reference) : Prop :=
  reference.name.lexeme = name → ∃ distance ≤ bound, points reference.id (some distance)

theorem Reference.Near.mono {reference : Reference} {bound' : Nat}
    (h : reference.Near points name bound) (hle : bound ≤ bound') :
    reference.Near points name bound' := by
  intro hname
  obtain ⟨distance, hdistance, hpoint⟩ := h hname
  exact ⟨distance, Nat.le_trans hdistance hle, hpoint⟩

/-- No reference to a name looks further than so many scopes outward from where code runs. -/
def Use.Near (points : NodeId → Option Nat → Prop) (name : String) (bound : Nat)
    (uses : List Use) : Prop :=
  ∀ use ∈ uses, ∀ reference, use.act = .refers reference →
    reference.Near points name (bound + use.depth)

namespace Use

theorem near_append {first second : List Use} : Near points name bound (first ++ second) ↔
    Near points name bound first ∧ Near points name bound second :=
  List.forall_mem_append

theorem near_declares {declared : Token} {rest : List Use} :
    Near points name bound (.declares declared :: rest) ↔ Near points name bound rest :=
  List.forall_mem_cons.trans (and_iff_right nofun)

theorem near_here {references : List Reference}
    (h : ∀ reference ∈ references, reference.Near points name bound) :
    Near points name bound (here references) := by
  intro use huse reference hact
  obtain ⟨other, hmem, rfl⟩ := List.mem_map.mp huse
  cases hact
  exact h reference hmem

theorem near_inside {uses : List Use} (h : Near points name (bound + 1) uses) :
    Near points name bound (inside uses) := by
  intro use huse reference hact
  obtain ⟨inner, hmem, rfl⟩ := List.mem_map.mp huse
  rw [Nat.add_comm inner.depth, ← Nat.add_assoc]
  exact h inner hmem reference hact

end Use

/-- A reference that is recorded as its context says is near. -/
theorem Context.BoundWithin.near {context : Context} (hbound : context.BoundWithin name bound)
    {reference : Reference} (h : points reference.id (context.hops? reference.name.lexeme)) :
    reference.Near points name bound := by
  rintro rfl
  obtain ⟨distance, hle, hhops⟩ := hbound
  exact ⟨distance, hle, hhops ▸ h⟩

mutual
theorem Expr.Scoped.near {context : Context} (hbound : context.BoundWithin name bound) :
    ∀ {e : Expr}, e.Scoped points context →
      ∀ reference ∈ e.references, reference.Near points name bound
  | .literal _, _ => List.forall_mem_nil _
  | .unary _ right, h => Expr.Scoped.near hbound (e := right) h
  | .binary .., h | .logical .., h | .set .., h =>
      List.forall_mem_append.mpr ⟨Expr.Scoped.near hbound h.1, Expr.Scoped.near hbound h.2⟩
  | .grouping inner, h => Expr.Scoped.near hbound (e := inner) h
  | .variable .., h => List.forall_mem_singleton.mpr (hbound.near h.2)
  | .assign .., h =>
      List.forall_mem_cons.mpr ⟨hbound.near h.2.1, Expr.Scoped.near hbound h.2.2⟩
  | .call .., h =>
      List.forall_mem_append.mpr ⟨Expr.Scoped.near hbound h.1, Expr.ScopedAll.near hbound h.2⟩
  | .get object _, h => Expr.Scoped.near hbound (e := object) h
  | .superExpr id keyword _, ⟨hkeyword, _, distance, _, hsuper, hpoint⟩ => by
      refine List.forall_mem_singleton.mpr (hbound.near ?_)
      change points id (context.hops? keyword.lexeme)
      rwa [hkeyword, hsuper]
  | .thisExpr id keyword, ⟨hkeyword, _, distance, hthis, hpoint⟩ => by
      refine List.forall_mem_singleton.mpr (hbound.near ?_)
      change points id (context.hops? keyword.lexeme)
      rwa [hkeyword, hthis]

theorem Expr.ScopedAll.near {context : Context} (hbound : context.BoundWithin name bound) :
    ∀ {list : List Expr}, Expr.ScopedAll points context list →
      ∀ reference ∈ Expr.referencesAll list, reference.Near points name bound
  | [], _ => List.forall_mem_nil _
  | _ :: _, h =>
      List.forall_mem_append.mpr ⟨Expr.Scoped.near hbound h.1, Expr.ScopedAll.near hbound h.2⟩
end

theorem Expr.ScopedOption.near {context : Context} (hbound : context.BoundWithin name bound)
    {e : Option Expr} (h : Expr.ScopedOption points context e) :
    ∀ reference ∈ Expr.referencesOption e, reference.Near points name bound := by
  cases e with
  | none => exact List.forall_mem_nil _
  | some e => exact Expr.Scoped.near hbound h

mutual
/-- No reference in a well-scoped statement looks past a name that lies so many scopes outward. -/
theorem Stmt.Scoped.near {context : Context} {bound : Nat}
    (hbound : context.BoundWithin name bound) :
    ∀ {s : Stmt}, s.Scoped points context → Use.Near points name bound s.uses
  | .expression _, h | .print _, h => Use.near_here (Expr.Scoped.near hbound h)
  | .varDecl .., h => Use.near_declares.mpr (Use.near_here (h.2.2.near hbound))
  | .letDecl .., h => Use.near_declares.mpr (Use.near_here (h.2.2.near hbound))
  | .block _, h => Use.near_inside (Stmt.ScopedAll.near (hbound.layer (.names [])) h)
  | .ifElse _ _ none, h =>
      Use.near_append.mpr ⟨Use.near_here (h.1.near hbound), Stmt.Scoped.near hbound h.2.2⟩
  | .ifElse _ _ (some _), h =>
      Use.near_append.mpr ⟨Use.near_here (h.1.near hbound), Use.near_append.mpr
        ⟨Stmt.Scoped.near hbound h.2.2.1, Stmt.Scoped.near hbound h.2.2.2.2⟩⟩
  | .whileLoop .., h =>
      Use.near_append.mpr ⟨Use.near_here (h.1.near hbound), Stmt.Scoped.near hbound h.2.2⟩
  | .function _, h =>
      Use.near_declares.mpr (FunctionDecl.Scoped.near (hbound.declare _) h.2.2)
  | .returnStmt _ _, h => Use.near_here (Expr.ScopedOption.near hbound h)
  | .breakStmt _, _ => List.forall_mem_nil _
  | .classDecl _ none _, h =>
      Use.near_declares.mpr (FunctionDecl.ScopedAll.near (hbound.declare _) h.2.2.2)
  | .classDecl _ (some _) _, h =>
      Use.near_declares.mpr (Use.near_append.mpr ⟨Use.near_here (h.2.2.1.near hbound),
        Use.near_inside
          (FunctionDecl.ScopedAll.near ((hbound.declare _).layer .inherited) h.2.2.2)⟩)

theorem Stmt.ScopedAll.near {context : Context} {bound : Nat}
    (hbound : context.BoundWithin name bound) :
    ∀ {list : List Stmt}, Stmt.ScopedAll points context list →
      Use.Near points name bound (Stmt.usesAll list)
  | [], _ => List.forall_mem_nil _
  | s :: _, h =>
      Use.near_append.mpr ⟨Stmt.Scoped.near hbound h.1, Stmt.ScopedAll.near (hbound.after s) h.2⟩

theorem FunctionDecl.Scoped.near {context : Context} {bound : Nat}
    (hbound : context.BoundWithin name bound) :
    ∀ {declaration : FunctionDecl Stmt}, FunctionDecl.Scoped points context declaration →
      Use.Near points name bound (FunctionDecl.uses declaration)
  | ⟨_, _, _⟩, h => Use.near_inside (Stmt.ScopedAll.near (hbound.layer _) h.2.2)

theorem FunctionDecl.ScopedAll.near {context : Context} {bound : Nat}
    (hbound : context.BoundWithin name bound) :
    ∀ {methods : List (FunctionDecl Stmt)}, FunctionDecl.ScopedAll points context methods →
      Use.Near points name bound (FunctionDecl.usesAll methods)
  | [], _ => List.forall_mem_nil _
  | method :: _, h =>
      Use.near_append.mpr
        ⟨Use.near_inside (FunctionDecl.Scoped.near (hbound.layer (.receiver method)) h.1),
          FunctionDecl.ScopedAll.near hbound h.2⟩
end

/-! ## Declarations -/

theorem Use.declares_not_mem_here {declared : Token} {references : List Reference} :
    Use.declares declared ∉ Use.here references := by
  intro hmem
  obtain ⟨_, -, heq⟩ := List.mem_map.mp hmem
  cases heq

theorem Use.declares_not_mem_inside {declared : Token} {uses : List Use} :
    Use.declares declared ∉ Use.inside uses := by
  intro hmem
  obtain ⟨_, -, heq⟩ := List.mem_map.mp hmem
  cases heq

theorem FunctionDecl.declares_not_mem_uses {declared : Token} (declaration : FunctionDecl Stmt) :
    Use.declares declared ∉ FunctionDecl.uses declaration := by
  rw [FunctionDecl.uses_eq]
  exact Use.declares_not_mem_inside

theorem FunctionDecl.declares_not_mem_usesAll {declared : Token}
    (methods : List (FunctionDecl Stmt)) :
    Use.declares declared ∉ FunctionDecl.usesAll methods := by
  induction methods with
  | nil => exact List.not_mem_nil
  | cons method rest ih =>
      rw [FunctionDecl.usesAll]
      exact List.not_mem_append Use.declares_not_mem_inside ih

theorem Use.declared_of_mem_cons {name declared : Token} {rest : List Use}
    (hmem : Use.declares declared ∈ Use.declares name :: rest)
    (hrest : Use.declares declared ∉ rest) : some name = some declared := by
  rcases List.mem_cons.mp hmem with heq | hmem
  · cases heq
    rfl
  · exact (hrest hmem).elim

/-- What a well-scoped statement declares where it stands is the name that it is a declaration of:
the branches of an `if` and the body of a `while` declare nothing there. -/
theorem Stmt.Scoped.declared {context : Context} {declared : Token} :
    ∀ {s : Stmt}, s.Scoped points context → Use.declares declared ∈ s.uses →
      s.declared? = some declared
  | .expression _, _, hmem | .print _, _, hmem => (Use.declares_not_mem_here hmem).elim
  | .varDecl .., _, hmem | .letDecl .., _, hmem =>
      Use.declared_of_mem_cons hmem Use.declares_not_mem_here
  | .block _, _, hmem => (Use.declares_not_mem_inside hmem).elim
  | .ifElse _ thenBranch none, h, hmem => by
      rcases List.mem_append.mp hmem with hmem | hmem
      · exact (Use.declares_not_mem_here hmem).elim
      · have hthen := Stmt.Scoped.declared (s := thenBranch) h.2.2 hmem
        rw [h.2.1] at hthen
        cases hthen
  | .ifElse _ thenBranch (some elseBranch), h, hmem => by
      rcases List.mem_append.mp hmem with hmem | hmem
      · exact (Use.declares_not_mem_here hmem).elim
      · rcases List.mem_append.mp hmem with hmem | hmem
        · have hthen := Stmt.Scoped.declared (s := thenBranch) h.2.2.1 hmem
          rw [h.2.1] at hthen
          cases hthen
        · have helse := Stmt.Scoped.declared (s := elseBranch) h.2.2.2.2 hmem
          rw [h.2.2.2.1] at helse
          cases helse
  | .whileLoop _ body, h, hmem => by
      rcases List.mem_append.mp hmem with hmem | hmem
      · exact (Use.declares_not_mem_here hmem).elim
      · have hbody := Stmt.Scoped.declared (s := body) h.2.2 hmem
        rw [h.2.1] at hbody
        cases hbody
  | .function declaration, _, hmem =>
      Use.declared_of_mem_cons hmem (FunctionDecl.declares_not_mem_uses declaration)
  | .returnStmt .., _, hmem => (Use.declares_not_mem_here hmem).elim
  | .breakStmt _, _, hmem => (List.not_mem_nil hmem).elim
  | .classDecl _ none methods, _, hmem =>
      Use.declared_of_mem_cons hmem (FunctionDecl.declares_not_mem_usesAll methods)
  | .classDecl _ (some _) _, _, hmem =>
      Use.declared_of_mem_cons hmem
        (List.not_mem_append Use.declares_not_mem_here Use.declares_not_mem_inside)

end Near

end ScopeScript
