import ScopeScript.Binding.Resolve
import ScopeScript.Proofs.Parsing.Origins

/-!
# Where the tokens of static errors come from

Every static error and every warning is at a token of the program. What the walk binds without one,
`this` and `super` around the methods of a class, it only defines, and that reports nothing.
-/

namespace ScopeScript

namespace Resolver

/-- A property holds of every token at which an error or a warning is noted. -/
def From (p : Token → Prop) (r : Resolver) : Prop :=
  ∀ e ∈ r.errors ++ r.warnings, p e.token

variable {p : Token → Prop} {r : Resolver}

theorem From.error (h : r.From p) {token : Token} (htoken : p token) (cause : ScopeCause) :
    (r.error token cause).From p := by
  intro e he
  simp only [Resolver.error, List.mem_append, List.mem_singleton] at he
  rcases he with (he | rfl) | he
  · exact h e (List.mem_append_left _ he)
  · exact htoken
  · exact h e (List.mem_append_right _ he)

theorem From.warn (h : r.From p) {token : Token} (htoken : p token) (cause : ScopeCause) :
    (r.warn token cause).From p := by
  intro e he
  simp only [Resolver.warn, List.mem_append, List.mem_singleton] at he
  rcases he with he | he | rfl
  · exact h e (List.mem_append_left _ he)
  · exact h e (List.mem_append_right _ he)
  · exact htoken

theorem From.push (h : r.From p) : r.push.From p :=
  h

theorem From.bind (h : r.From p) (id : NodeId) (name : Token) : (r.bind id name).From p := by
  unfold Resolver.bind
  split
  next => exact h
  next => exact h

theorem From.read (h : r.From p) (id : NodeId) {name : Token} (hname : p name) :
    (r.read id name).From p := by
  unfold Resolver.read
  split
  next => exact (h.warn hname _).bind id name
  next => exact h.bind id name

theorem From.receiver (h : r.From p) (id : NodeId) {keyword : Token} (hkeyword : p keyword) :
    (r.receiver id keyword).From p := by
  unfold Resolver.receiver
  split
  next => exact h.error hkeyword _
  next => exact h.bind id keyword

theorem From.inherited (h : r.From p) (id : NodeId) {keyword : Token} (hkeyword : p keyword) :
    (r.inherited id keyword).From p := by
  unfold Resolver.inherited
  split
  next => exact h.error hkeyword _
  next => exact h.error hkeyword _
  next => exact h.bind id keyword

theorem From.declare (h : r.From p) {name : Token} (hname : p name) : (r.declare name).From p := by
  unfold Resolver.declare
  split
  next => exact h
  next =>
    split
    next => exact h.error hname _
    next => exact h

theorem From.define (h : r.From p) (name : String) : (r.define name).From p := by
  unfold Resolver.define
  split
  next => exact h
  next => exact h

theorem From.introduce (h : r.From p) {name : Token} (hname : p name) :
    (r.introduce name).From p :=
  (h.declare hname).define name.lexeme

theorem From.introduceAll (h : r.From p) {params : List Token}
    (hparams : ∀ param ∈ params, p param) :
    (params.foldl Resolver.introduce r).From p := by
  induction params generalizing r with
  | nil => exact h
  | cons name rest ih =>
      obtain ⟨hname, hrest⟩ := List.forall_mem_cons.mp hparams
      exact ih (h.introduce hname) hrest

theorem From.checkReturn (h : r.From p) {keyword : Token} (hkeyword : p keyword) (hasValue : Bool) :
    (r.checkReturn keyword hasValue).From p := by
  unfold Resolver.checkReturn
  dsimp only
  split
  next =>
    have hnoted := h.error hkeyword .returnAtTopLevel
    split
    next => exact hnoted.error hkeyword _
    next => exact hnoted
  next =>
    split
    next => exact h.error hkeyword _
    next => exact h

theorem From.checkBreak (h : r.From p) {keyword : Token} (hkeyword : p keyword) :
    (r.checkBreak keyword).From p := by
  unfold Resolver.checkBreak
  split
  next => exact h.error hkeyword _
  next => exact h

theorem From.checkInheritance (h : r.From p) (name : Token) {superclass : Expr}
    (hsuperclass : superclass.From p) : (r.checkInheritance name superclass).From p := by
  unfold Resolver.checkInheritance
  split
  next =>
    split
    next => exact h.error hsuperclass _
    next => exact h
  next => exact h

mutual
theorem From.expression : ∀ (e : Expr) {r : Resolver}, r.From p → e.From p →
    (r.expression e).From p
  | .literal _, _, h, _ => h
  | .grouping inner, _, h, he => From.expression inner h he
  | .unary _ right, _, h, he => From.expression right h he.2
  | .binary left _ right, _, h, he => From.expression right (From.expression left h he.1) he.2.2
  | .logical left _ right, _, h, he => From.expression right (From.expression left h he.1) he.2.2
  | .variable id _, _, h, he => h.read id he
  | .assign id name value, _, h, he => (From.expression value h he.2).bind id name
  | .call callee _ arguments, _, h, he =>
      From.expressions arguments (From.expression callee h he.1) he.2.2
  | .get object _, _, h, he => From.expression object h he.1
  | .set object _ value, _, h, he =>
      From.expression object (From.expression value h he.2.2) he.1
  | .thisExpr id _, _, h, he => h.receiver id he
  | .superExpr id _ _, _, h, he => h.inherited id he.1

theorem From.expressions : ∀ (list : List Expr) {r : Resolver}, r.From p → Expr.FromAll p list →
    (r.expressions list).From p
  | [], _, h, _ => h
  | e :: rest, _, h, hlist => From.expressions rest (From.expression e h hlist.1) hlist.2
end

theorem From.expression? (h : r.From p) {e : Option Expr} (he : Expr.FromOption p e) :
    (r.expression? e).From p := by
  cases e with
  | none => exact h
  | some e => exact From.expression e h he

theorem From.enterClass (h : r.From p) {name : Token} (hname : p name) {superclass : Option Expr}
    (hsuperclass : Expr.FromOption p superclass) : (r.enterClass name superclass).From p := by
  have hplain : From p { r with enclosingClass := .plain } := h
  have hnamed := hplain.introduce hname
  cases superclass with
  | none =>
      have hpush := hnamed.push
      exact hpush.define "this"
  | some superclass =>
      have hchecked := hnamed.checkInheritance name hsuperclass
      have hderived : From p { ({ r with enclosingClass := .plain }.introduce name).checkInheritance
          name superclass with enclosingClass := .derived } := hchecked
      have hsuper := (From.expression superclass hderived hsuperclass).push.define "super"
      exact hsuper.push.define "this"

theorem From.leaveClass (h : r.From p) (superclass : Option Expr) (outer : ClassContext) :
    (r.leaveClass superclass outer).From p := by
  cases superclass <;> exact h

theorem From.enterFunction (h : r.From p) (context : FunctionContext) {params : List Token}
    (hparams : ∀ param ∈ params, p param) : (r.enterFunction context params).From p := by
  have hinside : From p { r with enclosingFunction := context, loopDepth := 0 } := h
  exact hinside.push.introduceAll hparams

mutual
theorem From.statement : ∀ (s : Stmt) {r : Resolver}, r.From p → s.From p →
    (r.statement s).From p
  | .expression value, _, h, hs => From.expression value h hs
  | .print value, _, h, hs => From.expression value h hs
  | .varDecl name _, _, h, hs => ((h.declare hs.1).expression? hs.2).define name.lexeme
  | .letDecl name value, _, h, hs =>
      (From.expression value (h.declare hs.1) hs.2).define name.lexeme
  | .block body, _, h, hs => From.statements body h.push hs
  | .ifElse condition thenBranch none, _, h, hs =>
      From.statement thenBranch (From.expression condition h hs.1) hs.2
  | .ifElse condition thenBranch (some elseBranch), _, h, hs =>
      From.statement elseBranch
        (From.statement thenBranch (From.expression condition h hs.1) hs.2.1) hs.2.2
  | .whileLoop condition body, r, h, hs => by
      have hinside : From p { r.expression condition with
          loopDepth := (r.expression condition).loopDepth + 1 } := From.expression condition h hs.1
      exact From.statement body hinside hs.2
  | .function ⟨name, params, body⟩, _, h, hs =>
      From.function ⟨name, params, body⟩ .function (h.introduce hs.1) hs
  | .returnStmt _ value, _, h, hs => (h.checkReturn hs.1 value.isSome).expression? hs.2
  | .breakStmt _, _, h, hs => h.checkBreak hs
  | .classDecl _ superclass list, r, h, hs =>
      (From.methods list (h.enterClass hs.1 hs.2.1) hs.2.2).leaveClass superclass r.enclosingClass

theorem From.statements : ∀ (list : List Stmt) {r : Resolver}, r.From p → Stmt.FromAll p list →
    (r.statements list).From p
  | [], _, h, _ => h
  | s :: rest, _, h, hlist => From.statements rest (From.statement s h hlist.1) hlist.2

theorem From.function : ∀ (declaration : FunctionDecl Stmt) (context : FunctionContext)
    {r : Resolver}, r.From p → FunctionDecl.From p declaration →
    (r.function context declaration).From p
  | ⟨_, _, body⟩, context, _, h, hdeclaration =>
      From.statements body (h.enterFunction context hdeclaration.2.1) hdeclaration.2.2

theorem From.methods : ∀ (list : List (FunctionDecl Stmt)) {r : Resolver}, r.From p →
    FunctionDecl.FromAll p list → (r.methods list).From p
  | [], _, h, _ => h
  | method :: rest, _, h, hlist =>
      From.methods rest (From.function method (methodContext method) h hlist.1) hlist.2
end

end Resolver

variable {p : Token → Prop} {program : Program}

/-- Static errors are at tokens of the program. -/
theorem resolve_errors_from (hprogram : Stmt.FromAll p program) {errors : List ScopeError}
    (h : resolve program = .error errors) : ∀ e ∈ errors, p e.token := by
  have hwalk : (Resolver.start.statements program).From p :=
    Resolver.From.statements program (fun _ he => nomatch he) hprogram
  unfold resolve at h
  dsimp only at h
  split at h
  next => cases h
  next =>
    cases h
    exact fun e he => hwalk e (List.mem_append_left _ he)

/-- Warnings are at tokens of the program. -/
theorem resolve_warnings_from (hprogram : Stmt.FromAll p program) {resolution : Resolution}
    (h : resolve program = .ok resolution) : ∀ e ∈ resolution.warnings, p e.token := by
  have hwalk : (Resolver.start.statements program).From p :=
    Resolver.From.statements program (fun _ he => nomatch he) hprogram
  unfold resolve at h
  dsimp only at h
  split at h
  next =>
    cases h
    exact fun e he => hwalk e (List.mem_append_right _ he)
  next => cases h

end ScopeScript
