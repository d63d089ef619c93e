import ScopeScript.Proofs.Scoping.Concatenation
import ScopeScript.Proofs.Scoping.Visits

/-!
# What the walk opens it closes

Wherever the walk stands, and whatever it has found before, it comes out of a statement as it went
in: in as many scopes, with the same function, class and loops around it, and with all but the
innermost scope untouched. That scope keeps its names, and what the statement has done to it is
complete: no name is left half declared. Errors and warnings are added at the end, and the table of
bindings is written at the references of the statement only, each time with a distance that stays
inside the scopes around the reference. An expression does not even touch the innermost scope.
-/

namespace ScopeScript.Resolver

/-! ## The innermost scope -/

/-- How far a name has come in the innermost scope. -/
def standing? (scopes : List StaticScope) (name : String) : Option Standing :=
  scopes.head?.bind (·.find? name)

/-- Every name stands in the innermost scope as it stood there before, or is defined. -/
def Settles (scopes scopes' : List StaticScope) : Prop :=
  ∀ name, standing? scopes' name = standing? scopes name ∨ standing? scopes' name = some .defined

namespace Settles

variable {scopes scopes' scopes'' : List StaticScope}

theorem refl (scopes : List StaticScope) : Settles scopes scopes :=
  fun _ => .inl rfl

theorem of_eq (h : scopes' = scopes) : Settles scopes scopes' :=
  h ▸ refl scopes

theorem trans (h : Settles scopes scopes') (h' : Settles scopes' scopes'') :
    Settles scopes scopes'' := by
  intro name
  rcases h' name with hsame | hdefined
  · rw [hsame]
    exact h name
  · exact .inr hdefined

end Settles

theorem standing?_declare {r : Resolver} {name : Token} {other : String} (h : other ≠ name.lexeme) :
    standing? (r.declare name).scopes other = standing? r.scopes other := by
  unfold declare
  split
  next => rfl
  next scope outer hscopes =>
    split
    next => rfl
    next => simp [standing?, hscopes, h]

theorem standing?_define {r : Resolver} {name other : String} (h : other ≠ name) :
    standing? (r.define name).scopes other = standing? r.scopes other := by
  unfold define
  split
  next => rfl
  next scope outer hscopes => simp [standing?, hscopes, h]

/-- A name that is defined has come all the way, if it is in a scope at all. -/
theorem standing?_define_self (r : Resolver) (name : String) :
    standing? (r.define name).scopes name = if r.scopes = [] then none else some .defined := by
  unfold define
  split
  next hscopes => simp [standing?, hscopes]
  next scope outer hscopes => simp [standing?, hscopes]

/-- A declaration is completed by a definition, if nothing is done to the scopes in between. -/
theorem declare_define_settles {r r' : Resolver} {name : Token}
    (hbetween : r'.scopes = (r.declare name).scopes) :
    Settles r.scopes (r'.define name.lexeme).scopes := by
  intro other
  by_cases hother : other = name.lexeme
  · obtain rfl := hother
    rw [standing?_define_self]
    split
    next hempty =>
      -- Outside of all scopes nothing is declared either.
      have hheight := (declare_around r name).height
      rw [← hbetween, hempty] at hheight
      rw [List.eq_nil_of_length_eq_zero hheight.symm]
      exact .inl rfl
    next => exact .inr rfl
  · left
    rw [standing?_define hother, hbetween, standing?_declare hother]

theorem introduce_settles (r : Resolver) (name : Token) :
    Settles r.scopes (r.introduce name).scopes :=
  declare_define_settles rfl

/-- A statement leaves no name of the scope around it half declared. -/
theorem statement_settles (s : Stmt) (r : Resolver) :
    Settles r.scopes (r.statement s).scopes := by
  cases s with
  | expression value => exact .of_eq (expression_same value r).scopes
  | print value => exact .of_eq (expression_same value r).scopes
  | varDecl name initializer =>
      exact declare_define_settles (expression?_same _ initializer).scopes
  | letDecl name initializer => exact declare_define_settles (expression_same initializer _).scopes
  | block body => exact .of_eq (statements_around body r.push).pop
  | ifElse condition thenBranch elseBranch =>
      have hthen := (Settles.of_eq (expression_same condition r).scopes).trans
        (statement_settles thenBranch _)
      cases elseBranch with
      | none => exact hthen
      | some elseBranch => exact hthen.trans (statement_settles elseBranch _)
  | whileLoop condition body =>
      -- The count of the loops is no scope.
      have hbody := statement_settles body
        { r.expression condition with loopDepth := (r.expression condition).loopDepth + 1 }
      exact (Settles.of_eq (expression_same condition r).scopes).trans hbody
  | function declaration =>
      exact (introduce_settles r declaration.name).trans
        (.of_eq (function_scopes declaration .function _))
  | returnStmt keyword value =>
      have hcheck := checkReturn_same r keyword value.isSome
      exact .of_eq (hcheck.trans (expression?_same _ value)).scopes
  | breakStmt keyword =>
      rw [statement, checkBreak]
      split <;> exact .refl r.scopes
  | classDecl name superclass methods =>
      exact (introduce_settles { r with enclosingClass := .plain } name).trans
        (.of_eq (leaveClass_scopes (methods_scopes methods _) r.enclosingClass))

/-! ## Errors and warnings -/

/-- Two walks have recorded the same bindings. -/
def Pairing.same : Pairing where
  rename := id
  locals l l' := l' = l
  insert _ _ h := by rw [h, id_eq]

/-- A walk that has found nothing so far stands beside one that has. -/
theorem beside_forgetting (r : Resolver) :
    Beside .same r.errors r.warnings { r with errors := [], warnings := [] } r :=
  ⟨rfl, rfl, rfl, rfl, rfl, (List.append_nil _).symm, (List.append_nil _).symm⟩

theorem Beside.appends {pairing : Pairing} {errors warnings : List ScopeError} {r r' : Resolver}
    (h : Beside pairing errors warnings r r') : errors <+: r'.errors ∧ warnings <+: r'.warnings :=
  ⟨⟨_, h.errors.symm⟩, ⟨_, h.warnings.symm⟩⟩

/-- What was found before stays in front of what an expression adds. -/
theorem expression_appends (e : Expr) (r : Resolver) :
    r.errors <+: (r.expression e).errors ∧ r.warnings <+: (r.expression e).warnings := by
  have hbeside := (expression_beside e (beside_forgetting r)).appends
  have hrename : e.rename Pairing.same.rename = e := e.rename_id
  rwa [hrename] at hbeside

/-- What was found before stays in front of what a statement adds. -/
theorem statement_appends (s : Stmt) (r : Resolver) :
    r.errors <+: (r.statement s).errors ∧ r.warnings <+: (r.statement s).warnings := by
  have hbeside := (statement_beside s (beside_forgetting r)).appends
  have hrename : s.rename Pairing.same.rename = s := s.rename_id
  rwa [hrename] at hbeside

/-- A binding is found inside the scopes that are searched. -/
theorem hops?_lt {name : String} {scopes : List StaticScope} {distance : Nat}
    (h : hops? name scopes = some distance) : distance < scopes.length := by
  induction scopes generalizing distance with
  | nil => cases h
  | cons scope outer ih =>
      rw [hops?] at h
      split at h
      next =>
        obtain rfl := Option.some.inj h
        exact Nat.zero_lt_succ _
      next =>
        obtain ⟨inner, hinner, rfl⟩ := Option.map_eq_some_iff.mp h
        exact Nat.succ_lt_succ (ih hinner)

end ScopeScript.Resolver

namespace ScopeScript

/-! ## Entries -/

/-- What is written for a reference stays inside the scopes around it. -/
theorem Visit.written?_lt {visit : Visit} {id : NodeId} {distance : Nat}
    (h : visit.written? = some (id, distance)) : distance < visit.before.scopes.length := by
  unfold written? at h
  split at h
  · obtain ⟨found, hfound, heq⟩ := Option.map_eq_some_iff.mp h
    cases heq
    exact Resolver.hops?_lt hfound
  · cases h

/-- An entry is there from the beginning, or it is written at one of the visits. -/
theorem Linked.entry {table table' : Locals} {visits : List Visit} (h : Linked table visits table')
    {id : NodeId} {distance : Nat} (hentry : table'[id]? = some distance) :
    table[id]? = some distance ∨ ∃ visit ∈ visits, visit.written? = some (id, distance) := by
  induction h with
  | nil => exact .inl hentry
  | @cons visit rest _ _ ih =>
      rcases ih hentry with hafter | ⟨later, hlater, hwritten⟩
      · rw [visit.after_locals] at hafter
        cases hown : visit.written? with
        | none =>
            rw [hown] at hafter
            exact .inl hafter
        | some entry =>
            rw [hown, Locals.write, Std.ExtTreeMap.getElem?_insert] at hafter
            split at hafter
            next hsame =>
              obtain rfl := Std.LawfulEqCmp.compare_eq_iff_eq.mp hsame
              obtain rfl := Option.some.inj hafter
              exact .inr ⟨visit, List.mem_cons_self, hown⟩
            next => exact .inl hafter
      · exact .inr ⟨later, List.mem_cons_of_mem _ hlater, hwritten⟩

/-- No entry is taken back. -/
theorem Linked.isSome {table table' : Locals} {visits : List Visit} (h : Linked table visits table')
    {id : NodeId} (hentry : table[id]?.isSome) : table'[id]?.isSome := by
  induction h with
  | nil => exact hentry
  | @cons visit rest _ _ ih =>
      apply ih
      rw [visit.after_locals]
      cases visit.written? with
      | none => exact hentry
      | some entry =>
          rw [Locals.write, Std.ExtTreeMap.getElem?_insert]
          split
          next => rfl
          next => exact hentry

/-- An entry that has changed was written at a visit, with a distance inside the scopes there. -/
theorem Linked.changed {table table' : Locals} {visits : List Visit}
    (h : Linked table visits table') {id : NodeId} (hchanged : table'[id]? ≠ table[id]?) :
    ∃ visit ∈ visits, visit.reference.id = id ∧
      ∃ distance, table'[id]? = some distance ∧ distance < visit.before.scopes.length := by
  cases hentry : table'[id]? with
  | none =>
      -- Then there was an entry before, and it would still be there.
      rw [hentry] at hchanged
      have hsome := h.isSome (Option.ne_none_iff_isSome.mp hchanged.symm)
      rw [hentry] at hsome
      cases hsome
  | some distance =>
      rcases h.entry hentry with hbefore | ⟨visit, hvisit, hwritten⟩
      · exact absurd (hentry.trans hbefore.symm) hchanged
      · exact ⟨visit, hvisit, (Visit.written?_id hwritten).symm, distance, rfl,
          Visit.written?_lt hwritten⟩

/-! ## In and out -/

/-- The walk goes over a part of a program with some references, and comes out as it went in. -/
structure Bracketed (r r' : Resolver) (references : List Reference) (visits : List Visit) :
    Prop where
  height : r'.scopes.length = r.scopes.length
  outer : r'.scopes.tail = r.scopes.tail
  /-- The innermost scope has all the names that it had. -/
  names : ∀ name, (Resolver.standing? r.scopes name).isSome →
    (Resolver.standing? r'.scopes name).isSome
  /-- A name that is new in the innermost scope, or stands differently there, is defined. -/
  defined : ∀ name, Resolver.standing? r'.scopes name ≠ Resolver.standing? r.scopes name →
    Resolver.standing? r'.scopes name = some .defined
  enclosingFunction : r'.enclosingFunction = r.enclosingFunction
  enclosingClass : r'.enclosingClass = r.enclosingClass
  loopDepth : r'.loopDepth = r.loopDepth
  errors : r.errors <+: r'.errors
  warnings : r.warnings <+: r'.warnings
  /-- The visits are at the references of the part, one at each. -/
  visited : (visits.map Visit.reference).Perm references
  /-- The table is written at the visits and at no other moment. -/
  linked : Linked r.locals visits r'.locals
  /-- Whatever is written at a visit stays inside the scopes that are there at that moment. -/
  inside : ∀ visit ∈ visits, ∀ id distance, visit.written? = some (id, distance) →
    distance < visit.before.scopes.length
  unchanged : ∀ id, id ∉ references.map Reference.id → r'.locals[id]? = r.locals[id]?
  /-- An entry that has changed is one that was written at a reference with its number. -/
  changed : ∀ id, r'.locals[id]? ≠ r.locals[id]? → ∃ visit ∈ visits, visit.reference.id = id ∧
    ∃ distance, r'.locals[id]? = some distance ∧ distance < visit.before.scopes.length

namespace Resolver

/-- A part of the walk that goes around the scopes in balance is bracketed. -/
theorem bracketed {r r' : Resolver} {references : List Reference} {visits : List Visit}
    (haround : Around r r') (hsettles : Settles r.scopes r'.scopes) (hlevel : Level r r')
    (hclass : r'.enclosingClass = r.enclosingClass)
    (happends : r.errors <+: r'.errors ∧ r.warnings <+: r'.warnings)
    (hvisited : (visits.map Visit.reference).Perm references)
    (hlinked : Linked r.locals visits r'.locals)
    (hwalk : Walk r r' (references.map Reference.id)) : Bracketed r r' references visits where
  height := haround.height
  outer := haround.outer
  names name hname := by
    rcases hsettles name with hsame | hdefined
    · rwa [hsame]
    · rw [hdefined]
      rfl
  defined name hname := (hsettles name).resolve_left hname
  enclosingFunction := hlevel.enclosingFunction
  enclosingClass := hclass
  loopDepth := hlevel.loopDepth
  errors := happends.1
  warnings := happends.2
  visited := hvisited
  linked := hlinked
  inside _ _ _ _ := Visit.written?_lt
  unchanged := hwalk.locals
  changed _ := hlinked.changed

theorem expression_bracketed (e : Expr) (r : Resolver) :
    Bracketed r (r.expression e) e.references (r.visits e) :=
  bracketed (expression_around e r) (.of_eq (expression_same e r).scopes) (expression_level e r)
    (expression_same e r).enclosingClass (expression_appends e r) (visits_references e r)
    (expression_linked e r) (expression_walk e r)

theorem statement_bracketed (s : Stmt) (r : Resolver) :
    Bracketed r (r.statement s) s.references (r.visitsIn s) :=
  bracketed (statement_around s r) (statement_settles s r) (statement_level s r)
    (statement_enclosingClass s r) (statement_appends s r) (visitsIn_references s r)
    (statement_linked s r) (statement_walk s r)

/-- What is known behind the body of a loop, before the loop is left. -/
def behindBody (r : Resolver) (condition : Expr) (body : Stmt) : Resolver :=
  { r.expression condition with loopDepth := (r.expression condition).loopDepth + 1 }.statement body

/-- Behind the body of a loop there is one more loop around the walk than in front of it. -/
theorem behindBody_loopDepth (r : Resolver) (condition : Expr) (body : Stmt) :
    (r.behindBody condition body).loopDepth = r.loopDepth + 1 := by
  have hbody := statement_level body
    { r.expression condition with loopDepth := (r.expression condition).loopDepth + 1 }
  rw [behindBody, hbody.loopDepth, (expression_level condition r).loopDepth]

end Resolver

/-- The walk over a program is properly bracketed: wherever it stands, it comes out of a statement
as it went in, with all that it has found in the statement added to what it had found before.
Whatever loop it comes to, there is a loop to count off behind its body. An expression leaves even
the innermost scope alone. -/
theorem walk_bracketed :
    (∀ (s : Stmt) (r : Resolver), Bracketed r (r.statement s) s.references (r.visitsIn s)) ∧
    (∀ (condition : Expr) (body : Stmt) (r : Resolver),
      r.statement (.whileLoop condition body) =
          { r.behindBody condition body with
            loopDepth := (r.behindBody condition body).loopDepth - 1 }
        ∧ (r.behindBody condition body).loopDepth = r.loopDepth + 1) ∧
    ∀ (e : Expr) (r : Resolver), Bracketed r (r.expression e) e.references (r.visits e)
      ∧ (r.expression e).scopes = r.scopes := by
  refine ⟨Resolver.statement_bracketed, ?_, ?_⟩
  · intro condition body r
    exact ⟨rfl, r.behindBody_loopDepth condition body⟩
  · intro e r
    exact ⟨Resolver.expression_bracketed e r, (Resolver.expression_same e r).scopes⟩

end ScopeScript
