import ScopeScript.Proofs.Execution.Loops
import ScopeScript.Proofs.Parsing.Clauses
import ScopeScript.Proofs.Parsing.Joining
import ScopeScript.Proofs.Session.Laws

/-!
# The variable of a loop

A `for` loop has one scope and binds its variable there once. The scope that each pass opens lies
inside that one and stays empty for ever. So whatever refers to the variable of the loop, in any
pass and in any function that was made in one, reads and writes the one binding.
-/

namespace ScopeScript

/-- The variable that the first clause of a loop declares, if it declares one. -/
def ForClauses.declared? (clauses : ForClauses) : Option Token :=
  clauses.initializer.bind Stmt.declared?

/-- The numbers of the references in the first clause of a loop. -/
def ForClauses.initialIds (clauses : ForClauses) : List NodeId :=
  Stmt.idsAll clauses.initializer.toList

/-! ## Laws for the scope of a block -/

namespace Law

/-- In one scope, nothing is declared but one name, if any. -/
def declaresOnly (scope : ScopeId) (name? : Option Token) : Law :=
  fun id depth act => id = scope → depth = 0 → ∀ name, act = .declares name → name? = some name

/-- In code that lies so many scopes inside one scope of a store, no reference to a name looks
further than that scope, except for a few. -/
def looksNoFurther (points : NodeId → Option Nat → Prop) (name : String) (except : List NodeId)
    (store : Store) (scope : ScopeId) : Law :=
  fun id depth act => ∀ reference, act = .refers reference → reference.id ∉ except →
    ∀ distance, store.outward? id distance = some scope →
      reference.Near points name (distance + depth)

theorem declaresOnly_of_ne {scope id : ScopeId} {name? : Option Token} (h : id ≠ scope)
    (depth : Nat) (act : Act) : declaresOnly scope name? id depth act :=
  fun heq => (h heq).elim

/-- A scope that lies inside another one lies one scope further in than its parent does. -/
theorem looksNoFurther_spreads {points : NodeId → Option Nat → Prop} {name : String}
    {except : List NodeId} {before after : Store} {scope : ScopeId}
    (hscope : scope < before.scopes.size) :
    (looksNoFurther points name except after scope).Spreads before after := by
  intro id parent hid hparent depth act hlaw reference hact hexcept distance hout
  cases distance with
  | zero =>
      obtain rfl : id = scope := Option.some.inj hout
      exact absurd hscope (Nat.not_lt_of_le hid)
  | succ distance =>
      rw [Store.outward?_succ hparent] at hout
      have hnear := hlaw reference hact hexcept distance hout
      rwa [Nat.add_right_comm]

end Law

theorem Store.Grounded.outward?_le {store : Store} {globals : ScopeId}
    (h : store.Grounded globals) {id other : ScopeId} {distance : Nat}
    (hout : store.outward? id distance = some other) : other ≤ id := by
  induction distance generalizing id with
  | zero => exact Nat.le_of_eq (Option.some.inj hout).symm
  | succ distance ih =>
      obtain ⟨parent, hparent, hout⟩ := Option.bind_eq_some_iff.mp hout
      exact Nat.le_trans (ih hout) (Nat.le_of_lt (h.outer?_lt id parent hparent))

/-- Behind a declaration in a new scope, the name is bound there. -/
theorem Stmt.boundWithin_after {s : Stmt} {name : Token} (h : s.declared? = some name)
    (context : Context) :
    (s.after (.names [] :: context)).BoundWithin name.lexeme 0 := by
  rw [Stmt.after, h]
  exact ⟨0, Nat.le_refl 0, Context.hops?_of_mem (List.mem_singleton_self _)⟩

/-- What the first clause of a loop refers to are its references. -/
theorem Stmt.Initial.mem_references {s : Stmt} (h : s.Initial) {depth : Nat} {reference : Reference}
    (huse : ⟨depth, .refers reference⟩ ∈ s.uses) : reference ∈ s.references := by
  have hhere : ∀ {references : List Reference},
      ⟨depth, .refers reference⟩ ∈ Use.here references → reference ∈ references := by
    intro references huse
    obtain ⟨other, hmem, heq⟩ := List.mem_map.mp huse
    cases heq
    exact hmem
  cases h with
  | varDecl | letDecl =>
      rcases List.mem_cons.mp huse with heq | huse
      · cases heq
      · exact hhere huse
  | expression => exact hhere huse

/-- A first clause that ends normally has bound the name that it declares. -/
theorem Stmt.Initial.binds {s : Stmt} (h : s.Initial) {token : Token}
    (hdeclared : s.declared? = some token) {state last : State}
    (hcurrent : state.current < state.store.scopes.size)
    (hruns : Executes s state (.flow .normal) last) :
    (last.store.binding? state.current token.lexeme).isSome := by
  have hdeclare : ∀ {binding : Binding} {middle : State}, middle.current = state.current →
      state.current < middle.store.scopes.size →
      Ends ((declareMove token binding middle).onto []) (.flow .normal) last →
      (last.store.binding? state.current token.lexeme).isSome := by
    intro binding middle hsame hmiddle hmove
    unfold declareMove at hmove
    split at hmove
    next => cases hmove.of_done.1
    next =>
      obtain ⟨-, rfl⟩ := hmove.of_done
      show ((middle.store.bind middle.current token.lexeme binding).binding?
        state.current token.lexeme).isSome
      rw [Store.binding?_bind (hsame.symm ▸ hmiddle), if_pos ⟨hsame.symm, rfl⟩]
      rfl
  have hvalue : ∀ {value : Expr} {mutable : Bool},
      Ends ⟨.eval value, [.declare token mutable], state⟩ (.flow .normal) last →
      (last.store.binding? state.current token.lexeme).isSome := by
    intro value mutable hframe
    obtain ⟨inner, middle, heval, hrest⟩ := ends_before.mp hframe
    rcases heval.of_eval with ⟨value, rfl⟩ | ⟨cause, rfl⟩
    · exact hdeclare heval.current (Nat.lt_of_lt_of_le hcurrent heval.edits.extends.scopes) hrest
    · cases hrest.of_done.1
  rw [ends_exec] at hruns
  cases h with
  | varDecl name value? =>
      obtain rfl : name = token := Option.some.inj hdeclared
      cases value? with
      | none => exact hdeclare rfl hcurrent hruns
      | some value => exact hvalue hruns
  | letDecl name value =>
      obtain rfl : name = token := Option.some.inj hdeclared
      exact hvalue hruns
  | expression => cases hdeclared

namespace Point

variable {p q : Point} {body : List Stmt}

/-- The point one step later. -/
def after (p : Point) : Point :=
  ⟨p.nextId, step p.config⟩

theorem Occurs.after (h : p.Occurs) : p.after.Occurs :=
  h.next (.step p)

/-- Where a block is entered, its scope is new, empty, and inside the current one. -/
theorem after_block (hcontrol : p.config.control = .exec (.block body)) :
    p.after.store = (p.store.addScope (.empty (some p.state.current))).2 := by
  obtain ⟨nextId, control, frames, state⟩ := p
  obtain rfl : control = .exec (.block body) := hcontrol
  rfl

theorem lt_size_after_block (hcontrol : p.config.control = .exec (.block body)) :
    p.store.scopes.size < p.after.store.scopes.size := by
  rw [after_block hcontrol]
  simp [Store.addScope]

/-- The scope of a block stays inside the one that was current. -/
theorem Occurs.parent_block (h : p.Occurs) (hcontrol : p.config.control = .exec (.block body))
    (hleads : p.after.Leads q) :
    (q.store.scope p.store.scopes.size).parent = some p.state.current := by
  refine (h.after.grows hleads).parent _ _ ?_
  rw [after_block hcontrol, Store.scope_addScope, if_pos rfl]
  rfl

/-- The outermost scope is older than one that is made now. -/
theorem Occurs.globals_after (h : p.Occurs) : p.after.state.globals < p.store.scopes.size := by
  have hsame : p.after.state.globals = p.state.globals := Leads.globals (.single (.step p))
  rw [hsame]
  exact h.driven.grounded.state.store.inside

/-- The scope of a block never binds a name that the statements of the block do not declare. -/
theorem Occurs.bound_in_block (h : p.Occurs) (hcontrol : p.config.control = .exec (.block body))
    {name? : Option Token}
    (hbody : ∀ name, Use.declares name ∈ Stmt.usesAll body → name? = some name)
    (hleads : p.after.Leads q) {name : String}
    (hbound : (q.store.binding? p.store.scopes.size name).isSome) :
    ∃ token, name? = some token ∧ token.lexeme = name := by
  let law := Law.declaresOnly p.store.scopes.size name?
  have hpermits : law.PermitsConfig p.after.config := by
    refine Law.permitsConfig_enter h.driven.grounded hcontrol ?_ ?_
    · exact fun id hid => Law.declaresOnly_of_ne (Nat.ne_of_lt hid)
    · rintro ⟨depth, act⟩ huse - rfl name rfl
      exact hbody name huse
  have hglobal : ∀ depth act, law p.after.state.globals depth act :=
    Law.declaresOnly_of_ne (Nat.ne_of_lt h.globals_after)
  have hspreads : law.Spreads p.after.store q.store := by
    intro id parent hid _ depth act _
    exact Law.declaresOnly_of_ne (Nat.ne_of_gt
      (Nat.lt_of_lt_of_le (lt_size_after_block hcontrol) hid)) depth act
  obtain ⟨-, hbinds⟩ := h.after.permits_leads hpermits hglobal hleads hspreads
  rcases hbinds _ (lt_size_after_block hcontrol) name hbound with hbound | ⟨token, rfl, hlaw⟩
  · rw [after_block hcontrol, Store.binding?_addScope, if_pos rfl] at hbound
    cases hbound
  · exact ⟨token, hlaw rfl rfl token rfl, rfl⟩

/-- A statement is well scoped where it is executed, and what is recorded about its references is
known there. -/
theorem Occurs.scoped (h : p.Occurs) {s : Stmt} (hcontrol : p.config.control = .exec s) :
    ∃ points context, (∀ id distance, points id distance → p.state.locals[id]? = distance)
      ∧ s.Scoped points context := by
  obtain ⟨points, w, config', -, -, hagree⟩ := h.sound
  obtain ⟨context, await, context', -, hgives, -⟩ := hagree.work
  rw [hcontrol] at hgives
  cases hgives with
  | exec hscoped => exact ⟨points, context, hagree.state.locals.known, hscoped⟩

/-! ## The scope of a loop -/

variable {clauses : ForClauses} {stmt : Stmt}

/-- The scope of a loop never binds anything but the variable of the loop. -/
theorem Occurs.bound_in_loop (h : p.Occurs)
    (hcontrol : p.config.control = .exec (clauses.loop stmt)) (hleads : p.after.Leads q)
    {name : String} (hbound : (q.store.binding? p.store.scopes.size name).isSome) :
    ∃ token, clauses.declared? = some token ∧ token.lexeme = name := by
  obtain ⟨points, context, -, hscoped⟩ := h.scoped hcontrol
  rw [ForClauses.loop_eq] at hscoped
  refine h.bound_in_block hcontrol ?_ hleads hbound
  intro declared hmem
  have hloop : ∀ {context : Context},
      (Stmt.whileLoop clauses.test (clauses.pass stmt)).Scoped points context →
      Use.declares declared ∉ (Stmt.whileLoop clauses.test (clauses.pass stmt)).uses :=
    fun hscoped hmem => nomatch hscoped.declared hmem
  cases hinitializer : clauses.initializer with
  | none =>
      rw [hinitializer] at hscoped hmem
      rcases List.mem_append.mp hmem with hmem | hmem
      · exact (hloop hscoped.1 hmem).elim
      · cases hmem
  | some initializer =>
      rw [hinitializer] at hscoped hmem
      rw [ForClauses.declared?, hinitializer]
      rcases List.mem_append.mp hmem with hmem | hmem
      · exact hscoped.1.declared hmem
      · rcases List.mem_append.mp hmem with hmem | hmem
        · exact (hloop hscoped.2.1 hmem).elim
        · cases hmem

/-- No reference that lies so many scopes inside a loop looks further for the variable of the loop
than the scope of the loop. -/
theorem Occurs.loop_near (h : p.Occurs)
    (hcontrol : p.config.control = .exec (clauses.loop stmt))
    (hinitial : ∀ s, clauses.initializer = some s → s.Initial) {token : Token}
    (hvariable : clauses.declared? = some token) (hleads : p.after.Leads q) {id : NodeId}
    {name : Token} {distance : Nat} (href : q.config.reference? = some (id, name))
    (hname : name.lexeme = token.lexeme) (hid : id ∉ clauses.initialIds)
    (hout : q.store.outward? q.state.current distance = some p.store.scopes.size) :
    ∃ hops ≤ distance, q.state.locals[id]? = some hops := by
  obtain ⟨points, context, hlocals, hscoped⟩ := h.scoped hcontrol
  rw [ForClauses.loop_eq] at hscoped
  have hsize : p.store.scopes.size < p.after.store.scopes.size := lt_size_after_block hcontrol
  have hq : q.store.Grounded q.state.globals := (h.after.leads hleads).driven.grounded.state.store
  let law := Law.looksNoFurther points token.lexeme clauses.initialIds q.store p.store.scopes.size
  -- Nothing outward of a scope that was there is newer than it.
  have hbelow : ∀ id < p.store.scopes.size, ∀ depth act, law id depth act := by
    intro id hid depth act reference _ _ distance hout
    exact absurd hid (Nat.not_lt_of_le (hq.outward?_le hout))
  have hbody : law.Permits p.store.scopes.size (Stmt.usesAll
      (clauses.initializer.toList ++ [.whileLoop clauses.test (clauses.pass stmt)])) := by
    obtain ⟨initializer, hinitializer, hdeclared⟩ := Option.bind_eq_some_iff.mp hvariable
    rw [hinitializer] at hscoped ⊢
    have hnear := hscoped.2.1.near (Stmt.boundWithin_after hdeclared context)
    rintro ⟨depth, act⟩ huse reference rfl hexcept distance -
    rcases List.mem_append.mp huse with huse | huse
    · -- What the first clause refers to is excepted.
      refine (hexcept ?_).elim
      rw [ForClauses.initialIds, hinitializer, Option.toList_some, Stmt.idsAll_cons]
      exact List.mem_append_left _ (List.mem_map_of_mem
        ((hinitial initializer hinitializer).mem_references huse))
    · rcases List.mem_append.mp huse with huse | huse
      · exact (hnear _ huse reference rfl).mono (by omega)
      · cases huse
  have hpermits : law.PermitsConfig p.after.config :=
    Law.permitsConfig_enter h.driven.grounded hcontrol hbelow hbody
  obtain ⟨hconfig, -⟩ := h.after.permits_leads hpermits (hbelow _ h.globals_after) hleads
    (Law.looksNoFurther_spreads hsize)
  obtain ⟨kind, hlaw⟩ := hconfig.reference href
  obtain ⟨hops, hle, hpoint⟩ := hlaw _ rfl hid distance hout hname
  exact ⟨hops, hle, h.locals_leads (hlocals id _ hpoint) (.head (.step p) hleads)⟩

/-- Whatever refers to the variable of a loop from inside the loop, with no nearer scope that binds
the name, reads and writes it in the scope of the loop. -/
theorem Occurs.follows_to_loop (h : p.Occurs)
    (hcontrol : p.config.control = .exec (clauses.loop stmt))
    (hinitial : ∀ s, clauses.initializer = some s → s.Initial) {token : Token}
    (hvariable : clauses.declared? = some token) (hleads : p.after.Leads q) {id : NodeId}
    {name : Token} {distance : Nat} (href : q.config.reference? = some (id, name))
    (hname : name.lexeme = token.lexeme) (hid : id ∉ clauses.initialIds)
    (hout : q.store.outward? q.state.current distance = some p.store.scopes.size)
    (hclear : ∀ nearer < distance, ∀ scope, q.store.outward? q.state.current nearer = some scope →
      q.store.binding? scope name.lexeme = none) :
    q.state.locals[id]? = some distance
      ∧ ∃ binding, q.store.binding? p.store.scopes.size name.lexeme = some binding := by
  obtain ⟨hops, hle, hlocal⟩ := h.loop_near hcontrol hinitial hvariable hleads href hname hid hout
  obtain ⟨points, w, config', -, -, hagree⟩ := (h.after.leads hleads).sound
  obtain ⟨context, hmeets, hpoint⟩ := hagree.reference href
  obtain ⟨scope, binding, hscope, -, hbinding⟩ := hmeets.boundAt hpoint hlocal
  rcases Nat.lt_or_eq_of_le hle with hnearer | rfl
  · rw [hclear hops hnearer scope hscope] at hbinding
    cases hbinding
  · obtain rfl : scope = p.store.scopes.size := Option.some.inj (hscope.symm.trans hout)
    exact ⟨hlocal, binding, hbinding⟩

/-- The scope of a pass stays inside the scope of the loop and never binds a name. -/
theorem Occurs.empty_in_pass (h : p.Occurs) {increment : Expr}
    (hcontrol : p.config.control = .exec (.block [stmt, .expression increment]))
    (hstmt : stmt.declared? = none) (hleads : p.after.Leads q) (name : String) :
    q.store.binding? p.store.scopes.size name = none := by
  obtain ⟨points, context, -, hfirst, -⟩ := h.scoped hcontrol
  rw [← Option.not_isSome_iff_eq_none]
  intro hbound
  have hnone : ∀ declared, Use.declares declared ∈ Stmt.usesAll [stmt, .expression increment] →
      none = some declared := by
    intro declared hmem
    rcases List.mem_append.mp hmem with hmem | hmem
    · exact hstmt.symm.trans (hfirst.declared hmem)
    · rcases List.mem_append.mp hmem with hmem | hmem
      · exact (Use.declares_not_mem_here hmem).elim
      · cases hmem
  obtain ⟨token, htoken, -⟩ := h.bound_in_block hcontrol hnone hleads hbound
  cases htoken

end Point

/-! ## Loops in sessions -/

/-- What a session makes of a loop whose execution begins at a point. -/
structure ForClauses.SharesVariable (clauses : ForClauses) (body : Stmt) (p : Point) : Prop where
  /-- The scope of the loop lies in the scope that was current. -/
  opened : ∀ q, p.after.Leads q →
    (q.store.scope p.store.scopes.size).parent = some p.state.current
  /-- It binds at most the variable of the loop. -/
  bound : ∀ q, p.after.Leads q → ∀ name, (q.store.binding? p.store.scopes.size name).isSome →
    ∃ token, clauses.declared? = some token ∧ token.lexeme = name
  /-- What refers to the variable from so many scopes inside the loop, be it in the condition, the
  increment, the body or a function that was made in some pass, reads and writes that one binding,
  unless a nearer scope binds the name. Only the first clause, from which the variable has its
  value, may still mean another one. -/
  shared : ∀ q, p.after.Leads q → ∀ token, clauses.declared? = some token → ∀ id name distance,
    q.config.reference? = some (id, name) → name.lexeme = token.lexeme →
    id ∉ clauses.initialIds →
    q.store.outward? q.state.current distance = some p.store.scopes.size →
    (∀ nearer < distance, ∀ scope, q.store.outward? q.state.current nearer = some scope →
      q.store.binding? scope name.lexeme = none) →
    ∃ binding, q.store.binding? p.store.scopes.size name.lexeme = some binding
      ∧ q.state.lookUp id name = .ok binding.value
      ∧ q.state.assignTarget id name =
        if binding.mutable then .ok p.store.scopes.size
        else .error ⟨name, .assignedConstant name.lexeme⟩
  /-- A pass with an increment opens a scope inside that of the loop, which never binds a name; and
  what lies inside the one lies inside the other. -/
  passed : ∀ q, p.after.Leads q → clauses.increment.isSome →
    q.state.current = p.store.scopes.size → q.config.control = .exec (clauses.pass body) →
    ∀ r, q.after.Leads r →
      (∀ name, r.store.binding? q.store.scopes.size name = none)
      ∧ ∀ scope distance, r.store.outward? scope distance = some q.store.scopes.size →
        r.store.outward? scope (distance + 1) = some p.store.scopes.size

/-- In every session, a loop shares its variable. -/
theorem Point.Occurs.sharesVariable {p : Point} (h : p.Occurs) {clauses : ForClauses} {body : Stmt}
    (hcontrol : p.config.control = .exec (clauses.loop body))
    (hinitial : ∀ s, clauses.initializer = some s → s.Initial) (hbody : body.declared? = none) :
    clauses.SharesVariable body p := by
  refine ⟨?_, ?_, ?_, ?_⟩
  · exact fun q hleads => h.parent_block hcontrol hleads
  · exact fun q hleads name => h.bound_in_loop hcontrol hleads
  · intro q hleads token hvariable id name distance href hname hid hout hclear
    obtain ⟨hlocal, binding, hbinding⟩ :=
      h.follows_to_loop hcontrol hinitial hvariable hleads href hname hid hout hclear
    refine ⟨binding, hbinding, ?_, ?_⟩
    · rw [State.lookUp, hlocal]
      exact Store.getAt_of_outward? name hout hbinding
    · rw [State.assignTarget, hlocal]
      simp only [Store.assignTargetAt, Store.ancestor_of_outward? hout, Store.checkAssign, hbinding]
      cases binding.mutable <;> rfl
  · intro q hleads hincrement hcurrent hpass r hlater
    have hq : q.Occurs := h.after.leads hleads
    obtain ⟨increment, hincrement⟩ := Option.isSome_iff_exists.mp hincrement
    rw [ForClauses.pass, hincrement] at hpass
    refine ⟨hq.empty_in_pass hpass hbody hlater, ?_⟩
    intro scope distance hout
    rw [← hcurrent]
    exact Store.outward?_parent hout (hq.parent_block hpass hlater)

/-- A `for` statement means what its clauses say. Executing what it is read into comes to the same
end as the direct account, with the same state, and the scope that was current is current again.
Its variable is bound once, in the scope of the loop, and a session has only that binding for all
passes; what else the passes open stays empty. -/
theorem for_loop_runs_clauses {fuel : Nat} {c d c' : Cursor} {keyword : Token} {stmt : Stmt}
    (hfor : Rule.accept (.keyword .forKw) c = .ok (some keyword) d)
    (h : statement (fuel + 1) c = .ok stmt c') :
    ∃ clauses body e, forClauses fuel d = .ok clauses e ∧ statement fuel e = .ok body c'
      ∧ stmt = clauses.loop body
      ∧ (∀ state outcome last,
          Executes stmt state outcome last ↔ clauses.Runs body state outcome last)
      ∧ (∀ state outcome last, Executes stmt state outcome last → last.current = state.current)
      ∧ (∀ (state : State) initializer token last, clauses.initializer = some initializer →
          clauses.declared? = some token →
          Executes initializer (state.openIn state.current) (.flow .normal) last →
          (last.store.binding? state.store.scopes.size token.lexeme).isSome)
      ∧ ∀ p : Point, p.Occurs → p.config.control = .exec stmt → clauses.SharesVariable body p := by
  obtain ⟨clauses, body, e, hclauses, hbody, rfl⟩ := statement_for hfor h
  have hinitial := forClauses_initial hclauses
  refine ⟨clauses, body, e, hclauses, hbody, rfl, ?_, ?_, ?_, ?_⟩
  · exact fun _ _ _ => ForClauses.executes_loop
  · exact fun _ _ _ hruns => hruns.current
  · intro state initializer token last hinitializer hvariable hruns
    have hcurrent : (state.openIn state.current).current = state.store.scopes.size := rfl
    have hlt : (state.openIn state.current).current <
        (state.openIn state.current).store.scopes.size := by simp [State.openIn, Store.addScope]
    rw [ForClauses.declared?, hinitializer] at hvariable
    rw [← hcurrent]
    exact (hinitial initializer hinitializer).binds hvariable hlt hruns
  · exact fun p hoccurs hcontrol =>
      hoccurs.sharesVariable hcontrol hinitial (statement_declares _ _ _ _ hbody)

/-- The first thing that an accepted source executes is the loop that it begins with. -/
theorem Point.inSource_for (sink : Sink) (clock : Clock) (source : String)
    (haccepted : (prepareSource 0 source).1.isOk)
    (hfor : (Cursor.start (Source.tokens (Utf8.encode source)) 0).rest.head?.map Token.tag =
      some (.keyword .forKw)) :
    ∃ fuel c d c' keyword stmt, Rule.accept (.keyword .forKw) c = .ok (some keyword) d
      ∧ statement (fuel + 1) c = .ok stmt c'
      ∧ (inSource sink clock source 1).config.control = .exec stmt := by
  obtain ⟨keyword, hhead, hkeyword⟩ := Option.map_eq_some_iff.mp hfor
  rcases hprepare : prepareSource 0 source with ⟨result, nextId⟩
  cases result with
  | error rejection =>
      rw [hprepare] at haccepted
      cases haccepted
  | ok prepared =>
      have hparse := (prepareSource_ok hprepare).1
      unfold parseSource at hparse
      dsimp only at hparse
      split at hparse
      next program next hprogram =>
        obtain ⟨d, hread, -, hquiet, -⟩ := topLevel_of_parseTokens hprogram (Nat.le_add_right _ 3)
        obtain ⟨rest, hrest⟩ := List.head?_eq_some_iff.mp hhead
        obtain ⟨stmt, others, c', hdeclaration, rfl⟩ :=
          topLevel_first hread (by simp [hquiet]) (by simp [hrest])
        rw [declaration_for hrest hkeyword] at hdeclaration
        refine ⟨_, _, _, c', keyword, stmt, Rule.acceptIf_true hrest (by simp [hkeyword]),
          hdeclaration, ?_⟩
        split at hparse
        next =>
          have hprogram : stmt :: others = prepared.program :=
            Except.ok.inj (Prod.mk.inj hparse).1
          rw [inSource, hprepare]
          dsimp only
          rw [← hprogram]
          rfl
        next => cases hparse
      next => cases hparse

/-- The first statement of a block that is executed. -/
def Control.first? : Control → Option Stmt
  | .exec (.block (s :: _)) => some s
  | _ => none

/-- A loop whose increment calls a function that was made in the body of the same pass. -/
def selfEndingLoop : String :=
  "for (var i = true; i; i()) { fun g() { i = nil; } i = g; }"

/-- The function ends the loop, for the variable that it assigns to is that of the loop, three
scopes further out. -/
theorem for_loop_runs_clauses_until_assigned :
    ∃ name,
      let p := Point.inSource {} ⟨fun _ => 0, 0⟩ selfEndingLoop 1
      let q : Point := ⟨p.after.nextId, run 28 p.after.config⟩
      q.config.reference? = some (3, name) ∧ name.lexeme = "i"
        ∧ q.state.assignTarget 3 name = .ok p.store.scopes.size := by
  let p := Point.inSource {} ⟨fun _ => 0, 0⟩ selfEndingLoop 1
  let q : Point := ⟨p.after.nextId, run 28 p.after.config⟩
  have href : q.config.reference?.map (fun (id, name) => (id, name.lexeme)) = some (3, "i") := by
    decide +kernel
  obtain ⟨⟨id, name⟩, href, heq⟩ := Option.map_eq_some_iff.mp href
  obtain ⟨rfl, hname⟩ := Prod.mk.inj heq
  have hout : q.store.outward? q.state.current 3 = some p.store.scopes.size := by decide +kernel
  have hclear : ∀ nearer < 3, ((q.store.outward? q.state.current nearer).bind
      (q.store.binding? · "i")).isNone := by decide +kernel
  have hnearer : ∀ nearer < 3, ∀ scope, q.store.outward? q.state.current nearer = some scope →
      q.store.binding? scope name.lexeme = none := by
    intro nearer hlt scope hscope
    have hnone := hclear nearer hlt
    rw [hscope] at hnone
    rw [hname]
    exact Option.isNone_iff_eq_none.mp hnone
  have hfirst : p.config.control.first?.map (fun s => (s.declared?.map Token.lexeme, s.ids)) =
      some (some "i", []) := by decide +kernel
  obtain ⟨fuel, c, d, c', keyword, stmt, hfor, hread, hcontrol⟩ :=
    Point.inSource_for {} ⟨fun _ => 0, 0⟩ selfEndingLoop (by decide +kernel) (by decide +kernel)
  obtain ⟨clauses, body, -, -, -, rfl, -, -, -, hshares⟩ := for_loop_runs_clauses hfor hread
  rw [hcontrol, ForClauses.loop_eq] at hfirst
  obtain ⟨initializer, hinitializer⟩ : ∃ initializer, clauses.initializer = some initializer := by
    cases hinitializer : clauses.initializer with
    | none =>
        rw [hinitializer] at hfirst
        cases hfirst
    | some initializer => exact ⟨initializer, rfl⟩
  rw [hinitializer] at hfirst
  obtain ⟨hdeclared, hids⟩ := Prod.mk.inj (Option.some.inj hfirst)
  obtain ⟨token, hdeclared, htoken⟩ := Option.map_eq_some_iff.mp hdeclared
  have hvariable : clauses.declared? = some token := by
    rw [ForClauses.declared?, hinitializer]
    exact hdeclared
  have hinitial : 3 ∉ clauses.initialIds := by
    rw [ForClauses.initialIds, hinitializer, Option.toList_some, Stmt.idsAll_cons, hids]
    exact List.not_mem_nil
  have hmutable : (q.store.binding? p.store.scopes.size "i").map Binding.mutable = some true := by
    decide +kernel
  obtain ⟨binding, hbinding, -, htarget⟩ :=
    (hshares p (Point.inSource_occurs _ _ _ _) hcontrol).shared q
      (Point.leads_run p.after.nextId 28 p.after.config) token hvariable 3 name 3 href
      (hname.trans htoken.symm) hinitial hout hnearer
  rw [← hname, hbinding] at hmutable
  rw [if_pos (Option.some.inj hmutable)] at htarget
  exact ⟨name, href, hname, htarget⟩

end ScopeScript
