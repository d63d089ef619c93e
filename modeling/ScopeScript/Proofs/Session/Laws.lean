import ScopeScript.Proofs.Execution.LawfulSteps
import ScopeScript.Proofs.Session.LocalNames
import ScopeScript.Proofs.Session.ObjectGraph

/-!
# Laws that hold for the rest of a session

A law that says nothing of the scopes that are there is kept by everything that is there. If it
spreads to the scopes that are made later, it is kept from then on, and so names are bound only as
it lets them be declared. This is how something is said of a scope for all time: at the moment when
the scope is made, the only code that can run in it is known.
-/

namespace ScopeScript

/-! ## The first moment -/

section Entering

variable {law : Law} {config : Config}

theorem Law.permits_of_all {scope : ScopeId} (h : ∀ depth act, law scope depth act)
    (uses : List Use) : law.Permits scope uses :=
  fun use _ => h use.depth use.act

/-- Frames that return to scopes that are there keep to a law that says nothing of those. -/
theorem Law.permitsFrames_of_grounded {store : Store}
    (hlaw : ∀ id < store.scopes.size, ∀ depth act, law id depth act) {frames : List (Frame ScopeId)}
    (hframes : ∀ frame ∈ frames, frame.Grounded store) {scope : ScopeId}
    (hscope : scope < store.scopes.size) : law.PermitsFrames scope frames := by
  induction frames generalizing scope with
  | nil => trivial
  | cons frame frames ih =>
      obtain ⟨hframe, hframes⟩ := List.forall_mem_cons.mp hframes
      refine ⟨permits_of_all (hlaw scope hscope) _, ih hframes ?_⟩
      cases frame with
      | block rest outer => exact hframe
      | _ => exact hscope

/-- When a block is entered, its statements alone run in the new scope. -/
theorem Law.permitsConfig_enter {body : List Stmt} (hgrounded : config.Grounded)
    (hcontrol : config.control = .exec (.block body))
    (hlaw : ∀ id < config.state.store.scopes.size, ∀ depth act, law id depth act)
    (hbody : law.Permits config.state.store.scopes.size (Stmt.usesAll body)) :
    law.PermitsConfig (step config) := by
  obtain ⟨control, frames, state⟩ := config
  obtain rfl : control = .exec (.block body) := hcontrol
  have hstore := hgrounded.state.store
  refine ⟨permits_nil, ⟨hbody, ?_⟩, ⟨?_, ?_⟩⟩
  · exact permitsFrames_of_grounded hlaw hgrounded.frames hgrounded.state.current
  · intro closure hclosure
    exact permits_of_all (hlaw closure.scope (hstore.functions closure hclosure)) _
  · intro cls hcls name method hmethod
    exact permits_of_all (hlaw method.scope (hstore.methods cls hcls name method hmethod)) _

/-- A reference that is followed next is one that the law permits. -/
theorem Law.PermitsConfig.reference (h : law.PermitsConfig config) {id : NodeId} {name : Token}
    (href : config.reference? = some (id, name)) :
    ∃ kind, law config.state.current 0 (.refers ⟨kind, id, name⟩) := by
  obtain ⟨control, frames, state⟩ := config
  obtain ⟨hcontrol, hframes, -⟩ := h
  cases control with
  | eval expr =>
      cases expr with
      | «variable» | superExpr | thisExpr | assign =>
          cases href
          exact ⟨_, hcontrol _ List.mem_cons_self⟩
      | literal | unary | binary | logical | grouping | call | get | set => cases href
  | done outcome =>
      cases outcome with
      | value =>
          cases frames with
          | nil => cases href
          | cons frame frames =>
              cases frame with
              | assign =>
                  cases href
                  exact ⟨_, hframes.1 _ List.mem_cons_self⟩
              | _ => cases href
      | flow | fault => cases href
  | exec | call => cases href

end Entering

namespace Point

variable {p q : Point}

/-! ## What stays the same -/

theorem Leads.extends (h : p.Leads q) : p.store.Extends q.store := by
  induction h with
  | refl => exact .refl _
  | tail _ hnext ih =>
      cases hnext with
      | step => exact ih.trans (step_edits _).extends
      | rejected | accepted => exact ih

theorem Leads.globals (h : p.Leads q) : q.state.globals = p.state.globals := by
  induction h with
  | refl => rfl
  | tail _ hnext ih =>
      cases hnext with
      | step => exact (step_edits _).surroundings.1.trans ih
      | rejected | accepted => exact ih

/-- Between two sources the outermost scope is current. -/
theorem Occurs.current_of_isDone (h : p.Occurs) (hdone : p.config.isDone) :
    p.state.current = p.state.globals := by
  obtain ⟨points, w, config', hpoints, -, hagree⟩ := h.sound
  obtain ⟨outcome, houtcome⟩ := Option.isSome_iff_exists.mp hdone
  obtain ⟨_, -, hmeets⟩ := hagree.rests hpoints houtcome
  rw [hmeets.same.globals]
  exact (hmeets.stands.chain.nil_iff hmeets.same.memory.root).mp rfl

/-- A distance that is recorded once stays recorded, since nodes of later sources have new
numbers. -/
theorem Occurs.locals_leads (h : p.Occurs) {id distance : Nat}
    (hlocal : p.state.locals[id]? = some distance) (hleads : p.Leads q) :
    q.state.locals[id]? = some distance := by
  induction hleads with
  | refl => exact hlocal
  | @tail r s hleads hnext ih =>
      cases hnext with
      | step =>
          rw [Point.state, (step_edits r.config).surroundings.2]
          exact ih
      | rejected => exact ih
      | @accepted source prepared nextId _ hprepare =>
          obtain ⟨points, w, config', hpoints, -, hagree⟩ := (h.leads hleads).sound
          have hrecorded : ∃ distance, points id distance := by
            by_contra hnone
            rw [hagree.state.locals.unknown id (not_exists.mp hnone)] at ih
            cases ih
          obtain ⟨distance', hpoint⟩ := hrecorded
          obtain ⟨program, resolution⟩ := prepared
          obtain ⟨hparse, hresolve⟩ := prepareSource_ok hprepare
          have hlt := hpoints id distance' hpoint
          have hnot : id ∉ Stmt.idsAll program := fun hid =>
            Nat.not_lt_of_le ((parseSource_ok hparse).1.bounds id hid).1 hlt
          change (r.state.locals ∪ resolution.locals)[id]? = some distance
          rw [Std.ExtTreeMap.getElem?_union, resolve_locals hresolve hnot, Option.none_or]
          exact ih

/-! ## From then on -/

/-- A law that is kept at one point and spreads to all scopes that are made until another is kept
there as well. Later sources start at the outermost scope, of which it must say nothing. -/
theorem Occurs.permits_leads (h : p.Occurs) {law : Law} (hpermits : law.PermitsConfig p.config)
    (hglobal : ∀ depth act, law p.state.globals depth act) (hleads : p.Leads q)
    (hspreads : law.Spreads p.store q.store) :
    law.PermitsConfig q.config ∧ law.Binds p.store q.store := by
  induction hleads with
  | refl => exact ⟨hpermits, .refl _⟩
  | @tail r s hleads hnext ih =>
      have hr : r.Occurs := h.leads hleads
      have hgrows : r.store.Grows s.store := hr.grows (.single hnext)
      obtain ⟨hpermits, hbinds⟩ := ih (hspreads.mono (Nat.le_refl _) hgrows.parent)
      cases hnext with
      | step =>
          obtain ⟨hpermits', hbinds'⟩ := hpermits.step
            (hspreads.mono (Leads.extends hleads).scopes fun _ _ h => h)
          exact ⟨hpermits', hbinds.trans hbinds' (Leads.extends hleads).scopes⟩
      | rejected => exact ⟨hpermits, hbinds⟩
      | accepted hdone =>
          refine ⟨⟨Law.permits_nil, ⟨?_, trivial⟩, hpermits.heap⟩, hbinds⟩
          have hcurrent : r.state.current = p.state.globals :=
            (hr.current_of_isDone hdone).trans (Leads.globals hleads)
          exact Law.permits_of_all (hcurrent ▸ hglobal) _

end Point

end ScopeScript
