import Mathlib.Logic.Relation
import ScopeScript.Proofs.Lexical.Session

/-!
# The points of a session

A session passes from point to point: a machine takes a step or, where it has come to an end, reads
the next source. Which sources come, and how far a machine goes on after its end, is left open, so
what holds at every point holds for all sessions, in the middle of their programs and between them.
At every point the machine agrees with one for lexical scoping, and the stores of later points only
grow.
-/

namespace ScopeScript

/-- A moment of a session: a configuration, and the first node number that is still unused. -/
structure Point where
  nextId : NodeId
  config : Config

namespace Point

/-- The state at a point. -/
abbrev state (p : Point) : State :=
  p.config.state

/-- The store at a point. -/
abbrev store (p : Point) : Store :=
  p.config.state.store

/-- The beginning of a session. -/
def start (sink : Sink) (clock : Clock) : Point :=
  ⟨0, .done (.flow .normal), [], .start sink clock⟩

/-- What may come next. -/
inductive Next : Point → Point → Prop
  | step (p : Point) : Next p ⟨p.nextId, ScopeScript.step p.config⟩
  | rejected {p : Point} {source : String} {rejection : Rejection} {nextId : NodeId} :
      p.config.isDone → prepareSource p.nextId source = (.error rejection, nextId) →
      Next p ⟨nextId, p.config⟩
  | accepted {p : Point} {source : String} {prepared : Prepared} {nextId : NodeId} :
      p.config.isDone → prepareSource p.nextId source = (.ok prepared, nextId) →
      Next p ⟨nextId, .ofProgram prepared.program prepared.resolution.locals p.state⟩

/-- A later point, or the same. -/
def Leads : Point → Point → Prop :=
  Relation.ReflTransGen Next

/-- A point of some session. -/
def Occurs (p : Point) : Prop :=
  ∃ sink clock, (start sink clock).Leads p

variable {p q : Point}

theorem Occurs.start (sink : Sink) (clock : Clock) : (start sink clock).Occurs :=
  ⟨sink, clock, .refl⟩

theorem Occurs.leads (hp : p.Occurs) (h : p.Leads q) : q.Occurs := by
  obtain ⟨sink, clock, hstart⟩ := hp
  exact ⟨sink, clock, hstart.trans h⟩

theorem Occurs.next (hp : p.Occurs) (h : p.Next q) : q.Occurs :=
  hp.leads (.single h)

/-! ## Running a session -/

/-- Every configuration that a run passes is a later point. -/
theorem leads_run (nextId : NodeId) (fuel : Nat) (config : Config) :
    Leads ⟨nextId, config⟩ ⟨nextId, run fuel config⟩ := by
  induction fuel generalizing config with
  | zero => exact .refl
  | succ fuel ih =>
      rw [run]
      split
      next => exact .refl
      next => exact .head (.step ⟨nextId, config⟩) (ih (step config))

/-- At a point, a session waits for its next source. -/
structure Pauses (p : Point) (session : Session) : Prop where
  nextId : p.nextId = session.nextId
  state : p.state = session.state
  ended : p.config.isDone

theorem Pauses.start (sink : Sink) (clock : Clock) :
    (start sink clock).Pauses (Session.start sink clock) :=
  ⟨rfl, rfl, rfl⟩

/-- While an accepted source runs, the session is at a later point. -/
theorem Pauses.leads_run {session : Session} {source : String} {prepared : Prepared}
    {nextId : NodeId} (h : p.Pauses session)
    (hprepare : prepareSource session.nextId source = (.ok prepared, nextId)) (fuel : Nat) :
    p.Leads ⟨nextId, run fuel (.ofProgram prepared.program prepared.resolution.locals
      session.state)⟩ := by
  have haccepted :
      p.Next ⟨nextId, .ofProgram prepared.program prepared.resolution.locals p.state⟩ :=
    .accepted h.ended (h.nextId ▸ hprepare)
  rw [h.state] at haccepted
  exact .head haccepted (Point.leads_run nextId fuel _)

/-- The point after so many steps of the first source. -/
def inSource (sink : Sink) (clock : Clock) (source : String) (fuel : Nat) : Point :=
  match prepareSource 0 source with
  | (.ok prepared, nextId) =>
    ⟨nextId, run fuel (.ofProgram prepared.program prepared.resolution.locals (.start sink clock))⟩
  | (.error _, nextId) => ⟨nextId, (start sink clock).config⟩

theorem inSource_occurs (sink : Sink) (clock : Clock) (source : String) (fuel : Nat) :
    (inSource sink clock source fuel).Occurs := by
  unfold inSource
  split
  next hprepare => exact ⟨sink, clock, (Pauses.start sink clock).leads_run hprepare fuel⟩
  next hprepare => exact (Occurs.start sink clock).next (.rejected rfl hprepare)

/-! ## The invariant -/

open Lexical (World Agree Rests)

/-- Binding a method to an instance has made a scope, at an earlier point. -/
def Made (p : Point) (scope : ScopeId) (method : Closure ScopeId) (object : InstanceId) : Prop :=
  ∃ q : Point, q.Occurs ∧ q.config.binds? = some (method, object) ∧ q.store.scopes.size = scope
    ∧ Leads ⟨q.nextId, step q.config⟩ p

theorem Made.leads {scope : ScopeId} {method : Closure ScopeId} {object : InstanceId}
    (h : p.Made scope method object) (hleads : p.Leads q) : q.Made scope method object := by
  obtain ⟨r, hr, hbinds, hscope, hmade⟩ := h
  exact ⟨r, hr, hbinds, hscope, hmade.trans hleads⟩

/-- The machine agrees with one for lexical scoping. -/
def Sound (p : Point) : Prop :=
  ∃ (points : NodeId → Option Nat → Prop) (w : World) (config' : Lexical.Config),
    (∀ id distance, points id distance → id < p.nextId)
      ∧ (∀ scope method object, w.made scope method object → p.Made scope method object)
      ∧ Agree points w p.config config'

theorem sound_start (sink : Sink) (clock : Clock) : (start sink clock).Sound := by
  obtain ⟨w, hmade, points, hpoints, hmeets⟩ := Rests.start (fun _ _ _ => False) sink clock
  have hglobal := (hmeets.stands.chain.nil_iff hmeets.same.memory.root).mp rfl
  refine ⟨points, w, ⟨.done (.flow .normal), [], .start sink clock⟩, hpoints, ?_, hmeets.same, rfl,
    [], .flow, [], hmeets.stands, .flow, .nil hglobal⟩
  rw [hmade]
  exact fun _ _ _ h => h.elim

/-- A step keeps the machines in agreement. What it binds has been made by then. -/
theorem Sound.step (hp : p.Occurs) (h : p.Sound) :
    Sound ⟨p.nextId, ScopeScript.step p.config⟩
      ∧ p.store.Grows (ScopeScript.step p.config).state.store := by
  obtain ⟨points, w, config', hpoints, hmade, hagree⟩ := h
  -- The world before the step already permits the one scope that the step may make.
  let made : ScopeId → Closure ScopeId → InstanceId → Prop := fun scope method object =>
    w.made scope method object
      ∨ p.config.binds? = some (method, object) ∧ p.store.scopes.size = scope
  have hpermit : Agree points { w with made } p.config config' :=
    hagree.permit fun _ _ _ hmade => .inl hmade
  have hpermits : World.Permits { w with made } p.config := fun method object hbinds =>
    .inr ⟨hbinds, by rw [Point.store, hagree.state.store]⟩
  obtain ⟨w', hgrows, hmade', hstep⟩ := Lexical.step_agree hpermit hpermits
  refine ⟨⟨points, w', _, hpoints, ?_, hstep⟩, ?_⟩
  · intro scope method object hbind
    rw [hmade'] at hbind
    rcases hbind with hbind | ⟨hbinds, hscope⟩
    · exact (hmade scope method object hbind).leads (.single (.step p))
    · exact ⟨p, hp, hbinds, hscope, .refl⟩
  · have hstore := hgrows.store
    rwa [← hstep.state.store, ← hpermit.state.store] at hstore

/-- What comes next is sound, and its store has grown. -/
theorem Sound.next (hp : p.Occurs) (h : p.Sound) (hnext : p.Next q) :
    q.Sound ∧ p.store.Grows q.store := by
  cases hnext with
  | step => exact h.step hp
  | rejected hdone hprepare =>
      obtain ⟨points, w, config', hpoints, hmade, hagree⟩ := h
      refine ⟨⟨points, w, config', ?_, ?_, hagree⟩, .refl _⟩
      · intro id distance hid
        exact Nat.lt_of_lt_of_le (hpoints id distance hid) (prepareSource_nextId hprepare)
      · intro scope method object hbind
        exact (hmade scope method object hbind).leads (.single (.rejected hdone hprepare))
  | accepted hdone hprepare =>
      obtain ⟨points, w, config', hpoints, hmade, hagree⟩ := h
      -- A source starts only where the one before has ended, with no frames left.
      obtain ⟨outcome, houtcome⟩ := Option.isSome_iff_exists.mp hdone
      obtain ⟨points', hpoints', hagree'⟩ := (hagree.rests hpoints houtcome).ofProgram hprepare
      refine ⟨⟨points', w, _, hpoints', ?_, hagree'⟩, .refl _⟩
      intro scope method object hbind
      exact (hmade scope method object hbind).leads (.single (.accepted hdone hprepare))

theorem Sound.leads (hp : p.Occurs) (h : p.Sound) (hleads : p.Leads q) :
    q.Sound ∧ p.store.Grows q.store := by
  induction hleads with
  | refl => exact ⟨h, .refl _⟩
  | tail hleads hnext ih =>
      obtain ⟨hsound, hgrows⟩ := ih
      obtain ⟨hsound', hgrows'⟩ := hsound.next (hp.leads hleads) hnext
      exact ⟨hsound', hgrows.trans hgrows'⟩

theorem Occurs.sound (h : p.Occurs) : p.Sound := by
  obtain ⟨sink, clock, hleads⟩ := h
  exact ((sound_start sink clock).leads (.start sink clock) hleads).1

/-- The stores of later points have grown. -/
theorem Occurs.grows (h : p.Occurs) (hleads : p.Leads q) : p.store.Grows q.store :=
  (h.sound.leads h hleads).2

end Point

end ScopeScript
