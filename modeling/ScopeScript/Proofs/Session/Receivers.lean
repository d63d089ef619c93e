import ScopeScript.Proofs.Execution.Classes
import ScopeScript.Proofs.Session.LocalNames

/-!
# Receivers and superclasses

At every point of a session, `this` stands for the instance to which the method around it was bound,
and `super` for the superclass that the class of the method was declared with. Which instance and
which class these are is fixed from the moment the method is bound and the class is declared:
whatever else a program does, and wherever the code runs that refers to them.
-/

namespace ScopeScript

namespace Point

variable {p q : Point}

/-- The declaration of a class has made it, at an earlier point, with the superclass that it found
there. -/
def Declared (p : Point) (owner : ClassId) (cls : Class ScopeId) : Prop :=
  ∃ (q : Point) (name : Token) (methods : List (FunctionDecl Stmt)) (scope : ScopeId), q.Occurs
    ∧ q.config.makesClass? = some (name, cls.superclass, methods) ∧ q.store.classes.size = owner
    ∧ cls = ⟨name.lexeme, cls.superclass, methodTable scope methods⟩
    ∧ Leads ⟨q.nextId, step q.config⟩ p

theorem Declared.next {owner : ClassId} {cls : Class ScopeId} (h : p.Declared owner cls)
    (hnext : p.Next q) : q.Declared owner cls := by
  obtain ⟨r, name, methods, scope, hr, hmakes, howner, hcls, hleads⟩ := h
  exact ⟨r, name, methods, scope, hr, hmakes, howner, hcls, hleads.tail hnext⟩

theorem Occurs.declared (hp : p.Occurs) {owner : ClassId} {cls : Class ScopeId}
    (hcls : p.store.classes[owner]? = some cls) : p.Declared owner cls := by
  obtain ⟨sink, clock, hleads⟩ := hp
  induction hleads with
  | refl => cases hcls
  | @tail p q hleads hnext ih =>
      cases hnext with
      | step =>
          rcases step_classes p.config with
            hkeeps | ⟨name, superclass, methods, scope, hmakes, hpush⟩
          · simp only [Point.store, hkeeps] at hcls
            exact (ih hcls).next (.step p)
          · simp only [Point.store, hpush, Array.getElem?_push] at hcls
            split at hcls
            next howner =>
              -- The class is the one that this very step has made.
              cases hcls
              exact
                ⟨p, name, methods, scope, ⟨sink, clock, hleads⟩, hmakes, howner.symm, rfl, .refl⟩
            next => exact (ih hcls).next (.step p)
      | rejected hdone hprepare => exact (ih hcls).next (.rejected hdone hprepare)
      | accepted hdone hprepare => exact (ih hcls).next (.accepted hdone hprepare)

/-- The method around a node runs, bound to an instance: binding it has made the scope that holds
the instance, and no later point changes that. The instance is one of the class that declares the
method, or of a class below it. -/
structure Runs (p : Point) (id : NodeId) (scope : ScopeId) (object : InstanceId) (owner : ClassId)
    (cls : Class ScopeId) (method : Closure ScopeId) : Prop where
  owns : id ∈ FunctionDecl.ownIds method.declaration
  made : p.Made scope method object
  declared : p.Declared owner cls
  receives : ∀ q, p.Leads q → q.store.Receives scope object owner cls method

theorem Occurs.runs (hp : p.Occurs) {id : NodeId} {scope : ScopeId} {object : InstanceId}
    {owner : ClassId} {cls : Class ScopeId} {method : Closure ScopeId}
    (howns : id ∈ FunctionDecl.ownIds method.declaration) (hmade : p.Made scope method object)
    (hreceives : p.store.Receives scope object owner cls method) :
    p.Runs id scope object owner cls method :=
  ⟨howns, hmade, hp.declared hreceives.declares.found,
    fun _ hleads => (hp.grows hleads).receives hreceives⟩

/-! ## `this` -/

theorem Occurs.thisExpr (hp : p.Occurs) {id : NodeId} {keyword : Token}
    (hcontrol : p.config.control = .eval (.thisExpr id keyword)) :
    ∃ distance scope object owner cls method, p.state.locals[id]? = some distance
      ∧ p.store.outward? p.state.current distance = some scope
      ∧ p.Runs id scope object owner cls method
      ∧ step p.config = ⟨.done (.value (.object object)), p.config.frames, p.state⟩ := by
  obtain ⟨points, w, config', -, hmade, hagree⟩ := hp.sound
  obtain ⟨context, await, context', hstands, hgives, -⟩ := hagree.work
  rw [hcontrol] at hgives
  cases hgives with
  | eval hscoped =>
      obtain ⟨distance, scope, object, owner, cls, method, hlocal, hout, hbind, hreceives, howns⟩ :=
        Lexical.Meets.thisAt ⟨hagree.state, hstands⟩ hscoped
      refine ⟨distance, scope, object, owner, cls, method, hlocal, hout,
        hp.runs howns (hmade _ _ _ hbind) hreceives, ?_⟩
      obtain ⟨_, ⟨control, frames, state⟩⟩ := p
      obtain rfl : control = .eval (.thisExpr id keyword) := hcontrol
      have hlookUp : state.lookUp id keyword = .ok (.object object) := by
        rw [State.lookUp, hlocal]
        exact hreceives.getAt hout hscoped.1
      simp only [step, evalMove, hlookUp]
      rfl

/-- An initializer that comes to its end gives the instance to which it was bound. -/
theorem Occurs.initializer (hp : p.Occurs) {flow : Flow} {closure : Closure ScopeId}
    {frames : List (Frame ScopeId)} (hcontrol : p.config.control = .done (.flow flow))
    (hframes : p.config.frames = .activation closure :: frames)
    (hinitializer : closure.isInitializer = true) :
    ∃ object owner cls method, p.Made closure.scope method object
      ∧ (∀ q, p.Leads q → q.store.Receives closure.scope object owner cls method)
      ∧ method.declaration = closure.declaration
      ∧ step p.config = ⟨.done (.value (.object object)), frames, p.state⟩ := by
  obtain ⟨points, w, config', -, hmade, hagree⟩ := hp.sound
  obtain ⟨object, owner, cls, method, hbind, hreceives, hdeclaration⟩ :=
    hagree.initializer hframes hinitializer
  refine ⟨object, owner, cls, method, hmade _ _ _ hbind,
    fun _ hleads => (hp.grows hleads).receives hreceives, hdeclaration, ?_⟩
  obtain ⟨_, ⟨control, frames₁, state⟩⟩ := p
  obtain rfl : control = .done (.flow flow) := hcontrol
  obtain rfl : frames₁ = .activation closure :: frames := hframes
  have hthis : state.store.getAt closure.scope 0 (thisToken closure.declaration.name.line) =
      .ok (.object object) :=
    hreceives.getAt rfl rfl
  simp only [step, Frame.resume, Frame.onFlow, hinitializer, if_true, hthis]
  rfl

/-- A method is an initializer if its name says so, and it is the same one when it is bound. -/
theorem Occurs.isInitializer (hp : p.Occurs) {owner : ClassId} {cls : Class ScopeId}
    {method : Closure ScopeId} (h : p.store.Declares owner cls method) :
    method.isInitializer = method.declaration.isInitializer
      ∧ ∀ receiver, (p.store.bindMethod method receiver).1.isInitializer = method.isInitializer
        ∧ (p.store.bindMethod method receiver).1.declaration = method.declaration := by
  refine ⟨?_, fun _ => ⟨rfl, rfl⟩⟩
  obtain ⟨points, w, config', -, -, hagree⟩ := hp.sound
  obtain ⟨hfound, name, hmethod⟩ := h
  rw [Point.store, hagree.state.store] at hfound
  obtain ⟨cls', -, hcls⟩ := hagree.state.memory.heap.classes.get owner cls hfound
  obtain ⟨method', -, hsame⟩ := hcls.methods.found name method hmethod
  exact hsame.named

/-! ## `super` -/

theorem Occurs.superExpr (hp : p.Occurs) {id : NodeId} {keyword name : Token}
    (hcontrol : p.config.control = .eval (.superExpr id keyword name)) :
    ∃ distance scope object owner cls method superclass,
      p.state.locals[id]? = some (distance + 1)
      ∧ p.store.outward? p.state.current distance = some scope
      ∧ p.store.outward? p.state.current (distance + 1) = some method.scope
      ∧ p.Runs id scope object owner cls method ∧ cls.superclass = some superclass
      ∧ (∀ q, p.Leads q → q.store.binding? method.scope "super" = some ⟨.cls superclass, true⟩)
      ∧ step p.config =
        match p.store.findMethod? superclass name.lexeme with
        | none =>
          ⟨.done (.fault (.runtime ⟨name, .undefinedProperty name.lexeme⟩)), p.config.frames,
            p.state⟩
        | some found =>
          ⟨.done (.value (p.store.bindMethodValue found object).1), p.config.frames,
            { p.state with store := (p.store.bindMethodValue found object).2 }⟩ := by
  obtain ⟨points, w, config', -, hmade, hagree⟩ := hp.sound
  obtain ⟨context, await, context', hstands, hgives, -⟩ := hagree.work
  rw [hcontrol] at hgives
  cases hgives with
  | eval hscoped =>
      obtain ⟨distance, scope, object, owner, cls, method, superclass, hlocal, hout, hbind,
        hreceives, howns, hsuperclass, hsuper⟩ :=
        Lexical.Meets.superAt ⟨hagree.state, hstands⟩ hscoped
      refine ⟨distance, scope, object, owner, cls, method, superclass, hlocal, hout,
        Store.outward?_parent hout hreceives.around, hp.runs howns (hmade _ _ _ hbind) hreceives,
        hsuperclass, fun q hleads => (hp.grows hleads).fixed _ _ _ (.inr rfl) hsuper, ?_⟩
      -- What is left is the step itself, in which all lookups are known to succeed.
      obtain ⟨_, ⟨control, frames, state⟩⟩ := p
      obtain rfl : control = .eval (.superExpr id keyword name) := hcontrol
      simp only [step, evalMove, superMove_eq hscoped.1 hout hreceives hsuper hlocal]
      cases state.store.findMethod? superclass name.lexeme <;> rfl

end Point

/-- At every point of a session: `this` has a distance and gives the instance to which the method
around it was bound. An initializer that comes to its end gives the instance to which it was bound;
a method is an initializer if its name says so, and stays one when it is bound. `super` has a
distance as well, one scope outside the receiver; the method that it gives is looked up from the
superclass on that the class of the method around it was declared with, and is bound to the
receiver. -/
theorem receivers_sound {p : Point} (hp : p.Occurs) :
    (∀ id keyword, p.config.control = .eval (.thisExpr id keyword) →
      ∃ distance scope object owner cls method, p.state.locals[id]? = some distance
        ∧ p.store.outward? p.state.current distance = some scope
        ∧ p.Runs id scope object owner cls method
        ∧ step p.config = ⟨.done (.value (.object object)), p.config.frames, p.state⟩)
    ∧ (∀ flow closure frames, p.config.control = .done (.flow flow) →
      p.config.frames = .activation closure :: frames → closure.isInitializer = true →
      ∃ object owner cls method, p.Made closure.scope method object
        ∧ (∀ q, p.Leads q → q.store.Receives closure.scope object owner cls method)
        ∧ method.declaration = closure.declaration
        ∧ step p.config = ⟨.done (.value (.object object)), frames, p.state⟩)
    ∧ (∀ owner cls method, p.store.Declares owner cls method →
      method.isInitializer = method.declaration.isInitializer
        ∧ ∀ receiver, (p.store.bindMethod method receiver).1.isInitializer = method.isInitializer
          ∧ (p.store.bindMethod method receiver).1.declaration = method.declaration)
    ∧ ∀ id keyword name, p.config.control = .eval (.superExpr id keyword name) →
      ∃ distance scope object owner cls method superclass,
        p.state.locals[id]? = some (distance + 1)
        ∧ p.store.outward? p.state.current distance = some scope
        ∧ p.store.outward? p.state.current (distance + 1) = some method.scope
        ∧ p.Runs id scope object owner cls method ∧ cls.superclass = some superclass
        ∧ (∀ q, p.Leads q →
          q.store.binding? method.scope "super" = some ⟨.cls superclass, true⟩)
        ∧ step p.config =
          match p.store.findMethod? superclass name.lexeme with
          | none =>
            ⟨.done (.fault (.runtime ⟨name, .undefinedProperty name.lexeme⟩)), p.config.frames,
              p.state⟩
          | some found =>
            ⟨.done (.value (p.store.bindMethodValue found object).1), p.config.frames,
              { p.state with store := (p.store.bindMethodValue found object).2 }⟩ :=
  ⟨fun _ _ => hp.thisExpr, fun _ _ _ => hp.initializer, fun _ _ _ => hp.isInitializer,
    fun _ _ _ => hp.superExpr⟩

/-- The use of `super` that is evaluated next, with the name of the method. -/
def Config.superUse? (config : Config) : Option (NodeId × Token × Token) :=
  match config.control with
  | .eval (.superExpr id keyword name) => some (id, keyword, name)
  | _ => none

theorem Config.superUse?_eq_some {config : Config} {id : NodeId} {keyword name : Token}
    (h : config.superUse? = some (id, keyword, name)) :
    config.control = .eval (.superExpr id keyword name) := by
  unfold Config.superUse? at h
  split at h
  next hcontrol =>
    cases h
    exact hcontrol
  next => cases h

/-- A method of a subclass runs, bound to an instance, and is about to use `super`. -/
theorem receivers_sound_in_subclass :
    ∃ keyword name scope object owner cls method superclass,
      let p := Point.inSource {} ⟨fun _ => 0, 0⟩
        "class A { m() {} } class B < A { m() { super.m(); } } B().m();" 20
      p.config.control = .eval (.superExpr 1 keyword name) ∧ name.lexeme = "m"
        ∧ p.Runs 1 scope object owner cls method ∧ cls.superclass = some superclass := by
  let p := Point.inSource {} ⟨fun _ => 0, 0⟩
    "class A { m() {} } class B < A { m() { super.m(); } } B().m();" 20
  have huse : (p.config.superUse?.map fun use => (use.1, use.2.2.lexeme)) = some (1, "m") := by
    decide +kernel
  obtain ⟨⟨id, keyword, name⟩, hused, hid⟩ := Option.map_eq_some_iff.mp huse
  obtain ⟨rfl, hname⟩ := Prod.mk.inj hid
  have hsuper := Config.superUse?_eq_some hused
  obtain ⟨-, -, -, hsound⟩ := receivers_sound (Point.inSource_occurs _ _ _ _)
  obtain ⟨_, scope, object, owner, cls, method, superclass, -, -, -, hruns, hsuperclass, -⟩ :=
    hsound 1 keyword name hsuper
  exact ⟨keyword, name, scope, object, owner, cls, method, superclass, hsuper, hname, hruns,
    hsuperclass⟩

end ScopeScript
