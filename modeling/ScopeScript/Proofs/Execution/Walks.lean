import Mathlib.Data.List.Chain
import ScopeScript.Proofs.Execution.Grounding

/-!
# Walks that come to an end

A lookup walks along links: from a scope to the one around it, from a class to the one above it. It
looks at every place whether it has what it is after, and goes on by itself where it has not; no
bound is set to it. Where every link leads to an older place it comes to an end all the same, and
the lookups of a store, which count the places that they pass, give what it gives: they never run
out of places.
-/

namespace ScopeScript

/-- The places that links lead to from one place, in order, to one that has no link. No place comes
twice. -/
structure Path (next : Nat → Option Nat) (first last : Nat) (places : List Nat) : Prop where
  starts : places.head? = some first
  ends : places.getLast? = some last
  linked : places.IsChain fun a b => next a = some b
  ended : next last = none
  once : places.Nodup

/-- A walk along links ends and gives a result: that of the first place that has one, or the one for
there being none. -/
inductive Walk {α : Type} (next : Nat → Option Nat) (here : Nat → Option α) (nowhere : α) :
    Nat → α → Prop
  | found {place : Nat} {result : α} :
      here place = some result → Walk next here nowhere place result
  | on {place after : Nat} {result : α} :
      here place = none → next place = some after → Walk next here nowhere after result →
      Walk next here nowhere place result
  | ended {place : Nat} :
      here place = none → next place = none → Walk next here nowhere place nowhere

section Links

variable {next : Nat → Option Nat}

/-- Where links lead to older places, every place has a path. -/
theorem exists_path (hnext : ∀ a b, next a = some b → b < a) (first : Nat) :
    ∃ last ≤ first, ∃ places, Path next first last places := by
  have hlinks : ∃ last ≤ first, ∃ places : List Nat, places.head? = some first
      ∧ places.getLast? = some last ∧ places.IsChain (fun a b => next a = some b)
      ∧ next last = none := by
    induction first using Nat.strong_induction_on with
    | h first ih =>
        cases hfirst : next first with
        | none => exact ⟨first, Nat.le_refl _, [first], rfl, rfl, .singleton _, hfirst⟩
        | some second =>
            have hlt := hnext first second hfirst
            obtain ⟨last, hle, places, hhead, hlast, hchain, hended⟩ := ih second hlt
            obtain ⟨rest, rfl⟩ := List.head?_eq_some_iff.mp hhead
            refine ⟨last, Nat.le_trans hle (Nat.le_of_lt hlt), first :: second :: rest, rfl, ?_,
              .cons_cons hfirst hchain, hended⟩
            rw [List.getLast?_cons_cons]
            exact hlast
  obtain ⟨last, hle, places, hhead, hlast, hchain, hended⟩ := hlinks
  have holder : places.Pairwise (· > ·) :=
    List.isChain_iff_pairwise.mp (hchain.imp fun a b hab => hnext a b hab)
  exact ⟨last, hle, places, hhead, hlast, hchain, hended, holder.imp Nat.ne_of_gt⟩

/-- Where links lead to older places, the places of a path are not newer than the first. -/
theorem Path.le (hnext : ∀ a b, next a = some b → b < a) {first last : Nat} {places : List Nat}
    (h : Path next first last places) {place : Nat} (hplace : place ∈ places) : place ≤ first := by
  obtain ⟨rest, rfl⟩ := List.head?_eq_some_iff.mp h.starts
  have holder : (first :: rest).Pairwise (· > ·) :=
    List.isChain_iff_pairwise.mp (h.linked.imp fun a b hab => hnext a b hab)
  rcases List.mem_cons.mp hplace with rfl | hrest
  · exact Nat.le_refl _
  · exact Nat.le_of_lt ((List.pairwise_cons.mp holder).1 place hrest)

/-- A path is one for all links that agree on its places. -/
theorem Path.congr {next' : Nat → Option Nat} {first last : Nat} {places : List Nat}
    (h : Path next first last places) (hsame : ∀ place ∈ places, next' place = next place) :
    Path next' first last places where
  starts := h.starts
  ends := h.ends
  linked := h.linked.imp_of_mem_imp fun a _ ha _ hab => (hsame a ha).trans hab
  ended := (hsame last (List.mem_of_getLast? h.ends)).trans h.ended
  once := h.once

variable {α β : Type} {here : Nat → Option α} {nowhere : α}

/-- What is made of the result of a walk may be made of it at every place. -/
theorem Walk.map (f : α → β) {here' : Nat → Option β}
    (hhere : ∀ place, here' place = (here place).map f) {place : Nat} {result : α}
    (h : Walk next here nowhere place result) :
    Walk next here' (f nowhere) place (f result) := by
  induction h with
  | found hfound => exact .found (by rw [hhere, hfound, Option.map_some])
  | on hnone hon _ ih => exact .on (by rw [hhere, hnone, Option.map_none]) hon ih
  | ended hnone hended => exact .ended (by rw [hhere, hnone, Option.map_none]) hended

/-- A walk gives one result only. -/
theorem Walk.unique {place : Nat} {result result' : α} (h : Walk next here nowhere place result)
    (h' : Walk next here nowhere place result') : result' = result := by
  induction h with
  | found hfound =>
      cases h' with
      | found hfound' => exact Option.some.inj (hfound'.symm.trans hfound)
      | on hnone | ended hnone => cases hfound.symm.trans hnone
  | on hnone hon _ ih =>
      cases h' with
      | found hfound => cases hnone.symm.trans hfound
      | on _ hon' hrest =>
          cases hon.symm.trans hon'
          exact ih hrest
      | ended _ hended => cases hon.symm.trans hended
  | ended hnone hended =>
      cases h' with
      | found hfound => cases hnone.symm.trans hfound
      | on _ hon => cases hended.symm.trans hon
      | ended => rfl

end Links

namespace Store

variable {store : Store}

/-- The scope around a scope. -/
def outer? (store : Store) (id : ScopeId) : Option ScopeId :=
  (store.scope id).parent

/-- What a lookup finds in a scope itself. -/
def valueHere? (store : Store) (name : Token) (id : ScopeId) : Option (Except RuntimeError Value) :=
  (store.binding? id name.lexeme).map fun binding => .ok binding.value

/-- What an assignment does in a scope itself. -/
def assignHere? (store : Store) (name : Token) (value : Value) (id : ScopeId) :
    Option (Except RuntimeError Store) :=
  (store.binding? id name.lexeme).map fun binding =>
    if binding.mutable then .ok (store.put id name value)
    else .error ⟨name, .assignedConstant name.lexeme⟩

theorem holderWithin?_walk (hnext : ∀ a b, store.outer? a = some b → b < a) (name : String)
    {fuel : Nat} {id : ScopeId} (hfuel : id < fuel) :
    Walk store.outer? (fun id => if (store.binding? id name).isSome then some (some id) else none)
      none id (store.holderWithin? name fuel id) := by
  induction fuel generalizing id with
  | zero => exact absurd hfuel (Nat.not_lt_zero _)
  | succ fuel ih =>
      rw [holderWithin?]
      split
      next hhere => exact .found (if_pos hhere)
      next hhere =>
        split
        next hparent => exact .ended (if_neg hhere) hparent
        next parent hparent =>
          have hlt := hnext id parent hparent
          exact .on (if_neg hhere) hparent (ih (Nat.lt_of_lt_of_le hlt (Nat.le_of_lt_succ hfuel)))

theorem holder?_walk (hnext : ∀ a b, store.outer? a = some b → b < a) (name : String)
    (id : ScopeId) :
    Walk store.outer? (fun id => if (store.binding? id name).isSome then some (some id) else none)
      none id (store.holder? id name) :=
  holderWithin?_walk hnext name (Nat.lt_succ_self id)

/-- Looking up a name is a walk outward. -/
theorem get_walk (hnext : ∀ a b, store.outer? a = some b → b < a) (name : Token) (id : ScopeId) :
    Walk store.outer? (store.valueHere? name) (.error ⟨name, .undefinedVariable name.lexeme⟩) id
      (store.get id name) := by
  have hget : store.get id name = (store.holder? id name.lexeme).elim
      (.error ⟨name, .undefinedVariable name.lexeme⟩) (store.getHere · name) := by
    unfold get
    cases store.holder? id name.lexeme <;> rfl
  rw [hget]
  refine (holder?_walk hnext name.lexeme id).map (fun holder? : Option ScopeId => holder?.elim
    (.error ⟨name, .undefinedVariable name.lexeme⟩) (store.getHere · name)) ?_
  intro place
  cases hbinding : store.binding? place name.lexeme <;> simp [valueHere?, getHere, hbinding]

/-- Assigning to a name is a walk outward. -/
theorem assign_walk (hnext : ∀ a b, store.outer? a = some b → b < a) (name : Token) (value : Value)
    (id : ScopeId) :
    Walk store.outer? (store.assignHere? name value)
      (.error ⟨name, .undefinedVariable name.lexeme⟩) id (store.assign id name value) := by
  -- What an assignment does once it has found the scope that binds the name.
  let assignIn (holder : ScopeId) : Except RuntimeError Store :=
    (store.checkAssign holder name).elim (.ok (store.put holder name value)) .error
  have hassign : store.assign id name value = (store.holder? id name.lexeme).elim
      (.error ⟨name, .undefinedVariable name.lexeme⟩) assignIn := by
    unfold assign assignTarget
    cases store.holder? id name.lexeme with
    | none => rfl
    | some holder => cases hcheck : store.checkAssign holder name <;> simp [assignIn, hcheck]
  rw [hassign]
  refine (holder?_walk hnext name.lexeme id).map (fun holder? : Option ScopeId => holder?.elim
    (.error ⟨name, .undefinedVariable name.lexeme⟩) assignIn) ?_
  intro place
  cases hbinding : store.binding? place name.lexeme with
  | none => simp [assignHere?, hbinding]
  | some binding =>
      cases hmutable : binding.mutable <;>
        simp [assignHere?, assignIn, checkAssign, hbinding, hmutable]

end Store

namespace Heap

variable {ε : Type} {heap : Heap ε}

/-- The class above a class. -/
def superclass? (heap : Heap ε) (id : ClassId) : Option ClassId :=
  heap.classes[id]?.bind (·.superclass)

/-- What a search for a method finds in a class itself. -/
def methodHere? (heap : Heap ε) (name : String) (id : ClassId) : Option (Option (Closure ε)) :=
  (heap.classes[id]?.bind (·.methods.find? name)).map some

/-- Searching for a method is a walk upward. -/
theorem findMethodWithin?_walk (hnext : ∀ a b, heap.superclass? a = some b → b < a) (name : String)
    {fuel : Nat} {id : ClassId} (hfuel : id < fuel) :
    Walk heap.superclass? (heap.methodHere? name) none id
      (heap.findMethodWithin? name fuel id) := by
  induction fuel generalizing id with
  | zero => exact absurd hfuel (Nat.not_lt_zero _)
  | succ fuel ih =>
      rw [findMethodWithin?]
      split
      next hcls => exact .ended (by simp [methodHere?, hcls]) (by simp [superclass?, hcls])
      next cls hcls =>
        split
        next method hmethod => exact .found (by simp [methodHere?, hcls, hmethod])
        next hmethod =>
          have hhere : heap.methodHere? name id = none := by simp [methodHere?, hcls, hmethod]
          split
          next hsuper => exact .ended hhere (by simp [superclass?, hcls, hsuper])
          next superclass hsuper =>
            have hup : heap.superclass? id = some superclass := by simp [superclass?, hcls, hsuper]
            have hlt := hnext id superclass hup
            exact .on hhere hup (ih (Nat.lt_of_lt_of_le hlt (Nat.le_of_lt_succ hfuel)))

theorem findMethod?_walk (hnext : ∀ a b, heap.superclass? a = some b → b < a) (name : String)
    (id : ClassId) :
    Walk heap.superclass? (heap.methodHere? name) none id (heap.findMethod? id name) :=
  findMethodWithin?_walk hnext name (Nat.lt_succ_self id)

end Heap

namespace Store.Grounded

variable {store : Store} {globals : ScopeId} (h : store.Grounded globals)

include h

theorem outer?_lt (a b : ScopeId) (hab : store.outer? a = some b) : b < a := by
  have hne : a ≠ globals := by
    rintro rfl
    rw [outer?, h.root] at hab
    cases hab
  obtain ⟨parent, hparent, hlt⟩ := h.parents a (lt_size_of_parent hab) hne
  rw [outer?, hparent] at hab
  cases hab
  exact hlt

theorem superclass?_lt (a b : ClassId) (hab : store.superclass? a = some b) : b < a := by
  obtain ⟨cls, hcls, hsuperclass⟩ := Option.bind_eq_some_iff.mp hab
  exact h.superclasses a cls b hcls hsuperclass

/-- The path outward from every scope ends at the outermost one. -/
theorem scopePath {id : ScopeId} (hid : id < store.scopes.size) :
    ∃ places, Path store.outer? id globals places := by
  obtain ⟨last, hle, places, hpath⟩ := exists_path h.outer?_lt id
  have hlast : last = globals := by
    by_contra hne
    obtain ⟨parent, hparent, -⟩ := h.parents last (Nat.lt_of_le_of_lt hle hid) hne
    have hended := hpath.ended
    rw [outer?, hparent] at hended
    cases hended
  exact ⟨places, hlast ▸ hpath⟩

end Store.Grounded

end ScopeScript
