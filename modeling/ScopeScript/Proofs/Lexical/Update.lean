import ScopeScript.Machine.Run
import ScopeScript.Proofs.Lexical.Memory

/-!
# Updates of the two memories

Each update of a store has its counterpart in the other machine, and the memories agree after both
if they agreed before. A declaration makes a cell, and its place is the name in the scope where the
declaration was made. Entering a scope makes nothing in the other machine, where environments are
only values.
-/

namespace ScopeScript.Lexical

variable {points : NodeId → Option Nat → Prop} {w w' : World} {state : State}
  {id : ScopeId} {name : String} {binding : Binding}

namespace World

/-- The second world follows the first, and the names of scopes in front of one stay the same. What
may be made is settled in front of each step. -/
structure Follows (w w' : World) (id : ScopeId) : Prop where
  grows : w.Grows w'
  keeps : w.Keeps w' id
  made : w'.made = w.made

theorem Follows.refl (w : World) (id : ScopeId) : w.Follows w id :=
  ⟨.refl w, .refl w id, rfl⟩

theorem Follows.trans {w'' : World} (h : w.Follows w' id) (h' : w'.Follows w'' id) :
    w.Follows w'' id :=
  ⟨h.grows.trans h'.grows, h.keeps.trans h'.keeps, h'.made.trans h.made⟩

theorem Follows.mono {other : ScopeId} (h : w.Follows w' id) (hle : other ≤ id) :
    w.Follows w' other :=
  ⟨h.grows, h.keeps.mono hle, h.made⟩

/-- An empty scope is added inside another. -/
def opened (w : World) (parent : ScopeId) : World :=
  { w with store := (w.store.addScope (.empty (some parent))).2 }

/-- A name is bound, and its binding is the place of the next cell. -/
def placed (w : World) (id : ScopeId) (name : String) (binding : Binding) : World :=
  { w with
    store := w.store.bind id name binding
    places := w.places ++ [(id, name)] }

/-- A name is bound. -/
def bound (w : World) (id : ScopeId) (name : String) (binding : Binding) : World :=
  { w with store := w.store.bind id name binding }

/-- The heap is changed. -/
def withHeap (w : World) (heap : Heap ScopeId) : World :=
  { w with store := { w.store with toHeap := heap } }

theorem opened_grows (w : World) (parent : ScopeId) : w.Grows (w.opened parent) :=
  ⟨.addScope w.store _, rfl, fun _ _ h => h, fun _ _ _ h => h⟩

theorem opened_follows {parent : ScopeId} (hle : id ≤ w.store.scopes.size) :
    w.Follows (w.opened parent) id := by
  refine ⟨w.opened_grows parent, ?_, rfl⟩
  intro other hother asked h
  have hne : other ≠ w.store.scopes.size := Nat.ne_of_lt (Nat.lt_of_lt_of_le hother hle)
  rw [opened, Store.binding?_addScope, if_neg hne] at h
  exact h

theorem bound_keeps (hid : id < w.store.scopes.size) :
    w.Keeps (w.bound id name binding) id := by
  intro other hother asked h
  rw [bound, Store.binding?_bind hid, if_neg fun heq => Nat.ne_of_lt hother heq.1] at h
  exact h

theorem bound_follows (hid : id < w.store.scopes.size)
    (hname : w.store.binding? id name = none ∨ name ≠ "this" ∧ name ≠ "super") :
    w.Follows (w.bound id name binding) id :=
  ⟨⟨.bind binding hid hname, rfl, fun _ _ h => h, fun _ _ _ h => h⟩, bound_keeps hid, rfl⟩

theorem placed_grows (hid : id < w.store.scopes.size) (hnew : w.store.binding? id name = none) :
    w.Grows (w.placed id name binding) := by
  refine ⟨.bind binding hid (.inl hnew), rfl, ?_, fun _ _ _ h => h⟩
  intro cell place h
  have hlt : cell < w.places.length := (List.getElem?_eq_some_iff.mp h).1
  rw [placed, List.getElem?_append_left hlt, h]

theorem places_placed {cell : CellId} {place : ScopeId × String}
    (h : (w.placed id name binding).places[cell]? = some place) :
    w.places[cell]? = some place ∨ cell = w.places.length ∧ place = (id, name) := by
  rw [placed] at h
  by_cases hlt : cell < w.places.length
  · rw [List.getElem?_append_left hlt] at h
    exact .inl h
  · rw [List.getElem?_append_right (Nat.le_of_not_lt hlt)] at h
    have hzero : cell - w.places.length = 0 := by
      have hbound := (List.getElem?_eq_some_iff.mp h).1
      simpa using hbound
    rw [hzero] at h
    have heq := Nat.le_antisymm (Nat.le_of_sub_eq_zero hzero) (Nat.le_of_not_lt hlt)
    exact .inr ⟨heq, by simpa using h.symm⟩

theorem placed_follows (hid : id < w.store.scopes.size) (hnew : w.store.binding? id name = none) :
    w.Follows (w.placed id name binding) id :=
  ⟨placed_grows hid hnew, bound_keeps hid, rfl⟩

end World

namespace SameMemory

/-- A cell that has a place holds something. -/
theorem cell_some (h : SameMemory points w state) {cell : CellId}
    (hplace : w.places[cell]? = some (id, name)) :
    ∃ binding, state.cells[cell]? = some binding ∧ w.store.binding? id name = some binding := by
  have hlt : cell < state.cells.size := by
    rw [h.size]
    exact (List.getElem?_eq_some_iff.mp hplace).1
  refine ⟨state.cells[cell], Array.getElem?_eq_getElem hlt, ?_⟩
  rw [← (h.cells cell id name hplace).2, Array.getElem?_eq_getElem hlt]

theorem opened (h : SameMemory points w state) (parent : ScopeId) :
    SameMemory points (w.opened parent) state := by
  have hne : ∀ {other asked found}, w.store.binding? other asked = some found →
      other ≠ w.store.scopes.size :=
    fun hfound => Nat.ne_of_lt (Store.lt_size_of_binding? hfound)
  have hglobals : w.globals ≠ w.store.scopes.size := Nat.ne_of_lt h.inside
  refine ⟨?_, ?_, ?_, h.size, ?_, h.apart, ?_⟩
  · simp only [World.opened, Store.scope_addScope, if_neg hglobals]
    exact h.root
  · simp only [World.opened, Store.addScope, Array.size_push]
    exact Nat.lt_succ_of_lt h.inside
  · intro asked
    simp only [World.opened, Store.binding?_addScope, if_neg hglobals]
    exact h.names asked
  · intro cell other asked hplace
    obtain ⟨found, -, hfound⟩ := h.cell_some hplace
    simp only [World.opened, Store.binding?_addScope, if_neg (hne hfound)]
    exact h.cells cell other asked hplace
  · exact h.heap.mono (w.opened_grows parent) rfl

/-- A new local name. -/
theorem placed (h : SameMemory points w state) (hid : id < w.store.scopes.size)
    (hlocal : id ≠ w.globals) (hnew : w.store.binding? id name = none) (binding : Binding) :
    SameMemory points (w.placed id name binding)
      { state with cells := state.cells.push binding } := by
  -- Every place in use holds a binding, and this one holds none yet.
  have hapart : ∀ {cell : CellId} {place}, w.places[cell]? = some place → place ≠ (id, name) := by
    rintro cell place hplace rfl
    obtain ⟨found, -, hfound⟩ := h.cell_some hplace
    rw [hnew] at hfound
    cases hfound
  refine ⟨?_, ?_, ?_, ?_, ?_, ?_, ?_⟩
  · simp only [World.placed, Store.parent_bind]
    exact h.root
  · simp only [World.placed, Store.bind, Array.size_modify]
    exact h.inside
  · intro asked
    simp only [World.placed, Store.binding?_bind hid]
    rw [if_neg fun heq => hlocal heq.1.symm]
    exact h.names asked
  · simp [World.placed, h.size]
  · intro cell other asked hplace
    simp only [World.placed, Store.binding?_bind hid]
    rcases World.places_placed hplace with hplace | ⟨rfl, heq⟩
    · have hne := hapart hplace
      have hlt : cell < state.cells.size := by
        rw [h.size]
        exact (List.getElem?_eq_some_iff.mp hplace).1
      rw [if_neg fun heq => hne (by rw [heq.1, heq.2]), Array.getElem?_push,
        if_neg (Nat.ne_of_lt hlt)]
      exact h.cells cell other asked hplace
    · cases heq
      rw [if_pos ⟨rfl, rfl⟩, Array.getElem?_push, if_pos h.size.symm]
      exact ⟨hlocal, rfl⟩
  · intro cell cell' place hplace hplace'
    rcases World.places_placed hplace with hplace | ⟨rfl, rfl⟩
    · rcases World.places_placed hplace' with hplace' | ⟨rfl, heq⟩
      · exact h.apart cell cell' place hplace hplace'
      · exact (hapart hplace heq).elim
    · rcases World.places_placed hplace' with hplace' | ⟨rfl, -⟩
      · exact (hapart hplace' rfl).elim
      · rfl
  · exact h.heap.mono (World.placed_grows hid hnew) rfl

/-- A new binding of a name that has a cell. -/
theorem bound (h : SameMemory points w state) {cell : CellId}
    (hplace : w.places[cell]? = some (id, name)) (hplain : name ≠ "this" ∧ name ≠ "super")
    (binding : Binding) :
    SameMemory points (w.bound id name binding)
      { state with cells := state.cells.modify cell fun _ => binding } := by
  obtain ⟨old, -, hold⟩ := h.cell_some hplace
  have hid := Store.lt_size_of_binding? hold
  have hlocal := (h.cells cell id name hplace).1
  refine ⟨?_, ?_, ?_, ?_, ?_, h.apart, ?_⟩
  · simp only [World.bound, Store.parent_bind]
    exact h.root
  · simp only [World.bound, Store.bind, Array.size_modify]
    exact h.inside
  · intro asked
    simp only [World.bound, Store.binding?_bind hid]
    rw [if_neg fun heq => hlocal heq.1.symm]
    exact h.names asked
  · simp [World.bound, h.size]
  · intro other scope asked hother
    have hsame := h.cells other scope asked hother
    simp only [World.bound, Store.binding?_bind hid, Array.getElem?_modify]
    by_cases hcell : cell = other
    · subst hcell
      obtain ⟨rfl, rfl⟩ : id = scope ∧ name = asked := by
        simpa [World.bound, hplace] using hother
      rw [if_pos rfl, if_pos ⟨rfl, rfl⟩, hsame.2, hold]
      exact ⟨hlocal, rfl⟩
    · rw [if_neg hcell, if_neg]
      · exact hsame
      · rintro ⟨rfl, rfl⟩
        exact hcell (h.apart _ _ _ hplace hother)
  · exact h.heap.mono (World.bound_follows hid (.inr hplain)).grows rfl

/-- A binding of a global name, new or not. -/
theorem boundGlobal (h : SameMemory points w state)
    (hname : w.store.binding? w.globals name = none ∨ name ≠ "this" ∧ name ≠ "super")
    (binding : Binding) :
    SameMemory points (w.bound w.globals name binding)
      { state with globals := state.globals.insert name binding } := by
  refine ⟨?_, ?_, ?_, h.size, ?_, h.apart, ?_⟩
  · simp only [World.bound, Store.parent_bind]
    exact h.root
  · simp only [World.bound, Store.bind, Array.size_modify]
    exact h.inside
  · intro asked
    simp only [World.bound, Store.binding?_bind h.inside, NameMap.find?_insert, true_and]
    split
    next => rfl
    next => exact h.names asked
  · intro cell other asked hplace
    have hsame := h.cells cell other asked hplace
    simp only [World.bound, Store.binding?_bind h.inside]
    rw [if_neg fun heq => hsame.1 heq.1]
    exact hsame
  · exact h.heap.mono (World.bound_follows h.inside hname).grows rfl

/-- Other heaps that agree. -/
theorem withHeap (h : SameMemory points w state) {heap : Heap ScopeId} {heap' : Heap Environment}
    (hheap : SameHeap points (w.withHeap heap) heap') :
    SameMemory points (w.withHeap heap) { state with heap := heap' } :=
  ⟨h.root, h.inside, h.names, h.size, h.cells, h.apart, hheap⟩

end SameMemory

end ScopeScript.Lexical
