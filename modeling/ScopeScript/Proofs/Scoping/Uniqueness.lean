import ScopeScript.Proofs.Parsing.Assignments
import ScopeScript.Proofs.Parsing.Endings
import ScopeScript.Proofs.Scoping.Visits

/-!
# Node numbers are unique

Programs that are read one after another draw their node numbers from one supply, which only grows:
a program that is refused uses numbers up and gives none back. So no two nodes have the same number,
whether they are in one program or in two, and none has the number of a node that was dropped for
it. The tables of bindings of two programs have no entry in common, and no entry is written twice.
-/

namespace ScopeScript

/-- What each of several lists of tokens is read into, one after another: every list is read from
the number that the one before has left. -/
def parseEach (nextId : NodeId) : List (List Token) → List (Except (List SyntaxError) Program)
  | [] => []
  | tokens :: rest => (parseTokens nextId tokens).1 :: parseEach (parseTokens nextId tokens).2 rest

/-- The programs that several lists of tokens are read into; what is refused is left out. -/
def programsRead (nextId : NodeId) (sources : List (List Token)) : List Program :=
  (parseEach nextId sources).filterMap Except.toOption

/-- The table that the walk over a program leaves, with all its errors or without. -/
def bindings (program : Program) : Locals :=
  (Resolver.start.statements program).locals

theorem resolve_bindings {program : Program} {resolution : Resolution}
    (h : resolve program = .ok resolution) : resolution.locals = bindings program := by
  unfold resolve at h
  dsimp only at h
  split at h
  · cases h
    rfl
  · cases h

/-- Only nodes of the program have entries in its table. -/
theorem mem_ids_of_bindings {program : Program} {id : NodeId} (h : id ∈ bindings program) :
    id ∈ Stmt.idsAll program := by
  by_contra hid
  have hsame := (Resolver.statements_walk program Resolver.start).locals id hid
  have hnone : (bindings program)[id]? = none := hsame
  rw [Std.ExtTreeMap.mem_iff_isSome_getElem?, hnone] at h
  cases h

/-- The nodes of a program that was read have numbers of their own, which no later program gets. -/
theorem parseTokens_numbered {nextId : NodeId} {tokens : List Token} {program : Program}
    (h : (parseTokens nextId tokens).1 = .ok program) :
    Numbered (Stmt.idsAll program) nextId (parseTokens nextId tokens).2 :=
  (parseTokens_reads (Prod.ext h rfl)).numbered

theorem programsRead_numbered (nextId : NodeId) (sources : List (List Token)) :
    ∃ next, Numbered ((programsRead nextId sources).flatMap Stmt.idsAll) nextId next := by
  induction sources generalizing nextId with
  | nil => exact ⟨nextId, .nil nextId⟩
  | cons tokens rest ih =>
      obtain ⟨next, hrest⟩ := ih (parseTokens nextId tokens).2
      unfold programsRead at hrest ⊢
      rw [parseEach]
      cases hresult : (parseTokens nextId tokens).1 with
      | error => exact ⟨next, hrest.widen (parseTokens_le nextId tokens)⟩
      | ok program => exact ⟨next, (parseTokens_numbered hresult).append hrest⟩

/-- Where a list of tokens is read into a program, it was read with some number to start from. -/
theorem parseEach_zip {nextId : NodeId} {sources : List (List Token)} {tokens : List Token}
    {result : Except (List SyntaxError) Program}
    (h : (tokens, result) ∈ sources.zip (parseEach nextId sources)) :
    ∃ first, (parseTokens first tokens).1 = result := by
  induction sources generalizing nextId with
  | nil => cases h
  | cons source rest ih =>
      rw [parseEach, List.zip_cons_cons] at h
      rcases List.mem_cons.mp h with heq | h
      · cases heq
        exact ⟨nextId, rfl⟩
      · exact ih h

/-- The walk over a program comes to each of its nodes once, writes to its table only there, and
never writes an entry twice; so the table has exactly the entries that were written. -/
structure WrittenOnce (program : Program) : Prop where
  visited : ((Resolver.start.visitsInAll program).map Visit.reference).Perm
    (Stmt.referencesAll program)
  linked : Linked ∅ (Resolver.start.visitsInAll program) (bindings program)
  nodup : ((writes (Resolver.start.visitsInAll program)).map Prod.fst).Nodup
  entries : ∀ id distance, (bindings program)[id]? = some distance ↔
    (id, distance) ∈ writes (Resolver.start.visitsInAll program)

theorem writtenOnce {program : Program} (h : (Stmt.idsAll program).Nodup) :
    WrittenOnce program := by
  have hvisited := Resolver.visitsInAll_references program Resolver.start
  have hlinked : Linked ∅ (Resolver.start.visitsInAll program) (bindings program) :=
    Resolver.statements_linked program Resolver.start
  have hids := (hvisited.map Reference.id).nodup_iff.mpr h
  rw [List.map_map] at hids
  have hnodup := (writes_sublist (Resolver.start.visitsInAll program)).nodup hids
  exact ⟨hvisited, hlinked, hnodup, hlinked.getElem?_empty hnodup⟩

/-- Programs are read one after another, some of them refused. All their nodes that refer to a
binding have different numbers, within a program and across programs, and an assignment has another
number than the variable node that was dropped for it. The tables of two programs have no entry in
common, and the walk over a program writes each entry at one node only, and once. -/
theorem nodeIds_unique (nextId : NodeId) (sources : List (List Token)) :
    ((programsRead nextId sources).flatMap Stmt.idsAll).Nodup ∧
    (∀ tokens program, (tokens, .ok program) ∈ sources.zip (parseEach nextId sources) →
      ∀ r ∈ Stmt.referencesAll program, r.kind = .assign →
        ∃ discarded, discarded ≠ r.id ∧ r.MadeFrom tokens discarded) ∧
    (programsRead nextId sources).Pairwise
      (fun program other => ∀ id, id ∈ bindings program → id ∉ bindings other) ∧
    (∀ program ∈ programsRead nextId sources, WrittenOnce program ∧
      ∀ resolution, resolve program = .ok resolution → resolution.locals = bindings program) := by
  obtain ⟨next, hnumbered⟩ := programsRead_numbered nextId sources
  obtain ⟨hwithin, hacross⟩ := List.nodup_flatMap.mp hnumbered.nodup
  refine ⟨hnumbered.nodup, ?_, ?_, ?_⟩
  · intro tokens program hmem r hr hkind
    obtain ⟨first, hread⟩ := parseEach_zip hmem
    have hreads := parseTokens_reads (Prod.ext hread rfl)
    obtain ⟨discarded, hless, hmade⟩ :=
      hreads.madeApart.widen (Cursor.start_infix tokens first) r hr hkind
    exact ⟨discarded, Nat.ne_of_lt hless, hmade⟩
  · refine hacross.imp fun hdisjoint id hid hother => ?_
    exact hdisjoint (mem_ids_of_bindings hid) (mem_ids_of_bindings hother)
  · exact fun program hprogram =>
      ⟨writtenOnce (hwithin program hprogram), fun _ h => resolve_bindings h⟩

/-- The tokens of `a = a;`. -/
def selfAssignment : List Token :=
  [⟨.identifier, "a", 1⟩, ⟨.punct .equal, "=", 1⟩, ⟨.identifier, "a", 1⟩,
    ⟨.punct .semicolon, ";", 1⟩]

/-- An assignment is read twice, with one between that lacks its value. The numbers 0 and 4 are
those of the dropped targets, and 3 is used up by what is refused. -/
theorem nodeIds_unique_of_assignments :
    programsRead 0 [selfAssignment, selfAssignment.take 2, selfAssignment] =
        [[.expression (.assign 2 ⟨.identifier, "a", 1⟩ (.variable 1 ⟨.identifier, "a", 1⟩))],
          [.expression (.assign 6 ⟨.identifier, "a", 1⟩ (.variable 5 ⟨.identifier, "a", 1⟩))]] ∧
      [2, 1, 6, 5].Nodup ∧
      ∃ discarded, discarded ≠ 2 ∧
        Reference.MadeFrom selfAssignment discarded ⟨.assign, 2, ⟨.identifier, "a", 1⟩⟩ := by
  obtain ⟨hnodup, hassign, -⟩ :=
    nodeIds_unique 0 [selfAssignment, selfAssignment.take 2, selfAssignment]
  refine ⟨rfl, hnodup, ?_⟩
  exact hassign selfAssignment _ (.head _) ⟨.assign, 2, ⟨.identifier, "a", 1⟩⟩ (.head _) rfl

end ScopeScript
