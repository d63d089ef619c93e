/-! # Maps from names

A map from names to values. Scopes, fields and method tables hold few names, so a list of entries is
enough. The map is observed only through `find?`: the law of `insert` says what a later `find?`
gives, and nothing else about the entries is promised but that every name has one.
-/

namespace ScopeScript

/-- A map from names to values. -/
structure NameMap (α : Type) where
  entries : List (String × α)

namespace NameMap

variable {α : Type}

/-- The map without names. -/
def empty : NameMap α :=
  ⟨[]⟩

/-- The value of a name among entries. -/
def findEntry? (name : String) : List (String × α) → Option α
  | [] => none
  | (key, value) :: rest => if name = key then some value else findEntry? name rest

/-- The value of a name. -/
def find? (map : NameMap α) (name : String) : Option α :=
  findEntry? name map.entries

/-- Whether a name has a value. -/
def contains (map : NameMap α) (name : String) : Bool :=
  (map.find? name).isSome

/-- The names that have a value. -/
def names (map : NameMap α) : List String :=
  map.entries.map Prod.fst

/-- The entries with one name set to a value. -/
def insertEntry (name : String) (value : α) : List (String × α) → List (String × α)
  | [] => [(name, value)]
  | (key, old) :: rest =>
    if name = key then (key, value) :: rest else (key, old) :: insertEntry name value rest

/-- The map with one name set to a value, whether it had one or not. -/
def insert (map : NameMap α) (name : String) (value : α) : NameMap α :=
  ⟨insertEntry name value map.entries⟩

theorem findEntry?_insertEntry (name other : String) (value : α) (entries : List (String × α)) :
    findEntry? other (insertEntry name value entries)
      = if other = name then some value else findEntry? other entries := by
  induction entries with
  | nil => rfl
  | cons entry rest ih =>
    obtain ⟨key, old⟩ := entry
    by_cases hname : name = key
    · subst hname
      by_cases h : other = name <;> simp [insertEntry, findEntry?, h]
    · by_cases h : other = key
      · subst h
        simp [insertEntry, findEntry?, hname, Ne.symm hname]
      · simp [insertEntry, findEntry?, hname, h, ih]

@[simp] theorem find?_empty (name : String) : (empty : NameMap α).find? name = none := rfl

@[simp] theorem find?_insert (map : NameMap α) (name other : String) (value : α) :
    (map.insert name value).find? other = if other = name then some value else map.find? other :=
  findEntry?_insertEntry name other value map.entries

end NameMap

end ScopeScript
