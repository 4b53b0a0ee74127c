/-!
# Tables of names

A table binds names to values.  Binding a name again replaces its value in
place, so a table has one entry for each name, in the order in which the names
first came.  Frames, scopes, method tables and the fields of objects are tables.

The view of a table is `get?`; `get?_insert` says what binding does to it.
-/

namespace LoxLang

/-- Names with their values, one entry for each name. -/
structure Table (V : Type) where
  entries : List (String × V)
deriving DecidableEq, Repr

namespace Table

variable {V : Type}

instance : Inhabited (Table V) := ⟨⟨[]⟩⟩

/-- The table without entries. -/
def empty : Table V := ⟨[]⟩

/-- Look a name up among entries. -/
def lookup (name : String) : List (String × V) → Option V
  | [] => none
  | (key, value) :: rest => if key = name then some value else lookup name rest

/-- Replace the value of a name, or add the name at the end. -/
def replace (name : String) (value : V) : List (String × V) → List (String × V)
  | [] => [(name, value)]
  | (key, old) :: rest =>
      if key = name then (key, value) :: rest else (key, old) :: replace name value rest

/-- The value bound to a name. -/
def get? (table : Table V) (name : String) : Option V :=
  lookup name table.entries

/-- Whether a name is bound. -/
def binds (table : Table V) (name : String) : Bool :=
  (table.get? name).isSome

/-- Bind a name, replacing what it was bound to. -/
def insert (table : Table V) (name : String) (value : V) : Table V :=
  ⟨replace name value table.entries⟩

/-- The bound names, in the order in which they first came. -/
def names (table : Table V) : List String :=
  table.entries.map Prod.fst

/-- The entries sorted by name, code point by code point. -/
def sorted (table : Table V) : List (String × V) :=
  table.entries.mergeSort fun left right => left.1 ≤ right.1

/-- A table with the given bindings; of two bindings of one name the later counts. -/
def ofList (bindings : List (String × V)) : Table V :=
  bindings.foldl (fun table binding => table.insert binding.1 binding.2) empty

theorem lookup_replace (name key : String) (value : V) (entries : List (String × V)) :
    lookup key (replace name value entries) =
      if name = key then some value else lookup key entries := by
  induction entries with
  | nil => rfl
  | cons entry rest induction =>
      obtain ⟨first, old⟩ := entry
      by_cases same : first = name
      · subst same
        by_cases wanted : first = key <;> simp [replace, lookup, wanted]
      · by_cases wanted : first = key
        · subst wanted
          simp [replace, lookup, same, Ne.symm same]
        · simp [replace, lookup, same, wanted, induction]

/-- A name that is bound anew keeps its place, and a new one comes last. -/
theorem keys_replace (name : String) (value : V) (entries : List (String × V)) :
    (replace name value entries).map Prod.fst =
      if name ∈ entries.map Prod.fst then entries.map Prod.fst
      else entries.map Prod.fst ++ [name] := by
  induction entries with
  | nil => rfl
  | cons entry rest induction =>
      obtain ⟨key, old⟩ := entry
      by_cases same : key = name
      · simp [replace, same]
      · simp only [replace, same, if_false, List.map_cons, induction, List.mem_cons,
          Ne.symm same, false_or]
        split <;> rfl

@[simp] theorem get?_empty (name : String) : (empty : Table V).get? name = none := rfl

theorem get?_insert (table : Table V) (name key : String) (value : V) :
    (table.insert name value).get? key = if name = key then some value else table.get? key :=
  lookup_replace name key value table.entries

@[simp] theorem get?_insert_self (table : Table V) (name : String) (value : V) :
    (table.insert name value).get? name = some value := by
  simp [get?_insert]

theorem get?_insert_of_ne (table : Table V) {name key : String} (value : V)
    (distinct : name ≠ key) :
    (table.insert name value).get? key = table.get? key := by
  simp [get?_insert, distinct]

theorem binds_insert (table : Table V) (name key : String) (value : V) :
    (table.insert name value).binds key = (decide (name = key) || table.binds key) := by
  by_cases same : name = key <;> simp [binds, get?_insert, same]

end Table

end LoxLang
