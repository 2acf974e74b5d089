/-!
# Tables

A table maps names to values and lists its entries by ascending name, each name
once. Two tables with the same entries are the same table.
-/

namespace TaskMachine

/-- Entries by ascending name. -/
structure Table (α : Type) where
  entries : List (String × α) := []
  deriving DecidableEq, Repr

namespace Table

variable {α : Type}

/-- The value of a name. -/
def find? (t : Table α) (name : String) : Option α := t.entries.lookup name

/-- Whether a name has a value. -/
def contains (t : Table α) (name : String) : Bool := (t.find? name).isSome

/-- Puts an entry in its place among ascending entries. -/
def place (name : String) (value : α) : List (String × α) → List (String × α)
  | [] => [(name, value)]
  | (n, v) :: rest =>
    if name = n then (name, value) :: rest
    else if name < n then (name, value) :: (n, v) :: rest
    else (n, v) :: place name value rest

/-- The table with a name set to a value. -/
def insert (t : Table α) (name : String) (value : α) : Table α := ⟨place name value t.entries⟩

/-- The table with several names set, one after the other. -/
def insertAll (t : Table α) (entries : List (String × α)) : Table α :=
  entries.foldl (fun t (name, value) => t.insert name value) t

/-- The table of a list of entries, where a later entry replaces an earlier one. -/
def ofList (entries : List (String × α)) : Table α := ({} : Table α).insertAll entries

/-- Several tables in one; a later table has its way. -/
def merge (tables : List (Table α)) : Table α :=
  tables.foldl (fun t other => t.insertAll other.entries) {}

end Table

end TaskMachine
