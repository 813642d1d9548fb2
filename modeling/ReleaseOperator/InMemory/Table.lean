/-!
# Tables

Values under keys, each key once.
-/

namespace ReleaseOperator.InMemory

abbrev Table (κ α : Type) := List (κ × α)

namespace Table

variable {κ α : Type} [DecidableEq κ]

def get? (t : Table κ α) (key : κ) : Option α := t.lookup key

def erase (t : Table κ α) (key : κ) : Table κ α := t.filter fun kv => kv.1 ≠ key

def put (t : Table κ α) (key : κ) (a : α) : Table κ α := (key, a) :: t.erase key

end Table

end ReleaseOperator.InMemory
