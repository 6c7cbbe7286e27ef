/-
# Tables

A table holds at most one value under each name. Its entries stand in the order in which their
names first came in; a new value for a name takes the place of the old one.
-/
import DirectC.Bytes

namespace DirectC

/-- A finite map from names. -/
structure Table (α : Type) where
  /-- The entries, oldest name first. -/
  entries : List (Bytes × α) := []
  deriving Repr

namespace Table

variable {α : Type}

instance : EmptyCollection (Table α) := ⟨⟨[]⟩⟩

instance : Inhabited (Table α) := ⟨∅⟩

/-- The value under a name. -/
def get? (t : Table α) (name : Bytes) : Option α :=
  (t.entries.find? fun e => e.1 == name).map (·.2)

/-- A name with a value. -/
def contains (t : Table α) (name : Bytes) : Bool :=
  t.entries.any fun e => e.1 == name

/-- The entries with the value under `name` replaced, or with a new last entry. -/
def put (name : Bytes) (value : α) : List (Bytes × α) → List (Bytes × α)
  | [] => [(name, value)]
  | e :: es => if e.1 == name then (name, value) :: es else e :: put name value es

/-- Sets the value under a name. -/
def insert (t : Table α) (name : Bytes) (value : α) : Table α :=
  ⟨put name value t.entries⟩

/-- Forgets a name. -/
def erase (t : Table α) (name : Bytes) : Table α :=
  ⟨t.entries.filter fun e => e.1 != name⟩

/-- The names, oldest first. -/
def names (t : Table α) : List Bytes :=
  t.entries.map (·.1)

/-- The entries sorted by name. -/
def sorted (t : Table α) : List (Bytes × α) :=
  t.entries.mergeSort fun a b => !Bytes.before b.1 a.1

end Table

end DirectC
