/-
# The tree of a settings file

Tables hold entries under keys; an entry is a value, a table, or an array of tables, of which the
last one is the one that headers and keys refer to. An inline table is complete where it is
written, so nothing can be added to it.
-/
import DirectC.Utf8

namespace DirectC

namespace Toml

/-- The values that entries have. -/
inductive Value where
  | text (content : Bytes)
  | integer (n : Int)
  /-- A float, a truth value, a date, a time or an array: no setting takes one. -/
  | other
  deriving DecidableEq, Repr, Inhabited

/-- A place in the tree. -/
inductive Node where
  | value (v : Value)
  | table (inline : Bool) (entries : List (Bytes × Node))
  /-- An array of tables. -/
  | tables (items : List Node)
  deriving Repr, Inhabited

namespace Node

/-- A table without entries. -/
def empty : Node :=
  .table false []

/-- The table that keys refer to: the place itself, or the last of an array of tables. -/
def current : Node → Node
  | .tables items => items.getLastD empty
  | n => n

/-- A value. -/
def isValue : Node → Bool
  | .value _ => true
  | _ => false

/-- An inline table. -/
def isInline (n : Node) : Bool :=
  match n.current with
  | .table inline _ => inline
  | _ => false

/-- The entry under a key. -/
def child? (n : Node) (key : Bytes) : Option Node :=
  match n.current with
  | .table _ entries => entries.lookup key
  | _ => none

/-- Entries with the one under a key set. -/
def putEntry (key : Bytes) (child : Node) : List (Bytes × Node) → List (Bytes × Node)
  | [] => [(key, child)]
  | e :: es => if e.1 == key then (key, child) :: es else e :: putEntry key child es

/-- Sets the entry under a key of a table. -/
def putTable (key : Bytes) (child : Node) : Node → Node
  | .table inline entries => .table inline (putEntry key child entries)
  | n => n

/-- Sets the entry under a key. -/
def putChild (n : Node) (key : Bytes) (child : Node) : Node :=
  match n with
  | .tables items => .tables (items.dropLast ++ [putTable key child n.current])
  | n => putTable key child n

/-! ## Paths -/

/-- What is at the end of a path. -/
def get? (n : Node) : List Bytes → Option Node
  | [] => some n
  | key :: keys => (n.child? key).bind fun child => child.get? keys

/-- Makes the tables along a path that are not there. Below an inline table they are inline too.
There is no way through a value. -/
def create (n : Node) : List Bytes → Option Node
  | [] => if n.isValue then none else some n
  | key :: keys =>
    if n.isValue then none
    else
      ((n.child? key).getD (.table n.isInline [])).create keys |>.map (n.putChild key)

/-- Sets the entry at the end of a path of tables. -/
def assign (n : Node) (keys : List Bytes) (key : Bytes) (entry : Node) : Node :=
  match keys with
  | [] => n.putChild key entry
  | k :: ks => n.putChild k (((n.child? k).getD empty).assign ks key entry)

/-- Puts an entry at the end of a path in place of what is there. Keys on the way that hold values
are passed over. -/
def put (n : Node) (entry : Node) : List Bytes → Node
  | [] => n
  | [key] => n.putChild key entry
  | key :: next :: keys =>
    match n.child? key with
    | none => n.putChild key (empty.put entry (next :: keys))
    | some child =>
      if child.isValue then n.put entry (next :: keys)
      else n.putChild key (child.put entry (next :: keys))

/-! ## Leaves -/

mutual

/-- The paths of the values below a place. -/
def leaves (path : List Bytes) (n : Node) : List (List Bytes) :=
  match n with
  | .value _ => [path]
  | .table _ entries => entryLeaves path entries
  | .tables items => itemLeaves path 0 items

/-- The paths of the values below entries. -/
def entryLeaves (path : List Bytes) (entries : List (Bytes × Node)) : List (List Bytes) :=
  match entries with
  | [] => []
  | (key, n) :: rest => leaves (path ++ [key]) n ++ entryLeaves path rest

/-- The paths of the values below the tables of an array, which are numbered. -/
def itemLeaves (path : List Bytes) (index : Nat) (items : List Node) : List (List Bytes) :=
  match items with
  | [] => []
  | n :: rest => leaves (path ++ [Bytes.ofNat index]) n ++ itemLeaves path (index + 1) rest

end

/-- A path as it is shown. -/
def dotted (path : List Bytes) : Bytes :=
  List.intercalate [46] path

end Node

end Toml

end DirectC
