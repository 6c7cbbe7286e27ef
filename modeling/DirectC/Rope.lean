/-
# Ropes

A rope is a byte string kept as a tree of runs, so that joining two of them copies nothing; every
join keeps the number of its bytes, as a word that wraps around. A rope is read from left to right
with a stack of the trees that are still to come, so one that is deep on the left takes no more room
than its runs: `Rope.toBytes` puts the runs together, and `Rope.writeTo` hands them one by one to a
writer, up to the first one that the writer fails at.
-/
import DirectC.Bytes

namespace DirectC

namespace Rope

/-! ## Trees -/

/-- A tree of runs. A node keeps the number of the bytes below it. -/
inductive Tree where
  | leaf (bytes : Bytes)
  | node (size : Int64) (left right : Tree)
  deriving DecidableEq, Repr, Inhabited

namespace Tree

/-- The number of bytes, as the topmost node keeps it. -/
def size : Tree → Int64
  | .leaf bytes => .ofNat bytes.length
  | .node size _ _ => size

/-- Every node keeps the sum of the numbers of the two trees below it, which may wrap around. -/
def Sized : Tree → Prop
  | .leaf _ => True
  | .node size left right => size = left.size + right.size ∧ left.Sized ∧ right.Sized

/-- The number of leaves and nodes. -/
def weight : Tree → Nat
  | .leaf _ => 1
  | .node _ left right => left.weight + right.weight + 1

/-- The number of leaves and nodes on a stack, which goes down with every step of a traversal. -/
def weights : List Tree → Nat
  | [] => 0
  | t :: stack => t.weight + weights stack

end Tree

end Rope

/-- A byte string as a tree of runs. -/
structure Rope where
  tree : Rope.Tree
  sized : tree.Sized
  deriving DecidableEq, Repr

namespace Rope

/-! ## Building -/

/-- The rope without bytes. -/
def empty : Rope :=
  ⟨.leaf [], trivial⟩

instance : Inhabited Rope := ⟨empty⟩

/-- A rope of one run. -/
def ofBytes (bytes : Bytes) : Rope :=
  ⟨.leaf bytes, trivial⟩

/-- The number of bytes that the rope keeps. -/
def size (r : Rope) : Int64 :=
  r.tree.size

/-- One rope behind another. A rope that keeps the number zero vanishes. -/
def join (l r : Rope) : Rope :=
  if l.size == 0 then r
  else if r.size == 0 then l
  else ⟨.node (l.size + r.size) l.tree r.tree, rfl, l.sized, r.sized⟩

/-- Ropes one behind the other. -/
def concat (ropes : List Rope) : Rope :=
  ropes.foldl join empty

/-- Bytes at the end. -/
def append (r : Rope) (bytes : Bytes) : Rope :=
  r.join (ofBytes bytes)

/-! ## Reading -/

/-- The bytes of the trees on a stack, the top one first, behind those that have been gathered so
far. All of them stand in reverse. -/
def gather : List Tree → Bytes → Bytes
  | [], out => out
  | .leaf bytes :: stack, out => gather stack (bytes.reverseAux out)
  | .node _ left right :: stack, out => gather (left :: right :: stack) out
termination_by stack => Tree.weights stack
decreasing_by all_goals (simp only [Tree.weights, Tree.weight]; omega)

/-- The byte string. -/
def toBytes (r : Rope) : Bytes :=
  (gather [r.tree] []).reverse

/-- The number of bytes of the byte string, which `size` is up to wrapping around. -/
def length (r : Rope) : Nat :=
  r.toBytes.length

/-! ## Writing -/

section

variable {σ : Type}

/-- Visits the runs of the trees on a stack, the top one first, up to the first visit that fails.
Empty runs are passed over. Yields whether a visit failed. -/
def walk (visit : Bytes → σ → Bool × σ) : List Tree → σ → Bool × σ
  | [], s => (false, s)
  | .leaf bytes :: stack, s =>
    if bytes.isEmpty then walk visit stack s
    else
      let visited := visit bytes s
      if visited.1 then visited else walk visit stack visited.2
  | .node _ left right :: stack, s => walk visit (left :: right :: stack) s
termination_by stack => Tree.weights stack
decreasing_by all_goals (simp only [Tree.weights, Tree.weight]; omega)

/-- How a writer answers when it is given bytes: the number of bytes that it took, and whether it
failed. -/
structure Receipt where
  count : Int64
  failed : Bool
  deriving DecidableEq, Repr, Inhabited

/-- A writer takes bytes, in a state of its own. -/
abbrev Writer (σ : Type) :=
  Bytes → σ → Receipt × σ

/-- One visit of a writer, which adds the bytes that were taken to a total. -/
def Writer.visit (w : Writer σ) (bytes : Bytes) (s : Int64 × σ) : Bool × (Int64 × σ) :=
  let answer := w bytes s.2
  (answer.1.failed, s.1 + answer.1.count, answer.2)

/-- Hands over a rope to a writer, run by run. -/
def writeTo (r : Rope) (w : Writer σ) (s : σ) : Receipt × σ :=
  let walked := walk w.visit [r.tree] (0, s)
  (⟨walked.2.1, walked.1⟩, walked.2.2)

end

/-! ## Writing where there is not enough room -/

/-- A receiver that has room for so many bytes, and what it took at each hand-over, the last one
first. -/
structure Receiver where
  room : Nat
  taken : List Bytes := []
  deriving DecidableEq, Repr, Inhabited

/-- A receiver takes what fits, and fails if that is not everything. -/
def Receiver.take : Writer Receiver := fun bytes s =>
  let fitting := bytes.take s.room
  (⟨.ofNat fitting.length, s.room < bytes.length⟩,
    ⟨s.room - fitting.length, fitting :: s.taken⟩)

/-- What a receiver took of a rope: the bytes of each hand-over, their number, and whether the last
one did not fit. -/
structure Delivery where
  chunks : List Bytes
  written : Nat
  failed : Bool
  deriving DecidableEq, Repr, Inhabited

/-- Hands over a rope to a receiver that has room for so many bytes. -/
def deliver (r : Rope) (room : Nat) : Delivery :=
  let answer := r.writeTo Receiver.take { room }
  ⟨answer.2.taken.reverse, answer.1.count.toNatClampNeg, answer.1.failed⟩

end Rope

end DirectC
