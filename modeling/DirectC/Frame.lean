/-
# Frames

The stack frame of a function. Local variables get their slots in the order in which they are
first used, each below the ones before it. A slot has at least four bytes and is aligned as its
type asks; the frame as a whole is a multiple of sixteen bytes.
-/
import DirectC.Layout

namespace DirectC

/-- The slots of a function. -/
structure Frame where
  /-- The offset of each slot from the frame pointer, by the number of its variable. -/
  slots : List (Int × Int32) := []
  /-- The bytes below the frame pointer that the slots take. -/
  used : Int64 := 0
  deriving DecidableEq, Repr, Inhabited

namespace Frame

/-- The least number of bytes of a slot. -/
def minSlot : Int64 := 4

/-- The offset of the slot of a variable, if it has one. -/
def offset? (f : Frame) (id : Int) : Option Int32 :=
  (f.slots.find? fun s => s.1 == id).map (·.2)

/-- Gives a variable the next slot of a frame. -/
def allot (l : Layout) (id : Int) (type : CType) : EStateM Layout.Fault Frame Int32 := do
  let size ← ofExcept (l.size type)
  let align ← ofExcept (l.alignment type)
  modify fun f => { f with used := Layout.alignUp (f.used + max size minSlot) align }
  let offset := (-(← get).used).toInt32
  modify fun f => { f with slots := f.slots ++ [(id, offset)] }
  return offset

/-- Gives a variable its slot in a frame: the one that it has, or the next one. -/
def assign (l : Layout) (id : Int) (type : CType) : EStateM Layout.Fault Frame Int32 := do
  ((← get).offset? id).elim (allot l id type) pure

/-- The offset of the slot of a variable, which gets one if it has none, and the frame with it. -/
def slot (f : Frame) (l : Layout) (id : Int) (type : CType) : Except Layout.Fault (Int32 × Frame) :=
  match assign l id type f with
  | .ok offset g => .ok (offset, g)
  | .error fault _ => .error fault

/-- The number of bytes of the frame. -/
def size (f : Frame) : Int32 :=
  (Layout.alignUp f.used 16).toInt32

end Frame

end DirectC
