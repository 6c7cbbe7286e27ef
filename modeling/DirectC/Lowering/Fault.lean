/-
# What can go wrong in lowering

The causes for which a function has no machine code, with the kind and the wording each is
reported with.
-/
import DirectC.TreeText

namespace DirectC

namespace Lowering

/-- The causes for which a function has no machine code. -/
inductive Fault where
  | layout (fault : Layout.Fault)
  | expression (e : Expr)
  | address (e : Expr)
  | storage (name : Bytes)
  | pool (index : Int)
  | load (size : Int64)
  | loadOf (type : CType) (size : Int64)
  | store (size : Int64)
  | operator (op : BinaryOp)
  | statement
  | undefinedFunction (name : Bytes)
  | callArguments (name : Bytes) (count : Nat) (limit : Int)
  | parameters (name : Bytes) (count : Nat) (limit : Int)
  | jump (distance : Nat) (limit : Int)
  deriving Repr, Inhabited

namespace Fault

/-- The kind of error that a cause is reported as. -/
def kind : Fault → Diagnostic.Kind
  | .layout fault => fault.kind
  | .storage .. | .undefinedFunction .. => .naming
  | .callArguments .. | .parameters .. | .jump .. => .capacity
  | _ => .internal

/-- The wording of a cause. -/
def message : Fault → Bytes
  | .layout fault => fault.message
  | .expression e => "cannot generate " ++ e.text
  | .address e => e.text ++ " is not addressable"
  | .storage name => Bytes.say ["global ", name, " has no storage"]
  | .pool index => Bytes.say ["string literal ", .ofInt index, " is not in the pool"]
  | .load size => Bytes.say ["no ", .ofInt size.toInt, "-byte load"]
  | .loadOf type size =>
    Bytes.say ["load of ", type.text, ": no ", .ofInt size.toInt, "-byte load"]
  | .store size => Bytes.say ["no ", .ofInt size.toInt, "-byte store"]
  | .operator op => "unexpected operator " ++ op.text
  | .statement => "unexpected statement <nil>"
  | .undefinedFunction name => Bytes.say ["function ", name, " is declared but never defined"]
  | .callArguments name count limit =>
    Bytes.say ["call to ", name, " passes ", .ofNat count, " arguments; at most ", .ofInt limit,
      " can be passed in registers"]
  | .parameters name count limit =>
    Bytes.say ["function ", name, " has ", .ofNat count, " parameters; at most ", .ofInt limit,
      " can be passed in registers"]
  | .jump distance limit =>
    Bytes.say ["jump of ", .ofNat distance, " bytes exceeds the ", .ofInt limit,
      "-byte branch limit"]

end Fault

/-- A cause at a position. -/
structure Complaint where
  fault : Fault
  pos : Int
  deriving Repr, Inhabited

/-- A complaint about a function of a file. -/
def Complaint.diagnostic (c : Complaint) (file source : Bytes) : Diagnostic :=
  { kind := c.fault.kind, file, source, pos := c.pos, message := c.fault.message }

end Lowering

end DirectC
