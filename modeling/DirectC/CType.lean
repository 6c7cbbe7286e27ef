/-
# Types

The types of the language: `int`, `char`, `void`, pointers, arrays of fixed length and named
structs. A struct type is only its name; what is behind the name is the business of a layout.
-/
import DirectC.Bytes

namespace DirectC

/-- The types of the language. -/
inductive CType where
  /-- The 32-bit signed integers. -/
  | int
  /-- The 8-bit signed integers. -/
  | char
  /-- No value; only a return type or what a pointer points at. -/
  | void
  | pointer (elem : CType)
  | array (elem : CType) (length : Int64)
  | struct (name : Bytes)
  /-- A type that was left open. It has neither a size nor an alignment. -/
  | unknown
  deriving DecidableEq, Repr, Inhabited

namespace CType

/-- How a type is written in messages: the element type of an array comes first. -/
def text : CType → Bytes
  | .int => "int"
  | .char => "char"
  | .void => "void"
  | .pointer elem => elem.text ++ " *"
  | .array elem length => Bytes.say [elem.text, "[", .ofInt length.toInt, "]"]
  | .struct name => "struct " ++ name
  | .unknown => "%!s(<nil>)"

/-- The type behind one indirection. -/
def deref? : CType → Option CType
  | .pointer elem => some elem
  | .array elem _ => some elem
  | _ => none

/-- An array type becomes a pointer to its first element; other types stay. -/
def decay : CType → CType
  | .array elem _ => .pointer elem
  | t => t

/-- Integers of either width. -/
def isInteger : CType → Bool
  | .int | .char => true
  | _ => false

/-- Pointers of any sort. -/
def isPointer : CType → Bool
  | .pointer _ => true
  | _ => false

/-- The type without values. -/
def isVoid : CType → Bool
  | .void => true
  | _ => false

/-- Arrays of any sort. -/
def isArray : CType → Bool
  | .array _ _ => true
  | _ => false

/-- Types whose values fit in a register. -/
def isScalar (t : CType) : Bool :=
  t.isInteger || t.isPointer

/-- The pointer that converts to and from all others. -/
def isVoidPointer (t : CType) : Bool :=
  t == .pointer .void

end CType

end DirectC
