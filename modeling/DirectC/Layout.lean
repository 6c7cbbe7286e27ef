/-
# Layouts

A layout knows the structs defined so far and gives every type its size and alignment, in bytes.
Sizes are 64-bit words and wrap like them. The members of a struct stand in the order of its
fields, each at the next offset that its alignment allows; `Layout.define` does the placing.

Limits bound what a program may ask for. A size, an array length or a struct beyond them is
refused as a capacity error.
-/
import DirectC.CType
import DirectC.Diagnostic
import DirectC.Quoted
import DirectC.Table

namespace DirectC

/-! ## Limits -/

/-- The budgets of the compiler. -/
structure Limits where
  /-- The largest size of a type, in bytes. -/
  typeSize : Int64 := 255
  /-- The largest number of elements of an array. -/
  arrayLength : Int64 := 255
  /-- The farthest jump in either direction, in bytes. -/
  branch : Int64 := 127
  /-- The number of arguments passed in registers. -/
  registerArgs : Int64 := 6
  deriving DecidableEq, Repr, Inhabited

/-! ## Structs -/

/-- A field as it is declared. -/
structure Field where
  name : Bytes
  type : CType
  deriving DecidableEq, Repr, Inhabited

/-- A field at its offset. -/
structure Member where
  name : Bytes
  type : CType
  offset : Int64
  deriving DecidableEq, Repr, Inhabited

/-- A struct with its members placed. -/
structure StructDef where
  name : Bytes
  size : Int64
  align : Int64
  members : List Member
  deriving DecidableEq, Repr, Inhabited

namespace StructDef

/-- The member with a given name. -/
def member? (d : StructDef) (name : Bytes) : Option Member :=
  d.members.find? fun m => m.name == name

/-- A struct on one line, with sizes and offsets. -/
def text (d : StructDef) : Bytes :=
  Bytes.say [
    "struct ", d.name, " \x7b /* size ", .ofInt d.size.toInt, ", align ", .ofInt d.align.toInt,
    " */",
    d.members.flatMap fun m =>
      Bytes.say [" ", m.type.text, " ", m.name, " @", .ofInt m.offset.toInt, ";"],
    " \x7d"]

end StructDef

/-! ## Layouts -/

/-- The structs defined so far, and the limits on what is to come. -/
structure Layout where
  limits : Limits := {}
  structs : Table StructDef := ∅
  /-- The names of the structs in the order of their first definitions. -/
  order : List Bytes := []
  deriving Repr, Inhabited

namespace Layout

/-- Why a type or a struct has no layout. -/
inductive Fault where
  | arrayLength (length limit : Int64)
  | typeSize (type : CType) (size limit : Int64)
  | undefinedStruct (name : Bytes)
  | sizeOfUnknown
  | alignOfUnknown
  | duplicateMember (member struct : Bytes)
  | voidMember (member : Bytes)
  | structSize (struct : Bytes) (limit : Int64)
  deriving DecidableEq, Repr, Inhabited

namespace Fault

/-- The kind of error that a fault is reported as. -/
def kind : Fault → Diagnostic.Kind
  | .arrayLength .. | .typeSize .. | .structSize .. => .capacity
  | .undefinedStruct .. => .naming
  | .sizeOfUnknown | .alignOfUnknown => .internal
  | .duplicateMember .. => .redeclaration
  | .voidMember .. => .typing

/-- The message of a fault. -/
def message : Fault → Bytes
  | .arrayLength length limit =>
    Bytes.say ["array length ", .ofInt length.toInt, " exceeds limit ", .ofInt limit.toInt]
  | .typeSize type size limit =>
    Bytes.say ["size of ", type.text, " (", .ofInt size.toInt, " bytes) exceeds limit ",
      .ofInt limit.toInt]
  | .undefinedStruct name => Bytes.say ["undefined struct ", name.quoted]
  | .sizeOfUnknown => "sizeof unknown type <nil>"
  | .alignOfUnknown => "alignof unknown type <nil>"
  | .duplicateMember member struct =>
    Bytes.say ["duplicate member ", member.quoted, " in struct ", struct]
  | .voidMember member => Bytes.say ["member ", member.quoted, " has type void"]
  | .structSize struct limit =>
    Bytes.say ["struct ", struct, " is larger than ", .ofInt limit.toInt, " bytes"]

/-- A fault as a diagnostic without a place. -/
def diagnostic (f : Fault) : Diagnostic :=
  { kind := f.kind, message := f.message }

end Fault

/-- The definition behind a struct name. -/
def struct? (l : Layout) (name : Bytes) : Option StructDef :=
  l.structs.get? name

/-- The structs in the order of their first definitions. -/
def definitions (l : Layout) : List StructDef :=
  l.order.filterMap l.struct?

/-! ## Sizes and alignments -/

/-- Rounds up to a multiple of `align`. An alignment of one or less asks for nothing. -/
def alignUp (n align : Int64) : Int64 :=
  if align ≤ 1 then n else (n + align - 1) / align * align

/-- An array type within the length limit. -/
def array (l : Layout) (elem : CType) (length : Int64) : Except Fault CType :=
  if length < 0 || l.limits.arrayLength < length then
    .error (.arrayLength length l.limits.arrayLength)
  else .ok (.array elem length)

/-- A size within the size limit. -/
def bounded (l : Layout) (type : CType) (size : Int64) : Except Fault Int64 :=
  if l.limits.typeSize < size then .error (.typeSize type size l.limits.typeSize) else .ok size

/-- The size of a type. -/
def size (l : Layout) : CType → Except Fault Int64
  | .int => l.bounded .int 4
  | .char => l.bounded .char 1
  | .void => l.bounded .void 1
  | .pointer elem => l.bounded (.pointer elem) 8
  | .array elem length => do l.bounded (.array elem length) ((← l.size elem) * length)
  | .struct name =>
    match l.struct? name with
    | some d => l.bounded (.struct name) d.size
    | none => .error (.undefinedStruct name)
  | .unknown => .error .sizeOfUnknown

/-- The alignment of a type. -/
def alignment (l : Layout) : CType → Except Fault Int64
  | .int => .ok 4
  | .char => .ok 1
  | .void => .ok 1
  | .pointer _ => .ok 8
  | .array elem _ => l.alignment elem
  | .struct name =>
    match l.struct? name with
    | some d => .ok d.align
    | none => .error (.undefinedStruct name)
  | .unknown => .error .alignOfUnknown

/-! ## Defining structs -/

/-- A struct with some of its members placed. -/
structure Placement where
  members : List Member := []
  /-- The end of the last member. -/
  next : Int64 := 0
  /-- The largest alignment so far. -/
  align : Int64 := 1
  deriving DecidableEq, Repr, Inhabited

/-- Places one more field of the struct `name`. -/
def place (l : Layout) (name : Bytes) (p : Placement) (f : Field) : Except Fault Placement := do
  if p.members.any fun m => m.name == f.name then
    throw (.duplicateMember f.name name)
  if f.type.isVoid then
    throw (.voidMember f.name)
  let size ← l.size f.type
  let align ← l.alignment f.type
  let offset := alignUp p.next align
  let next := offset + size
  if l.limits.typeSize < next then
    throw (.structSize name l.limits.typeSize)
  return ⟨p.members ++ [⟨f.name, f.type, offset⟩], next, max p.align align⟩

/-- The definition of a struct with the given fields. -/
def structOf (l : Layout) (name : Bytes) (fields : List Field) : Except Fault StructDef := do
  let p ← fields.foldlM (l.place name) {}
  let size := alignUp p.next p.align
  if l.limits.typeSize < size then
    throw (.structSize name l.limits.typeSize)
  return ⟨name, size, p.align, p.members⟩

/-- Adds a definition. A second one under the same name takes the place of the first. -/
def add (l : Layout) (d : StructDef) : Layout :=
  { l with
    structs := l.structs.insert d.name d
    order := if l.structs.contains d.name then l.order else l.order ++ [d.name] }

/-- Defines a struct with the given fields in a layout: it is laid out first, and then stored. -/
def enter (name : Bytes) (fields : List Field) : EStateM Fault Layout StructDef := do
  let d ← ofExcept ((← get).structOf name fields)
  modify fun l => l.add d
  return d

/-- The layout with a struct of the given fields. -/
def define (l : Layout) (name : Bytes) (fields : List Field) : Except Fault Layout :=
  match enter name fields l with
  | .ok _ l' => .ok l'
  | .error fault _ => .error fault

/-- The same structs under other limits. -/
def withLimits (l : Layout) (limits : Limits) : Layout :=
  { l with limits }

end Layout

end DirectC
