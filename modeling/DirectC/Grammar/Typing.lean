/-
# Typing rules

The rules by which typed expressions are put together. Each rule checks its operands and builds
the node, or complains at the position of the operator. Array operands have become pointers by
`rvalue` before they get here.

Arithmetic on pointers is in elements: the integer is multiplied by the size of what the pointer
points at, and the difference of two pointers is divided by it.
-/
import DirectC.Grammar.Fault

namespace DirectC

namespace Grammar

/-- The result of a rule. -/
abbrev Checked := Except Complaint

/-- A complaint about a layout at a position. -/
def located {α : Type} (pos : Int) : Except Layout.Fault α → Checked α
  | .ok a => .ok a
  | .error fault => .error ⟨.layout fault, pos⟩

/-! ## Values and places -/

/-- An expression used for its value: an array becomes a pointer, and what does not fit in a
register is refused. -/
def rvalue (e : Expr) : Checked Expr :=
  match e.type with
  | .array elem _ => .ok (.decay e (.pointer elem))
  | .struct name => .error ⟨.unusable (.struct name), e.pos⟩
  | .void => .error ⟨.unusable .void, e.pos⟩
  | _ => .ok e

/-- What a pointer points at. -/
def deref (pos : Int) (operand : Expr) : Checked Expr :=
  match operand.type.deref? with
  | none => .error ⟨.dereference operand.type, pos⟩
  | some .void => .error ⟨.dereferenceVoid, pos⟩
  | some elem => .ok (.unary .deref pos operand elem)

/-- The address of a place. -/
def addressOf (pos : Int) (operand : Expr) : Checked Expr :=
  if operand.isPlace then .ok (.unary .addr pos operand (.pointer operand.type))
  else .error ⟨.address operand, pos⟩

/-- A member reached through a pointer to its struct. The offset is in bytes, so the sum has the
type of a pointer to the member and is not scaled. -/
def member (l : Layout) (pos : Int) (pointer : Expr) (struct : Bytes) (name : Token) :
    Checked Expr :=
  match l.struct? struct with
  | none => .error ⟨.structNotDefined struct, pos⟩
  | some d =>
    match d.member? name.literal with
    | none => .error ⟨.noMember struct name.literal, name.pos⟩
    | some m =>
      let address :=
        Expr.binary .add pos pointer (.int m.offset.toInt32 pos) (.pointer m.type)
      .ok (.unary .deref pos address m.type)

/-! ## Conversions -/

/-- Whether a value can be stored into a variable of a type. Integers convert freely; pointers
have to agree unless one of them is `void *` or the value is the constant zero. -/
def assignable (target : CType) (value : Expr) : Bool :=
  if target.isInteger then value.type.isInteger
  else if target.isPointer then
    value.isNull ||
      (value.type.isPointer &&
        (target == value.type || target.isVoidPointer || value.type.isVoidPointer))
  else false

/-- Whether two values can be compared. -/
def comparable (left right : Expr) : Bool :=
  let l := left.type
  let r := right.type
  if l.isInteger && r.isInteger then true
  else if l.isPointer && r.isPointer then l == r || l.isVoidPointer || r.isVoidPointer
  else if l.isPointer then right.isNull
  else if r.isPointer then left.isNull
  else false

/-! ## Operators -/

/-- An integer in units of what `pointer` points at. -/
def scale (l : Layout) (pos : Int) (pointer : CType) (n : Expr) : Checked Expr := do
  let size ← located pos (l.size (pointer.deref?.getD .unknown))
  if size == 1 then return n
  return .binary .mul pos (.int size.toInt32 pos) n .int

/-- A sum. -/
def add (l : Layout) (pos : Int) (left right : Expr) : Checked Expr := do
  let lt := left.type
  let rt := right.type
  if lt.isInteger && rt.isInteger then
    return .binary .add pos left right .int
  else if lt.isInteger && rt.isPointer then
    return .binary .add pos right (← scale l pos rt left) rt
  else if lt.isPointer && rt.isInteger then
    return .binary .add pos left (← scale l pos lt right) lt
  else
    throw ⟨.operands .add lt rt, pos⟩

/-- A difference. -/
def sub (l : Layout) (pos : Int) (left right : Expr) : Checked Expr := do
  let lt := left.type
  let rt := right.type
  if lt.isInteger && rt.isInteger then
    return .binary .sub pos left right .int
  else if lt.isPointer && rt.isInteger then
    return .binary .sub pos left (← scale l pos lt right) lt
  else if lt.isPointer && lt == rt then
    let size ← located pos (l.size (lt.deref?.getD .unknown))
    let difference := Expr.binary .sub pos left right .int
    if size == 1 then return difference
    return .binary .div pos difference (.int size.toInt32 pos) .int
  else
    throw ⟨.operands .sub lt rt, pos⟩

/-- An arithmetic, comparison or logical operator on two values. -/
def binary (l : Layout) (op : BinaryOp) (pos : Int) (left right : Expr) : Checked Expr :=
  let lt := left.type
  let rt := right.type
  let node (ok : Bool) : Checked Expr :=
    if ok then .ok (.binary op pos left right .int) else .error ⟨.operands op lt rt, pos⟩
  match op with
  | .add => add l pos left right
  | .sub => sub l pos left right
  | .mul | .div | .rem => node (lt.isInteger && rt.isInteger)
  | .lt | .le | .eq | .ne => node (comparable left right)
  | .and | .or => node (lt.isScalar && rt.isScalar)
  | _ => node false

/-- An assignment to a place of scalar type, with or without an operation. -/
def assign (l : Layout) (op : BinaryOp) (pos : Int) (left right : Expr) : Checked Expr := do
  let lt := left.type
  if !left.isPlace then
    throw ⟨.notAssignable op, pos⟩
  if !lt.isScalar then
    throw ⟨.assignTarget left, pos⟩
  let right ← rvalue right
  let rt := right.type
  if op == .assign then
    if assignable lt right then
      return .binary op pos left right lt
    throw ⟨.assignType rt lt, pos⟩
  else if lt.isInteger && rt.isInteger then
    return .binary op pos left right lt
  else if lt.isPointer && rt.isInteger then
    return .binary op pos left (← scale l pos lt right) lt
  else
    throw ⟨.operands op lt rt, pos⟩

end Grammar

end DirectC
