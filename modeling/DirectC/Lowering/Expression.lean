/-
# Lowering expressions

Every expression is evaluated into `rdi`, as a signed number of 64 bits; values in between are
pushed on the stack. An array is evaluated to its address. Jumps lead over code whose size is
known, so their distances are checked when they are made.

The lowering of an expression is asked either for its value or for its address (`Want`). What
cannot have an address is refused.
-/
import DirectC.Frame
import DirectC.Lowering.Fault
import DirectC.Machine.Instr

namespace DirectC

/-- The addresses of everything a function can refer to. -/
structure Symbols where
  functions : Table UInt32 := ∅
  globals : Table UInt32 := ∅
  strings : List UInt32 := []
  deriving Repr, Inhabited

namespace Lowering

/-- What a function is lowered against. -/
structure Context where
  layout : Layout
  limits : Limits
  symbols : Symbols
  /-- The position of the function. -/
  pos : Int

/-- What changes while a function is lowered. -/
structure State where
  frame : Frame := {}
  /-- The number of words pushed below the frame. -/
  depth : Nat := 0
  deriving Repr, Inhabited

/-- A step of lowering. -/
abbrev Lower := StateT State (Except Complaint)

/-- Fails with a cause at a position. -/
def fail {α : Type} (fault : Fault) (pos : Int) : Lower α :=
  throw ⟨fault, pos⟩

/-- A complaint about a layout at a position. -/
def located {α : Type} (pos : Int) : Except Layout.Fault α → Lower α
  | .ok a => pure a
  | .error fault => fail (.layout fault) pos

/-! ## The stack -/

/-- Pushes `rdi`. -/
def push : Lower Code := do
  modify fun s => { s with depth := s.depth + 1 }
  return [.push .rdi]

/-- Pops into a register. -/
def pop (r : Register) : Lower Code := do
  modify fun s => { s with depth := s.depth - 1 }
  return [.pop r]

/-! ## Jumps -/

/-- A distance within the branch limit. -/
def distance (c : Context) (disp : Int) (pos : Int) : Lower Int8 :=
  let limit := min c.limits.branch.toInt 127
  if limit < disp || disp < -limit then fail (.jump disp.natAbs limit) pos
  else return .ofInt disp

/-- A jump over so many bytes. -/
def jump (c : Context) (disp : Int) (pos : Int) : Lower Code := do
  return [.jump (← distance c disp pos)]

/-- A conditional jump over so many bytes. -/
def jumpIf (c : Context) (cond : Condition) (disp : Int) (pos : Int) : Lower Code := do
  return [.jumpIf cond (← distance c disp pos)]

/-! ## Places -/

/-- The address of a variable. -/
def variableAddress (c : Context) (name : Bytes) (pos : Int) (storage : Storage) (type : CType) :
    Lower Code := do
  match storage with
  | .stack id =>
    let (offset, frame) ← located pos ((← get).frame.slot c.layout id type)
    modify fun s => { s with frame }
    return [.leaRdi offset]
  | .static =>
    match c.symbols.globals.get? name with
    | some address => return [.movAddr .rdi address]
    | none => fail (.storage name) pos

/-- The string with a number in the pool. -/
def stringAt? (strings : List UInt32) (index : Int) : Option UInt32 :=
  if index < 0 then none else strings[index.toNat]?

/-- The address of a string literal. -/
def stringAddress (c : Context) (index : Int) (pos : Int) : Lower Code :=
  match stringAt? c.symbols.strings index with
  | some address => return [.movAddr .rdi address]
  | none => fail (.pool index) pos

/-- Follows an address to a value of a type. -/
def load (c : Context) (address : Code) (pos : Int) (type : CType) : Lower Code := do
  let size ← located pos (c.layout.size type)
  match Width.ofSize? size with
  | some w => return address ++ [.loadRdi w]
  | none => fail (.loadOf type size) pos

/-! ## Operators -/

/-- How two values on the stack are combined. -/
structure Operation where
  /-- The register that the right operand is popped into. -/
  right : Register
  /-- The register that the left operand is popped into. -/
  left : Register
  code : Code
  /-- Whether the result is cut to the width of its type. -/
  cut : Bool
  deriving Repr

/-- A comparison. -/
def comparison (c : Condition) : Operation :=
  ⟨.rdi, .rax, [.cmpRaxRdi, .setAl c, .movEdiAl], false⟩

/-- The operation of an operator on two values. -/
def operation? : BinaryOp → Option Operation
  | .add => some ⟨.rax, .rdi, [.addRdiRax], true⟩
  | .sub => some ⟨.rax, .rdi, [.subRdiRax], true⟩
  | .mul => some ⟨.rax, .rdi, [.mulRdiRax], true⟩
  | .div => some ⟨.rdi, .rax, [.cqo, .divRdi, .mov .rdi .rax], true⟩
  | .rem => some ⟨.rdi, .rax, [.cqo, .divRdi, .mov .rdi .rdx], true⟩
  | .lt => some (comparison .less)
  | .le => some (comparison .lessEqual)
  | .eq => some (comparison .equal)
  | .ne => some (comparison .notEqual)
  | _ => none

/-- Cuts an integer result to the width of its type and extends it again. -/
def cutTo : CType → Code
  | .int => [.extendRdi .dword]
  | .char => [.extendRdi .byte]
  | _ => []

/-- The code that a compound assignment runs between its right side and the store: the old value
is fetched through the saved address and combined with the right side. -/
def update (op : BinaryOp) (w : Width) : Code :=
  [.mov .rsi .rdi, .loadTop, .loadRdi w, if op == .addAssign then .addRdiRsi else .subRdiRsi]

/-- An assignment: the address of the target is saved while the right side is evaluated. -/
def assign (c : Context) (op : BinaryOp) (pos : Int) (type : CType) (target : Lower Code)
    (value : Lower Code) : Lower Code := do
  let address ← target
  let save ← push
  let right ← value
  let size ← located pos (c.layout.size type)
  let width := Width.ofSize? size
  let combine ← match op == .assign, width with
    | true, _ => pure []
    | false, some w => pure (update op w)
    | false, none => fail (.load size) pos
  match width with
  | none => fail (.store size) pos
  | some w =>
    let restore ← pop .rax
    return List.flatten [address, save, right, combine, restore, [.storeRdi w], cutTo type]

/-- Short-circuit evaluation. The right side is skipped if the left side decides; then the result
is zero for a conjunction and one for a disjunction. -/
def logical (c : Context) (op : BinaryOp) (pos : Int) (left right : Lower Code) : Lower Code := do
  let left := (← left) ++ [.testRdi]
  let right := (← right) ++ [.testRdi, .setAl .notEqual, .movEdiAl]
  let (decides, short) : Condition × Code :=
    if op == .or then (.notEqual, [.movAddr .rdi 1]) else (.equal, [.clear .rdi])
  let skip ← jump c (Code.size short) pos
  let guard ← jumpIf c decides (Code.size right + Code.size skip) pos
  return List.flatten [left, guard, right, skip, short]

/-- An operator on two values. -/
def arithmetic (op : BinaryOp) (pos : Int) (type : CType) (left right : Lower Code) :
    Lower Code := do
  let left ← left
  let saveLeft ← push
  let right ← right
  let saveRight ← push
  match operation? op with
  | none => fail (.operator op) pos
  | some o =>
    let restoreRight ← pop o.right
    let restoreLeft ← pop o.left
    return List.flatten [left, saveLeft, right, saveRight, restoreRight, restoreLeft, o.code,
      if o.cut then cutTo type else []]

/-! ## Calls -/

/-- Pops the arguments of a call into their registers. -/
def popArguments : List Register → Lower Code
  | [] => return []
  | r :: rs => do return (← pop r) ++ (← popArguments rs)

/-- A call. The arguments are pushed from right to left and popped into registers. A word of
padding keeps the stack aligned if an odd number of words is on it. -/
def call (c : Context) (name : Bytes) (pos : Int) (count : Nat) (type : CType)
    (arguments : Lower Code) : Lower Code := do
  if c.limits.registerArgs.toInt < count || Register.arguments.length < count then
    fail (.callArguments name count (min c.limits.registerArgs.toInt Register.arguments.length)) pos
  match c.symbols.functions.get? name with
  | none => fail (.undefinedFunction name) pos
  | some target =>
    let padded := (← get).depth % 2 == 1
    if padded then
      modify fun s => { s with depth := s.depth + 1 }
    let arguments ← arguments
    let registers ← popArguments (Register.arguments.take count)
    if padded then
      modify fun s => { s with depth := s.depth - 1 }
    let result ← if type.isVoid then pure [] else
      pure (Instr.takeResult (← located pos (c.layout.size type)))
    return List.flatten [if padded then [.subRsp 8] else [], arguments, registers,
      [.movAddr .rax target, .callRax], if padded then [.addRsp 8] else [], result]

/-! ## Expressions -/

/-- What an expression is lowered for. -/
inductive Want where
  | value
  | address
  deriving DecidableEq, Repr

/-- The value of an array is its address. -/
def Want.of (want : Want) (type : CType) : Want :=
  if type.isArray then .address else want

mutual

/-- The code that leaves the value or the address of an expression in `rdi`. -/
def lower (c : Context) (want : Want) (e : Expr) : Lower Code :=
  match e, want.of e.type with
  | .num value _ _, .value => return [.movImm .rdi value]
  | .ident name pos storage type, .value => do
    load c (← variableAddress c name pos storage type) pos type
  | .ident name pos storage type, .address => variableAddress c name pos storage type
  | .str index _ pos _, _ => stringAddress c index pos
  | .decay inner _, .value => lower c .address inner
  | .unary .addr _ operand _, .value => lower c .address operand
  | .unary .deref pos operand type, .value => do load c (← lower c .value operand) pos type
  | .unary .deref _ operand _, .address => lower c .value operand
  | .binary op pos left right type, .value =>
    match op with
    | .assign | .addAssign | .subAssign =>
      assign c op pos type (lower c .address left) (lower c .value right)
    | .and | .or => logical c op pos (lower c .value left) (lower c .value right)
    | op => arithmetic op pos type (lower c .value left) (lower c .value right)
  | .call name pos args type, .value => call c name pos args.length type (lowerArguments c args)
  | e, .value => fail (.expression e) e.pos
  | e, .address => fail (.address e) e.pos

/-- The code that pushes the values of arguments, the last one first. -/
def lowerArguments (c : Context) (args : List Expr) : Lower Code :=
  match args with
  | [] => return []
  | arg :: rest => do
    let later ← lowerArguments c rest
    let code ← lower c .value arg
    return List.flatten [later, code, ← push]

end

/-- The code that leaves the value of an expression in `rdi`. -/
def value (c : Context) (e : Expr) : Lower Code :=
  lower c .value e

/-- The code that leaves the address of an expression in `rdi`. -/
def address (c : Context) (e : Expr) : Lower Code :=
  lower c .address e

/-- The code that sets the zero flag if a condition is zero. -/
def condition (c : Context) (e : Expr) : Lower Code := do
  return (← value c e) ++ [.testRdi]

end Lowering

end DirectC
