/-
# What programs mean

A semantics of trees that knows nothing of code. Values are signed numbers; an address is the
signed number with the same bits. Memory is a byte at every address, and a function that runs has
its variables in it: the local ones at offsets from the frame pointer, the others at the addresses
of their symbols.

`Eval` evaluates an expression for its value or for its address, and `Exec` runs a statement. Both
say which bytes they read and write on the way: an evaluation under an `Access` touches nothing
else. There is no rule for calls and for the end of the process.
-/
import DirectC.Frame
import DirectC.Lowering.Expression
import DirectC.Proofs.Machine.Execution
import DirectC.Proofs.Typed

namespace DirectC

open Machine (Word Memory Span)

/-! ## Types and operators -/

namespace CType

/-- The width of the values of a type that are loaded and stored. -/
def width? : CType → Option Width
  | .int => some .dword
  | .char => some .byte
  | .pointer _ => some .qword
  | _ => none

/-- The number of a type that a result is cut to. -/
def wrap : CType → Int → Int
  | .int, x => x.bmod (2 ^ 32)
  | .char, x => x.bmod (2 ^ 8)
  | _, x => x.bmod (2 ^ 64)

end CType

/-- One for true and zero for false. -/
def indicator (p : Prop) [Decidable p] : Int :=
  if p then 1 else 0

namespace BinaryOp

/-- The result of an operator on two values, before it is cut to its type. Division goes toward
zero. -/
def result? : BinaryOp → Int → Int → Option Int
  | .add, x, y => some (x + y)
  | .sub, x, y => some (x - y)
  | .mul, x, y => some (x * y)
  | .div, x, y => if y = 0 then none else some (x.tdiv y)
  | .rem, x, y => if y = 0 then none else some (x.tmod y)
  | .lt, x, y => some (indicator (x < y))
  | .le, x, y => some (indicator (x ≤ y))
  | .eq, x, y => some (indicator (x = y))
  | .ne, x, y => some (indicator (x ≠ y))
  | _, _, _ => none

/-- The value that a compound assignment stores, from the old value and the right side. -/
def combine? : BinaryOp → Int → Int → Option Int
  | .addAssign, x, y => some (x + y)
  | .subAssign, x, y => some (x - y)
  | _, _, _ => none

/-- Whether the left side decides: zero for a conjunction, anything else for a disjunction. -/
def decidedBy : BinaryOp → Int → Bool
  | .and, x => x = 0
  | .or, x => x ≠ 0
  | _, _ => false

end BinaryOp

/-! ## Memory -/

/-- Where the variables of a running function live. -/
structure Places where
  /-- The frame pointer. -/
  rbp : Word
  frame : Frame
  symbols : Symbols

/-- The address of a local variable. -/
def Places.slot? (π : Places) (id : Int) : Option Int :=
  (π.frame.offset? id).map fun offset => (π.rbp + .ofInt 64 offset.toInt).toInt

/-- The bytes that may be read and written. -/
structure Access where
  reads : Word → Prop
  writes : Word → Prop

/-- The bytes of a width at an address may be read. -/
def Access.Reads (κ : Access) (w : Width) (a : Int) : Prop :=
  ∀ x, Span (.ofInt 64 a) w.size x → κ.reads x

/-- The bytes of a width at an address may be written. -/
def Access.Writes (κ : Access) (w : Width) (a : Int) : Prop :=
  ∀ x, Span (.ofInt 64 a) w.size x → κ.writes x

namespace Machine.Memory

/-- The signed number of a width at an address. -/
def get (m : Memory) (w : Width) (a : Int) : Int :=
  (w.signed (m.load w (.ofInt 64 a))).toInt

/-- Memory with the low bytes of a number at an address. -/
def put (m : Memory) (w : Width) (a v : Int) : Memory :=
  m.store w (.ofInt 64 a) (.ofInt 64 v)

end Machine.Memory

/-! ## Expressions -/

open Lowering (Want)

/-- **The meaning of expressions.** From one memory, an expression has a value or an address, and
leaves another memory. The left side of an operator comes first; an assignment finds the address of
its target before it evaluates its right side, and a compound one reads the target after it. -/
inductive Eval (π : Places) (κ : Access) : Want → Expr → Memory → Int → Memory → Prop where
  | num {value : Int32} {pos type m} : Eval π κ .value (.num value pos type) m value.toInt m
  | localAddress {name pos id type m a} (h : π.slot? id = some a) :
      Eval π κ .address (.ident name pos (.stack id) type) m a m
  | globalAddress {name pos type m} {a : UInt32} (h : π.symbols.globals.get? name = some a) :
      Eval π κ .address (.ident name pos .static type) m a.toNat m
  | stringAddress {index value pos type m} {a : UInt32}
      (h : Lowering.stringAt? π.symbols.strings index = some a) :
      Eval π κ .address (.str index value pos type) m a.toNat m
  | derefAddress {pos operand type m a m'} (h : Eval π κ .value operand m a m') :
      Eval π κ .address (.unary .deref pos operand type) m a m'
  | array {e m a m'} (ht : e.type.isArray) (h : Eval π κ .address e m a m') :
      Eval π κ .value e m a m'
  | load {e m a m' w} (hp : e.isPlace) (hw : e.type.width? = some w)
      (h : Eval π κ .address e m a m') (hr : κ.Reads w a) : Eval π κ .value e m (m'.get w a) m'
  | decay {inner type m a m'} (h : Eval π κ .address inner m a m') :
      Eval π κ .value (.decay inner type) m a m'
  | addr {pos operand type m a m'} (h : Eval π κ .address operand m a m') :
      Eval π κ .value (.unary .addr pos operand type) m a m'
  | binary {op pos left right type m x m1 y m2 z} (hl : Eval π κ .value left m x m1)
      (hr : Eval π κ .value right m1 y m2) (hz : BinaryOp.result? op x y = some z) :
      Eval π κ .value (.binary op pos left right type) m (type.wrap z) m2
  | short {op pos left right type m x m1} (hl : Eval π κ .value left m x m1)
      (hd : BinaryOp.decidedBy op x) :
      Eval π κ .value (.binary op pos left right type) m (indicator (x ≠ 0)) m1
  | long {op pos left right type m x m1 y m2} (ho : BinaryOp.isLogical op)
      (hl : Eval π κ .value left m x m1) (hd : BinaryOp.decidedBy op x = false)
      (hr : Eval π κ .value right m1 y m2) :
      Eval π κ .value (.binary op pos left right type) m (indicator (y ≠ 0)) m2
  | assign {pos left right type m a m1 y m2 w} (hl : Eval π κ .address left m a m1)
      (hr : Eval π κ .value right m1 y m2) (hw : type.width? = some w) (ha : κ.Writes w a) :
      Eval π κ .value (.binary .assign pos left right type) m (type.wrap y) (m2.put w a y)
  | compound {op pos left right type m a m1 y m2 w z} (hl : Eval π κ .address left m a m1)
      (hr : Eval π κ .value right m1 y m2) (hw : type.width? = some w) (hread : κ.Reads w a)
      (hz : BinaryOp.combine? op (m2.get w a) y = some z) (ha : κ.Writes w a) :
      Eval π κ .value (.binary op pos left right type) m (type.wrap z) (m2.put w a z)

/-! ## Statements -/

/-- How a statement ends. -/
inductive Outcome where
  /-- Control goes on behind the statement. -/
  | normal
  /-- The function returns. -/
  | returned (v : Int)

/-- **The meaning of statements.** -/
inductive Exec (π : Places) (κ : Access) : Stmt → Memory → Outcome → Memory → Prop where
  | eval {e m v m'} (h : Eval π κ .value e m v m') : Exec π κ (.eval e) m .normal m'
  | retNone {pos m} : Exec π κ (.ret none pos) m (.returned 0) m
  | retSome {e pos m v m'} (h : Eval π κ .value e m v m') :
      Exec π κ (.ret (some e) pos) m (.returned v) m'
  | ifThenYes {cond yes m v m1 o m2} (hc : Eval π κ .value cond m v m1) (hv : v ≠ 0)
      (hy : Exec π κ yes m1 o m2) : Exec π κ (.ifThen cond yes) m o m2
  | ifThenNo {cond yes m m1} (hc : Eval π κ .value cond m 0 m1) :
      Exec π κ (.ifThen cond yes) m .normal m1
  | ifElseYes {cond yes no m v m1 o m2} (hc : Eval π κ .value cond m v m1) (hv : v ≠ 0)
      (hy : Exec π κ yes m1 o m2) : Exec π κ (.ifElse cond yes no) m o m2
  | ifElseNo {cond yes no m m1 o m2} (hc : Eval π κ .value cond m 0 m1)
      (hn : Exec π κ no m1 o m2) : Exec π κ (.ifElse cond yes no) m o m2
  | loopDone {cond body m m1} (hc : Eval π κ .value cond m 0 m1) :
      Exec π κ (.loop cond body) m .normal m1
  | loopAgain {cond body m v m1 m2 o m3} (hc : Eval π κ .value cond m v m1) (hv : v ≠ 0)
      (hb : Exec π κ body m1 .normal m2) (hl : Exec π κ (.loop cond body) m2 o m3) :
      Exec π κ (.loop cond body) m o m3
  | loopReturn {cond body m v m1 r m2} (hc : Eval π κ .value cond m v m1) (hv : v ≠ 0)
      (hb : Exec π κ body m1 (.returned r) m2) :
      Exec π κ (.loop cond body) m (.returned r) m2
  | blockNil {m} : Exec π κ (.block []) m .normal m
  | blockNext {s rest m m1 o m2} (hs : Exec π κ s m .normal m1)
      (hr : Exec π κ (.block rest) m1 o m2) : Exec π κ (.block (s :: rest)) m o m2
  | blockReturn {s rest m r m1} (hs : Exec π κ s m (.returned r) m1) :
      Exec π κ (.block (s :: rest)) m (.returned r) m1

end DirectC
