/-
# Program trees

A program as a tree in which every expression carries its type. Names are resolved: an identifier
says whether it lives in a stack slot or in static storage. Statements are few, since the longer
forms of the language are put together from these.

A tree may have holes (`Expr.missing`, `Stmt.missing`, operators named `unknown`). No source text
yields one; code that meets a hole reports it.
-/
import DirectC.Layout

namespace DirectC

/-! ## Operators -/

/-- The operators with two operands. -/
inductive BinaryOp where
  | add
  | sub
  | mul
  | div
  | rem
  | lt
  | le
  | eq
  | ne
  | and
  | or
  | assign
  | addAssign
  | subAssign
  | unknown
  deriving DecidableEq, Repr, Inhabited

namespace BinaryOp

/-- The operators that a program can hold. -/
def all : List BinaryOp :=
  [.add, .sub, .mul, .div, .rem, .lt, .le, .eq, .ne, .and, .or, .assign, .addAssign, .subAssign]

/-- How an operator is written. -/
def text : BinaryOp → Bytes
  | .add => "+"
  | .sub => "-"
  | .mul => "*"
  | .div => "/"
  | .rem => "%"
  | .lt => "<"
  | .le => "<="
  | .eq => "=="
  | .ne => "!="
  | .and => "&&"
  | .or => "||"
  | .assign => "="
  | .addAssign => "+="
  | .subAssign => "-="
  | .unknown => "?"

end BinaryOp

/-- The operators with one operand. -/
inductive UnaryOp where
  | deref
  | addr
  | unknown
  deriving DecidableEq, Repr, Inhabited

/-- How an operator is written. -/
def UnaryOp.text : UnaryOp → Bytes
  | .deref => "*"
  | .addr => "&"
  | .unknown => "?"

/-! ## Expressions -/

/-- Where a variable lives. -/
inductive Storage where
  /-- In the stack slot of a local variable or parameter, told apart by a number. -/
  | stack (id : Int)
  /-- In the data area, under its name. -/
  | static
  deriving DecidableEq, Repr, Inhabited

/-- Expressions. Positions are byte offsets; that of an operator is where it stands. -/
inductive Expr where
  | num (value : Int32) (pos : Int) (type : CType)
  | ident (name : Bytes) (pos : Int) (storage : Storage) (type : CType)
  | binary (op : BinaryOp) (pos : Int) (left right : Expr) (type : CType)
  | unary (op : UnaryOp) (pos : Int) (operand : Expr) (type : CType)
  | call (name : Bytes) (pos : Int) (args : List Expr) (type : CType)
  /-- An array used as the pointer to its first element. -/
  | decay (inner : Expr) (type : CType)
  /-- A string literal: its number in the pool of strings, and its bytes. -/
  | str (index : Int) (value : Bytes) (pos : Int) (type : CType)
  | missing
  deriving Repr, Inhabited

namespace Expr

/-- The type of an expression. -/
def type : Expr → CType
  | .num _ _ t => t
  | .ident _ _ _ t => t
  | .binary _ _ _ _ t => t
  | .unary _ _ _ t => t
  | .call _ _ _ t => t
  | .decay _ t => t
  | .str _ _ _ t => t
  | .missing => .unknown

/-- The position of an expression. -/
def pos : Expr → Int
  | .num _ p _ => p
  | .ident _ p _ _ => p
  | .binary _ p _ _ _ => p
  | .unary _ p _ _ => p
  | .call _ p _ _ => p
  | .decay inner _ => inner.pos
  | .str _ _ p _ => p
  | .missing => 0

/-- An integer constant. -/
def int (value : Int32) (pos : Int) : Expr :=
  .num value pos .int

/-- Expressions that name a place: identifiers and dereferences. -/
def isPlace : Expr → Bool
  | .ident .. => true
  | .unary .deref .. => true
  | _ => false

/-- The constant zero, which also is the null pointer. -/
def isNull : Expr → Bool
  | .num value _ _ => value == 0
  | _ => false

end Expr

/-! ## Statements -/

/-- Statements. -/
inductive Stmt where
  | eval (e : Expr)
  /-- Ends the process with a status. -/
  | exit (status : Expr) (pos : Int)
  | ret (value : Option Expr) (pos : Int)
  | ifThen (cond : Expr) (yes : Stmt)
  | ifElse (cond : Expr) (yes no : Stmt)
  | loop (cond : Expr) (body : Stmt)
  | block (items : List Stmt)
  | missing
  deriving Repr, Inhabited

/-! ## Declarations -/

/-- A parameter of a function. -/
structure Param where
  name : Bytes
  type : CType
  id : Int
  deriving DecidableEq, Repr, Inhabited

/-- A local variable of a function. -/
structure LocalVar where
  name : Bytes
  type : CType
  id : Int
  pos : Int
  deriving DecidableEq, Repr, Inhabited

/-- A function with its body. -/
structure Function where
  name : Bytes
  params : List Param
  ret : CType
  pos : Int
  /-- The statements of the body. -/
  body : Option (List Stmt)
  locals : List LocalVar
  /-- The file it was read from. -/
  file : Bytes
  /-- The text of that file. -/
  source : Bytes
  deriving Repr, Inhabited

/-- What is known of a function without its body. -/
structure Signature where
  name : Bytes
  params : List CType
  ret : CType
  pos : Int
  deriving DecidableEq, Repr, Inhabited

/-- A variable in the data area, which starts as zeros. -/
structure GlobalVar where
  name : Bytes
  type : CType
  pos : Int
  deriving DecidableEq, Repr, Inhabited

/-- A program. -/
structure Program where
  functions : List Function := []
  signatures : Table Signature := ∅
  globals : List GlobalVar := []
  /-- The pool of string literals. -/
  strings : List Bytes := []
  layout : Layout := {}
  deriving Repr, Inhabited

end DirectC
