/-
# What can be wrong with a source text

The causes for which a source text is refused, with the kind and the wording each is reported
with. A complaint is a cause at a position; it becomes a diagnostic of the file being read.
-/
import DirectC.TreeText
import DirectC.Token

namespace DirectC

namespace Grammar

/-! ## Expectations -/

/-- What should have come next. -/
inductive Wanted where
  | token (kind : Token.Kind)
  | typeName
  | member
  | declaration
  | parameter
  | expression
  | bodyOrEnd
  | endOfInput
  deriving DecidableEq, Repr, Inhabited

/-- How a message names what should have come next. -/
def Wanted.text : Wanted → Bytes
  | .token kind => Bytes.say ["'", kind.spelling, "'"]
  | .typeName => "type name"
  | .member => "member declaration"
  | .declaration => "declaration"
  | .parameter => "parameter type"
  | .expression => "expression"
  | .bodyOrEnd => "'\x7b' or ';'"
  | .endOfInput => "end of input"

/-- How a message names a token that came instead. -/
def describe (t : Token) : Bytes :=
  match t.kind with
  | .identifier | .number => Bytes.say [t.kind.spelling, " ", t.literal]
  | .endOfFile => "end of file"
  | kind => Bytes.say ["'", kind.spelling, "'"]

/-! ## Causes -/

/-- The causes for which a source text is refused. -/
inductive Fault where
  | unterminatedComment
  | invalidToken (literal : Bytes)
  | unexpected (wanted : Wanted) (got : Token)
  | globalInitializer (name : Bytes)
  | layout (fault : Layout.Fault)
  | arrayTooLong (literal : Bytes)
  | arrayOfVoid
  | containsItself (struct : Bytes)
  | voidVariable (name : Bytes)
  | returnsStruct (function : Bytes)
  | returnsArray (function : Bytes)
  | voidParameter (name : Bytes)
  | structParameter (name : Bytes)
  | duplicateParameter (name : Bytes)
  | duplicateLocal (name : Bytes)
  | initializer (name : Bytes) (type : CType)
  | returnWithoutValue (ret : CType)
  | returnWithValue
  | returnType (value ret : CType)
  | exitStatus (type : CType)
  | address (e : Expr)
  | notStruct (type : CType)
  | notStructPointer (type : CType)
  | structNotDefined (struct : Bytes)
  | noMember (struct member : Bytes)
  | literalTooLarge (literal : Bytes)
  | functionValue (name : Bytes)
  | undeclaredIdentifier (name : Bytes)
  | undeclaredFunction (name : Bytes)
  | notFunction (name : Bytes)
  | argumentCount (function : Bytes) (wanted got : Nat)
  | argumentType (index : Nat) (function : Bytes) (got wanted : CType)
  | dereference (type : CType)
  | dereferenceVoid
  | notAssignable (op : BinaryOp)
  | assignTarget (target : Expr)
  | assignType (value target : CType)
  | operands (op : BinaryOp) (left right : CType)
  | unusable (type : CType)
  | exhausted
  deriving Repr, Inhabited

namespace Fault

/-- The kind of error that a cause is reported as. -/
def kind : Fault → Diagnostic.Kind
  | .unterminatedComment | .invalidToken .. | .unexpected .. | .globalInitializer .. => .syntactic
  | .layout fault => fault.kind
  | .arrayTooLong .. | .literalTooLarge .. => .capacity
  | .duplicateParameter .. | .duplicateLocal .. => .redeclaration
  | .structNotDefined .. | .noMember .. | .undeclaredIdentifier .. | .undeclaredFunction .. =>
    .naming
  | .exhausted => .internal
  | _ => .typing

/-- The wording of a cause. -/
def message : Fault → Bytes
  | .unterminatedComment => "unterminated comment"
  | .invalidToken literal => "invalid token " ++ literal.quoted
  | .unexpected wanted got => Bytes.say ["expected ", wanted.text, ", got ", describe got]
  | .globalInitializer name =>
    Bytes.say ["global variable ", name, " cannot have an initializer"]
  | .layout fault => fault.message
  | .arrayTooLong literal => Bytes.say ["array length ", literal, " is too large"]
  | .arrayOfVoid => "array of void"
  | .containsItself struct => Bytes.say ["struct ", struct, " contains itself"]
  | .voidVariable name => Bytes.say ["variable ", name, " declared void"]
  | .returnsStruct function =>
    Bytes.say ["function ", function, " cannot return a struct by value"]
  | .returnsArray function => Bytes.say ["function ", function, " cannot return an array"]
  | .voidParameter name => Bytes.say ["parameter ", name, " declared void"]
  | .structParameter name =>
    Bytes.say ["parameter ", name, ": structs cannot be passed by value"]
  | .duplicateParameter name => "redeclaration of parameter " ++ name
  | .duplicateLocal name => Bytes.say ["redeclaration of ", name, " in the same scope"]
  | .initializer name type => Bytes.say ["cannot initialize ", name, " of type ", type.text]
  | .returnWithoutValue ret =>
    "return without a value in a function returning " ++ ret.text
  | .returnWithValue => "return with a value in a function returning void"
  | .returnType value ret =>
    Bytes.say ["cannot return ", value.text, " from a function returning ", ret.text]
  | .exitStatus type => "exit status must be an integer, not " ++ type.text
  | .address e => "cannot take the address of " ++ e.text
  | .notStruct type => Bytes.say ["left side of '.' has type ", type.text, ", not a struct"]
  | .notStructPointer type =>
    Bytes.say ["left side of '->' has type ", type.text, ", not a pointer to a struct"]
  | .structNotDefined struct => Bytes.say ["struct ", struct, " is not defined"]
  | .noMember struct member => Bytes.say ["struct ", struct, " has no member ", member]
  | .literalTooLarge literal =>
    Bytes.say ["integer literal ", literal, " does not fit in 32 bits"]
  | .functionValue name => name ++ " is a function; function pointers are not supported"
  | .undeclaredIdentifier name => "undeclared identifier " ++ name
  | .undeclaredFunction name => "undeclared function " ++ name
  | .notFunction name => Bytes.say ["called object ", name, " is not a function"]
  | .argumentCount function wanted got =>
    Bytes.say ["function ", function, " takes ", .ofNat wanted, " arguments, got ", .ofNat got]
  | .argumentType index function got wanted =>
    Bytes.say ["argument ", .ofNat index, " of ", function, ": cannot pass ", got.text, " as ",
      wanted.text]
  | .dereference type => "cannot dereference " ++ type.text
  | .dereferenceVoid => "cannot dereference void *"
  | .notAssignable op => Bytes.say ["left side of ", op.text, " is not assignable"]
  | .assignTarget target =>
    Bytes.say ["cannot assign to ", target.text, " of type ", target.type.text]
  | .assignType value target => Bytes.say ["cannot assign ", value.text, " to ", target.text]
  | .operands op left right =>
    Bytes.say ["invalid operands to ", op.text, " (", left.text, " and ", right.text, ")"]
  | .unusable type => type.text ++ " value cannot be used here"
  | .exhausted => "nesting too deep"

end Fault

/-! ## Complaints -/

/-- A cause at a position. -/
structure Complaint where
  fault : Fault
  pos : Int
  deriving Repr, Inhabited

/-- A complaint about a file. -/
def Complaint.diagnostic (c : Complaint) (file source : Bytes) : Diagnostic :=
  { kind := c.fault.kind, file, source, pos := c.pos, message := c.fault.message }

end Grammar

end DirectC
