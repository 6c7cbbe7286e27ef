/-
# Reading expressions

Expressions are read by precedence. `cascade` is the ladder of binary operators over any reader
of operands; `unary` reads the operands, and `assignment` stands on top. Nodes are typed as they
are built.

Several operators are abbreviations: `+x`, `-x` and `!x` are `0 + x`, `0 - x` and `0 == x`; `a[i]`
is `*(a + i)`; `x++` is `(x += 1) - 1`; `a > b` is `b < a`.
-/
import DirectC.Grammar.TypeName

namespace DirectC

namespace Grammar

/-! ## Binary operators -/

/-- What an operator of a level stands for; `swap` exchanges its operands. -/
structure LevelOp where
  punct : Punct
  op : BinaryOp
  swap : Bool := false
  deriving DecidableEq, Repr

/-- The binary operators by precedence, the loosest first. -/
def levels : List (List LevelOp) :=
  [[{ punct := .or, op := .or }],
    [{ punct := .and, op := .and }],
    [{ punct := .eq, op := .eq }, { punct := .ne, op := .ne }],
    [{ punct := .lt, op := .lt }, { punct := .le, op := .le },
      { punct := .gt, op := .lt, swap := true }, { punct := .ge, op := .le, swap := true }],
    [{ punct := .plus, op := .add }, { punct := .minus, op := .sub }],
    [{ punct := .star, op := .mul }, { punct := .slash, op := .div },
      { punct := .percent, op := .rem }]]

/-- The operator of a level that a token is. -/
def findOp (level : List LevelOp) (k : Token.Kind) : Option LevelOp :=
  level.find? fun o => k == .punct o.punct

/-- Joins two operands, both used for their values. -/
def join (o : LevelOp) (pos : Int) (left right : Expr) : Read Expr := do
  let left ← checked (rvalue left)
  let right ← checked (rvalue right)
  let l ← layout
  if o.swap then checked (binary l o.op pos right left)
  else checked (binary l o.op pos left right)

/-- A round with one more binary operator. -/
def chainRound (operand : Read Expr) (level : List LevelOp) (again : Expr → Read Expr)
    (left : Expr) : Read Expr := do
  let t ← token
  match findOp level t.kind with
  | none => return left
  | some o =>
    next
    let right ← operand
    again (← join o t.pos left right)

/-- The rest of a chain of operators of one level, grouped to the left. -/
def chain (operand : Read Expr) (level : List LevelOp) (fuel : Nat) (left : Expr) : Read Expr :=
  match fuel with
  | 0 => exhausted
  | fuel + 1 => chainRound operand level (chain operand level fuel) left

/-- An expression of the given levels of operators over operands. -/
def cascade (operand : Read Expr) (fuel : Nat) : List (List LevelOp) → Read Expr
  | [] => operand
  | level :: tighter => do
    let first ← cascade operand fuel tighter
    chain (cascade operand fuel tighter) level fuel first

/-! ## Primary expressions -/

/-- The variable that a name stands for: a local one if there is one, a global one otherwise. -/
def resolve (name : Token) : Read Expr := do
  match (← scope).lookup? name.literal with
  | some v => return .ident name.literal name.pos (.stack v.id) v.type
  | none =>
    let env ← environment
    match env.globals.get? name.literal with
    | some g => return .ident name.literal name.pos .static g.type
    | none =>
      if env.signatures.contains name.literal then
        fail (.functionValue name.literal) name.pos
      else fail (.undeclaredIdentifier name.literal) name.pos

/-- The signature of the function that a name stands for. -/
def callee (name : Token) : Read Signature := do
  if ((← scope).lookup? name.literal).isSome then
    fail (.notFunction name.literal) name.pos
  let env ← environment
  match env.signatures.get? name.literal with
  | some s => return s
  | none =>
    if env.globals.contains name.literal then fail (.notFunction name.literal) name.pos
    else fail (.undeclaredFunction name.literal) name.pos

/-- An argument, with its position. -/
def argument (expr : Read Expr) : Read (Expr × Int) := do
  let pos ← position
  let arg ← checked (rvalue (← expr))
  return (arg, pos)

/-- A round with one more argument. -/
def argumentsRound (expr : Read Expr) (again : Bool → Read (List (Expr × Int))) (first : Bool) :
    Read (List (Expr × Int)) := do
  if ← accept .rightParen then
    return []
  if !first then
    let _ ← expectPunct .comma
  let arg ← argument expr
  return arg :: (← again false)

/-- The arguments of a call up to the closing parenthesis, each with its position. -/
def arguments (expr : Read Expr) (fuel : Nat) (first : Bool) : Read (List (Expr × Int)) :=
  match fuel with
  | 0 => exhausted
  | fuel + 1 => argumentsRound expr (arguments expr fuel) first

/-- Checks arguments against the types of parameters, from argument number `index` on. -/
def checkArguments (function : Bytes) (index : Nat) :
    List (Expr × Int) → List CType → Checked Unit
  | (arg, pos) :: args, type :: types =>
    if assignable type arg then checkArguments function (index + 1) args types
    else .error ⟨.argumentType index function arg.type type, pos⟩
  | _, _ => .ok ()

/-- A call of the function `name`, from that name on. -/
def call (name : Token) (expr : Read Expr) (fuel : Nat) : Read Expr := do
  next
  next
  let s ← callee name
  let args ← arguments expr fuel true
  if args.length != s.params.length then
    fail (.argumentCount name.literal s.params.length args.length) name.pos
  checked (checkArguments name.literal 1 args s.params)
  return .call name.literal name.pos (args.map (·.1)) s.ret

/-- A round with one more string. -/
def adjacentStringsRound (again : Read Bytes) : Read Bytes := do
  let t ← token
  if t.kind == .string then
    next
    return t.literal ++ (← again)
  else
    return []

/-- String literals that stand side by side are one. -/
def adjacentStrings (fuel : Nat) : Read Bytes :=
  match fuel with
  | 0 => exhausted
  | fuel + 1 => adjacentStringsRound (adjacentStrings fuel)

/-- Takes a string into the pool. -/
def pooled (value : Bytes) (pos : Int) (type : CType) : Read Expr := do
  let (index, env) := (← environment).intern value
  modifyEnv fun _ => env
  return .str index value pos type

/-- A string literal, from its first token on: a null-terminated array of characters from the
pool. -/
def stringLiteral (first : Token) (fuel : Nat) : Read Expr := do
  next
  let value := first.literal ++ (← adjacentStrings fuel)
  let pos := first.pos
  let type ← checked (located pos ((← layout).array .char (Int64.ofNat (value.length + 1))))
  pooled value pos type

/-- A constant, a string, a variable, a call or an expression in parentheses. -/
def primary (expr : Read Expr) (fuel : Nat) : Read Expr := do
  let t ← token
  match t.kind with
  | .number =>
    next
    let value := Bytes.toNat t.literal
    if 0x80000000 ≤ value then fail (.literalTooLarge t.literal) t.pos
    else return .int (Int32.ofNat value) t.pos
  | .character =>
    next
    return .int (Int32.ofNat (t.literal.headD 0).toNat) t.pos
  | .string => stringLiteral t fuel
  | .identifier =>
    if (← peekKind) == .punct .leftParen then call t expr fuel
    else
      next
      resolve t
  | .punct .leftParen =>
    next
    let e ← expr
    let _ ← expectPunct .rightParen
    return e
  | _ => unexpected .expression

/-! ## Postfix operators -/

/-- An element: `a[i]` is `*(a + i)`. -/
def indexed (expr : Read Expr) (pos : Int) (e : Expr) : Read Expr := do
  let index ← checked (rvalue (← expr))
  let _ ← expectPunct .rightBracket
  let base ← checked (rvalue e)
  let sum ← checked (binary (← layout) .add pos base index)
  checked (deref pos sum)

/-- A member of a struct. -/
def dotMember (pos : Int) (e : Expr) : Read Expr := do
  let name ← expect .identifier
  match e.type, e.isPlace with
  | .struct s, true =>
    checked (member (← layout) pos (.unary .addr pos e (.pointer (.struct s))) s name)
  | type, _ => fail (.notStruct type) pos

/-- A member of the struct that a pointer points at. -/
def arrowMember (pos : Int) (e : Expr) : Read Expr := do
  let name ← expect .identifier
  let pointer ← checked (rvalue e)
  match pointer.type.deref? with
  | some (.struct s) => checked (member (← layout) pos pointer s name)
  | _ => fail (.notStructPointer pointer.type) pos

/-- A step that yields the old value: the new value with the step undone. -/
def stepped (op undo : BinaryOp) (pos : Int) (e : Expr) : Read Expr := do
  let l ← layout
  let updated ← checked (assign l op pos e (.int 1 pos))
  checked (binary l undo pos updated (.int 1 pos))

/-- A round with one more postfix operator. -/
def postfixesRound (expr : Read Expr) (again : Expr → Read Expr) (e : Expr) : Read Expr := do
  let t ← token
  match t.kind with
  | .punct .leftBracket => next; again (← indexed expr t.pos e)
  | .punct .dot => next; again (← dotMember t.pos e)
  | .punct .arrow => next; again (← arrowMember t.pos e)
  | .punct .increment => next; again (← stepped .addAssign .sub t.pos e)
  | .punct .decrement => next; again (← stepped .subAssign .add t.pos e)
  | _ => return e

/-- The operators behind an expression. -/
def postfixes (expr : Read Expr) (fuel : Nat) (e : Expr) : Read Expr :=
  match fuel with
  | 0 => exhausted
  | fuel + 1 => postfixesRound expr (postfixes expr fuel) e

/-! ## Expressions -/

/-- The binary operator that a sign or negation stands for, with zero on its left. -/
def signOp? : Token.Kind → Option BinaryOp
  | .punct .plus => some .add
  | .punct .minus => some .sub
  | .punct .not => some .eq
  | _ => none

/-- The assignment that an operator is. -/
def assignOp? : Token.Kind → Option BinaryOp
  | .punct .assign => some .assign
  | .punct .plusAssign => some .addAssign
  | .punct .minusAssign => some .subAssign
  | _ => none

/-- The constant that `sizeof` or `_Alignof` of a type is. -/
def measure (k : Token.Kind) (pos : Int) (type : CType) : Read Expr := do
  let l ← layout
  let n ← checked (located pos (if k == .keyword .sizeof then l.size type else l.alignment type))
  return .int n.toInt32 pos

/-- A sign or a negation of an operand: the operator with zero on its left. -/
def signed (operand : Read Expr) (op : BinaryOp) (pos : Int) : Read Expr := do
  next
  let operand ← checked (rvalue (← operand))
  checked (binary (← layout) op pos (.int 0 pos) operand)

/-- What a pointer points at. -/
def indirection (operand : Read Expr) (pos : Int) : Read Expr := do
  next
  let operand ← checked (rvalue (← operand))
  checked (deref pos operand)

/-- The address of a place. -/
def address (operand : Read Expr) (pos : Int) : Read Expr := do
  next
  let operand ← operand
  checked (addressOf pos operand)

/-- A step that yields the new value. -/
def preStepped (operand : Read Expr) (op : BinaryOp) (pos : Int) : Read Expr := do
  next
  let operand ← operand
  checked (assign (← layout) op pos operand (.int 1 pos))

/-- The size or alignment of a type in parentheses or of an operand. -/
def measured (typeName : Read CType) (operand : Read Expr) (k : Token.Kind) (pos : Int) :
    Read Expr := do
  next
  if (← isAtPunct .leftParen) && startsType (← peekKind) then
    next
    let type ← typeName
    let _ ← expectPunct .rightParen
    measure k pos type
  else
    measure k pos (← operand).type

mutual

/-- An expression with its assignments, which group to the right. -/
def assignment (fuel : Nat) : Read Expr :=
  match fuel with
  | 0 => exhausted
  | fuel + 1 => do
    let left ← cascade (unary fuel) fuel levels
    let t ← token
    match assignOp? t.kind with
    | none => return left
    | some op =>
      next
      let right ← assignment fuel
      checked (assign (← layout) op t.pos left right)

/-- An operand with the operators before and behind it. -/
def unary (fuel : Nat) : Read Expr :=
  match fuel with
  | 0 => exhausted
  | fuel + 1 => do
    let t ← token
    match signOp? t.kind with
    | some op => signed (unary fuel) op t.pos
    | none =>
      match t.kind with
      | .punct .star => indirection (unary fuel) t.pos
      | .punct .ampersand => address (unary fuel) t.pos
      | .punct .increment => preStepped (unary fuel) .addAssign t.pos
      | .punct .decrement => preStepped (unary fuel) .subAssign t.pos
      | .keyword .sizeof | .keyword .alignof =>
        measured (typeName fuel) (unary fuel) t.kind t.pos
      | _ => postfixes (assignment fuel) fuel (← primary (assignment fuel) fuel)

end

/-- An expression used for its value. -/
def value (fuel : Nat) : Read Expr := do
  checked (rvalue (← assignment fuel))

/-- An expression whose value is dropped, so that there need not be one. -/
def effect (fuel : Nat) : Read Expr := do
  let e ← assignment fuel
  if e.type.isVoid then return e else checked (rvalue e)

end Grammar

end DirectC
