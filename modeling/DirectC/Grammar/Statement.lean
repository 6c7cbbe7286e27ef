/-
# Reading statements

Statements and local declarations. A declaration yields one assignment for each variable with an
initial value. A `for` loop is put together from a block and a `while` loop:
`for (a; b; c) s` is `{ a; while (b) { s c; } }`, and a missing condition is the constant one.
-/
import DirectC.Grammar.Expression

namespace DirectC

namespace Grammar

/-! ## Declarations -/

/-- Adds a local variable to the innermost scope. -/
def addLocal (type : CType) (name : Token) : Read Expr := do
  match (← scope).declare? name.literal type with
  | none => fail (.duplicateLocal name.literal) name.pos
  | some (id, s) =>
    setScope { s with locals := s.locals ++ [⟨name.literal, type, id, name.pos⟩] }
    let noted ← log
    setLog { noted with locals := noted.locals ++ [← layout] }
    return .ident name.literal name.pos (.stack id) type

/-- Declares a local variable. -/
def declareLocal (type : CType) (name : Token) : Read Expr := do
  if type.isVoid then
    fail (.voidVariable name.literal) name.pos
  let _ ← checked (located name.pos ((← layout).size type))
  addLocal type name

/-- The initial value of a variable, as an assignment to it. -/
def initializer (fuel : Nat) (type : CType) (name : Token) (target : Expr) :
    Read (List Stmt) := do
  let pos ← position
  if ← accept .assign then
    if !type.isScalar then
      fail (.initializer name.literal type) pos
    let init ← assignment fuel
    return [.eval (← checked (assign (← layout) .assign pos target init))]
  else
    return []

/-- A round with one more local variable. -/
def declaratorsRound (base : CType) (fuel : Nat) (again : Read (List Stmt)) :
    Read (List Stmt) := do
  let (type, name) ← declarator fuel base
  let target ← declareLocal type name
  let init ← initializer fuel type name target
  if ← accept .comma then
    return init ++ (← again)
  else
    let _ ← expectPunct .semicolon
    return init

/-- The declarators of one declaration, up to its semicolon. -/
def declarators (base : CType) (fuel : Nat) : Read (List Stmt) :=
  match fuel with
  | 0 => exhausted
  | fuel + 1 => declaratorsRound base fuel (declarators base fuel)

/-- A declaration of local variables, or of a struct alone. -/
def declaration (fuel : Nat) : Read (List Stmt) := do
  let base ← baseType fuel
  if ← accept .semicolon then return [] else declarators base fuel

/-! ## Simple statements -/

/-- A return statement of a function that returns `ret`, behind its keyword. -/
def returnStatement (ret : CType) (pos : Int) (fuel : Nat) : Read Stmt := do
  if ← accept .semicolon then
    if ret.isVoid then return .ret none pos else fail (.returnWithoutValue ret) pos
  else
    let valuePos ← position
    if ret.isVoid then
      fail .returnWithValue valuePos
    let e ← value fuel
    if !assignable ret e then
      fail (.returnType e.type ret) valuePos
    let _ ← expectPunct .semicolon
    return .ret (some e) pos

/-- An exit statement behind its keyword. -/
def exitStatement (pos : Int) (fuel : Nat) : Read Stmt := do
  let valuePos ← position
  let e ← value fuel
  if !e.type.isInteger then
    fail (.exitStatus e.type) valuePos
  let _ ← expectPunct .semicolon
  return .exit e pos

/-- An expression statement. -/
def effectStatement (fuel : Nat) : Read Stmt := do
  let e ← effect fuel
  let _ ← expectPunct .semicolon
  return .eval e

/-- A condition in parentheses. -/
def condition (fuel : Nat) : Read Expr := do
  let _ ← expectPunct .leftParen
  let e ← value fuel
  let _ ← expectPunct .rightParen
  return e

/-! ## The parts of a `for` loop -/

/-- What is done first, with its semicolon. -/
def forStart (fuel : Nat) : Read (List Stmt) := do
  if startsType (← kind) then declaration fuel
  else if ← accept .semicolon then return []
  else return [← effectStatement fuel]

/-- The condition, with its semicolon; without one, the constant one at `pos`. -/
def forCondition (pos : Int) (fuel : Nat) : Read Expr := do
  let cond ← if ← isAtPunct .semicolon then pure (.int 1 pos) else value fuel
  let _ ← expectPunct .semicolon
  return cond

/-- What is done after each round, with the closing parenthesis. -/
def forUpdate (fuel : Nat) : Read (List Stmt) := do
  let update ← if ← isAtPunct .rightParen then pure [] else pure [.eval (← effect fuel)]
  let _ ← expectPunct .rightParen
  return update

/-! ## Statements -/

/-- A block, whose items are read by `items` in a scope of their own. -/
def block (items : Read (List Stmt)) : Read Stmt := do
  next
  return .block (← inScope items)

/-- A conditional statement, with or without the second of its branches. -/
def conditional (statement : Read Stmt) (fuel : Nat) : Read Stmt := do
  next
  let cond ← condition fuel
  let yes ← statement
  if (← kind) == .keyword .elseKw then
    next
    return .ifElse cond yes (← statement)
  else
    return .ifThen cond yes

/-- A `while` loop. -/
def whileLoop (statement : Read Stmt) (fuel : Nat) : Read Stmt := do
  next
  let cond ← condition fuel
  return .loop cond (← statement)

/-- A `for` loop behind its opening parenthesis, put together from a block and a `while` loop. -/
def forParts (statement : Read Stmt) (pos : Int) (fuel : Nat) : Read Stmt := do
  let start ← forStart fuel
  let cond ← forCondition pos fuel
  let update ← forUpdate fuel
  let body ← statement
  return .block (start ++ [.loop cond (.block (body :: update))])

/-- A `for` loop, in a scope of its own. -/
def forLoop (statement : Read Stmt) (pos : Int) (fuel : Nat) : Read Stmt := do
  next
  let _ ← expectPunct .leftParen
  inScope (forParts statement pos fuel)

/-- A round with one more item of a block. -/
def blockItemsRound (statement : Read Stmt) (fuel : Nat) (again : Read (List Stmt)) :
    Read (List Stmt) := do
  match ← kind with
  | .punct .rightBrace =>
    next
    return []
  | .endOfFile => unexpected (.token (.punct .rightBrace))
  | k =>
    let items ← if startsType k then declaration fuel else pure [← statement]
    return items ++ (← again)

mutual

/-- A statement of a function that returns `ret`. -/
def statement (ret : CType) (fuel : Nat) : Read Stmt :=
  match fuel with
  | 0 => exhausted
  | fuel + 1 => do
    let t ← token
    match t.kind with
    | .punct .leftBrace => block (blockItems ret fuel)
    | .punct .semicolon =>
      next
      return .block []
    | .keyword .returnKw =>
      next
      returnStatement ret t.pos fuel
    | .keyword .throwKw =>
      next
      exitStatement t.pos fuel
    | .keyword .ifKw => conditional (statement ret fuel) fuel
    | .keyword .whileKw => whileLoop (statement ret fuel) fuel
    | .keyword .forKw => forLoop (statement ret fuel) t.pos fuel
    | _ => effectStatement fuel

/-- The items of a block up to its closing brace. -/
def blockItems (ret : CType) (fuel : Nat) : Read (List Stmt) :=
  match fuel with
  | 0 => exhausted
  | fuel + 1 => blockItemsRound (statement ret fuel) fuel (blockItems ret fuel)

end

/-- A declaration or a statement. -/
def blockItem (ret : CType) (fuel : Nat) : Read (List Stmt) := do
  if startsType (← kind) then declaration fuel else return [← statement ret fuel]

end Grammar

end DirectC
