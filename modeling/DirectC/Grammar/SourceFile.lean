/-
# Reading source files

A source file is a list of struct definitions, global variables and functions. A function is
declared before its body is read, so that it can call itself, and defined after it.

`Env.readSource` and `Env.readStatement` read a text into an environment. What was declared before
a failure stays declared.
-/
import DirectC.Grammar.Statement

namespace DirectC

namespace Grammar

/-! ## Global variables -/

/-- Adds a global variable to the environment. -/
def addGlobal (type : CType) (name : Token) : Read Unit := do
  make (.global ⟨name.literal, type, name.pos⟩ (← layout))

/-- Declares a global variable. -/
def declareGlobal (type : CType) (name : Token) : Read Unit := do
  if type.isVoid then
    fail (.voidVariable name.literal) name.pos
  let _ ← checked (located name.pos ((← layout).size type))
  if ← isAtPunct .assign then
    fail (.globalInitializer name.literal) (← position)
  addGlobal type name

/-- A round with one more global variable, whose declarator has been read. -/
def globalsRound (base : CType) (fuel : Nat) (again : CType → Token → Read Unit) (type : CType)
    (name : Token) : Read Unit := do
  declareGlobal type name
  if ← accept .comma then
    let (type, name) ← declarator fuel base
    again type name
  else
    let _ ← expectPunct .semicolon

/-- The global variables of one declaration, the first of which has been read, up to the
semicolon. -/
def globals (base : CType) (fuel : Nat) (type : CType) (name : Token) : Read Unit :=
  match fuel with
  | 0 => exhausted
  | fuel + 1 => globalsRound base fuel (globals base fuel) type name

/-! ## Functions -/

/-- Adds a parameter to the scope of its function. -/
def addParameter (type : CType) (name : Token) : Read Param := do
  match (← scope).declare? name.literal type with
  | none => fail (.duplicateParameter name.literal) name.pos
  | some (id, s) =>
    setScope s
    let noted ← log
    setLog { noted with params := noted.params ++ [← layout] }
    return ⟨name.literal, type, id⟩

/-- A parameter, declared in the scope of its function. -/
def parameter (fuel : Nat) : Read Param := do
  if !startsType (← kind) then
    unexpected .parameter
  let base ← baseType fuel
  let (type, name) ← declarator fuel base
  match type.decay with
  | .void => fail (.voidParameter name.literal) name.pos
  | .struct _ => fail (.structParameter name.literal) name.pos
  | type => addParameter type name

/-- A round with one more parameter. -/
def parametersRound (fuel : Nat) (again : Bool → Read (List Param)) (first : Bool) :
    Read (List Param) := do
  if ← accept .rightParen then
    return []
  if !first then
    let _ ← expectPunct .comma
  let p ← parameter fuel
  return p :: (← again false)

/-- The parameters up to the closing parenthesis. -/
def parameters (fuel : Nat) (first : Bool) : Read (List Param) :=
  match fuel with
  | 0 => exhausted
  | fuel + 1 => parametersRound fuel (parameters fuel) first

/-- Checks the type that a function returns. -/
def checkReturn (ret : CType) (name : Token) : Read Unit :=
  match ret with
  | .struct _ => fail (.returnsStruct name.literal) name.pos
  | .array _ _ => fail (.returnsArray name.literal) name.pos
  | _ => pure ()

/-- Adds the signature of a function to the environment. -/
def declareFunction (ret : CType) (name : Token) (params : List Param) : Read Unit :=
  make (.declared ⟨name.literal, params.map (·.type), ret, name.pos⟩)

/-- Adds a function with its body to the environment. -/
def defineFunction (file source : Bytes) (ret : CType) (name : Token) (params : List Param)
    (body : List Stmt) : Read Unit := do
  let locals := (← scope).locals
  let noted ← log
  make (.defined ⟨name.literal, params, ret, name.pos, some body, locals, file, source⟩
    noted.params noted.locals)

/-- Begins the scopes of a function. -/
def enterFunction : Read Unit := do
  setScope {}
  setLog { ← log with params := [], locals := [] }

/-- The parameters of a function behind their opening parenthesis; `void` stands for none. -/
def parameterList (fuel : Nat) : Read (List Param) := do
  if (← isAt (.keyword .void)) && (← peekKind) == .punct .rightParen then
    next
  parameters fuel true

/-- A body or a semicolon. -/
def functionBody (file source : Bytes) (ret : CType) (name : Token) (params : List Param)
    (fuel : Nat) : Read Unit := do
  if ← accept .semicolon then
    return
  if ← accept .leftBrace then
    defineFunction file source ret name params (← blockItems ret fuel)
  else
    unexpected .bodyOrEnd

/-- A function behind its name: parameters, then a body or a semicolon. -/
def function (file source : Bytes) (ret : CType) (name : Token) (fuel : Nat) : Read Unit := do
  checkReturn ret name
  next
  enterFunction
  let params ← parameterList fuel
  declareFunction ret name params
  functionBody file source ret name params fuel

/-! ## Files -/

/-- One item of a file. -/
def item (file source : Bytes) (fuel : Nat) : Read Unit := do
  if !startsType (← kind) then
    unexpected .declaration
  let base ← baseType fuel
  if ← accept .semicolon then
    return
  let (type, name) ← declarator fuel base
  if ← isAtPunct .leftParen then function file source type name fuel
  else globals base fuel type name

/-- A round with one more item of a file. -/
def itemsRound (file source : Bytes) (fuel : Nat) (again : Read Unit) : Read Unit := do
  if ← isAt .endOfFile then
    return
  item file source fuel
  again

/-- The items of a file up to its end. -/
def items (file source : Bytes) (fuel : Nat) : Read Unit :=
  match fuel with
  | 0 => exhausted
  | fuel + 1 => itemsRound file source fuel (items file source fuel)

/-- A text that is one declaration or statement of a function returning `int`. -/
def loneStatement (fuel : Nat) : Read Stmt := do
  let items ← blockItem .int fuel
  if !(← isAt .endOfFile) then
    unexpected .endOfInput
  match items with
  | [s] => return s
  | items => return .block items

end Grammar

/-! ## Environments -/

namespace Env

open Grammar

/-- Runs a reader over a source text and keeps what it declares. -/
def read {α : Type} (env : Env) (file source : Bytes) (reader : Nat → Read α) :
    Except Diagnostic α × Env :=
  let start := Reading.start source env
  match reader start.budget start with
  | .ok a s => (.ok a, s.env)
  | .error c s => (.error (c.diagnostic file source), s.env)

/-- Reads a source file. -/
def readSource (env : Env) (file source : Bytes) : Except Diagnostic Unit × Env :=
  env.read file source (items file source)

/-- Reads a single statement. -/
def readStatement (env : Env) (file source : Bytes) : Except Diagnostic Stmt × Env :=
  env.read file source loneStatement

end Env

/-- The program of one source file. -/
def Program.ofSource (file source : Bytes) (limits : Limits) : Except Diagnostic Program :=
  match (Env.empty limits).readSource file source with
  | (.ok (), env) => .ok env.program
  | (.error d, _) => .error d

end DirectC
