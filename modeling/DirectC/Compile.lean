/-
# Compiling

From source text to an executable: the library and the source are read into one environment, the
code area is made with the startup code first, and the headers go before it.

The library is under the default limits, whatever the settings say.
-/
import DirectC.Grammar.SourceFile
import DirectC.Prelude
import DirectC.Settings

namespace DirectC

namespace Compile

/-- The environment that a source text is read into: the functions in machine code and the
library. -/
def preludeEnv : Except Diagnostic Unit × Env :=
  let env := Prelude.builtins.foldl (fun env b => env.declare b.signature) (Env.empty {})
  env.readSource Prelude.fileName Prelude.source

/-- Refuses definitions of reserved names. -/
def checkReserved (f : Function) : Except Diagnostic Unit :=
  if Prelude.reserved.contains f.name then
    .error {
      kind := .redeclaration, file := f.file, source := f.source, pos := f.pos
      message := f.name ++ " is provided by the runtime and cannot be defined" }
  else .ok ()

/-- The program of a source text, with the library. -/
def program (file source : Bytes) (settings : Settings) : Except Diagnostic Program := do
  let (result, env) := preludeEnv
  result
  let env := { env with layout := env.layout.withLimits settings.limits }
  let (result, env) := env.readSource file source
  result
  let p := env.program
  p.functions.forM checkReserved
  return p

/-- The code area of a program under settings. -/
def codeArea (p : Program) (routines : List CodeArea.Routine) (settings : Settings) :
    Except Diagnostic CodeArea :=
  CodeArea.emit p routines {
    limits := settings.limits
    base := (Image.codeAddress settings.loadBase).toUInt32
    fileLimits := (∅ : Table Limits).insert Prelude.fileName {} }

/-- A compiled program. -/
structure Executable where
  image : Rope
  program : Program
  code : CodeArea
  /-- The address of the startup code. -/
  entry : UInt64
  deriving Repr, Inhabited

/-- Compiles a source text to an executable. -/
def executable (file source : Bytes) (settings : Settings) : Except Failure Executable := do
  settings.validate.mapError fun f => .plain f.message
  let p ← (program file source settings).mapError .diagnostic
  if !p.functions.any fun f => f.name == Bytes.ofString "main" then
    throw (.diagnostic
      { kind := .naming, file, source, pos := 0, message := "program has no main function" })
  let code ← (codeArea p (Prelude.startRoutine :: Prelude.builtinRoutines) settings).mapError
    .diagnostic
  let entry := (code.offsets.get? Prelude.startName).getD 0
  return {
    image := Image.splice settings.loadBase code.text (.ofNat entry) code.bssSize
    program := p
    code
    entry := Image.codeAddress settings.loadBase + .ofNat entry }

/-- Compiles the functions of a source text and of the library, without startup code and
headers. -/
def functions (file source : Bytes) (settings : Settings) : Except Failure CodeArea := do
  settings.validate.mapError fun f => .plain f.message
  let p ← (program file source settings).mapError .diagnostic
  (codeArea p Prelude.builtinRoutines settings).mapError .diagnostic

end Compile

end DirectC
