/-
# The prelude

What every program can call without defining it: three functions written in machine code, a
library read from source, and the startup code that calls `main` and exits with its result.
-/
import DirectC.CodeArea

namespace DirectC

namespace Prelude

/-! ## Library -/

/-- The name of the library in diagnostics. -/
def fileName : Bytes := "<prelude>"

/-- The source of the library. It recurses where a loop would need a jump that is too long. -/
def source : Bytes :=
  Bytes.say [
    "int __atoi_from(char *s, int n) \x7b\n",
    "\tif (*s < '0' || '9' < *s)\n",
    "\t\treturn n;\n",
    "\treturn __atoi_from(s + 1, n * 10 + (*s - '0'));\n",
    "\x7d\n",
    "\n",
    "int atoi(char *s) \x7b\n",
    "\treturn __atoi_from(s, 0);\n",
    "\x7d\n"]

/-! ## Functions in machine code -/

/-- A function written in machine code. -/
structure Builtin where
  signature : Signature
  code : Code

/-- The number of the system call that writes. -/
def writeCall : UInt32 := 1

/-- The number of the system call that maps memory. -/
def mapCall : UInt32 := 9

/-- Returns three. -/
def three : Builtin where
  signature := ⟨"__builtin_three", [], .int, 0⟩
  code := [.movAddr .rax 3, .ret]

/-- Writes the low byte of its argument to standard output and returns the argument. The byte is
written from the stack. -/
def putchar : Builtin where
  signature := ⟨"__builtin_putchar", [.int], .int, 0⟩
  code := [
    .push .rdi,
    .movAddr .rax writeCall,
    .movAddr .rdi 1,
    .mov .rsi .rsp,
    .movAddr .rdx 1,
    .syscall,
    .pop .rdi,
    .mov32 .rax .rdi,
    .ret]

/-- Maps fresh memory, stores its four arguments there as integers and returns its address. -/
def alloc4 : Builtin where
  signature := ⟨"__builtin_alloc4", [.int, .int, .int, .int], .pointer .int, 0⟩
  code := [
    .push .rdi, .push .rsi, .push .rdx, .push .rcx,
    .movAddr .rax mapCall,
    .clear .rdi,
    .movAddr .rsi 16,
    .movAddr .rdx 3,
    .movAddr .r10 0x22,
    .movImm .r8 (-1),
    .clear .r9,
    .syscall,
    .pop .rcx, .storeAtRax .rcx 12,
    .pop .rdx, .storeAtRax .rdx 8,
    .pop .rsi, .storeAtRax .rsi 4,
    .pop .rdi, .storeAtRax .rdi 0,
    .ret]

/-- The functions written in machine code. -/
def builtins : List Builtin :=
  [three, putchar, alloc4]

/-! ## Startup -/

/-- The name of the startup code. -/
def startName : Bytes := "_start"

/-- The startup code: passes the argument count and the arguments to `main` and exits with what
it returns. -/
def startup (main : UInt32) : Code :=
  [.loadTop,
    .leaRsiStack 8,
    .movAddr .rax main,
    .callRax,
    .mov32 .rdi .rax,
    .movAddr .rax Lowering.exitCall,
    .syscall]

/-- The startup code as a routine. -/
def startRoutine : CodeArea.Routine where
  name := startName
  emit _ symbols :=
    match symbols.functions.get? "main" with
    | some main => .ok (Code.bytes (startup main))
    | none => .error { kind := .naming, message := "program has no main function" }

/-- The functions written in machine code as routines. -/
def builtinRoutines : List CodeArea.Routine :=
  builtins.map fun b => ⟨b.signature.name, fun _ _ => .ok (Code.bytes b.code)⟩

/-- The names that a program cannot define. -/
def reserved : List Bytes :=
  startName :: builtins.map (·.signature.name)

end Prelude

end DirectC
