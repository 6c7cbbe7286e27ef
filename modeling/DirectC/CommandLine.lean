/-
# The command line

One run of the compiler: arguments and settings are read, the source is compiled and the
executable written. A run is a function of its arguments and of the files it has access to; what
it prints is part of its result.
-/
import DirectC.Compile
import DirectC.Disk
import DirectC.HexDump
import DirectC.Notice
import DirectC.Settings.File
import DirectC.Settings.Override

namespace DirectC

namespace CommandLine

/-! ## Arguments -/

/-- The version of the compiler. -/
def version : Bytes := "0.1.0"

/-- The flags of the command line. -/
def flags : List Flags.Flag :=
  Settings.flags ++
    [{ name := "config", kind := .text },
      { name := "verbose", letter := some 118, kind := .switch },
      { name := "dparse", kind := .switch },
      { name := "dhex", kind := .switch },
      { name := "help", letter := some 104, kind := .switch },
      { name := "version", kind := .switch }]

/-- Flags for dumps may be written with one dash. -/
def normalize (arg : Bytes) : Bytes :=
  if arg == Bytes.ofString "-dparse" || arg == Bytes.ofString "-dhex" then 45 :: arg else arg

/-- The text that explains the command line. -/
def usage : Bytes :=
  Bytes.say [
    "elfcc compiles a small subset of C directly into x86-64 machine code\n",
    "and wraps it in a static ELF executable. There is no assembler, linker\n",
    "or intermediate representation between the typed AST and the bytes.\n",
    "\n",
    "Usage:\n",
    "  elfcc [flags] file.c\n",
    "\n",
    "Flags:\n",
    "      --config file         Read settings from file instead of elfcc.toml next to the source\n",
    "      --dhex                Dump the generated code of each function in hex\n",
    "      --dparse              Dump the typed AST and stop\n",
    "  -h, --help                help for elfcc\n",
    "      --load-base uint      Virtual address the image is loaded at (default 4194304)\n",
    "      --max-branch int      Largest jump distance in bytes (default 127)\n",
    "      --max-type-size int   Largest type size and array length in bytes (default 255)\n",
    "  -o, --output file         Write the executable to file (default \"a.out\")\n",
    "  -v, --verbose             Report progress on stderr\n",
    "      --version             version for elfcc\n"]

/-! ## Output -/

/-- What a run prints and how it ends. -/
structure Outcome where
  exitCode : UInt8 := 0
  stdout : Bytes := []
  stderr : Bytes := []
  deriving DecidableEq, Repr, Inhabited

/-- A failure on the error stream. -/
def report (f : Failure) : Bytes :=
  match f with
  | .plain m => Notice.error.line m
  | .diagnostic d => if d.pos < 0 then "elfcc: " ++ d.render else d.render

/-- A run that fails. -/
def failed (stderr : Bytes) : Outcome :=
  { exitCode := 1, stderr }

/-! ## Settings -/

/-- The settings file of a run, if it has one: the one it is given, or the one beside the
source. -/
def settingsPath {m : Type → Type} [Monad m] (files : Files m) (source explicit : Bytes) :
    m (Option Bytes) := do
  if !explicit.isEmpty then return some explicit
  let path := Path.join (Path.directory source) Settings.fileName
  return if ← files.isFile path then some path else none

/-- Reads a settings file. -/
def loadSettings {m : Type → Type} [Monad m] (files : Files m) (path : Bytes) :
    m (Except Bytes Settings) := do
  match ← files.read path with
  | .error e => return .error (Bytes.say ["reading config: ", e.message])
  | .ok contents =>
    match ({} : Settings).merge contents with
    | (.ok (), settings) => return .ok settings
    | (.error fault, _) => return .error (Bytes.say [path, ": ", fault.message])

/-! ## Runs -/

/-- The program without the functions of other files. -/
def ownProgram (p : Program) (file : Bytes) : Program :=
  { p with functions := p.functions.filter fun f => f.file == file }

/-- Compiles a source text and writes the executable. -/
def build {m : Type → Type} [Monad m] (files : Files m) (file source : Bytes)
    (settings : Settings) (p : Flags.Parsed) (progress : Bytes) : m Outcome := do
  let verbose (sort : Notice) (parts : List Bytes) : Bytes :=
    if p.isOn "verbose" then sort.text parts else []
  let progress := progress ++ verbose .info ["compiling ", file, " (load base ",
    .hexNumber settings.loadBase.toNat, ", branch limit ", .ofInt settings.limits.branch.toInt,
    " bytes)"]
  match Compile.executable file source settings with
  | .error f => return failed (progress ++ report f)
  | .ok e =>
    let stdout := if p.isOn "dhex" then HexDump.text e.code else []
    match ← files.write settings.output e.image.toBytes with
    | .error err =>
      let notice := Notice.error.text ["writing ", settings.output, ": ", err.message]
      return { exitCode := 1, stdout, stderr := progress ++ notice }
    | .ok () =>
      let done := verbose .success ["wrote ", settings.output, " (", .ofNat e.image.length,
        " bytes, ", .ofNat e.code.codeSize, " bytes of code)"]
      return { stdout, stderr := progress ++ done }

/-- Runs on a source file. -/
def runOn {m : Type → Type} [Monad m] (files : Files m) (file : Bytes) (p : Flags.Parsed) :
    m Outcome := do
  let path ← settingsPath files file ((p.text? "config").getD [])
  let loaded ← match path with
    | none => pure (.ok {})
    | some path => loadSettings files path
  match loaded with
  | .error message => return failed (Notice.error.line message)
  | .ok settings =>
    let settings := settings.override p
    let progress := match path with
      | some path =>
        if p.isOn "verbose" then Notice.info.text ["using configuration ", path] else []
      | none => []
    match ← files.read file with
    | .error e =>
      return failed (progress ++ Notice.error.text ["reading ", file, ": ", e.message])
    | .ok source =>
      if p.isOn "dparse" then
        match Compile.program file source settings with
        | .error d => return failed (progress ++ report (.diagnostic d))
        | .ok program => return { stdout := (ownProgram program file).text, stderr := progress }
      else build files file source settings p progress

/-- Runs the compiler on arguments. Arguments that make no sense end a run without a word. -/
def run {m : Type → Type} [Monad m] (files : Files m) (args : List Bytes) : m Outcome := do
  match Flags.read? flags (args.map normalize) with
  | none => return failed []
  | some p =>
    if p.isOn "help" then return { stdout := usage }
    else if p.isOn "version" then
      return { stdout := Bytes.say ["elfcc version ", version, "\n"] }
    else
      match p.args with
      | [file] => runOn files file p
      | _ => return failed []

end CommandLine

end DirectC
