/-
# Settings from files

A settings file has two tables, `limits` and `output`. A name may also be written in capitals.
Whatever else has a value in the file is refused.
-/
import DirectC.Quoted
import DirectC.Settings
import DirectC.Toml.Document

namespace DirectC

namespace Settings

/-- The name of the settings file beside a source file. -/
def fileName : Bytes := "elfcc.toml"

/-- Why a settings file is refused. -/
inductive FileFault where
  /-- Not a settings file, or a value of the wrong sort. -/
  | malformed
  /-- Values that belong to no setting. -/
  | unknownKeys (keys : List Bytes)
  | negativeBase
  deriving DecidableEq, Repr, Inhabited

/-- The message of a fault. -/
def FileFault.message : FileFault → Bytes
  | .malformed => "malformed settings"
  | .unknownKeys keys =>
    Bytes.say ["undecoded keys: [", List.intercalate [32] (keys.map Bytes.quoted), "]"]
  | .negativeBase => "output.load_base is negative"

/-! ## What a file says -/

/-- What a file sets. -/
structure Changes where
  typeSize : Option Int64 := none
  arrayLength : Option Int64 := none
  branch : Option Int64 := none
  registerArgs : Option Int64 := none
  loadBase : Option Int64 := none
  output : Option Bytes := none
  deriving DecidableEq, Repr, Inhabited

/-- A name in capitals. -/
def capitals (name : Bytes) : Bytes :=
  name.map fun b => if 97 ≤ b && b ≤ 122 then b - 32 else b

/-- The entry under a name, or under the name in capitals, with the key it is under. -/
def entry? (n : Toml.Node) (name : Bytes) : Option (Bytes × Toml.Node) :=
  match n.child? name with
  | some child => some (name, child)
  | none => (n.child? (capitals name)).map (capitals name, ·)

/-- A step of reading: it notes the paths of the values it takes. -/
abbrev Take := StateT (List Bytes) (Except FileFault)

/-- Takes a value of a table. -/
def take {α : Type} (table : Option (Bytes × Toml.Node)) (name : Bytes)
    (convert : Toml.Value → Option α) : Take (Option α) :=
  match table with
  | none => return none
  | some (key, n) =>
    match entry? n name with
    | none => return none
    | some (inner, .value v) =>
      match convert v with
      | none => throw .malformed
      | some a => do
        modify (Toml.Node.dotted [key, inner] :: ·)
        return some a
    | some _ => throw .malformed

/-- The word that a value stands for. Unsigned words wrap around. -/
def asWord : Toml.Value → Option Int64
  | .integer n => some (.ofInt n)
  | _ => none

/-- The text that a value stands for. An integer beyond the signed words is taken for a code point;
there is none so large, so it becomes the replacement character. -/
def asText : Toml.Value → Option Bytes
  | .text s => some s
  | .integer n => if 0x8000000000000000 ≤ n then some (Utf8.encode 0xfffd) else none
  | .other => none

/-- A table of a file, if it has one of this name. -/
def section? (n : Toml.Node) (name : Bytes) : Take (Option (Bytes × Toml.Node)) :=
  match entry? n name with
  | none => return none
  | some (key, .table inline entries) => return some (key, .table inline entries)
  | some _ => throw .malformed

/-- What the tree of a file sets. -/
def changes (n : Toml.Node) : Take Changes := do
  let limits ← section? n "limits"
  let typeSize ← take limits "max_type_size" asWord
  let arrayLength ← take limits "max_array_len" asWord
  let branch ← take limits "max_branch_displacement" asWord
  let registerArgs ← take limits "max_register_args" asWord
  let output ← section? n "output"
  let loadBase ← take output "load_base" asWord
  let path ← take output "path" asText
  return ⟨typeSize, arrayLength, branch, registerArgs, loadBase, path⟩

/-- Texts in order, each once. -/
def ordered (names : List Bytes) : List Bytes :=
  names.eraseDups.mergeSort fun a b => !Bytes.before b a

/-- What a file sets. -/
def Changes.ofFile (source : Bytes) : Except FileFault Changes :=
  match Toml.document? source with
  | none => .error .malformed
  | some n => do
    let (c, taken) ← (changes n).run []
    let left := ((n.leaves []).map Toml.Node.dotted).filter fun path => !taken.contains path
    if left.isEmpty then return c else throw (.unknownKeys (ordered left))

/-! ## Merging -/

/-- Sets the limits that a file sets. -/
def withLimits (s : Settings) (c : Changes) : Settings :=
  { s with limits := {
      typeSize := c.typeSize.getD s.limits.typeSize
      arrayLength := c.arrayLength.getD s.limits.arrayLength
      branch := c.branch.getD s.limits.branch
      registerArgs := c.registerArgs.getD s.limits.registerArgs } }

/-- Sets what a file sets. Limits are set first, and stay if the load address is refused. -/
def merge (s : Settings) (source : Bytes) : Except FileFault Unit × Settings :=
  match Changes.ofFile source with
  | .error fault => (.error fault, s)
  | .ok c =>
    let limited := s.withLimits c
    if c.loadBase.any (· < 0) then (.error .negativeBase, limited)
    else
      (.ok (), { limited with
        loadBase := (c.loadBase.map Int64.toUInt64).getD s.loadBase
        output := c.output.getD s.output })

end Settings

end DirectC
