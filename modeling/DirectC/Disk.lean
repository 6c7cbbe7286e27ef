/-
# Files

Access to files as the command line needs it (`Files`), the ways it can fail, and a directory of
files held in memory (`Disk`) that follows the rules of the system: every part of a path but the
last must be a directory, an empty path leads nowhere, and a slash at the end asks for a
directory.

Around the directory there is as little as there can be: the directories above it, the root with
the usual directories in it, and the null device.
-/
import DirectC.Path
import DirectC.Table

namespace DirectC

/-! ## Failures -/

/-- Why the system refuses. -/
inductive FileError.Cause where
  | missing
  | isDirectory
  | notDirectory
  | nameTooLong
  | invalid
  | other (message : Bytes)
  deriving DecidableEq, Repr, Inhabited

/-- The message of a cause. -/
def FileError.Cause.message : FileError.Cause → Bytes
  | .missing => "no such file or directory"
  | .isDirectory => "is a directory"
  | .notDirectory => "not a directory"
  | .nameTooLong => "file name too long"
  | .invalid => "invalid argument"
  | .other m => m

/-- What was refused on which path. -/
structure FileError where
  action : Bytes
  path : Bytes
  cause : FileError.Cause
  deriving DecidableEq, Repr, Inhabited

/-- The message of a failure. -/
def FileError.message (e : FileError) : Bytes :=
  Bytes.say [e.action, " ", e.path, ": ", e.cause.message]

/-- Access to files. -/
structure Files (m : Type → Type) where
  /-- The contents of a file. -/
  read : Bytes → m (Except FileError Bytes)
  /-- Whether a path leads to something that is no directory. -/
  isFile : Bytes → m Bool
  /-- Writes an executable file. -/
  write : Bytes → Bytes → m (Except FileError Unit)

/-! ## Files in memory -/

/-- A directory of files. A directory below it is there if it holds a file. -/
structure Disk where
  /-- The contents of the files, by the parts of their paths joined with slashes. -/
  files : Table Bytes := ∅
  deriving Repr, Inhabited

namespace Disk

/-- The parts that lead to the root: a path from there starts with a slash. -/
def root : List Bytes := [[]]

/-- The directories that are in the root. -/
def rootDirectories : List Bytes :=
  ["bin", "dev", "etc", "home", "lib", "opt", "proc", "root", "run", "sbin", "srv", "sys", "tmp",
    "usr", "var"]

/-- The file that is always empty, whatever is written to it. -/
def nullDevice : Bytes := "/dev/null"

/-- The name of the place that parts lead to. -/
def nameOf (parts : List Bytes) : Bytes :=
  List.intercalate [47] parts

/-- A directory: one above or at the starting point, one of the root, or one that holds a file. -/
def isDirectory (d : Disk) (parts : List Bytes) : Bool :=
  parts.all (· == Path.up) || parts == root ||
    (parts.take 1 == root && (parts.drop 1).length == 1 &&
      (parts.drop 1).all rootDirectories.contains) ||
    d.files.names.any (nameOf parts ++ [47]).isPrefixOf

/-- The directory above another one. The root is above itself. -/
def parent (parts : List Bytes) : List Bytes :=
  if parts == root then root
  else if parts.all (· == Path.up) then parts ++ [Path.up]
  else parts.dropLast

/-- The contents of a file. -/
def contents? (d : Disk) (name : Bytes) : Option Bytes :=
  if name == nullDevice then some [] else d.files.get? name

/-- Adds a file. -/
def add (d : Disk) (path contents : Bytes) : Disk :=
  ⟨d.files.insert (Path.clean path) contents⟩

/-- The files in the directory and below it, in the order of their names. -/
def listing (d : Disk) : List (Bytes × Bytes) :=
  d.files.sorted.filter fun f =>
    !Path.isRooted f.1 && (Path.split f.1).head? != some Path.up

/-- The longest name of a file. -/
def maxName : Nat := 255

/-- The longest path. -/
def maxPath : Nat := 4095

/-- Why a place cannot be gone through. -/
def blocked (d : Disk) (place : List Bytes) : FileError.Cause :=
  if (d.contents? (nameOf place)).isSome then .notDirectory else .missing

/-- Follows the parts of a path through directories. -/
def walk (d : Disk) (place : List Bytes) : List Bytes → Except FileError.Cause (List Bytes)
  | [] => if d.isDirectory place then .ok place else .error (d.blocked place)
  | part :: parts =>
    if !d.isDirectory place then .error (d.blocked place)
    else if part.isEmpty || part == Path.here then d.walk place parts
    else if part == Path.up then d.walk (parent place) parts
    else if maxName < part.length then .error .nameTooLong
    else d.walk (place ++ [part]) parts

/-- Where a path leads. -/
inductive Target where
  | directory
  /-- A name in a directory; whether there is a slash behind it. -/
  | entry (name : Bytes) (slash : Bool)
  deriving DecidableEq, Repr

/-- The parts of a path without those behind its last name, and whether there are such. -/
def trimmed (path : Bytes) : List Bytes × Bool :=
  let parts := (Path.split path).reverse
  ((parts.dropWhile (·.isEmpty)).reverse, parts.head? == some [] && 1 < parts.length)

/-- Finds where a path leads. -/
def target (d : Disk) (path : Bytes) : Except FileError.Cause Target :=
  let (parts, slash) := trimmed path
  let start := if Path.isRooted path then root else []
  if path.contains 0 then .error .invalid
  else if path.isEmpty then .error .missing
  else if maxPath < path.length then .error .nameTooLong
  else
    let last := parts.getLastD Path.here
    if last == Path.here || last == Path.up then (d.walk start parts).map fun _ => .directory
    else do
      let place ← d.walk start parts.dropLast
      if maxName < last.length then throw .nameTooLong
      if d.isDirectory (place ++ [last]) then return .directory
      else return .entry (nameOf (place ++ [last])) slash

/-- The contents of the file that a path leads to. -/
def read (d : Disk) (path : Bytes) : Except FileError Bytes :=
  match d.target path with
  | .error cause => .error ⟨"open", path, cause⟩
  | .ok .directory => .error ⟨"read", path, .isDirectory⟩
  | .ok (.entry name slash) =>
    match d.contents? name with
    | none => .error ⟨"open", path, .missing⟩
    | some contents => if slash then .error ⟨"open", path, .notDirectory⟩ else .ok contents

/-- Whether a path leads to a file. -/
def isFile (d : Disk) (path : Bytes) : Bool :=
  match d.target path with
  | .ok (.entry name slash) => !slash && (d.contents? name).isSome
  | _ => false

/-- Writes a file. -/
def write (d : Disk) (path contents : Bytes) : Except FileError Unit × Disk :=
  match d.target path with
  | .error cause => (.error ⟨"open", path, cause⟩, d)
  | .ok .directory | .ok (.entry _ true) => (.error ⟨"open", path, .isDirectory⟩, d)
  | .ok (.entry name false) =>
    (.ok (), if name == nullDevice then d else ⟨d.files.insert name contents⟩)

/-- Access to the files of a disk. -/
def access : Files (StateM Disk) where
  read path := return (← get).read path
  isFile path := return (← get).isFile path
  write path contents := modifyGet fun d => d.write path contents

end Disk

end DirectC
