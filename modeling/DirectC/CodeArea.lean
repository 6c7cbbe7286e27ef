/-
# The code area

All the code of a program, laid out one piece after the other, then the strings, then room for
the global variables. Code is made twice: once with addresses of zero, to learn the size of every
piece, and once with the addresses that follow from the sizes. Address operands have a fixed
width, so both passes make pieces of the same sizes.
-/
import DirectC.Lowering.Statement
import DirectC.Rope

namespace DirectC

namespace CodeArea

/-- The two passes. -/
inductive Pass where
  | sizing
  | final
  deriving DecidableEq, Repr

/-- Code written by hand that stands before the functions of a program. -/
structure Routine where
  name : Bytes
  /-- The code, given the addresses known in a pass. -/
  emit : Pass → Symbols → Except Diagnostic Bytes

/-- How code is laid out. -/
structure Options where
  limits : Limits := {}
  /-- The address of the first byte. -/
  base : UInt32 := 0
  /-- Files whose functions are under limits of their own. -/
  fileLimits : Table Limits := ∅

/-- A named run of code. -/
structure Piece where
  name : Bytes
  code : Bytes
  deriving DecidableEq, Repr, Inhabited

end CodeArea

/-- The code area of a program. -/
structure CodeArea where
  /-- The code of all pieces, then the strings. -/
  text : Rope
  /-- The number of bytes of code. -/
  codeSize : Nat
  /-- The number of bytes of room for the global variables behind the text. -/
  bssSize : Int64
  /-- The names of the pieces in order. -/
  order : List Bytes
  /-- Where each piece starts in the text. -/
  offsets : Table Nat
  /-- The addresses of everything. -/
  symbols : Symbols
  deriving Repr, Inhabited

namespace CodeArea

/-! ## Pieces -/

/-- The piece of a routine. -/
def routinePiece (pass : Pass) (symbols : Symbols) (r : Routine) : Except Diagnostic Piece :=
  return ⟨r.name, ← r.emit pass symbols⟩

/-- The piece of a function, under the limits of its file. -/
def functionPiece (layout : Layout) (options : Options) (symbols : Symbols) (f : Function) :
    Except Diagnostic Piece :=
  match options.fileLimits.get? f.file with
  | some limits =>
    return ⟨f.name, Code.bytes (← Lowering.function f (layout.withLimits limits) limits symbols)⟩
  | none => return ⟨f.name, Code.bytes (← Lowering.function f layout options.limits symbols)⟩

/-- The pieces of a program, its routines first. -/
def pieces (p : Program) (routines : List Routine) (options : Options) (pass : Pass)
    (symbols : Symbols) : Except Diagnostic (List Piece) :=
  return (← routines.mapM (routinePiece pass symbols)) ++
    (← p.functions.mapM (functionPiece p.layout options symbols))

/-! ## Addresses -/

/-- A table of names that all stand for zero. -/
def zeros (names : List Bytes) : Table UInt32 :=
  names.foldl (fun t name => t.insert name 0) ∅

/-- The addresses of the sizing pass: everything has one, and all are zero. -/
def provisional (p : Program) (routines : List Routine) : Symbols where
  functions := zeros (routines.map (·.name) ++ p.functions.map (·.name))
  globals := zeros (p.globals.map (·.name))
  strings := p.strings.map fun _ => 0

/-- Where pieces start, the first of them at `offset`. -/
def starts (offset : Nat) : List Piece → List (Bytes × Nat)
  | [] => []
  | p :: ps => (p.name, offset) :: starts (offset + p.code.length) ps

/-- Where strings start, each with a zero byte behind it. -/
def stringStarts (offset : Nat) : List Bytes → List Nat
  | [] => []
  | s :: ss => offset :: stringStarts (offset + s.length + 1) ss

/-- Where global variables start in their room, and the number of bytes they take. -/
def globalStarts (l : Layout) (offset : Int64) :
    List GlobalVar → Except Layout.Fault (List (Bytes × Int64) × Int64)
  | [] => .ok ([], offset)
  | g :: gs => do
    let size ← l.size g.type
    let align ← l.alignment g.type
    let start := Layout.alignUp offset align
    let (rest, last) ← globalStarts l (start + size) gs
    return ((g.name, start) :: rest, last)

/-- A table of the last value under each name. -/
def tableOf {α : Type} (rows : List (Bytes × α)) : Table α :=
  rows.foldl (fun t row => t.insert row.1 row.2) ∅

/-- The string data: every string with a zero byte behind it. -/
def stringData (strings : List Bytes) : Bytes :=
  strings.flatMap (· ++ [0])

/-! ## Making code -/

/-- Checks that a piece has the size it was given. -/
def checkSize (sized final : Piece) : Except Diagnostic Unit :=
  if final.code.length == sized.code.length then .ok ()
  else
    .error {
      kind := .internal
      message := Bytes.say [final.name, " is ", .ofNat final.code.length,
        " bytes in the final pass but ", .ofNat sized.code.length, " when sized"] }

/-- The code area of a program with routines before it. -/
def emit (p : Program) (routines : List Routine) (options : Options) :
    Except Diagnostic CodeArea := do
  let sized ← pieces p routines options .sizing (provisional p routines)
  let offsets := starts 0 sized
  let codeSize := (sized.flatMap (·.code)).length
  let data := stringData p.strings
  let textSize := codeSize + data.length
  let bssStart := Layout.alignUp (.ofNat textSize) 8
  let (globals, bss) ← (globalStarts p.layout 0 p.globals).mapError Layout.Fault.diagnostic
  let address (offset : Nat) : UInt32 := options.base + .ofNat offset
  let symbols : Symbols := {
    functions := tableOf (offsets.map fun row => (row.1, address row.2))
    globals := tableOf (globals.map fun row =>
      (row.1, options.base + (bssStart + row.2).toUInt64.toUInt32))
    strings := (stringStarts codeSize p.strings).map address }
  let final ← pieces p routines options .final symbols
  for (a, b) in sized.zip final do
    checkSize a b
  return {
    text := .ofBytes (final.flatMap (·.code) ++ data)
    codeSize
    bssSize := bssStart - .ofNat textSize + bss
    order := sized.map (·.name)
    offsets := tableOf offsets
    symbols }

end CodeArea

end DirectC
