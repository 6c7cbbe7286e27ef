/-
# Hexadecimal listings

The code of a program, piece by piece: a heading with the address and the name, then the bytes,
sixteen to a line.
-/
import DirectC.CodeArea

namespace DirectC

namespace HexDump

/-- The number of bytes on a line. -/
def lineSize : Nat := 16

/-- Runs of at most sixteen bytes. The fuel is the number of bytes. -/
def chunks (fuel : Nat) (bytes : Bytes) : List Bytes :=
  match fuel, bytes with
  | _, [] => []
  | 0, _ => []
  | fuel + 1, bytes => bytes.take lineSize :: chunks fuel (bytes.drop lineSize)

/-- A line of bytes. -/
def line (bytes : Bytes) : Bytes :=
  Bytes.say ["  ", bytes.hexSpaced, "\n"]

/-- A heading. -/
def heading (address : UInt32) (name : Bytes) : Bytes :=
  Bytes.say [.hexDigits 8 address.toNat, " <", name, ">:\n"]

/-- The pieces of a code area in order: name, start and end. -/
def extents (a : CodeArea) : List (Bytes × Nat × Nat) :=
  let starts := a.order.map fun name => (a.offsets.get? name).getD 0
  (a.order.zip starts).zipWith (fun (name, start) stop => (name, start, stop))
    (starts.drop 1 ++ [a.codeSize])

/-- The listing of a piece. -/
def piece (a : CodeArea) (text : Bytes) (extent : Bytes × Nat × Nat) : Bytes :=
  let (name, start, stop) := extent
  let code := (text.take stop).drop start
  Bytes.say [heading ((a.symbols.functions.get? name).getD 0) name,
    (chunks code.length code).flatMap line]

/-- The listing of a code area. -/
def text (a : CodeArea) : Bytes :=
  (extents a).flatMap (piece a a.text.toBytes)

end HexDump

end DirectC
