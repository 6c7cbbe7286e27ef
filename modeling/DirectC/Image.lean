/-
# Executable images

A minimal executable: one file header, one program header, no sections. The program header maps
the whole file, with room behind it, to one segment that may be read, written and run. Code
starts right behind the headers.
-/
import DirectC.Rope

namespace DirectC

namespace Image

/-- The size of the file header. -/
def fileHeaderSize : Nat := 0x40

/-- The size of the program header. -/
def programHeaderSize : Nat := 0x38

/-- The size of both headers. -/
def headerSize : Nat := fileHeaderSize + programHeaderSize

/-- The size of a page of memory. -/
def pageSize : Nat := 0x1000

/-- The address that images are mapped at unless told otherwise. -/
def defaultBase : UInt64 := 0x400000

/-- The address of the first byte of code. -/
def codeAddress (base : UInt64) : UInt64 :=
  base + .ofNat headerSize

/-! ## Load addresses -/

/-- Why an image cannot be mapped at an address. -/
inductive BaseFault where
  | unaligned (base : UInt64)
  | outOfRange (base : UInt64)
  deriving DecidableEq, Repr, Inhabited

/-- The message of a fault. -/
def BaseFault.message : BaseFault → Bytes
  | .unaligned base =>
    Bytes.say ["load base ", .hexNumber base.toNat, " is not a multiple of ", .hexNumber pageSize]
  | .outOfRange base =>
    Bytes.say ["load base ", .hexNumber base.toNat, " must be nonzero and below 2 GiB"]

/-- Checks that an address is at the start of a page and that code behind it has addresses of 32
bits. -/
def checkBase (base : UInt64) : Except BaseFault Unit :=
  if base.toNat % pageSize != 0 then .error (.unaligned base)
  else if base.toNat == 0 || 0x80000000 ≤ base.toNat then .error (.outOfRange base)
  else .ok ()

/-! ## Headers -/

/-- The marks of the format: its name, 64-bit words, the least significant byte first, version
one. -/
def magic : Bytes :=
  [0x7f, 0x45, 0x4c, 0x46, 2, 1, 1, 0, 0, 0, 0, 0, 0, 0, 0, 0]

/-- Fields, each a number of bytes and a value. -/
def fields (rows : List (Nat × Nat)) : Bytes :=
  rows.flatMap fun row => Bytes.littleEndian row.1 row.2

/-- The fields of the file header behind its marks: an executable for this machine with one program
header. -/
def fileRows (entry : UInt64) : List (Nat × Nat) :=
  [(2, 2), (2, 62), (4, 1),
    (8, entry.toNat), (8, fileHeaderSize), (8, 0),
    (4, 0), (2, fileHeaderSize), (2, programHeaderSize), (2, 1), (2, 0), (2, 0), (2, 0)]

/-- The file header. -/
def fileHeader (entry : UInt64) : Bytes :=
  magic ++ fields (fileRows entry)

/-- The fields of the program header: a segment of `memSize` bytes at `base` with the `fileSize`
bytes of the file in front. -/
def programRows (base fileSize memSize : UInt64) : List (Nat × Nat) :=
  [(4, 1), (4, 7), (8, 0),
    (8, base.toNat), (8, base.toNat), (8, fileSize.toNat), (8, memSize.toNat), (8, pageSize)]

/-- The program header. -/
def programHeader (base fileSize memSize : UInt64) : Bytes :=
  fields (programRows base fileSize memSize)

/-- Both headers; the entry point is given as an offset in the code. -/
def header (base : UInt64) (entry fileSize memSize : Int64) : Bytes :=
  fileHeader (codeAddress base + entry.toUInt64) ++
    programHeader base fileSize.toUInt64 memSize.toUInt64

/-- The image of a text with `bss` bytes of room behind it. -/
def splice (base : UInt64) (text : Rope) (entry bss : Int64) : Rope :=
  let fileSize := .ofNat headerSize + text.size
  .ofBytes (header base entry fileSize (fileSize + bss) ++ text.toBytes)

end Image

end DirectC
