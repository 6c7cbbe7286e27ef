/-
# Laws of images

An image is its headers with the text behind them, and the fields of the headers read back what
was put in (`read_fileHeader`, `read_programHeader`). A field is a number of bytes at an offset, its
lowest byte first; `FileHeader.read` and `Segment.read` take the fields of the two kinds of headers
from the places that the format gives them, and `segments` goes from the file header to the program
headers that it announces.
-/
import DirectC.Image
import DirectC.Proofs.Basic
import DirectC.Proofs.Rope
import Mathlib.Algebra.GroupWithZero.Nat

namespace DirectC

/-! ## Numbers in bytes -/

/-- The number that bytes make up, the lowest one first. -/
def Bytes.number : Bytes → Nat
  | [] => 0
  | b :: bs => b.toNat + 256 * number bs

/-- A number is read back, as far as its bytes go. -/
theorem Bytes.number_littleEndian (width n : Nat) :
    Bytes.number (Bytes.littleEndian width n) = n % 256 ^ width := by
  induction width generalizing n with
  | zero => simp [Bytes.littleEndian, Bytes.number, Nat.mod_one]
  | succ width ih =>
    rw [Bytes.littleEndian, Bytes.number, ih, Nat.pow_succ', Nat.mod_mul]
    simp

namespace Image

/-! ## Fields -/

/-- The number in the bytes of a field. -/
def field (image : Bytes) (offset width : Nat) : Nat :=
  Bytes.number ((image.drop offset).take width)

/-- Fields take the bytes that their widths say. -/
theorem length_fields (rows : List (Nat × Nat)) :
    (fields rows).length = (rows.map (·.1)).sum := by
  simp [fields, Bytes.length_littleEndian]

/-- The number of bytes of the first rows. -/
def offsetOf (rows : List (Nat × Nat)) (i : Nat) : Nat :=
  ((rows.take i).map (·.1)).sum

/-- **A field behind the rows before it reads back the value of its row.** -/
theorem field_offsetOf (front back : Bytes) {rows : List (Nat × Nat)} (i : Nat) {width n : Nat}
    (h : rows[i]? = some (width, n)) :
    field (front ++ fields rows ++ back) (front.length + offsetOf rows i) width =
      n % 256 ^ width := by
  obtain ⟨hi, hrow⟩ := List.getElem?_eq_some_iff.mp h
  have hrows : rows = rows.take i ++ (width, n) :: rows.drop (i + 1) := by
    rw [← hrow, List.getElem_cons_drop, List.take_append_drop]
  have hsplit : front ++ fields rows ++ back = (front ++ fields (rows.take i)) ++
      (Bytes.littleEndian width n ++ (fields (rows.drop (i + 1)) ++ back)) := by
    conv_lhs => rw [hrows]
    simp [fields]
  have hlen : front.length + offsetOf rows i = (front ++ fields (rows.take i)).length := by
    rw [List.length_append, length_fields, offsetOf]
  rw [field, hsplit, hlen, List.drop_left, List.take_left' (Bytes.length_littleEndian _ _),
    Bytes.number_littleEndian]

theorem field_word (n : UInt64) : n.toNat % 256 ^ 8 = n.toNat :=
  Nat.mod_eq_of_lt n.toNat_lt

/-! ## Load addresses -/

/-- A load address is the start of a page, not zero and below 2^31. -/
theorem checkBase_ok {base : UInt64} :
    checkBase base = .ok () ↔ base.toNat % pageSize = 0 ∧ base.toNat ≠ 0 ∧ base.toNat < 2 ^ 31 := by
  unfold checkBase
  split <;> rename_i h
  · have h' : base.toNat % pageSize ≠ 0 := by simpa using h
    simp [h']
  · split <;> rename_i h'
    · simp only [Bool.or_eq_true, beq_iff_eq, decide_eq_true_eq] at h'
      simp only [reduceCtorEq, false_iff, not_and, Nat.not_lt]
      intro _ h0
      omega
    · simp only [Bool.or_eq_true, beq_iff_eq, decide_eq_true_eq, not_or] at h'
      simp only [bne_iff_ne, ne_eq, Decidable.not_not] at h
      simp only [true_iff]
      omega

/-! ## Reading headers -/

/-- A file header. -/
structure FileHeader where
  ident : Bytes
  type : Nat
  machine : Nat
  version : Nat
  entry : Nat
  /-- Where the program headers start. -/
  programOffset : Nat
  /-- Where the section headers start. -/
  sectionOffset : Nat
  flags : Nat
  /-- The number of bytes of this header. -/
  size : Nat
  programSize : Nat
  programCount : Nat
  sectionSize : Nat
  sectionCount : Nat
  /-- The section with the names of sections. -/
  sectionNames : Nat
  deriving DecidableEq

/-- The file header that bytes start with. -/
def FileHeader.read (bytes : Bytes) : FileHeader where
  ident := bytes.take 0x10
  type := field bytes 0x10 2
  machine := field bytes 0x12 2
  version := field bytes 0x14 4
  entry := field bytes 0x18 8
  programOffset := field bytes 0x20 8
  sectionOffset := field bytes 0x28 8
  flags := field bytes 0x30 4
  size := field bytes 0x34 2
  programSize := field bytes 0x36 2
  programCount := field bytes 0x38 2
  sectionSize := field bytes 0x3a 2
  sectionCount := field bytes 0x3c 2
  sectionNames := field bytes 0x3e 2

/-- A program header: a part of the file, and the memory that it is mapped to. -/
structure Segment where
  type : Nat
  flags : Nat
  offset : Nat
  address : Nat
  physicalAddress : Nat
  fileSize : Nat
  memSize : Nat
  align : Nat
  deriving DecidableEq

/-- The program header at an offset. -/
def Segment.read (bytes : Bytes) (start : Nat) : Segment where
  type := field bytes start 4
  flags := field bytes (start + 0x04) 4
  offset := field bytes (start + 0x08) 8
  address := field bytes (start + 0x10) 8
  physicalAddress := field bytes (start + 0x18) 8
  fileSize := field bytes (start + 0x20) 8
  memSize := field bytes (start + 0x28) 8
  align := field bytes (start + 0x30) 8

/-- The file header reads back its fields, whatever comes behind it. -/
theorem read_fileHeader (entry : UInt64) (back : Bytes) :
    FileHeader.read (fileHeader entry ++ back) =
      { ident := magic, type := 2, machine := 62, version := 1, entry := entry.toNat
        programOffset := fileHeaderSize, sectionOffset := 0, flags := 0, size := fileHeaderSize
        programSize := programHeaderSize, programCount := 1, sectionSize := 0, sectionCount := 0
        sectionNames := 0 } := by
  have row {width n : Nat} (i : Nat) (h : (fileRows entry)[i]? = some (width, n)) :
      field (fileHeader entry ++ back) (magic.length + offsetOf (fileRows entry) i) width =
        n % 256 ^ width :=
    field_offsetOf magic back i h
  simp only [FileHeader.read, FileHeader.mk.injEq]
  refine ⟨?_, row 0 rfl, row 1 rfl, row 2 rfl, (row 3 rfl).trans (field_word entry), row 4 rfl,
    row 5 rfl, row 6 rfl, row 7 rfl, row 8 rfl, row 9 rfl, row 10 rfl, row 11 rfl, row 12 rfl⟩
  rw [fileHeader, List.append_assoc]
  exact List.take_left' rfl

/-- The program header reads back its fields, whatever stands around it. -/
theorem read_programHeader (front back : Bytes) (base fileSize memSize : UInt64) :
    Segment.read (front ++ programHeader base fileSize memSize ++ back) front.length =
      { type := 1, flags := 7, offset := 0, address := base.toNat, physicalAddress := base.toNat
        fileSize := fileSize.toNat, memSize := memSize.toNat, align := pageSize } := by
  have row {width n : Nat} (i : Nat)
      (h : (programRows base fileSize memSize)[i]? = some (width, n)) :
      field (front ++ programHeader base fileSize memSize ++ back)
        (front.length + offsetOf (programRows base fileSize memSize) i) width =
          n % 256 ^ width :=
    field_offsetOf front back i h
  simp only [Segment.read, Segment.mk.injEq]
  exact ⟨row 0 rfl, row 1 rfl, row 2 rfl, (row 3 rfl).trans (field_word base),
    (row 4 rfl).trans (field_word base), (row 5 rfl).trans (field_word fileSize),
    (row 6 rfl).trans (field_word memSize), row 7 rfl⟩

/-! ## Images -/

/-- The address that the file header starts at. -/
def entryPoint (image : Bytes) : Nat :=
  field image 0x18 8

/-- The number of bytes of the file that the program header maps. -/
def fileSize (image : Bytes) : Nat :=
  field image (fileHeaderSize + 0x20) 8

/-- The number of bytes of memory that the program header asks for. -/
def memSize (image : Bytes) : Nat :=
  field image (fileHeaderSize + 0x28) 8

variable {base : UInt64} {text : Rope} {entry bss : Int64}

theorem length_fileHeader (entry : UInt64) : (fileHeader entry).length = fileHeaderSize := by
  rw [fileHeader, List.length_append, length_fields]
  rfl

theorem length_header (fileSize memSize : Int64) :
    (header base entry fileSize memSize).length = headerSize := by
  rw [header, List.length_append, length_fileHeader, programHeader, length_fields]
  rfl

/-- **An image is its headers with the text behind them.** -/
theorem toBytes_splice : (splice base text entry bss).toBytes =
    header base entry (.ofNat (headerSize + text.length))
      (.ofNat (headerSize + text.length) + bss) ++ text.toBytes := by
  simp only [splice, Rope.toBytes_ofBytes, Rope.size_eq, Int64.ofNat_add]

/-- The text can be joined to the headers as it is, if its bytes can be counted in a word. -/
theorem toBytes_header_join (h : text.length < 2 ^ 64) (fileSize memSize : Int64) :
    ((Rope.ofBytes (header base entry fileSize memSize)).join text).toBytes =
      header base entry fileSize memSize ++ text.toBytes := by
  rw [Rope.toBytes_join (by rw [Rope.length_ofBytes, length_header]; decide) h,
    Rope.toBytes_ofBytes]

/-- What the text holds stands behind the headers. -/
theorem drop_splice (offset : Nat) :
    (splice base text entry bss).toBytes.drop (headerSize + offset) = text.toBytes.drop offset := by
  rw [toBytes_splice, ← List.drop_drop, List.drop_left' (length_header _ _)]

/-- An image is its headers and its text. -/
theorem length_splice : (splice base text entry bss).toBytes.length =
    headerSize + text.length := by
  rw [toBytes_splice, List.length_append, length_header, Rope.length]

/-- The file header of an image. -/
theorem entryPoint_splice : entryPoint (splice base text entry bss).toBytes =
    (codeAddress base + entry.toUInt64).toNat := by
  change (FileHeader.read (splice base text entry bss).toBytes).entry = _
  rw [toBytes_splice, header, List.append_assoc, read_fileHeader]

/-- The program header of an image. -/
theorem segment_splice : Segment.read (splice base text entry bss).toBytes fileHeaderSize =
    { type := 1, flags := 7, offset := 0, address := base.toNat, physicalAddress := base.toNat
      fileSize := (Int64.ofNat (headerSize + text.length)).toUInt64.toNat
      memSize := (Int64.ofNat (headerSize + text.length) + bss).toUInt64.toNat
      align := pageSize } := by
  rw [toBytes_splice, header, ← length_fileHeader (codeAddress base + entry.toUInt64),
    read_programHeader]

/-- The header has the size of the file. -/
theorem fileSize_splice : fileSize (splice base text entry bss).toBytes =
    (Int64.ofNat (headerSize + text.length)).toUInt64.toNat :=
  congrArg Segment.fileSize segment_splice

/-- The header has the size in memory, with the room for variables. -/
theorem memSize_splice : memSize (splice base text entry bss).toBytes =
    (Int64.ofNat (headerSize + text.length) + bss).toUInt64.toNat :=
  congrArg Segment.memSize segment_splice

end Image

end DirectC
