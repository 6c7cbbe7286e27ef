/-
# Instructions

The instructions that the compiler emits, and the bytes of each. An instruction is an optional
prefix byte, an opcode, and operand bytes; an offset from the frame pointer takes one byte if it
fits and four otherwise, absolute addresses always take four.
-/
import DirectC.Machine.Register

namespace DirectC

/-! ## Operands -/

/-- The widths of loads and stores. -/
inductive Width where
  | byte
  | dword
  | qword
  deriving DecidableEq, Repr, Inhabited

namespace Width

/-- The number of bytes. -/
def size : Width → Nat
  | .byte => 1
  | .dword => 4
  | .qword => 8

/-- The width of a number of bytes. -/
def ofSize? (size : Int64) : Option Width :=
  if size == 1 then some .byte
  else if size == 4 then some .dword
  else if size == 8 then some .qword
  else none

end Width

/-- The widths that are extended to the whole register. -/
inductive Narrow where
  | byte
  | dword
  deriving DecidableEq, Repr, Inhabited

/-- A condition code: what a jump or a set instruction looks for in the flags. -/
structure Condition where
  code : UInt8
  deriving DecidableEq, Repr, Inhabited

namespace Condition

/-- Equal, or zero. -/
def equal : Condition := ⟨0x4⟩

/-- Not equal, or not zero. -/
def notEqual : Condition := ⟨0x5⟩

/-- Less, as signed numbers. -/
def less : Condition := ⟨0xc⟩

/-- Less or equal, as signed numbers. -/
def lessEqual : Condition := ⟨0xe⟩

end Condition

/-! ## Instructions -/

/-- The instructions. -/
inductive Instr where
  /-- Pushes a register. -/
  | push (r : Register)
  /-- Pops into a register. -/
  | pop (r : Register)
  /-- Lowers the stack pointer. -/
  | subRsp (n : Int32)
  /-- Raises the stack pointer. -/
  | addRsp (n : Int32)
  /-- Takes down the frame. -/
  | leave
  /-- Returns. -/
  | ret
  /-- Calls the system. -/
  | syscall
  /-- Calls the address in `rax`. -/
  | callRax
  /-- Sets a register to a constant, extended with its sign. -/
  | movImm (r : Register) (value : Int32)
  /-- Sets a register to an address, extended with zeros. -/
  | movAddr (r : Register) (value : UInt32)
  /-- Clears a register. -/
  | clear (r : Register)
  /-- Stores the lower half of a register at `rax` and a displacement. -/
  | storeAtRax (r : Register) (disp : Int8)
  /-- Copies a register. -/
  | mov (dst src : Register)
  /-- Copies the lower half of a register and clears the upper half. -/
  | mov32 (dst src : Register)
  /-- Sets `rsi` to the address of a stack word. -/
  | leaRsiStack (disp : Int8)
  /-- Sets `rdi` to the address of a frame slot. -/
  | leaRdi (offset : Int32)
  /-- Replaces the address in `rdi` by what is there, extended with its sign. -/
  | loadRdi (w : Width)
  /-- Stores the low bytes of `rdi` at the address in `rax`. -/
  | storeRdi (w : Width)
  /-- Stores the low bytes of a register in a frame slot. -/
  | storeSlot (r : Register) (offset : Int32) (w : Width)
  /-- Extends the low bytes of `rdi` over the register. -/
  | extendRdi (w : Narrow)
  /-- Extends the low bytes of `rax` into `rdi`. -/
  | extendRax (w : Narrow)
  /-- Adds `rax` to `rdi`. -/
  | addRdiRax
  /-- Subtracts `rax` from `rdi`. -/
  | subRdiRax
  /-- Multiplies `rdi` by `rax`. -/
  | mulRdiRax
  /-- Adds `rsi` to `rdi`. -/
  | addRdiRsi
  /-- Subtracts `rsi` from `rdi`. -/
  | subRdiRsi
  /-- Copies the top of the stack to `rdi`. -/
  | loadTop
  /-- Extends the sign of `rax` into `rdx`. -/
  | cqo
  /-- Divides by `rdi`: the quotient goes to `rax`, the remainder to `rdx`. -/
  | divRdi
  /-- Compares `rax` with `rdi`. -/
  | cmpRaxRdi
  /-- Compares `rdi` with zero. -/
  | testRdi
  /-- Sets the low byte of `rax` to the truth of a condition. -/
  | setAl (c : Condition)
  /-- Sets `rdi` to the low byte of `rax`. -/
  | movEdiAl
  /-- Jumps over so many bytes if a condition holds. -/
  | jumpIf (c : Condition) (disp : Int8)
  /-- Jumps over so many bytes. -/
  | jump (disp : Int8)
  deriving DecidableEq, Repr, Inhabited

/-- Machine code. -/
abbrev Code := List Instr

namespace Instr

/-! ## Bytes -/

/-- The four bytes of an address. -/
def word (v : UInt32) : Bytes :=
  Bytes.littleEndian 4 v.toNat

/-- The four bytes of a signed number. -/
def signedWord (v : Int32) : Bytes :=
  word v.toUInt32

/-- A number that one byte holds. -/
def fitsByte (n : Int32) : Bool :=
  -128 ≤ n && n ≤ 127

/-- The prefix byte: whether the operation is on whole registers, and the fourth bits of the two
registers. It is left out if it would say nothing, unless it is forced. -/
def rex (wide : Bool) (reg rm : Register) (force : Bool) : Bytes :=
  let bits : UInt8 :=
    (if wide then 8 else 0) + (if reg.isHigh then 4 else 0) + (if rm.isHigh then 1 else 0)
  if bits == 0 && !force then [] else [0x40 + bits]

/-- The operand byte of two registers. -/
def pair (reg rm : Register) : UInt8 :=
  0xc0 + 8 * reg.low + rm.low

/-- The operand bytes of a register and a frame slot. -/
def slot (reg : Register) (offset : Int32) : Bytes :=
  if fitsByte offset then [0x45 + 8 * reg.low, offset.toInt8.toUInt8]
  else (0x85 + 8 * reg.low) :: signedWord offset

/-- An operation on the stack pointer, by the byte that selects it. -/
def adjustRsp (select : UInt8) (n : Int32) : Bytes :=
  if fitsByte n then [0x48, 0x83, select, n.toInt8.toUInt8]
  else [0x48, 0x81, select] ++ signedWord n

/-- The bytes of an instruction. -/
def encode : Instr → Bytes
  | .push r => rex false .rax r false ++ [0x50 + r.low]
  | .pop r => rex false .rax r false ++ [0x58 + r.low]
  | .subRsp n => adjustRsp 0xec n
  | .addRsp n => adjustRsp 0xc4 n
  | .leave => [0xc9]
  | .ret => [0xc3]
  | .syscall => [0x0f, 0x05]
  | .callRax => [0xff, 0xd0]
  | .movImm r v => rex true .rax r false ++ [0xc7, 0xc0 + r.low] ++ signedWord v
  | .movAddr r v => rex false .rax r false ++ [0xb8 + r.low] ++ word v
  | .clear r => rex false r r false ++ [0x31, pair r r]
  | .storeAtRax r disp => rex false r .rax false ++ [0x89, 0x40 + 8 * r.low, disp.toUInt8]
  | .mov dst src => rex true src dst false ++ [0x89, pair src dst]
  | .mov32 dst src => rex false src dst false ++ [0x89, pair src dst]
  | .leaRsiStack disp => [0x48, 0x8d, 0x74, 0x24, disp.toUInt8]
  | .leaRdi offset => [0x48, 0x8d] ++ slot .rdi offset
  | .loadRdi .byte => [0x48, 0x0f, 0xbe, 0x3f]
  | .loadRdi .dword => [0x48, 0x63, 0x3f]
  | .loadRdi .qword => [0x48, 0x8b, 0x3f]
  | .storeRdi .byte => [0x40, 0x88, 0x38]
  | .storeRdi .dword => [0x89, 0x38]
  | .storeRdi .qword => [0x48, 0x89, 0x38]
  | .storeSlot r offset .byte => rex false r .rax (4 ≤ r.number) ++ [0x88] ++ slot r offset
  | .storeSlot r offset .dword => rex false r .rax false ++ [0x89] ++ slot r offset
  | .storeSlot r offset .qword => rex true r .rax false ++ [0x89] ++ slot r offset
  | .extendRdi .byte => [0x48, 0x0f, 0xbe, 0xff]
  | .extendRdi .dword => [0x48, 0x63, 0xff]
  | .extendRax .byte => [0x48, 0x0f, 0xbe, 0xf8]
  | .extendRax .dword => [0x48, 0x63, 0xf8]
  | .addRdiRax => [0x48, 0x01, 0xc7]
  | .subRdiRax => [0x48, 0x29, 0xc7]
  | .mulRdiRax => [0x48, 0x0f, 0xaf, 0xf8]
  | .addRdiRsi => [0x48, 0x01, 0xf7]
  | .subRdiRsi => [0x48, 0x29, 0xf7]
  | .loadTop => [0x48, 0x8b, 0x3c, 0x24]
  | .cqo => [0x48, 0x99]
  | .divRdi => [0x48, 0xf7, 0xff]
  | .cmpRaxRdi => [0x48, 0x39, 0xf8]
  | .testRdi => [0x48, 0x85, 0xff]
  | .setAl c => [0x0f, 0x90 ||| c.code, 0xc0]
  | .movEdiAl => [0x0f, 0xb6, 0xf8]
  | .jumpIf c disp => [0x70 ||| c.code, disp.toUInt8]
  | .jump disp => [0xeb, disp.toUInt8]

/-- The number of bytes of an instruction. -/
def size (i : Instr) : Nat :=
  i.encode.length

/-- The number of bytes of every jump. -/
def jumpSize : Nat := 2

/-! ## Short sequences -/

/-- Sets up a frame of `n` bytes. -/
def enter (n : Int32) : Code :=
  [.push .rbp, .mov .rbp .rsp, .subRsp n]

/-- Extends the low `size` bytes of `rdi` over the register, if they are not all of it. -/
def extend (size : Int64) : Code :=
  if size == 1 then [.extendRdi .byte] else if size == 4 then [.extendRdi .dword] else []

/-- Takes the result of a call, of `size` bytes, from `rax` to `rdi`. -/
def takeResult (size : Int64) : Code :=
  if size == 1 then [.extendRax .byte]
  else if size == 4 then [.extendRax .dword]
  else [.mov .rdi .rax]

/-- Returns zero. -/
def returnZero : Code :=
  [.clear .rax, .leave, .ret]

end Instr

/-! ## Code -/

namespace Code

/-- The bytes of code. -/
def bytes (c : Code) : Bytes :=
  c.flatMap Instr.encode

/-- The number of bytes of code. -/
def size : Code → Nat
  | [] => 0
  | i :: is => i.size + size is

end Code

end DirectC
