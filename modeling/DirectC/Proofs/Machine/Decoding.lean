/-
# Decoding

How the processor reads instructions from bytes: an optional prefix byte, an opcode of one or two
bytes, an operand byte with what belongs to it, and immediate bytes. `Action` is what an
instruction does, in terms of operands of any kind. `decode` follows the rules of the processor
for the opcodes that the compiler uses and knows no others.

Main statement: `decode_encode`, which says that the bytes of an instruction, whatever follows
them, are read as the action that the instruction stands for.
-/
import DirectC.Proofs.Machine.Memory

namespace DirectC

namespace Machine

/-! ## Actions -/

/-- Where an instruction finds or leaves a value: a register, or memory at a register and a
displacement. -/
inductive Operand where
  | reg (r : Register)
  | mem (base : Register) (disp : Word)
  deriving DecidableEq

/-- What an instruction reads: an operand or a constant. -/
inductive Source where
  | operand (o : Operand)
  | imm (v : Word)
  deriving DecidableEq

/-- Operations of the arithmetic unit. The last two set flags and nothing else. -/
inductive Arith where
  | add
  | sub
  | xor
  | cmp
  | test
  deriving DecidableEq

/-- What an instruction does. -/
inductive Action where
  | push (r : Register)
  | pop (r : Register)
  | arith (f : Arith) (w : Width) (dst : Operand) (src : Source)
  /-- Multiplies a whole register. -/
  | mul (dst : Register) (src : Operand)
  /-- Extends the sign of `rax` into `rdx`. -/
  | cqo
  /-- Divides `rdx` and `rax` together. -/
  | divide (src : Operand)
  | mov (w : Width) (dst : Operand) (src : Source)
  /-- Extends with the sign to a whole register. -/
  | movSigned (w : Width) (dst : Register) (src : Operand)
  /-- Extends a byte with zeros. -/
  | movZero (dst : Register) (src : Operand)
  | lea (dst base : Register) (disp : Word)
  | set (c : Condition) (dst : Operand)
  | jump (disp : Word)
  | jumpIf (c : Condition) (disp : Word)
  | call (target : Operand)
  | leave
  | ret
  | syscall
  deriving DecidableEq

/-! ## Reading operands -/

/-- What the prefix byte says: whether there is one, whether the operation is on whole registers,
and the fourth bits of the register numbers. -/
structure Rex where
  present : Bool := false
  wide : Bool := false
  reg : Bool := false
  rm : Bool := false

/-- The width of an operation that is not on bytes. -/
def Rex.width (p : Rex) : Width :=
  if p.wide then .qword else .dword

/-- The prefix byte, if there is one. Its second lowest bit belongs to index registers, which the
compiler does not use. -/
def readRex : Bytes → Option (Rex × Bytes)
  | [] => none
  | b :: rest =>
    let n := b.toNat
    if n / 16 = 4 then
      if n / 2 % 2 = 1 then none
      else some (⟨true, n / 8 % 2 = 1, n / 4 % 2 = 1, n % 2 = 1⟩, rest)
    else some ({}, b :: rest)

/-- The register with a fourth bit and three low bits. -/
def register (high : Bool) (low : Nat) : Register :=
  .ofNumber ((if high then 8 else 0) + low)

/-- A byte, extended with its sign. -/
def readByte : Bytes → Option (Word × Bytes)
  | b :: rest => some (b.toBitVec.signExtend 64, rest)
  | [] => none

/-- Four bytes, the lowest first. -/
def readDword : Bytes → Option (BitVec 32 × Bytes)
  | b0 :: b1 :: b2 :: b3 :: rest =>
    some (.ofNat 32 (b0.toNat + 256 * (b1.toNat + 256 * (b2.toNat + 256 * b3.toNat))), rest)
  | _ => none

/-- Four bytes, extended with their sign. -/
def readSigned (bytes : Bytes) : Option (Word × Bytes) := do
  let (v, rest) ← readDword bytes
  return (v.signExtend 64, rest)

/-- The base register of a memory operand. Number four announces one more byte, of which only the
form without an index is known here; number five without a displacement is no register. -/
def readBase (p : Rex) (mode low : Nat) (bytes : Bytes) : Option (Register × Bytes) :=
  if low = 4 then
    match bytes with
    | b :: rest =>
      let base := b.toNat % 8
      if b.toNat / 8 % 8 = 4 ∧ ¬ (mode = 0 ∧ base = 5) then some (register p.rm base, rest) else none
    | [] => none
  else if mode = 0 ∧ low = 5 then none
  else some (register p.rm low, bytes)

/-- The displacement of a memory operand. -/
def readDisp (mode : Nat) (bytes : Bytes) : Option (Word × Bytes) :=
  match mode with
  | 0 => some (0, bytes)
  | 1 => readByte bytes
  | _ => readSigned bytes

/-- The operand byte and what belongs to it: its middle bits, and an operand. -/
def readOperand (p : Rex) : Bytes → Option (Nat × Operand × Bytes)
  | [] => none
  | b :: rest =>
    let n := b.toNat
    let middle := n / 8 % 8
    if n / 64 = 3 then some (middle, .reg (register p.rm (n % 8)), rest)
    else do
      let (base, rest) ← readBase p (n / 64) (n % 8) rest
      let (disp, rest) ← readDisp (n / 64) rest
      return (middle, .mem base disp, rest)

/-- Whether an operand of one byte is the low byte of its register. Without a prefix byte the
numbers from four on stand for other bytes. -/
def isLowByte (p : Rex) : Operand → Bool
  | .reg r => p.present || r.number < 4
  | .mem .. => true

/-! ## Reading instructions -/

/-- The operations that opcodes with two operands select. -/
def Arith.ofOpcode? : Nat → Option Arith
  | 0x01 => some .add
  | 0x29 => some .sub
  | 0x31 => some .xor
  | 0x39 => some .cmp
  | 0x85 => some .test
  | _ => none

/-- The operations on a constant, by the middle bits of the operand byte. -/
def Arith.ofMiddle? : Nat → Option Arith
  | 0 => some .add
  | 5 => some .sub
  | _ => none

/-- The opcodes of one byte that have an operand byte. -/
def decodeOperands (p : Rex) (opcode : Nat) (bytes : Bytes) : Option (Action × Bytes) := do
  let (middle, o, rest) ← readOperand p bytes
  let r := register p.reg middle
  match opcode with
  | 0x63 => if p.wide then some (.movSigned .dword r o, rest) else none
  | 0x81 => do
    let f ← Arith.ofMiddle? middle
    let (v, rest) ← readSigned rest
    return (.arith f p.width o (.imm v), rest)
  | 0x83 => do
    let f ← Arith.ofMiddle? middle
    let (v, rest) ← readByte rest
    return (.arith f p.width o (.imm v), rest)
  | 0x88 =>
    if isLowByte p (.reg r) && isLowByte p o then
      some (.mov .byte o (.operand (.reg r)), rest)
    else none
  | 0x89 => some (.mov p.width o (.operand (.reg r)), rest)
  | 0x8b => some (.mov p.width (.reg r) (.operand o), rest)
  | 0x8d =>
    match o with
    | .mem base disp => if p.wide then some (.lea r base disp, rest) else none
    | .reg _ => none
  | 0xc7 => do
    let (v, rest) ← readSigned rest
    if middle = 0 then some (.mov p.width o (.imm v), rest) else none
  | 0xf7 => if p.wide ∧ middle = 7 then some (.divide o, rest) else none
  | 0xff => if middle = 2 then some (.call o, rest) else none
  | _ => do
    let f ← Arith.ofOpcode? opcode
    return (.arith f p.width o (.operand (.reg r)), rest)

/-- The opcodes of two bytes, by the second one. -/
def decodeSecond (p : Rex) : Bytes → Option (Action × Bytes)
  | [] => none
  | b :: rest =>
    let n := b.toNat
    if n = 0x05 then some (.syscall, rest)
    else do
      let (middle, o, rest) ← readOperand p rest
      let r := register p.reg middle
      if n / 16 = 9 then
        if isLowByte p o then some (.set ⟨(n % 16).toUInt8⟩ o, rest) else none
      else if n = 0xaf then
        if p.wide then some (.mul r o, rest) else none
      else if n = 0xb6 then
        if p.wide || !isLowByte p o then none else some (.movZero r o, rest)
      else if n = 0xbe then
        if p.wide && isLowByte p o then some (.movSigned .byte r o, rest) else none
      else none

/-- An opcode and what follows it. -/
def decodeOpcode (p : Rex) : Bytes → Option (Action × Bytes)
  | [] => none
  | b :: rest =>
    let n := b.toNat
    if n = 0x0f then decodeSecond p rest
    else if n / 8 = 10 then some (.push (register p.rm (n % 8)), rest)
    else if n / 8 = 11 then some (.pop (register p.rm (n % 8)), rest)
    else if n / 16 = 7 then do
      let (disp, rest) ← readByte rest
      return (.jumpIf ⟨(n % 16).toUInt8⟩ disp, rest)
    else if n / 8 = 23 then do
      let (v, rest) ← readDword rest
      if p.wide then none
      else some (.mov .dword (.reg (register p.rm (n % 8))) (.imm (v.setWidth 64)), rest)
    else if n = 0x99 then if p.wide then some (.cqo, rest) else none
    else if n = 0xc3 then some (.ret, rest)
    else if n = 0xc9 then some (.leave, rest)
    else if n = 0xeb then do
      let (disp, rest) ← readByte rest
      return (.jump disp, rest)
    else decodeOperands p n rest

/-- **The first instruction of some bytes**, and the bytes behind it. -/
def decode (bytes : Bytes) : Option (Action × Bytes) := do
  let (p, rest) ← readRex bytes
  decodeOpcode p rest

end Machine

/-! ## What the instructions of the compiler stand for -/

namespace Instr

open Machine (Word Operand Source Action)

/-- A register that is read. -/
def reading (r : Register) : Source :=
  .operand (.reg r)

/-- A signed number as a word. -/
def signed (n : Int32) : Word :=
  n.toBitVec.signExtend 64

/-- A signed distance as a word. -/
def near (n : Int8) : Word :=
  n.toBitVec.signExtend 64

/-- **What an instruction stands for.** -/
def action : Instr → Action
  | .push r => .push r
  | .pop r => .pop r
  | .subRsp n => .arith .sub .qword (.reg .rsp) (.imm (signed n))
  | .addRsp n => .arith .add .qword (.reg .rsp) (.imm (signed n))
  | .leave => .leave
  | .ret => .ret
  | .syscall => .syscall
  | .callRax => .call (.reg .rax)
  | .movImm r v => .mov .qword (.reg r) (.imm (signed v))
  | .movAddr r v => .mov .dword (.reg r) (.imm (v.toBitVec.setWidth 64))
  | .clear r => .arith .xor .dword (.reg r) (reading r)
  | .storeAtRax r disp => .mov .dword (.mem .rax (near disp)) (reading r)
  | .mov dst src => .mov .qword (.reg dst) (reading src)
  | .mov32 dst src => .mov .dword (.reg dst) (reading src)
  | .leaRsiStack disp => .lea .rsi .rsp (near disp)
  | .leaRdi offset => .lea .rdi .rbp (signed offset)
  | .loadRdi .byte => .movSigned .byte .rdi (.mem .rdi 0)
  | .loadRdi .dword => .movSigned .dword .rdi (.mem .rdi 0)
  | .loadRdi .qword => .mov .qword (.reg .rdi) (.operand (.mem .rdi 0))
  | .storeRdi w => .mov w (.mem .rax 0) (reading .rdi)
  | .storeSlot r offset w => .mov w (.mem .rbp (signed offset)) (reading r)
  | .extendRdi .byte => .movSigned .byte .rdi (.reg .rdi)
  | .extendRdi .dword => .movSigned .dword .rdi (.reg .rdi)
  | .extendRax .byte => .movSigned .byte .rdi (.reg .rax)
  | .extendRax .dword => .movSigned .dword .rdi (.reg .rax)
  | .addRdiRax => .arith .add .qword (.reg .rdi) (reading .rax)
  | .subRdiRax => .arith .sub .qword (.reg .rdi) (reading .rax)
  | .mulRdiRax => .mul .rdi (.reg .rax)
  | .addRdiRsi => .arith .add .qword (.reg .rdi) (reading .rsi)
  | .subRdiRsi => .arith .sub .qword (.reg .rdi) (reading .rsi)
  | .loadTop => .mov .qword (.reg .rdi) (.operand (.mem .rsp 0))
  | .cqo => .cqo
  | .divRdi => .divide (.reg .rdi)
  | .cmpRaxRdi => .arith .cmp .qword (.reg .rax) (reading .rdi)
  | .testRdi => .arith .test .qword (.reg .rdi) (reading .rdi)
  | .setAl c => .set c (.reg .rax)
  | .movEdiAl => .movZero .rdi (.reg .rax)
  | .jumpIf c disp => .jumpIf c (near disp)
  | .jump disp => .jump (near disp)

/-- A condition code has four bits; other codes cannot be encoded. -/
def isEncodable : Instr → Bool
  | .setAl c | .jumpIf c _ => c.code < 16
  | _ => true

end Instr

/-! ## Encoding and decoding -/

namespace Machine

variable {p : Rex} {rest : Bytes}

/-- The four bytes of a word are read back. -/
theorem readDword_word (v : UInt32) : readDword (Instr.word v ++ rest) = some (v.toBitVec, rest) := by
  have h := v.toNat_lt
  simp only [Instr.word, Bytes.littleEndian, List.cons_append, List.nil_append, readDword,
    Option.some.injEq, Prod.mk.injEq, and_true]
  apply BitVec.eq_of_toNat_eq
  simp
  omega

/-- The four bytes of a signed word are read back. -/
theorem readSigned_signedWord (v : Int32) :
    readSigned (Instr.signedWord v ++ rest) = some (Instr.signed v, rest) := by
  simp only [readSigned, Instr.signedWord, readDword_word]
  rfl

/-- The one byte of a short distance is read back. -/
theorem readByte_near (disp : Int8) :
    readByte (disp.toUInt8 :: rest) = some (Instr.near disp, rest) :=
  rfl

/-- One byte is enough for a number that fits into it. -/
theorem near_toInt8 {n : Int32} (h : Instr.fitsByte n) : Instr.near n.toInt8 = Instr.signed n := by
  have hb : -128 ≤ n.toInt ∧ n.toInt ≤ 127 := by
    simpa [Instr.fitsByte, Int32.le_iff_toInt_le] using h
  apply BitVec.eq_of_toInt_eq
  unfold Instr.near Instr.signed
  rw [BitVec.toInt_signExtend_of_le (by decide), BitVec.toInt_signExtend_of_le (by decide)]
  change n.toInt8.toInt = n.toInt
  rw [Int32.toInt_toInt8]
  exact Int.bmod_eq_of_le (by omega) (by omega)

/-- A register is read back from its number, which is split between the prefix and the operand. -/
theorem register_number (r : Register) : register r.isHigh (r.number % 8) = r := by
  cases r <;> rfl

/-- The prefix byte, or its absence, tells the fourth bits of the registers. -/
theorem readRex_rex (wide : Bool) (reg rm : Register) {b : UInt8} (rest : Bytes)
    (hb : b.toNat / 16 ≠ 4) :
    ∃ present, readRex (Instr.rex wide reg rm false ++ b :: rest) =
      some (⟨present, wide, reg.isHigh, rm.isHigh⟩, b :: rest) := by
  refine ⟨wide || reg.isHigh || rm.isHigh, ?_⟩
  unfold Instr.rex
  cases wide <;> cases reg.isHigh <;> cases rm.isHigh <;> simp [readRex, hb]

/-- The operand of two registers. -/
theorem readOperand_pair {reg rm : Register} :
    readOperand p (Instr.pair reg rm :: rest) =
      some (reg.number % 8, .reg (register p.rm (rm.number % 8)), rest) := by
  have hlow : ∀ r : Register, r.low.toNat = r.number % 8 := fun r => by cases r <;> rfl
  have hn : (Instr.pair reg rm).toNat = 192 + 8 * (reg.number % 8) + rm.number % 8 := by
    simp only [Instr.pair, UInt8.toNat_add, UInt8.toNat_mul, hlow, UInt8.reduceToNat]
    omega
  have hmode : (192 + 8 * (reg.number % 8) + rm.number % 8) / 64 = 3 := by omega
  have hmiddle : (192 + 8 * (reg.number % 8) + rm.number % 8) / 8 % 8 = reg.number % 8 := by omega
  have hrm : (192 + 8 * (reg.number % 8) + rm.number % 8) % 8 = rm.number % 8 := by omega
  rw [readOperand, hn, if_pos hmode, hmiddle, hrm]

/-- The copy of a register, whole or its lower half. -/
theorem decode_mov (wide : Bool) (dst src : Register) :
    decode (Instr.rex wide src dst false ++ [0x89, Instr.pair src dst] ++ rest) =
      some (.mov (if wide then .qword else .dword) (.reg dst) (Instr.reading src), rest) := by
  obtain ⟨present, hrex⟩ := readRex_rex wide src dst (b := 0x89) (Instr.pair src dst :: rest)
    (by decide)
  rw [List.append_assoc, decode]
  change (readRex (Instr.rex wide src dst false ++ 0x89 :: Instr.pair src dst :: rest)).bind _ = _
  rw [hrex]
  change decodeOperands ⟨present, wide, src.isHigh, dst.isHigh⟩ 0x89 _ = _
  rw [decodeOperands, readOperand_pair]
  simp [register_number, Rex.width, Instr.reading]

/-- The operand of a register and a frame slot. -/
theorem readOperand_slot {reg : Register} {offset : Int32} (hp : p.rm = false) :
    readOperand p (Instr.slot reg offset ++ rest) =
      some (reg.number % 8, .mem .rbp (Instr.signed offset), rest) := by
  have hbase : register p.rm 5 = .rbp := by rw [hp]; rfl
  unfold Instr.slot
  split
  · rename_i hf
    rw [← near_toInt8 hf]
    have hread : readOperand p ([0x45 + 8 * reg.low, offset.toInt8.toUInt8] ++ rest) =
        some (reg.number % 8, .mem (register p.rm 5) (Instr.near offset.toInt8), rest) := by
      cases reg <;> rfl
    rw [hread, hbase]
  · have hread : readOperand p ((0x85 + 8 * reg.low) :: Instr.signedWord offset ++ rest) =
        (readSigned (Instr.signedWord offset ++ rest)).bind fun v =>
          some (reg.number % 8, .mem (register p.rm 5) v.1, v.2) := by
      cases reg <;> rfl
    rw [hread, hbase, readSigned_signedWord]
    rfl

/-- Both adjustments of the stack pointer are read back. -/
theorem decode_adjustRsp {select : UInt8} {f : Arith} {n : Int32}
    (hs : select = 0xec ∧ f = .sub ∨ select = 0xc4 ∧ f = .add) :
    decode (Instr.adjustRsp select n ++ rest) =
      some (.arith f .qword (.reg .rsp) (.imm (Instr.signed n)), rest) := by
  unfold Instr.adjustRsp
  split
  · rename_i hf
    rw [← near_toInt8 hf]
    rcases hs with ⟨rfl, rfl⟩ | ⟨rfl, rfl⟩ <;> rfl
  · have hread : decode ([0x48, 0x81, select] ++ Instr.signedWord n ++ rest) =
        (readSigned (Instr.signedWord n ++ rest)).bind fun v =>
          some (.arith f .qword (.reg .rsp) (.imm v.1), v.2) := by
      rcases hs with ⟨rfl, rfl⟩ | ⟨rfl, rfl⟩ <;> rfl
    rw [hread, readSigned_signedWord]
    rfl

theorem decode_movImm (r : Register) (v : Int32) :
    decode ((Instr.movImm r v).encode ++ rest) = some ((Instr.movImm r v).action, rest) := by
  have hread : decode ((Instr.movImm r v).encode ++ rest) =
      (readSigned (Instr.signedWord v ++ rest)).bind fun x =>
        some (.mov .qword (.reg r) (.imm x.1), x.2) := by
    cases r <;> rfl
  rw [hread, readSigned_signedWord]
  rfl

theorem decode_movAddr (r : Register) (v : UInt32) :
    decode ((Instr.movAddr r v).encode ++ rest) = some ((Instr.movAddr r v).action, rest) := by
  have hread : decode ((Instr.movAddr r v).encode ++ rest) =
      (readDword (Instr.word v ++ rest)).bind fun x =>
        some (.mov .dword (.reg r) (.imm (x.1.setWidth 64)), x.2) := by
    cases r <;> rfl
  rw [hread, readDword_word]
  rfl

/-- The prefix byte of a store into a frame slot. -/
def slotRex (r : Register) (w : Width) : Rex :=
  ⟨w == .qword || r.isHigh || w == .byte && 4 ≤ r.number, w == .qword, r.isHigh, false⟩

theorem decode_storeSlot (r : Register) (offset : Int32) (w : Width) :
    decode ((Instr.storeSlot r offset w).encode ++ rest) =
      some ((Instr.storeSlot r offset w).action, rest) := by
  have hrex : readRex ((Instr.storeSlot r offset w).encode ++ rest) =
      some (slotRex r w, (if w = .byte then 0x88 else 0x89) :: (Instr.slot r offset ++ rest)) := by
    cases w <;> cases r <;> rfl
  have hopcode : decode ((Instr.storeSlot r offset w).encode ++ rest) =
      decodeOperands (slotRex r w) (if w = .byte then 0x88 else 0x89)
        (Instr.slot r offset ++ rest) := by
    rw [decode, hrex]
    cases w <;> rfl
  rw [hopcode, decodeOperands, readOperand_slot rfl]
  cases w <;> cases r <;> rfl

theorem decode_leaRdi (offset : Int32) :
    decode ((Instr.leaRdi offset).encode ++ rest) = some ((Instr.leaRdi offset).action, rest) := by
  have hread : decode ((Instr.leaRdi offset).encode ++ rest) =
      decodeOperands ⟨true, true, false, false⟩ 0x8d (Instr.slot .rdi offset ++ rest) := rfl
  rw [hread, decodeOperands, readOperand_slot rfl]
  rfl

/-- A condition code stands in the lowest four bits of its byte. -/
theorem toNat_or_code {b : UInt8} {c : Condition} (hb : b.toNat % 16 = 0) (hc : c.code < 16) :
    (b ||| c.code).toNat = b.toNat + c.code.toNat := by
  have hc' : c.code.toNat < 16 := hc
  have hor : b.toNat / 16 * 2 ^ 4 ||| c.code.toNat = b.toNat / 16 * 2 ^ 4 + c.code.toNat := by
    rw [Nat.mul_comm]
    exact (Nat.two_pow_add_eq_or_of_lt hc' _).symm
  have hsplit : b.toNat / 16 * 2 ^ 4 = b.toNat := by omega
  rw [UInt8.toNat_or, ← hsplit, hor]

/-- Jumps are read back on every condition. -/
theorem decode_jumpIf {c : Condition} (disp : Int8) (hc : c.code < 16) :
    decode ((Instr.jumpIf c disp).encode ++ rest) = some ((Instr.jumpIf c disp).action, rest) := by
  have hn : (0x70 ||| c.code : UInt8).toNat = 0x70 + c.code.toNat := toNat_or_code rfl hc
  have hc' : c.code.toNat < 16 := hc
  have hcode : (0x70 + c.code.toNat) % 16 = c.code.toNat := by omega
  have h4 : ¬ (0x70 + c.code.toNat) / 16 = 4 := by omega
  have h7 : (0x70 + c.code.toNat) / 16 = 7 := by omega
  have h8 : (0x70 + c.code.toNat) / 8 ≠ 10 ∧ (0x70 + c.code.toNat) / 8 ≠ 11 := by omega
  have h15 : ¬ 0x70 + c.code.toNat = 15 := by omega
  simp only [Instr.encode, List.cons_append, List.nil_append, decode, readRex, hn, h4, if_false,
    bind, Option.bind]
  simp [decodeOpcode, hn, h7, h8, h15, hcode, readByte_near, Instr.action]

/-- The truth value of every condition is read back. -/
theorem decode_setAl {c : Condition} (hc : c.code < 16) :
    decode ((Instr.setAl c).encode ++ rest) = some ((Instr.setAl c).action, rest) := by
  have hn : (0x90 ||| c.code : UInt8).toNat = 0x90 + c.code.toNat := toNat_or_code rfl hc
  have hc' : c.code.toNat < 16 := hc
  have hcode : (0x90 + c.code.toNat) % 16 = c.code.toNat := by omega
  have h9 : (0x90 + c.code.toNat) / 16 = 9 := by omega
  have h5 : ¬ 0x90 + c.code.toNat = 5 := by omega
  have hread : decode ((Instr.setAl c).encode ++ rest) =
      decodeSecond {} ((0x90 ||| c.code) :: 0xc0 :: rest) := rfl
  have hoperand : readOperand {} (0xc0 :: rest) = some (0, .reg .rax, rest) := rfl
  rw [hread, decodeSecond, hoperand]
  simp [hn, h5, h9, hcode, isLowByte, Register.number, Instr.action]

/-- **Encoding and decoding.** The bytes of an instruction, whatever follows them, are read as what
the instruction stands for. -/
theorem decode_encode {i : Instr} (hi : i.isEncodable) :
    decode (i.encode ++ rest) = some (i.action, rest) := by
  cases i with
  | push r | pop r | clear r | storeAtRax r => cases r <;> rfl
  | subRsp n => exact decode_adjustRsp (.inl ⟨rfl, rfl⟩)
  | addRsp n => exact decode_adjustRsp (.inr ⟨rfl, rfl⟩)
  | movImm r v => exact decode_movImm r v
  | movAddr r v => exact decode_movAddr r v
  | mov dst src => exact decode_mov true dst src
  | mov32 dst src => exact decode_mov false dst src
  | leaRdi offset => exact decode_leaRdi offset
  | storeSlot r offset w => exact decode_storeSlot r offset w
  | setAl c => exact decode_setAl (of_decide_eq_true hi)
  | jumpIf c disp => exact decode_jumpIf disp (of_decide_eq_true hi)
  | loadRdi w | storeRdi w | extendRdi w | extendRax w => cases w <;> rfl
  | _ => rfl

end Machine

end DirectC
