/-
# Registers

The sixteen general registers, with the numbers that instructions select them by. A number takes
four bits in an instruction: three in the operand byte and one in the prefix byte before it.
-/
import DirectC.Bytes

namespace DirectC

/-- The general registers. -/
inductive Register where
  | rax
  | rcx
  | rdx
  | rbx
  | rsp
  | rbp
  | rsi
  | rdi
  | r8
  | r9
  | r10
  | r11
  | r12
  | r13
  | r14
  | r15
  deriving DecidableEq, Repr, Inhabited

namespace Register

/-- The registers in the order of their numbers. -/
def all : List Register :=
  [.rax, .rcx, .rdx, .rbx, .rsp, .rbp, .rsi, .rdi, .r8, .r9, .r10, .r11, .r12, .r13, .r14, .r15]

/-- The number of a register. -/
def number : Register → Nat
  | .rax => 0
  | .rcx => 1
  | .rdx => 2
  | .rbx => 3
  | .rsp => 4
  | .rbp => 5
  | .rsi => 6
  | .rdi => 7
  | .r8 => 8
  | .r9 => 9
  | .r10 => 10
  | .r11 => 11
  | .r12 => 12
  | .r13 => 13
  | .r14 => 14
  | .r15 => 15

/-- The register that a number selects. From eight on, the lowest three bits count. -/
def ofNumber (n : Nat) : Register :=
  all.getD (if n < 8 then n else 8 + n % 8) .rax

/-- The lowest three bits of the number, which go into the operand byte. -/
def low (r : Register) : UInt8 :=
  (r.number % 8).toUInt8

/-- Whether the number needs its fourth bit, which goes into the prefix byte. -/
def isHigh (r : Register) : Bool :=
  8 ≤ r.number

/-- The name of the register with a number, whether there is one or not. -/
def nameOfNumber (n : Nat) : Bytes :=
  match n with
  | 0 => "rax"
  | 1 => "rcx"
  | 2 => "rdx"
  | 3 => "rbx"
  | 4 => "rsp"
  | 5 => "rbp"
  | 6 => "rsi"
  | 7 => "rdi"
  | n => "r" ++ Bytes.ofNat n

/-- The registers that arguments are passed in, in order. -/
def arguments : List Register :=
  [.rdi, .rsi, .rdx, .rcx, .r8, .r9]

end Register

end DirectC
