/-
# Execution

The processor as a machine: registers, memory, flags and the address of the next instruction. A
step reads the bytes at that address, decodes them and does what they say; code is nothing but
bytes in memory. A step has no outcome where the processor would raise an exception, enter the
system, or look at flags that are not known.

`step_of_loaded` says what a step does where the bytes of an instruction lie in memory, and
`runs_straight` does the same for code that neither jumps nor writes to memory.
-/
import DirectC.Proofs.Machine.Decoding
import DirectC.Proofs.Machine.Flow

namespace DirectC

/-! ## Widths and conditions -/

namespace Width

open Machine (Word)

/-- The low bytes of a word, extended with zeros. -/
def low (w : Width) (v : Word) : Word :=
  (v.setWidth (8 * w.size)).setWidth 64

/-- The low bytes of a word, extended with their sign. -/
def signed (w : Width) (v : Word) : Word :=
  (v.setWidth (8 * w.size)).signExtend 64

end Width

namespace Machine

/-- The flags that conditions look at. -/
structure Flags where
  zero : Bool
  sign : Bool
  overflow : Bool

/-- The flags of a comparison of two numbers of a width. -/
def Flags.ofDifference {n : Nat} (a b : BitVec n) : Flags :=
  ⟨a - b == 0, (a - b).msb, BitVec.ssubOverflow a b⟩

/-- The flags of a result that did not overflow. -/
def Flags.ofResult {n : Nat} (a : BitVec n) : Flags :=
  ⟨a == 0, a.msb, false⟩

end Machine

/-- Whether a condition holds, for the conditions that the compiler uses. -/
def Condition.holds? (c : Condition) (f : Machine.Flags) : Option Bool :=
  if c = equal then some f.zero
  else if c = notEqual then some !f.zero
  else if c = less then some (f.sign != f.overflow)
  else if c = lessEqual then some (f.zero || f.sign != f.overflow)
  else none

namespace Machine

/-! ## States -/

/-- The state of the machine. Flags are not known where the compiler does not rely on them. -/
structure State where
  regs : Register → Word
  mem : Memory
  flags : Option Flags
  /-- The address of the next instruction. -/
  rip : Word

namespace State

/-- Sets a register. -/
def set (s : State) (r : Register) (v : Word) : State :=
  { s with regs := fun q => if q = r then v else s.regs q }

/-- Moves on by some bytes. -/
def advance (s : State) (n : Nat) : State :=
  { s with rip := s.rip + .ofNat 64 n }

@[simp] theorem regs_set (s : State) (r q : Register) (v : Word) :
    (s.set r v).regs q = if q = r then v else s.regs q := rfl

@[simp] theorem mem_set (s : State) (r : Register) (v : Word) : (s.set r v).mem = s.mem := rfl

@[simp] theorem rip_set (s : State) (r : Register) (v : Word) : (s.set r v).rip = s.rip := rfl

@[simp] theorem flags_set (s : State) (r : Register) (v : Word) : (s.set r v).flags = s.flags := rfl

@[simp] theorem regs_advance (s : State) (n : Nat) : (s.advance n).regs = s.regs := rfl

@[simp] theorem mem_advance (s : State) (n : Nat) : (s.advance n).mem = s.mem := rfl

@[simp] theorem flags_advance (s : State) (n : Nat) : (s.advance n).flags = s.flags := rfl

@[simp] theorem rip_advance (s : State) (n : Nat) :
    (s.advance n).rip = s.rip + .ofNat 64 n := rfl

/-- The low bytes of an operand, extended with zeros. -/
def read (s : State) (w : Width) : Operand → Word
  | .reg r => w.low (s.regs r)
  | .mem base disp => s.mem.load w (s.regs base + disp)

/-- The value that an instruction reads. -/
def value (s : State) (w : Width) : Source → Word
  | .operand o => s.read w o
  | .imm v => w.low v

/-- Writes the low bytes of a word. In a register, four bytes clear the rest and one byte leaves
it alone. -/
def write (s : State) (w : Width) (o : Operand) (v : Word) : State :=
  match o, w with
  | .reg r, .byte => s.set r ((s.regs r).extractLsb' 8 56 ++ v.setWidth 8)
  | .reg r, w => s.set r (w.low v)
  | .mem base disp, w => { s with mem := s.mem.store w (s.regs base + disp) v }

/-- Pushes a word. -/
def push (s : State) (v : Word) : State :=
  let top := s.regs .rsp - 8
  { s.set .rsp top with mem := s.mem.store .qword top v }

/-- Pops a word into a register. -/
def pop (s : State) (r : Register) : State :=
  let top := s.regs .rsp
  (s.set .rsp (top + 8)).set r (s.mem.load .qword top)

/-- Operations of the arithmetic unit. -/
def arith (s : State) (f : Arith) (w : Width) (dst : Operand) (src : Source) : State :=
  let a := s.read w dst
  let b := s.value w src
  let n := 8 * w.size
  match f with
  | .add => { s.write w dst (a + b) with flags := none }
  | .sub => { s.write w dst (a - b) with flags := none }
  | .xor => { s.write w dst (a ^^^ b) with flags := none }
  | .cmp => { s with flags := some (.ofDifference (a.setWidth n) (b.setWidth n)) }
  | .test => { s with flags := some (.ofResult ((a &&& b).setWidth n)) }

/-- Divides `rdx` and `rax`, taken together as one signed number. The processor raises an
exception if the divisor is zero or the quotient has no room. -/
def divide (s : State) (src : Operand) : Option State :=
  let n := (s.regs .rdx ++ s.regs .rax).toInt
  let d := (s.read .qword src).toInt
  let q := n.tdiv d
  if d = 0 ∨ q < -2 ^ 63 ∨ 2 ^ 63 ≤ q then none
  else some { (s.set .rax (.ofInt 64 q)).set .rdx (.ofInt 64 (n.tmod d)) with flags := none }

/-- Whether a condition holds of the flags, if they are known. -/
def test (s : State) (c : Condition) : Option Bool := do
  c.holds? (← s.flags)

end State

/-! ## Steps -/

/-- **What an action does**, with the address of the next instruction already in place. -/
def exec (a : Action) (s : State) : Option State :=
  match a with
  | .push r => some (s.push (s.regs r))
  | .pop r => some (s.pop r)
  | .arith f w dst src => some (s.arith f w dst src)
  | .mul dst src => some { s.set dst (s.regs dst * s.read .qword src) with flags := none }
  | .cqo => some (s.set .rdx (if (s.regs .rax).msb then -1 else 0))
  | .divide src => s.divide src
  | .mov w dst src => some (s.write w dst (s.value w src))
  | .movSigned w dst src => some (s.set dst (w.signed (s.read w src)))
  | .movZero dst src => some (s.set dst (s.read .byte src))
  | .lea dst base disp => some (s.set dst (s.regs base + disp))
  | .set c dst => (s.test c).map fun b => s.write .byte dst (if b then 1 else 0)
  | .jump disp => some { s with rip := s.rip + disp }
  | .jumpIf c disp => (s.test c).map fun b => if b then { s with rip := s.rip + disp } else s
  | .call target => some { s.push s.rip with rip := s.read .qword target }
  | .leave => some ((s.set .rsp (s.regs .rbp)).pop .rbp)
  | .ret => some { s.set .rsp (s.regs .rsp + 8) with rip := s.mem.load .qword (s.regs .rsp) }
  | .syscall => none

/-- The bytes from an address on. -/
def Memory.bytes (m : Memory) (a : Word) : Nat → Bytes
  | 0 => []
  | n + 1 => m a :: bytes m (a + 1) n

/-- The most bytes that an instruction can have. -/
def window : Nat := 15

/-- **One step**: reads, decodes and does the next instruction. -/
def step (s : State) : Option State := do
  let (a, rest) ← decode (s.mem.bytes s.rip window)
  exec a (s.advance (window - rest.length))

/-- Any number of steps. -/
abbrev Runs : State → State → Prop :=
  Relation.ReflTransGen fun s s' => step s = some s'

/-! ## Code in memory -/

/-- Bytes lie in memory from an address on. -/
def Holds (m : Memory) (a : Word) : Bytes → Prop
  | [] => True
  | b :: bs => m a = b ∧ Holds m (a + 1) bs

instance decidableHolds (m : Memory) : (a : Word) → (bs : Bytes) → Decidable (Holds m a bs)
  | _, [] => .isTrue trivial
  | a, b :: bs =>
    have := decidableHolds m (a + 1) bs
    inferInstanceAs (Decidable (m a = b ∧ Holds m (a + 1) bs))

/-- Memory holds two parts in a row if it holds each in its place. -/
theorem holds_append {m : Memory} {a : Word} {x y : Bytes} :
    Holds m a (x ++ y) ↔ Holds m a x ∧ Holds m (a + .ofNat 64 x.length) y := by
  induction x generalizing a with
  | nil => simp [Holds]
  | cons b x ih =>
    rw [List.cons_append, Holds, Holds, ih, List.length_cons, add_ofNat_succ, and_assoc]

/-- Bytes are held as long as nothing is written over them. -/
theorem Holds.congr {m m' : Memory} {a : Word} {bs : Bytes} (h : Holds m a bs)
    (hm : ∀ x, Span a bs.length x → m' x = m x) : Holds m' a bs := by
  induction bs generalizing a with
  | nil => trivial
  | cons b bs ih =>
    obtain ⟨hb, h⟩ := h
    exact ⟨(hm a (.start (by simp))).trans hb, ih h fun x hx => hm x hx.step⟩

/-- What is held is what is fetched. -/
theorem Holds.bytes_eq {m : Memory} {a : Word} {bs : Bytes} {n : Nat} (h : Holds m a bs)
    (hn : bs.length ≤ n) :
    m.bytes a n = bs ++ m.bytes (a + .ofNat 64 bs.length) (n - bs.length) := by
  induction bs generalizing a n with
  | nil => simp
  | cons b bs ih =>
    obtain ⟨hb, h⟩ := h
    cases n with
    | zero => simp at hn
    | succ n =>
      rw [Memory.bytes, hb, ih h (by simpa using hn), List.length_cons, add_ofNat_succ,
        Nat.add_sub_add_right]
      rfl

theorem Memory.length_bytes (m : Memory) (a : Word) (n : Nat) : (m.bytes a n).length = n := by
  induction n generalizing a with
  | zero => rfl
  | succ n ih => simp [bytes, ih]

/-- Code lies in memory from an address on, inside of a region. -/
structure Loaded (text : Word → Prop) (m : Memory) (a : Word) (code : Code) : Prop where
  bytes : Holds m a code.bytes
  inside : ∀ x, Span a code.size x → text x

variable {text : Word → Prop} {m m' : Memory} {a : Word} {s s' : State}

/-- The first part of loaded code is loaded. -/
theorem Loaded.left {x y : Code} (h : Loaded text m a (x ++ y)) : Loaded text m a x := by
  have hb := h.bytes
  rw [Code.bytes_append, holds_append] at hb
  refine ⟨hb.1, fun z hz => h.inside z (hz.mono ?_)⟩
  rw [Code.size_append]
  omega

/-- The second part of loaded code is loaded behind the first. -/
theorem Loaded.right {x y : Code} (h : Loaded text m a (x ++ y)) :
    Loaded text m (a + .ofNat 64 x.size) y := by
  have hb := h.bytes
  rw [Code.bytes_append, holds_append, Code.length_bytes] at hb
  refine ⟨hb.2, fun z hz => h.inside z ?_⟩
  rw [Code.size_append]
  exact hz.drop

/-- Code stays where it is as long as nothing is written to its region. -/
theorem Loaded.congr {code : Code} (h : Loaded text m a code) (hm : ∀ x, text x → m' x = m x) :
    Loaded text m' a code := by
  refine ⟨h.bytes.congr fun x hx => hm x (h.inside x ?_), h.inside⟩
  rwa [Code.length_bytes] at hx

/-- Code is text from its first byte on. -/
theorem Loaded.text_start {i : Instr} {code : Code} (h : Loaded text m a (i :: code)) : text a := by
  refine h.inside a (.start ?_)
  have := i.size_pos
  rw [Code.size_cons]
  omega

/-- **A step where an instruction lies in memory.** -/
theorem step_of_loaded {i : Instr} {code : Code} (hi : i.isEncodable)
    (h : Loaded text s.mem s.rip (i :: code)) : step s = exec i.action (s.advance i.size) := by
  have hb : Holds s.mem s.rip (i.encode ++ Code.bytes code) := h.bytes
  have hfetch := (holds_append.mp hb).1.bytes_eq (n := window) i.size_le
  have hlen : window - (s.mem.bytes (s.rip + .ofNat 64 i.encode.length)
      (window - i.encode.length)).length = i.size := by
    have := i.size_le
    rw [Memory.length_bytes]
    unfold Instr.size window at *
    omega
  rw [step, hfetch, decode_encode hi]
  change exec i.action (s.advance _) = _
  rw [hlen]

/-! ## Straight code -/

/-- An action that goes on to the next instruction and leaves memory alone. -/
def Action.isSilent : Action → Bool
  | .pop _ | .mul .. | .cqo | .divide _ | .movSigned .. | .movZero .. | .lea .. => true
  | .arith _ _ (.reg _) _ | .mov _ (.reg _) _ | .set _ (.reg _) => true
  | _ => false

/-- Writing to a register changes neither memory nor where the machine is. -/
theorem State.mem_write_reg {w : Width} {r : Register} {v : Word} :
    (s.write w (.reg r) v).mem = s.mem ∧ (s.write w (.reg r) v).rip = s.rip := by
  cases w <;> exact ⟨rfl, rfl⟩

/-- A silent action changes neither memory nor where the machine is. -/
theorem exec_of_isSilent {a : Action} (ha : a.isSilent) (h : exec a s = some s') :
    s'.mem = s.mem ∧ s'.rip = s.rip := by
  -- Actions that write memory or jump are not silent. A division may fault, and sets registers only.
  cases a with
  | pop | mul | cqo | movSigned | movZero | lea =>
    cases h
    exact ⟨rfl, rfl⟩
  | divide src =>
    unfold exec State.divide at h
    dsimp only at h
    split at h
    · cases h
    · cases h
      exact ⟨rfl, rfl⟩
  | arith f w dst src =>
    cases dst with
    | mem => cases ha
    | reg r =>
      cases h
      cases f with
      | add | sub | xor => exact State.mem_write_reg
      | cmp | test => exact ⟨rfl, rfl⟩
  | mov w dst src =>
    cases dst with
    | mem => cases ha
    | reg r =>
      cases h
      exact State.mem_write_reg
  | set c dst =>
    cases dst with
    | mem => cases ha
    | reg r =>
      obtain ⟨b, _, rfl⟩ := Option.map_eq_some_iff.mp h
      exact State.mem_write_reg
  | _ => cases ha

/-- What code does if it runs straight through. -/
def through : Code → State → Option State
  | [], s => some s
  | i :: code, s => (exec i.action (s.advance i.size)).bind (through code)

/-- Running two parts is running one after the other. -/
theorem through_append {x y : Code} : through (x ++ y) s = (through x s).bind (through y) := by
  induction x generalizing s with
  | nil => rfl
  | cons i x ih =>
    rw [List.cons_append, through, through, Option.bind_assoc]
    congr 1
    funext s1
    exact ih

/-- Code that goes on from instruction to instruction and leaves memory alone. -/
def isStraight (code : Code) : Bool :=
  code.all fun i => i.isEncodable && i.action.isSilent

/-- **Straight code runs**, and memory stays as it is. -/
theorem runs_straight {code : Code} (hc : isStraight code)
    (hl : Loaded text s.mem s.rip code) (h : through code s = some s') :
    Runs s s' ∧ s'.mem = s.mem ∧ s'.rip = s.rip + .ofNat 64 code.size := by
  induction code generalizing s with
  | nil =>
    cases h
    exact ⟨.refl, rfl, by simp⟩
  | cons i code ih =>
    obtain ⟨s1, h1, h⟩ := Option.bind_eq_some_iff.mp h
    simp only [isStraight, List.all_cons, Bool.and_eq_true] at hc
    obtain ⟨⟨hi, hsilent⟩, hc⟩ := hc
    obtain ⟨hmem, hrip⟩ := exec_of_isSilent hsilent h1
    have hstep : step s = some s1 := (step_of_loaded hi hl).trans h1
    have hrest : Loaded text s1.mem s1.rip code := by
      rw [hmem, hrip]
      exact Loaded.right (x := [i]) hl
    obtain ⟨hruns, hmem', hrip'⟩ := ih hc hrest h
    refine ⟨.head hstep hruns, hmem'.trans hmem, ?_⟩
    rw [hrip', hrip, Code.size_cons, BitVec.ofNat_add, ← BitVec.add_assoc]
    rfl

end Machine

end DirectC
