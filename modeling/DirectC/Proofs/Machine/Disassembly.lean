/-
# Disassembly

Bytes as a list of instructions with their offsets: the first instruction is decoded, then the
first one of what is left, until nothing is left. `disassemble` has no answer if it meets bytes
that are no instruction, or ends in the middle of one.

Main statement: `disassemble_bytes`, which says that the bytes of code are read as its
instructions, each at the offset at which it was put.
-/
import DirectC.Proofs.Machine.Decoding
import DirectC.Proofs.Machine.Flow

namespace DirectC

namespace Machine

/-- An instruction and the offset of its first byte. -/
structure Line where
  offset : Nat
  action : Action

/-- The displacement of a jump, which counts from the end of its instruction. -/
def Action.displacement? : Action → Option Int
  | .jump disp | .jumpIf _ disp => some disp.toInt
  | _ => none

/-- At most `n` instructions, the first of them at an offset. -/
def disassembleUpTo : Nat → Nat → Bytes → Option (List Line)
  | _, _, [] => some []
  | 0, _, _ :: _ => none
  | n + 1, offset, b :: bytes => do
    let (action, rest) ← decode (b :: bytes)
    let lines ← disassembleUpTo n (offset + ((b :: bytes).length - rest.length)) rest
    return ⟨offset, action⟩ :: lines

/-- **The instructions of some bytes**, if they are instructions from the first byte to the last.
There are no more of them than there are bytes. -/
def disassemble (bytes : Bytes) : Option (List Line) :=
  disassembleUpTo bytes.length 0 bytes

end Machine

namespace Code

open Machine

/-- The instructions of code with their offsets, the first of them at an offset. -/
def lines (offset : Nat) : Code → List Line
  | [] => []
  | i :: rest => ⟨offset, i.action⟩ :: lines (offset + i.size) rest

/-- Each line shows an instruction at its place. -/
theorem mem_lines {code : Code} {offset : Nat} {line : Line} :
    line ∈ code.lines offset ↔
      ∃ (pre : Code) (i : Instr) (post : Code),
        code = pre ++ i :: post ∧ line = ⟨offset + pre.size, i.action⟩ := by
  induction code generalizing offset with
  | nil => simp [lines]
  | cons i code ih =>
    simp only [lines, List.mem_cons, ih]
    constructor
    · rintro (rfl | ⟨pre, j, post, rfl, rfl⟩)
      · exact ⟨[], i, code, rfl, rfl⟩
      · exact ⟨i :: pre, j, post, rfl, by simp [Nat.add_assoc]⟩
    · rintro ⟨_ | ⟨k, pre⟩, j, post, heq, rfl⟩
      · cases heq
        exact .inl rfl
      · cases heq
        exact .inr ⟨pre, j, post, rfl, by simp [Nat.add_assoc]⟩

/-- The lines of code in a row follow each other. -/
theorem lines_append (a b : Code) (offset : Nat) :
    lines offset (a ++ b) = lines offset a ++ lines (offset + a.size) b := by
  induction a generalizing offset with
  | nil => simp [lines]
  | cons i a ih => simp [lines, ih, Nat.add_assoc]

/-- Code has no more instructions than bytes. -/
theorem length_le_size (code : Code) : code.length ≤ code.size := by
  induction code with
  | nil => simp
  | cons i code ih =>
    have := i.size_pos
    simp only [List.length_cons, size_cons]
    omega

/-- Bytes of code are disassembled to its lines, by induction on the code. -/
theorem disassembleUpTo_bytes {code : Code} (hc : code.all Instr.isEncodable) {n : Nat}
    (hn : code.length ≤ n) (offset : Nat) :
    disassembleUpTo n offset code.bytes = some (code.lines offset) := by
  induction code generalizing n offset with
  | nil =>
    cases n <;> rfl
  | cons i code ih =>
    obtain ⟨n, rfl⟩ : ∃ m, n = m + 1 := ⟨n - 1, by simp at hn; omega⟩
    simp only [List.all_cons, Bool.and_eq_true] at hc
    have hd : decode (i.encode ++ bytes code) = some (i.action, bytes code) := decode_encode hc.1
    have hbytes : bytes (i :: code) = i.encode ++ bytes code := rfl
    -- An instruction has a first byte.
    obtain ⟨b, more, hb⟩ : ∃ b more, i.encode ++ bytes code = b :: more := by
      have := i.size_pos
      unfold Instr.size at this
      cases he : i.encode with
      | nil => simp [he] at this
      | cons b more => exact ⟨b, _, rfl⟩
    have hsize : (i.encode ++ bytes code).length - (bytes code).length = i.size := by
      rw [List.length_append, Nat.add_sub_cancel]
      rfl
    rw [hbytes, hb, disassembleUpTo, ← hb, hd]
    change (disassembleUpTo n
      (offset + ((i.encode ++ bytes code).length - (bytes code).length)) (bytes code)).bind _ = _
    rw [hsize, ih hc.2 (by simpa using hn)]
    rfl

/-- **Reading code back.** The bytes of code are its instructions, one behind the other. -/
theorem disassemble_bytes {code : Code} (hc : code.all Instr.isEncodable) :
    disassemble code.bytes = some (code.lines 0) :=
  disassembleUpTo_bytes hc (by rw [length_bytes]; exact code.length_le_size) 0

end Code

/-- What is shown of a jump is its distance. -/
theorem Instr.displacement_action (i : Instr) :
    i.action.displacement? = i.displacement?.map Int8.toInt := by
  have hnear (disp : Int8) : (Instr.near disp).toInt = disp.toInt :=
    BitVec.toInt_signExtend_of_le (by decide)
  cases i with
  | jump | jumpIf => simp [Instr.action, Machine.Action.displacement?, displacement?, hnear]
  | loadRdi w | extendRdi w | extendRax w => cases w <;> rfl
  | _ => rfl

end DirectC
