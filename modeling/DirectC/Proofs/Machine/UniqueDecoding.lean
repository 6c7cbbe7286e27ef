/-
# Unique decoding

Bytes as instructions of the compiler. `Machine.decode` says what the processor does with some
bytes, and `Instr.read` finds the instruction of the compiler that does this. Two of them do the
same: a store of `edi` at the address in `rax` has a form with a displacement and a form without.
They differ in their number of bytes, and `read` tells them apart by it.

Main statement: `read_unique`, which says that the bytes of an instruction, whatever follows them,
are read as that instruction and no other, and hence that the bytes of code are those of no other
code.
-/
import DirectC.Proofs.Machine.Disassembly

namespace DirectC

namespace Instr

open Machine (Word Operand Source Arith Action)

/-! ## From actions to instructions -/

/-- The signed number in the lower half of a word. -/
def toSigned (v : Word) : Int32 :=
  .ofBitVec (v.setWidth 32)

/-- The signed number in the lowest byte of a word. -/
def toNear (v : Word) : Int8 :=
  .ofBitVec (v.setWidth 8)

/-- The instruction of so many bytes that an action may come from. The action selects its form and
its operands, but need not be what it stands for. -/
def form? (size : Nat) : Action → Option Instr
  | .push r => some (.push r)
  | .pop r => some (.pop r)
  | .arith .add .qword (.reg .rsp) (.imm v) => some (.addRsp (toSigned v))
  | .arith .sub .qword (.reg .rsp) (.imm v) => some (.subRsp (toSigned v))
  | .arith .xor _ (.reg r) _ => some (.clear r)
  | .arith .add _ _ (.operand (.reg .rax)) => some .addRdiRax
  | .arith .add _ _ (.operand (.reg .rsi)) => some .addRdiRsi
  | .arith .sub _ _ (.operand (.reg .rax)) => some .subRdiRax
  | .arith .sub _ _ (.operand (.reg .rsi)) => some .subRdiRsi
  | .arith .cmp .. => some .cmpRaxRdi
  | .arith .test .. => some .testRdi
  | .arith .. => none
  | .mul .. => some .mulRdiRax
  | .cqo => some .cqo
  | .divide _ => some .divRdi
  | .mov .dword (.reg r) (.imm v) => some (.movAddr r (.ofBitVec (v.setWidth 32)))
  | .mov .qword (.reg r) (.imm v) => some (.movImm r (toSigned v))
  | .mov .dword (.reg dst) (.operand (.reg src)) => some (.mov32 dst src)
  | .mov .qword (.reg dst) (.operand (.reg src)) => some (.mov dst src)
  | .mov _ (.reg _) (.operand (.mem .rsp _)) => some .loadTop
  | .mov w (.reg _) (.operand (.mem _ _)) => some (.loadRdi w)
  | .mov w (.mem .rbp disp) (.operand (.reg r)) => some (.storeSlot r (toSigned disp) w)
  | .mov .dword (.mem .rax disp) (.operand (.reg r)) =>
    some (if size = 2 then .storeRdi .dword else .storeAtRax r (toNear disp))
  | .mov w (.mem ..) (.operand (.reg _)) => some (.storeRdi w)
  | .mov .. => none
  | .movSigned w _ (.mem ..) => some (.loadRdi w)
  | .movSigned .byte _ (.reg .rdi) => some (.extendRdi .byte)
  | .movSigned .byte _ (.reg _) => some (.extendRax .byte)
  | .movSigned _ _ (.reg .rdi) => some (.extendRdi .dword)
  | .movSigned _ _ (.reg _) => some (.extendRax .dword)
  | .movZero .. => some .movEdiAl
  | .lea .rsi _ disp => some (.leaRsiStack (toNear disp))
  | .lea _ _ disp => some (.leaRdi (toSigned disp))
  | .set c _ => some (.setAl c)
  | .jump disp => some (.jump (toNear disp))
  | .jumpIf c disp => some (.jumpIf c (toNear disp))
  | .call _ => some .callRax
  | .leave => some .leave
  | .ret => some .ret
  | .syscall => some .syscall

/-- **The first instruction of the compiler in some bytes**, and the bytes behind it. It stands for
what the processor does with these bytes. -/
def read (bytes : Bytes) : Option (Instr × Bytes) := do
  let (action, rest) ← Machine.decode bytes
  let i ← form? (bytes.length - rest.length) action
  if i.action = action then some (i, rest) else none

/-! ## Operands -/

/-- The lower part of a word that was extended with a sign is what was extended. -/
theorem setWidth_signExtend {w v : Nat} (h : w ≤ v) (x : BitVec w) :
    (x.signExtend v).setWidth w = x := by
  ext i hi
  rw [BitVec.getElem_setWidth, BitVec.getLsbD_signExtend]
  simp [hi]
  omega

@[simp] theorem toSigned_signed (n : Int32) : toSigned (signed n) = n := by
  rw [toSigned, signed, setWidth_signExtend (by decide), Int32.ofBitVec_toBitVec]

@[simp] theorem toNear_near (n : Int8) : toNear (near n) = n := by
  rw [toNear, near, setWidth_signExtend (by decide), Int8.ofBitVec_toBitVec]

/-- A store with a displacement has more than two bytes. -/
theorem size_storeAtRax (r : Register) (disp : Int8) : (storeAtRax r disp).size ≠ 2 := by
  cases r <;> simp [size, encode, rex, Register.isHigh, Register.number]

/-! ## Reading instructions back -/

/-- An instruction comes from its action and its number of bytes. -/
theorem form?_action (i : Instr) : form? i.size i.action = some i := by
  cases i with
  | subRsp n => exact congrArg (some <| subRsp ·) (toSigned_signed n)
  | addRsp n => exact congrArg (some <| addRsp ·) (toSigned_signed n)
  | movImm r n => exact congrArg (some <| movImm r ·) (toSigned_signed n)
  | movAddr r v =>
    exact congrArg (some <| movAddr r ⟨·⟩) (BitVec.setWidth_setWidth_of_le _ (by decide))
  | leaRdi offset => exact congrArg (some <| leaRdi ·) (toSigned_signed offset)
  | leaRsiStack disp => exact congrArg (some <| leaRsiStack ·) (toNear_near disp)
  | jump disp => exact congrArg (some <| jump ·) (toNear_near disp)
  | jumpIf c disp => exact congrArg (some <| jumpIf c ·) (toNear_near disp)
  | storeAtRax r disp =>
    change some (if (storeAtRax r disp).size = 2 then _ else storeAtRax r (toNear (near disp))) = _
    rw [if_neg (size_storeAtRax r disp), toNear_near]
  | storeSlot r offset w =>
    cases w <;> exact congrArg (some <| storeSlot r · _) (toSigned_signed offset)
  | loadRdi w | storeRdi w | extendRdi w | extendRax w => cases w <;> rfl
  | _ => rfl

/-- **The bytes of an instruction are read as that instruction**, whatever follows them. -/
theorem read_encode {i : Instr} (hi : i.isEncodable) (rest : Bytes) :
    read (i.encode ++ rest) = some (i, rest) := by
  have hsize : (i.encode ++ rest).length - rest.length = i.size := by
    rw [List.length_append, Nat.add_sub_cancel]
    rfl
  unfold read
  rw [Machine.decode_encode hi]
  change (form? ((i.encode ++ rest).length - rest.length) i.action).bind _ = _
  rw [hsize, form?_action]
  exact if_pos rfl

/-- What is read stands for what the processor does. -/
theorem decode_of_read {bytes rest : Bytes} {i : Instr} (h : read bytes = some (i, rest)) :
    Machine.decode bytes = some (i.action, rest) := by
  unfold read at h
  obtain ⟨⟨action, rest'⟩, hdecode, h⟩ := Option.bind_eq_some_iff.mp h
  obtain ⟨j, -, h⟩ := Option.bind_eq_some_iff.mp h
  split at h
  · rename_i haction
    cases h
    rw [hdecode, haction]
  · cases h

end Instr

namespace Code

/-! ## Code -/

/-- Two pieces of code with the same bytes start with the same instruction, and go on with the same
bytes. -/
theorem cons_of_bytes_eq {i j : Instr} {c d : Code} (hi : i.isEncodable) (hj : j.isEncodable)
    (h : bytes (i :: c) = bytes (j :: d)) : i = j ∧ bytes c = bytes d := by
  have hread : some (i, bytes c) = some (j, bytes d) := by
    rw [← Instr.read_encode hi, ← Instr.read_encode hj]
    exact congrArg Instr.read h
  exact Prod.mk.inj (Option.some.inj hread)

theorem bytes_cons_ne_nil (i : Instr) (c : Code) : bytes (i :: c) ≠ [] := by
  intro h
  have hpos := i.size_pos
  have hlength := congrArg List.length h
  rw [length_bytes, size_cons, List.length_nil] at hlength
  omega

/-- Different code has different bytes. -/
theorem eq_of_bytes_eq {c d : Code} (hc : c.all Instr.isEncodable) (hd : d.all Instr.isEncodable)
    (h : bytes c = bytes d) : c = d := by
  induction c generalizing d with
  | nil =>
    cases d with
    | nil => rfl
    | cons j d => exact absurd h.symm (bytes_cons_ne_nil j d)
  | cons i c ih =>
    cases d with
    | nil => exact absurd h (bytes_cons_ne_nil i c)
    | cons j d =>
      rw [List.all_cons, Bool.and_eq_true] at hc hd
      obtain ⟨rfl, hrest⟩ := cons_of_bytes_eq hc.1 hd.1 h
      rw [ih hc.2 hd.2 hrest]

end Code

/-- **Machine code is uniquely decodable.** The bytes of an instruction, whatever follows them, are
read as that instruction with its operands, and what follows is left; nothing is read that the
processor would not do; and different code has different bytes. -/
theorem Instr.read_unique :
    (∀ (i : Instr) (rest : Bytes), i.isEncodable → read (i.encode ++ rest) = some (i, rest)) ∧
    (∀ (bytes rest : Bytes) (i : Instr), read bytes = some (i, rest) →
      Machine.decode bytes = some (i.action, rest)) ∧
    ∀ c d : Code, c.all isEncodable → d.all isEncodable → c.bytes = d.bytes → c = d :=
  ⟨fun _ rest hi => read_encode hi rest, fun _ _ _ h => decode_of_read h,
    fun _ _ hc hd h => Code.eq_of_bytes_eq hc hd h⟩

/-- A store of the lowest byte of `rsi` needs a prefix byte, and its offset just does not fit into
one byte. The two forms of the store at `rax` have different bytes. -/
theorem Instr.read_unique_stores :
    read ((storeSlot .rsi 128 .byte).encode ++ [0xc3]) = some (storeSlot .rsi 128 .byte, [0xc3]) ∧
      Code.bytes [storeRdi .dword] ≠ Code.bytes [storeAtRax .rdi 0] :=
  ⟨read_unique.1 _ _ rfl,
    fun h => absurd (read_unique.2.2 [storeRdi .dword] [storeAtRax .rdi 0] rfl rfl h) (by decide)⟩

end DirectC
