/-
# Code does not depend on addresses

A function is lowered twice, under provisional and under final addresses. The two codes have the
same length, and where their bytes differ, both have the operand of an address load
(`Code.Alike.getElem?_bytes`). So the second pass of `CodeArea.emit` never fails, no piece changes
its size, and the base address decides about addresses only.
-/
import DirectC.Proofs.CodeArea
import DirectC.Proofs.Compile

namespace DirectC

/-! ## Operands of address loads -/

/-- A load of an address into `eax` or `edi` is one byte of opcode and four of operand. -/
theorem Instr.encode_movAddr {r : Register} (hr : r = .rax ∨ r = .rdi) (a : UInt32) :
    encode (.movAddr r a) = (0xb8 + r.low) :: word a := by
  rcases hr with rfl | rfl <;> rfl

theorem Instr.length_word (a : UInt32) : (word a).length = 4 :=
  Bytes.length_littleEndian 4 _

theorem Instr.size_movAddr {r : Register} (hr : r = .rax ∨ r = .rdi) (a : UInt32) :
    size (.movAddr r a) = 5 := by
  rw [size, encode_movAddr hr, List.length_cons, length_word]

namespace Code

/-- At byte `i` both codes have the operand of a load of an address into `eax` or `edi`: the loads
stand at the same offset, and the byte is one of the four behind the opcode. -/
def InAddress (x y : Code) (i : Nat) : Prop :=
  ∃ (r : Register) (a b : UInt32) (pre pre' post post' : Code), (r = .rax ∨ r = .rdi) ∧
    x = pre ++ .movAddr r a :: post ∧ y = pre' ++ .movAddr r b :: post' ∧
    size pre = size pre' ∧ size pre + 1 ≤ i ∧ i < size pre + 5

theorem InAddress.cons {x y : Code} {i : Nat} {j k : Instr} (hs : j.size = k.size)
    (h : InAddress x y i) : InAddress (j :: x) (k :: y) (j.size + i) := by
  obtain ⟨r, a, b, pre, pre', post, post', hr, rfl, rfl, hpre, hle, hlt⟩ := h
  refine ⟨r, a, b, j :: pre, k :: pre', post, post', hr, rfl, rfl, ?_, ?_, ?_⟩
  · rw [size_cons, size_cons, hs, hpre]
  · rw [size_cons]
    omega
  · rw [size_cons]
    omega

/-- Instructions that are the same up to an address differ in the bytes of the address. -/
theorem getElem?_encode {j k : Instr} (h : j.Alike k) {x y : Code} {i : Nat} (hi : i < j.size) :
    j.encode[i]? = k.encode[i]? ∨ InAddress (j :: x) (k :: y) i := by
  cases h with
  | same => exact .inl rfl
  | address hr a b =>
    rw [Instr.size_movAddr hr] at hi
    cases i with
    | zero =>
      rw [Instr.encode_movAddr hr, Instr.encode_movAddr hr]
      exact .inl rfl
    | succ i =>
      exact .inr ⟨_, a, b, [], [], x, y, hr, rfl, rfl, rfl, by simp, by simpa using hi⟩

/-- **Alike codes differ in the operands of address loads only.** -/
theorem Alike.getElem?_bytes {x y : Code} (h : Alike x y) (i : Nat) :
    (bytes x)[i]? = (bytes y)[i]? ∨ InAddress x y i := by
  induction h generalizing i with
  | nil => exact .inl rfl
  | @cons j k x y hi _ ih =>
    have hlength : j.encode.length = k.encode.length := hi.size_eq
    change (j.encode ++ bytes x)[i]? = (k.encode ++ bytes y)[i]? ∨ _
    by_cases hlt : i < j.size
    · rw [List.getElem?_append_left hlt, List.getElem?_append_left (hlength ▸ hlt)]
      exact getElem?_encode hi hlt
    · have hle : j.encode.length ≤ i := Nat.le_of_not_lt hlt
      rw [List.getElem?_append_right hle, List.getElem?_append_right (hlength ▸ hle), ← hlength]
      refine (ih (i - j.encode.length)).imp_right fun h => ?_
      have hsum : j.size + (i - j.encode.length) = i := Nat.add_sub_of_le hle
      exact hsum ▸ h.cons hi.size_eq

end Code

/-! ## Routines of every program -/

namespace Prelude

variable {symbols : Symbols}

/-- The startup code has one size as soon as there is a `main`. -/
theorem startRoutine_steady (h : (symbols.functions.get? "main").isSome) :
    startRoutine.Steady symbols := by
  refine ⟨Code.size (startup 0), fun pass symbols' ha => ?_⟩
  rw [ha.functions] at h
  obtain ⟨main, hmain⟩ := Option.isSome_iff_exists.mp h
  refine ⟨Code.bytes (startup main), ?_, ?_⟩
  · simp only [startRoutine, hmain]
  · rw [Code.length_bytes]
    simp only [startup, Code.size_cons, Instr.size_movAddr (.inl rfl)]

theorem builtinRoutines_steady : ∀ r ∈ builtinRoutines, r.Steady symbols := by
  intro r hr
  obtain ⟨b, _, rfl⟩ := List.mem_map.mp hr
  exact ⟨_, fun _ _ _ => ⟨Code.bytes b.code, rfl, rfl⟩⟩

end Prelude

/-- The routines of an executable are steady. -/
theorem Compile.routines_steady {symbols : Symbols} (h : (symbols.functions.get? "main").isSome) :
    ∀ r ∈ routines, r.Steady symbols := by
  intro r hr
  rcases List.mem_cons.mp hr with rfl | hr
  · exact Prelude.startRoutine_steady h
  · exact Prelude.builtinRoutines_steady r hr

/-! ## Both passes -/

namespace CodeArea

variable {p : Program} {rs : List Routine} {options : Options}

/-- The pieces under given symbols do not depend on the base address. -/
theorem pieces_base (base : UInt32) (pass : Pass) (symbols : Symbols) :
    pieces p rs { options with base } pass symbols = pieces p rs options pass symbols :=
  rfl

/-- **The base address decides about addresses only.** -/
theorem emit_base (hr : ∀ r ∈ rs, r.Steady (provisional p rs)) (base : UInt32) :
    (∃ d, emit p rs options = .error d ∧ emit p rs { options with base } = .error d) ∨
      ∃ x y, emit p rs options = .ok x ∧ emit p rs { options with base } = .ok y ∧
        x.codeSize = y.codeSize ∧ x.offsets = y.offsets ∧ x.order = y.order ∧
        x.bssSize = y.bssSize := by
  cases hemit : emit p rs options with
  | error d =>
    have hcause := (emit_error hr).mp hemit
    rw [← pieces_base base] at hcause
    exact .inl ⟨d, rfl, (emit_error hr).mpr hcause⟩
  | ok x =>
    obtain ⟨sized, final, globals, bss, hpass, rfl⟩ := emit_ok.mp hemit
    obtain ⟨final', hpass'⟩ :=
      filling_of_sized hr ((pieces_base base _ _).trans hpass.sizing) hpass.room
    exact .inr ⟨_, _, rfl, emit_ok.mpr ⟨sized, final', globals, bss, hpass', rfl⟩, rfl, rfl, rfl, rfl⟩

/-- **Emission in two passes is sound.** Under symbols that know the same names a function is
refused with the same diagnostic, or has codes of one length that differ in the operands of address
loads only. Hence the second pass neither fails nor changes the size of a piece, whatever program and
steady routines are given; and sizes, offsets and order do not depend on the base address. -/
theorem emit_two_passes (p : Program) {rs : List Routine}
    (hr : ∀ r ∈ rs, r.Steady (provisional p rs)) (options : Options) :
    (∀ (f : Function) (layout : Layout) (limits : Limits) (a b : Symbols), a.Alike b →
      (∃ d, Lowering.function f layout limits a = .error d ∧
        Lowering.function f layout limits b = .error d) ∨
      ∃ x y, Lowering.function f layout limits a = .ok x ∧
        Lowering.function f layout limits b = .ok y ∧
        (Code.bytes x).length = (Code.bytes y).length ∧
        ∀ i : Nat, (Code.bytes x)[i]? ≠ (Code.bytes y)[i]? → Code.InAddress x y i) ∧
    (∀ sized, pieces p rs options .sizing (provisional p rs) = .ok sized →
      (∀ d, emit p rs options = .error d →
        ∃ fault, globalStarts p.layout 0 p.globals = .error fault ∧ d = fault.diagnostic) ∧
      ∀ globals bss, globalStarts p.layout 0 p.globals = .ok (globals, bss) →
        ∃ final, pieces p rs options .final (symbolsOf p options sized globals) = .ok final ∧
          (∀ q ∈ sized.zip final, checkSize q.1 q.2 = .ok ()) ∧
          emit p rs options = .ok (areaOf p options sized final globals bss)) ∧
    ∀ base, (∃ d, emit p rs options = .error d ∧ emit p rs { options with base } = .error d) ∨
      ∃ x y, emit p rs options = .ok x ∧ emit p rs { options with base } = .ok y ∧
        x.codeSize = y.codeSize ∧ x.offsets = y.offsets ∧ x.order = y.order ∧
        x.bssSize = y.bssSize := by
  refine ⟨fun f layout limits a b hab => ?_, fun sized hs => ⟨fun d hd => ?_, fun globals bss hg => ?_⟩,
    fun base => emit_base hr base⟩
  · refine (Lowering.agree_function f layout limits hab).imp_right ?_
    rintro ⟨x, y, hx, hy, hxy⟩
    refine ⟨x, y, hx, hy, ?_, fun i hi => (hxy.getElem?_bytes i).resolve_left hi⟩
    rw [Code.length_bytes, Code.length_bytes, hxy.size_eq]
  · rcases (emit_error hr).mp hd with h | ⟨_, fault, _, hfault, rfl⟩
    · rw [hs] at h
      cases h
    · exact ⟨fault, hfault, rfl⟩
  · obtain ⟨final, hpass⟩ := filling_of_sized hr hs hg
    exact ⟨final, hpass.filling, fun q hq => checkSize_ok.mpr (hpass.sizes q hq),
      emit_ok.mpr ⟨sized, final, globals, bss, hpass, rfl⟩⟩

/-- A source with a call of a function behind it, a variable and a string. -/
def tally : Bytes := "int add(int *to, char *s); int n;
int main() \x7b return add(&n, \"one\"); \x7d
int add(int *to, char *s) \x7b *to += *s; return *to; \x7d"

/-- The code of `tally` at two base addresses: its bytes differ, and nothing else does. -/
theorem emit_two_passes_tally : ∃ p, Program.ofSource "tally.c" tally {} = .ok p ∧
    (∀ r ∈ Compile.routines, r.Steady (provisional p Compile.routines)) ∧
    ∃ x y, emit p Compile.routines {} = .ok x ∧ emit p Compile.routines { base := 4096 } = .ok y ∧
      x.text.toBytes ≠ y.text.toBytes ∧ x.codeSize = y.codeSize ∧ x.offsets = y.offsets ∧
      x.order = y.order ∧ x.bssSize = y.bssSize := by
  have hread : (Program.ofSource "tally.c" tally {}).toOption.any (fun p =>
      ((provisional p Compile.routines).functions.get? "main").isSome &&
        (emit p Compile.routines {}).toOption.any fun x =>
          (emit p Compile.routines { base := 4096 }).toOption.any fun y =>
            x.text.toBytes != y.text.toBytes) = true := by decide +kernel
  obtain ⟨p, hp, hread⟩ := exists_ok_of_any hread
  obtain ⟨hmain, hread⟩ := Bool.and_eq_true_iff.mp hread
  have hr := Compile.routines_steady hmain
  refine ⟨p, hp, hr, ?_⟩
  rcases (emit_two_passes p hr {}).2.2 4096 with ⟨d, hd, _⟩ | ⟨x, y, hx, hy, hsame⟩
  · rw [hd] at hread
    cases hread
  · rw [hx, hy] at hread
    exact ⟨x, y, hx, hy, bne_iff_ne.mp hread, hsame⟩

end CodeArea

end DirectC
