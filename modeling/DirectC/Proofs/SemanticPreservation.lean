/-
# Semantic preservation

What the machine does when it runs the code of an expression or a statement of a program. The code
may lie anywhere in memory. The words below the stack pointer that it uses are not the program's,
and the program does not write into the code; apart from that, memory ends up as the semantics
says, and so do the value of an expression and the outcome of a statement.
-/
import DirectC.Proofs.Grammar.Forming
import DirectC.Proofs.Lowering.Preservation
import DirectC.Proofs.Node

namespace DirectC

open Machine (Word Memory Span Below Holds Runs)

/-! ## Code in place -/

namespace Lowering

/-- The machine stands at the start of code, which does not lie in the `k` words below the stack
pointer. -/
structure Starts (s : Machine.State) (code : Code) (k : Nat) : Prop where
  holds : Holds s.mem s.rip code.bytes
  apart : ∀ x, Below (s.regs .rsp) (8 * k) x → ¬ Span s.rip code.size x

/-- The bytes that are left to the program: all but the `k` words below the stack pointer, and to
be read only those of the code. -/
def spared (s : Machine.State) (code : Code) (k : Nat) : Access where
  reads x := ¬ Below (s.regs .rsp) (8 * k) x
  writes x := ¬ Below (s.regs .rsp) (8 * k) x ∧ ¬ Span s.rip code.size x

/-- Where the run of code that started in `s` ends: behind the code with the stack as it was, or
at the return address with the frame gone. -/
def Finishes (code : Code) (s s' : Machine.State) : Outcome → Prop
  | .normal => s'.rip = s.rip + .ofNat 64 code.size ∧ s'.regs .rsp = s.regs .rsp ∧
      s'.regs .rbp = s.regs .rbp
  | .returned v => (s'.regs .rax).toInt = v ∧
      s'.rip = s'.mem.load .qword (s.regs .rbp + 8) ∧ s'.regs .rsp = s.regs .rbp + 16 ∧
      s'.regs .rbp = s'.mem.load .qword (s.regs .rbp)

/-- The scene of code that stands in place. -/
def scene (s : Machine.State) (code : Code) (k : Nat) : Scene where
  access := spared s code k
  text := Span s.rip code.size
  rbp := s.regs .rbp
  fixed := fun _ hx hw => hw.2 hx

/-- A machine with the code in its place is ready for it. -/
theorem Starts.ready {s : Machine.State} {code : Code} {k : Nat} (h : Starts s code k) :
    Ready (scene s code k) k code s.mem s where
  rbp := rfl
  loaded := ⟨h.holds, fun _ hx => hx⟩
  sees := fun _ _ => rfl
  room := fun x hx => ⟨fun hr => hr hx, fun hw => hw.1 hx, h.apart x hx⟩

/-- **Semantic preservation.** Take an expression or a statement that occurs in the body of a
function that was read, and lower it successfully, in any state and against any symbols. If the
expression evaluates to a value, or the statement runs to an outcome, then the machine runs the
code to its end: with the value in `rdi`, or with the outcome. Memory is what the semantics says,
except for the words below the stack pointer that the code uses. -/
theorem semantic_preservation {file source : Bytes} {limits : Limits} {p : Program} {f : Function}
    {items : List Stmt} (hp : Program.ofSource file source limits = .ok p) (hf : f ∈ p.functions)
    (hb : f.body = some items) {c : Context} {st st' : State} {code : Code} {frame : Frame}
    (hframe : st'.frame.Extends frame) (s : Machine.State) :
    (∀ want e v m', Node.Occurs (.expr e) items → lower c want e st = .ok (code, st') →
      Starts s code e.words →
      Eval ⟨s.regs .rbp, frame, c.symbols⟩ (spared s code e.words) want e s.mem v m' →
      ∃ s', Runs s s' ∧ Finishes code s s' .normal ∧ (s'.regs .rdi).toInt = v ∧
        ∀ x, ¬ Below (s.regs .rsp) (8 * e.words) x → s'.mem x = m' x) ∧
    (∀ stmt o m', Node.Occurs (.stmt stmt) items → statement c stmt st = .ok (code, st') →
      Starts s code stmt.words →
      Exec ⟨s.regs .rbp, frame, c.symbols⟩ (spared s code stmt.words) stmt s.mem o m' →
      ∃ s', Runs s s' ∧ Finishes code s s' o ∧
        ∀ x, ¬ Below (s.regs .rsp) (8 * stmt.words) x → s'.mem x = m' x) := by
  -- Programs that come from a text are typed, and so is every node in them.
  obtain ⟨items', hb', htyped⟩ :=
    ((Program.formed_ofSource (Int.le_max_left _ _) (Int.le_max_right _ _) hp).functions f hf).body
  obtain rfl : items' = items := Option.some.inj (hb'.symm.trans hb)
  refine ⟨fun want e v m' ho hl hs h => ?_, fun stmt o m' ho hl hs h => ?_⟩
  · have he : Emits c (.expr want e) st code st' := emits_iff.mpr hl
    obtain ⟨s', hs'⟩ := Eval.computes (σ := scene s code e.words) h
      (Node.Typed.of_occurs htyped ho) he hframe s hs.ready
    exact ⟨s', hs'.runs, ⟨hs'.rip, by simpa using hs'.rsp, hs'.rbp⟩, hs'.value, hs'.sees⟩
  · have he : Emits c (.stmt stmt) st code st' := emits_iff.mpr hl
    obtain ⟨s', hs'⟩ := Exec.performs (σ := scene s code stmt.words) h
      (Node.Typed.of_occurs htyped ho) he hframe s hs.ready
    cases o with
    | normal =>
      obtain ⟨v, hs'⟩ := hs'
      exact ⟨s', hs'.runs, ⟨hs'.rip, by simpa using hs'.rsp, hs'.rbp⟩, hs'.sees⟩
    | returned v =>
      exact ⟨s', hs'.runs, ⟨hs'.value, hs'.rip, hs'.rsp, hs'.rbp⟩, hs'.sees⟩

/-! A loop that runs once, in a frame with one slot and with its code at an address of its own. -/

/-- A source with a loop and a compound assignment in it. -/
def climb : Bytes := "int main() \x7b int x = 3; while (x < 5) \x7b x += 4; \x7d return x; \x7d"

/-- The loop of `climb`, wherever it stands in the source. -/
def isClimb : Stmt → Bool
  | .loop (.binary .lt _ (.ident _ _ (.stack i) .int) (.num a _ .int) .int)
      (.block [.eval (.binary .addAssign _ (.ident _ _ (.stack j) .int) (.num b _ .int) .int)]) =>
    i == 0 && j == 0 && a == 5 && b == 4
  | _ => false

/-- The code of the loop. -/
def climbCode : Code :=
  loopCode
    (arithmeticCode (comparison .less) .int ([.leaRdi (-4)] ++ [.loadRdi .dword]) [.movImm .rdi 5])
    (assignCode .addAssign .int .dword [.leaRdi (-4)] [.movImm .rdi 4])

/-- The machine at the start of the loop, when `x` is three. -/
def climbStart : Machine.State where
  regs
    | .rbp => 0x7000
    | .rsp => 0x6ff0
    | _ => 0
  mem x := if x = 0x6ffc then 3 else climbCode.bytes.getD (x - 0x1000).toNat 0
  flags := none
  rip := 0x1000

/-- Lowering with `x` in a slot of its own. -/
def climbState : State := { frame := ⟨[(0, -4)], 4⟩ }

def climbContext : Context := ⟨{}, {}, {}, 0⟩

/-- The loop is lowered to this code. -/
theorem climb_lowers {stmt : Stmt} (h : isClimb stmt) :
    statement climbContext stmt climbState = .ok (climbCode, climbState) ∧ stmt.words = 2 := by
  unfold isClimb at h
  split at h
  · simp only [Bool.and_eq_true, beq_iff_eq] at h
    obtain ⟨⟨⟨rfl, rfl⟩, rfl⟩, rfl⟩ := h
    exact ⟨rfl, rfl⟩
  · cases h

/-- The machine has the code in its place, and stack to spare. -/
theorem climb_starts : Starts climbStart climbCode 2 :=
  ⟨by decide +kernel, fun _ hx hc =>
    Span.disjoint (a := 0x1000) (b := 0x6fe0) (by decide) (by decide) hc hx⟩

/-- The slot of `x` is left to the program. -/
theorem climb_spared {x : Word} (hx : Span 0x6ffc 4 x) :
    ¬ Below (climbStart.regs .rsp) (8 * 2) x :=
  fun hb => Span.disjoint (a := 0x6fe0) (b := 0x6ffc) (by decide) (by decide) hb hx

theorem climb_reads : (spared climbStart climbCode 2).Reads .dword 0x6ffc :=
  fun _ hx => climb_spared hx

theorem climb_writes : (spared climbStart climbCode 2).Writes .dword 0x6ffc := fun _ hx =>
  ⟨climb_spared hx, fun hc =>
    Span.disjoint (a := 0x1000) (b := 0x6ffc) (by decide) (by decide) hc hx⟩

/-- Where `x` lives. -/
def climbPlaces : Places := ⟨climbStart.regs .rbp, climbState.frame, climbContext.symbols⟩

theorem climb_slot : climbPlaces.slot? 0 = some 0x6ffc := rfl

/-- The condition asks whether the variable is less than five. -/
theorem climb_condition (m : Memory) (name : Bytes) (i j k : Int) :
    Eval climbPlaces (spared climbStart climbCode 2) .value
      (.binary .lt i (.ident name j (.stack 0) .int) (.num 5 k .int) .int) m
      (CType.wrap .int (indicator (m.get .dword 0x6ffc < 5))) m :=
  .binary (.load rfl rfl (.localAddress climb_slot) climb_reads) .num rfl

theorem climb_get : (climbStart.mem.put .dword 0x6ffc 7).get .dword 0x6ffc = 7 := by
  decide +kernel

/-- The loop runs once, and `x` is seven afterwards. -/
theorem climb_runs {stmt : Stmt} (h : isClimb stmt) :
    Exec climbPlaces (spared climbStart climbCode 2) stmt climbStart.mem .normal
      (climbStart.mem.put .dword 0x6ffc 7) := by
  unfold isClimb at h
  split at h
  · simp only [Bool.and_eq_true, beq_iff_eq] at h
    obtain ⟨⟨⟨rfl, rfl⟩, rfl⟩, rfl⟩ := h
    have hstart : climbStart.mem.get .dword 0x6ffc = 3 := by decide +kernel
    refine .loopAgain (climb_condition _ _ _ _ _) ?_ (.blockNext (.eval (.compound (z := 7)
      (.localAddress climb_slot) .num rfl climb_reads ?_ climb_writes)) .blockNil) (.loopDone ?_)
    · rw [hstart]
      decide
    · rw [hstart]
      rfl
    · have hdone := climb_condition (climbStart.mem.put .dword 0x6ffc 7)
      rw [climb_get] at hdone
      exact hdone _ _ _ _
  · cases h

theorem semantic_preservation_climb : ∃ p f items stmt,
    Program.ofSource "climb.c" climb {} = .ok p ∧ f ∈ p.functions ∧ f.body = some items ∧
      Node.Occurs (.stmt stmt) items ∧
      statement climbContext stmt climbState = .ok (climbCode, climbState) ∧
      ∃ s', Runs climbStart s' ∧ Finishes climbCode climbStart s' .normal ∧
        s'.mem.get .dword 0x6ffc = 7 := by
  have hread : (Program.ofSource "climb.c" climb {}).toOption.any (fun p =>
      p.functions.any fun f => (f.body.getD []).any isClimb) = true := by decide +kernel
  obtain ⟨p, hp, hread⟩ := exists_ok_of_any hread
  obtain ⟨f, hf, hread⟩ := List.any_eq_true.mp hread
  obtain ⟨stmt, hstmt, hclimb⟩ := List.any_eq_true.mp hread
  cases hb : f.body with
  | none =>
    rw [hb] at hstmt
    cases hstmt
  | some items =>
    rw [hb] at hstmt
    obtain ⟨hlower, hwords⟩ := climb_lowers hclimb
    have ho : Node.Occurs (.stmt stmt) items := ⟨stmt, hstmt, .refl⟩
    obtain ⟨s', hruns, hend, hmem⟩ := (semantic_preservation hp hf hb (.refl _) climbStart).2
      stmt .normal _ ho hlower (hwords ▸ climb_starts) (hwords ▸ climb_runs hclimb)
    refine ⟨p, f, items, stmt, hp, hf, hb, ho, hlower, s', hruns, hend, ?_⟩
    rw [← climb_get, Memory.get, Memory.get, Memory.load_congr fun x hx => hmem x ?_]
    rw [hwords]
    exact climb_spared hx

end Lowering

end DirectC
