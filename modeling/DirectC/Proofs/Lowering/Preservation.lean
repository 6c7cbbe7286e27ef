/-
# Lowered code does what its tree means

The simulation of the semantics by machine code. If an expression evaluates to a value, its code
computes that value (`Eval.computes`), and if a statement runs to an outcome, so does its code
(`Exec.performs`). Both go by induction on the derivation of the semantics; in each case the
derivation of the code has the one form that fits.

The code of a tree pushes at most `words` words at a time. They lie below the stack pointer, where
the program keeps nothing of its own.
-/
import DirectC.Proofs.Basic
import DirectC.Proofs.Layout
import DirectC.Proofs.Lowering.Derivation
import DirectC.Proofs.Lowering.Operators

namespace DirectC

open Machine (Word Memory)

/-! ## Frames that grow -/

/-- A frame with at least the slots of another one. -/
def Frame.Extends (f g : Frame) : Prop :=
  ∀ id offset, f.offset? id = some offset → g.offset? id = some offset

theorem Frame.Extends.refl (f : Frame) : f.Extends f :=
  fun _ _ h => h

theorem Frame.Extends.trans {f g h : Frame} (hf : f.Extends g) (hg : g.Extends h) : f.Extends h :=
  fun id offset hs => hg id offset (hf id offset hs)

/-- A variable that asks for its slot has it afterwards, and no slot is lost. -/
theorem Frame.slot_extends {f g : Frame} {l : Layout} {id : Int} {type : CType} {offset : Int32}
    (h : f.slot l id type = .ok (offset, g)) : f.Extends g ∧ g.offset? id = some offset := by
  rcases Frame.slot_ok.mp h with ⟨hsome, rfl⟩ | ⟨hnone, size, align, _, _, _, rfl⟩
  · exact ⟨.refl _, hsome⟩
  · refine ⟨fun id' offset' h' => ?_, ?_⟩
    · simp only [Frame.offset?, List.find?_append] at h' ⊢
      obtain ⟨s, hs, hs'⟩ := Option.map_eq_some_iff.mp h'
      rw [hs, Option.some_or, Option.map_some, hs']
    · simp only [Frame.offset?, Option.map_eq_none_iff] at hnone
      simp only [Frame.offset?, List.find?_append]
      rw [hnone]
      simp

namespace Lowering

variable {c : Context} {job : Job} {st st' : State} {code : Code}

/-- No slot is given away twice: the frame behind a job has all slots of the one before it. -/
theorem Emits.extends (h : Emits c job st code st') : st.frame.Extends st'.frame := by
  induction h with
  | localAddress hs => exact (Frame.slot_extends hs).1
  | num | globalAddress | str | argsNil | retNone | stmtsNil => exact .refl _
  | derefAddress _ ih | array _ _ _ ih | load _ _ _ _ _ ih | decay _ _ ih | addr _ _ ih
  | eval _ ih | retSome _ ih | exit _ ih | block _ ih => exact ih
  | assign _ _ _ _ _ _ ihl ihr => exact ihl.trans ihr
  | logical _ _ _ _ _ _ ihl ihr => exact ihl.trans ihr
  | arithmetic _ _ _ _ ihl ihr => exact ihl.trans ihr
  | @call _ _ _ _ st =>
    have hp : st.padded.frame = st.frame := by unfold State.padded; split <;> rfl
    rename_i ih
    rw [hp] at ih
    unfold State.afterCall
    split <;> exact ih
  | argsCons _ _ ihr iha => exact ihr.trans iha
  | ifThen _ _ _ ihc ihy => exact ihc.trans ihy
  | ifElse _ _ _ _ _ ihc ihy ihn => exact (ihc.trans ihy).trans ihn
  | loop _ _ _ _ ihc ihb => exact ihc.trans ihb
  | stmtsCons _ _ ihs ihr => exact ihs.trans ihr

end Lowering

/-! ## Words of stack -/

/-- The number of words that the code of an expression without calls has on the stack at most. -/
def Expr.words : Expr → Nat
  | .decay inner _ => inner.words
  | .unary _ _ operand _ => operand.words
  | .binary op _ left right _ =>
    if op.isAssign then max left.words (right.words + 1)
    else if op.isLogical then max left.words right.words
    else max left.words (max right.words 1 + 1)
  | _ => 0

mutual

/-- The number of words that the code of a statement without calls has on the stack at most. -/
def Stmt.words : Stmt → Nat
  | .eval e => e.words
  | .ret (some e) _ => e.words
  | .ifThen cond yes => max cond.words yes.words
  | .ifElse cond yes no => max cond.words (max yes.words no.words)
  | .loop cond body => max cond.words body.words
  | .block items => Stmt.listWords items
  | _ => 0

/-- The same for statements one after the other. -/
def Stmt.listWords : List Stmt → Nat
  | [] => 0
  | s :: rest => max s.words (Stmt.listWords rest)

end

/-! ## Types and their values -/

/-- The width that the layout gives to a value is that of its type. -/
theorem CType.width?_eq {l : Layout} {type : CType} {n : Int64} {w w' : Width}
    (hw : type.width? = some w) (hn : l.size type = .ok n) (hw' : Width.ofSize? n = some w') :
    w' = w := by
  cases type with
  | int | char | pointer =>
    obtain ⟨_, rfl⟩ := Layout.bounded_ok.mp hn
    cases hw
    cases hw'
    rfl
  | _ => cases hw

/-- Arrays are never loaded as values. -/
theorem CType.isArray_of_width? {type : CType} {w : Width} (hw : type.width? = some w) :
    type.isArray = false := by
  cases type <;> first | rfl | cases hw

/-- A number that fits into a signed number of four bytes. -/
def IsInt32 (v : Int) : Prop :=
  -2 ^ 31 ≤ v ∧ v < 2 ^ 31

/-- A remainder around zero fits into 32 bits if the modulus does. -/
theorem isInt32_bmod {n : Nat} (h0 : 0 < n) (hn : n ≤ 2 ^ 32) (v : Int) : IsInt32 (v.bmod n) := by
  have hlow := Int.le_bmod (x := v) h0
  have hhigh := Int.bmod_lt (x := v) h0
  unfold IsInt32
  omega

/-- A value that is cut to an integer type fits into 32 bits. -/
theorem isInt32_wrap {type : CType} (ht : type.isInteger) (v : Int) : IsInt32 (type.wrap v) := by
  cases type with
  | int | char => exact isInt32_bmod (by decide) (by decide) v
  | _ => cases ht

/-- Truth values fit into 32 bits. -/
theorem isInt32_indicator (p : Prop) [Decidable p] : IsInt32 (indicator p) := by
  unfold indicator IsInt32
  split <;> decide

/-- What is loaded for an integer type fits into 32 bits. -/
theorem isInt32_get {type : CType} {w : Width} (ht : type.isInteger) (hw : type.width? = some w)
    (m : Memory) (a : Int) : IsInt32 (m.get w a) := by
  rw [Memory.get, Width.toInt_signed]
  cases type with
  | int | char =>
    cases hw
    exact isInt32_bmod (by decide) (by decide) _
  | _ => cases ht

/-- The value of an expression of an integer type. -/
theorem Eval.isInt32 {π : Places} {κ : Access} {e : Expr} {m m' : Memory} {v : Int} {B : Int}
    {n : Nat} (h : Eval π κ .value e m v m') (ht : Typed B n e) (hi : e.type.isInteger) :
    IsInt32 v := by
  cases h with
  | @num value => exact ⟨value.le_toInt, value.toInt_lt⟩
  | array ha =>
    cases hte : e.type with
    | array => rw [hte] at hi; cases hi
    | _ => rw [hte] at ha; cases ha
  | load hp hw => exact isInt32_get hi hw _ _
  | decay | addr =>
    cases ht
    cases hi
  | binary | assign | compound => exact isInt32_wrap hi _
  | short | long => exact isInt32_indicator _

/-! ## Constants and addresses -/

namespace Lowering

variable {σ : Scene} {k : Nat} {m : Memory}

/-- A constant is computed by one instruction. -/
theorem computes_movImm (value : Int32) : Computes σ k [.movImm .rdi value] m value.toInt m := by
  refine .of_straight rfl fun s _ => ⟨_, rfl, rfl, rfl, ?_⟩
  simp only [Machine.State.write, Machine.State.value, Machine.State.regs_set, if_true,
    Width.low_qword]
  exact BitVec.toInt_signExtend_of_le (by decide)

/-- A fixed address is computed by one instruction. -/
theorem computes_movAddr (a : UInt32) : Computes σ k [.movAddr .rdi a] m a.toNat m := by
  refine .of_straight rfl fun s _ => ⟨_, rfl, rfl, rfl, ?_⟩
  have hlow : Width.dword.low (a.toBitVec.setWidth 64) = a.toBitVec.setWidth 64 := by
    apply BitVec.eq_of_toNat_eq
    simp [Width.low, Width.size]
  have ha : (a.toBitVec.toNat : Int) < 2 ^ 32 := by exact_mod_cast a.toNat_lt
  simp only [Machine.State.write, Machine.State.value, Machine.State.regs_set, if_true, hlow]
  rw [BitVec.toInt_setWidth]
  exact Int.bmod_eq_of_le (by omega) (by omega)

/-- The address of a slot is computed by one instruction. -/
theorem computes_leaRdi (offset : Int32) :
    Computes σ k [.leaRdi offset] m (σ.rbp + .ofInt 64 offset.toInt).toInt m := by
  refine .of_straight rfl fun s hs => ⟨_, rfl, rfl, rfl, ?_⟩
  rw [← hs]
  rfl

end Lowering

/-! ## Expressions -/

section

open Lowering

/-- Both operands of a typed operator are typed. -/
theorem Typed.operands {B : Int} {n : Nat} {op : BinaryOp} {pos : Int} {left right : Expr}
    {type : CType} (h : Typed B n (.binary op pos left right type)) :
    Typed B n left ∧ Typed B n right := by
  cases h <;> exact ⟨‹_›, ‹_›⟩

/-- Only integers are divided. -/
theorem Typed.dividend {B : Int} {n : Nat} {op : BinaryOp} {pos : Int} {left right : Expr}
    {type : CType} (h : Typed B n (.binary op pos left right type)) (ho : op = .div ∨ op = .rem) :
    left.type.isInteger := by
  cases h with
  | integers _ _ _ tl => exact tl
  | difference => rcases ho with h | h <;> cases h
  | _ => rcases ho with rfl | rfl <;> cases ‹_›

variable {σ : Scene} {c : Context} {want : Want} {e : Expr} {st st' : State} {code : Code}
  {m m' : Memory} {v B : Int} {n : Nat} {F : Frame}

/-! Every operator is of one of three kinds. -/

section

variable {op : BinaryOp} {o : Operation} {x y z : Int}

/-- Arithmetic operators neither assign nor decide. -/
theorem kind_of_operation? (ho : operation? op = some o) :
    op.isAssign = false ∧ op.isLogical = false := by
  cases op <;> first | exact ⟨rfl, rfl⟩ | cases ho

/-- Operators that have a result neither assign nor decide. -/
theorem kind_of_result? (hz : op.result? x y = some z) :
    op.isAssign = false ∧ op.isLogical = false := by
  cases op <;> first | exact ⟨rfl, rfl⟩ | cases hz

/-- Operators that combine an old value with a new one assign. -/
theorem kind_of_combine? (hz : op.combine? x y = some z) : op.isAssign := by
  cases op <;> first | rfl | cases hz

/-- Logical operators do not assign. -/
theorem kind_of_isLogical (ho : op.isLogical) : op.isAssign = false := by
  cases op <;> first | rfl | cases ho

end

/-- An assignment keeps an address on the stack while its value is computed. -/
theorem Expr.words_assign {op : BinaryOp} {pos : Int} {left right : Expr} {type : CType}
    (ho : op.isAssign) :
    (Expr.binary op pos left right type).words = max left.words (right.words + 1) := by
  rw [Expr.words, if_pos ho]

/-- A logical operator keeps nothing. -/
theorem Expr.words_logical {op : BinaryOp} {pos : Int} {left right : Expr} {type : CType}
    (ho : op.isLogical) :
    (Expr.binary op pos left right type).words = max left.words right.words := by
  rw [Expr.words, kind_of_isLogical ho, ho]
  rfl

/-- Arithmetic keeps one operand while it computes the other. -/
theorem Expr.words_arithmetic {op : BinaryOp} {o : Operation} {pos : Int} {left right : Expr}
    {type : CType} (ho : operation? op = some o) :
    (Expr.binary op pos left right type).words = max left.words (max right.words 1 + 1) := by
  rw [Expr.words, (kind_of_operation? ho).1, (kind_of_operation? ho).2]
  rfl

/-- **Expressions.** The code of an expression computes what the expression evaluates to. -/
theorem Eval.computes (h : Eval ⟨σ.rbp, F, c.symbols⟩ σ.access want e m v m') (ht : Typed B n e)
    (he : Emits c (.expr want e) st code st') (hF : st'.frame.Extends F) :
    Computes σ e.words code m v m' := by
  -- The induction is on the evaluation; the derivation of the code is taken apart by the same node.
  -- The cases closed by `cases hp` are rules for places, where the node is none.
  induction h generalizing st code st' with
  | num =>
    cases he with
    | num => exact computes_movImm _
    | array hp | load hp => cases hp
  | localAddress h =>
    cases he with
    | localAddress hs =>
      -- The slot is as in the last frame, since frames only grow.
      have hslot := hF _ _ (Frame.slot_extends hs).2
      rw [Places.slot?, hslot] at h
      cases h
      exact computes_leaRdi _
  | globalAddress h =>
    cases he with
    | globalAddress hg =>
      rw [hg] at h
      cases h
      exact computes_movAddr _
  | stringAddress h =>
    cases he with
    | str hs =>
      rw [hs] at h
      cases h
      exact computes_movAddr _
  | derefAddress _ ih =>
    cases he with
    | derefAddress he =>
      cases ht with
      | deref ht => exact ih ht he hF
  | array harray _ ih =>
    cases he with
    | array _ _ he => exact ih ht he hF
    | str hs => exact ih ht (.str hs) hF
    | num ha | load _ ha | decay ha | addr ha | assign _ ha | logical _ ha | arithmetic _ ha
    | call ha => cases ha.symm.trans harray
  | load hp hw _ hr ih =>
    cases he with
    | load _ _ he hn hw' =>
      obtain rfl := CType.width?_eq hw hn hw'
      exact (ih ht he hF).turn (turns_loadRdi hr)
    | array _ ha =>
      rw [CType.isArray_of_width? hw] at ha
      cases ha
    | _ => cases hp
  | decay _ ih =>
    cases he with
    | decay _ he =>
      cases ht with
      | decay ht => exact ih ht he hF
    | array hp | load hp => cases hp
  | addr _ ih =>
    cases he with
    | addr _ he =>
      cases ht with
      | addr ht => exact ih ht he hF
    | array hp | load hp => cases hp
  | binary hl _ hz ihl ihr =>
    obtain ⟨htl, htr⟩ := ht.operands
    cases he with
    | arithmetic ho _ hel her =>
      rw [Expr.words_arithmetic ho]
      refine computes_arithmetic ho (ihl htl hel (her.extends.trans hF)) (ihr htr her hF) hz ?_
      -- A dividend is a 32-bit number, so the quotient of two words cannot overflow.
      intro hop
      have hx := (hl.isInt32 htl (ht.dividend hop)).1
      omega
    | assign ho => cases ho.symm.trans (kind_of_result? hz).1
    | logical ho => cases ho.symm.trans (kind_of_result? hz).2
    | array hp | load hp => cases hp
  | short _ hd ihl =>
    have ho := isLogical_of_decidedBy hd
    cases he with
    | logical _ _ hel her _ hg =>
      rw [Expr.words_logical ho]
      exact (computes_short (ihl ht.operands.1 hel (her.extends.trans hF)) hd hg).mono
        (Nat.le_max_left _ _)
    | assign ho' => cases ho'.symm.trans (kind_of_isLogical ho)
    | arithmetic ho' => cases ho.symm.trans (kind_of_operation? ho').2
    | array hp | load hp => cases hp
  | long ho _ hd _ ihl ihr =>
    obtain ⟨htl, htr⟩ := ht.operands
    cases he with
    | logical _ _ hel her hs hg =>
      rw [Expr.words_logical ho]
      exact computes_long ho (ihl htl hel (her.extends.trans hF)) hd (ihr htr her hF) hs hg
    | assign ho' => cases ho'.symm.trans (kind_of_isLogical ho)
    | arithmetic ho' => cases ho.symm.trans (kind_of_operation? ho').2
    | array hp | load hp => cases hp
  | assign _ _ hw ha ihl ihr =>
    obtain ⟨htl, htr⟩ := ht.operands
    cases he with
    | assign ho _ hel her hn hw' =>
      obtain rfl := CType.width?_eq hw hn hw'
      rw [Expr.words_assign ho]
      exact computes_assign (ihl htl hel (her.extends.trans hF)) (ihr htr her hF) ha
    | logical ho | arithmetic ho => cases ho
    | array hp | load hp => cases hp
  | compound _ _ hw hread hz ha ihl ihr =>
    obtain ⟨htl, htr⟩ := ht.operands
    cases he with
    | assign ho _ hel her hn hw' =>
      obtain rfl := CType.width?_eq hw hn hw'
      rw [Expr.words_assign ho]
      exact computes_compound (ihl htl hel (her.extends.trans hF)) (ihr htr her hF) hread hz ha
    | logical ho => cases (kind_of_combine? hz).symm.trans (kind_of_isLogical ho)
    | arithmetic ho => cases (kind_of_combine? hz).symm.trans (kind_of_operation? ho).1
    | array hp | load hp => cases hp

end

/-! ## Code that runs to an outcome -/

namespace Lowering

/-- A run that returns from the function: the frame is gone, and control is at the return
address. -/
structure Returns (σ : Scene) (k : Nat) (v : Int) (m' : Memory) (s s' : Machine.State) : Prop
    extends Keeps σ k s s' where
  value : (s'.regs .rax).toInt = v
  rsp : s'.regs .rsp = σ.rbp + 16
  rbp : s'.regs .rbp = s'.mem.load .qword σ.rbp
  rip : s'.rip = s'.mem.load .qword (σ.rbp + 8)
  sees : ∀ x, σ.access.reads x → s'.mem x = m' x

/-- Where a run over code of `n` bytes ends. -/
def Ends (σ : Scene) (k n : Nat) (m' : Memory) (s s' : Machine.State) : Outcome → Prop
  | .normal => ∃ v, Reaches σ k 0 n v m' s s'
  | .returned v => Returns σ k v m' s s'

/-- **Code that runs to an outcome.** -/
def Performs (σ : Scene) (k : Nat) (code : Code) (m : Memory) (o : Outcome) (m' : Memory) : Prop :=
  ∀ s, Ready σ k code m s → ∃ s', Ends σ k code.size m' s s' o

variable {σ : Scene} {k k' n n' : Nat} {x y : Code} {m m1 m2 m' : Memory} {v : Int} {o : Outcome}
  {s s1 s2 s' : Machine.State}

/-- An end that is reached is reached with more stack to spare. -/
theorem Ends.mono (h : Ends σ k n m' s s' o) (hk : k ≤ k') : Ends σ k' n m' s s' o := by
  cases o with
  | normal =>
    obtain ⟨v, h⟩ := h
    exact ⟨v, h.mono hk⟩
  | returned v => exact { h with toKeeps := h.toKeeps.mono hk }

/-- A run before another one. -/
theorem Ends.after (h : Reaches σ k 0 n v m1 s s1) (h' : Ends σ k n' m' s1 s2 o) :
    Ends σ k (n + n') m' s s2 o := by
  cases o with
  | normal =>
    obtain ⟨v', h'⟩ := h'
    exact ⟨v', h.append h'⟩
  | returned r => exact { h' with toKeeps := h.toKeeps.trans h'.toKeeps (by simp [h.rsp]) }

/-- Code performs the same with more stack to spare. -/
theorem Performs.mono (h : Performs σ k x m o m') (hk : k ≤ k') : Performs σ k' x m o m' := by
  intro s hs
  obtain ⟨s', hs'⟩ := h s (hs.mono hk)
  exact ⟨s', hs'.mono hk⟩

/-- A value may be dropped. -/
theorem Computes.performs (h : Computes σ k x m v m') : Performs σ k x m .normal m' := by
  intro s hs
  obtain ⟨s', hs'⟩ := h s hs
  exact ⟨s', v, hs'⟩

/-- One statement after another. -/
theorem Performs.append (hx : Performs σ k x m .normal m1) (hy : Performs σ k y m1 o m') :
    Performs σ k (x ++ y) m o m' := by
  intro s hs
  obtain ⟨s1, v, h1⟩ := hx s hs.left
  obtain ⟨s2, h2⟩ := hy s1 (hs.next h1)
  rw [Code.size_append]
  exact ⟨s2, .after h1 h2⟩

/-- What stands behind a return is not run. -/
theorem Performs.left (hx : Performs σ k x m (.returned v) m') :
    Performs σ k (x ++ y) m (.returned v) m' :=
  fun s hs => hx s hs.left

/-! ## Returns -/

/-- An instruction that sets `rax`, and the end of the function. -/
theorem Ready.returns {i : Instr} (h : Ready σ k ([i] ++ [.leave, .ret]) m s)
    (hi : Machine.isStraight [i]) (hrun : Machine.through [i] s = some s1)
    (hrbp : s1.regs .rbp = s.regs .rbp) (hrsp : s1.regs .rsp = s.regs .rsp)
    (hv : (s1.regs .rax).toInt = v) : ∃ s', Returns σ k v m s s' := by
  have h1 : Reaches σ k 0 _ _ m s s1 :=
    .of_straight h.left hi hrun hrbp (by simpa using hrsp) rfl
  have hs1 := h.next h1
  let s2 := ((s1.advance Instr.leave.size).set .rsp (s1.regs .rbp)).pop .rbp
  have hleave : Machine.step s1 = some s2 := Machine.step_of_loaded rfl hs1.loaded
  have hl : Machine.Loaded σ.text s2.mem s2.rip [.ret] :=
    Machine.Loaded.right (x := [.leave]) hs1.loaded
  have hret : Machine.step s2 = _ := Machine.step_of_loaded rfl hl
  have hbase : s1.regs .rbp = σ.rbp := hs1.rbp
  have hrsp2 : s2.regs .rsp = σ.rbp + 8 := by
    rw [← hbase]
    rfl
  -- `leave` puts the stack back to the frame pointer, and `ret` takes the address above it.
  refine ⟨_, ⟨h1.runs.tail hleave |>.tail hret, h1.mem⟩, hv, ?_, ?_, ?_, h1.sees⟩
  · change s2.regs .rsp + 8 = _
    rw [hrsp2, BitVec.add_assoc]
    rfl
  · change s1.mem.load .qword (s1.regs .rbp) = s1.mem.load .qword σ.rbp
    rw [hbase]
  · change s1.mem.load .qword (s2.regs .rsp) = s1.mem.load .qword (σ.rbp + 8)
    rw [hrsp2]

/-- Falling off the end returns zero. -/
theorem performs_returnZero : Performs σ k Instr.returnZero m (.returned 0) m := by
  intro s hs
  refine Ready.returns (i := .clear .rax) hs rfl rfl rfl rfl ?_
  simp only [Machine.State.arith, Machine.State.write, Machine.State.read, Machine.State.value,
    Instr.reading, Machine.State.regs_set, if_true, BitVec.xor_self]
  rfl

/-- A value may be returned. -/
theorem Computes.returns (h : Computes σ k x m v m') :
    Performs σ k (x ++ [.mov .rax .rdi, .leave, .ret]) m (.returned v) m' := by
  intro s hs
  obtain ⟨s1, h1⟩ := h s hs.left
  obtain ⟨s2, h2⟩ := Ready.returns (i := .mov .rax .rdi) (v := v) (hs.next h1) rfl rfl rfl rfl (by
    simp [Machine.State.write, Machine.State.value, Machine.State.read, Instr.reading, h1.value])
  refine ⟨s2, ?_⟩
  rw [Code.size_append]
  exact Ends.after (o := .returned v) h1 h2

/-! ## Branches -/

/-- No code has no effect. -/
theorem Performs.nil : Performs σ k [] m .normal m := by
  intro s hs
  exact ⟨s, _, .of_straight hs rfl rfl rfl (by simp) rfl⟩

/-- Code that is run if a condition holds. -/
theorem Computes.branch {disp : Int8} (hx : Computes σ k x m v m1) (hv : v ≠ 0)
    (hd : disp.toInt = n) (hy : Performs σ k y m1 o m') :
    Performs σ k (x ++ ([.testRdi, .jumpIf .equal disp] ++ y)) m o m' := by
  intro s hs
  obtain ⟨s1, h1⟩ := hx s hs.left
  obtain ⟨s2, h2, hs2⟩ := (hs.next h1).untaken h1.value (.inl ⟨rfl, by simp [hv]⟩) hd
  obtain ⟨s3, h3⟩ := hy s2 hs2
  refine ⟨s3, ?_⟩
  rw [Code.size_append, Code.size_append]
  exact .after h1 (.after h2 h3)

/-- Code that is skipped if a condition does not hold. -/
theorem Computes.skip {disp : Int8} {z : Code} (hx : Computes σ k x m 0 m1)
    (hd : disp.toInt = y.size) (hz : Performs σ k z m1 o m') :
    Performs σ k (x ++ ([.testRdi, .jumpIf .equal disp] ++ (y ++ z))) m o m' := by
  intro s hs
  obtain ⟨s1, h1⟩ := hx s hs.left
  obtain ⟨s2, h2, hs2⟩ := (hs.next h1).taken h1.value (.inl ⟨rfl, rfl⟩) hd
  obtain ⟨s3, h3⟩ := hz s2 hs2
  refine ⟨s3, ?_⟩
  rw [← List.append_assoc _ y z, Code.size_append x, Code.size_append _ z]
  exact .after h1 (.after h2 h3)

/-- A statement, and a jump over the code behind it. -/
theorem Performs.over {disp : Int8} (hx : Performs σ k x m o m') (hd : disp.toInt = y.size) :
    Performs σ k (x ++ ([.jump disp] ++ y)) m o m' := by
  cases o with
  | returned v => exact hx.left
  | normal =>
    intro s hs
    obtain ⟨s1, v, h1⟩ := hx s hs.left
    obtain ⟨s2, h2⟩ := (hs.next h1).over h1.value hd
    refine ⟨s2, v, ?_⟩
    rw [Code.size_append]
    exact h1.append h2

/-! ## Loops -/

/-- A jump back to the start of the code that it ends. -/
theorem Ready.back {disp : Int8} (h : Ready σ k (x ++ [.jump disp]) m s)
    (h1 : Reaches σ k 0 x.size v m1 s s1)
    (hd : disp.toInt = -(Code.size (x ++ [.jump disp]) : Int)) :
    ∃ s', Reaches σ k 0 0 v m1 s s' := by
  have hs1 := h.next h1
  have hstep := Machine.step_of_loaded rfl hs1.loaded
  refine ⟨_, ⟨h1.runs.tail hstep, h1.mem⟩, h1.rbp, h1.rsp, ?_, h1.value, h1.sees⟩
  have hsize : Code.size (x ++ [.jump disp]) = x.size + Instr.jumpSize := by
    rw [Code.size_append]
    rfl
  change s1.rip + .ofNat 64 Instr.jumpSize + .ofInt 64 disp.toInt = s.rip + 0
  rw [hd, hsize, h1.rip, BitVec.add_assoc s.rip, ← BitVec.ofNat_add, BitVec.ofInt_neg,
    BitVec.ofInt_natCast, ← BitVec.sub_eq_add_neg, BitVec.add_sub_cancel]
  simp

/-- A round of a loop, and the rounds after it. -/
theorem Computes.again {disp back : Int8} {loop : Code} (hx : Computes σ k x m v m1) (hv : v ≠ 0)
    (hd : disp.toInt = n) (hy : Performs σ k y m1 .normal m2) (hl : Performs σ k loop m2 o m')
    (hloop : loop = x ++ ([.testRdi, .jumpIf .equal disp] ++ (y ++ [.jump back])))
    (hback : back.toInt = -(Code.size loop : Int)) : Performs σ k loop m o m' := by
  intro s hs
  have hround : loop = (x ++ ([.testRdi, .jumpIf .equal disp] ++ y)) ++ [.jump back] := by
    rw [hloop]
    simp
  obtain ⟨s1, v1, h1⟩ := (hx.branch hv hd hy) s (hround ▸ hs).left
  obtain ⟨s2, h2⟩ := (hround ▸ hs).back h1 (hround ▸ hback)
  obtain ⟨s3, h3⟩ := hl s2 (Ready.next (x := []) hs h2)
  refine ⟨s3, ?_⟩
  rw [← Nat.zero_add loop.size]
  exact .after h2 h3

/-! ## The code of statements -/

theorem ifThenCode_eq (x y : Code) :
    ifThenCode x y = x ++ ([.testRdi, .jumpIf .equal (.ofInt (Code.size y))] ++ y) := by
  simp [ifThenCode]

theorem ifElseCode_eq (x y z : Code) :
    ifElseCode x y z = x ++ ([.testRdi,
      .jumpIf .equal (.ofInt (Code.size y + Instr.jumpSize))] ++
      (y ++ ([.jump (.ofInt (Code.size z))] ++ z))) := by
  simp [ifElseCode]

theorem loopCode_eq (x y : Code) :
    loopCode x y = x ++ ([.testRdi, .jumpIf .equal (.ofInt (Code.size y + Instr.jumpSize))] ++
      (y ++ [.jump (.ofInt (-loopSize x y))])) := by
  simp [loopCode]

/-- The backward jump of a loop spans the loop. -/
theorem size_loopCode (x y : Code) : (Code.size (loopCode x y) : Int) = loopSize x y := by
  have hjump : ∀ disp, Code.size [.jump disp] = Instr.jumpSize := fun _ => rfl
  have htest : ∀ disp, Code.size [.testRdi, .jumpIf .equal disp] =
      Code.size [.testRdi] + Instr.jumpSize := fun _ => rfl
  rw [loopCode_eq, loopSize]
  simp only [Code.size_append, hjump, htest]
  omega

end Lowering

section

open Lowering

variable {σ : Scene} {c : Context} {stmt : Stmt} {st st' : State} {code : Code}
  {m m' : Memory} {o : Outcome} {B : Int} {n : Nat} {F : Frame}

/-- **Statements.** The code of a statement runs to the outcome of the statement. -/
theorem Exec.performs (h : Exec ⟨σ.rbp, F, c.symbols⟩ σ.access stmt m o m')
    (ht : TypedStmt B n stmt) (he : Emits c (.stmt stmt) st code st')
    (hF : st'.frame.Extends F) : Performs σ stmt.words code m o m' := by
  -- A loop that goes on is followed by a shorter execution of the same loop, so the induction is on
  -- the execution and the code is the same before and after the jump back.
  induction h generalizing st code st' with
  | eval h =>
    cases he with
    | eval he =>
      cases ht with
      | eval ht => exact (h.computes ht he hF).performs
  | retNone =>
    cases he with
    | retNone => exact performs_returnZero
  | retSome h =>
    cases he with
    | retSome he =>
      cases ht with
      | retSome ht => exact (h.computes ht he hF).returns
  | ifThenYes hc hv _ ihy =>
    cases he with
    | ifThen hec hey hg =>
      cases ht with
      | ifThen htc _ hty =>
        have hcond := hc.computes htc hec (hey.extends.trans hF)
        rw [Stmt.words, ifThenCode_eq]
        exact (hcond.mono (by omega)).branch hv hg.toInt ((ihy hty hey hF).mono (by omega))
  | ifThenNo hc =>
    cases he with
    | @ifThen _ _ _ _ _ y _ hec hey hg =>
      cases ht with
      | ifThen htc =>
        have hcond := hc.computes htc hec (hey.extends.trans hF)
        rw [Stmt.words, ifThenCode_eq, ← List.append_nil y]
        exact (hcond.mono (by omega)).skip (by simpa using hg.toInt) .nil
  | ifElseYes hc hv _ ihy =>
    cases he with
    | ifElse hec hey hen hs hg =>
      cases ht with
      | ifElse htc _ hty =>
        have hFy := hen.extends.trans hF
        have hcond := hc.computes htc hec (hey.extends.trans hFy)
        rw [Stmt.words, ifElseCode_eq]
        exact (hcond.mono (by omega)).branch hv (hg.over 0)
          (((ihy hty hey hFy).mono (by omega)).over hs.toInt)
  | ifElseNo hc _ ihn =>
    cases he with
    | ifElse hec hey hen hs hg =>
      cases ht with
      | ifElse htc _ _ htn =>
        have hcond := hc.computes htc hec (hey.extends.trans (hen.extends.trans hF))
        rw [Stmt.words, ifElseCode_eq, ← List.append_assoc _ [_]]
        exact (hcond.mono (by omega)).skip (hg.over _) ((ihn htn hen hF).mono (by omega))
  | loopDone hc =>
    cases he with
    | loop hec heb hg =>
      cases ht with
      | loop htc =>
        have hcond := hc.computes htc hec (heb.extends.trans hF)
        rw [Stmt.words, loopCode_eq, ← List.append_nil (_ ++ [_])]
        exact (hcond.mono (by omega)).skip (hg.over _) .nil
  | loopAgain hc hv _ _ ihb ihl =>
    cases he with
    | loop hec heb hg hk =>
      cases ht with
      | loop htc hts htb =>
        have hcond := hc.computes htc hec (heb.extends.trans hF)
        have hrest := ihl (.loop htc hts htb) (.loop hec heb hg hk) hF
        rw [Stmt.words] at hrest ⊢
        refine (hcond.mono (by omega)).again hv (hg.over 0)
          ((ihb htb heb hF).mono (by omega)) hrest (loopCode_eq _ _) ?_
        rw [hk.toInt, size_loopCode]
  | loopReturn hc hv _ ihb =>
    cases he with
    | loop hec heb hg =>
      cases ht with
      | loop htc _ htb =>
        have hcond := hc.computes htc hec (heb.extends.trans hF)
        rw [Stmt.words, loopCode_eq]
        exact (hcond.mono (by omega)).branch hv (hg.over 0)
          ((ihb htb heb hF).mono (by omega)).left
  | blockNil =>
    cases he with
    | block he =>
      cases he with
      | stmtsNil => exact .nil
  | blockNext _ _ ihs ihr =>
    cases he with
    | block he =>
      cases he with
      | stmtsCons hes her =>
        cases ht with
        | block ht =>
          have hs := ihs (ht _ (List.mem_cons_self ..)) hes (her.extends.trans hF)
          have hr := ihr (.block fun s hs => ht s (List.mem_cons_of_mem _ hs)) (.block her) hF
          exact (hs.mono (Nat.le_max_left _ _)).append (hr.mono (Nat.le_max_right _ _))
  | blockReturn _ ihs =>
    cases he with
    | block he =>
      cases he with
      | stmtsCons hes her =>
        cases ht with
        | block ht =>
          have hs := ihs (ht _ (List.mem_cons_self ..)) hes (her.extends.trans hF)
          exact (hs.mono (Nat.le_max_left _ _)).left

end

end DirectC
