/-
# The code of operators

What the pieces of code that stand for operators do: loads, cuts to the width of a type,
arithmetic, comparisons, assignments and short circuits. Each lemma says that a piece of lowered
code computes what the semantics prescribes, given that the code of the operands does.
-/
import DirectC.Proofs.Lowering.Computation

namespace DirectC

namespace Lowering

open Machine (Word Memory Span Below Loaded Runs through)

variable {s : Machine.State} {x y z : Int}

/-! ## Arithmetic -/

/-- A quotient is not larger than its dividend. -/
theorem tdiv_bounds (hx : -2 ^ 63 < x) (hx' : x < 2 ^ 63) :
    ¬ (x.tdiv y < -2 ^ 63 ∨ 2 ^ 63 ≤ x.tdiv y) := by
  have h : (x.tdiv y).natAbs ≤ x.natAbs := by
    rw [Int.natAbs_tdiv]
    exact Nat.div_le_self _ _
  omega

/-- The code of a division leaves the quotient or the remainder. -/
theorem through_division {r : Register} (hx : -2 ^ 63 < (s.regs .rax).toInt)
    (hy : (s.regs .rdi).toInt ≠ 0)
    (hr : r = .rax ∧ z = (s.regs .rax).toInt.tdiv (s.regs .rdi).toInt ∨
      r = .rdx ∧ z = (s.regs .rax).toInt.tmod (s.regs .rdi).toInt) :
    ∃ s', through [.cqo, .divRdi, .mov .rdi r] s = some s' ∧ s'.regs .rbp = s.regs .rbp ∧
      s'.regs .rsp = s.regs .rsp ∧ (s'.regs .rdi).toInt = z.bmod (2 ^ 64) := by
  let s1 := ((s.advance Instr.cqo.size).set .rdx (if (s.regs .rax).msb then -1 else 0)).advance
    Instr.divRdi.size
  have hn : (s1.regs .rdx ++ s1.regs .rax).toInt = (s.regs .rax).toInt :=
    Machine.toInt_signed_pair _
  have hd : (s1.read .qword (.reg .rdi)).toInt = (s.regs .rdi).toInt := by
    simp [s1, Machine.State.read]
  have hdivide : s1.divide (.reg .rdi) = some { (s1.set .rax
        (.ofInt 64 ((s.regs .rax).toInt.tdiv (s.regs .rdi).toInt))).set .rdx
        (.ofInt 64 ((s.regs .rax).toInt.tmod (s.regs .rdi).toInt)) with flags := none } := by
    unfold Machine.State.divide
    dsimp only
    rw [hn, hd, if_neg]
    -- The machine faults on a zero divisor and on a quotient that is no word.
    rintro (h | h)
    · exact hy h
    · exact tdiv_bounds hx BitVec.toInt_lt h
  have hrun : through [.cqo, .divRdi, .mov .rdi r] s =
      (s1.divide (.reg .rdi)).bind (through [.mov .rdi r]) := rfl
  rw [hrun, hdivide]
  refine ⟨_, rfl, rfl, rfl, ?_⟩
  rcases hr with ⟨rfl, rfl⟩ | ⟨rfl, rfl⟩ <;>
    simp [Machine.State.write, Machine.State.value, Machine.State.read, Instr.reading,
      BitVec.toInt_ofInt]

/-- The code of a comparison leaves one or zero. -/
theorem through_comparison {c : Condition} {b : Bool}
    (h : c.holds? (.ofDifference (s.regs .rax) (s.regs .rdi)) = some b) :
    ∃ s', through (comparison c).code s = some s' ∧ s'.regs .rbp = s.regs .rbp ∧
      s'.regs .rsp = s.regs .rsp ∧ (s'.regs .rdi).toInt = if b then 1 else 0 := by
  have hrun : through (comparison c).code s =
      (Option.map _ (c.holds? (.ofDifference ((Width.qword.low (s.regs .rax)).setWidth 64)
        ((Width.qword.low (s.regs .rdi)).setWidth 64)))).bind (through [.movEdiAl]) := rfl
  rw [hrun]
  simp only [Width.low_qword, BitVec.setWidth_eq]
  rw [h]
  refine ⟨_, rfl, rfl, rfl, ?_⟩
  simp only [Machine.State.write, Machine.State.read, Machine.State.regs_set,
    Machine.State.regs_advance, if_true, Width.low_byte_merge]
  cases b <;> rfl

/-- What the four conditions say of two numbers that were compared. -/
theorem holds_ofDifference {op : BinaryOp} {c : Condition} {a b : Word}
    (ho : operation? op = some (comparison c)) (hz : op.result? a.toInt b.toInt = some z) :
    ∃ p, c.holds? (.ofDifference a b) = some p ∧ z = if p then 1 else 0 := by
  -- The sign differs from the overflow just where the first operand is the smaller one.
  have hless := Machine.sign_ne_overflow a b
  have heq := Machine.sub_eq_zero_iff a b
  cases op with
  | lt =>
    cases ho
    cases hz
    refine ⟨_, congrArg some hless, ?_⟩
    simp [indicator]
  | le =>
    cases ho
    cases hz
    have hle : ((a - b == 0) || ((a - b).msb != BitVec.ssubOverflow a b)) =
        decide (a.toInt ≤ b.toInt) := by
      rw [hless, heq, Bool.eq_iff_iff]
      simp only [Bool.or_eq_true, decide_eq_true_eq]
      omega
    refine ⟨_, congrArg some hle, ?_⟩
    simp [indicator]
  | eq =>
    cases ho
    cases hz
    refine ⟨_, congrArg some heq, ?_⟩
    simp [indicator]
  | ne =>
    cases ho
    cases hz
    refine ⟨_, congrArg (some !·) heq, ?_⟩
    simp [indicator]
  | _ => cases ho

/-- The state after two pops. -/
def popped (right left : Register) (s : Machine.State) : Machine.State :=
  (((s.advance (Instr.pop right).size).pop right).advance (Instr.pop left).size).pop left

/-- What the code of an operator does once its operands are in their registers. -/
def Applies (o : Operation) (s : Machine.State) (z : Int) : Prop :=
  ∃ s', through o.code (popped o.right o.left s) = some s' ∧ s'.regs .rbp = s.regs .rbp ∧
    s'.regs .rsp = s.regs .rsp + 16 ∧ (s'.regs .rdi).toInt = z.bmod (2 ^ 64)

/-- **The code of an operator** applies it to the two words on top of the stack. -/
theorem applies_operation {op : BinaryOp} {o : Operation} (ho : operation? op = some o)
    (hz : op.result? x y = some z) (hx : op = .div ∨ op = .rem → -2 ^ 63 < x)
    (hl : (s.mem.load .qword (s.regs .rsp + 8)).toInt = x) (hr : (top s).toInt = y) :
    Applies o s z := by
  have h16 : s.regs .rsp + 8 + 8 = s.regs .rsp + 16 := by rw [BitVec.add_assoc]; rfl
  have hcomparison : ∀ c, operation? op = some (comparison c) → Applies (comparison c) s z := by
    intro c ho
    subst hl hr
    obtain ⟨p, hp, rfl⟩ := holds_ofDifference ho hz
    obtain ⟨s', hrun, hrbp, hrsp, hv⟩ := through_comparison (s := popped .rdi .rax s) hp
    refine ⟨s', hrun, hrbp, hrsp.trans h16, ?_⟩
    rw [hv]
    cases p <;> rfl
  have hdivision : ∀ r, y ≠ 0 → -2 ^ 63 < x → (r = .rax ∧ z = x.tdiv y ∨ r = .rdx ∧ z = x.tmod y) →
      Applies ⟨.rdi, .rax, [.cqo, .divRdi, .mov .rdi r], true⟩ s z := by
    intro r hy hx hr'
    subst hl hr
    obtain ⟨s', hrun, hrbp, hrsp, hv⟩ := through_division (s := popped .rdi .rax s) hx hy hr'
    exact ⟨s', hrun, hrbp, hrsp.trans h16, hv⟩
  -- What the code of comparisons and divisions does is known; the rest computes on the registers.
  cases op with
  | add | sub | mul =>
    cases ho
    cases hz
    refine ⟨_, rfl, rfl, h16, ?_⟩
    subst hl hr
    simp [popped, top, Machine.State.pop, Machine.State.arith, Machine.State.write,
      Machine.State.read, Machine.State.value, Instr.reading, BitVec.toInt_add, BitVec.toInt_sub,
      BitVec.toInt_mul]
  | div =>
    cases ho
    simp only [BinaryOp.result?, Option.ite_none_left_eq_some, Option.some.injEq] at hz
    exact hdivision .rax hz.1 (hx (.inl rfl)) (.inl ⟨rfl, hz.2.symm⟩)
  | rem =>
    cases ho
    simp only [BinaryOp.result?, Option.ite_none_left_eq_some, Option.some.injEq] at hz
    exact hdivision .rdx hz.1 (hx (.inr rfl)) (.inr ⟨rfl, hz.2.symm⟩)
  | lt | le | eq | ne =>
    cases ho
    exact hcomparison _ rfl
  | _ => cases ho

/-! ## Loads and cuts -/

/-- The cut of a number that was cut to a word. -/
theorem wrap_bmod (type : CType) (z : Int) : type.wrap (z.bmod (2 ^ 64)) = type.wrap z := by
  cases type <;> exact Int.bmod_bmod_of_dvd (by decide)

/-- Code that cuts to the width of a type. -/
theorem turns_cutTo (κ : Access) (m : Memory) (type : CType) (v : Int) :
    Turns κ m v (cutTo type) (type.wrap v) := by
  have hword : ∀ (a : Word), a.toInt = v → a.toInt = v.bmod (2 ^ 64) := by
    rintro a rfl
    exact (Int.bmod_eq_of_le (by have := a.le_toInt; omega) (by have := a.toInt_lt; omega)).symm
  cases type with
  | int | char =>
    refine ⟨rfl, fun s _ hv => ⟨_, rfl, rfl, rfl, ?_⟩⟩
    subst hv
    simp only [Machine.State.regs_set, if_true, Machine.State.read, Machine.State.regs_advance,
      Width.signed_low, Width.toInt_signed]
    rfl
  | _ => exact ⟨rfl, fun s _ hv => ⟨s, rfl, rfl, rfl, hword _ hv⟩⟩

theorem through_loadRdi (w : Width) (s : Machine.State) :
    ∃ s', through [.loadRdi w] s = some s' ∧ s'.regs .rbp = s.regs .rbp ∧
      s'.regs .rsp = s.regs .rsp ∧ s'.regs .rsi = s.regs .rsi ∧
      s'.regs .rdi = w.signed (s.mem.load w (s.regs .rdi)) := by
  have hzero : s.regs .rdi + 0 = s.regs .rdi := by simp
  cases w with
  | byte | dword =>
    refine ⟨_, rfl, rfl, rfl, rfl, ?_⟩
    simp only [Machine.State.regs_set, if_true, Machine.State.read, Machine.State.regs_advance,
      Machine.State.mem_advance, hzero]
  | qword =>
    refine ⟨_, rfl, rfl, rfl, rfl, ?_⟩
    simp only [Machine.State.write, Machine.State.value, Machine.State.regs_set, if_true,
      Machine.State.read, Machine.State.regs_advance, Machine.State.mem_advance, hzero,
      Width.low_qword, Width.signed_qword]

/-- A load reads what the program sees. -/
theorem load_of_sees {κ : Access} {m : Memory} {w : Width} {a : Word}
    (hs : ∀ x, κ.reads x → s.mem x = m x) (hr : κ.Reads w a.toInt) :
    (w.signed (s.mem.load w a)).toInt = m.get w a.toInt := by
  unfold Access.Reads at hr
  rw [Memory.get]
  rw [BitVec.ofInt_toInt] at hr ⊢
  rw [Memory.load_congr fun z hz => hs z (hr z hz)]

/-- Code that loads what is at an address. -/
theorem turns_loadRdi {κ : Access} {m : Memory} {w : Width} {a : Int} (hr : κ.Reads w a) :
    Turns κ m a [.loadRdi w] (m.get w a) := by
  refine ⟨by cases w <;> rfl, fun s hs hv => ?_⟩
  subst hv
  obtain ⟨s', hrun, hrbp, hrsp, _, hrdi⟩ := through_loadRdi w s
  exact ⟨s', hrun, hrbp, hrsp, by rw [hrdi, load_of_sees hs hr]⟩

/-! ## Two operands -/

variable {σ : Scene} {k : Nat} {m m1 m2 m' : Memory}

/-- The cut behind an operator. Comparisons need none. -/
theorem turns_cut {op : BinaryOp} {o : Operation} (ho : operation? op = some o)
    (hz : op.result? x y = some z) (κ : Access) (m : Memory) (type : CType) :
    Turns κ m (z.bmod (2 ^ 64)) (if o.cut then cutTo type else []) (type.wrap z) := by
  have hcut : Turns κ m (z.bmod (2 ^ 64)) (cutTo type) (type.wrap z) := by
    have := turns_cutTo κ m type (z.bmod (2 ^ 64))
    rwa [wrap_bmod] at this
  have hnone : (z = 0 ∨ z = 1) → Turns κ m (z.bmod (2 ^ 64)) [] (type.wrap z) := by
    intro hz
    have hw : type.wrap z = z.bmod (2 ^ 64) := by
      rcases hz with rfl | rfl <;> cases type <;> rfl
    rw [hw]
    exact ⟨rfl, fun s _ hv => ⟨s, rfl, rfl, rfl, hv⟩⟩
  have hbit : ∀ (p : Prop) [Decidable p], indicator p = 0 ∨ indicator p = 1 := by
    intro p _
    unfold indicator
    split <;> simp
  -- Numbers are cut as the type asks, and zero and one are left alone by every cut.
  cases op with
  | add | sub | mul | div | rem =>
    cases ho
    exact hcut
  | lt | le | eq | ne =>
    cases ho
    cases hz
    exact hnone (hbit _)
  | _ => cases ho

theorem isStraight_operation {op : BinaryOp} {o : Operation} (ho : operation? op = some o) :
    Machine.isStraight ([.pop o.right] ++ ([.pop o.left] ++ o.code)) := by
  cases op <;> cases ho <;> rfl

/-- **Operators.** The right operand is pushed too, and both are popped into their registers. -/
theorem combines_operation {op : BinaryOp} {o : Operation} {type : CType}
    (ho : operation? op = some o) (hz : op.result? x y = some z)
    (hx : op = .div ∨ op = .rem → -2 ^ 63 < x) :
    Combines σ (k + 1) ([.push .rdi] ++ (([.pop o.right] ++ ([.pop o.left] ++ o.code)) ++
      if o.cut then cutTo type else [])) m x y (type.wrap z) m := by
  intro s hs htop hv
  obtain ⟨hpush, hs1⟩ := hs.push
  have hrsp : (pushed .rdi s).regs .rsp = s.regs .rsp - 8 := rfl
  have hleft : ((pushed .rdi s).mem.load .qword ((pushed .rdi s).regs .rsp + 8)).toInt = x := by
    rw [hrsp, BitVec.sub_add_cancel, ← htop, top]
    refine congrArg BitVec.toInt (Memory.load_congr fun z hz => Memory.store_of_not ?_)
    exact hz.not_below (n := 8) (by decide)
  have hright : (top (pushed .rdi s)).toInt = y := by rw [top_pushed, hv]
  obtain ⟨s2, hrun, hrbp, hrsp', hv'⟩ := applies_operation ho hz hx hleft hright
  have h2 : Reaches σ k 16 _ _ m (pushed .rdi s) s2 :=
    .of_straight hs1.left (isStraight_operation ho) hrun hrbp hrsp' hv'
  obtain ⟨s3, h3⟩ := h2.turn hs1 (turns_cut ho hz σ.access m type)
  exact ⟨s3, h3.push hpush⟩

theorem arithmeticCode_eq (o : Operation) (type : CType) (l r : Code) :
    arithmeticCode o type l r = l ++ ([.push .rdi] ++ (r ++ ([.push .rdi] ++
      (([.pop o.right] ++ ([.pop o.left] ++ o.code)) ++ if o.cut then cutTo type else [])))) := by
  simp [arithmeticCode]

/-- An operator on two values. -/
theorem computes_arithmetic {op : BinaryOp} {o : Operation} {type : CType} {l r : Code} {i j : Nat}
    (ho : operation? op = some o) (hl : Computes σ i l m x m1) (hr : Computes σ j r m1 y m2)
    (hz : op.result? x y = some z) (hx : op = .div ∨ op = .rem → -2 ^ 63 < x) :
    Computes σ (max i (max j 1 + 1)) (arithmeticCode o type l r) m (type.wrap z) m2 := by
  obtain ⟨k, hk⟩ : ∃ k, max i (max j 1 + 1) = k + 2 := ⟨max i (max j 1 + 1) - 2, by omega⟩
  rw [hk, arithmeticCode_eq]
  exact (hl.mono (by omega)).combine (hr.mono (by omega)) (combines_operation ho hz hx)

/-! ## Assignments -/

/-- Code that stores `rdi` at the address in `rax`. -/
theorem Ready.store {w : Width} {code : Code} {a v : Int}
    (hs : Ready σ k ([.storeRdi w] ++ code) m s) (ha : (s.regs .rax).toInt = a)
    (hv : (s.regs .rdi).toInt = v) (hw : σ.access.Writes w a) :
    ∃ s', Reaches σ k 0 (Code.size [.storeRdi w]) v (m.put w a v) s s' := by
  subst ha hv
  unfold Access.Writes at hw
  rw [BitVec.ofInt_toInt] at hw
  have hstep : Machine.step s = some { s.advance (Instr.storeRdi w).size with
      mem := s.mem.store w (s.regs .rax) (s.regs .rdi) } := by
    rw [Machine.step_of_loaded rfl hs.loaded]
    simp [Instr.action, Machine.exec, Machine.State.write, Machine.State.value,
      Machine.State.read, Instr.reading, Width.store_low]
  refine ⟨_, ⟨.single hstep, fun z hz _ => Memory.store_of_not fun hz' => hz (hw z hz')⟩, rfl,
    by simp, rfl, rfl, fun z hz => ?_⟩
  rw [Memory.put, BitVec.ofInt_toInt, BitVec.ofInt_toInt]
  exact Memory.store_congr (hs.sees z hz)

/-- **Assignments.** The saved address is popped, and the value is stored there. -/
theorem combines_assign {w : Width} {type : CType} {a v : Int} (hw : σ.access.Writes w a) :
    Combines σ k ([.pop .rax] ++ ([.storeRdi w] ++ cutTo type)) m a v (type.wrap v)
      (m.put w a v) := by
  intro s hs htop hv
  have h1 : Reaches σ k 8 (Code.size [.pop .rax]) v m s
      ((s.advance (Instr.pop .rax).size).pop .rax) :=
    .of_straight hs.left rfl rfl rfl rfl hv
  have hs1 := hs.after h1
  obtain ⟨s2, h2⟩ := hs1.store htop hv hw
  obtain ⟨s3, h3⟩ := h2.turn hs1 (turns_cutTo _ _ type v)
  refine ⟨s3, ?_⟩
  rw [Code.size_append]
  exact h1.extend h3

/-- The code of a compound assignment fetches the old value through the saved address. -/
theorem through_update {op : BinaryOp} {w : Width} {κ : Access}
    (hs : ∀ x, κ.reads x → s.mem x = m x) (hr : κ.Reads w (top s).toInt)
    (hz : op.combine? (m.get w (top s).toInt) (s.regs .rdi).toInt = some z) :
    ∃ s', through (update op w) s = some s' ∧ s'.regs .rbp = s.regs .rbp ∧
      s'.regs .rsp = s.regs .rsp ∧ (s'.regs .rdi).toInt = z.bmod (2 ^ 64) := by
  let s1 := (((s.advance (Instr.mov .rsi .rdi).size).set .rsi (s.regs .rdi)).advance
    Instr.loadTop.size).set .rdi (top s)
  -- The value is put aside, and the address is fetched from the top of the stack.
  have hfetch : through [.mov .rsi .rdi, .loadTop] s = some s1 := by
    change some _ = some _
    simp [s1, Machine.State.write, Machine.State.value, Machine.State.read, Instr.reading, top]
  obtain ⟨s2, hload, hrbp, hrsp, hrsi, hrdi⟩ := through_loadRdi w s1
  have hold : (s2.regs .rdi).toInt = m.get w (top s).toInt := by
    rw [hrdi]
    exact load_of_sees hs hr
  have hupdate : update op w = [.mov .rsi .rdi, .loadTop] ++ ([.loadRdi w] ++
      [if op == .addAssign then .addRdiRsi else .subRdiRsi]) := rfl
  rw [hupdate, Machine.through_append, hfetch, Option.bind_some, Machine.through_append, hload,
    Option.bind_some]
  have hrsi' : s2.regs .rsi = s.regs .rdi := hrsi
  cases op with
  | addAssign | subAssign =>
    cases hz
    refine ⟨_, rfl, hrbp, hrsp, ?_⟩
    simp [Machine.State.arith, Machine.State.write, Machine.State.read, Machine.State.value,
      Instr.reading, BitVec.toInt_add, BitVec.toInt_sub, hold, hrsi']
  | _ => cases hz

/-- Memory takes the low bytes of a number. -/
theorem put_bmod (m : Memory) (w : Width) (a z : Int) :
    m.put w a (z.bmod (2 ^ 64)) = m.put w a z := by
  have h : BitVec.ofInt 64 (z.bmod (2 ^ 64)) = .ofInt 64 z := by
    rw [← BitVec.toInt_inj, BitVec.toInt_ofInt, BitVec.toInt_ofInt]
    exact Int.bmod_bmod
  rw [Memory.put, h, Memory.put]

/-- **Compound assignments.** -/
theorem combines_compound {op : BinaryOp} {w : Width} {type : CType} {a : Int}
    (hr : σ.access.Reads w a) (hz : op.combine? (m.get w a) y = some z)
    (hw : σ.access.Writes w a) :
    Combines σ k (update op w ++ ([.pop .rax] ++ ([.storeRdi w] ++ cutTo type))) m a y
      (type.wrap z) (m.put w a z) := by
  intro s hs htop hv
  subst htop hv
  have hstraight : Machine.isStraight (update op w) := by
    cases w <;> rw [update] <;> split <;> rfl
  obtain ⟨s1, hrun, hrbp, hrsp, hv⟩ := through_update hs.sees hr hz
  have h1 : Reaches σ k 0 (update op w).size (z.bmod (2 ^ 64)) m s s1 :=
    .of_straight hs.left hstraight hrun hrbp (by simpa using hrsp) hv
  have htop : top s1 = top s := by
    rw [top, top, hrsp, (Machine.runs_straight hstraight hs.left.loaded hrun).2.1]
  obtain ⟨s2, h2⟩ := combines_assign hw s1 (hs.next h1) (by rw [htop]) hv
  rw [wrap_bmod, put_bmod] at h2
  refine ⟨s2, ?_⟩
  rw [Code.size_append]
  exact h1.append h2

theorem assignCode_eq (op : BinaryOp) (type : CType) (w : Width) (l r : Code) :
    assignCode op type w l r = l ++ ([.push .rdi] ++ (r ++
      ((if op == .assign then [] else update op w) ++
        ([.pop .rax] ++ ([.storeRdi w] ++ cutTo type))))) := by
  simp [assignCode]

variable {l r : Code} {i j : Nat} {a : Int} {w : Width} {type : CType}

theorem computes_assign (hl : Computes σ i l m a m1) (hr : Computes σ j r m1 y m2)
    (hw : σ.access.Writes w a) :
    Computes σ (max i (j + 1)) (assignCode .assign type w l r) m (type.wrap y) (m2.put w a y) := by
  obtain ⟨k, hk⟩ : ∃ k, max i (j + 1) = k + 1 := ⟨max i (j + 1) - 1, by omega⟩
  rw [hk, assignCode_eq]
  exact (hl.mono (by omega)).combine (hr.mono (by omega)) (combines_assign hw)

theorem computes_compound {op : BinaryOp} (hl : Computes σ i l m a m1)
    (hr : Computes σ j r m1 y m2) (hread : σ.access.Reads w a)
    (hz : op.combine? (m2.get w a) y = some z) (hw : σ.access.Writes w a) :
    Computes σ (max i (j + 1)) (assignCode op type w l r) m (type.wrap z) (m2.put w a z) := by
  have ho : (op == .assign) = false := by cases op <;> first | rfl | cases hz
  obtain ⟨k, hk⟩ : ∃ k, max i (j + 1) = k + 1 := ⟨max i (j + 1) - 1, by omega⟩
  rw [hk, assignCode_eq, ho]
  exact (hl.mono (by omega)).combine (hr.mono (by omega)) (combines_compound hread hz hw)

/-! ## Short circuits -/

theorem isLogical_of_decidedBy {op : BinaryOp} (h : op.decidedBy x) : op.isLogical := by
  cases op <;> first | rfl | cases h

/-- The condition of a short circuit is that the left side decides. -/
theorem decides_decides {op : BinaryOp} (ho : op.isLogical) (x : Int) :
    Decides (decides op) x (op.decidedBy x) := by
  cases op with
  | and => exact .inl ⟨rfl, rfl⟩
  | or => exact .inr ⟨rfl, rfl⟩
  | _ => cases ho

theorem turns_truth (κ : Access) (m : Memory) (v : Int) :
    Turns κ m v truth (indicator (v ≠ 0)) := by
  refine ⟨rfl, fun s _ hv => ⟨_, rfl, rfl, rfl, ?_⟩⟩
  have hz : (BitVec.setWidth (8 * Width.qword.size) (s.regs .rdi) == 0) = decide (v = 0) := by
    rw [← hv, ← Machine.beq_zero_eq]
    exact congrArg (· == (0 : Word)) (BitVec.setWidth_eq _)
  simp only [Machine.State.write, Machine.State.read, Machine.State.value, Instr.reading,
    Machine.State.regs_set, Machine.State.regs_advance, if_true, Width.low_byte_merge,
    Width.low_qword, BitVec.and_self, Machine.Flags.ofResult]
  rw [hz]
  by_cases hv : v = 0
  · subst hv
    rfl
  · rw [decide_eq_false hv, indicator, if_pos hv]
    rfl

theorem turns_shortcut {op : BinaryOp} (hd : op.decidedBy x) (κ : Access) (m : Memory) :
    Turns κ m x (shortcut op) (indicator (x ≠ 0)) := by
  cases op with
  | and =>
    have hx : x = 0 := by simpa [BinaryOp.decidedBy] using hd
    subst hx
    refine ⟨rfl, fun s _ hv => ⟨_, rfl, rfl, rfl, ?_⟩⟩
    simp only [Machine.State.arith, Machine.State.write, Machine.State.read,
      Machine.State.value, Instr.reading, Machine.State.regs_set, if_true, BitVec.xor_self]
    rfl
  | or =>
    have hx : x ≠ 0 := by simpa [BinaryOp.decidedBy] using hd
    refine ⟨rfl, fun s _ hv => ⟨_, rfl, rfl, rfl, ?_⟩⟩
    rw [indicator, if_pos hx]
    rfl
  | _ => cases hd

variable {c : Context} {op : BinaryOp}

theorem logicalCode_eq (op : BinaryOp) (l r : Code) :
    logicalCode op l r = l ++ ([.testRdi,
      .jumpIf (decides op) (.ofInt (Code.size (r ++ truth) + Instr.jumpSize))] ++
      (((r ++ truth) ++ [.jump (.ofInt (Code.size (shortcut op)))]) ++ shortcut op)) := by
  simp [logicalCode]

/-- **Short circuits that are taken**: the right side is not run. -/
theorem computes_short (hl : Computes σ i l m x m1) (hd : op.decidedBy x)
    (hg : Reach c (Code.size (r ++ truth) + Instr.jumpSize)) :
    Computes σ i (logicalCode op l r) m (indicator (x ≠ 0)) m1 := by
  intro s hs
  rw [logicalCode_eq] at hs ⊢
  have hb := decides_decides (isLogical_of_decidedBy hd) x
  rw [hd] at hb
  obtain ⟨s1, h1⟩ := hl s hs.left
  obtain ⟨s2, h2, hs2⟩ := (hs.next h1).taken h1.value hb (hg.over _)
  obtain ⟨s3, h3⟩ := (turns_shortcut hd _ _).reaches hs2 h2.value
  refine ⟨s3, ?_⟩
  simpa only [Code.size_append, Nat.add_assoc] using h1.append (h2.append h3)

/-- **Short circuits that are not taken**: the result is the truth of the right side. -/
theorem computes_long (ho : op.isLogical) (hl : Computes σ i l m x m1)
    (hd : op.decidedBy x = false) (hr : Computes σ j r m1 y m2)
    (hs : Reach c (Code.size (shortcut op)))
    (hg : Reach c (Code.size (r ++ truth) + Instr.jumpSize)) :
    Computes σ (max i j) (logicalCode op l r) m (indicator (y ≠ 0)) m2 := by
  intro s hready
  rw [logicalCode_eq] at hready ⊢
  have hb := decides_decides ho x
  rw [hd] at hb
  obtain ⟨s1, h1⟩ := hl.mono (Nat.le_max_left i j) s hready.left
  obtain ⟨s2, h2, hs2⟩ := (hready.next h1).untaken h1.value hb (hg.over 0)
  rw [List.append_assoc] at hs2
  obtain ⟨s3, h3⟩ := (hr.mono (Nat.le_max_right i j)).turn (turns_truth _ _ y) s2 hs2.left
  obtain ⟨s4, h4⟩ := (hs2.next h3).over h3.value hs.toInt
  refine ⟨s4, ?_⟩
  simpa only [Code.size_append, Nat.add_assoc] using h1.append (h2.append (h3.append h4))

end Lowering

end DirectC
