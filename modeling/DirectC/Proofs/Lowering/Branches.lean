/-
# Branches

The jumps of lowered code. Only conditions, loops and short-circuit operators jump, and each of
them over code of its own: `Construct` names the code of such a construct and its branches, whether
or not their distances are within the limit. A construct whose parts have code has code exactly if
its distances are (`Construct.refused_iff`), and every jump of lowered code is a branch of a
construct in it (`Emits.branches`).
-/
import DirectC.Proofs.Lowering.Complaints
import DirectC.Proofs.Lowering.StackDiscipline

namespace DirectC

/-! ## Jumps of code -/

namespace Code

/-- There is a jump at a position, with a displacement. -/
def JumpAt (code : Code) (pos : Nat) (disp : Int8) : Prop :=
  ∃ (pre : Code) (i : Instr) (post : Code),
    code = pre ++ i :: post ∧ pre.size = pos ∧ i.displacement? = some disp

variable {a b code : Code} {pos : Nat} {disp : Int8}

@[simp] theorem jumpAt_nil : ¬ JumpAt [] pos disp := by
  rintro ⟨pre, i, post, h, -⟩
  simp at h

/-- A jump of a row of instructions is the first or one behind it. -/
@[simp] theorem jumpAt_cons {i : Instr} :
    JumpAt (i :: code) pos disp ↔
      (pos = 0 ∧ i.displacement? = some disp) ∨ ∃ p, JumpAt code p disp ∧ pos = i.size + p := by
  constructor
  · rintro ⟨_ | ⟨j, pre⟩, k, post, heq, rfl, hd⟩
    · cases heq
      exact .inl ⟨rfl, hd⟩
    · cases heq
      exact .inr ⟨_, ⟨pre, k, post, rfl, rfl, hd⟩, rfl⟩
  · rintro (⟨rfl, hd⟩ | ⟨_, ⟨pre, k, post, rfl, rfl, hd⟩, rfl⟩)
    · exact ⟨[], i, code, rfl, rfl, hd⟩
    · exact ⟨i :: pre, k, post, rfl, rfl, hd⟩

/-- A jump is in one part of the code or in the other. -/
@[simp] theorem jumpAt_append :
    JumpAt (a ++ b) pos disp ↔
      JumpAt a pos disp ∨ ∃ p, JumpAt b p disp ∧ pos = a.size + p := by
  induction a generalizing pos with
  | nil => simp
  | cons i a ih =>
    simp only [List.cons_append, jumpAt_cons, ih, size_cons]
    constructor
    · rintro (h | ⟨_, h | ⟨p, h, rfl⟩, rfl⟩)
      · exact .inl (.inl h)
      · exact .inl (.inr ⟨_, h, rfl⟩)
      · exact .inr ⟨p, h, by omega⟩
    · rintro ((h | ⟨p, h, rfl⟩) | ⟨p, h, rfl⟩)
      · exact .inl h
      · exact .inr ⟨p, .inl h, rfl⟩
      · exact .inr ⟨size a + p, .inr ⟨p, h, rfl⟩, by omega⟩

/-- Code that runs straight through. -/
def straight (code : Code) : Bool :=
  code.all fun i => i.displacement?.isNone

/-- Quiet code has no jumps. -/
theorem straight_of_quiet (h : quiet code) : straight code := by
  simp only [quiet, straight, List.all_eq_true, Instr.isPlain, Bool.and_eq_true] at h ⊢
  exact fun i hi => (h i hi).1.2

@[simp] theorem straight_append : straight (a ++ b) ↔ straight a ∧ straight b := by
  simp [straight]

/-- Straight code has no jumps. -/
theorem not_jumpAt (h : straight code) : ¬ JumpAt code pos disp := by
  rintro ⟨pre, i, post, rfl, -, hd⟩
  simp [straight, hd] at h

/-- There is one jump at a position. -/
theorem JumpAt.unique {disp' : Int8} (h : JumpAt code pos disp) (h' : JumpAt code pos disp') :
    disp = disp' := by
  obtain ⟨pre, i, post, rfl, rfl, hd⟩ := h
  obtain ⟨pre', i', post', heq, hsize, hd'⟩ := h'
  obtain rfl := prefix_unique heq hsize.symm
  obtain ⟨rfl, -⟩ := List.cons.inj (List.append_cancel_left heq)
  exact Option.some.inj (hd.symm.trans hd')

/-- A jump of two pieces with code that runs straight through between and behind them. -/
theorem JumpAt.split {x mid y rest : Code} (h : JumpAt (x ++ mid ++ (y ++ rest)) pos disp)
    (hm : straight mid) (hr : straight rest) :
    JumpAt x pos disp ∨ ∃ p, JumpAt y p disp ∧ pos = size (x ++ mid) + p := by
  simpa only [jumpAt_append, not_jumpAt hm, not_jumpAt hr, false_and, exists_false, or_false]
    using h

/-- If straight code follows, the jump stands before it. -/
theorem JumpAt.head {rest : Code} (h : JumpAt (code ++ rest) pos disp) (hr : straight rest) :
    JumpAt code pos disp := by
  simpa only [jumpAt_append, not_jumpAt hr, false_and, exists_false, or_false] using h

/-- A jump of a piece with code that runs straight through before and behind it. -/
theorem JumpAt.inner {mid y rest : Code} (h : JumpAt (mid ++ (y ++ rest)) pos disp)
    (hm : straight mid) (hr : straight rest) : ∃ p, JumpAt y p disp ∧ pos = size mid + p := by
  simpa only [jumpAt_append, not_jumpAt hm, not_jumpAt hr, false_and, exists_false, or_false,
    false_or] using h

end Code

namespace Lowering

open Code (JumpAt)

variable {c : Context} {job job' : Job} {st st' st1 st2 : State} {pre piece : Code}

/-! ## Constructs and their branches -/

/-- The pieces of code that a construct is made of, with a jump between each two of them. -/
inductive Shape where
  /-- A condition, and a part that is run if it holds. -/
  | skip (cond part : Code)
  /-- A condition, and two parts of which one is run. The first jump is taken under `on`. -/
  | choice (on : Condition) (cond first second : Code)
  /-- A condition, and a part that is run as long as it holds. -/
  | loop (cond part : Code)

/-- A branch of a construct. Both offsets count from the first byte of the construct. -/
structure Branch where
  /-- Where the jump stands. -/
  source : Nat
  /-- Where it leads. -/
  target : Nat

/-- How far a branch leads, from the end of the jump. -/
def Branch.distance (b : Branch) : Int :=
  b.target - (b.source + Instr.jumpSize)

/-- The code of a construct. -/
def Shape.code : Shape → Code
  | .skip cond part => cond ++ [.jumpIf .equal (.ofInt part.size)] ++ part
  | .choice on cond first second =>
    cond ++ [.jumpIf on (.ofInt (first.size + Instr.jumpSize))] ++ first ++
      [.jump (.ofInt second.size)] ++ second
  | .loop cond part =>
    cond ++ [.jumpIf .equal (.ofInt (part.size + Instr.jumpSize))] ++ part ++
      [.jump (.ofInt (-(cond.size + Instr.jumpSize + part.size + Instr.jumpSize)))]

/-- The branches of a construct: behind the part that is skipped and behind the construct; to the
second part of a choice, and behind the construct from the end of the first; behind a loop, and
back to its condition from the end of its part. -/
def Shape.branches : Shape → List Branch
  | .skip cond part => [⟨cond.size, cond.size + Instr.jumpSize + part.size⟩]
  | .choice _ cond first second =>
    [⟨cond.size, cond.size + Instr.jumpSize + first.size + Instr.jumpSize⟩,
      ⟨cond.size + Instr.jumpSize + first.size,
        cond.size + Instr.jumpSize + first.size + Instr.jumpSize + second.size⟩]
  | .loop cond part =>
    [⟨cond.size, cond.size + Instr.jumpSize + part.size + Instr.jumpSize⟩,
      ⟨cond.size + Instr.jumpSize + part.size, 0⟩]

/-- **Constructs.** A condition, a loop or a short-circuit operator whose parts have code. An
operator that is typed as an array has no value of its own and is none. -/
inductive Construct (c : Context) : Job → State → Shape → State → Prop where
  | ifThen {cond yes st v st1 y st2} (hc : Emits c (.expr .value cond) st v st1)
      (hy : Emits c (.stmt yes) st1 y st2) :
      Construct c (.stmt (.ifThen cond yes)) st (.skip (v ++ [.testRdi]) y) st2
  | ifElse {cond yes no st v st1 y st2 n st3} (hc : Emits c (.expr .value cond) st v st1)
      (hy : Emits c (.stmt yes) st1 y st2) (hn : Emits c (.stmt no) st2 n st3) :
      Construct c (.stmt (.ifElse cond yes no)) st (.choice .equal (v ++ [.testRdi]) y n) st3
  | loop {cond body st v st1 b st2} (hc : Emits c (.expr .value cond) st v st1)
      (hb : Emits c (.stmt body) st1 b st2) :
      Construct c (.stmt (.loop cond body)) st (.loop (v ++ [.testRdi]) b) st2
  | logical {op : BinaryOp} {pos left right} {type : CType} {st l st1 r st2} (ho : op.isLogical)
      (ht : type.isArray = false) (hl : Emits c (.expr .value left) st l st1)
      (hr : Emits c (.expr .value right) st1 r st2) :
      Construct c (.expr .value (.binary op pos left right type)) st
        (.choice (decides op) (l ++ [.testRdi]) (r ++ truth) (shortcut op)) st2

variable {shape : Shape} {b : Branch}

/-! ## Distances -/

/-- The distances of the branches of a construct. -/
def Shape.distances : Shape → List Int
  | .skip _ part => [part.size]
  | .choice _ _ first second => [first.size + Instr.jumpSize, second.size]
  | .loop cond part =>
    [part.size + Instr.jumpSize, -(cond.size + Instr.jumpSize + part.size + Instr.jumpSize)]

/-- Each branch of a construct has one of its distances. -/
theorem Shape.map_distance (s : Shape) : s.branches.map Branch.distance = s.distances := by
  cases s <;> simp [branches, distances, Branch.distance] <;> omega

/-- What holds of all distances of a construct holds of all its branches. -/
theorem Shape.forall_distance (s : Shape) {P : Int → Prop} :
    (∀ b ∈ s.branches, P b.distance) ↔ ∀ d ∈ s.distances, P d := by
  rw [← s.map_distance, List.forall_mem_map]

theorem ifThenCode_shape (v y : Code) : ifThenCode v y = (Shape.skip (v ++ [.testRdi]) y).code := by
  simp [ifThenCode, Shape.code]

theorem ifElseCode_shape (v y n : Code) :
    ifElseCode v y n = (Shape.choice .equal (v ++ [.testRdi]) y n).code := by
  simp [ifElseCode, Shape.code]

theorem loopCode_shape (v b : Code) : loopCode v b = (Shape.loop (v ++ [.testRdi]) b).code := by
  simp [loopCode, loopSize, Shape.code]

/-- A logical operator is a choice between the value of its right side and the one that is known
without it. -/
theorem logicalCode_shape (op : BinaryOp) (l r : Code) : logicalCode op l r =
    (Shape.choice (decides op) (l ++ [.testRdi]) (r ++ truth) (shortcut op)).code := by
  simp [logicalCode, Shape.code]

/-- A construct has code if its distances are within the limit. -/
theorem Construct.emits (h : Construct c job st shape st')
    (hb : ∀ b ∈ shape.branches, Reach c b.distance) : Emits c job st shape.code st' := by
  rw [shape.forall_distance] at hb
  cases h with
  | ifThen hc hy =>
    simp only [Shape.distances, List.forall_mem_cons] at hb
    exact ifThenCode_shape .. ▸ .ifThen hc hy hb.1
  | ifElse hc hy hn =>
    simp only [Shape.distances, List.forall_mem_cons] at hb
    exact ifElseCode_shape .. ▸ .ifElse hc hy hn hb.2.1 hb.1
  | loop hc hb' =>
    simp only [Shape.distances, List.forall_mem_cons] at hb
    exact loopCode_shape .. ▸ .loop hc hb' hb.1 hb.2.1
  | logical ho ht hl hr =>
    simp only [Shape.distances, List.forall_mem_cons] at hb
    exact logicalCode_shape .. ▸ .logical ho ht hl hr hb.2.1 hb.1

/-- A construct that has code keeps its distances within the limit. -/
theorem Construct.reach (h : Construct c job st shape st') (he : Emits c job st piece st1) :
    ∀ b ∈ shape.branches, Reach c b.distance := by
  rw [shape.forall_distance]
  -- Lowering gives one result, so the distances that were checked are those of the shape.
  cases h with
  | ifThen hc hy =>
    cases he with
    | ifThen hc' hy' hg =>
      obtain ⟨rfl, rfl⟩ := hc.unique hc'
      obtain ⟨rfl, rfl⟩ := hy.unique hy'
      simpa [Shape.distances] using hg
  | ifElse hc hy hn =>
    cases he with
    | ifElse hc' hy' hn' hs hg =>
      obtain ⟨rfl, rfl⟩ := hc.unique hc'
      obtain ⟨rfl, rfl⟩ := hy.unique hy'
      obtain ⟨rfl, rfl⟩ := hn.unique hn'
      simpa [Shape.distances] using And.intro hg hs
  | loop hc hb =>
    cases he with
    | loop hc' hb' hg hk =>
      obtain ⟨rfl, rfl⟩ := hc.unique hc'
      obtain ⟨rfl, rfl⟩ := hb.unique hb'
      simpa [Shape.distances, loopSize] using And.intro hg hk
  | @logical op _ _ _ _ _ l _ r _ ho ht hl hr =>
    cases he with
    | logical _ _ hl' hr' hs hg =>
      obtain ⟨rfl, rfl⟩ := hl.unique hl'
      obtain ⟨rfl, rfl⟩ := hr.unique hr'
      simpa [Shape.distances] using And.intro hg hs
    | assign ho' | arithmetic ho' => cases op <;> cases ho <;> cases ho'
    | array hp | load hp => cases hp

/-! ## Refusals -/

/-- The code of a condition is that of its value, and a test. -/
theorem Emits.condition_eq {e : Expr} (h : Emits c (.expr .value e) st piece st') :
    condition c e st = .ok (piece ++ [.testRdi], st') :=
  condition_ok.mpr ⟨_, _, h.lower_eq, rfl⟩

theorem Emits.statement_eq {s : Stmt} (h : Emits c (.stmt s) st piece st') :
    statement c s st = .ok (piece, st') :=
  h.lower_eq

theorem Emits.value_eq {e : Expr} (h : Emits c (.expr .value e) st piece st') :
    lower c .value e st = .ok (piece, st') :=
  h.lower_eq

/-- A construct whose parts have code is refused for its distances only. -/
theorem Construct.complaint (h : Construct c job st shape st') {complaint : Complaint}
    (he : job.lower c st = .error complaint) : complaint.fault.kind = .capacity := by
  -- Past the parts there are only jumps, and all that a jump is refused for is its distance.
  have hjump {disp pos : Int} : Complains (·.fault.kind = .capacity) (jump c disp pos) :=
    complains_jump fun _ _ => rfl
  have hjumpIf {cond : Condition} {disp pos : Int} :
      Complains (·.fault.kind = .capacity) (jumpIf c cond disp pos) :=
    complains_jumpIf fun _ _ => rfl
  cases h with
  | ifThen hc hy =>
    simp only [Job.lower, statement, Lowering.ifThen] at he
    rw [bind_of_ok hc.condition_eq, bind_of_ok hy.statement_eq] at he
    exact Complains.bind hjumpIf (fun _ => .pure) _ _ he
  | ifElse hc hy hn =>
    simp only [Job.lower, statement, Lowering.ifElse] at he
    rw [bind_of_ok hc.condition_eq, bind_of_ok hy.statement_eq, bind_of_ok hn.statement_eq] at he
    exact Complains.bind hjump (fun _ => .bind hjumpIf fun _ => .pure) _ _ he
  | loop hc hb =>
    simp only [Job.lower, statement, Lowering.loop] at he
    rw [bind_of_ok hc.condition_eq, bind_of_ok hb.statement_eq] at he
    exact Complains.bind hjumpIf (fun _ => .bind hjump fun _ => .pure) _ _ he
  | @logical op pos left right type _ l _ r _ ho ht hl hr =>
    have hv := Want.value_of (.binary op pos left right type) ht
    have he : Lowering.logical c op pos (lower c .value left) (lower c .value right) st =
        .error complaint := by
      cases op <;> simp [BinaryOp.isLogical] at ho <;>
        simpa only [Job.lower, lower, hv] using he
    simp only [Lowering.logical] at he
    rw [bind_of_ok hl.value_eq, bind_of_ok hr.value_eq] at he
    exact Complains.bind hjump (fun _ => .bind hjumpIf fun _ => .pure) _ _ he

/-- A construct whose parts have code is refused exactly if a distance is beyond the limit, and
then for its capacity. -/
theorem Construct.refused_iff (h : Construct c job st shape st') :
    (∃ complaint, job.lower c st = .error complaint ∧ complaint.fault.kind = .capacity) ↔
      ∃ b ∈ shape.branches, ¬ Reach c b.distance := by
  constructor
  · rintro ⟨complaint, he, -⟩
    refine Classical.byContradiction fun hb => ?_
    have hall : ∀ b ∈ shape.branches, Reach c b.distance :=
      fun b hmem => Classical.byContradiction fun hr => hb ⟨b, hmem, hr⟩
    rw [(h.emits hall).lower_eq] at he
    cases he
  · rintro ⟨b, hb, hr⟩
    cases he : job.lower c st with
    | error complaint => exact ⟨complaint, rfl, h.complaint he⟩
    | ok r => exact absurd (h.reach (emits_iff.mpr he) b hb) hr

/-- A distance is within reach if it is at most the limit, and at most 127, on either side. -/
theorem reach_iff {d : Int} : Reach c d ↔ (d.natAbs : Int) ≤ min c.limits.branch.toInt 127 := by
  unfold Reach
  omega

/-! ## Where the branches are -/

/-- Each branch of a construct is a jump of its code, and leads to an instruction of its code or
behind it. -/
theorem Shape.branch (hb : b ∈ shape.branches) :
    JumpAt shape.code b.source (.ofInt b.distance) ∧
      ∃ front rest : Code, shape.code = front ++ rest ∧ front.size = b.target := by
  have hsize (x y : Code) (i : Instr) : (x ++ [i] ++ y).size = x.size + i.size + y.size := by
    simp [Nat.add_assoc]
  cases shape with
  | skip cond part =>
    simp only [branches, List.mem_singleton] at hb
    subst hb
    have hd : Branch.distance ⟨cond.size, cond.size + Instr.jumpSize + part.size⟩ = part.size := by
      simp only [Branch.distance]
      omega
    rw [hd]
    exact ⟨⟨cond, _, part, List.append_assoc .., rfl, rfl⟩, _, [], (List.append_nil _).symm,
      hsize ..⟩
  | choice on cond first second =>
    simp only [branches, List.mem_cons, List.not_mem_nil, or_false] at hb
    rcases hb with rfl | rfl
    · have hd : Branch.distance ⟨cond.size,
          cond.size + Instr.jumpSize + first.size + Instr.jumpSize⟩ =
            first.size + Instr.jumpSize := by
        simp only [Branch.distance]
        omega
      rw [hd]
      refine ⟨⟨cond, _, _, by simp only [code, List.append_assoc]; rfl, rfl, rfl⟩, _, second, rfl, ?_⟩
      rw [Code.size_append, hsize]
      rfl
    · have hd : Branch.distance ⟨cond.size + Instr.jumpSize + first.size,
          cond.size + Instr.jumpSize + first.size + Instr.jumpSize + second.size⟩ =
            second.size := by
        simp only [Branch.distance]
        omega
      rw [hd]
      refine ⟨⟨_, _, second, List.append_assoc .., hsize .., rfl⟩, _, [],
        (List.append_nil _).symm, ?_⟩
      rw [code, hsize, hsize]
      rfl
  -- The backward branch of a loop is the one with a negative distance: it ends at the start.
  | loop cond part =>
    simp only [branches, List.mem_cons, List.not_mem_nil, or_false] at hb
    rcases hb with rfl | rfl
    · have hd : Branch.distance ⟨cond.size,
          cond.size + Instr.jumpSize + part.size + Instr.jumpSize⟩ =
            part.size + Instr.jumpSize := by
        simp only [Branch.distance]
        omega
      rw [hd]
      refine ⟨⟨cond, _, _, by simp only [code, List.append_assoc]; rfl, rfl, rfl⟩, _, [],
        (List.append_nil _).symm, ?_⟩
      rw [code, Code.size_append, hsize]
      rfl
    · have hd : Branch.distance ⟨cond.size + Instr.jumpSize + part.size, 0⟩ =
          -(cond.size + Instr.jumpSize + part.size + Instr.jumpSize) := by
        simp only [Branch.distance]
        omega
      rw [hd]
      exact ⟨⟨_, _, [], rfl, hsize .., rfl⟩, [], _, rfl, rfl⟩

/-- A jump in front of, between or behind the pieces of a construct. -/
theorem Shape.jumpAt_skip {cond part : Code} {pos : Nat} {disp : Int8}
    (hj : JumpAt (skip cond part).code pos disp) :
    JumpAt cond pos disp ∨ pos = cond.size ∨
      ∃ p, JumpAt part p disp ∧ pos = cond.size + Instr.jumpSize + p := by
  simp only [code, Code.jumpAt_append, Code.jumpAt_cons, Code.jumpAt_nil, false_and, exists_false,
    or_false] at hj
  rcases hj with (hj | ⟨p, ⟨rfl, -⟩, rfl⟩) | ⟨p, hj, rfl⟩
  · exact .inl hj
  · exact .inr (.inl rfl)
  · exact .inr (.inr ⟨p, hj, by simp⟩)

/-- The jumps of a choice are its two branches, and those of its parts. -/
theorem Shape.jumpAt_choice {on : Condition} {cond first second : Code} {pos : Nat} {disp : Int8}
    (hj : JumpAt (choice on cond first second).code pos disp) :
    JumpAt cond pos disp ∨ pos = cond.size ∨
      (∃ p, JumpAt first p disp ∧ pos = cond.size + Instr.jumpSize + p) ∨
      pos = cond.size + Instr.jumpSize + first.size ∨
      ∃ p, JumpAt second p disp ∧
        pos = cond.size + Instr.jumpSize + first.size + Instr.jumpSize + p := by
  simp only [code, Code.jumpAt_append, Code.jumpAt_cons, Code.jumpAt_nil, false_and, exists_false,
    or_false] at hj
  rcases hj with (((hj | ⟨p, ⟨rfl, -⟩, rfl⟩) | ⟨p, hj, rfl⟩) | ⟨p, ⟨rfl, -⟩, rfl⟩) | ⟨p, hj, rfl⟩
  · exact .inl hj
  · exact .inr (.inl rfl)
  · exact .inr (.inr (.inl ⟨p, hj, by simp⟩))
  · exact .inr (.inr (.inr (.inl (by simp [Nat.add_assoc]))))
  · exact .inr (.inr (.inr (.inr ⟨p, hj, by simp [Nat.add_assoc]⟩)))

/-- The jumps of a loop are its two branches, and those of its parts. -/
theorem Shape.jumpAt_loop {cond part : Code} {pos : Nat} {disp : Int8}
    (hj : JumpAt (loop cond part).code pos disp) :
    JumpAt cond pos disp ∨ pos = cond.size ∨
      (∃ p, JumpAt part p disp ∧ pos = cond.size + Instr.jumpSize + p) ∨
      pos = cond.size + Instr.jumpSize + part.size := by
  simp only [code, Code.jumpAt_append, Code.jumpAt_cons, Code.jumpAt_nil, false_and, exists_false,
    or_false] at hj
  rcases hj with ((hj | ⟨p, ⟨rfl, -⟩, rfl⟩) | ⟨p, hj, rfl⟩) | ⟨p, ⟨rfl, -⟩, rfl⟩
  · exact .inl hj
  · exact .inr (.inl rfl)
  · exact .inr (.inr (.inl ⟨p, hj, by simp⟩))
  · exact .inr (.inr (.inr (by simp [Nat.add_assoc])))

/-! ## Every jump is a branch -/

/-- A job has a construct in it with a branch at a position. -/
def Branches (c : Context) (job : Job) (st : State) (pos : Nat) (disp : Int8) : Prop :=
  ∃ pre job' st1 shape st2, Within c job st pre job' st1 ∧ Construct c job' st1 shape st2 ∧
    ∃ b ∈ shape.branches, pos = Code.size pre + b.source ∧ disp = .ofInt b.distance

variable {pos : Nat} {disp : Int8}

/-- A part of a part is a part. -/
theorem Within.trans {pre' : Code} {job'' : Job} (h : Within c job st pre job' st1)
    (h' : Within c job' st1 pre' job'' st2) : Within c job st (pre ++ pre') job'' st2 := by
  induction h' with
  | whole => simpa using h
  | part _ hp ih =>
    rw [← List.append_assoc]
    exact ih.part hp

/-- A branch of a part is one of the whole, behind the code before it. -/
theorem Branches.part (h : Branches c job' st1 pos disp) (hp : Part c job st pre job' st1) :
    Branches c job st (Code.size pre + pos) disp := by
  obtain ⟨pre', job'', st2, shape, st3, hw, hc, b, hb, rfl, hd⟩ := h
  have hw' := (Within.whole.part hp).trans hw
  exact ⟨_, job'', st2, shape, st3, hw', hc, b, hb, by simp [Nat.add_assoc], hd⟩

/-- A branch of a part with no code before it is one of the whole, at the same place. -/
theorem Branches.first (h : Branches c job' st1 pos disp) (hp : Part c job st [] job' st1) :
    Branches c job st pos disp := by
  simpa using h.part hp

/-- The branches of a construct are branches. -/
theorem Branches.own (h : Construct c job st shape st') (hj : JumpAt shape.code pos disp)
    (hb : b ∈ shape.branches) (hp : pos = b.source) : Branches c job st pos disp :=
  ⟨[], job, st, shape, st', .whole, h, b, hb, by simp [hp], hj.unique (hp ▸ (Shape.branch hb).1)⟩

/-- A test is no jump. -/
theorem jumpAt_tested {v : Code} : JumpAt (v ++ [.testRdi]) pos disp ↔ JumpAt v pos disp := by
  simp [Instr.displacement?]

/-- Behind the right side of an assignment code runs straight through. -/
theorem assignCode_split (op : BinaryOp) (type : CType) (w : Width) (address right : Code) :
    ∃ rest, Code.straight rest ∧
      assignCode op type w address right = address ++ [.push .rdi] ++ (right ++ rest) := by
  refine ⟨(if op == .assign then [] else update op w) ++ ([.pop .rax, .storeRdi w] ++ cutTo type),
    ?_, by simp [assignCode]⟩
  simp only [Code.straight_append]
  refine ⟨?_, rfl, Code.straight_of_quiet (quiet_cutTo type)⟩
  split
  · rfl
  · exact Code.straight_of_quiet (quiet_update op w)

/-- Behind the operands of an operation code runs straight through. -/
theorem arithmeticCode_split {op : BinaryOp} {o : Operation} (ho : operation? op = some o)
    (type : CType) (l r : Code) :
    ∃ rest, Code.straight rest ∧
      arithmeticCode o type l r = l ++ [.push .rdi] ++ (r ++ rest) := by
  refine ⟨[.push .rdi, .pop o.right, .pop o.left] ++ (o.code ++ if o.cut then cutTo type else []),
    ?_, by simp [arithmeticCode]⟩
  simp only [Code.straight_append]
  refine ⟨rfl, Code.straight_of_quiet (quiet_operation ho), ?_⟩
  split
  · exact Code.straight_of_quiet (quiet_cutTo type)
  · rfl

/-- Behind the arguments of a call code runs straight through. -/
theorem callCode_split {type : CType} {result : Code} (depth : Nat) (target : UInt32) (count : Nat)
    (args : Code) (hr : Takes c type result) :
    ∃ rest, Code.straight rest ∧ callCode depth target count args result =
      (if depth % 2 == 1 then [.subRsp 8] else []) ++ (args ++ rest) := by
  refine ⟨(Register.arguments.take count).map .pop ++ ([.movAddr .rax target, .callRax] ++
    ((if depth % 2 == 1 then [.addRsp 8] else []) ++ result)), ?_, by simp [callCode]⟩
  simp only [Code.straight_append]
  refine ⟨?_, rfl, ?_, Code.straight_of_quiet (quiet_takes hr)⟩
  · rw [Code.straight, List.all_map, List.all_eq_true]
    exact fun _ _ => rfl
  · split <;> rfl

/-- **Every jump is a branch.** -/
theorem Emits.branches (h : Emits c job st piece st') (hj : JumpAt piece pos disp) :
    Branches c job st pos disp := by
  -- By induction on the rules: a jump of a piece stands in one of its parts, or is a branch of the
  -- construct itself.
  induction h generalizing pos with
  | num _ | localAddress _ | globalAddress _ | str _ | retNone | argsNil | stmtsNil =>
    exact absurd hj (Code.not_jumpAt rfl)
  | derefAddress _ ih => exact (ih hj).first .pointer
  | array hp _ _ ih => exact (ih hj).first (.place hp)
  | decay _ _ ih => exact (ih hj).first .decayed
  | addr _ _ ih => exact (ih hj).first .addressed
  | eval _ ih => exact (ih hj).first .evaluated
  | block _ ih => exact (ih hj).first .items
  | load hp _ _ _ _ ih => exact (ih (hj.head rfl)).first (.place hp)
  | retSome _ ih => exact (ih (hj.head rfl)).first .returned
  | exit _ ih => exact (ih (hj.head rfl)).first .status
  | @assign op _ _ _ type _ address _ right _ _ w ho _ hl _ _ _ ihl ihr =>
    obtain ⟨rest, hrest, heq⟩ := assignCode_split op type w address right
    rw [heq] at hj
    rcases hj.split rfl hrest with hj' | ⟨p, hj', rfl⟩
    · exact (ihl hj').first (.target ho)
    · exact (ihr hj').part (.source ho hl)
  | @arithmetic op _ _ _ type _ l _ r _ o ho _ hl _ ihl ihr =>
    obtain ⟨rest, hrest, heq⟩ := arithmeticCode_split ho type l r
    rw [heq] at hj
    rcases hj.split rfl hrest with hj' | ⟨p, hj', rfl⟩
    · exact (ihl hj').first (.left (by cases op <;> cases ho <;> rfl))
    · exact (ihr hj').part (.right ho hl)
  | @call _ _ args _ st target code _ result _ _ _ _ _ hr ih =>
    obtain ⟨rest, hrest, heq⟩ := callCode_split st.depth target args.length code hr
    rw [heq] at hj
    obtain ⟨p, hj', rfl⟩ := hj.inner (by split <;> rfl) hrest
    exact (ih hj').part .arguments
  | @argsCons _ _ _ later _ code _ hr _ ihr iha =>
    have hj : JumpAt (later ++ [] ++ (code ++ [.push .rdi])) pos disp := by simpa using hj
    rcases hj.split rfl rfl with hj' | ⟨p, hj', rfl⟩
    · exact (ihr hj').first .later
    · simpa using (iha hj').part (.argument hr)
  | stmtsCons hs _ ihs ihr =>
    rcases Code.jumpAt_append.mp hj with hj' | ⟨p, hj', rfl⟩
    · exact (ihs hj').first .head
    · exact (ihr hj').part (.tail hs)
  | ifThen hc hy _ ihc ihy =>
    -- From here on constructs have branches of their own.
    rw [ifThenCode_shape] at hj
    rcases Shape.jumpAt_skip hj with hj' | hpos | ⟨p, hj', rfl⟩
    · exact (ihc (jumpAt_tested.mp hj')).first .ifThenCond
    · exact .own (.ifThen hc hy) hj List.mem_cons_self hpos
    · simpa [Nat.add_assoc] using (ihy hj').part (.ifThenYes hc hy)
  | ifElse hc hy hn _ _ ihc ihy ihn =>
    rw [ifElseCode_shape] at hj
    rcases Shape.jumpAt_choice hj with hj' | hpos | ⟨p, hj', rfl⟩ | hpos | ⟨p, hj', rfl⟩
    · exact (ihc (jumpAt_tested.mp hj')).first .ifElseCond
    · exact .own (.ifElse hc hy hn) hj List.mem_cons_self hpos
    · simpa [Nat.add_assoc] using (ihy hj').part (.ifElseYes hc hy)
    · exact .own (.ifElse hc hy hn) hj (List.mem_cons_of_mem _ List.mem_cons_self) hpos
    · simpa [Nat.add_assoc] using (ihn hj').part (.ifElseNo hc hy hn)
  | loop hc hb _ _ ihc ihb =>
    rw [loopCode_shape] at hj
    rcases Shape.jumpAt_loop hj with hj' | hpos | ⟨p, hj', rfl⟩ | hpos
    · exact (ihc (jumpAt_tested.mp hj')).first .loopCond
    · exact .own (.loop hc hb) hj List.mem_cons_self hpos
    · simpa [Nat.add_assoc] using (ihb hj').part (.loopBody hc hb)
    · exact .own (.loop hc hb) hj (List.mem_cons_of_mem _ List.mem_cons_self) hpos
  | @logical op _ _ _ _ _ _ _ _ _ ho ht hl hr _ _ ihl ihr =>
    rw [logicalCode_shape] at hj
    rcases Shape.jumpAt_choice hj with hj' | hpos | ⟨p, hj', rfl⟩ | hpos | ⟨p, hj', rfl⟩
    · exact (ihl (jumpAt_tested.mp hj')).first (.left (by cases op <;> cases ho <;> rfl))
    · exact .own (.logical ho ht hl hr) hj List.mem_cons_self hpos
    · simpa [Nat.add_assoc] using (ihr (hj'.head rfl)).part (.skipped ho hl hr)
    · exact .own (.logical ho ht hl hr) hj (List.mem_cons_of_mem _ List.mem_cons_self) hpos
    · exact absurd hj' (Code.not_jumpAt (Code.straight_of_quiet (quiet_shortcut op)))

end Lowering

end DirectC
