/-
# Arithmetic in elements

What steps and distances mean. `x++` is `(x += 1) - 1`: it moves `x` by one, which for a pointer is
one element, and its value is the old one unless a character wraps (`Grammar.postfixes_step`). The
difference of `p + n` and `p` is `n` as long as the distance in bytes is a number of 32 bits, and
there is no difference of pointers to elements without bytes (`Grammar.distance_of_sum`).
-/
import DirectC.Grammar.Expression
import DirectC.Proofs.Evaluation
import DirectC.Proofs.Grammar.Rules

namespace DirectC

open Machine (Memory)

namespace Grammar

variable {l : Layout} {pos : Int} {e n : Expr} {elem : CType} {size : Int64}

/-! ## Scaling -/

/-- An integer in units of a size. -/
def scaled (size : Int64) (pos : Int) (n : Expr) : Expr :=
  if size == 1 then n else .binary .mul pos (.int size.toInt32 pos) n .int

/-- An index can be scaled if its element has a size. -/
theorem scale_ok : scale l pos (.pointer elem) n = .ok e ↔
    ∃ size, l.size elem = .ok size ∧ e = scaled size pos n := by
  unfold scale scaled
  simp only [except_bind_ok, located_ok, CType.deref?, Option.getD_some]
  refine exists_congr fun size => and_congr_right fun _ => ?_
  split <;> simp [pure, Except.pure, eq_comm]

/-- What is built with a scaled integer. -/
theorem scale_bind_ok {f : Expr → Expr} :
    (scale l pos (.pointer elem) n >>= fun right => pure (f right)) = .ok e ↔
      ∃ size, l.size elem = .ok size ∧ e = f (scaled size pos n) := by
  simp only [except_bind_ok, scale_ok]
  constructor
  · rintro ⟨_, ⟨size, hsize, rfl⟩, h⟩
    cases h
    exact ⟨size, hsize, rfl⟩
  · rintro ⟨size, hsize, rfl⟩
    exact ⟨_, ⟨size, hsize, rfl⟩, rfl⟩

/-- The factor of a scaled integer, and the divisor of a difference. -/
def factor (size : Int64) : Int :=
  size.toInt32.toInt

/-- The value of a scaled integer. Units of one byte are not multiplied, and so they are not cut. -/
def span (size : Int64) (k : Int) : Int :=
  if size = 1 then k else (factor size * k).bmod (2 ^ 32)

/-- A span is a product, as far as 32 bits go. -/
theorem span_bmod (size : Int64) (k : Int) :
    (span size k).bmod (2 ^ 32) = (factor size * k).bmod (2 ^ 32) := by
  unfold span
  split
  · next h => rw [h, show factor 1 = 1 from rfl, Int.one_mul]
  · exact Int.bmod_bmod

variable {π : Places} {κ : Access} {m m' m1 m2 m3 : Memory} {v k : Int}

/-- A scaled index evaluates to the span of its value. -/
theorem eval_scaled :
    Eval π κ .value (scaled size pos n) m v m' ↔
      ∃ k, Eval π κ .value n m k m' ∧ v = span size k := by
  unfold scaled span
  by_cases h : size = 1
  · simp [h]
  · simp only [beq_iff_eq, if_neg h, Eval.values_iff (rfl : BinaryOp.mul.rule = .values), Expr.int,
      Eval.num_iff, BinaryOp.result?, Option.some.injEq]
    constructor
    · rintro ⟨_, _, k, _, ⟨rfl, rfl⟩, hn, rfl, rfl⟩
      exact ⟨k, hn, rfl⟩
    · rintro ⟨k, hn, rfl⟩
      exact ⟨_, m, k, _, ⟨rfl, rfl⟩, hn, rfl, rfl⟩

/-! ## Sums and differences -/

variable {p q sum diff : Expr} {pos' : Int}

@[simp] theorem isInteger_pointer : (CType.pointer elem).isInteger = false := rfl

@[simp] theorem isPointer_pointer : (CType.pointer elem).isPointer = true := rfl

/-- A sum has a scaled index on its right side. -/
theorem add_pointer_ok (hp : p.type = .pointer elem) (hn : n.type.isInteger) :
    add l pos p n = .ok sum ↔ ∃ size, l.size elem = .ok size ∧
      sum = .binary .add pos p (scaled size pos n) (.pointer elem) := by
  simp only [add, hp, hn, isInteger_pointer, isPointer_pointer, Bool.false_and, Bool.true_and,
    Bool.false_eq_true, if_false, if_true, scale_bind_ok]

/-- The pointer may stand on either side of a sum. -/
theorem add_comm_pointer (hp : p.type = .pointer elem) (hn : n.type.isInteger) :
    add l pos n p = add l pos p n := by
  simp [add, hp, hn]

/-- The difference of a pointer and an integer has a scaled index on its right side. -/
theorem sub_integer_ok (hp : p.type = .pointer elem) (hn : n.type.isInteger) :
    sub l pos p n = .ok diff ↔ ∃ size, l.size elem = .ok size ∧
      diff = .binary .sub pos p (scaled size pos n) (.pointer elem) := by
  simp only [sub, hp, hn, isInteger_pointer, isPointer_pointer, Bool.false_and, Bool.true_and,
    Bool.false_eq_true, if_false, if_true, scale_bind_ok]

/-- A difference in bytes, in units of a size. -/
def unscaled (size : Int64) (pos : Int) (p q : Expr) : Expr :=
  if size == 1 then .binary .sub pos p q .int
  else .binary .div pos (.binary .sub pos p q .int) (.int size.toInt32 pos) .int

/-- The difference of two pointers is divided by the size of an element. -/
theorem sub_pointer_ok (hp : p.type = .pointer elem) (hq : q.type = .pointer elem) :
    sub l pos p q = .ok diff ↔ ∃ size, l.size elem = .ok size ∧ diff = unscaled size pos p q := by
  simp only [sub, unscaled, hp, hq, isInteger_pointer, isPointer_pointer, beq_self_eq_true,
    Bool.and_false, Bool.and_true, Bool.false_eq_true, if_false, if_true, except_bind_ok,
    located_ok, CType.deref?, Option.getD_some]
  refine exists_congr fun size => and_congr_right fun _ => ?_
  split <;> simp [pure, Except.pure, eq_comm]

/-- The bytes between two pointers are cut to a number of 32 bits and divided. -/
theorem eval_unscaled :
    Eval π κ .value (unscaled size pos p q) m v m' ↔
      ∃ x m1 y, Eval π κ .value p m x m1 ∧ Eval π κ .value q m1 y m' ∧ factor size ≠ 0 ∧
        v = (((x - y).bmod (2 ^ 32)).tdiv (factor size)).bmod (2 ^ 32) := by
  unfold unscaled
  by_cases h : size = 1
  · subst h
    have hone : factor 1 = 1 := rfl
    simp only [beq_self_eq_true, if_true, Eval.values_iff (rfl : BinaryOp.sub.rule = .values),
      BinaryOp.result?, Option.some.injEq, hone, Int.tdiv_one, Int.bmod_bmod]
    constructor
    · rintro ⟨x, m1, y, _, hp, hq, rfl, rfl⟩
      exact ⟨x, m1, y, hp, hq, by decide, rfl⟩
    · rintro ⟨x, m1, y, hp, hq, -, rfl⟩
      exact ⟨x, m1, y, _, hp, hq, rfl, rfl⟩
  · simp only [beq_iff_eq, if_neg h, Eval.values_iff (rfl : BinaryOp.div.rule = .values),
      Eval.values_iff (rfl : BinaryOp.sub.rule = .values), Expr.int, Eval.num_iff, BinaryOp.result?,
      Option.some.injEq]
    constructor
    · rintro ⟨_, _, _, z, ⟨x, m1, y, _, hp, hq, rfl, rfl⟩, ⟨rfl, rfl⟩, hz, rfl⟩
      split at hz <;> cases hz
      exact ⟨x, m1, y, hp, hq, ‹_›, rfl⟩
    · rintro ⟨x, m1, y, hp, hq, h0, rfl⟩
      exact ⟨_, _, _, _, ⟨x, m1, y, _, hp, hq, rfl, rfl⟩, ⟨rfl, rfl⟩, if_neg h0, rfl⟩

/-! ## A variable to try -/

/-- Where a single global variable lives. -/
def onePlace : Places :=
  ⟨0, {}, { globals := (∅ : Table UInt32).insert "x" 0x500000 }⟩

/-- Every byte may be read and written. -/
def everything : Access :=
  ⟨fun _ => True, fun _ => True⟩

/-- The variable, with a type. -/
def single (t : CType) : Expr :=
  .ident "x" 0 .static t

/-- Memory in which the variable has a value. -/
def holding (w : Width) (v : Int) : Memory :=
  Machine.Memory.put (fun _ => 0) w 0x500000 v

/-- There is one variable, at one address. -/
theorem single_address (t : CType) (m : Memory) :
    Eval onePlace everything .address (single t) m 0x500000 m :=
  .globalAddress (a := 0x500000) rfl

/-- The one variable has the value that memory holds, cut to its width. -/
theorem single_value {t : CType} {w : Width} (hw : t.width? = some w) (v : Int) :
    Eval onePlace everything .value (single t) (holding w v) (v.bmod (2 ^ (8 * w.size)))
      (holding w v) := by
  have hload := Eval.load (e := single t) rfl hw (single_address t (holding w v)) fun _ _ => trivial
  rwa [holding, Memory.get_put] at hload

/-! ## Distances -/

/-- Numbers of 64 bits that come and go do not bear on one of 32 bits. -/
theorem bmod_add_sub (v x : Int) : ((v + x).bmod (2 ^ 64) - v).bmod (2 ^ 32) = x.bmod (2 ^ 32) := by
  rw [← Int.bmod_sub_bmod, Int.bmod_bmod_of_dvd (by decide), Int.bmod_sub_bmod, Int.add_comm v,
    Int.add_sub_cancel]

/-- A factor is not farther from zero than a product that is not zero. -/
theorem factor_bounds {x y B : Int} (hx : x ≠ 0) (h0 : -B < x * y) (h1 : x * y < B) :
    -B < y ∧ y < B := by
  have hle : y.natAbs ≤ (x * y).natAbs := by
    rw [Int.natAbs_mul]
    exact Nat.le_mul_of_pos_left _ (Int.natAbs_pos.mpr hx)
  omega

/-- A distance in bytes that is a number of 32 bits is not cut, and its elements are counted. -/
theorem distance_eq (hf : factor size ≠ 0) (h0 : -2 ^ 31 < k * size.toInt)
    (h1 : k * size.toInt < 2 ^ 31) :
    (((factor size * k).bmod (2 ^ 32)).tdiv (factor size)).bmod (2 ^ 32) = k := by
  by_cases hk : k = 0
  · simp [hk]
  · -- Some element is counted, so that the size of one is below the bound and is not cut.
    have hsize := factor_bounds hk h0 h1
    have hfactor : factor size = size.toInt := by
      rw [factor, Int64.toInt_toInt32]
      apply Int.bmod_eq_of_le <;> omega
    rw [Int.mul_comm] at h0 h1
    rw [hfactor] at hf ⊢
    have hcount := factor_bounds hf h0 h1
    have hbytes : (size.toInt * k).bmod (2 ^ 32) = size.toInt * k := by
      apply Int.bmod_eq_of_le <;> omega
    rw [hbytes, Int.mul_tdiv_cancel_left _ hf]
    apply Int.bmod_eq_of_le <;> omega

/-- A sum evaluates to its pointer moved by the span of its index. -/
theorem eval_sum {x : Int} (hp : Eval π κ .value p m v m1) (hn : Eval π κ .value n m1 k m2) :
    Eval π κ .value (.binary .add pos p (scaled size pos n) (.pointer elem)) m x m' ↔
      x = (v + span size k).bmod (2 ^ 64) ∧ m' = m2 := by
  simp only [Eval.values_iff (rfl : BinaryOp.add.rule = .values), eval_scaled, BinaryOp.result?,
    Option.some.injEq]
  constructor
  · rintro ⟨_, _, _, _, hp', ⟨_, hn', rfl⟩, rfl, rfl⟩
    obtain ⟨rfl, rfl⟩ := hp.unique hp'
    obtain ⟨rfl, rfl⟩ := hn.unique hn'
    exact ⟨rfl, rfl⟩
  · rintro ⟨rfl, rfl⟩
    exact ⟨_, _, _, _, hp, ⟨_, hn, rfl⟩, rfl, rfl⟩

/-- The distance from a pointer to its sum with an integer. -/
theorem eval_distance {r : Int} (hp : Eval π κ .value p m v m1) (hn : Eval π κ .value n m1 k m2)
    (hq : Eval π κ .value q m2 v m3) :
    Eval π κ .value (unscaled size pos'
        (.binary .add pos p (scaled size pos n) (.pointer elem)) q) m r m' ↔
      factor size ≠ 0 ∧
        r = (((factor size * k).bmod (2 ^ 32)).tdiv (factor size)).bmod (2 ^ 32) ∧ m' = m3 := by
  have hdistance : ((v + span size k).bmod (2 ^ 64) - v).bmod (2 ^ 32) =
      (factor size * k).bmod (2 ^ 32) := by
    rw [bmod_add_sub, span_bmod]
  simp only [eval_unscaled, eval_sum hp hn]
  constructor
  · rintro ⟨_, _, _, ⟨rfl, rfl⟩, hq', h0, rfl⟩
    obtain ⟨rfl, rfl⟩ := hq.unique hq'
    rw [hdistance]
    exact ⟨h0, rfl, rfl⟩
  · rintro ⟨h0, rfl, rfl⟩
    refine ⟨_, _, _, ⟨rfl, rfl⟩, hq, h0, ?_⟩
    rw [hdistance]

/-- **Differences undo sums.** A sum is the same on either side of its pointer. Its distance from
the pointer is the integer again, as long as the bytes between them are a number of 32 bits; but it
is a division by zero if the constant for the size of an element is zero. -/
theorem distance_of_sum (hp : p.type = .pointer elem) (hq : q.type = .pointer elem)
    (hn : n.type.isInteger) (hsum : binary l .add pos p n = .ok sum)
    (hdiff : binary l .sub pos' sum q = .ok diff) :
    binary l .add pos n p = .ok sum ∧ ∃ size, l.size elem = .ok size ∧
      ∀ π κ m v m1 k m2 m3, Eval π κ .value p m v m1 → Eval π κ .value n m1 k m2 →
        Eval π κ .value q m2 v m3 →
        (size.toInt32 ≠ 0 → -2 ^ 31 < k * size.toInt → k * size.toInt < 2 ^ 31 →
          ∀ r m', Eval π κ .value diff m r m' ↔ r = k ∧ m' = m3) ∧
        (size.toInt32 = 0 → ∀ r m', ¬ Eval π κ .value diff m r m') := by
  refine ⟨(add_comm_pointer hp hn).trans hsum, ?_⟩
  obtain ⟨size, hsize, rfl⟩ := (add_pointer_ok hp hn).mp hsum
  have ht : (Expr.binary .add pos p (scaled size pos n) (.pointer elem)).type = .pointer elem := rfl
  obtain ⟨size', hsize', rfl⟩ := (sub_pointer_ok ht hq).mp hdiff
  cases hsize.symm.trans hsize'
  refine ⟨size, hsize, fun π κ m v m1 k m2 m3 hp hn hq => ⟨?_, ?_⟩⟩
  · intro h0 hlow hhigh r m'
    have hf : factor size ≠ 0 := fun h => h0 (Int32.toInt_inj.mp h)
    rw [eval_distance hp hn hq, distance_eq hf hlow hhigh]
    exact and_iff_right hf
  · intro h0 r m' h
    have hf : factor size = 0 := by rw [factor, h0]; rfl
    exact ((eval_distance hp hn hq).mp h).1 hf

/-- A pointer that wraps when five elements are added. -/
theorem distance_of_sum_wrapped : ∃ sum diff,
    binary {} .add 0 (single (.pointer .int)) (.int 5 0) = .ok sum ∧
      binary {} .sub 0 sum (single (.pointer .int)) = .ok diff ∧
      binary {} .add 0 (.int 5 0) (single (.pointer .int)) = .ok sum ∧
      ∀ r m', Eval onePlace everything .value diff (holding .qword (2 ^ 63 - 4)) r m' ↔
        r = 5 ∧ m' = holding .qword (2 ^ 63 - 4) := by
  refine ⟨_, _, rfl, rfl, ?_⟩
  obtain ⟨hcomm, size, hsize, hall⟩ := distance_of_sum (p := single (.pointer .int))
    (q := single (.pointer .int)) (n := .int 5 0) (l := {}) rfl rfl rfl rfl rfl
  cases hsize
  have hvalue := single_value (t := .pointer .int) rfl (2 ^ 63 - 4)
  exact ⟨hcomm, (hall _ _ _ _ _ _ _ _ hvalue .num hvalue).1 (by decide) (by decide) (by decide)⟩

/-- A layout with a struct that has no members. -/
def hollow : Layout :=
  Layout.add {} ⟨"E", 0, 1, []⟩

/-- **A distance without a value.** Sums and differences of pointers to a struct without members are
let pass, and the difference is divided by zero. -/
theorem distance_undefined : ∃ sum diff,
    Layout.define {} "E" [] = .ok hollow ∧
      binary hollow .add 0 (single (.pointer (.struct "E"))) (.int 1 0) = .ok sum ∧
      binary hollow .sub 0 sum (single (.pointer (.struct "E"))) = .ok diff ∧
      (∀ v, ∃ x m', Eval onePlace everything .value sum (holding .qword v) x m') ∧
      ∀ v, ¬ ∃ r m', Eval onePlace everything .value diff (holding .qword v) r m' := by
  let x := single (.pointer (.struct "E"))
  refine ⟨.binary .add 0 x (scaled 0 0 (.int 1 0)) (.pointer (.struct "E")),
    unscaled 0 0 (.binary .add 0 x (scaled 0 0 (.int 1 0)) (.pointer (.struct "E"))) x,
    rfl, rfl, rfl, fun v => ?_, fun v => ?_⟩
  all_goals have hvalue := single_value (t := .pointer (.struct "E")) rfl v
  · exact ⟨_, _, (eval_sum hvalue .num).mpr ⟨rfl, rfl⟩⟩
  · rintro ⟨r, m', h⟩
    exact ((eval_distance hvalue .num hvalue).mp h).1 rfl

/-! ## Steps -/

/-- The two operators that step a variable. -/
inductive Direction where
  | up
  | down
  deriving DecidableEq, Repr

namespace Direction

/-- How a step is written. -/
def punct : Direction → Punct
  | up => .increment
  | down => .decrement

/-- The assignment that makes the step. -/
def op : Direction → BinaryOp
  | up => .addAssign
  | down => .subAssign

/-- The operator that undoes it. -/
def undo : Direction → BinaryOp
  | up => .sub
  | down => .add

/-- The number of elements that a step goes. -/
def sign : Direction → Int
  | up => 1
  | down => -1

/-- The character from which a step wraps. -/
def brink : Direction → Int
  | up => 127
  | down => -128

end Direction

/-- **What a step counts** in a type: the constant of one, and its number. For a pointer that is the
number of bytes of an element, as far as a constant can hold it. -/
inductive Stride (l : Layout) (pos : Int) : CType → Expr → Int → Prop where
  | int : Stride l pos .int (.int 1 pos) 1
  | char : Stride l pos .char (.int 1 pos) 1
  | pointer {elem : CType} {size : Int64} (hsize : l.size elem = .ok size) :
      Stride l pos (.pointer elem) (scaled size pos (.int 1 pos)) (factor size)

variable {l : Layout} {d : Direction} {pos : Int} {e one : Expr} {t : CType} {u : Int} {s : Reading}
  {size : Int64} {π : Places} {κ : Access} {m m' : Memory} {r : Int}

/-- The type of the value of a step. -/
def stepType (t : CType) : CType :=
  if t = .char then .int else t

/-- The tree of a step: the assignment of `e + 1` or `e - 1` to `e`, and its undoing. -/
def stepTree (d : Direction) (pos : Int) (e one : Expr) : Expr :=
  .binary d.undo pos (.binary d.op pos e one e.type) one (stepType e.type)

/-- One step is one element. -/
theorem span_one (size : Int64) : span size 1 = factor size := by
  unfold span
  split
  · next h => rw [h]; rfl
  · have h0 := size.toInt32.le_toInt
    have h1 := size.toInt32.toInt_lt
    rw [Int.mul_one, factor]
    apply Int.bmod_eq_of_le <;> omega

/-- A constant of one, in units. -/
theorem eval_one {x : Int} :
    Eval π κ .value (scaled size pos (.int 1 pos)) m x m' ↔ x = factor size ∧ m' = m := by
  rw [eval_scaled]
  simp only [Expr.int, Eval.num_iff]
  constructor
  · rintro ⟨_, ⟨rfl, rfl⟩, rfl⟩
    exact ⟨span_one size, rfl⟩
  · rintro ⟨rfl, rfl⟩
    exact ⟨1, ⟨rfl, rfl⟩, (span_one size).symm⟩

@[simp] theorem type_int {c : Int32} : (Expr.int c pos).type = .int := rfl

@[simp] theorem isInteger_int : CType.int.isInteger = true := rfl

theorem rvalue_int {c : Int32} : rvalue (.int c pos) = .ok (.int c pos) := rfl

/-- An integer is changed by one. -/
theorem assign_one_integer {op : BinaryOp} (ho : (op == .assign) = false) (hp : e.isPlace)
    (ht : e.type.isInteger) :
    assign l op pos e (.int 1 pos) = .ok (.binary op pos e (.int 1 pos) e.type) := by
  simp [assign, hp, ht, ho, CType.isScalar, rvalue_int, bind, Except.bind, pure, Except.pure]

/-- A pointer is changed by one scaled step. -/
theorem assign_one_pointer {elem : CType} {op : BinaryOp} (ho : (op == .assign) = false)
    (hp : e.isPlace) (ht : e.type = .pointer elem) (hsize : l.size elem = .ok size) :
    assign l op pos e (.int 1 pos) =
      .ok (.binary op pos e (scaled size pos (.int 1 pos)) (.pointer elem)) := by
  have hscale : (scale l pos (.pointer elem) (.int 1 pos) >>= fun one =>
      pure (Expr.binary op pos e one (.pointer elem))) = .ok _ :=
    scale_bind_ok.mpr ⟨size, hsize, rfl⟩
  rw [← hscale]
  simp [assign, hp, ht, ho, CType.isScalar, rvalue_int, bind, Except.bind, pure, Except.pure]

/-- A step is an assignment and its undoing. -/
theorem stepped_ok {op undo : BinaryOp} {updated result : Expr}
    (hassign : assign s.env.layout op pos e (.int 1 pos) = .ok updated)
    (hundo : binary s.env.layout undo pos updated (.int 1 pos) = .ok result) :
    stepped op undo pos e s = .ok result s := by
  simp only [stepped, layout, bind, EStateM.bind, hassign, hundo, checked, pure, EStateM.pure]

/-- The old value of an integer is the new one, changed back by one. -/
theorem Direction.undo_integer (ht : e.type.isInteger) :
    binary l d.undo pos e (.int 1 pos) = .ok (.binary d.undo pos e (.int 1 pos) .int) := by
  cases d <;> simp [Direction.undo, binary, add, sub, ht, pure, Except.pure]

/-- The old value of a pointer is the new one, changed back by a scaled step. -/
theorem Direction.undo_pointer {elem : CType} (ht : e.type = .pointer elem)
    (hsize : l.size elem = .ok size) :
    binary l d.undo pos e (.int 1 pos) =
      .ok (.binary d.undo pos e (scaled size pos (.int 1 pos)) (.pointer elem)) := by
  cases d with
  | up => exact (sub_integer_ok ht rfl).mpr ⟨size, hsize, rfl⟩
  | down => exact (add_pointer_ok ht rfl).mpr ⟨size, hsize, rfl⟩

/-- A step is read as an assignment and its undoing, both by the same constant. -/
theorem stepped_eq (d : Direction) (hp : e.isPlace) (hu : Stride s.env.layout pos e.type one u) :
    stepped d.op d.undo pos e s = .ok (stepTree d pos e one) s := by
  have ho : (d.op == .assign) = false := by cases d <;> rfl
  unfold stepTree
  generalize htype : e.type = t at hu
  cases hu with
  | int | char =>
    have hint : e.type.isInteger := by rw [htype]; rfl
    refine stepped_ok (htype ▸ assign_one_integer ho hp hint) ?_
    exact Direction.undo_integer rfl
  | @pointer elem size hsize =>
    exact stepped_ok (assign_one_pointer ho hp htype hsize) (Direction.undo_pointer rfl hsize)

/-- The constant of a step has its number as value. -/
theorem Stride.eval_iff (hu : Stride l pos t one u) (π : Places) (κ : Access) (m : Memory) (x : Int)
    (m' : Memory) : Eval π κ .value one m x m' ↔ x = u ∧ m' = m := by
  cases hu with
  | int | char => exact Eval.num_iff
  | pointer hsize => exact eval_one

/-- A pointer moves by the bytes of an element, if a constant can hold their number. -/
theorem Stride.of_pointer {elem : CType} (hu : Stride l pos (.pointer elem) one u)
    (hsize : l.size elem = .ok size) (hf : size.toInt32.toInt = size.toInt) : u = size.toInt := by
  cases hu with
  | pointer hsize' =>
    cases hsize.symm.trans hsize'
    exact hf

/-- What the tree of a step does: the place takes the next value, from which the step is undone. -/
theorem eval_stepTree (hone : ∀ m x m', Eval π κ .value one m x m' ↔ x = u ∧ m' = m) :
    Eval π κ .value (stepTree d pos e one) m r m' ↔
      ∃ w a m1, e.type.width? = some w ∧ Eval π κ .address e m a m1 ∧ κ.Reads w a ∧
        κ.Writes w a ∧ m' = m1.put w a (m1.get w a + d.sign * u) ∧
        r = (stepType e.type).wrap (e.type.wrap (m1.get w a + d.sign * u) - d.sign * u) := by
  have hop : d.op.rule = .update := by cases d <;> rfl
  have hundo : d.undo.rule = .values := by cases d <;> rfl
  have hcombine (x : Int) : d.op.combine? x u = some (x + d.sign * u) := by
    cases d <;> simp [Direction.op, Direction.sign, BinaryOp.combine?, Int.sub_eq_add_neg]
  have hresult (x : Int) : d.undo.result? x u = some (x - d.sign * u) := by
    cases d <;> simp [Direction.undo, Direction.sign, BinaryOp.result?, Int.sub_eq_add_neg]
  unfold stepTree
  simp only [Eval.values_iff hundo, Eval.update_iff hop, hone]
  constructor
  · rintro ⟨_, _, _, z, ⟨a, m1, _, _, w, y, ha, ⟨rfl, rfl⟩, hw, hr, hwr, hy, rfl, rfl⟩,
      ⟨rfl, rfl⟩, hz, rfl⟩
    cases (hcombine _).symm.trans hy
    cases (hresult _).symm.trans hz
    exact ⟨w, a, _, hw, ha, hr, hwr, rfl, rfl⟩
  · rintro ⟨w, a, m1, hw, ha, hr, hwr, rfl, rfl⟩
    exact ⟨_, _, _, _, ⟨a, m1, _, _, w, _, ha, ⟨rfl, rfl⟩, hw, hr, hwr, hcombine _, rfl, rfl⟩,
      ⟨rfl, rfl⟩, hresult _, rfl⟩

/-- Undoing a step gives back what was there, except that a character on the brink has gone to the
other end before it becomes a number of 32 bits. -/
theorem wrap_step {w : Width} {old : Int} (hu : Stride l pos t one u) (hw : t.width? = some w)
    (hold : old.bmod (2 ^ (8 * w.size)) = old) :
    (stepType t).wrap (t.wrap (old + d.sign * u) - d.sign * u) =
      if t = .char ∧ old = d.brink then old - d.sign * 256 else old := by
  cases hu with
  | int =>
    cases hw
    simpa [stepType, CType.wrap, Int.bmod_sub_bmod, Width.size] using hold
  | pointer hsize =>
    cases hw
    simpa [stepType, CType.wrap, Int.bmod_sub_bmod, Width.size] using hold
  | char =>
    -- The place has 8 bits and the value 32, so that the two do not cancel on the brink.
    cases hw
    have h0 : -128 ≤ old := hold ▸ Int.le_bmod (by decide)
    have h1 : old < 128 := hold ▸ Int.bmod_lt (by decide)
    have hbmod (x : Int) (n : Nat) : x.bmod n = _ := Int.bmod_def ..
    cases d <;>
      simp only [stepType, CType.wrap, Direction.sign, Direction.brink, hbmod, true_and, if_true] <;>
      split <;> omega

/-- **A step moves a variable and has its old value.** Behind a place that can be stepped, `x++` is
read as `(x += 1) - 1` and `x--` as `(x -= 1) + 1`, and reading goes on behind it with this tree. The
tree can be evaluated wherever the place can be read and written. It moves what the place holds by
one unit in its direction, cut to the width of the place, and leaves the rest of memory alone; its
value is what the place held before, unless that is a character from which the step wraps. The unit
of a pointer is one element, if a constant can hold its size. -/
theorem postfixes_step (hp : e.isPlace) (hu : Stride s.env.layout s.current.pos e.type one u)
    (hd : s.current.kind = .punct d.punct) (expr : Read Expr) (fuel : Nat) :
    postfixes expr (fuel + 1) e s =
        (next >>= fun _ => postfixes expr fuel (stepTree d s.current.pos e one)) s ∧
      (∀ π κ m r m', Eval π κ .value (stepTree d s.current.pos e one) m r m' ↔
        ∃ w a m1, e.type.width? = some w ∧ Eval π κ .address e m a m1 ∧ κ.Reads w a ∧
          κ.Writes w a ∧ m' = m1.put w a (m1.get w a + d.sign * u) ∧
          m'.get w a = e.type.wrap (m1.get w a + d.sign * u) ∧
          r = if e.type = .char ∧ m1.get w a = d.brink then m1.get w a - d.sign * 256
            else m1.get w a) ∧
      ∀ elem size, e.type = .pointer elem → s.env.layout.size elem = .ok size →
        size.toInt32.toInt = size.toInt → u = size.toInt := by
  have hnext : ∃ s1, next s = .ok () s1 ∧ s1.env = s.env := by
    unfold next
    split <;> exact ⟨_, rfl, rfl⟩
  obtain ⟨s1, hnext, henv⟩ := hnext
  refine ⟨?_, ?_, fun elem size htype hsize hf => (htype ▸ hu).of_pointer hsize hf⟩
  · -- Both operators are read alike, up to the two operators that they stand for.
    have hread : postfixes expr (fuel + 1) e s =
        (next >>= fun _ => stepped d.op d.undo s.current.pos e >>= postfixes expr fuel) s := by
      rw [postfixes, postfixesRound]
      simp only [bind, EStateM.bind, token, hd]
      cases d <;> rfl
    rw [← henv] at hu
    rw [hread]
    simp only [bind, EStateM.bind, hnext, stepped_eq d hp hu]
  · intro π κ m r m'
    rw [eval_stepTree (hu.eval_iff π κ)]
    refine exists_congr fun w => exists_congr fun a => exists_congr fun m1 => and_congr_right ?_
    intro hw
    rw [wrap_step hu hw (Memory.get_bmod ..), CType.wrap_eq hw]
    constructor
    · rintro ⟨ha, hr, hwr, rfl, rfl⟩
      exact ⟨ha, hr, hwr, rfl, Memory.get_put .., rfl⟩
    · rintro ⟨ha, hr, hwr, rfl, -, rfl⟩
      exact ⟨ha, hr, hwr, rfl, rfl⟩

/-- A state in front of a step up, behind which the source ends. -/
def beforeStep : Reading :=
  { current := ⟨.punct .increment, "++", 1, 1, 2⟩, ahead := [⟨.endOfFile, [], 3, 1, 4⟩], env := {} }

/-- A pointer that wraps when it moves by one element. -/
theorem postfixes_step_pointer : ∃ e' s',
    postfixes exhausted 2 (single (.pointer .int)) beforeStep = .ok e' s' ∧
      ∃ m', m'.get .qword 0x500000 = -2 ^ 63 + 1 ∧
        Eval onePlace everything .value e' (holding .qword (2 ^ 63 - 3)) (2 ^ 63 - 3) m' := by
  obtain ⟨hread, heval, -⟩ := postfixes_step (d := .up) (s := beforeStep)
    (e := single (.pointer .int)) rfl (.pointer (show Layout.size {} .int = .ok 4 from rfl)) rfl
    exhausted 1
  have hheld : (holding .qword (2 ^ 63 - 3)).get .qword 0x500000 = 2 ^ 63 - 3 := by
    rw [holding, Memory.get_put]
    decide
  refine ⟨_, _, hread, _, ?_, (heval ..).mpr ⟨.qword, 0x500000, _, rfl, single_address ..,
    fun _ _ => trivial, fun _ _ => trivial, rfl, Memory.get_put .., ?_⟩⟩
  · rw [Memory.get_put, hheld]
    decide
  · rw [hheld]
    rfl

/-- **A step can lose the old value.** A character of 127 becomes -128, and undoing the step gives
-129. -/
theorem step_loses_char : ∃ e' s',
    postfixes exhausted 2 (single .char) beforeStep = .ok e' s' ∧
      (holding .byte 127).get .byte 0x500000 = 127 ∧
      (∃ m', Eval onePlace everything .value e' (holding .byte 127) (-129) m') ∧
      ¬ ∃ m', Eval onePlace everything .value e' (holding .byte 127) 127 m' := by
  have hheld : (holding .byte 127).get .byte 0x500000 = 127 := by
    rw [holding, Memory.get_put]
    decide
  have heval : Eval onePlace everything .value (stepTree .up 1 (single .char) (.int 1 1))
      (holding .byte 127) (-129) ((holding .byte 127).put .byte 0x500000 128) := by
    refine (eval_stepTree fun _ _ _ => Eval.num_iff).mpr ⟨.byte, 0x500000, _, rfl,
      single_address .., fun _ _ => trivial, fun _ _ => trivial, ?_, ?_⟩ <;> rw [hheld] <;> rfl
  refine ⟨_, _, rfl, hheld, ⟨_, heval⟩, ?_⟩
  rintro ⟨m', h⟩
  exact absurd (heval.unique h).1 (by decide)

end Grammar

end DirectC
