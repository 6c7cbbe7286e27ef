/-
# Evaluations, backwards

What an evaluation of an expression tells about those of its parts, and what is read after a
write. An expression has at most one value in a memory (`Eval.unique`): each form of expression has
its own rule, and the rules for operators ask for different operators.
-/
import DirectC.Proofs.Machine.Arithmetic
import DirectC.Proofs.Semantics

namespace DirectC

open Machine (Word Memory Span)
open Lowering (Want)

/-! ## Memory -/

namespace Machine.Memory

/-- What was stored is loaded, as far as its width goes. -/
theorem number_store (m : Memory) (w : Width) (a v : Word) :
    (m.store w a v).number a w.size = v.toNat % 256 ^ w.size := by
  refine number_eq fun i hi => ?_
  have hsmall : w.size < 2 ^ 64 := by cases w <;> decide
  have hoff : (a + BitVec.ofNat 64 i - a).toNat = i := by
    rw [BitVec.add_comm, BitVec.add_sub_cancel, BitVec.toNat_ofNat]
    omega
  have hs : Span a w.size (a + BitVec.ofNat 64 i) := by
    rw [Span, hoff]
    exact hi
  rw [store, if_pos hs, hoff]
  simp

theorem signed_load_store (m : Memory) (w : Width) (a v : Word) :
    w.signed ((m.store w a v).load w a) = w.signed v := by
  have hlow : (m.store w a v).load w a = w.low v := by
    rw [load, number_store, Width.low]
    apply BitVec.eq_of_toNat_eq
    have := v.isLt
    cases w <;> simp [Width.size]
    omega
  rw [hlow, Width.signed_low]

/-- **What is read after a write** is the number cut to the width. -/
theorem get_put (m : Memory) (w : Width) (a v : Int) :
    (m.put w a v).get w a = v.bmod (2 ^ (8 * w.size)) := by
  have hle : 8 * w.size ≤ 64 := by cases w <;> simp [Width.size]
  rw [get, put, signed_load_store, Width.toInt_signed, BitVec.toInt_ofInt,
    Int.bmod_bmod_of_dvd (Nat.pow_dvd_pow 2 hle)]

/-- What is read has been cut to the width. -/
theorem get_bmod (m : Memory) (w : Width) (a : Int) :
    (m.get w a).bmod (2 ^ (8 * w.size)) = m.get w a := by
  rw [get, Width.toInt_signed, Int.bmod_bmod]

end Machine.Memory

/-- Results of a type are cut to the width of its values. -/
theorem CType.wrap_eq {t : CType} {w : Width} (hw : t.width? = some w) (x : Int) :
    t.wrap x = x.bmod (2 ^ (8 * w.size)) := by
  cases t <;> cases hw <;> rfl

/-! ## One rule for each form -/

namespace BinaryOp

/-- How an operator is evaluated. -/
inductive Rule where
  /-- Both sides, then the operation on their values. -/
  | values
  /-- The right side only if the left side does not decide. -/
  | circuit
  /-- An assignment. -/
  | store
  /-- An assignment that reads its target first. -/
  | update
  deriving DecidableEq

/-- The rule for an operator. -/
def rule : BinaryOp → Rule
  | .and | .or => .circuit
  | .assign => .store
  | .addAssign | .subAssign => .update
  | _ => .values

variable {op : BinaryOp} {x y z : Int}

theorem rule_of_result (h : op.result? x y = some z) : op.rule = .values := by
  cases op <;> first | rfl | cases h

theorem rule_of_decided (h : op.decidedBy x) : op.rule = .circuit := by
  cases op <;> first | rfl | cases h

theorem rule_of_logical (h : op.isLogical) : op.rule = .circuit := by
  cases op <;> first | rfl | cases h

theorem rule_of_combine (h : op.combine? x y = some z) : op.rule = .update := by
  cases op <;> first | rfl | cases h

end BinaryOp

open BinaryOp (rule_of_result rule_of_decided rule_of_logical rule_of_combine)

namespace Eval

variable {π : Places} {κ : Access} {want : Want} {e l r : Expr} {op : BinaryOp} {pos : Int}
  {t : CType} {m m' m1 m2 : Memory} {v x a : Int}

/-- Constants. -/
theorem num_iff {c : Int32} :
    Eval π κ .value (.num c pos t) m v m' ↔ v = c.toInt ∧ m' = m := by
  constructor
  · intro h
    cases h with
    | num => exact ⟨rfl, rfl⟩
    | array _ ha => cases ha
    | load hp => cases hp
  · rintro ⟨rfl, rfl⟩
    exact .num

/-- Operators on the values of two sides. -/
theorem values_iff (ho : op.rule = .values) :
    Eval π κ .value (.binary op pos l r t) m v m' ↔
      ∃ x m1 y z, Eval π κ .value l m x m1 ∧ Eval π κ .value r m1 y m' ∧
        op.result? x y = some z ∧ v = t.wrap z := by
  constructor
  · intro h
    cases h with
    | binary hl hr hz => exact ⟨_, _, _, _, hl, hr, hz, rfl⟩
    | array _ ha => cases ha
    | load hp => cases hp
    | short _ hd => cases ho.symm.trans (rule_of_decided hd)
    | long hlogical => cases ho.symm.trans (rule_of_logical hlogical)
    | assign => cases ho
    | compound _ _ _ _ hz => cases ho.symm.trans (rule_of_combine hz)
  · rintro ⟨x, m1, y, z, hl, hr, hz, rfl⟩
    exact .binary hl hr hz

/-- Assignments that read their target. -/
theorem update_iff (ho : op.rule = .update) :
    Eval π κ .value (.binary op pos l r t) m v m' ↔
      ∃ a m1 y m2 w z, Eval π κ .address l m a m1 ∧ Eval π κ .value r m1 y m2 ∧
        t.width? = some w ∧ κ.Reads w a ∧ κ.Writes w a ∧ op.combine? (m2.get w a) y = some z ∧
        v = t.wrap z ∧ m' = m2.put w a z := by
  constructor
  · intro h
    cases h with
    | compound hl hr hw hread hz ha =>
      exact ⟨_, _, _, _, _, _, hl, hr, hw, hread, ha, hz, rfl, rfl⟩
    | binary _ _ hz => cases ho.symm.trans (rule_of_result hz)
    | array _ ha => cases ha
    | load hp => cases hp
    | short _ hd => cases ho.symm.trans (rule_of_decided hd)
    | long hlogical => cases ho.symm.trans (rule_of_logical hlogical)
    | assign => cases ho
  · rintro ⟨a, m1, y, m2, w, z, hl, hr, hw, hread, ha, hz, rfl, rfl⟩
    exact .compound hl hr hw hread hz ha

/-- What has an address has the value that is there, and arrays have the address for their
value. -/
theorem of_address (ha : Eval π κ .address e m a m1) (h : Eval π κ .value e m v m') :
    ∃ b, Eval π κ .address e m b m' ∧
      (e.type.isArray ∧ v = b ∨ ∃ w, e.type.width? = some w ∧ v = m'.get w b) := by
  cases h with
  | array ht h => exact ⟨_, h, .inl ⟨ht, rfl⟩⟩
  | load _ hw h => exact ⟨_, h, .inr ⟨_, hw, rfl⟩⟩
  | num | decay | addr | binary | short | long | assign | compound => cases ha

theorem not_isArray {w : Width} (hw : t.width? = some w) : t.isArray = false := by
  cases t <;> first | rfl | cases hw

/-- **An expression has one value**, and leaves one memory. -/
theorem unique (h : Eval π κ want e m v m1) (h' : Eval π κ want e m x m2) : v = x ∧ m1 = m2 := by
  -- By induction on the first evaluation. The second one goes by the same rule: the operator leaves
  -- no other, and arrays and loads need an address, which the other forms do not have.
  induction h generalizing x m2 with
  | num =>
    obtain ⟨rfl, rfl⟩ := num_iff.mp h'
    exact ⟨rfl, rfl⟩
  | localAddress h =>
    cases h' with
    | localAddress h' => exact ⟨Option.some.inj (h.symm.trans h'), rfl⟩
  | globalAddress h =>
    cases h' with
    | globalAddress h' =>
      cases h.symm.trans h'
      exact ⟨rfl, rfl⟩
  | stringAddress h =>
    cases h' with
    | stringAddress h' =>
      cases h.symm.trans h'
      exact ⟨rfl, rfl⟩
  | derefAddress _ ih =>
    cases h' with
    | derefAddress h' => exact ih h'
  | array ht h ih =>
    obtain ⟨b, hb, ⟨-, rfl⟩ | ⟨w, hw, -⟩⟩ := of_address h h'
    · exact ih hb
    · simp [not_isArray hw] at ht
  | load _ hw h _ ih =>
    obtain ⟨b, hb, ⟨ht, -⟩ | ⟨w, hw', rfl⟩⟩ := of_address h h'
    · simp [not_isArray hw] at ht
    · obtain ⟨rfl, rfl⟩ := ih hb
      cases hw.symm.trans hw'
      exact ⟨rfl, rfl⟩
  | decay _ ih =>
    cases h' with
    | decay h' => exact ih h'
    | array _ ha => cases ha
    | load hp => cases hp
  | addr _ ih =>
    cases h' with
    | addr h' => exact ih h'
    | array _ ha => cases ha
    | load hp => cases hp
  | binary _ _ hz ihl ihr =>
    obtain ⟨x', m3, y', z', hl, hr, hz', rfl⟩ := (values_iff (rule_of_result hz)).mp h'
    obtain ⟨rfl, rfl⟩ := ihl hl
    obtain ⟨rfl, rfl⟩ := ihr hr
    cases hz.symm.trans hz'
    exact ⟨rfl, rfl⟩
  | compound _ _ hw _ hz _ ihl ihr =>
    obtain ⟨a', m3, y', m4, w', z', hl, hr, hw', -, -, hz', rfl, rfl⟩ :=
      (update_iff (rule_of_combine hz)).mp h'
    obtain ⟨rfl, rfl⟩ := ihl hl
    obtain ⟨rfl, rfl⟩ := ihr hr
    cases hw.symm.trans hw'
    cases hz.symm.trans hz'
    exact ⟨rfl, rfl⟩
  | assign _ _ hw _ ihl ihr =>
    cases h' with
    | assign hl hr hw' =>
      obtain ⟨rfl, rfl⟩ := ihl hl
      obtain ⟨rfl, rfl⟩ := ihr hr
      cases hw.symm.trans hw'
      exact ⟨rfl, rfl⟩
    | array _ ha => cases ha
    | load hp => cases hp
    | binary _ _ hz => cases hz
    | short _ hd => cases hd
    | long ho => cases ho
    | compound _ _ _ _ hz => cases hz
  | short _ hd ih =>
    have ho := rule_of_decided hd
    cases h' with
    | short hl _ =>
      obtain ⟨rfl, rfl⟩ := ih hl
      exact ⟨rfl, rfl⟩
    | long _ hl hd' _ =>
      obtain ⟨rfl, rfl⟩ := ih hl
      simp [hd'] at hd
    | array _ ha => cases ha
    | load hp => cases hp
    | binary _ _ hz => cases ho.symm.trans (rule_of_result hz)
    | assign => cases ho
    | compound _ _ _ _ hz => cases ho.symm.trans (rule_of_combine hz)
  | long hlogical _ hd _ ihl ihr =>
    have ho := rule_of_logical hlogical
    cases h' with
    | short hl hd' =>
      obtain ⟨rfl, rfl⟩ := ihl hl
      simp [hd] at hd'
    | long _ hl _ hr =>
      obtain ⟨rfl, rfl⟩ := ihl hl
      obtain ⟨rfl, rfl⟩ := ihr hr
      exact ⟨rfl, rfl⟩
    | array _ ha => cases ha
    | load hp => cases hp
    | binary _ _ hz => cases ho.symm.trans (rule_of_result hz)
    | assign => cases ho
    | compound _ _ _ _ hz => cases ho.symm.trans (rule_of_combine hz)

end Eval

end DirectC
