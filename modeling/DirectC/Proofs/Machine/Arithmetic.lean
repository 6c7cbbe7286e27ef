/-
# Words as signed numbers

What the operations of the machine do to the signed numbers that words stand for. Results are
numbers cut to a width (`Int.bmod`), comparisons compare numbers, and division goes toward zero.
-/
import DirectC.Proofs.Machine.Execution

namespace DirectC

open Machine (Word Flags)

namespace Width

@[simp] theorem low_qword (v : Word) : Width.qword.low v = v := by
  simp [low, size]

@[simp] theorem signed_qword (v : Word) : Width.qword.signed v = v := by
  simp [signed, size]

/-- The low part is what a narrower width keeps. -/
theorem setWidth_low (w : Width) (v : Word) :
    (w.low v).setWidth (8 * w.size) = v.setWidth (8 * w.size) := by
  unfold low
  cases w <;> simp [size, BitVec.setWidth_setWidth_of_le]

/-- The sign is in the low part. -/
@[simp] theorem signed_low (w : Width) (v : Word) : w.signed (w.low v) = w.signed v := by
  rw [signed, setWidth_low, signed]

/-- Extending the low bytes cuts the number to their width. -/
theorem toInt_signed (w : Width) (v : Word) :
    (w.signed v).toInt = v.toInt.bmod (2 ^ (8 * w.size)) := by
  have hle : 8 * w.size ≤ 64 := by cases w <;> simp [size]
  rw [signed, BitVec.toInt_signExtend_of_le hle, BitVec.toInt_setWidth,
    BitVec.toInt_eq_toNat_bmod, Int.bmod_bmod_of_dvd (Nat.pow_dvd_pow 2 hle)]

/-- A store keeps the low bytes of a word only. -/
theorem store_low (w : Width) (m : Machine.Memory) (a v : Word) :
    m.store w a (w.low v) = m.store w a v := by
  funext x
  unfold Machine.Memory.store
  split
  · rename_i h
    unfold Machine.Span at h
    have hlow : (w.low v).toNat = v.toNat % 256 ^ w.size := by
      have := v.isLt
      cases w <;> simp [low, size] <;> omega
    rw [hlow]
    generalize (x - a).toNat = i at h
    have hi : i + (w.size - i) = w.size := Nat.add_sub_cancel' (Nat.le_of_lt h)
    have hdvd : 256 ∣ 256 ^ (w.size - i) := by
      have := Nat.pow_dvd_pow 256 (Nat.one_le_of_lt (Nat.sub_pos_of_lt h))
      rwa [Nat.pow_one] at this
    apply UInt8.toNat_inj.mp
    rw [← hi, Nat.pow_add, Nat.mod_mul_right_div_self]
    simp [Nat.mod_mod_of_dvd _ hdvd]
  · rfl

/-- A byte that was merged into a register is read back. -/
theorem low_byte_merge (h : BitVec 56) (v : Word) :
    Width.byte.low (h ++ v.setWidth 8) = Width.byte.low v := by
  have hmerge : (h ++ v.setWidth 8).setWidth 8 = v.setWidth 8 := by
    rw [BitVec.setWidth_append, dif_pos (Nat.le_refl 8), BitVec.setWidth_eq]
  exact congrArg (BitVec.setWidth 64) hmerge

end Width

namespace Machine

/-- Two tests differ if their outcomes do. -/
theorem bne_decide {P Q R : Prop} [Decidable P] [Decidable Q] [Decidable R] (h : P ↔ ¬ (Q ↔ R)) :
    (decide P != decide Q) = decide R := by
  by_cases hq : Q <;> by_cases hr : R <;> simp_all

/-- The sign and the overflow of a difference tell which number is less. -/
theorem sign_ne_overflow (a b : Word) :
    ((a - b).msb != BitVec.ssubOverflow a b) = decide (a.toInt < b.toInt) := by
  have ha := a.toInt_lt
  have ha' := a.le_toInt
  have hb := b.toInt_lt
  have hb' := b.le_toInt
  have hd : (a - b).toInt < 0 ↔
      ¬ ((a.toInt - b.toInt ≥ 2 ^ 63 ∨ a.toInt - b.toInt < -2 ^ 63) ↔ a.toInt < b.toInt) := by
    rw [BitVec.toInt_sub, Int.bmod_def]
    omega
  rw [BitVec.msb_eq_toInt, BitVec.ssubOverflow, ← Bool.decide_or]
  exact bne_decide hd

/-- A word is zero when its number is. -/
theorem beq_zero_eq (a : Word) : (a == 0) = decide (a.toInt = 0) := by
  rw [Bool.eq_iff_iff, beq_iff_eq, decide_eq_true_eq, ← BitVec.toInt_inj]
  rfl

/-- A difference is zero if both sides are equal. -/
theorem sub_eq_zero_iff (a b : Word) : (a - b == 0) = decide (a.toInt = b.toInt) := by
  rw [Bool.eq_iff_iff, beq_iff_eq, decide_eq_true_eq, BitVec.toInt_inj]
  exact BitVec.sub_eq_iff_eq_add.trans (by simp)

/-- The dividend that `rax` makes with its own sign before it. -/
theorem toInt_signed_pair (a : Word) :
    ((if a.msb then (-1 : Word) else 0) ++ a).toInt = a.toInt := by
  have ha := a.isLt
  rw [BitVec.toInt_append, BitVec.toInt_eq_msb_cond]
  cases a.msb <;> simp
  omega

end Machine

end DirectC
