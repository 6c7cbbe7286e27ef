/-
# Memory

Memory has a byte at every address of 64 bits, and addresses wrap around. Numbers lie in it with
their lowest byte first. A load depends on the bytes of its span only, and a store changes no byte
outside of its span.
-/
import DirectC.Machine.Instr
import Mathlib.Algebra.Group.Int.Defs
import Mathlib.Algebra.Group.Nat.Defs

namespace DirectC

namespace Machine

/-- The contents of a register. -/
abbrev Word := BitVec 64

/-- A byte at every address. -/
abbrev Memory := Word → UInt8

/-! ## Spans -/

/-- One of the `n` bytes from `a` on. -/
def Span (a : Word) (n : Nat) (x : Word) : Prop :=
  (x - a).toNat < n

instance (a : Word) (n : Nat) (x : Word) : Decidable (Span a n x) :=
  inferInstanceAs (Decidable (_ < _))

theorem Span.mono {a x : Word} {k n : Nat} (h : Span a k x) (hk : k ≤ n) : Span a n x :=
  Nat.lt_of_lt_of_le h hk

theorem Span.zero {a x : Word} : ¬ Span a 0 x :=
  Nat.not_lt_zero _

theorem Span.start {a : Word} {n : Nat} (hn : 0 < n) : Span a n a := by
  simpa [Span] using hn

/-- The bytes from some way into a span on. -/
theorem Span.drop {a x : Word} {i n : Nat} (h : Span (a + .ofNat 64 i) n x) :
    Span a (i + n) x := by
  have hx : x - a = .ofNat 64 i + (x - (a + .ofNat 64 i)) := by
    generalize BitVec.ofNat 64 i = b
    rw [← BitVec.sub_sub, BitVec.add_comm b, BitVec.sub_add_cancel]
  unfold Span at h ⊢
  rw [hx, BitVec.toNat_add, BitVec.toNat_ofNat]
  have h1 := Nat.mod_le i (2 ^ 64)
  have h2 := Nat.mod_le (i % 2 ^ 64 + (x - (a + .ofNat 64 i)).toNat) (2 ^ 64)
  omega

theorem Span.step {a x : Word} {n : Nat} (h : Span (a + 1) n x) : Span a (n + 1) x := by
  have := Span.drop (i := 1) h
  rwa [Nat.add_comm] at this

/-- Spans that lie one behind the other have no byte in common. -/
theorem Span.disjoint {a b x : Word} {k n : Nat} (hk : a.toNat + k ≤ b.toNat)
    (hn : b.toNat + n ≤ 2 ^ 64) (h : Span a k x) : ¬ Span b n x := by
  unfold Span at *
  rw [BitVec.toNat_sub] at *
  have hx := x.isLt
  omega

/-- The `n` bytes below `top`. -/
def Below (top : Word) (n : Nat) : Word → Prop :=
  Span (top - .ofNat 64 n) n

theorem Below.mono {top x : Word} {k n : Nat} (h : Below top k x) (hk : k ≤ n) :
    Below top n x := by
  have hstart : top - BitVec.ofNat 64 k = top - BitVec.ofNat 64 n + BitVec.ofNat 64 (n - k) := by
    have hn : BitVec.ofNat 64 n = BitVec.ofNat 64 k + BitVec.ofNat 64 (n - k) := by
      rw [← BitVec.ofNat_add, Nat.add_sub_cancel' hk]
    rw [hn, ← BitVec.sub_sub, BitVec.sub_add_cancel]
  unfold Below at h ⊢
  rw [hstart] at h
  exact h.drop.mono (by omega)

/-- The bytes below a word that was pushed. -/
theorem Below.deeper {top x : Word} {k n : Nat} (h : Below (top - .ofNat 64 k) n x) :
    Below top (n + k) x := by
  unfold Below at h ⊢
  rw [BitVec.sub_sub, ← BitVec.ofNat_add, Nat.add_comm k] at h
  exact h.mono (by omega)

/-- What is below a span is not in it, unless addresses wrap around between them. -/
theorem Span.not_below {a x : Word} {k n : Nat} (h : Span a k x) (hn : n + k ≤ 2 ^ 64) :
    ¬ Below a n x := by
  have hx : x - (a - BitVec.ofNat 64 n) = x - a + BitVec.ofNat 64 n := by
    generalize BitVec.ofNat 64 n = b
    rw [BitVec.sub_eq_add_neg a, ← BitVec.sub_sub, BitVec.sub_eq_add_neg (x - a), BitVec.neg_neg]
  unfold Below Span at *
  rw [hx, BitVec.toNat_add, BitVec.toNat_ofNat, Nat.mod_eq_of_lt (a := n) (by omega),
    Nat.mod_eq_of_lt (by omega)]
  omega

/-- Below an address there are fewer bytes than addresses if one of them is missing. -/
theorem lt_of_not_below {top x : Word} {n : Nat} (h : ¬ Below top n x) : n < 2 ^ 64 := by
  unfold Below Span at h
  omega

theorem add_ofNat_succ (a : Word) (n : Nat) :
    a + BitVec.ofNat 64 (n + 1) = a + 1 + BitVec.ofNat 64 n := by
  rw [BitVec.add_assoc, Nat.add_comm n, BitVec.ofNat_add]
  rfl

/-! ## Loads and stores -/

namespace Memory

/-- The number in the `n` bytes from an address on. -/
def number (m : Memory) (a : Word) : Nat → Nat
  | 0 => 0
  | n + 1 => (m a).toNat + 256 * number m (a + 1) n

/-- What is at an address, extended with zeros. -/
def load (m : Memory) (w : Width) (a : Word) : Word :=
  .ofNat 64 (m.number a w.size)

/-- Memory with the low bytes of a word at an address. -/
def store (m : Memory) (w : Width) (a v : Word) : Memory := fun x =>
  if Span a w.size x then (v.toNat / 256 ^ (x - a).toNat).toUInt8 else m x

variable {m m' : Memory} {a v x : Word} {w : Width} {n : Nat}

theorem number_congr (h : ∀ x, Span a n x → m x = m' x) : m.number a n = m'.number a n := by
  induction n generalizing a with
  | zero => rfl
  | succ n ih => rw [number, number, h a (.start (by omega)), ih fun x hx => h x hx.step]

/-- A load depends on the bytes of its span. -/
theorem load_congr (h : ∀ x, Span a w.size x → m x = m' x) : m.load w a = m'.load w a := by
  rw [load, load, number_congr h]

/-- A store leaves the bytes outside of its span alone. -/
theorem store_of_not (h : ¬ Span a w.size x) : m.store w a v x = m x :=
  if_neg h

/-- Two memories that agree somewhere agree there when both are stored into. -/
theorem store_congr (h : m x = m' x) : m.store w a v x = m'.store w a v x := by
  unfold store
  split
  · rfl
  · exact h

/-- A number is read back from its digits to the base 256. -/
theorem number_eq {d : Nat}
    (h : ∀ i < n, (m (a + .ofNat 64 i)).toNat = d / 256 ^ i % 256) :
    m.number a n = d % 256 ^ n := by
  induction n generalizing a d with
  | zero => simp [number, Nat.mod_one]
  | succ n ih =>
    have h0 : (m a).toNat = d % 256 := by simpa using h 0 (by omega)
    have hrest : m.number (a + 1) n = d / 256 % 256 ^ n := by
      refine ih fun i hi => ?_
      rw [← add_ofNat_succ, h (i + 1) (by omega), Nat.pow_succ', Nat.div_div_eq_div_mul]
    rw [number, h0, hrest, Nat.pow_succ', Nat.mod_mul]

/-- **What was stored is loaded.** -/
theorem load_store : (m.store .qword a v).load .qword a = v := by
  have hnumber : (m.store .qword a v).number a 8 = v.toNat % 256 ^ 8 := by
    refine number_eq fun i hi => ?_
    have hoff : (a + BitVec.ofNat 64 i - a).toNat = i := by
      rw [BitVec.add_comm, BitVec.add_sub_cancel, BitVec.toNat_ofNat]
      omega
    have hs : Span a Width.qword.size (a + BitVec.ofNat 64 i) := by
      rw [Span, hoff]
      exact hi
    rw [store, if_pos hs, hoff]
    simp
  rw [load, Width.size, hnumber, Nat.mod_eq_of_lt (by have := v.isLt; omega)]
  simp

end Memory

end Machine

end DirectC
