/-
# Typed trees

The trees that reading can build, as typing rules over expressions and statements. `Typed B n e`
says that `e` obeys the rules when array lengths are at most `B` and the pool has at least `n`
strings; it stays true when the pool grows.
-/
import DirectC.Tree

namespace DirectC

/-! ## Types -/

/-- A type without holes, whose array lengths are natural numbers up to `B`. -/
def CType.Formed (B : Int) : CType → Prop
  | .pointer elem => elem.Formed B
  | .array elem length => elem.Formed B ∧ 0 ≤ length.toInt ∧ length.toInt ≤ B
  | .unknown => False
  | _ => True

/-- Larger lengths may be allowed. -/
theorem CType.Formed.mono {B C : Int} {t : CType} (h : t.Formed B) (hle : B ≤ C) : t.Formed C := by
  induction t with
  | pointer elem ih => exact ih h
  | array elem length ih => exact ⟨ih h.1, h.2.1, Int.le_trans h.2.2 hle⟩
  | unknown => exact h
  | _ => trivial

namespace BinaryOp

/-- The operators on two integers. -/
def isArithmetic : BinaryOp → Bool
  | .add | .sub | .mul | .div | .rem => true
  | _ => false

/-- The operators on a pointer and an integer. -/
def isAdditive : BinaryOp → Bool
  | .add | .sub => true
  | _ => false

/-- The operators that compare. -/
def isComparison : BinaryOp → Bool
  | .lt | .le | .eq | .ne => true
  | _ => false

/-- The operators that store into their left side. -/
def isAssign : BinaryOp → Bool
  | .assign | .addAssign | .subAssign => true
  | _ => false

/-- The operators whose right side may be skipped. -/
def isLogical : BinaryOp → Bool
  | .and | .or => true
  | _ => false

end BinaryOp

/-! ## Typing rules -/

/-- **The typing rules of expressions.** -/
inductive Typed (B : Int) (n : Nat) : Expr → Prop where
  | num {value pos} : Typed B n (.num value pos .int)
  | ident {name pos storage} {type : CType} (hf : type.Formed B) (hv : type.isVoid = false) :
      Typed B n (.ident name pos storage type)
  | str {index : Int} {value pos length} (h0 : 0 ≤ index) (hn : index < n)
      (hf : (CType.array .char length).Formed B) :
      Typed B n (.str index value pos (.array .char length))
  | decay {inner elem length} (h : Typed B n inner) (ht : inner.type = .array elem length) :
      Typed B n (.decay inner (.pointer elem))
  | deref {pos operand} {elem : CType} (h : Typed B n operand)
      (ht : operand.type = .pointer elem) (hv : elem.isVoid = false) :
      Typed B n (.unary .deref pos operand elem)
  | addr {pos operand} (h : Typed B n operand) (hp : operand.isPlace) :
      Typed B n (.unary .addr pos operand (.pointer operand.type))
  | integers {op : BinaryOp} {pos left right} (ho : op.isArithmetic) (hl : Typed B n left)
      (hr : Typed B n right) (tl : left.type.isInteger) (tr : right.type.isInteger) :
      Typed B n (.binary op pos left right .int)
  | offset {op : BinaryOp} {pos left right} {elem : CType} (ho : op.isAdditive)
      (hl : Typed B n left) (hr : Typed B n right) (tl : left.type.isPointer)
      (tr : right.type.isInteger) (hf : elem.Formed B) :
      Typed B n (.binary op pos left right (.pointer elem))
  | difference {pos left right} (hl : Typed B n left) (hr : Typed B n right)
      (tl : left.type.isPointer) (tr : right.type.isPointer) :
      Typed B n (.binary .sub pos left right .int)
  | comparison {op : BinaryOp} {pos left right} (ho : op.isComparison) (hl : Typed B n left)
      (hr : Typed B n right) (tl : left.type.isScalar) (tr : right.type.isScalar) :
      Typed B n (.binary op pos left right .int)
  | logical {op : BinaryOp} {pos left right} (ho : op.isLogical) (hl : Typed B n left)
      (hr : Typed B n right) (tl : left.type.isScalar) (tr : right.type.isScalar) :
      Typed B n (.binary op pos left right .int)
  | assign {op : BinaryOp} {pos left right} (ho : op.isAssign) (hl : Typed B n left)
      (hr : Typed B n right) (hp : left.isPlace) (tl : left.type.isScalar)
      (tr : right.type.isScalar) :
      Typed B n (.binary op pos left right left.type)
  | call {name pos args} {type : CType} (ha : ∀ a ∈ args, Typed B n a)
      (hs : ∀ a ∈ args, a.type.isScalar) (ht : type.isVoid ∨ type.isScalar)
      (hf : type.Formed B) : Typed B n (.call name pos args type)

/-- **The typing rules of statements.** -/
inductive TypedStmt (B : Int) (n : Nat) : Stmt → Prop where
  | eval {e} (h : Typed B n e) (ht : e.type.isVoid ∨ e.type.isScalar) : TypedStmt B n (.eval e)
  | exit {e pos} (h : Typed B n e) (ht : e.type.isInteger) : TypedStmt B n (.exit e pos)
  | retNone {pos} : TypedStmt B n (.ret none pos)
  | retSome {e pos} (h : Typed B n e) (ht : e.type.isScalar) :
      TypedStmt B n (.ret (some e) pos)
  | ifThen {cond yes} (h : Typed B n cond) (ht : cond.type.isScalar) (hy : TypedStmt B n yes) :
      TypedStmt B n (.ifThen cond yes)
  | ifElse {cond yes no} (h : Typed B n cond) (ht : cond.type.isScalar)
      (hy : TypedStmt B n yes) (hn : TypedStmt B n no) : TypedStmt B n (.ifElse cond yes no)
  | loop {cond body} (h : Typed B n cond) (ht : cond.type.isScalar)
      (hb : TypedStmt B n body) : TypedStmt B n (.loop cond body)
  | block {items} (h : ∀ s ∈ items, TypedStmt B n s) : TypedStmt B n (.block items)

variable {B : Int} {n m : Nat} {e : Expr}

/-! ## Growing pools -/

/-- Expressions stay typed as the pool grows. -/
theorem Typed.mono (h : Typed B n e) (hm : n ≤ m) : Typed B m e := by
  induction h with
  | num => exact .num
  | ident hf hv => exact .ident hf hv
  | str h0 hn hf => exact .str h0 (by omega) hf
  | decay _ ht ih => exact .decay ih ht
  | deref _ ht hv ih => exact .deref ih ht hv
  | addr _ hp ih => exact .addr ih hp
  | integers ho _ _ tl tr ihl ihr => exact .integers ho ihl ihr tl tr
  | offset ho _ _ tl tr hf ihl ihr => exact .offset ho ihl ihr tl tr hf
  | difference _ _ tl tr ihl ihr => exact .difference ihl ihr tl tr
  | comparison ho _ _ tl tr ihl ihr => exact .comparison ho ihl ihr tl tr
  | logical ho _ _ tl tr ihl ihr => exact .logical ho ihl ihr tl tr
  | assign ho _ _ hp tl tr ihl ihr => exact .assign ho ihl ihr hp tl tr
  | call _ hs ht hf ih => exact .call ih hs ht hf

/-- Statements stay typed as the pool grows. -/
theorem TypedStmt.mono {s : Stmt} (h : TypedStmt B n s) (hm : n ≤ m) : TypedStmt B m s := by
  induction h with
  | eval h ht => exact .eval (h.mono hm) ht
  | exit h ht => exact .exit (h.mono hm) ht
  | retNone => exact .retNone
  | retSome h ht => exact .retSome (h.mono hm) ht
  | ifThen h ht _ ih => exact .ifThen (h.mono hm) ht ih
  | ifElse h ht _ _ ihy ihn => exact .ifElse (h.mono hm) ht ihy ihn
  | loop h ht _ ih => exact .loop (h.mono hm) ht ih
  | block _ ih => exact .block ih

/-! ## What the rules give -/

theorem CType.isScalar_of_isInteger {t : CType} (h : t.isInteger) : t.isScalar := by
  simp [CType.isScalar, h]

theorem CType.isScalar_of_isPointer {t : CType} (h : t.isPointer) : t.isScalar := by
  simp [CType.isScalar, h]

theorem CType.isPointer_iff {t : CType} : t.isPointer ↔ ∃ elem, t = .pointer elem := by
  cases t <;> simp [CType.isPointer]

/-- The type of a typed expression has no holes. -/
theorem Typed.formed (h : Typed B n e) : e.type.Formed B := by
  induction h with
  | num | integers | difference | comparison | logical => trivial
  | ident hf _ => exact hf
  | str _ _ hf => exact hf
  | decay _ ht ih =>
    rw [ht] at ih
    exact ih.1
  | deref _ ht _ ih =>
    rw [ht] at ih
    exact ih
  | addr _ _ ih => exact ih
  | offset _ _ _ _ _ hf => exact hf
  | assign _ _ _ _ _ _ ihl => exact ihl
  | call _ _ _ hf => exact hf

/-- What has the type of an array or a struct is a place or a string. -/
theorem Typed.isPlace (h : Typed B n e) (ht : e.type.isScalar = false) (hv : e.type.isVoid = false) :
    e.isPlace ∨ ∃ index value pos type, e = .str index value pos type := by
  cases h with
  | ident | deref => exact .inl rfl
  | str => exact .inr ⟨_, _, _, _, rfl⟩
  | assign _ _ _ _ tl =>
    rw [Expr.type] at ht
    rw [ht] at tl
    cases tl
  | call _ _ ht' =>
    rw [Expr.type] at ht hv
    simp [ht, hv] at ht'
  | _ => cases ht

end DirectC
