/-
# The nodes that reading builds

`Reading.Allows s e` says what a node can be that is built in the state `s`, identifiers apart: how
its operands and its type belong together, and which constants stand for sizes and offsets in the
layout of that state. Only the node itself is looked at; a rule that is given operands yields a tree
of which every node is allowed or a node of the operands (`binary_all`, `assign_all` and their
companions). What an identifier is goes by its name (`Reading.Finds`).
-/
import DirectC.Proofs.Grammar.Rules
import DirectC.Proofs.Node
import DirectC.Grammar.Reading

namespace DirectC

namespace Grammar

/-- An integer in units of `elem`: times its size, unless the size is one. -/
def Scaled (l : Layout) (elem : CType) (n : Expr) : Prop :=
  ∃ size, l.size elem = .ok size ∧ (size = 1 ∧ n.type.isInteger ∨
    size ≠ 1 ∧ ∃ pos k, n = .binary .mul pos (.int size.toInt32 pos) k .int ∧ k.type.isInteger)

/-- A pointer to a member: the pointer to its struct, and the offset of the member in bytes. -/
def MemberAddress (l : Layout) (op : BinaryOp) (left right : Expr) (type : CType) : Prop :=
  ∃ struct d m pos, op = .add ∧ left.type = .pointer (.struct struct) ∧
    l.struct? struct = some d ∧ m ∈ d.members ∧ right = .int m.offset.toInt32 pos ∧
    type = .pointer m.type

/-- What a name stands for in a state: a local variable if there is one, or else a global one. -/
inductive Reading.Finds (s : Reading) (name : Bytes) : Storage → CType → Prop where
  | stack {v} (h : s.scope.lookup? name = some v) : Finds s name (.stack v.id) v.type
  | static {g} (h : s.scope.lookup? name = none) (hg : s.env.globals.get? name = some g) :
    Finds s name .static g.type

/-- A call has the arguments and the type that the signature of its name asks for. -/
def Fits (σ : Table Signature) : Node → Prop
  | .expr (.call name _ args type) =>
    ∃ s, σ.get? name = some s ∧ List.Forall₂ (fun t a => assignable t a = true) s.params args ∧
      type = s.ret
  | _ => True

/-- **The nodes that can be built** in a state, other than identifiers. -/
inductive Reading.Allows (s : Reading) : Expr → Prop where
  | num {value pos} : Allows s (.num value pos .int)
  | str {index value pos type} : Allows s (.str index value pos type)
  | decay {inner type} : Allows s (.decay inner type)
  | unary {op pos operand type} : Allows s (.unary op pos operand type)
  | call {name pos args type} (h : Fits s.env.signatures (.expr (.call name pos args type))) :
    Allows s (.call name pos args type)
  | integers {op pos left right} (hl : left.type.isInteger) (hr : right.type.isInteger) :
    Allows s (.binary op pos left right .int)
  | difference {pos left right} (hl : left.type.isPointer) (hr : left.type = right.type) :
    Allows s (.binary .sub pos left right .int)
  | truth {op : BinaryOp} {pos left right} (ho : op.isComparison ∨ op.isLogical) :
    Allows s (.binary op pos left right .int)
  | offset {op : BinaryOp} {pos left right elem} (ho : op.isAdditive)
    (hl : left.type = .pointer elem) (hr : Scaled s.env.layout elem right) :
    Allows s (.binary op pos left right (.pointer elem))
  | member {op : BinaryOp} {pos left right type}
    (h : MemberAddress s.env.layout op left right type) : Allows s (.binary op pos left right type)
  | assign {op : BinaryOp} {pos left right type} (ho : op.isAssign)
    (hr : op ≠ .assign → right.type.isInteger) : Allows s (.binary op pos left right type)

/-! ## Trees node by node -/

section Nodes

variable {P : Node → Prop} {pos : Int} {type : CType} {e left right : Expr}

theorem all_leaf (h : P (.expr e)) (hc : (Node.expr e).children = []) : (Node.expr e).All P :=
  Node.all_iff.mpr ⟨h, by simp [hc]⟩

theorem all_decay (h : P (.expr (.decay e type))) (he : (Node.expr e).All P) :
    (Node.expr (.decay e type)).All P :=
  Node.all_iff.mpr ⟨h, by simpa [Node.children] using he⟩

theorem all_unary {op : UnaryOp} (h : P (.expr (.unary op pos e type)))
    (he : (Node.expr e).All P) : (Node.expr (.unary op pos e type)).All P :=
  Node.all_iff.mpr ⟨h, by simpa [Node.children] using he⟩

theorem all_binary {op : BinaryOp} (h : P (.expr (.binary op pos left right type)))
    (hl : (Node.expr left).All P) (hr : (Node.expr right).All P) :
    (Node.expr (.binary op pos left right type)).All P :=
  Node.all_iff.mpr ⟨h, by simpa [Node.children] using ⟨hl, hr⟩⟩

theorem all_call {name : Bytes} {args : List Expr} (h : P (.expr (.call name pos args type)))
    (ha : ∀ a ∈ args, (Node.expr a).All P) : (Node.expr (.call name pos args type)).All P :=
  Node.all_iff.mpr ⟨h, by simpa [Node.children] using ha⟩

end Nodes

/-! ## Rules -/

/-- What a value is read as is no array. -/
theorem rvalue_type {e r : Expr} (h : rvalue e = .ok r) (elem : CType) (n : Int64) :
    r.type ≠ .array elem n := by
  intro hr
  unfold rvalue at h
  cases he : e.type <;> simp only [he] at h <;> cases h
  case array => cases hr
  all_goals exact nomatch he.symm.trans hr

section Rules

variable {P : Node → Prop} {s : Reading} {pos : Int} {e left right result : Expr}

/-- Taking a value adds allowed nodes. -/
theorem rvalue_all (hP : ∀ e, s.Allows e → P (.expr e)) (h : rvalue e = .ok result)
    (he : (Node.expr e).All P) : (Node.expr result).All P := by
  unfold rvalue at h
  split at h
  · cases h
    exact all_decay (hP _ .decay) he
  · cases h
  · cases h
  · cases h
    exact he

/-- Looking at what a pointer points at adds allowed nodes. -/
theorem deref_all (hP : ∀ e, s.Allows e → P (.expr e)) (h : deref pos e = .ok result)
    (he : (Node.expr e).All P) : (Node.expr result).All P := by
  unfold deref at h
  split at h
  · cases h
  · cases h
  · cases h
    exact all_unary (hP _ .unary) he

/-- Taking an address adds allowed nodes. -/
theorem addressOf_all (hP : ∀ e, s.Allows e → P (.expr e)) (h : addressOf pos e = .ok result)
    (he : (Node.expr e).All P) : (Node.expr result).All P := by
  unfold addressOf at h
  split at h
  · cases h
    exact all_unary (hP _ .unary) he
  · cases h

/-- Selecting a member of the struct that is pointed at adds allowed nodes. -/
theorem member_all {struct : Bytes} {name : Token} (hP : ∀ e, s.Allows e → P (.expr e))
    (h : member s.env.layout pos e struct name = .ok result) (he : (Node.expr e).All P)
    (ht : e.type = .pointer (.struct struct)) : (Node.expr result).All P := by
  unfold member at h
  cases hd : s.env.layout.struct? struct with
  | none => simp [hd] at h
  | some d =>
    cases hm : d.member? name.literal with
    | none => simp [hd, hm] at h
    | some m =>
      simp only [hd, hm, Except.ok.injEq] at h
      subst h
      have hmember : MemberAddress s.env.layout .add e (.int m.offset.toInt32 pos)
          (.pointer m.type) :=
        ⟨struct, d, m, pos, rfl, ht, hd, List.mem_of_find?_eq_some hm, rfl, rfl⟩
      exact all_unary (hP _ .unary) (all_binary (hP _ (.member hmember)) he
        (all_leaf (hP _ .num) rfl))

/-- A scaled index is allowed, and scaled by the size of its element. -/
theorem scale_all {elem : CType} (hP : ∀ e, s.Allows e → P (.expr e))
    (h : scale s.env.layout pos (.pointer elem) e = .ok result) (he : (Node.expr e).All P)
    (hi : e.type.isInteger) :
    (Node.expr result).All P ∧ Scaled s.env.layout elem result ∧ result.type.isInteger := by
  obtain ⟨size, hsize, h⟩ := except_bind_ok.mp h
  have hsize : s.env.layout.size elem = .ok size := located_ok.mp hsize
  by_cases hone : size = 1
  · rw [if_pos (beq_iff_eq.mpr hone)] at h
    cases h
    exact ⟨he, ⟨size, hsize, .inl ⟨hone, hi⟩⟩, hi⟩
  · rw [if_neg (by simpa using hone)] at h
    cases h
    refine ⟨all_binary (hP _ (.integers rfl hi)) (all_leaf (hP _ .num) rfl) he, ?_, rfl⟩
    exact ⟨size, hsize, .inr ⟨hone, pos, e, rfl, hi⟩⟩

/-- A sum with a pointer has a scaled index. -/
theorem add_all (hP : ∀ e, s.Allows e → P (.expr e))
    (h : add s.env.layout pos left right = .ok result) (hl : (Node.expr left).All P)
    (hr : (Node.expr right).All P) : (Node.expr result).All P := by
  unfold add at h
  simp only [Bool.and_eq_true] at h
  split at h
  · rename_i hi
    cases h
    exact all_binary (hP _ (.integers hi.1 hi.2)) hl hr
  · split at h
    · rename_i hi
      obtain ⟨elem, helem⟩ := CType.isPointer_iff.mp hi.2
      rw [helem] at h
      obtain ⟨scaled, hs, h⟩ := except_bind_ok.mp h
      obtain ⟨hs, hscaled, -⟩ := scale_all hP hs hl hi.1
      cases h
      exact all_binary (hP _ (.offset rfl helem hscaled)) hr hs
    · split at h
      · rename_i hi
        obtain ⟨elem, helem⟩ := CType.isPointer_iff.mp hi.1
        rw [helem] at h
        obtain ⟨scaled, hs, h⟩ := except_bind_ok.mp h
        obtain ⟨hs, hscaled, -⟩ := scale_all hP hs hr hi.2
        cases h
        exact all_binary (hP _ (.offset rfl helem hscaled)) hl hs
      · cases h

/-- A difference with a pointer has a scaled index, and that of two pointers is divided by the size.
-/
theorem sub_all (hP : ∀ e, s.Allows e → P (.expr e))
    (h : sub s.env.layout pos left right = .ok result) (hl : (Node.expr left).All P)
    (hr : (Node.expr right).All P) : (Node.expr result).All P := by
  unfold sub at h
  simp only [Bool.and_eq_true, beq_iff_eq] at h
  split at h
  · rename_i hi
    cases h
    exact all_binary (hP _ (.integers hi.1 hi.2)) hl hr
  · split at h
    · rename_i hi
      obtain ⟨elem, helem⟩ := CType.isPointer_iff.mp hi.1
      rw [helem] at h
      obtain ⟨scaled, hs, h⟩ := except_bind_ok.mp h
      obtain ⟨hs, hscaled, -⟩ := scale_all hP hs hr hi.2
      cases h
      exact all_binary (hP _ (.offset rfl helem hscaled)) hl hs
    · split at h
      · rename_i hp
        obtain ⟨size, _, h⟩ := except_bind_ok.mp h
        have hd : (Node.expr (.binary .sub pos left right .int)).All P :=
          all_binary (hP _ (.difference hp.1 hp.2)) hl hr
        split at h
        · cases h
          exact hd
        · cases h
          exact all_binary (hP _ (.integers rfl rfl)) hd (all_leaf (hP _ .num) rfl)
      · cases h

/-- **Every binary operator adds allowed nodes.** -/
theorem binary_all {op : BinaryOp} (hP : ∀ e, s.Allows e → P (.expr e))
    (h : binary s.env.layout op pos left right = .ok result) (hl : (Node.expr left).All P)
    (hr : (Node.expr right).All P) : (Node.expr result).All P := by
  unfold binary at h
  cases op <;> simp only at h
  case add => exact add_all hP h hl hr
  case sub => exact sub_all hP h hl hr
  case mul | div | rem =>
    split at h
    · rename_i hi
      rw [Bool.and_eq_true] at hi
      cases h
      exact all_binary (hP _ (.integers hi.1 hi.2)) hl hr
    · cases h
  case lt | le | eq | ne =>
    split at h
    · cases h
      exact all_binary (hP _ (.truth (.inl rfl))) hl hr
    · cases h
  case and | or =>
    split at h
    · cases h
      exact all_binary (hP _ (.truth (.inr rfl))) hl hr
    · cases h
  all_goals cases h

/-- **Every assignment adds allowed nodes.** -/
theorem assign_all {op : BinaryOp} (hP : ∀ e, s.Allows e → P (.expr e))
    (h : assign s.env.layout op pos left right = .ok result) (ho : op.isAssign)
    (hl : (Node.expr left).All P) (hr : (Node.expr right).All P) : (Node.expr result).All P := by
  unfold assign at h
  cases hp : left.isPlace with
  | false =>
    rw [hp] at h
    cases h
  | true =>
    cases hs : left.type.isScalar with
    | false =>
      simp only [hp, hs, Bool.not_true, Bool.not_false, Bool.false_eq_true, if_false, if_true] at h
      cases h
    | true =>
      simp only [hp, hs, Bool.not_true, Bool.false_eq_true, if_false, Bool.and_eq_true,
        beq_iff_eq] at h
      obtain ⟨value, hv, h⟩ := except_bind_ok.mp h
      have hv := rvalue_all hP hv hr
      -- Plain assignments convert, the others compute with integers or step a pointer.
      split at h
      · rename_i hplain
        split at h
        · cases h
          exact all_binary (hP _ (.assign ho fun hne => absurd hplain hne)) hl hv
        · cases h
      · split at h
        · rename_i hi
          cases h
          exact all_binary (hP _ (.assign ho fun _ => hi.2)) hl hv
        · split at h
          · rename_i hi
            obtain ⟨elem, helem⟩ := CType.isPointer_iff.mp hi.1
            rw [helem] at h
            obtain ⟨scaled, hsc, h⟩ := except_bind_ok.mp h
            obtain ⟨hsc, -, hint⟩ := scale_all hP hsc hv hi.2
            cases h
            exact all_binary (hP _ (.assign ho fun _ => hint)) hl hsc
          · cases h

end Rules

end Grammar

end DirectC
