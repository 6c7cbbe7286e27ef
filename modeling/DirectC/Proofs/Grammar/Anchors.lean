/-
# Trees with positions in a text

An expression is anchored when every position in it is one that complaints may be reported at, and
every string literal in it is the string that stands in the pool under its number. The typing rules
keep this, and where they refuse their operands they complain at such a position themselves. Which
positions those are is left open here; in a source text they are the positions of its tokens.
-/
import DirectC.Grammar.Expression
import DirectC.Proofs.Node

namespace DirectC

variable {ok : Int → Prop} {pool pool' : List Bytes}

/-! ## Anchored trees -/

/-- An expression with positions of which `ok` holds and string literals from the pool. -/
inductive Expr.Anchored (ok : Int → Prop) (pool : List Bytes) : Expr → Prop where
  | num {value pos type} (hpos : ok pos) : Anchored ok pool (.num value pos type)
  | ident {name pos storage type} (hpos : ok pos) : Anchored ok pool (.ident name pos storage type)
  | str {index : Nat} {value pos} (hpos : ok pos) (hvalue : pool[index]? = some value) :
    Anchored ok pool (.str index value pos (.array .char (.ofNat (value.length + 1))))
  | decay {inner type} (hinner : Anchored ok pool inner) : Anchored ok pool (.decay inner type)
  | unary {op pos operand type} (hpos : ok pos) (hoperand : Anchored ok pool operand) :
    Anchored ok pool (.unary op pos operand type)
  | binary {op pos left right type} (hpos : ok pos) (hleft : Anchored ok pool left)
    (hright : Anchored ok pool right) : Anchored ok pool (.binary op pos left right type)
  | call {name pos args type} (hpos : ok pos) (hargs : ∀ a ∈ args, Anchored ok pool a) :
    Anchored ok pool (.call name pos args type)

/-- A statement of anchored expressions. -/
inductive Stmt.Anchored (ok : Int → Prop) (pool : List Bytes) : Stmt → Prop where
  | eval {e} (he : e.Anchored ok pool) : Anchored ok pool (.eval e)
  | exit {e pos} (he : e.Anchored ok pool) : Anchored ok pool (.exit e pos)
  | retNone {pos} : Anchored ok pool (.ret none pos)
  | retSome {e pos} (he : e.Anchored ok pool) : Anchored ok pool (.ret (some e) pos)
  | ifThen {cond yes} (hcond : cond.Anchored ok pool) (hyes : Anchored ok pool yes) :
    Anchored ok pool (.ifThen cond yes)
  | ifElse {cond yes no} (hcond : cond.Anchored ok pool) (hyes : Anchored ok pool yes)
    (hno : Anchored ok pool no) : Anchored ok pool (.ifElse cond yes no)
  | loop {cond body} (hcond : cond.Anchored ok pool) (hbody : Anchored ok pool body) :
    Anchored ok pool (.loop cond body)
  | block {items} (hitems : ∀ s ∈ items, Anchored ok pool s) : Anchored ok pool (.block items)

/-- The pool only grows, so strings keep their numbers. -/
theorem getElem?_of_isPrefix {index : Nat} {value : Bytes} (hp : pool <+: pool')
    (h : pool[index]? = some value) : pool'[index]? = some value := by
  obtain ⟨more, rfl⟩ := hp
  rw [List.getElem?_append_left (List.getElem?_eq_some_iff.mp h).1, h]

namespace Expr.Anchored

/-- An anchored expression has a position that is allowed. -/
theorem pos {e : Expr} (h : e.Anchored ok pool) : ok e.pos := by
  induction h with
  | decay _ ih => exact ih
  | num hpos | ident hpos | str hpos | unary hpos | binary hpos | call hpos => exact hpos

/-- An expression stays anchored as the pool grows. -/
theorem mono {e : Expr} (h : e.Anchored ok pool) (hp : pool <+: pool') : e.Anchored ok pool' := by
  induction h with
  | num hpos => exact .num hpos
  | ident hpos => exact .ident hpos
  | str hpos hvalue => exact .str hpos (getElem?_of_isPrefix hp hvalue)
  | decay _ ih => exact .decay ih
  | unary hpos _ ih => exact .unary hpos ih
  | binary hpos _ _ ihl ihr => exact .binary hpos ihl ihr
  | call hpos _ ih => exact .call hpos ih

end Expr.Anchored

/-- Statements stay anchored as the pool grows. -/
theorem Stmt.Anchored.mono {s : Stmt} (h : s.Anchored ok pool) (hp : pool <+: pool') :
    s.Anchored ok pool' := by
  induction h with
  | eval he => exact .eval (he.mono hp)
  | exit he => exact .exit (he.mono hp)
  | retNone => exact .retNone
  | retSome he => exact .retSome (he.mono hp)
  | ifThen hcond _ ih => exact .ifThen (hcond.mono hp) ih
  | ifElse hcond _ _ ihy ihn => exact .ifElse (hcond.mono hp) ihy ihn
  | loop hcond _ ih => exact .loop (hcond.mono hp) ih
  | block _ ih => exact .block ih

/-- A function that was read from a text. -/
structure Function.Anchored (ok : Int → Prop) (file source : Bytes) (pool : List Bytes)
    (f : Function) : Prop where
  file : f.file = file
  source : f.source = source
  pos : ok f.pos
  body : ∃ items, f.body = some items ∧ ∀ s ∈ items, s.Anchored ok pool

/-- Functions stay anchored as the pool grows. -/
theorem Function.Anchored.mono {file source : Bytes} {f : Function}
    (h : f.Anchored ok file source pool) (hp : pool <+: pool') :
    f.Anchored ok file source pool' := by
  obtain ⟨items, hb, hs⟩ := h.body
  exact ⟨h.file, h.source, h.pos, items, hb, fun s hm => (hs s hm).mono hp⟩

/-! ## String literals in a tree -/

namespace Node

/-- A string literal is the string of its number in the pool, and an array of its bytes with a
terminating zero. -/
def Pooled (pool : List Bytes) : Node → Prop
  | .expr (.str index value _ type) =>
    (∃ i : Nat, index = i ∧ pool[i]? = some value) ∧
      type = .array .char (.ofNat (value.length + 1))
  | _ => True

theorem Pooled.mono {node : Node} (h : node.Pooled pool) (hp : pool <+: pool') :
    node.Pooled pool' := by
  unfold Pooled at h ⊢
  split
  · obtain ⟨⟨i, hi, hvalue⟩, htype⟩ := h
    exact ⟨⟨i, hi, getElem?_of_isPrefix hp hvalue⟩, htype⟩
  · trivial

/-- All literals in an anchored expression are in the pool. -/
theorem pooled_of_expr {e : Expr} (h : e.Anchored ok pool) : (Node.expr e).All (Pooled pool) := by
  induction h with
  | num | ident => exact all_iff.mpr ⟨trivial, by simp [children]⟩
  | str _ hvalue => exact all_iff.mpr ⟨⟨⟨_, rfl, hvalue⟩, rfl⟩, by simp [children]⟩
  | decay _ ih | unary _ _ ih => exact all_iff.mpr ⟨trivial, by simp [children, ih]⟩
  | binary _ _ _ ihl ihr => exact all_iff.mpr ⟨trivial, by simp [children, ihl, ihr]⟩
  | call _ _ ih => exact all_iff.mpr ⟨trivial, by simpa [children] using ih⟩

/-- All literals in an anchored statement are in the pool. -/
theorem pooled_of_stmt {s : Stmt} (h : s.Anchored ok pool) : (Node.stmt s).All (Pooled pool) := by
  induction h with
  | retNone => exact all_iff.mpr ⟨trivial, by simp [children]⟩
  | eval he | exit he | retSome he =>
    exact all_iff.mpr ⟨trivial, by simp [children, pooled_of_expr he]⟩
  | ifThen hcond _ ih | loop hcond _ ih =>
    exact all_iff.mpr ⟨trivial, by simp [children, pooled_of_expr hcond, ih]⟩
  | ifElse hcond _ _ ihy ihn =>
    exact all_iff.mpr ⟨trivial, by simp [children, pooled_of_expr hcond, ihy, ihn]⟩
  | block _ ih => exact all_iff.mpr ⟨trivial, by simpa [children] using ih⟩

end Node

namespace Grammar

/-! ## Rules -/

/-- **What a rule answers**: a result of which `Q` holds, or a complaint at a position of which
`ok` holds. -/
def Answers {α : Type} (ok : Int → Prop) (Q : α → Prop) : Checked α → Prop
  | .ok a => Q a
  | .error c => ok c.pos

section Rules

variable {α β : Type} {Q : α → Prop} {R : β → Prop} {l : Layout} {pos : Int}
  {e left right : Expr}

/-- A rule may be followed by one that takes its result. -/
theorem Answers.bind {r : Checked α} {f : α → Checked β} (hr : Answers ok Q r)
    (hf : ∀ a, Q a → Answers ok R (f a)) : Answers ok R (r >>= f) := by
  cases r with
  | error c => exact hr
  | ok a => exact hf a hr

theorem Answers.ite {c : Prop} [Decidable c] {r r' : Checked α} (h : Answers ok Q r)
    (h' : Answers ok Q r') : Answers ok Q (if c then r else r') := by
  split
  · exact h
  · exact h'

/-- A question to the layout complains at the position that it is asked for. -/
theorem Answers.located {r : Except Layout.Fault α} (hpos : ok pos) :
    Answers ok (fun _ => True) (located pos r) := by
  cases r with
  | error fault => exact hpos
  | ok a => trivial

/-- Taking a value adds nodes at the position of the place. -/
theorem rvalue_answers (he : e.Anchored ok pool) :
    Answers ok (Expr.Anchored ok pool) (rvalue e) := by
  unfold rvalue
  split
  · exact .decay he
  · exact he.pos
  · exact he.pos
  · exact he

/-- What is pointed at is at the position of its operator. -/
theorem deref_answers (hpos : ok pos) (he : e.Anchored ok pool) :
    Answers ok (Expr.Anchored ok pool) (deref pos e) := by
  unfold deref
  split
  · exact hpos
  · exact hpos
  · exact .unary hpos he

/-- An address is at the position of its operator. -/
theorem addressOf_answers (hpos : ok pos) (he : e.Anchored ok pool) :
    Answers ok (Expr.Anchored ok pool) (addressOf pos e) :=
  .ite (.unary hpos he) hpos

/-- A member complains at its operator or at its name. -/
theorem member_answers {struct : Bytes} {name : Token} (hpos : ok pos) (hname : ok name.pos)
    (he : e.Anchored ok pool) :
    Answers ok (Expr.Anchored ok pool) (member l pos e struct name) := by
  unfold member
  split
  · exact hpos
  · split
    · exact hname
    · exact .unary hpos (.binary hpos he (.num hpos))

/-- A scaled index is at the position of its operator. -/
theorem scale_answers {pointer : CType} (hpos : ok pos) (he : e.Anchored ok pool) :
    Answers ok (Expr.Anchored ok pool) (scale l pos pointer e) :=
  .bind (.located hpos) fun _ _ => .ite he (.binary hpos (.num hpos) he)

/-- A sum is at the position of its operator. -/
theorem add_answers (hpos : ok pos) (hl : left.Anchored ok pool) (hr : right.Anchored ok pool) :
    Answers ok (Expr.Anchored ok pool) (add l pos left right) :=
  .ite (.binary hpos hl hr) <|
    .ite (.bind (scale_answers hpos hl) fun _ hs => .binary hpos hr hs) <|
      .ite (.bind (scale_answers hpos hr) fun _ hs => .binary hpos hl hs) hpos

/-- A difference is at the position of its operator. -/
theorem sub_answers (hpos : ok pos) (hl : left.Anchored ok pool) (hr : right.Anchored ok pool) :
    Answers ok (Expr.Anchored ok pool) (sub l pos left right) :=
  have hd : (Expr.binary .sub pos left right .int).Anchored ok pool := .binary hpos hl hr
  .ite hd <|
    .ite (.bind (scale_answers hpos hr) fun _ hs => .binary hpos hl hs) <|
      .ite (.bind (.located hpos) fun _ _ => .ite hd (.binary hpos hd (.num hpos))) hpos

/-- **A binary operator builds and complains at its own position, or at those of its operands.** -/
theorem binary_answers {op : BinaryOp} (hpos : ok pos) (hl : left.Anchored ok pool)
    (hr : right.Anchored ok pool) :
    Answers ok (Expr.Anchored ok pool) (binary l op pos left right) := by
  have hnode : ∀ fits : Bool, Answers ok (Expr.Anchored ok pool) (if fits then
      (.ok (.binary op pos left right .int) : Checked Expr)
      else .error ⟨.operands op left.type right.type, pos⟩) :=
    fun _ => .ite (.binary hpos hl hr) hpos
  cases op with
  | add => exact add_answers hpos hl hr
  | sub => exact sub_answers hpos hl hr
  | assign | addAssign | subAssign | unknown => exact hnode false
  | _ => exact hnode _

/-- **An assignment builds and complains at its own position, or at those of its sides.** -/
theorem assign_answers {op : BinaryOp} (hpos : ok pos) (hl : left.Anchored ok pool)
    (hr : right.Anchored ok pool) :
    Answers ok (Expr.Anchored ok pool) (assign l op pos left right) := by
  unfold assign
  dsimp only
  cases left.isPlace with
  | false => exact hpos
  | true =>
    cases left.type.isScalar with
    | false => exact hpos
    | true =>
      refine .bind (rvalue_answers hr) fun value hv => ?_
      exact .ite (.ite (.binary hpos hl hv) hpos) <|
        .ite (.binary hpos hl hv) <|
          .ite (.bind (scale_answers hpos hv) fun _ hs => .binary hpos hl hs) hpos

/-- Array types complain at the position of their length. -/
theorem array_answers {elem : CType} {length : Int64} (hpos : ok pos) :
    Answers ok (fun type => type = .array elem length) (located pos (l.array elem length)) := by
  unfold Layout.array
  split
  · exact hpos
  · rfl

/-- Each length complains where it stands. -/
theorem arrayOf_answers {elem : CType} {lengths : List (Int64 × Int)}
    (h : ∀ d ∈ lengths, ok d.2) : Answers ok (fun _ => True) (arrayOf l elem lengths) := by
  induction lengths with
  | nil => trivial
  | cons d rest ih =>
    have hd := h d List.mem_cons_self
    refine .bind (ih fun d' hd' => h d' (List.mem_cons_of_mem _ hd')) fun inner _ => ?_
    dsimp only
    cases inner.isVoid with
    | true => exact hd
    | false => exact .located hd

/-- Only the argument that does not fit is complained about. -/
theorem checkArguments_answers {function : Bytes} {index : Nat} {args : List (Expr × Int)}
    {types : List CType} (h : ∀ a ∈ args, ok a.2) :
    Answers ok (fun _ => True) (checkArguments function index args types) := by
  fun_induction checkArguments function index args types with
  | case1 index arg pos args type types hfits ih =>
    exact ih fun a ha => h a (List.mem_cons_of_mem _ ha)
  | case2 index arg pos args type types => exact h _ List.mem_cons_self
  | case3 => trivial

end Rules

end Grammar

end DirectC
