/-
# Every node is well typed

Types are given to nodes as these are built, by a dozen abbreviations among others, and nothing
checks them again. `Expr.WellTyped l` says what a node has to look like under a layout. All nodes in
the bodies of a program are well typed under a layout that stood while their function was read, and
under the layout of the program if no struct has two bodies (`Program.nodes_wellTyped`).

Two accounts of a node come together here: its operands and its type obey the typing rules
(`Typed`), and it has one of the forms that can be built in some state (`Grammar.Reading.Allows`).
-/
import DirectC.Proofs.Grammar.Definitions
import DirectC.Proofs.Grammar.Forming

namespace DirectC

open Grammar

/-! ## Well-typed nodes -/

/-- What a node of a binary operator looks like. Pointers are moved by members, whose offsets are in
bytes, and by elements. -/
def BinaryOp.WellTyped (l : Layout) (op : BinaryOp) (left right : Expr) (type : CType) : Prop :=
  match op with
  | .add | .sub =>
    type = .int ∧ (left.type.isInteger ∧ right.type.isInteger ∨
      op = .sub ∧ left.type.isPointer ∧ left.type = right.type) ∨
    MemberAddress l op left right type ∨
    ∃ elem, type = .pointer elem ∧ left.type = type ∧ right.type.isInteger ∧ Scaled l elem right
  | .mul | .div | .rem => left.type.isInteger ∧ right.type.isInteger ∧ type = .int
  | .lt | .le | .eq | .ne | .and | .or =>
    left.type.isScalar ∧ right.type.isScalar ∧ type = .int
  | .assign => left.isPlace ∧ left.type.isScalar ∧ right.type.isScalar ∧ type = left.type
  | .addAssign | .subAssign =>
    left.isPlace ∧ left.type.isScalar ∧ right.type.isInteger ∧ type = left.type
  | .unknown => False

/-- **What a node looks like** under a layout. -/
def Expr.WellTyped (l : Layout) : Expr → Prop
  | .num _ _ type => type = .int
  | .ident _ _ _ type => type.isVoid = false
  | .str _ _ _ type => ∃ length, type = .array .char length
  | .decay inner type =>
    (inner.isPlace ∨ ∃ index value pos type, inner = .str index value pos type) ∧
      ∃ elem length, inner.type = .array elem length ∧ type = .pointer elem
  | .unary .deref _ operand type => operand.type = .pointer type ∧ type.isVoid = false
  | .unary .addr _ operand type => operand.isPlace ∧ type = .pointer operand.type
  | .unary .unknown _ _ _ => False
  | .binary op _ left right type => op.WellTyped l left right type
  | .call _ _ args type => (∀ a ∈ args, a.type.isScalar) ∧ (type.isVoid ∨ type.isScalar)
  | .missing => False

section Rules

variable {B : Int} {n : Nat} {l l' : Layout} {s : Reading} {e : Expr}

theorem Grammar.Scaled.isInteger {elem : CType} (h : Scaled l elem e) : e.type.isInteger := by
  obtain ⟨size, -, ⟨-, h⟩ | ⟨-, pos, k, rfl, -⟩⟩ := h
  · exact h
  · rfl

theorem BinaryOp.isAssign_apart {op : BinaryOp} (h : op.isAssign) :
    op.isAdditive = false ∧ op.isComparison = false ∧ op.isLogical = false := by
  cases op with
  | assign | addAssign | subAssign => exact ⟨rfl, rfl, rfl⟩
  | _ => cases h

/-- A pointer that moves is a member or goes by elements. -/
theorem Grammar.Reading.Allows.pointer {op : BinaryOp} {pos : Int} {left right : Expr}
    {elem : CType} (ha : s.Allows (.binary op pos left right (.pointer elem)))
    (ho : op.isAdditive) :
    MemberAddress s.env.layout op left right (.pointer elem) ∨
      left.type = .pointer elem ∧ Scaled s.env.layout elem right := by
  cases ha with
  | offset _ hl hr => exact .inr ⟨hl, hr⟩
  | member hm => exact .inl hm
  | assign ho' =>
    rw [(BinaryOp.isAssign_apart ho').1] at ho
    cases ho

/-- Only pointers of one type have a difference. -/
theorem Grammar.Reading.Allows.difference_types {pos : Int} {left right : Expr}
    (ha : s.Allows (.binary .sub pos left right .int)) :
    left.type.isInteger ∧ right.type.isInteger ∨
      left.type.isPointer ∧ left.type = right.type := by
  cases ha with
  | integers hl hr => exact .inl ⟨hl, hr⟩
  | difference hl heq => exact .inr ⟨hl, heq⟩
  | truth ho => rcases ho with ho | ho <;> cases ho
  | member hm =>
    obtain ⟨_, _, _, _, -, -, -, -, -, htype⟩ := hm
    cases htype
  | assign ho => cases ho

/-- Only an integer is added by an assignment. -/
theorem Grammar.Reading.Allows.step {op : BinaryOp} {pos : Int} {left right : Expr} {type : CType}
    (ha : s.Allows (.binary op pos left right type)) (ho : op.isAssign) (hne : op ≠ .assign) :
    right.type.isInteger := by
  obtain ⟨hadditive, hcomparison, hlogical⟩ := BinaryOp.isAssign_apart ho
  cases ha with
  | integers _ hr => exact hr
  | difference => cases ho
  | truth ho' => simp [hcomparison, hlogical] at ho'
  | offset ho' => simp [hadditive] at ho'
  | member hm =>
    obtain ⟨_, _, _, _, rfl, -⟩ := hm
    cases ho
  | assign _ hr => exact hr hne

/-- The typing rules fix the types, and the state in which a node is built fixes its form. -/
theorem Typed.wellTyped (h : Typed B n e) (ha : s.Allows e) : e.WellTyped s.env.layout := by
  -- Typing says what the operands are. What their sizes have to do with it is said by `Allows`.
  cases h with
  | num => rfl
  | ident hf hv => exact hv
  | str => exact ⟨_, rfl⟩
  | decay hinner ht =>
    refine ⟨hinner.isPlace ?_ ?_, _, _, ht, rfl⟩
    · rw [ht]
      rfl
    · rw [ht]
      rfl
  | deref _ ht hv => exact ⟨ht, hv⟩
  | addr _ hp => exact ⟨hp, rfl⟩
  | @integers op _ _ _ ho _ _ tl tr =>
    cases op with
    | add | sub => exact .inl ⟨rfl, .inl ⟨tl, tr⟩⟩
    | mul | div | rem => exact ⟨tl, tr, rfl⟩
    | _ => cases ho
  | @offset op _ _ _ _ ho =>
    cases op with
    | add | sub =>
      rcases ha.pointer ho with hm | ⟨hl, hr⟩
      · exact .inr (.inl hm)
      · exact .inr (.inr ⟨_, rfl, hl, hr.isInteger, hr⟩)
    | _ => cases ho
  | difference =>
    rcases ha.difference_types with hint | heq
    · exact .inl ⟨rfl, .inl hint⟩
    · exact .inl ⟨rfl, .inr ⟨rfl, heq⟩⟩
  | @comparison op _ _ _ ho _ _ tl tr =>
    cases op with
    | lt | le | eq | ne => exact ⟨tl, tr, rfl⟩
    | _ => cases ho
  | @logical op _ _ _ ho _ _ tl tr =>
    cases op with
    | and | or => exact ⟨tl, tr, rfl⟩
    | _ => cases ho
  | @assign op _ _ _ ho _ _ hp tl tr =>
    cases op with
    | assign => exact ⟨hp, tl, tr, rfl⟩
    | addAssign | subAssign => exact ⟨hp, tl, ha.step rfl (by simp), rfl⟩
    | _ => cases ho
  | call _ hs ht _ => exact ⟨hs, ht⟩

theorem Typed.wellTyped_of_built {k : Layer} {o t : Reading} (h : Typed B n e)
    (hb : Built k o t (.expr e)) : ∃ u, o.Trail k u ∧ u.Trail k t ∧ e.WellTyped u.env.layout := by
  cases hb with
  | node hou hut ha => exact ⟨_, hou, hut, h.wellTyped ha⟩
  | name hmet hut =>
    cases h with
    | ident _ hv => exact ⟨_, hmet.trail, hut, hv⟩

/-- A node that is well typed stays so when structs are added. -/
theorem Expr.WellTyped.mono (h : e.WellTyped l)
    (hsize : ∀ type size, l.size type = .ok size → l'.size type = .ok size)
    (hstruct : ∀ name d, l.struct? name = some d → l'.struct? name = some d) :
    e.WellTyped l' := by
  have hmember : ∀ {op left right type}, MemberAddress l op left right type →
      MemberAddress l' op left right type := by
    rintro _ _ _ _ ⟨struct, d, m, pos, ho, hl, hd, hm⟩
    exact ⟨struct, d, m, pos, ho, hl, hstruct struct d hd, hm⟩
  have hscaled : ∀ {elem right}, Scaled l elem right → Scaled l' elem right := by
    rintro elem _ ⟨size, hs, h⟩
    exact ⟨size, hsize elem size hs, h⟩
  have hadditive : ∀ {op left right type}, BinaryOp.WellTyped l op left right type →
      BinaryOp.WellTyped l' op left right type := by
    intro op left right type h
    cases op with
    | add | sub =>
      rcases h with h | h | ⟨elem, ht, hl, hi, hs⟩
      · exact .inl h
      · exact .inr (.inl (hmember h))
      · exact .inr (.inr ⟨elem, ht, hl, hi, hscaled hs⟩)
    | _ => exact h
  cases e with
  | binary op pos left right type => exact hadditive h
  | unary op pos operand type =>
    cases op with
    | deref | addr | unknown => exact h
  | _ => exact h

end Rules

/-! ## Structs that stay -/

/-- A struct with one body is what it is from its definition on. -/
theorem Grammar.Reading.struct?_stays {s t u : Reading} {name : Bytes} {d : StructDef}
    (hnone : ∀ n, s.env.layout.struct? n = none) (honce : s.bodies.Nodup) (ht : s.Reaches t)
    (hu : t.Reaches u) (hd : t.env.layout.struct? name = some d) :
    u.env.layout.struct? name = some d := by
  obtain ⟨first, ht⟩ := ht
  obtain ⟨second, hu⟩ := hu
  have hfirst : name ∈ first := by
    by_contra hfirst
    rw [ht.others name hfirst, hnone name] at hd
    cases hd
  -- A body has been read already, so another one would be the second.
  have hsecond : name ∉ second := by
    intro hsecond
    rw [ht.ahead, hu.ahead, ← List.append_assoc] at honce
    exact (List.nodup_append.mp (List.nodup_append.mp honce).1).2.2 name hfirst name hsecond rfl
  rw [hu.others name hsecond, hd]

/-- So a type that has a size keeps it. -/
theorem Grammar.Reading.size_stays {s t u : Reading} {type : CType} {size : Int64}
    (hnone : ∀ n, s.env.layout.struct? n = none) (honce : s.bodies.Nodup) (ht : s.Reaches t)
    (hu : t.Reaches u) (h : t.env.layout.size type = .ok size) :
    u.env.layout.size type = .ok size := by
  have hlimits : u.env.layout.limits = t.env.layout.limits := by
    obtain ⟨_, hu⟩ := hu
    exact hu.limits
  rw [← h]
  refine (Layout.size_alignment_congr hlimits fun n hn => ?_).1
  obtain ⟨d, hd⟩ := Layout.knows_of_size h n hn
  rw [hd, struct?_stays hnone honce ht hu hd]

/-! ## Programs -/

namespace Program

variable {file source : Bytes} {limits : Limits} {p : Program} {f : Function}

/-- A layout that stood at some moment between the first and the last token of the body of a
function. -/
def InForce (source : Bytes) (limits : Limits) (f : Function) (l : Layout) : Prop :=
  ∃ v u w, (Reading.start source (Env.empty limits)).Trail .file v ∧
    ReadBetween (Reading.start source (Env.empty limits)) f v w ∧
    v.Trail .file u ∧ u.Trail .file w ∧ u.env.layout = l

/-- **Every expression in every body is well typed**, under a layout that stood while the function
was read; and if no struct has two bodies in the text, under the layout of the program. -/
theorem nodes_wellTyped (h : ofSource file source limits = .ok p) (hf : f ∈ p.functions) :
    ∃ items, f.body = some items ∧ ∀ e, (Node.expr e).Occurs items →
      (∃ l, InForce source limits f l ∧ e.WellTyped l) ∧
        ((bodies (Token.scan source)).Nodup → e.WellTyped p.layout) := by
  obtain ⟨items, hbody, htyped⟩ :=
    ((formed_ofSource (Int.le_max_left _ _) (Int.le_max_right _ _) h).functions f hf).body
  refine ⟨items, hbody, fun e ho => ?_⟩
  have htyped : Typed _ p.strings.length e := Node.Typed.of_occurs htyped ho
  obtain ⟨ps, ls, hdefined⟩ := defined_of_mem h hf
  obtain ⟨before, after, hsplit⟩ := List.append_of_mem hdefined
  obtain ⟨t, htold, rfl, -⟩ := told_ofSource h
  obtain ⟨v, w, hv, hw, hread, -⟩ := htold.bodies before f ps ls after hsplit
  -- The node was built in some state `u` between the ends `v` and `w` of the body.
  obtain ⟨u, hvu, huw, hwell⟩ :=
    htyped.wellTyped_of_built (hread.built Layer.file_bodies hbody ho)
  refine ⟨⟨u.env.layout, ⟨v, u, w, hv, hread, hvu, huw, rfl⟩, hwell⟩, fun honce => ?_⟩
  have hnone : ∀ n, (Reading.start source (Env.empty limits)).env.layout.struct? n = none := by
    intro n
    rw [start_env]
    rfl
  rw [← start_bodies source (Env.empty limits)] at honce
  have hu := (hv.trans hvu).reaches
  have ht := (huw.trans hw).reaches
  exact hwell.mono (fun _ _ hs => Reading.size_stays hnone honce hu ht hs)
    fun _ _ hd => Reading.struct?_stays hnone honce hu ht hd

/-- A list of pairs: members behind pointers, steps over structs and the distance of two places. -/
def chained : Bytes := "struct pair \x7b char c; int n; struct pair *next; \x7d;
struct pair cells[3];
int total(struct pair *p, int k) \x7b
  int sum = 0;
  for (; p; p = p->next) \x7b sum += p->n * k; cells[1].c = *\x22ab\x22; p += 1; \x7d
  return sum - (&cells[2] - cells) && k++;
\x7d"

theorem nodes_wellTyped_chained :
    ∃ p, ofSource "chained.c" chained {} = .ok p ∧ p.functions.length = 1 ∧
      ∀ f ∈ p.functions, ∃ items, f.body = some items ∧
        ∀ e, (Node.expr e).Occurs items → e.WellTyped p.layout := by
  have hp : ((ofSource "chained.c" chained {}).toOption.any fun p =>
      p.functions.length = 1) = true := by
    decide +kernel
  have honce : (bodies (Token.scan chained)).Nodup := by
    decide +kernel
  obtain ⟨p, h, hp⟩ := exists_ok_of_any hp
  rw [decide_eq_true_eq] at hp
  refine ⟨p, h, hp, fun f hf => ?_⟩
  obtain ⟨items, hitems, hnodes⟩ := nodes_wellTyped h hf
  exact ⟨items, hitems, fun e he => (hnodes e he).2 honce⟩

end Program

end DirectC
