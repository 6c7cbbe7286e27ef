/-
# What follows for the readers

The likeness `making` says of all readers at once what they do to the state. Here it is read off for
the readers of which it is used: that they keep to a trail (`Keeps`), leave fewer tokens
(`Consumes`), build what is allowed (`Builds`), and do not use up a bound that is large enough
(`Lasts`).
-/
import DirectC.Proofs.Grammar.Making

namespace DirectC

namespace Grammar

variable {α β : Type} {k : Layer} {o s t : Reading}

/-! ## Readers along a trail -/

section Along

open Making

variable {built lasts : Prop} {w : Moment k o} {x y : Read α} {Q : Moment k o → α → α → Prop}

/-- Behind a success. -/
theorem Making.of_ok {a : α} (h : (making k o built lasts).Alike w x y Q)
    (hx : x w.1 = .ok a t) : ∃ (ht : w.1.Trail k t) (a' : α), Q (w.on ht) a a' := by
  have hr := h w.1 w.1 ⟨rfl, rfl⟩
  unfold Pairing.Outcome at hr
  rw [hx] at hr
  obtain ⟨v, a', _, hle, ⟨rfl, rfl⟩, hQ, -⟩ := hr
  exact ⟨hle, a', hQ⟩

/-- Behind a failure. -/
theorem Making.of_error {c : Complaint} (h : (making k o built lasts).Alike w x y Q)
    (hx : x w.1 = .error c t) : w.1.Trail k t ∧ (lasts → c.fault ≠ .exhausted) := by
  have hr := h w.1 w.1 ⟨rfl, rfl⟩
  unfold Pairing.Outcome at hr
  rw [hx] at hr
  obtain hc | ⟨_, _, _, hfails⟩ := hr
  · exact hc.elim
  · exact hfails.2

/-- Where the bound is not followed, any one will do. -/
theorem Making.enough {c n : Nat} : (making k o built False).Enough c w n n :=
  ⟨rfl, False.elim⟩

end Along

/-- Where a trail begins. -/
abbrev now (k : Layer) (o : Reading) : Making.Moment k o :=
  ⟨o, .refl o⟩

/-- The readers along a trail from `o` on. -/
abbrev along (k : Layer) (o : Reading) : Likeness :=
  making k o False False

/-! ## Trails -/

/-- **A reader that keeps to a trail**, whether it succeeds or not. -/
def Keeps {α : Type} (k : Layer) (x : Read α) : Prop :=
  ∀ s : Reading, s.Trail k (behind (x s))

section Keeps

variable {x : Read α} {f : α → Read β}

/-- What is like itself along every trail keeps to it. -/
theorem Keeps.of_alike {Q : ∀ o, Making.Moment k o → α → α → Prop}
    (h : ∀ o, (along k o).Alike (now k o) x x (Q o)) : Keeps k x := by
  intro s
  cases hx : x s with
  | ok a t =>
    obtain ⟨ht, -⟩ := Making.of_ok (h s) hx
    exact ht
  | error c t => exact (Making.of_error (h s) hx).1

/-- A success of such a reader is a trail. -/
theorem Keeps.trail {a : α} (hx : Keeps k x) (h : x s = .ok a t) : s.Trail k t := by
  have hs := hx s
  rw [h] at hs
  exact hs

/-- A step that does nothing goes nowhere. -/
theorem Keeps.pure {a : α} : Keeps k (Pure.pure a) :=
  fun s => .refl s

/-- A step that looks at the state. -/
theorem Keeps.look {g : Reading → α} : Keeps k (fun s => .ok (g s) s) :=
  fun s => .refl s

theorem next_keeps : Keeps k next :=
  .of_alike fun _ => .next

/-- Whether or not the token is the one that is expected, it is the next one. -/
theorem expect_keeps {kind : Token.Kind} : Keeps k (expect kind) := by
  intro s
  by_cases h : s.current.kind = kind
  · rw [run_expect h]
    exact .next (.refl s)
  · rw [run_expect_of_ne h]
    exact Keeps.of_alike (α := Token) (fun _ => .unexpected (Q := fun _ _ _ => True)) s

end Keeps

/-- A complaint leaves the state alone. -/
theorem unexpected_keeps {wanted : Wanted} : Keeps k (unexpected wanted : Read α) :=
  .of_alike fun _ => .unexpected (Q := fun _ _ _ => True)

theorem exhausted_keeps : Keeps k (exhausted : Read α) :=
  fun s => .refl s

/-- An operator is passed or left alone. -/
theorem accept_keeps {p : Punct} : Keeps k (accept p) := by
  intro s
  by_cases h : s.current.kind = .punct p
  · rw [run_accept h]
    exact .next (.refl s)
  · rw [run_accept_of_ne h]
    exact .refl s

section Readers

open Making

variable {fuel : Nat} {type : CType} {name : Token} {e e' : Expr} {pos : Int}

/-! ### Types -/

/-- A type may define structs on the way, and nothing else. -/
theorem baseType_keeps : Keeps k (baseType fuel) :=
  .of_alike fun _ => baseType_alike enough

/-- The members of a struct are read before it is defined. -/
theorem members_keeps {struct : Bytes} : Keeps k (members struct fuel) :=
  .of_alike fun _ => members_alike enough

theorem dimension_keeps : Keeps k dimension :=
  .of_alike fun _ => dimension_alike

/-- A declarator declares nothing yet. -/
theorem declarator_keeps : Keeps k (declarator fuel type) :=
  .of_alike fun _ => declarator_alike enough False.elim

theorem memberDeclarators_keeps {struct : Bytes} : Keeps k (memberDeclarators struct type fuel) :=
  .of_alike fun _ => memberDeclarators_alike enough False.elim

/-! ### Expressions -/

theorem join_keeps {op : LevelOp} : Keeps k (join op pos e e') :=
  .of_alike fun _ => join_alike rfl ⟨rfl, False.elim⟩ ⟨rfl, False.elim⟩

/-- **Expressions keep to the trail of expressions**: they take tokens, define structs and put
strings into the pool. -/
theorem assignment_keeps : Keeps k (assignment fuel) :=
  .of_alike fun _ => assignment_alike enough trivial

/-- Operands keep to the trail of expressions. -/
theorem unary_keeps : Keeps k (unary fuel) :=
  .of_alike fun _ => unary_alike enough trivial

theorem value_keeps : Keeps k (value fuel) :=
  .of_alike fun _ => value_alike enough trivial

theorem effect_keeps : Keeps k (effect fuel) :=
  .of_alike fun _ => effect_alike enough trivial

/-- Any number of levels of operators keeps to the trail of expressions. -/
theorem cascade_keeps (levels : List (List LevelOp)) :
    Keeps k (cascade (unary fuel) fuel levels) :=
  .of_alike fun _ => cascade_alike (fun _ _ => unary_alike enough trivial) enough levels _ (.refl _)

theorem argument_keeps : Keeps k (argument (assignment fuel)) :=
  .of_alike fun _ => argument_alike fun _ _ => assignment_alike enough trivial

theorem indexed_keeps : Keeps k (indexed (assignment fuel) pos e) :=
  .of_alike fun _ => indexed_alike (assignment_alike enough trivial) rfl ⟨rfl, False.elim⟩

theorem dotMember_keeps : Keeps k (dotMember pos e) :=
  .of_alike fun _ => dotMember_alike rfl ⟨rfl, False.elim⟩

theorem arrowMember_keeps : Keeps k (arrowMember pos e) :=
  .of_alike fun _ => arrowMember_alike rfl ⟨rfl, False.elim⟩

theorem stepped_keeps {op undo : BinaryOp} (ho : op.isAssign) : Keeps k (stepped op undo pos e) :=
  .of_alike fun _ => stepped_alike ho rfl ⟨rfl, False.elim⟩

/-! ### Statements -/

/-- A local variable is declared if its type has a size, and so is known. -/
theorem declareLocal_keeps (hk : k.Bodies) : Keeps k (declareLocal type name) := by
  intro s
  obtain ⟨c, hc⟩ | ⟨n, id, sc, _, hsize, hd, hok⟩ := declareLocal_cases type name s
  · rw [hc]
    exact .refl s
  · rw [hok]
    exact .inner hk (.refl s) (Scope.locals_declare? hd) (Layout.knows_of_size hsize)

theorem initializer_keeps : Keeps k (initializer fuel type name e) :=
  .of_alike fun _ => initializer_alike enough trivial ⟨rfl, False.elim⟩ ⟨rfl, False.elim⟩

/-- The local variables of a declaration are on the trail of a body. -/
theorem declaration_keeps (hk : k.Bodies) : Keeps k (declaration fuel) :=
  .of_alike fun _ => declaration_alike hk enough trivial

theorem effectStatement_keeps : Keeps k (effectStatement fuel) :=
  .of_alike fun _ => effectStatement_alike enough trivial

theorem returnStatement_keeps : Keeps k (returnStatement type pos fuel) :=
  .of_alike fun _ => returnStatement_alike enough trivial rfl

theorem exitStatement_keeps : Keeps k (exitStatement pos fuel) :=
  .of_alike fun _ => exitStatement_alike enough trivial rfl

theorem condition_keeps : Keeps k (condition fuel) :=
  .of_alike fun _ => condition_alike enough trivial

theorem forCondition_keeps : Keeps k (forCondition pos fuel) :=
  .of_alike fun _ => forCondition_alike enough trivial rfl

theorem forUpdate_keeps : Keeps k (forUpdate fuel) :=
  .of_alike fun _ => forUpdate_alike enough trivial

/-- **Statements keep to the trail of bodies.** -/
theorem statement_keeps (hk : k.Bodies) : Keeps k (statement type fuel) :=
  .of_alike fun _ => statement_alike hk enough trivial

/-- The items of a block keep to the trail of bodies. -/
theorem blockItems_keeps (hk : k.Bodies) : Keeps k (blockItems type fuel) :=
  .of_alike fun _ => blockItems_alike hk enough trivial

/-- A statement that is read alone keeps to the trail of bodies. -/
theorem loneStatement_keeps (hk : k.Bodies) : Keeps k (loneStatement fuel) :=
  .of_alike fun _ => loneStatement_alike hk enough trivial

/-! ### Files -/

/-- A global variable is declared at file level. -/
theorem declareGlobal_keeps : Keeps .file (declareGlobal type name) := by
  intro s
  obtain ⟨c, hc⟩ | ⟨n, _, _, hok⟩ := declareGlobal_cases type name s
  · rw [hc]
    exact .refl s
  · rw [hok]
    exact .declare rfl (.refl s) _

/-- A parameter is declared in the head of a function. -/
theorem parameter_keeps (hk : k.Heads) : Keeps k (parameter fuel) :=
  .of_alike fun _ => parameter_alike hk enough trivial

/-- All parameters are declared in the head of a function. -/
theorem parameters_keeps {first : Bool} (hk : k.Heads) : Keeps k (parameters fuel first) :=
  .of_alike fun _ => parameters_alike hk enough trivial

/-- An item is on the trail of a file. -/
theorem item_keeps {file source : Bytes} : Keeps .file (item file source fuel) :=
  .of_alike fun _ => item_alike rfl enough ⟨rfl, rfl⟩

/-- **A file is read along one trail.** -/
theorem items_keeps {file source : Bytes} : Keeps .file (items file source fuel) :=
  .of_alike fun _ => items_alike rfl enough ⟨rfl, rfl⟩

end Readers

/-! ## Tokens that are used up -/

/-- Success from a state on leaves fewer tokens. -/
def ConsumesAt {α : Type} (x : Read α) (s : Reading) : Prop :=
  ∀ a t, x s = .ok a t → t.left < s.left

/-- **A reader that consumes**: success leaves fewer tokens. -/
def Consumes {α : Type} (x : Read α) : Prop :=
  ∀ s, s.Ended → ConsumesAt x s

/-- What leads behind a token consumes. -/
theorem Consumes.of_alike {x : Read α} {Q : ∀ o, Making.Moment k o → α → α → Prop}
    (h : ∀ o, (along k o).Alike (now k o) x x ((along k o).Beyond (now k o) (Q o))) :
    Consumes x := by
  intro s hs a t hx
  obtain ⟨_, _, hmoved, -⟩ := Making.of_ok (h s) hx
  exact hmoved.2 hs

section Readers

open Making

variable {fuel : Nat} {type : CType}

/-- No type is empty. -/
theorem baseType_consumes : Consumes (baseType fuel) :=
  .of_alike (k := .file) fun _ => baseType_alike enough

/-- No expression is empty. -/
theorem assignment_consumes : Consumes (assignment fuel) :=
  .of_alike (k := .file) fun _ => assignment_alike enough trivial

theorem unary_consumes : Consumes (unary fuel) :=
  .of_alike (k := .file) fun _ => unary_alike enough trivial

theorem primary_consumes : Consumes (primary (assignment fuel) fuel) :=
  .of_alike (k := .file) fun _ => primary_alike (fun _ _ => assignment_alike enough trivial) enough
    trivial

/-- Postfix operators only add to the tokens of a primary expression. -/
theorem postfix_consumes :
    Consumes (do postfixes (assignment fuel) fuel (← primary (assignment fuel) fuel)) := by
  refine .of_alike (k := .file) (Q := fun o => (along .file o).Exp) fun o => ?_
  have hexpr (v) : (along .file o).Alike v (assignment fuel) (assignment fuel)
      ((along .file o).Beyond v (along .file o).Exp) := assignment_alike enough trivial
  refine .bind (primary_alike (fun v _ => hexpr v) enough trivial) fun v e e' _ ⟨hmoved, he⟩ => ?_
  exact (postfixes_alike (fun v _ => hexpr v) enough he).mono fun _ _ _ hle he =>
    ⟨(along .file o).moved_le hmoved hle, he⟩

theorem argument_consumes : Consumes (argument (assignment fuel)) :=
  .of_alike (k := .file) fun _ => argument_alike fun _ _ => assignment_alike enough trivial

/-- No item of a block is empty, and no statement is: the least is a semicolon. -/
theorem blockItem_consumes : Consumes (blockItem type fuel) :=
  .of_alike fun _ => blockItem_alike Layer.file_bodies enough trivial

theorem value_consumes : Consumes (value fuel) :=
  .of_alike (k := .file) fun _ => value_alike enough trivial

theorem effect_consumes : Consumes (effect fuel) :=
  .of_alike (k := .file) fun _ => effect_alike enough trivial

theorem statement_consumes : Consumes (statement type fuel) :=
  .of_alike fun _ => statement_alike Layer.file_bodies enough trivial

theorem declaration_consumes : Consumes (declaration fuel) :=
  .of_alike fun _ => declaration_alike Layer.file_bodies enough trivial

theorem parameter_consumes : Consumes (parameter fuel) :=
  .of_alike fun _ => parameter_alike Layer.file_heads enough trivial

/-- No item of a file is empty. -/
theorem item_consumes {file source : Bytes} : Consumes (item file source fuel) :=
  .of_alike fun _ => item_alike rfl enough ⟨rfl, rfl⟩

end Readers

/-! ## Trees -/

section Trees

open Making

variable {fuel : Nat} {e : Expr}

/-- **The tree of an expression is built from what is found on the way.** -/
theorem assignment_builds (h : assignment fuel s = .ok e t) : BuiltExpr k s t e := by
  obtain ⟨_, _, _, _, hb⟩ := of_ok (w := now k s)
    (assignment_alike (L := making k s True False) enough trivial) h
  exact hb trivial

/-- An expression that is used for its value is built from what is found on the way. -/
theorem value_builds (h : value fuel s = .ok e t) : BuiltExpr k s t e := by
  obtain ⟨_, _, _, _, hb, _⟩ := of_ok (w := now k s)
    (value_alike (L := making k s True False) enough trivial) h
  exact hb trivial

/-- An expression whose value is dropped is built from what is found on the way. -/
theorem effect_builds (h : effect fuel s = .ok e t) : BuiltExpr k s t e := by
  obtain ⟨_, _, _, ⟨_, hb⟩, _⟩ := of_ok (w := now k s)
    (effect_alike (L := making k s True False) enough trivial) h
  exact hb trivial

/-- All statements of a block are built from what is found on the way. -/
theorem blockItems_builds {ret : CType} {items : List Stmt} (hk : k.Bodies)
    (h : blockItems ret fuel s = .ok items t) : ∀ st ∈ items, BuiltStmt k s t st := by
  obtain ⟨_, _, _, hall⟩ := of_ok (w := now k s)
    (blockItems_alike (L := making k s True False) hk enough trivial) h
  exact fun st hst => (eq_of_forall₂ hall).2 st hst trivial

/-- The fields of a struct are of types that the limits allow. -/
theorem members_formed {struct : Bytes} {fields : List Field}
    (h : members struct fuel s = .ok fields t) :
    ∀ f ∈ fields, f.type.Formed s.env.layout.limits.arrayLength.toInt := by
  obtain ⟨_, _, _, hfields⟩ := of_ok (w := now .file s)
    (members_alike (L := making .file s True False) enough) h
  exact fun f hf => hfields f hf trivial

/-- A type is one that the limits allow. -/
theorem typeName_formed {type : CType} (h : typeName fuel s = .ok type t) :
    type.Formed s.env.layout.limits.arrayLength.toInt := by
  obtain ⟨_, _, _, _, htype⟩ := of_ok (w := now .file s)
    (typeName_alike (L := making .file s True False) enough) h
  exact htype trivial

end Trees

/-! ## Bounds -/

/-- From this state the bound is not used up. -/
def LastsAt {α : Type} (x : Read α) (s : Reading) : Prop :=
  ∀ c t, x s = .error c t → c.fault ≠ .exhausted

/-- **The bound lasts** for up to `n` tokens. -/
def Lasts {α : Type} (n : Nat) (x : Read α) : Prop :=
  ∀ s, s.Ended → s.left ≤ n → LastsAt x s

/-- Where so many levels are to spare, the bound lasts. -/
theorem Lasts.of_alike {x : Read α} {n c fuel : Nat} (hfuel : 2 * n + c < fuel)
    {Q : ∀ o, Making.Moment .file o → α → α → Prop}
    (h : ∀ o, (making .file o False True).Enough c (now .file o) fuel fuel →
      (making .file o False True).Alike (now .file o) x x (Q o)) : Lasts n x := by
  intro s hs hn c' t hx
  have henough : (making .file s False True).Enough c (now .file s) fuel fuel :=
    ⟨rfl, fun _ => ⟨hs, by dsimp only; omega⟩⟩
  exact (Making.of_error (h s henough) hx).2 trivial

section Bounds

variable {n fuel : Nat}

/-- Two levels for each token, and two to spare, last for an expression. -/
theorem assignment_lasts (h : 2 * n + 2 < fuel) : Lasts n (assignment fuel) :=
  .of_alike h fun _ henough => assignment_alike henough trivial

/-- For a statement there are three to spare. -/
theorem loneStatement_lasts (h : 2 * n + 3 < fuel) : Lasts n (loneStatement fuel) :=
  .of_alike h fun _ henough => loneStatement_alike Layer.file_bodies henough trivial

/-- For the items of a file there are five to spare. -/
theorem items_lasts {file source : Bytes} (h : 2 * n + 5 < fuel) :
    Lasts n (items file source fuel) :=
  .of_alike h fun _ henough => items_alike rfl henough ⟨rfl, rfl⟩

end Bounds

end Grammar

end DirectC
