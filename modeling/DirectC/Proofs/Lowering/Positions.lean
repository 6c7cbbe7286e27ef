/-
# Where lowering complains

Lowering complains at a position of the tree that it lowers, or at the position of the function. So
a function that was read from a text is refused at a position in that text (`function_points`).
-/
import DirectC.Proofs.Grammar.Record
import DirectC.Proofs.Lowering.Complaints

namespace DirectC

namespace Lowering

/-- A step that complains only at positions of which `ok` holds. -/
abbrev Points {α : Type} (ok : Int → Prop) (x : Lower α) : Prop :=
  Complains (fun c => ok c.pos) x

variable {ok : Int → Prop} {pool : List Bytes} {c : Context} {pos : Int}

/-! ## Places and operators -/

theorem points_located {α : Type} {r : Except Layout.Fault α} (hpos : ok pos) :
    Points ok (located pos r) :=
  .located fun _ _ => hpos

/-- A variable complains at its own position. -/
theorem points_variableAddress {name : Bytes} {storage : Storage} {type : CType} (hpos : ok pos) :
    Points ok (variableAddress c name pos storage type) := by
  cases storage with
  | stack id =>
    exact .bind .get fun _ => .bind (points_located hpos) fun _ => .bind .modify fun _ => .pure
  | static =>
    unfold variableAddress
    dsimp only
    split
    · exact .pure
    · exact .fail hpos

/-- A string complains at its own position. -/
theorem points_stringAddress {index : Int} (hpos : ok pos) :
    Points ok (stringAddress c index pos) := by
  unfold stringAddress
  split
  · exact .pure
  · exact .fail hpos

/-- A load complains at the position of what is loaded. -/
theorem points_load {address : Code} {type : CType} (hpos : ok pos) :
    Points ok (load c address pos type) := by
  refine .bind (points_located hpos) fun size => ?_
  split
  · exact .pure
  · exact .fail hpos

/-- An assignment complains at its operator, or where its sides do. -/
theorem points_assign {op : BinaryOp} {type : CType} {target value : Lower Code} (hpos : ok pos)
    (ht : Points ok target) (hv : Points ok value) :
    Points ok (assign c op pos type target value) := by
  refine .bind ht fun _ => .bind complains_push fun _ => .bind hv fun _ =>
    .bind (points_located hpos) fun size => ?_
  cases op == .assign <;> cases Width.ofSize? size
  · exact .bind (.fail hpos) fun _ => .fail hpos
  · exact .bind .pure fun _ => .bind complains_pop fun _ => .pure
  · exact .bind .pure fun _ => .fail hpos
  · exact .bind .pure fun _ => .bind complains_pop fun _ => .pure

/-- Arithmetic complains at its operator, or where its operands do. -/
theorem points_arithmetic {op : BinaryOp} {type : CType} {left right : Lower Code} (hpos : ok pos)
    (hl : Points ok left) (hr : Points ok right) :
    Points ok (arithmetic op pos type left right) := by
  refine .bind hl fun _ => .bind complains_push fun _ => .bind hr fun _ =>
    .bind complains_push fun _ => ?_
  split
  · exact .fail hpos
  · exact .bind complains_pop fun _ => .bind complains_pop fun _ => .pure

/-! ## Expressions -/

/-- **Anchored expressions** are refused at a position of their own, whatever they are asked for. -/
theorem points_lower :
    (∀ want e, e.Anchored ok pool → Points ok (lower c want e)) ∧
      ∀ es, (∀ e ∈ es, e.Anchored ok pool) → Points ok (lowerArguments c es) := by
  -- The cases stand in the order of the equations of `lower`.
  apply lower.mutual_induct
  case case1 =>
    intro want value pos type hw h
    simp only [lower, hw]
    exact .pure
  case case2 =>
    intro want name pos storage type hw h
    simp only [lower, hw]
    exact .bind (points_variableAddress h.pos) fun _ => points_load h.pos
  case case3 =>
    intro want name pos storage type hw h
    simp only [lower, hw]
    exact points_variableAddress h.pos
  case case4 =>
    intro want index value pos type h
    simp only [lower]
    exact points_stringAddress h.pos
  case case5 =>
    intro want inner type hw ih h
    cases h with
    | decay h =>
      simp only [lower, hw]
      exact ih h
  case case6 | case8 =>
    intro want pos operand type hw ih h
    cases h with
    | unary _ h =>
      simp only [lower, hw]
      exact ih h
  case case7 =>
    intro want pos operand type hw ih h
    cases h with
    | unary hpos h =>
      simp only [lower, hw]
      exact .bind (ih h) fun _ => points_load hpos
  case case9 | case10 | case11 =>
    intro want pos left right type hw ihl ihr h
    cases h with
    | binary hpos hl hr =>
      simp only [lower, hw]
      exact points_assign hpos (ihl hl) (ihr hr)
  case case12 | case13 =>
    intro want pos left right type hw ihl ihr h
    cases h with
    | binary hpos hl hr =>
      simp only [lower, hw]
      exact complains_logical (fun _ _ => hpos) (ihl hl) (ihr hr)
  case case14 =>
    intro want pos left right type op h1 h2 h3 h4 h5 hw ihl ihr h
    cases h with
    | binary hpos hl hr =>
      simp only [lower, hw]
      exact points_arithmetic hpos (ihl hl) (ihr hr)
  case case15 =>
    intro want name pos args type hw ih h
    cases h with
    | call hpos hargs =>
      simp only [lower, hw]
      exact complains_call (fun _ => hpos) hpos (points_located hpos) (ih hargs)
  case case16 =>
    intro want e h1 h2 h3 h4 h5 h6 h7 h8 hw h
    rw [lower.eq_16 c want e h1 h2 h3 h4 h5 h6 h7 h8 hw]
    exact .fail h.pos
  case case17 =>
    intro want e h1 h2 h3 hw h
    rw [lower.eq_17 c want e h1 h2 h3 hw]
    exact .fail h.pos
  case case18 =>
    intro h
    simp only [lowerArguments]
    exact .pure
  case case19 =>
    intro arg rest ihr iha h
    simp only [lowerArguments]
    exact .bind (ihr fun e he => h e (List.mem_cons_of_mem _ he)) fun _ =>
      .bind (iha (h arg List.mem_cons_self)) fun _ => .bind complains_push fun _ => .pure

theorem points_value {e : Expr} (h : e.Anchored ok pool) : Points ok (value c e) :=
  points_lower.1 .value e h

theorem points_condition {e : Expr} (h : e.Anchored ok pool) : Points ok (condition c e) :=
  complains_condition (points_value h)

/-! ## Statements and functions -/

/-- **A statement of an anchored tree complains at an allowed position.** -/
theorem points_statement {s : Stmt} (h : s.Anchored ok pool) : Points ok (statement c s) := by
  induction h with
  | eval he =>
    rw [statement]
    exact points_value he
  | exit he | retSome he =>
    rw [statement]
    exact .bind (points_value he) fun _ => .pure
  | retNone =>
    rw [statement]
    exact .pure
  | ifThen hcond _ ih =>
    rw [statement]
    exact complains_ifThen (fun _ _ => hcond.pos) (points_condition hcond) ih
  | ifElse hcond _ _ ihy ihn =>
    rw [statement]
    exact complains_ifElse (fun _ _ => hcond.pos) (points_condition hcond) ihy ihn
  | loop hcond _ ih =>
    rw [statement]
    exact complains_loop (fun _ _ => hcond.pos) (points_condition hcond) ih
  | block _ ih =>
    rw [statement]
    exact complains_statements ih

/-- Parameters complain at the position of their function. -/
theorem points_storeParams (hpos : ok c.pos) (ps : List (Param × Register)) :
    Points ok (storeParams c ps) := by
  induction ps with
  | nil => exact .pure
  | cons p ps ih =>
    refine .bind .get fun _ => .bind (points_located hpos) fun _ => .bind .modify fun _ =>
      .bind (points_located hpos) fun size => ?_
    split
    · exact .fail hpos
    · exact .bind ih fun _ => .pure

/-- **A function read from a text** is refused at a position in the text. -/
theorem function_points {file source : Bytes} {f : Function} {layout : Layout} {limits : Limits}
    {symbols : Symbols} {d : Diagnostic} (hf : f.Anchored ok file source pool)
    (h : function f layout limits symbols = .error d) :
    d.file = file ∧ d.source = source ∧ ok d.pos := by
  obtain ⟨items, hitems, hs⟩ := hf.body
  have hstatements : Points ok
      (statements ⟨layout, limits, symbols, f.pos⟩ (f.body.getD [])) := by
    rw [hitems]
    exact complains_statements fun s hm => points_statement (hs s hm)
  obtain ⟨complaint, hpos, rfl⟩ := function_complaint h
    (complains_body (fun _ _ => hf.pos) (points_storeParams hf.pos _) hstatements)
  exact ⟨hf.file, hf.source, hpos⟩

end Lowering

end DirectC
