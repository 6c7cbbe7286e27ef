/-
# Why lowering refuses a typed tree

A tree that obeys the typing rules is refused only because a limit does not suffice or a name has
no definition; every other cause of failure would mean that a check was forgotten when the tree
was built. The proof follows the typing rules, one lemma for each function that puts code
together.
-/
import DirectC.Proofs.Environment
import DirectC.Proofs.Lowering.Complaints
import DirectC.Proofs.Lowering.Derivation

namespace DirectC

/-- The kinds of error that are left once a program has been read: a limit that does not suffice,
or a name without a definition. -/
def Diagnostic.Kind.IsLate (k : Diagnostic.Kind) : Prop :=
  k = .capacity ∨ k = .naming

/-! ## Layouts -/

namespace Layout

variable {B : Int} {l : Layout} {t : CType} {fault : Fault}

/-- A formed type lacks a size because it is too large or a struct is not defined. -/
theorem size_fault (ht : t.Formed B) (h : l.size t = .error fault) : fault.kind.IsLate := by
  rcases size_error ht h with ⟨_, _, _, rfl⟩ | ⟨_, rfl⟩
  · exact .inl rfl
  · exact .inr rfl

/-- A formed type without an alignment is refused late. -/
theorem alignment_fault (ht : t.Formed B) (h : l.alignment t = .error fault) :
    fault.kind.IsLate := by
  obtain ⟨_, rfl⟩ := alignment_error ht h
  exact .inr rfl

/-- A value that fits in a register can be loaded and stored. -/
theorem width_of_scalar {n : Int64} (ht : t.isScalar) (h : l.size t = .ok n) :
    ∃ w, Width.ofSize? n = some w := by
  cases t with
  | int | char | pointer =>
    obtain ⟨_, rfl⟩ := bounded_ok.mp h
    exact ⟨_, rfl⟩
  | _ => cases ht

end Layout

/-- A slot for a formed type is refused late, if at all. -/
theorem Frame.slot_fault {B : Int} {f : Frame} {l : Layout} {id : Int} {t : CType}
    {fault : Layout.Fault} (ht : t.Formed B) (h : f.slot l id t = .error fault) :
    fault.kind.IsLate := by
  rw [slot, assign_eq] at h
  cases ho : f.offset? id with
  | some offset =>
    rw [ho] at h
    cases h
  | none =>
    cases hs : l.size t with
    | error fault' =>
      rw [ho, hs] at h
      cases h
      exact Layout.size_fault ht hs
    | ok n =>
      cases ha : l.alignment t with
      | error fault' =>
        rw [ho, hs, ha] at h
        cases h
        exact Layout.alignment_fault ht ha
      | ok a =>
        rw [ho, hs, ha] at h
        cases h

namespace Lowering

/-- **What is refused.** A step of lowering that fails only for a late cause. -/
abbrev Refuses {α : Type} (x : Lower α) : Prop :=
  Complains (fun c => c.fault.kind.IsLate) x

/-! ## Places and operators -/

variable {B : Int} {n : Nat} {c : Context}

theorem isLate_jump {pos : Int} (distance : Nat) (limit : Int) :
    (Complaint.mk (.jump distance limit) pos).fault.kind.IsLate :=
  .inl rfl

/-- A variable of a formed type has an address, or its slot is refused. -/
theorem refuses_variableAddress {name : Bytes} {pos : Int} {storage : Storage} {type : CType}
    (ht : type.Formed B) : Refuses (variableAddress c name pos storage type) := by
  cases storage with
  | stack id =>
    exact .bind .get fun _ => .bind (.located fun _ h => Frame.slot_fault ht h)
      fun _ => .bind .modify fun _ => .pure
  | static =>
    unfold variableAddress
    dsimp only
    split
    · exact .pure
    · exact .fail (.inr rfl)

/-- A string that is in the pool has an address. -/
theorem refuses_stringAddress {index : Int} {pos : Int} (h0 : 0 ≤ index) (hn : index < n)
    (hc : n ≤ c.symbols.strings.length) : Refuses (stringAddress c index pos) := by
  unfold stringAddress stringAt?
  rw [if_neg (by omega)]
  have hlt : index.toNat < c.symbols.strings.length := by omega
  rw [List.getElem?_eq_getElem hlt]
  exact .pure

/-- A scalar can be loaded. -/
theorem refuses_load {address : Code} {pos : Int} {type : CType} (hf : type.Formed B)
    (ht : type.isScalar) : Refuses (load c address pos type) := by
  refine .follow (.located fun _ h => Layout.size_fault hf h) fun size _ _ h => ?_
  obtain ⟨_, hsize, heq⟩ := located_ok.mp h
  cases heq
  obtain ⟨w, hw⟩ := Layout.width_of_scalar ht hsize
  rw [hw]
  exact .pure

/-- A scalar can be assigned. -/
theorem refuses_assign {op : BinaryOp} {pos : Int} {type : CType} {target value : Lower Code}
    (hf : type.Formed B) (ht : type.isScalar) (htarget : Refuses target) (hvalue : Refuses value) :
    Refuses (assign c op pos type target value) := by
  refine .bind htarget fun _ => .bind complains_push fun _ => .bind hvalue fun _ =>
    .follow (.located fun _ h => Layout.size_fault hf h) fun size _ _ h => ?_
  obtain ⟨_, hsize, heq⟩ := located_ok.mp h
  cases heq
  obtain ⟨w, hw⟩ := Layout.width_of_scalar ht hsize
  cases hop : op == .assign <;> simp only [hw]
  · exact .bind .pure fun _ => .bind complains_pop fun _ => .pure
  · exact .bind .pure fun _ => .bind complains_pop fun _ => .pure

/-- Arithmetic refuses what its operands refuse. -/
theorem refuses_arithmetic {op : BinaryOp} {o : Operation} {pos : Int} {type : CType}
    {left right : Lower Code} (ho : operation? op = some o) (hl : Refuses left)
    (hr : Refuses right) : Refuses (arithmetic op pos type left right) := by
  refine .bind hl fun _ => .bind complains_push fun _ => .bind hr fun _ =>
    .bind complains_push fun _ => ?_
  rw [ho]
  exact .bind complains_pop fun _ => .bind complains_pop fun _ => .pure

/-- A call is refused for its arguments, for its function or for what it returns. -/
theorem refuses_call {name : Bytes} {pos : Int} {count : Nat} {type : CType}
    {arguments : Lower Code} (hf : type.Formed B) (ha : Refuses arguments) :
    Refuses (call c name pos count type arguments) :=
  complains_call (fun _ => .inl rfl) (.inr rfl) (.located fun _ h => Layout.size_fault hf h) ha

/-! ## Expressions -/

/-- The value of a place that fits in a register. -/
theorem refuses_place {e : Expr} (hp : e.isPlace) (hf : e.type.Formed B) (ht : e.type.isScalar)
    (ha : Refuses (lower c .address e)) : Refuses (lower c .value e) := by
  have harr : e.type.isArray = false := by
    cases htype : e.type <;> simp_all [CType.isScalar, CType.isInteger, CType.isPointer,
      CType.isArray]
  rw [lower_place hp, harr]
  exact .bind ha fun _ => refuses_load hf ht

/-- An expression that can be asked for its value. -/
def Usable (e : Expr) : Prop :=
  e.type.isVoid ∨ e.type.isScalar

/-- An expression that can be asked for its address. -/
def Addressable (e : Expr) : Prop :=
  e.isPlace ∨ ∃ index value pos type, e = .str index value pos type

/-- Arrays are not usable as values. -/
theorem Usable.not_array {e : Expr} (h : Usable e) : e.type.isArray = false := by
  unfold Usable at h
  cases htype : e.type <;> simp_all [CType.isScalar, CType.isInteger, CType.isPointer,
    CType.isArray, CType.isVoid]

theorem usable_of_integer {e : Expr} (h : e.type.isInteger) : Usable e :=
  .inr (CType.isScalar_of_isInteger h)

theorem usable_of_pointer {e : Expr} (h : e.type.isPointer) : Usable e :=
  .inr (CType.isScalar_of_isPointer h)

/-- Every arithmetic operator, and every comparison, has code. -/
theorem operation_of_isArithmetic {op : BinaryOp} (h : op.isArithmetic ∨ op.isComparison) :
    ∃ o, operation? op = some o := by
  cases op <;> simp [BinaryOp.isArithmetic, BinaryOp.isComparison] at h <;> exact ⟨_, rfl⟩

/-- An operator that is neither an assignment nor a short-circuit operator. -/
theorem refuses_binary {op : BinaryOp} {pos : Int} {left right : Expr} {type : CType}
    (ht : type.isArray = false) (ho : op.isArithmetic ∨ op.isComparison)
    (hl : Refuses (lower c .value left)) (hr : Refuses (lower c .value right)) :
    Refuses (lower c .value (.binary op pos left right type)) := by
  have hw := Want.value_of (.binary op pos left right type) ht
  obtain ⟨o, hop⟩ := operation_of_isArithmetic ho
  have hop' : Refuses (arithmetic op pos type (lower c .value left) (lower c .value right)) :=
    refuses_arithmetic hop hl hr
  cases op <;> simp [BinaryOp.isArithmetic, BinaryOp.isComparison] at ho <;>
    simpa only [lower, hw] using hop'

/-- **Typed expressions** are refused for late causes only, whatever they can be asked for. -/
theorem refuses_lower {e : Expr} (h : Typed B n e) (hc : n ≤ c.symbols.strings.length) :
    (Usable e → Refuses (lower c .value e)) ∧ (Addressable e → Refuses (lower c .address e)) := by
  -- Value and address go together: the value of a place is a load behind its address, and the
  -- address of an indirection is the value of its pointer.
  induction h with
  | @num value pos =>
    have hw := Want.value_of (.num value pos .int) rfl
    refine ⟨fun _ => ?_, fun h => absurd h (by simp [Addressable, Expr.isPlace])⟩
    simp only [lower, hw]
    exact .pure
  | @ident name pos storage type hf hv =>
    have hw := Want.address_of (.ident name pos storage type)
    have ha : Refuses (lower c .address (.ident name pos storage type)) := by
      simp only [lower, hw]
      exact refuses_variableAddress hf
    refine ⟨fun hu => refuses_place rfl hf ?_ ha, fun _ => ha⟩
    simpa [Usable, Expr.type, hv] using hu
  | str h0 hn hf =>
    refine ⟨fun hu => absurd hu.not_array (by simp [Expr.type, CType.isArray]), fun _ => ?_⟩
    simp only [lower]
    exact refuses_stringAddress h0 hn hc
  | @decay inner elem length h ht ih =>
    have hw := Want.value_of (.decay inner (.pointer elem)) rfl
    refine ⟨fun _ => ?_, fun h => absurd h (by simp [Addressable, Expr.isPlace])⟩
    simp only [lower, hw]
    exact ih.2 (h.isPlace (by rw [ht]; rfl) (by rw [ht]; rfl))
  | @deref pos operand elem h ht hv ih =>
    have hw := Want.address_of (.unary .deref pos operand elem)
    have ha : Refuses (lower c .address (.unary .deref pos operand elem)) := by
      simp only [lower, hw]
      exact ih.1 (usable_of_pointer (by rw [ht]; rfl))
    have hf : elem.Formed B := by
      have := h.formed
      rwa [ht] at this
    refine ⟨fun hu => refuses_place rfl hf ?_ ha, fun _ => ha⟩
    simpa [Usable, Expr.type, hv] using hu
  | @addr pos operand h hp ih =>
    have hw := Want.value_of (.unary .addr pos operand (.pointer operand.type)) rfl
    refine ⟨fun _ => ?_, fun h => absurd h (by simp [Addressable, Expr.isPlace])⟩
    simp only [lower, hw]
    exact ih.2 (.inl hp)
  | integers ho _ _ tl tr ihl ihr =>
    refine ⟨fun _ => ?_, fun h => absurd h (by simp [Addressable, Expr.isPlace])⟩
    exact refuses_binary rfl (.inl ho) (ihl.1 (usable_of_integer tl)) (ihr.1 (usable_of_integer tr))
  | @offset op _ _ _ _ ho _ _ tl tr _ ihl ihr =>
    refine ⟨fun _ => ?_, fun h => absurd h (by simp [Addressable, Expr.isPlace])⟩
    have ho' : op.isArithmetic := by cases op <;> cases ho <;> rfl
    exact refuses_binary rfl (.inl ho') (ihl.1 (usable_of_pointer tl))
      (ihr.1 (usable_of_integer tr))
  | difference _ _ tl tr ihl ihr =>
    refine ⟨fun _ => ?_, fun h => absurd h (by simp [Addressable, Expr.isPlace])⟩
    exact refuses_binary rfl (.inl rfl) (ihl.1 (usable_of_pointer tl))
      (ihr.1 (usable_of_pointer tr))
  | comparison ho _ _ tl tr ihl ihr =>
    refine ⟨fun _ => ?_, fun h => absurd h (by simp [Addressable, Expr.isPlace])⟩
    exact refuses_binary rfl (.inr ho) (ihl.1 (.inr tl)) (ihr.1 (.inr tr))
  | @logical op pos left right ho _ _ tl tr ihl ihr =>
    refine ⟨fun _ => ?_, fun h => absurd h (by simp [Addressable, Expr.isPlace])⟩
    have hw := Want.value_of (.binary op pos left right .int) rfl
    have hop : ∀ op, Refuses (logical c op pos (lower c .value left) (lower c .value right)) :=
      fun _ => complains_logical isLate_jump (ihl.1 (.inr tl)) (ihr.1 (.inr tr))
    cases op <;> simp [BinaryOp.isLogical] at ho <;> simpa only [lower, hw] using hop _
  | @assign op pos left right ho hl _ hp tl tr ihl ihr =>
    refine ⟨fun hu => ?_, fun h => absurd h (by simp [Addressable, Expr.isPlace])⟩
    have hw := Want.value_of (.binary op pos left right left.type) hu.not_array
    have hop : ∀ op, Refuses
        (assign c op pos left.type (lower c .address left) (lower c .value right)) :=
      fun _ => refuses_assign hl.formed tl (ihl.2 (.inl hp)) (ihr.1 (.inr tr))
    cases op <;> simp [BinaryOp.isAssign] at ho <;> simpa only [lower, hw] using hop _
  | @call name pos args type _ hs ht hf ih =>
    refine ⟨fun hu => ?_, fun h => absurd h (by simp [Addressable, Expr.isPlace])⟩
    have hw := Want.value_of (.call name pos args type) hu.not_array
    simp only [lower, hw]
    exact refuses_call hf (complains_lowerArguments fun a ha => (ih a ha).1 (.inr (hs a ha)))

/-! ## Statements -/

/-- The value of a typed and usable expression is refused late, if at all. -/
theorem refuses_value {e : Expr} (h : Typed B n e) (hu : Usable e)
    (hc : n ≤ c.symbols.strings.length) : Refuses (value c e) :=
  (refuses_lower h hc).1 hu

/-- A typed condition is refused late, if at all. -/
theorem refuses_condition {e : Expr} (h : Typed B n e) (ht : e.type.isScalar)
    (hc : n ≤ c.symbols.strings.length) : Refuses (condition c e) :=
  complains_condition (refuses_value h (.inr ht) hc)

/-- **Typed statements** are refused for late causes only. -/
theorem refuses_statement {s : Stmt} (h : TypedStmt B n s) (hc : n ≤ c.symbols.strings.length) :
    Refuses (statement c s) := by
  induction h with
  | eval h ht =>
    rw [statement]
    exact refuses_value h ht hc
  | exit h ht =>
    rw [statement]
    exact .bind (refuses_value h (usable_of_integer ht) hc) fun _ => .pure
  | retNone =>
    rw [statement]
    exact .pure
  | retSome h ht =>
    rw [statement]
    exact .bind (refuses_value h (.inr ht) hc) fun _ => .pure
  | ifThen h ht _ ih =>
    rw [statement]
    exact complains_ifThen isLate_jump (refuses_condition h ht hc) ih
  | ifElse h ht _ _ ihy ihn =>
    rw [statement]
    exact complains_ifElse isLate_jump (refuses_condition h ht hc) ihy ihn
  | loop h ht _ ih =>
    rw [statement]
    exact complains_loop isLate_jump (refuses_condition h ht hc) ih
  | block _ ih =>
    rw [statement]
    exact complains_statements ih

/-! ## Functions -/

/-- Parameters of scalar types are refused late, if at all. -/
theorem refuses_storeParams {ps : List (Param × Register)}
    (h : ∀ p ∈ ps, p.1.type.isScalar ∧ p.1.type.Formed B) : Refuses (storeParams c ps) := by
  induction ps with
  | nil => exact .pure
  | cons p ps ih =>
    obtain ⟨ht, hf⟩ := h p (by simp)
    have ih := ih fun q hq => h q (by simp [hq])
    refine .bind .get fun _ => .bind (.located fun _ h => Frame.slot_fault hf h) fun _ =>
      .bind .modify fun _ => .follow (.located fun _ h => Layout.size_fault hf h)
        fun size _ _ h => ?_
    obtain ⟨_, hsize, heq⟩ := located_ok.mp h
    cases heq
    obtain ⟨w, hw⟩ := Layout.width_of_scalar ht hsize
    rw [hw]
    exact .bind ih fun _ => .pure

/-- **The body of a formed function is refused late, if at all.** -/
theorem refuses_body {f : Function} (hf : f.Formed B n) (hc : n ≤ c.symbols.strings.length) :
    Refuses (body c f) := by
  have hparams : ∀ p ∈ f.params.zip Register.arguments, p.1.type.isScalar ∧ p.1.type.Formed B :=
    fun p hp => hf.params p.1 (List.of_mem_zip hp).1
  obtain ⟨items, hitems, ht⟩ := hf.body
  have hstmts : Refuses (statements c (f.body.getD [])) := by
    rw [hitems]
    exact complains_statements fun s hs => refuses_statement (ht s hs) hc
  exact complains_body (fun _ _ => .inl rfl) (refuses_storeParams hparams) hstmts

/-- A formed function has no code because a limit does not suffice or a name is not defined. -/
theorem function_refusal {f : Function} {layout : Layout} {limits : Limits} {symbols : Symbols}
    {d : Diagnostic} (hf : f.Formed B n) (hs : n ≤ symbols.strings.length)
    (h : function f layout limits symbols = .error d) : d.kind.IsLate := by
  obtain ⟨complaint, hlate, rfl⟩ := function_complaint h (refuses_body hf hs)
  exact hlate

end Lowering

end DirectC
