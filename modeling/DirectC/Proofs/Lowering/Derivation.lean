/-
# Derivations of code

What the lowering of a tree does when it succeeds, as rules. `Emits c job st code st'` says that
lowering `job` from the state `st` yields `code` and leaves the state `st'`; there is one rule for
each form of a tree. `emits_iff` says that the rules and the lowering functions agree, so later
proofs go by induction on a derivation and never look into the functions again.
-/
import DirectC.Proofs.Lowering.Steps
import DirectC.Proofs.Typed

namespace DirectC

namespace Lowering

/-! ## What is lowered -/

/-- Something that is lowered. -/
inductive Job where
  | expr (want : Want) (e : Expr)
  | args (es : List Expr)
  | stmt (s : Stmt)
  | stmts (ss : List Stmt)

/-- The lowering of a job. -/
def Job.lower (c : Context) : Job → Lower Code
  | .expr want e => Lowering.lower c want e
  | .args es => lowerArguments c es
  | .stmt s => statement c s
  | .stmts ss => statements c ss

/-! ## The rules -/

/-- **Derivations.** Lowering a job from a state yields code and leaves a state. -/
inductive Emits (c : Context) : Job → State → Code → State → Prop where
  | num {value pos} {type : CType} {st} (ht : type.isArray = false) :
      Emits c (.expr .value (.num value pos type)) st [.movImm .rdi value] st
  | localAddress {name pos id type} {st : State} {offset frame}
      (hs : st.frame.slot c.layout id type = .ok (offset, frame)) :
      Emits c (.expr .address (.ident name pos (.stack id) type)) st [.leaRdi offset]
        { st with frame }
  | globalAddress {name pos type st a} (hg : c.symbols.globals.get? name = some a) :
      Emits c (.expr .address (.ident name pos .static type)) st [.movAddr .rdi a] st
  | str {want index value pos type st a} (hs : stringAt? c.symbols.strings index = some a) :
      Emits c (.expr want (.str index value pos type)) st [.movAddr .rdi a] st
  | derefAddress {pos operand type st code st'} (h : Emits c (.expr .value operand) st code st') :
      Emits c (.expr .address (.unary .deref pos operand type)) st code st'
  | array {e : Expr} {st code st'} (hp : e.isPlace) (ht : e.type.isArray)
      (h : Emits c (.expr .address e) st code st') : Emits c (.expr .value e) st code st'
  | load {e : Expr} {st code st' n w} (hp : e.isPlace) (ht : e.type.isArray = false)
      (h : Emits c (.expr .address e) st code st') (hn : c.layout.size e.type = .ok n)
      (hw : Width.ofSize? n = some w) :
      Emits c (.expr .value e) st (code ++ [.loadRdi w]) st'
  | decay {inner} {type : CType} {st code st'} (ht : type.isArray = false)
      (h : Emits c (.expr .address inner) st code st') :
      Emits c (.expr .value (.decay inner type)) st code st'
  | addr {pos operand} {type : CType} {st code st'} (ht : type.isArray = false)
      (h : Emits c (.expr .address operand) st code st') :
      Emits c (.expr .value (.unary .addr pos operand type)) st code st'
  | assign {op : BinaryOp} {pos left right} {type : CType} {st address} {st1 : State} {code} {st2 : State} {n w} (ho : op.isAssign)
      (ht : type.isArray = false) (hl : Emits c (.expr .address left) st address st1)
      (hr : Emits c (.expr .value right) st1.deeper code st2)
      (hn : c.layout.size type = .ok n) (hw : Width.ofSize? n = some w) :
      Emits c (.expr .value (.binary op pos left right type)) st
        (assignCode op type w address code) st2.shallower
  | logical {op : BinaryOp} {pos left right} {type : CType} {st l st1 r st2} (ho : op.isLogical)
      (ht : type.isArray = false) (hl : Emits c (.expr .value left) st l st1)
      (hr : Emits c (.expr .value right) st1 r st2)
      (hs : Reach c (Code.size (shortcut op)))
      (hg : Reach c (Code.size (r ++ truth) + Instr.jumpSize)) :
      Emits c (.expr .value (.binary op pos left right type)) st (logicalCode op l r) st2
  | arithmetic {op pos left right} {type : CType} {st l} {st1 : State} {r} {st2 : State} {o} (ho : operation? op = some o)
      (ht : type.isArray = false) (hl : Emits c (.expr .value left) st l st1)
      (hr : Emits c (.expr .value right) st1.deeper r st2) :
      Emits c (.expr .value (.binary op pos left right type)) st (arithmeticCode o type l r)
        st2.deeper.shallower.shallower
  | call {name pos} {args : List Expr} {type : CType} {st : State} {target code st1 result} (ht : type.isArray = false)
      (hk : args.length ≤ c.limits.registerArgs.toInt) (hk' : args.length ≤ 6)
      (hf : c.symbols.functions.get? name = some target)
      (h : Emits c (.args args) st.padded code st1) (hr : Takes c type result) :
      Emits c (.expr .value (.call name pos args type)) st
        (callCode st.depth target args.length code result) (st.afterCall st1 args.length)
  | argsNil {st} : Emits c (.args []) st [] st
  | argsCons {arg rest st later st1 code} {st2 : State} (hr : Emits c (.args rest) st later st1)
      (ha : Emits c (.expr .value arg) st1 code st2) :
      Emits c (.args (arg :: rest)) st (List.flatten [later, code, [.push .rdi]]) st2.deeper
  | eval {e st code st'} (h : Emits c (.expr .value e) st code st') :
      Emits c (.stmt (.eval e)) st code st'
  | retNone {pos st} : Emits c (.stmt (.ret none pos)) st Instr.returnZero st
  | retSome {e pos st code st'} (h : Emits c (.expr .value e) st code st') :
      Emits c (.stmt (.ret (some e) pos)) st (code ++ [.mov .rax .rdi, .leave, .ret]) st'
  | exit {e pos st code st'} (h : Emits c (.expr .value e) st code st') :
      Emits c (.stmt (.exit e pos)) st (code ++ [.movAddr .rax exitCall, .syscall]) st'
  | ifThen {cond yes st v st1 y st2} (hc : Emits c (.expr .value cond) st v st1)
      (hy : Emits c (.stmt yes) st1 y st2) (hg : Reach c (Code.size y)) :
      Emits c (.stmt (.ifThen cond yes)) st (ifThenCode v y) st2
  | ifElse {cond yes no st v st1 y st2 n st3} (hc : Emits c (.expr .value cond) st v st1)
      (hy : Emits c (.stmt yes) st1 y st2) (hn : Emits c (.stmt no) st2 n st3)
      (hs : Reach c (Code.size n)) (hg : Reach c (Code.size y + Instr.jumpSize)) :
      Emits c (.stmt (.ifElse cond yes no)) st (ifElseCode v y n) st3
  | loop {cond body st v st1 b st2} (hc : Emits c (.expr .value cond) st v st1)
      (hb : Emits c (.stmt body) st1 b st2) (hg : Reach c (Code.size b + Instr.jumpSize))
      (hk : Reach c (-loopSize v b)) :
      Emits c (.stmt (.loop cond body)) st (loopCode v b) st2
  | block {items st code st'} (h : Emits c (.stmts items) st code st') :
      Emits c (.stmt (.block items)) st code st'
  | stmtsNil {st} : Emits c (.stmts []) st [] st
  | stmtsCons {s rest st code st1 later st2} (hs : Emits c (.stmt s) st code st1)
      (hr : Emits c (.stmts rest) st1 later st2) :
      Emits c (.stmts (s :: rest)) st (code ++ later) st2

/-! ## The rules and the lowering functions -/

/-- A value is asked for if it is wanted and is no array. -/
theorem Want.of_eq_value {want : Want} {type : CType} :
    want.of type = .value ↔ want = .value ∧ type.isArray = false := by
  unfold Want.of
  cases type.isArray <;> cases want <;> simp

theorem Want.of_eq_address {want : Want} {type : CType} :
    want.of type = .address ↔ want = .address ∨ type.isArray = true := by
  unfold Want.of
  cases type.isArray <;> cases want <;> simp

variable {c : Context}

/-- A variable is lowered to its address. -/
theorem emits_variable {name : Bytes} {pos : Int} {storage : Storage} {type : CType} {st : State}
    {code : Code} {st' : State}
    (h : variableAddress c name pos storage type st = .ok (code, st')) :
    Emits c (.expr .address (.ident name pos storage type)) st code st' := by
  cases storage with
  | stack id =>
    simp only [variableAddress, get_bind, modify_bind, bind_ok, located_ok, pure_ok] at h
    obtain ⟨⟨offset, frame⟩, _, ⟨_, hs, heq⟩, h⟩ := h
    cases heq
    cases h
    exact .localAddress hs
  | static =>
    simp only [variableAddress] at h
    cases hg : c.symbols.globals.get? name with
    | none => simp [hg, fail_ok] at h
    | some a =>
      simp only [hg, pure_ok] at h
      cases h
      exact .globalAddress hg

/-- A place that is wanted at its address because it is an array is lowered like its address. -/
theorem Emits.of_address {want : Want} {e : Expr} {st : State} {code : Code} {st' : State}
    (hp : e.isPlace) (hw : want.of e.type = .address)
    (h : Emits c (.expr .address e) st code st') : Emits c (.expr want e) st code st' := by
  cases want with
  | address => exact h
  | value =>
    rcases Want.of_eq_address.mp hw with hw | hw
    · cases hw
    · exact .array hp hw h

/-- **Expressions are lowered by the rules.** -/
theorem emits_of_lower :
    (∀ want e st code st', lower c want e st = .ok (code, st') →
      Emits c (.expr want e) st code st') ∧
    (∀ es st code st', lowerArguments c es st = .ok (code, st') →
      Emits c (.args es) st code st') := by
  -- The cases stand in the order of the equations of `lower`.
  apply lower.mutual_induct
  case case1 =>
    intro want v pos type hw st code st' h
    simp only [lower, hw, pure_ok] at h
    cases h
    obtain ⟨rfl, ht⟩ := Want.of_eq_value.mp hw
    exact .num ht
  case case2 =>
    intro want name pos storage type hw st code st' h
    simp only [lower, hw, bind_ok, load_ok] at h
    obtain ⟨address, st1, ha, n, w, hn, hw', heq⟩ := h
    cases heq
    obtain ⟨rfl, ht⟩ := Want.of_eq_value.mp hw
    exact .load rfl ht (emits_variable ha) hn hw'
  case case3 =>
    intro want name pos storage type hw st code st' h
    simp only [lower, hw] at h
    exact .of_address rfl hw (emits_variable h)
  case case4 =>
    intro want index v pos type st code st' h
    simp only [lower, stringAddress_ok] at h
    obtain ⟨a, ha, heq⟩ := h
    cases heq
    exact .str ha
  case case5 =>
    intro want inner type hw ih st code st' h
    simp only [lower, hw] at h
    obtain ⟨rfl, ht⟩ := Want.of_eq_value.mp hw
    exact .decay ht (ih _ _ _ h)
  case case6 =>
    intro want pos operand type hw ih st code st' h
    simp only [lower, hw] at h
    obtain ⟨rfl, ht⟩ := Want.of_eq_value.mp hw
    exact .addr ht (ih _ _ _ h)
  case case7 =>
    intro want pos operand type hw ih st code st' h
    simp only [lower, hw, bind_ok, load_ok] at h
    obtain ⟨address, st1, ha, n, w, hn, hw', heq⟩ := h
    cases heq
    obtain ⟨rfl, ht⟩ := Want.of_eq_value.mp hw
    exact .load rfl ht (.derefAddress (ih _ _ _ ha)) hn hw'
  case case8 =>
    intro want pos operand type hw ih st code st' h
    simp only [lower, hw] at h
    exact .of_address rfl hw (.derefAddress (ih _ _ _ h))
  case case9 | case10 | case11 =>
    intro want pos left right type hw ihl ihr st code st' h
    simp only [lower, hw, assign_ok] at h
    obtain ⟨address, st1, r, st2, n, w, hl, hr, hn, hw', heq⟩ := h
    cases heq
    obtain ⟨rfl, ht⟩ := Want.of_eq_value.mp hw
    exact .assign rfl ht (ihl _ _ _ hl) (ihr _ _ _ hr) hn hw'
  case case12 | case13 =>
    intro want pos left right type hw ihl ihr st code st' h
    simp only [lower, hw, logical_ok] at h
    obtain ⟨l, st1, r, st2, hl, hr, hs, hg, heq⟩ := h
    cases heq
    obtain ⟨rfl, ht⟩ := Want.of_eq_value.mp hw
    exact .logical rfl ht (ihl _ _ _ hl) (ihr _ _ _ hr) hs hg
  case case14 =>
    intro want pos left right type op h1 h2 h3 h4 h5 hw ihl ihr st code st' h
    simp only [lower, hw, arithmetic_ok] at h
    obtain ⟨l, st1, r, st2, o, hl, hr, ho, heq⟩ := h
    cases heq
    obtain ⟨rfl, ht⟩ := Want.of_eq_value.mp hw
    exact .arithmetic ho ht (ihl _ _ _ hl) (ihr _ _ _ hr)
  case case15 =>
    intro want name pos args type hw ih st code st' h
    simp only [lower, hw, call_ok] at h
    obtain ⟨target, code, st1, result, hk, hk', hf, ha, hr, heq⟩ := h
    cases heq
    obtain ⟨rfl, ht⟩ := Want.of_eq_value.mp hw
    exact .call ht hk hk' hf (ih _ _ _ ha) hr
  case case16 =>
    intro want e h1 h2 h3 h4 h5 h6 h7 h8 hw st code st' h
    rw [lower.eq_16 c want e h1 h2 h3 h4 h5 h6 h7 h8 hw, fail_ok] at h
    exact h.elim
  case case17 =>
    intro want e h1 h2 h3 hw st code st' h
    rw [lower.eq_17 c want e h1 h2 h3 hw, fail_ok] at h
    exact h.elim
  case case18 =>
    intro st code st' h
    simp only [lowerArguments, pure_ok] at h
    cases h
    exact .argsNil
  case case19 =>
    intro arg rest ihr iha st code st' h
    simp only [lowerArguments, bind_ok, push_ok, pure_ok] at h
    obtain ⟨later, st1, hr, v, st2, ha, _, _, heq, h⟩ := h
    cases heq
    cases h
    exact .argsCons (ihr _ _ _ hr) (iha _ _ _ ha)

/-- **Statements are lowered by the rules.** -/
theorem emits_of_statement :
    (∀ s st code st', statement c s st = .ok (code, st') → Emits c (.stmt s) st code st') ∧
    (∀ ss st code st', statements c ss st = .ok (code, st') →
      Emits c (.stmts ss) st code st') := by
  -- Each case inverts the equation of its statement, and the rule of the same name applies.
  apply statement.mutual_induct
  case case1 =>
    intro e st code st' h
    simp only [statement, value] at h
    exact .eval (emits_of_lower.1 _ _ _ _ _ h)
  case case2 =>
    intro pos st code st' h
    simp only [statement, pure_ok] at h
    cases h
    exact .retNone
  case case3 =>
    intro e pos st code st' h
    simp only [statement, value, bind_ok, pure_ok] at h
    obtain ⟨v, st1, hv, heq⟩ := h
    cases heq
    exact .retSome (emits_of_lower.1 _ _ _ _ _ hv)
  case case4 =>
    intro e pos st code st' h
    simp only [statement, value, bind_ok, pure_ok] at h
    obtain ⟨v, st1, hv, heq⟩ := h
    cases heq
    exact .exit (emits_of_lower.1 _ _ _ _ _ hv)
  case case5 =>
    intro cond yes ih st code st' h
    simp only [statement, ifThen_ok] at h
    obtain ⟨v, st1, y, st2, hv, hy, hg, heq⟩ := h
    cases heq
    exact .ifThen (emits_of_lower.1 _ _ _ _ _ hv) (ih _ _ _ hy) hg
  case case6 =>
    intro cond yes no ihy ihn st code st' h
    simp only [statement, ifElse_ok] at h
    obtain ⟨v, st1, y, st2, n, st3, hv, hy, hn, hs, hg, heq⟩ := h
    cases heq
    exact .ifElse (emits_of_lower.1 _ _ _ _ _ hv) (ihy _ _ _ hy) (ihn _ _ _ hn) hs hg
  case case7 =>
    intro cond body ih st code st' h
    simp only [statement, loop_ok] at h
    obtain ⟨v, st1, b, st2, hv, hb, hg, hk, heq⟩ := h
    cases heq
    exact .loop (emits_of_lower.1 _ _ _ _ _ hv) (ih _ _ _ hb) hg hk
  case case8 =>
    intro items ih st code st' h
    simp only [statement] at h
    exact .block (ih _ _ _ h)
  case case9 =>
    intro st code st' h
    simp only [statement, fail_ok] at h
  case case10 =>
    intro st code st' h
    simp only [statements, pure_ok] at h
    cases h
    exact .stmtsNil
  case case11 =>
    intro s rest ihs ihr st code st' h
    simp only [statements, bind_ok, pure_ok] at h
    obtain ⟨v, st1, hs, later, st2, hr, heq⟩ := h
    cases heq
    exact .stmtsCons (ihs _ _ _ hs) (ihr _ _ _ hr)

/-- A value that is no array is lowered for its value. -/
theorem Want.value_of (e : Expr) (h : e.type.isArray = false) : Want.value.of e.type = .value :=
  Want.of_eq_value.mpr ⟨rfl, h⟩

theorem Want.address_of (e : Expr) : Want.address.of e.type = .address :=
  Want.of_eq_address.mpr (.inl rfl)

/-- The value of a place: the address of an array, what is at the address otherwise. -/
theorem lower_place {e : Expr} (hp : e.isPlace) :
    lower c .value e =
      if e.type.isArray then lower c .address e
      else lower c .address e >>= (load c · e.pos e.type) := by
  have ha := Want.address_of e
  cases ht : e.type.isArray with
  | true =>
    have hv : Want.value.of e.type = .address := Want.of_eq_address.mpr (.inr ht)
    cases e with
    | ident => simp only [lower, ha, hv, if_true]
    | unary op => cases op <;> simp_all [lower, Expr.isPlace]
    | _ => simp [Expr.isPlace] at hp
  | false =>
    have hv := Want.value_of e ht
    cases e with
    | ident =>
      simp only [lower, ha, hv, Bool.false_eq_true, if_false]
      rfl
    | unary op => cases op <;> simp_all [lower, Expr.isPlace, Expr.pos, Expr.type]
    | _ => simp [Expr.isPlace] at hp

/-- A derivation is what the lowering functions do. -/
theorem Emits.lower_eq {job : Job} {st : State} {code : Code} {st' : State}
    (h : Emits c job st code st') : job.lower c st = .ok (code, st') := by
  -- Every rule carries what the function asks for on its way, so each case runs one equation of it.
  induction h with
  | @num value pos type st ht =>
    have hw := Want.value_of (.num value pos type) ht
    simp only [Job.lower, lower, hw, pure_ok]
  | @localAddress name pos id type st offset frame hs =>
    have hw := Want.address_of (.ident name pos (.stack id) type)
    simp only [Job.lower, lower, hw, variableAddress, get_bind, modify_bind, bind_ok, located_ok,
      pure_ok]
    exact ⟨_, _, ⟨_, hs, rfl⟩, rfl⟩
  | @globalAddress name pos type st a hg =>
    have hw := Want.address_of (.ident name pos .static type)
    simp only [Job.lower, lower, hw, variableAddress, hg, pure_ok]
  | str hs =>
    simp only [Job.lower, lower, stringAddress_ok]
    exact ⟨_, hs, rfl⟩
  | @derefAddress pos operand type st code st' _ ih =>
    have hw := Want.address_of (.unary .deref pos operand type)
    simp only [Job.lower, lower, hw]
    exact ih
  | array hp ht _ ih =>
    rw [Job.lower, lower_place hp, if_pos ht]
    exact ih
  | load hp ht _ hn hw ih =>
    rw [Job.lower, lower_place hp, if_neg (by simp [ht])]
    simp only [bind_ok, load_ok]
    exact ⟨_, _, ih, _, _, hn, hw, rfl⟩
  | @decay inner type st code st' ht _ ih =>
    have hw := Want.value_of (.decay inner type) ht
    simp only [Job.lower, lower, hw]
    exact ih
  | @addr pos operand type st code st' ht _ ih =>
    have hw := Want.value_of (.unary .addr pos operand type) ht
    simp only [Job.lower, lower, hw]
    exact ih
  | @assign op pos left right type st address st1 code st2 n w ho ht _ _ hn hw ihl ihr =>
    have hv := Want.value_of (.binary op pos left right type) ht
    cases op <;> simp [BinaryOp.isAssign] at ho <;>
      simp only [Job.lower, lower, hv, assign_ok] <;>
      exact ⟨_, _, _, _, _, _, ihl, ihr, hn, hw, rfl⟩
  | @logical op pos left right type st l st1 r st2 ho ht _ _ hs hg ihl ihr =>
    have hv := Want.value_of (.binary op pos left right type) ht
    cases op <;> simp [BinaryOp.isLogical] at ho <;>
      simp only [Job.lower, lower, hv, logical_ok] <;>
      exact ⟨_, _, _, _, ihl, ihr, hs, hg, rfl⟩
  | @arithmetic op pos left right type st l st1 r st2 o ho ht _ _ ihl ihr =>
    have hv := Want.value_of (.binary op pos left right type) ht
    cases op <;> simp [operation?] at ho <;>
      simp only [Job.lower, lower, hv, arithmetic_ok] <;>
      exact ⟨_, _, _, _, _, ihl, ihr, by simp [operation?, ho], rfl⟩
  | @call name pos args type st target code st1 result ht hk hk' hf _ hr ih =>
    have hv := Want.value_of (.call name pos args type) ht
    simp only [Job.lower, lower, hv, call_ok]
    exact ⟨_, _, _, _, hk, hk', hf, ih, hr, rfl⟩
  | argsNil => rfl
  | argsCons _ _ ihr iha =>
    simp only [Job.lower, lowerArguments, bind_ok, push_ok, pure_ok]
    exact ⟨_, _, ihr, _, _, iha, _, _, rfl, rfl⟩
  | eval _ ih => exact ih
  | retNone => rfl
  | retSome _ ih =>
    simp only [Job.lower, statement, value, bind_ok, pure_ok]
    exact ⟨_, _, ih, rfl⟩
  | exit _ ih =>
    simp only [Job.lower, statement, value, bind_ok, pure_ok]
    exact ⟨_, _, ih, rfl⟩
  | ifThen _ _ hg ihc ihy =>
    simp only [Job.lower, statement, ifThen_ok]
    exact ⟨_, _, _, _, ihc, ihy, hg, rfl⟩
  | ifElse _ _ _ hs hg ihc ihy ihn =>
    simp only [Job.lower, statement, ifElse_ok]
    exact ⟨_, _, _, _, _, _, ihc, ihy, ihn, hs, hg, rfl⟩
  | loop _ _ hg hk ihc ihb =>
    simp only [Job.lower, statement, loop_ok]
    exact ⟨_, _, _, _, ihc, ihb, hg, hk, rfl⟩
  | block _ ih => exact ih
  | stmtsNil => rfl
  | stmtsCons _ _ ihs ihr =>
    simp only [Job.lower, statements, bind_ok, pure_ok]
    exact ⟨_, _, ihs, _, _, ihr, rfl⟩

/-- **The rules and the functions agree.** -/
theorem emits_iff {job : Job} {st : State} {code : Code} {st' : State} :
    Emits c job st code st' ↔ job.lower c st = .ok (code, st') := by
  refine ⟨Emits.lower_eq, fun h => ?_⟩
  cases job with
  | expr want e => exact emits_of_lower.1 _ _ _ _ _ h
  | args es => exact emits_of_lower.2 _ _ _ _ h
  | stmt s => exact emits_of_statement.1 _ _ _ _ h
  | stmts ss => exact emits_of_statement.2 _ _ _ _ h

/-- A job has one derivation from a state. -/
theorem Emits.unique {job : Job} {st : State} {code1 code2 : Code} {st1 st2 : State}
    (h1 : Emits c job st code1 st1) (h2 : Emits c job st code2 st2) :
    code1 = code2 ∧ st1 = st2 := by
  have h := h1.lower_eq.symm.trans h2.lower_eq
  simpa using h

end Lowering

end DirectC
