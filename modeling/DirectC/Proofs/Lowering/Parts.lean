/-
# The parts of lowered code

Lowering a job lowers the jobs of its subtrees, each from a state of its own, and puts their code
behind code that is already there. `Part` says which jobs, from which states and behind which
code; `Within` is the same over any number of levels. The code of a part stands where the relation
says (`Within.emits`).
-/
import DirectC.Proofs.Lowering.Derivation

namespace DirectC

namespace Lowering

/-- **Parts.** Lowering `job` from `st` lowers another job from another state, and puts its code
behind the given code. -/
inductive Part (c : Context) : Job → State → Code → Job → State → Prop where
  | pointer {pos operand type st} :
      Part c (.expr .address (.unary .deref pos operand type)) st [] (.expr .value operand) st
  | place {e : Expr} {st} (hp : e.isPlace) :
      Part c (.expr .value e) st [] (.expr .address e) st
  | decayed {inner type st} :
      Part c (.expr .value (.decay inner type)) st [] (.expr .address inner) st
  | addressed {pos operand type st} :
      Part c (.expr .value (.unary .addr pos operand type)) st [] (.expr .address operand) st
  | target {op : BinaryOp} {pos left right type st} (ho : op.isAssign) :
      Part c (.expr .value (.binary op pos left right type)) st [] (.expr .address left) st
  | source {op : BinaryOp} {pos left right type st address} {st1 : State} (ho : op.isAssign)
      (hl : Emits c (.expr .address left) st address st1) :
      Part c (.expr .value (.binary op pos left right type)) st (address ++ [.push .rdi])
        (.expr .value right) st1.deeper
  | left {op : BinaryOp} {pos left right type st} (ho : op.isAssign = false) :
      Part c (.expr .value (.binary op pos left right type)) st [] (.expr .value left) st
  | right {op o pos left right type st l} {st1 : State} (ho : operation? op = some o)
      (hl : Emits c (.expr .value left) st l st1) :
      Part c (.expr .value (.binary op pos left right type)) st (l ++ [.push .rdi])
        (.expr .value right) st1.deeper
  | skipped {op : BinaryOp} {pos left right type st l st1 r st2} (ho : op.isLogical)
      (hl : Emits c (.expr .value left) st l st1) (hr : Emits c (.expr .value right) st1 r st2) :
      Part c (.expr .value (.binary op pos left right type)) st
        (l ++ [.testRdi,
          .jumpIf (decides op) (.ofInt (Code.size (r ++ truth) + Instr.jumpSize))])
        (.expr .value right) st1
  | arguments {name pos args type} {st : State} :
      Part c (.expr .value (.call name pos args type)) st
        (if st.depth % 2 == 1 then [.subRsp 8] else []) (.args args) st.padded
  | later {arg rest st} : Part c (.args (arg :: rest)) st [] (.args rest) st
  | argument {arg rest st code st1} (hr : Emits c (.args rest) st code st1) :
      Part c (.args (arg :: rest)) st code (.expr .value arg) st1
  | evaluated {e st} : Part c (.stmt (.eval e)) st [] (.expr .value e) st
  | returned {e pos st} : Part c (.stmt (.ret (some e) pos)) st [] (.expr .value e) st
  | status {e pos st} : Part c (.stmt (.exit e pos)) st [] (.expr .value e) st
  | ifThenCond {cond yes st} : Part c (.stmt (.ifThen cond yes)) st [] (.expr .value cond) st
  | ifThenYes {cond yes st v st1 y st2} (hc : Emits c (.expr .value cond) st v st1)
      (hy : Emits c (.stmt yes) st1 y st2) :
      Part c (.stmt (.ifThen cond yes)) st
        (v ++ [.testRdi, .jumpIf .equal (.ofInt (Code.size y))]) (.stmt yes) st1
  | ifElseCond {cond yes no st} : Part c (.stmt (.ifElse cond yes no)) st [] (.expr .value cond) st
  | ifElseYes {cond yes no st v st1 y st2} (hc : Emits c (.expr .value cond) st v st1)
      (hy : Emits c (.stmt yes) st1 y st2) :
      Part c (.stmt (.ifElse cond yes no)) st
        (v ++ [.testRdi, .jumpIf .equal (.ofInt (Code.size y + Instr.jumpSize))])
        (.stmt yes) st1
  | ifElseNo {cond yes no st v st1 y st2 n st3} (hc : Emits c (.expr .value cond) st v st1)
      (hy : Emits c (.stmt yes) st1 y st2) (hn : Emits c (.stmt no) st2 n st3) :
      Part c (.stmt (.ifElse cond yes no)) st
        (v ++ [.testRdi, .jumpIf .equal (.ofInt (Code.size y + Instr.jumpSize))] ++ y ++
          [.jump (.ofInt (Code.size n))])
        (.stmt no) st2
  | loopCond {cond body st} : Part c (.stmt (.loop cond body)) st [] (.expr .value cond) st
  | loopBody {cond body st v st1 b st2} (hc : Emits c (.expr .value cond) st v st1)
      (hb : Emits c (.stmt body) st1 b st2) :
      Part c (.stmt (.loop cond body)) st
        (v ++ [.testRdi, .jumpIf .equal (.ofInt (Code.size b + Instr.jumpSize))]) (.stmt body) st1
  | items {items st} : Part c (.stmt (.block items)) st [] (.stmts items) st
  | head {s rest st} : Part c (.stmts (s :: rest)) st [] (.stmt s) st
  | tail {s rest st code st1} (hs : Emits c (.stmt s) st code st1) :
      Part c (.stmts (s :: rest)) st code (.stmts rest) st1

/-- Parts of parts, over any number of levels. -/
inductive Within (c : Context) (job : Job) (st : State) : Code → Job → State → Prop where
  | whole : Within c job st [] job st
  | part {pre job1 st1 pre' job2 st2} (h : Within c job st pre job1 st1)
      (hp : Part c job1 st1 pre' job2 st2) : Within c job st (pre ++ pre') job2 st2

variable {c : Context} {job job' : Job} {st st' st1 : State} {pre code : Code}

/-- The code of a part stands behind the code that the relation names. -/
theorem Part.emits (hp : Part c job st pre job' st') (h : Emits c job st code st1) :
    ∃ piece st2, Emits c job' st' piece st2 ∧ pre ++ piece <+: code := by
  -- Each part says which rule it is cut out of. What stands before it is the code of earlier parts,
  -- and a job has one code (`Emits.unique`), so any derivation of the whole has the part there.
  cases hp with
  | pointer =>
    cases h with
    | derefAddress h => exact ⟨_, _, h, by simp⟩
  | place hp =>
    cases h with
    | array _ _ h => exact ⟨_, _, h, by simp⟩
    | load _ _ h => exact ⟨_, _, h, by simp⟩
    | _ => cases hp
  | decayed =>
    cases h with
    | decay _ h => exact ⟨_, _, h, by simp⟩
    | array hp | load hp => cases hp
  | addressed =>
    cases h with
    | addr _ h => exact ⟨_, _, h, by simp⟩
    | array hp | load hp => cases hp
  | @target op pos left right type _ ho =>
    cases h with
    | assign _ _ hl => exact ⟨_, _, hl, by simp [assignCode]⟩
    | logical ho' | arithmetic ho' => cases op <;> cases ho <;> cases ho'
    | array hp | load hp => cases hp
  | @source op pos left right type _ _ _ ho hl =>
    cases h with
    | assign _ _ hl' hr =>
      obtain ⟨rfl, rfl⟩ := hl.unique hl'
      exact ⟨_, _, hr, by simp [assignCode]⟩
    | logical ho' | arithmetic ho' => cases op <;> cases ho <;> cases ho'
    | array hp | load hp => cases hp
  | @left op pos left right type _ ho =>
    cases h with
    | assign ho' => simp [ho] at ho'
    | logical _ _ hl => exact ⟨_, _, hl, by simp [logicalCode]⟩
    | arithmetic _ _ hl => exact ⟨_, _, hl, by simp [arithmeticCode]⟩
    | array hp | load hp => cases hp
  | @right op o pos left right type _ _ _ ho hl =>
    cases h with
    | arithmetic _ _ hl' hr =>
      obtain ⟨rfl, rfl⟩ := hl.unique hl'
      exact ⟨_, _, hr, by simp [arithmeticCode]⟩
    | assign ho' | logical ho' => cases op <;> cases ho <;> cases ho'
    | array hp | load hp => cases hp
  | @skipped op pos left right type _ _ _ _ _ ho hl hr =>
    cases h with
    | logical _ _ hl' hr' =>
      obtain ⟨rfl, rfl⟩ := hl.unique hl'
      obtain ⟨rfl, rfl⟩ := hr.unique hr'
      exact ⟨_, _, hr, by simp [logicalCode]⟩
    | assign ho' | arithmetic ho' => cases op <;> cases ho <;> cases ho'
    | array hp | load hp => cases hp
  | arguments =>
    cases h with
    | call _ _ _ _ h => exact ⟨_, _, h, by simp [callCode]⟩
    | array hp | load hp => cases hp
  | later =>
    cases h with
    | argsCons hr => exact ⟨_, _, hr, by simp⟩
  | argument hr =>
    cases h with
    | argsCons hr' ha =>
      obtain ⟨rfl, rfl⟩ := hr.unique hr'
      exact ⟨_, _, ha, by simp⟩
  | evaluated =>
    cases h with
    | eval h => exact ⟨_, _, h, by simp⟩
  | returned =>
    cases h with
    | retSome h => exact ⟨_, _, h, by simp⟩
  | status =>
    cases h with
    | exit h => exact ⟨_, _, h, by simp⟩
  | ifThenCond =>
    cases h with
    | ifThen hc => exact ⟨_, _, hc, by simp [ifThenCode]⟩
  | ifThenYes hc hy =>
    cases h with
    | ifThen hc' hy' =>
      obtain ⟨rfl, rfl⟩ := hc.unique hc'
      obtain ⟨rfl, rfl⟩ := hy.unique hy'
      exact ⟨_, _, hy, by simp [ifThenCode]⟩
  | ifElseCond =>
    cases h with
    | ifElse hc => exact ⟨_, _, hc, by simp [ifElseCode]⟩
  | ifElseYes hc hy =>
    cases h with
    | ifElse hc' hy' =>
      obtain ⟨rfl, rfl⟩ := hc.unique hc'
      obtain ⟨rfl, rfl⟩ := hy.unique hy'
      exact ⟨_, _, hy, by simp [ifElseCode]⟩
  | ifElseNo hc hy hn =>
    cases h with
    | ifElse hc' hy' hn' =>
      obtain ⟨rfl, rfl⟩ := hc.unique hc'
      obtain ⟨rfl, rfl⟩ := hy.unique hy'
      obtain ⟨rfl, rfl⟩ := hn.unique hn'
      exact ⟨_, _, hn, by simp [ifElseCode]⟩
  | loopCond =>
    cases h with
    | loop hc => exact ⟨_, _, hc, by simp [loopCode]⟩
  | loopBody hc hb =>
    cases h with
    | loop hc' hb' =>
      obtain ⟨rfl, rfl⟩ := hc.unique hc'
      obtain ⟨rfl, rfl⟩ := hb.unique hb'
      exact ⟨_, _, hb, by simp [loopCode]⟩
  | items =>
    cases h with
    | block h => exact ⟨_, _, h, by simp⟩
  | head =>
    cases h with
    | stmtsCons hs => exact ⟨_, _, hs, by simp⟩
  | tail hs =>
    cases h with
    | stmtsCons hs' hr =>
      obtain ⟨rfl, rfl⟩ := hs.unique hs'
      exact ⟨_, _, hr, by simp⟩

/-- The same over any number of levels. -/
theorem Within.emits (hw : Within c job st pre job' st') (h : Emits c job st code st1) :
    ∃ piece st2, Emits c job' st' piece st2 ∧ pre ++ piece <+: code := by
  induction hw with
  | whole => exact ⟨code, st1, h, by simp⟩
  | part _ hp ih =>
    obtain ⟨piece, st2, hpiece, hpre⟩ := ih
    obtain ⟨piece', st3, hpiece', hpre'⟩ := hp.emits hpiece
    refine ⟨piece', st3, hpiece', ?_⟩
    rw [List.append_assoc]
    exact ((List.prefix_append_right_inj _).mpr hpre').trans hpre

end Lowering

end DirectC
