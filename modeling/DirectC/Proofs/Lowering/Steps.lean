/-
# Steps of lowering that succeed

For each function that puts code together, when it succeeds and with what. The code of every
composite form gets a name (`assignCode`, `logicalCode`, `callCode`, `loopCode` and so on) as a
function of the code of its parts, so that what is proved of the code does not mention the steps
that made it.
-/
import DirectC.Lowering.Statement
import DirectC.Proofs.Machine.Flow

namespace DirectC

namespace Lowering

/-! ## Sequences and choices -/

section Steps

variable {α β : Type}

/-- A sequence succeeds if both of its steps do. -/
theorem bind_ok {x : Lower α} {f : α → Lower β} {st : State} {r : β × State} :
    (x >>= f) st = .ok r ↔ ∃ a st1, x st = .ok (a, st1) ∧ f a st1 = .ok r := by
  show StateT.bind x f st = _ ↔ _
  unfold StateT.bind
  cases x st with
  | error c => simp [bind, Except.bind]
  | ok p =>
    obtain ⟨a, st1⟩ := p
    simp [bind, Except.bind, and_assoc]

/-- Behind a step that succeeds, the next one goes on. -/
theorem bind_of_ok {x : Lower α} {f : α → Lower β} {a : α} {st st' : State}
    (h : x st = .ok (a, st')) : (x >>= f) st = f a st' := by
  change StateT.bind x f st = _
  unfold StateT.bind
  rw [h]
  rfl

/-- Nothing follows a step that fails. -/
theorem bind_of_error {x : Lower α} {f : α → Lower β} {c : Complaint} {st : State}
    (h : x st = .error c) : (x >>= f) st = .error c := by
  change StateT.bind x f st = _
  unfold StateT.bind
  rw [h]
  rfl

/-- A step that does nothing succeeds. -/
theorem pure_ok {a : α} {st : State} {r : α × State} :
    (pure a : Lower α) st = .ok r ↔ (a, st) = r := by
  show Except.ok (a, st) = _ ↔ _
  simp

/-- A complaint is no success. -/
theorem fail_ok {fault : Fault} {pos : Int} {st : State} {r : α × State} :
    (fail fault pos : Lower α) st = .ok r ↔ False := by
  show Except.error _ = _ ↔ _
  simp

/-- A question to the layout leaves the state alone. -/
theorem located_ok {pos : Int} {x : Except Layout.Fault α} {st : State} {r : α × State} :
    located pos x st = .ok r ↔ ∃ a, x = .ok a ∧ (a, st) = r := by
  cases x with
  | error fault => simp [located, fail_ok]
  | ok a => simp [located, pure_ok]

theorem get_bind {f : State → Lower β} {st : State} :
    ((get : Lower State) >>= f) st = f st st :=
  rfl

theorem modify_bind {g : State → State} {f : PUnit → Lower β} {st : State} :
    ((modify g : Lower PUnit) >>= f) st = f ⟨⟩ (g st) :=
  rfl

theorem ite_apply {p : Prop} [Decidable p] {x y : Lower α} {st : State} :
    (if p then x else y) st = if p then x st else y st := by
  split <;> rfl

end Steps

/-- The state with one more word pushed. -/
def State.deeper (st : State) : State :=
  { st with depth := st.depth + 1 }

/-- The state with one word popped. -/
def State.shallower (st : State) : State :=
  { st with depth := st.depth - 1 }

@[simp] theorem State.deeper_depth (st : State) : st.deeper.depth = st.depth + 1 := rfl

@[simp] theorem State.shallower_depth (st : State) : st.shallower.depth = st.depth - 1 := rfl

@[simp] theorem State.deeper_frame (st : State) : st.deeper.frame = st.frame := rfl

@[simp] theorem State.shallower_frame (st : State) : st.shallower.frame = st.frame := rfl

/-- A push is one instruction, and the stack is deeper behind it. -/
theorem push_ok {st : State} {r : Code × State} :
    push st = .ok r ↔ ([.push .rdi], st.deeper) = r := by
  simp only [push, modify_bind, pure_ok, State.deeper]

/-- A pop undoes a push. -/
theorem pop_ok {reg : Register} {st : State} {r : Code × State} :
    pop reg st = .ok r ↔ ([.pop reg], st.shallower) = r := by
  simp only [pop, modify_bind, pure_ok, State.shallower]

/-! ## Places and operators that succeed -/

/-- A distance within the branch limit. -/
def Reach (c : Context) (disp : Int) : Prop :=
  disp ≤ min c.limits.branch.toInt 127 ∧ -min c.limits.branch.toInt 127 ≤ disp

/-- A distance is taken as it is if it is within reach. -/
theorem distance_ok {c : Context} {disp pos : Int} {st : State} {r : Int8 × State} :
    distance c disp pos st = .ok r ↔ Reach c disp ∧ (.ofInt disp, st) = r := by
  unfold distance Reach
  simp only [ite_apply]
  split <;> rename_i h <;> simp only [Bool.or_eq_true, decide_eq_true_eq] at h
  · simp only [fail_ok, false_iff]
    omega
  · simp only [pure_ok, iff_and_self]
    omega

/-- A distance within the limit fits into its byte. -/
theorem Reach.toInt {c : Context} {disp : Int} (h : Reach c disp) :
    (Int8.ofInt disp).toInt = disp := by
  unfold Reach at h
  exact Int8.toInt_ofInt_of_le (by omega) (by omega)

/-- A jump has code if its target is within reach. -/
theorem jump_ok {c : Context} {disp pos : Int} {st : State} {r : Code × State} :
    jump c disp pos st = .ok r ↔ Reach c disp ∧ ([.jump (.ofInt disp)], st) = r := by
  simp only [jump, bind_ok, distance_ok, pure_ok]
  simp [and_assoc]

/-- A jump on a condition has code if its target is within reach. -/
theorem jumpIf_ok {c : Context} {cond : Condition} {disp pos : Int} {st : State}
    {r : Code × State} :
    jumpIf c cond disp pos st = .ok r ↔
      Reach c disp ∧ ([.jumpIf cond (.ofInt disp)], st) = r := by
  simp only [jumpIf, bind_ok, distance_ok, pure_ok]
  simp [and_assoc]

/-- A string has an address if it is in the pool. -/
theorem stringAddress_ok {c : Context} {index pos : Int} {st : State} {r : Code × State} :
    stringAddress c index pos st = .ok r ↔
      ∃ a, stringAt? c.symbols.strings index = some a ∧ ([.movAddr .rdi a], st) = r := by
  unfold stringAddress
  cases stringAt? c.symbols.strings index <;> simp [fail_ok, pure_ok]

/-- A value can be loaded if its type has the size of a register or a part of one. -/
theorem load_ok {c : Context} {address : Code} {pos : Int} {type : CType} {st : State}
    {r : Code × State} :
    load c address pos type st = .ok r ↔
      ∃ n w, c.layout.size type = .ok n ∧ Width.ofSize? n = some w ∧
        (address ++ [.loadRdi w], st) = r := by
  simp only [load, bind_ok, located_ok]
  constructor
  · rintro ⟨n, _, ⟨_, hn, heq⟩, h⟩
    cases heq
    cases hw : Width.ofSize? n with
    | none => simp [hw, fail_ok] at h
    | some w =>
      simp only [hw, pure_ok] at h
      exact ⟨n, w, hn, hw, h⟩
  · rintro ⟨n, w, hn, hw, h⟩
    exact ⟨n, st, ⟨n, hn, rfl⟩, by simpa only [hw, pure_ok] using h⟩

/-! ## The code of composite expressions -/

/-- The code of an assignment, from the code of its target's address and of its right side. -/
def assignCode (op : BinaryOp) (type : CType) (w : Width) (address right : Code) : Code :=
  List.flatten [address, [.push .rdi], right, if op == .assign then [] else update op w,
    [.pop .rax], [.storeRdi w], cutTo type]

/-- An assignment: the address of the place is kept on the stack while the value is computed. -/
theorem assign_ok {c : Context} {op : BinaryOp} {pos : Int} {type : CType}
    {target value : Lower Code} {st : State} {r : Code × State} :
    assign c op pos type target value st = .ok r ↔
      ∃ address st1 right st2 n w, target st = .ok (address, st1) ∧
        value st1.deeper = .ok (right, st2) ∧ c.layout.size type = .ok n ∧
        Width.ofSize? n = some w ∧
        (assignCode op type w address right, st2.shallower) = r := by
  simp only [assign, bind_ok, push_ok, located_ok]
  constructor
  · rintro ⟨address, st1, ht, _, _, hp, right, st2, hv, n, _, ⟨_, hn, heq⟩, h⟩
    cases hp
    cases heq
    cases hw : Width.ofSize? n with
    | none => cases hop : op == .assign <;> simp [hop, hw, bind_ok, fail_ok] at h
    | some w =>
      refine ⟨address, st1, right, st2, n, w, ht, hv, hn, hw, ?_⟩
      cases hop : op == .assign <;> simp only [hop, hw, bind_ok, pop_ok, pure_ok] at h <;>
        obtain ⟨_, _, heq, _, _, heq', h⟩ := h <;> cases heq <;> cases heq' <;>
        simpa [assignCode, hop] using h
  · rintro ⟨address, st1, right, st2, n, w, ht, hv, hn, hw, h⟩
    refine ⟨address, st1, ht, _, _, rfl, right, st2, hv, n, st2, ⟨n, hn, rfl⟩, ?_⟩
    cases hop : op == .assign <;> simp only [hw, bind_ok, pop_ok, pure_ok]
    all_goals exact ⟨_, _, rfl, _, _, rfl, by rw [← h]; simp [assignCode, hop]⟩

/-- What a short-circuit operator yields if its left side decides. -/
def shortcut (op : BinaryOp) : Code :=
  if op == .or then [.movAddr .rdi 1] else [.clear .rdi]

/-- The condition under which the left side of a short-circuit operator decides. -/
def decides (op : BinaryOp) : Condition :=
  if op == .or then .notEqual else .equal

/-- Turns a value into its truth. -/
def truth : Code :=
  [.testRdi, .setAl .notEqual, .movEdiAl]

/-- The code of a short-circuit operator. -/
def logicalCode (op : BinaryOp) (left right : Code) : Code :=
  List.flatten [left, [.testRdi],
    [.jumpIf (decides op) (.ofInt (Code.size (right ++ truth) + Instr.jumpSize))],
    right, truth, [.jump (.ofInt (Code.size (shortcut op)))], shortcut op]

/-- A logical operator jumps over its right side, and both jumps are within reach. -/
theorem logical_ok {c : Context} {op : BinaryOp} {pos : Int} {left right : Lower Code}
    {st : State} {r : Code × State} :
    logical c op pos left right st = .ok r ↔
      ∃ l st1 q st2, left st = .ok (l, st1) ∧ right st1 = .ok (q, st2) ∧
        Reach c (Code.size (shortcut op)) ∧
        Reach c (Code.size (q ++ truth) + Instr.jumpSize) ∧
        (logicalCode op l q, st2) = r := by
  have hif : (if op == .or then ((.notEqual, [.movAddr .rdi 1]) : Condition × Code)
      else (.equal, [.clear .rdi])) = (decides op, shortcut op) := by
    unfold decides shortcut
    split <;> rfl
  simp only [logical, hif, bind_ok, jump_ok, jumpIf_ok, pure_ok]
  constructor
  · rintro ⟨l, st1, hl, q, st2, hq, skip, _, ⟨hs, heq⟩, guard, _, ⟨hg, heq'⟩, h⟩
    cases heq
    cases heq'
    exact ⟨l, st1, q, st2, hl, hq, hs, hg, by rw [← h]; simp [logicalCode, truth]⟩
  · rintro ⟨l, st1, q, st2, hl, hq, hs, hg, h⟩
    exact ⟨l, st1, hl, q, st2, hq, _, _, ⟨hs, rfl⟩, _, _, ⟨hg, rfl⟩,
      by rw [← h]; simp [logicalCode, truth]⟩

/-- The code of an operation on two values. -/
def arithmeticCode (o : Operation) (type : CType) (left right : Code) : Code :=
  List.flatten [left, [.push .rdi], right, [.push .rdi], [.pop o.right], [.pop o.left], o.code,
    if o.cut then cutTo type else []]

/-- An operator on values: the left one is kept on the stack while the right one is computed. -/
theorem arithmetic_ok {op : BinaryOp} {pos : Int} {type : CType} {left right : Lower Code}
    {st : State} {r : Code × State} :
    arithmetic op pos type left right st = .ok r ↔
      ∃ l st1 q st2 o, left st = .ok (l, st1) ∧ right st1.deeper = .ok (q, st2) ∧
        operation? op = some o ∧
        (arithmeticCode o type l q, st2.deeper.shallower.shallower) = r := by
  simp only [arithmetic, bind_ok, push_ok]
  constructor
  · rintro ⟨l, st1, hl, _, _, hp, q, st2, hq, _, _, hp', h⟩
    cases hp
    cases hp'
    cases ho : operation? op with
    | none => simp [ho, fail_ok] at h
    | some o =>
      simp only [ho, bind_ok, pop_ok, pure_ok] at h
      obtain ⟨_, _, heq, _, _, heq', h⟩ := h
      cases heq
      cases heq'
      exact ⟨l, st1, q, st2, o, hl, hq, rfl, h⟩
  · rintro ⟨l, st1, q, st2, o, hl, hq, ho, h⟩
    refine ⟨l, st1, hl, _, _, rfl, q, st2, hq, _, _, rfl, ?_⟩
    simp only [ho, bind_ok, pop_ok, pure_ok]
    exact ⟨_, _, rfl, _, _, rfl, h⟩

/-! ## Calls -/

/-- The state with `n` words popped. -/
def State.popped (st : State) (n : Nat) : State :=
  { st with depth := st.depth - n }

/-- Arguments go from the stack to their registers. -/
theorem popArguments_ok {rs : List Register} {st : State} {r : Code × State} :
    popArguments rs st = .ok r ↔ (rs.map Instr.pop, st.popped rs.length) = r := by
  induction rs generalizing st r with
  | nil => simp [popArguments, pure_ok, State.popped]
  | cons a rs ih =>
    have hd : st.shallower.popped rs.length = st.popped (rs.length + 1) := by
      simp only [State.popped, State.shallower, Nat.sub_sub, Nat.add_comm]
    simp only [popArguments, bind_ok, pop_ok, ih, pure_ok]
    constructor
    · rintro ⟨_, _, heq, _, _, heq', h⟩
      cases heq
      cases heq'
      rw [← h, hd]
      rfl
    · intro h
      exact ⟨_, _, rfl, _, _, rfl, by rw [← h, hd]; rfl⟩

/-- The state in which the arguments of a call are lowered: an odd number of words is padded. -/
def State.padded (st : State) : State :=
  if st.depth % 2 == 1 then st.deeper else st

/-- The state behind a call that was lowered from `st`, when its arguments left `st1`. -/
def State.afterCall (st st1 : State) (count : Nat) : State :=
  if st.depth % 2 == 1 then (st1.popped count).shallower else st1.popped count

/-- The code of a call that is lowered with `depth` words pushed. -/
def callCode (depth : Nat) (target : UInt32) (count : Nat) (arguments result : Code) : Code :=
  List.flatten [if depth % 2 == 1 then [.subRsp 8] else [], arguments,
    (Register.arguments.take count).map .pop, [.movAddr .rax target, .callRax],
    if depth % 2 == 1 then [.addRsp 8] else [], result]

/-- The code that takes over the result of a call. -/
def Takes (c : Context) (type : CType) (code : Code) : Prop :=
  if type.isVoid then code = []
  else ∃ n, c.layout.size type = .ok n ∧ code = Instr.takeResult n

/-- A call: there are registers for its arguments, its function has an address, and the stack is
aligned before it. -/
theorem call_ok {c : Context} {name : Bytes} {pos : Int} {count : Nat} {type : CType}
    {arguments : Lower Code} {st : State} {r : Code × State} :
    call c name pos count type arguments st = .ok r ↔
      ∃ target args st1 result, count ≤ c.limits.registerArgs.toInt ∧ count ≤ 6 ∧
        c.symbols.functions.get? name = some target ∧ arguments st.padded = .ok (args, st1) ∧
        Takes c type result ∧
        (callCode st.depth target count args result, st.afterCall st1 count) = r := by
  by_cases hcount : count ≤ c.limits.registerArgs.toInt ∧ count ≤ 6
  · have hlen : (Register.arguments.take count).length = count := by
      simp [Register.arguments, hcount.2]
    have hb : (decide (c.limits.registerArgs.toInt < count) ||
        decide (Register.arguments.length < count)) = false := by
      simpa [Register.arguments] using hcount
    simp only [call, hb, Bool.false_eq_true, if_false]
    cases c.symbols.functions.get? name with
    | none => simp [fail_ok]
    | some target =>
      simp only [get_bind, hcount, true_and, Option.some.injEq]
      unfold Takes callCode State.padded State.afterCall
      -- The result is taken over or not, and the stack is padded or not.
      cases hv : type.isVoid <;> cases hp : st.depth % 2 == 1 <;>
        simp only [Bool.false_eq_true, if_true, if_false, modify_bind, ite_apply, bind_ok, pure_ok,
          located_ok, popArguments_ok, hlen]
      case false.false | false.true =>
        constructor
        · rintro ⟨args, st1, ha, _, _, hr, n, _, ⟨_, hn, heq⟩, _, _, heq', h⟩
          cases hr
          cases heq
          cases heq'
          exact ⟨target, args, st1, _, rfl, ha, ⟨n, hn, rfl⟩, h⟩
        · rintro ⟨_, args, st1, _, rfl, ha, ⟨n, hn, rfl⟩, h⟩
          exact ⟨args, st1, ha, _, _, rfl, n, _, ⟨n, hn, rfl⟩, _, _, rfl, h⟩
      case true.false | true.true =>
        constructor
        · rintro ⟨args, st1, ha, _, _, hr, _, _, heq, h⟩
          cases hr
          cases heq
          exact ⟨target, args, st1, _, rfl, ha, rfl, h⟩
        · rintro ⟨_, args, st1, _, rfl, ha, rfl, h⟩
          exact ⟨args, st1, ha, _, _, rfl, _, _, rfl, h⟩
  · have hb : (decide (c.limits.registerArgs.toInt < count) ||
        decide (Register.arguments.length < count)) = true := by
      simp only [show Register.arguments.length = 6 from rfl, Bool.or_eq_true, decide_eq_true_eq]
      omega
    simp only [call, hb, if_true, bind_ok, fail_ok]
    constructor
    · rintro ⟨_, _, h, _⟩
      exact h.elim
    · rintro ⟨_, _, _, _, h1, h2, _⟩
      exact absurd ⟨h1, h2⟩ hcount

/-! ## The code of statements -/

/-- A condition is a value that is tested. -/
theorem condition_ok {c : Context} {e : Expr} {st : State} {r : Code × State} :
    condition c e st = .ok r ↔
      ∃ v st1, lower c .value e st = .ok (v, st1) ∧ (v ++ [.testRdi], st1) = r := by
  simp only [condition, value, bind_ok, pure_ok]

/-- The code of a statement that runs if a condition holds. -/
def ifThenCode (cond yes : Code) : Code :=
  List.flatten [cond, [.testRdi], [.jumpIf .equal (.ofInt (Code.size yes))], yes]

/-- A branch jumps over its body, within reach. -/
theorem ifThen_ok {c : Context} {pos : Int} {cond : Expr} {yes : Lower Code} {st : State}
    {r : Code × State} :
    ifThen c pos (condition c cond) yes st = .ok r ↔
      ∃ v st1 y st2, lower c .value cond st = .ok (v, st1) ∧ yes st1 = .ok (y, st2) ∧
        Reach c (Code.size y) ∧ (ifThenCode v y, st2) = r := by
  simp only [ifThen, bind_ok, condition_ok, jumpIf_ok, pure_ok]
  constructor
  · rintro ⟨_, _, ⟨v, st1, hv, heq⟩, y, st2, hy, _, _, ⟨hg, heq'⟩, h⟩
    cases heq
    cases heq'
    exact ⟨v, _, y, st2, hv, hy, hg, by rw [← h]; simp [ifThenCode]⟩
  · rintro ⟨v, st1, y, st2, hv, hy, hg, h⟩
    exact ⟨_, _, ⟨v, st1, hv, rfl⟩, y, st2, hy, _, _, ⟨hg, rfl⟩, by rw [← h]; simp [ifThenCode]⟩

/-- The code of one of two statements, by a condition. -/
def ifElseCode (cond yes no : Code) : Code :=
  List.flatten [cond, [.testRdi], [.jumpIf .equal (.ofInt (Code.size yes + Instr.jumpSize))], yes,
    [.jump (.ofInt (Code.size no))], no]

/-- A branch with an alternative jumps over one of the two. -/
theorem ifElse_ok {c : Context} {pos : Int} {cond : Expr} {yes no : Lower Code} {st : State}
    {r : Code × State} :
    ifElse c pos (condition c cond) yes no st = .ok r ↔
      ∃ v st1 y st2 n st3, lower c .value cond st = .ok (v, st1) ∧ yes st1 = .ok (y, st2) ∧
        no st2 = .ok (n, st3) ∧ Reach c (Code.size n) ∧
        Reach c (Code.size y + Instr.jumpSize) ∧ (ifElseCode v y n, st3) = r := by
  simp only [ifElse, bind_ok, condition_ok, jump_ok, jumpIf_ok, pure_ok]
  constructor
  · rintro ⟨_, _, ⟨v, st1, hv, heq⟩, y, st2, hy, n, st3, hn, _, _, ⟨hs, heq'⟩, _, _, ⟨hg, heq''⟩, h⟩
    cases heq
    cases heq'
    cases heq''
    exact ⟨v, _, y, st2, n, _, hv, hy, hn, hs, hg, by rw [← h]; simp [ifElseCode]⟩
  · rintro ⟨v, st1, y, st2, n, st3, hv, hy, hn, hs, hg, h⟩
    exact ⟨_, _, ⟨v, st1, hv, rfl⟩, y, st2, hy, n, st3, hn, _, _, ⟨hs, rfl⟩, _, _, ⟨hg, rfl⟩,
      by rw [← h]; simp [ifElseCode]⟩

/-- The number of bytes of a loop. -/
def loopSize (cond body : Code) : Int :=
  Code.size (cond ++ [.testRdi]) + Instr.jumpSize + Code.size body + Instr.jumpSize

/-- The code of a statement that runs as long as a condition holds. -/
def loopCode (cond body : Code) : Code :=
  List.flatten [cond, [.testRdi], [.jumpIf .equal (.ofInt (Code.size body + Instr.jumpSize))], body,
    [.jump (.ofInt (-loopSize cond body))]]

/-- A loop jumps forward out of its body and back to its condition. -/
theorem loop_ok {c : Context} {pos : Int} {cond : Expr} {body : Lower Code} {st : State}
    {r : Code × State} :
    loop c pos (condition c cond) body st = .ok r ↔
      ∃ v st1 b st2, lower c .value cond st = .ok (v, st1) ∧ body st1 = .ok (b, st2) ∧
        Reach c (Code.size b + Instr.jumpSize) ∧ Reach c (-loopSize v b) ∧
        (loopCode v b, st2) = r := by
  simp only [loop, bind_ok, condition_ok, jump_ok, jumpIf_ok, pure_ok]
  constructor
  · rintro ⟨_, _, ⟨v, st1, hv, heq⟩, b, st2, hb, _, _, ⟨hg, heq'⟩, _, _, ⟨hk, heq''⟩, h⟩
    cases heq
    cases heq'
    cases heq''
    exact ⟨v, _, b, _, hv, hb, hg, hk, by rw [← h]; simp [loopCode, loopSize]⟩
  · rintro ⟨v, st1, b, st2, hv, hb, hg, hk, h⟩
    exact ⟨_, _, ⟨v, st1, hv, rfl⟩, b, st2, hb, _, _, ⟨hg, rfl⟩, _, _, ⟨hk, rfl⟩,
      by rw [← h]; simp [loopCode, loopSize]⟩

/-! ## Functions -/

/-- A parameter goes from its register to its slot. -/
theorem storeParams_cons_ok {c : Context} {p : Param} {reg : Register}
    {rest : List (Param × Register)} {st : State} {r : Code × State} :
    storeParams c ((p, reg) :: rest) st = .ok r ↔
      ∃ offset frame n w later st1, st.frame.slot c.layout p.id p.type = .ok (offset, frame) ∧
        c.layout.size p.type = .ok n ∧ Width.ofSize? n = some w ∧
        storeParams c rest { st with frame } = .ok (later, st1) ∧
        (.storeSlot reg offset w :: later, st1) = r := by
  simp only [storeParams, get_bind, modify_bind, bind_ok, located_ok]
  constructor
  · rintro ⟨⟨offset, frame⟩, _, ⟨_, hs, heq⟩, n, _, ⟨_, hn, heq'⟩, h⟩
    cases heq
    cases heq'
    cases hw : Width.ofSize? n with
    | none => simp [hw, fail_ok] at h
    | some w =>
      simp only [hw, bind_ok, pure_ok] at h
      obtain ⟨later, st1, hl, h⟩ := h
      exact ⟨offset, frame, n, w, later, st1, hs, hn, hw, hl, h⟩
  · rintro ⟨offset, frame, n, w, later, st1, hs, hn, hw, hl, h⟩
    refine ⟨(offset, frame), _, ⟨_, hs, rfl⟩, n, _, ⟨_, hn, rfl⟩, ?_⟩
    simp only [hw, bind_ok, pure_ok]
    exact ⟨later, st1, hl, h⟩

/-- The code of a body: first the parameters, for which there are registers, then the statements. -/
theorem body_ok {c : Context} {f : Function} {st : State} {r : Code × State} :
    body c f st = .ok r ↔
      ∃ params st0 code st1, f.params.length ≤ c.limits.registerArgs.toInt ∧
        f.params.length ≤ 6 ∧
        storeParams c (f.params.zip Register.arguments) st = .ok (params, st0) ∧
        statements c (f.body.getD []) st0 = .ok (code, st1) ∧ (params ++ code, st1) = r := by
  unfold body
  by_cases hcount : f.params.length ≤ c.limits.registerArgs.toInt ∧ f.params.length ≤ 6
  · have hb : (decide (c.limits.registerArgs.toInt < f.params.length) ||
        decide (Register.arguments.length < f.params.length)) = false := by
      simpa [Register.arguments] using hcount
    simp only [hb, Bool.false_eq_true, if_false, bind_ok, pure_ok, hcount, true_and]
    constructor
    · rintro ⟨params, st0, hp, code, st1, hs, h⟩
      exact ⟨params, st0, code, st1, hp, hs, h⟩
    · rintro ⟨params, st0, code, st1, hp, hs, h⟩
      exact ⟨params, st0, hp, code, st1, hs, h⟩
  · have hb : (decide (c.limits.registerArgs.toInt < f.params.length) ||
        decide (Register.arguments.length < f.params.length)) = true := by
      simp only [show Register.arguments.length = 6 from rfl, Bool.or_eq_true, decide_eq_true_eq]
      omega
    simp only [hb, if_true, bind_ok, fail_ok]
    constructor
    · rintro ⟨_, _, h, _⟩
      exact h.elim
    · rintro ⟨_, _, _, _, h1, h2, _⟩
      exact absurd ⟨h1, h2⟩ hcount

/-- A function has the code of its body between an entry and a return. -/
theorem function_ok {f : Function} {layout : Layout} {limits : Limits} {symbols : Symbols}
    {code : Code} :
    function f layout limits symbols = .ok code ↔
      ∃ inner st, body ⟨layout, limits, symbols, f.pos⟩ f {} = .ok (inner, st) ∧
        code = List.flatten [Instr.enter st.frame.size, inner, Instr.returnZero] := by
  unfold function StateT.run
  cases body ⟨layout, limits, symbols, f.pos⟩ f {} with
  | error complaint => simp
  | ok r =>
    obtain ⟨inner, st⟩ := r
    constructor
    · intro h
      cases h
      exact ⟨inner, st, rfl, rfl⟩
    · rintro ⟨_, _, heq, rfl⟩
      cases heq
      rfl

/-- A function fails where its body does, with a complaint about its own file. -/
theorem function_error {f : Function} {layout : Layout} {limits : Limits} {symbols : Symbols}
    {d : Diagnostic} :
    function f layout limits symbols = .error d ↔
      ∃ complaint, body ⟨layout, limits, symbols, f.pos⟩ f {} = .error complaint ∧
        d = complaint.diagnostic f.file f.source := by
  unfold function StateT.run
  cases body ⟨layout, limits, symbols, f.pos⟩ f {} with
  | error complaint => simp [eq_comm]
  | ok r => simp

end Lowering

end DirectC
