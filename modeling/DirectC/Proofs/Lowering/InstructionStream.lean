/-
# Functions as instruction streams

The bytes of a function, read from the first one on, are instructions up to the last byte, and
control cannot leave them but by a return, a call or the end of the process: the last instruction
returns, and every jump leads to an instruction. Where exactly the jumps lead is said by the
conditions, loops and short-circuit operators of the function.
-/
import DirectC.Proofs.Lowering.Branches
import DirectC.Proofs.Machine.Disassembly

namespace DirectC

namespace Lowering

open Code (JumpAt)
open Machine (Line disassemble)

variable {c : Context} {job job' : Job} {st st' st1 st2 : State} {pre piece : Code} {shape : Shape}
  {b : Branch}

/-! ## Instructions that can be encoded -/

theorem encodable_cutTo (type : CType) : (cutTo type).all Instr.isEncodable := by
  cases type <;> rfl

theorem encodable_update (op : BinaryOp) (w : Width) :
    (if op == .assign then [] else update op w).all Instr.isEncodable := by
  unfold update
  split
  · rfl
  · split <;> rfl

theorem encodable_operation {op : BinaryOp} {o : Operation} (ho : operation? op = some o)
    (type : CType) : (o.code ++ if o.cut then cutTo type else []).all Instr.isEncodable := by
  rw [List.all_append, Bool.and_eq_true]
  refine ⟨by cases op <;> cases ho <;> rfl, ?_⟩
  split
  · exact encodable_cutTo type
  · rfl

theorem encodable_takes {type : CType} (h : Takes c type piece) : piece.all Instr.isEncodable := by
  unfold Takes at h
  split at h
  · subst h
    rfl
  · obtain ⟨n, _, rfl⟩ := h
    unfold Instr.takeResult
    split
    · rfl
    · split <;> rfl

theorem encodable_logical (op : BinaryOp) (disp : Int8) :
    (Instr.jumpIf (decides op) disp :: truth ++ shortcut op).all Instr.isEncodable := by
  unfold decides shortcut
  split <;> rfl

/-- Lowered code holds no condition but those that have a code of four bits. -/
theorem Emits.encodable (h : Emits c job st piece st') : piece.all Instr.isEncodable := by
  -- Every rule adds fixed instructions to the code of its parts.
  induction h with
  | num _ | localAddress _ | globalAddress _ | str _ | retNone | argsNil | stmtsNil => rfl
  | derefAddress _ ih | array _ _ _ ih | decay _ _ ih | addr _ _ ih | eval _ ih | block _ ih =>
    exact ih
  | load _ _ _ _ _ ih | retSome _ ih | exit _ ih => simp [ih, Instr.isEncodable]
  | @assign op _ _ _ type _ _ _ _ _ _ w _ _ _ _ _ _ ihl ihr =>
    have hu := encodable_update op w
    have hc := encodable_cutTo type
    simp only [assignCode, List.flatten_cons, List.flatten_nil, List.all_append, ihl, ihr, hu, hc]
    rfl
  | @arithmetic op _ _ _ type _ _ _ _ _ o ho _ _ _ ihl ihr =>
    have ho' := encodable_operation ho type
    simp only [arithmeticCode, List.flatten_cons, List.flatten_nil, List.append_nil,
      List.all_append, ihl, ihr] at ho' ⊢
    rw [ho']
    rfl
  | @call _ _ args _ st target _ _ _ _ _ _ _ _ hr ih =>
    have hr' := encodable_takes hr
    have hpops : ((Register.arguments.take args.length).map Instr.pop).all Instr.isEncodable := by
      rw [List.all_map, List.all_eq_true]
      exact fun _ _ => rfl
    simp only [callCode, List.flatten_cons, List.flatten_nil, List.all_append, ih, hr', hpops]
    cases st.depth % 2 == 1 <;> rfl
  | argsCons _ _ ihr iha => simp [ihr, iha, Instr.isEncodable]
  | stmtsCons _ _ ihs ihr => simp [ihs, ihr]
  | ifThen _ _ _ ihc ihy =>
    simp only [ifThenCode, List.flatten_cons, List.flatten_nil, List.all_append, ihc, ihy]
    rfl
  | ifElse _ _ _ _ _ ihc ihy ihn =>
    simp only [ifElseCode, List.flatten_cons, List.flatten_nil, List.all_append, ihc, ihy, ihn]
    rfl
  | loop _ _ _ _ ihc ihb =>
    simp only [loopCode, List.flatten_cons, List.flatten_nil, List.all_append, ihc, ihb]
    rfl
  | @logical op _ _ _ _ _ _ _ r _ _ _ _ _ _ _ ihl ihr =>
    have ho := encodable_logical op (.ofInt (Code.size (r ++ truth) + Instr.jumpSize))
    simp only [List.cons_append, List.all_cons, List.all_append, Bool.and_eq_true] at ho
    simp only [logicalCode, List.flatten_cons, List.flatten_nil, List.all_append, List.all_cons,
      List.all_nil, ihl, ihr, ho]
    rfl

/-- Parameters are stored and nothing else is done with them. -/
theorem stores_storeParams {ps : List (Param × Register)}
    (h : storeParams c ps st = .ok (piece, st')) :
    ∀ i ∈ piece, ∃ r offset w, i = .storeSlot r offset w := by
  induction ps generalizing st piece with
  | nil =>
    simp only [storeParams, pure_ok] at h
    cases h
    simp
  | cons p ps ih =>
    obtain ⟨offset, frame, n, w, later, st2, _, _, _, hl, heq⟩ := storeParams_cons_ok.mp h
    cases heq
    exact List.forall_mem_cons.mpr ⟨⟨_, _, _, rfl⟩, ih hl⟩

/-! ## Lines of code -/

/-- The lines that jump are the jumps. -/
theorem Code.mem_lines_jump {code : Code} {pos : Nat} {disp : Int} :
    (∃ line ∈ code.lines 0, line.offset = pos ∧ line.action.displacement? = some disp) ↔
      ∃ d : Int8, JumpAt code pos d ∧ disp = d.toInt := by
  simp only [Code.mem_lines, Nat.zero_add]
  constructor
  · rintro ⟨_, ⟨pre, i, post, rfl, rfl⟩, rfl, hd⟩
    simp only [Instr.displacement_action, Option.map_eq_some_iff] at hd
    obtain ⟨d, hd, rfl⟩ := hd
    exact ⟨d, ⟨pre, i, post, rfl, rfl, hd⟩, rfl⟩
  · rintro ⟨d, ⟨pre, i, post, rfl, rfl, hd⟩, rfl⟩
    exact ⟨_, ⟨pre, i, post, rfl, rfl⟩, rfl, by simp [Instr.displacement_action, hd]⟩

/-- There is a line wherever code can be cut in front of an instruction. -/
theorem Code.mem_lines_cut (front rest : Code) (hr : rest ≠ []) :
    ∃ line ∈ (front ++ rest).lines 0, line.offset = front.size := by
  obtain ⟨i, rest, rfl⟩ := List.exists_cons_of_ne_nil hr
  exact ⟨_, Code.mem_lines.mpr ⟨front, i, rest, rfl, rfl⟩, by simp⟩

/-- At an offset there is a jump that leads to another offset. -/
def Leads (lines : List Line) (source target : Nat) : Prop :=
  ∃ line ∈ lines, line.offset = source ∧
    ∃ disp, line.action.displacement? = some disp ∧ (source : Int) + Instr.jumpSize + disp = target

/-- A construct inside other code leads where it says. -/
theorem Shape.leads (start post : Code) (hb : b ∈ shape.branches) (hr : Reach c b.distance) :
    Leads ((start ++ shape.code ++ post).lines 0) (start.size + b.source)
      (start.size + b.target) := by
  have hj : JumpAt (start ++ shape.code ++ post) (start.size + b.source) (.ofInt b.distance) := by
    simp only [Code.jumpAt_append]
    exact .inl (.inr ⟨_, (Shape.branch hb).1, rfl⟩)
  obtain ⟨line, hline, hoffset, hdisp⟩ := Code.mem_lines_jump.mpr ⟨_, hj, rfl⟩
  refine ⟨line, hline, hoffset, _, hdisp, ?_⟩
  rw [hr.toInt, Branch.distance]
  omega

/-- The code of a construct in a job stands where the construct is, within the limit. -/
theorem Within.construct (hw : Within c job st pre job' st1) (hc : Construct c job' st1 shape st2)
    (he : Emits c job st piece st') :
    (∀ b ∈ shape.branches, Reach c b.distance) ∧ pre ++ shape.code <+: piece := by
  obtain ⟨code, st3, hcode, hpre⟩ := hw.emits he
  have hr := hc.reach hcode
  obtain ⟨rfl, -⟩ := (hc.emits hr).unique hcode
  exact ⟨hr, hpre⟩

/-! ## Functions -/

/-- The code of a function: its frame and parameters, its body, and a last return. -/
theorem function_parts {f : Function} {layout : Layout} {limits : Limits} {symbols : Symbols}
    {code : Code} (hc : c = ⟨layout, limits, symbols, f.pos⟩)
    (h : function f layout limits symbols = .ok code) :
    ∃ params body st0 st1,
      storeParams c (f.params.zip Register.arguments) {} = .ok (params, st0) ∧
      Emits c (.stmts (f.body.getD [])) st0 body st1 ∧
      code = Instr.enter st1.frame.size ++ params ++ (body ++ Instr.returnZero) := by
  obtain ⟨inner, st1, hbody, hcode⟩ := function_ok.mp h
  rw [← hc] at hbody
  obtain ⟨params, st0, body, _, _, _, hparams, hstmts, heq⟩ := body_ok.mp hbody
  cases heq
  exact ⟨params, body, st0, st1, hparams, emits_iff.mpr hstmts, by simpa using hcode⟩

/-- **Instruction streams.** The bytes of a function are instructions from the first byte to the
last, and the last one returns. Every jump among them keeps within the limit and leads to one of
them. The jumps are those of the conditions, loops and short-circuit operators in the function, and
each leads where the construct says: to the second part, to the condition, to the result for the
case that the left side decides, or behind the construct. Whatever the function, a construct whose
parts have code has code itself unless one of these distances is beyond the limit, and is then
refused for its capacity. -/
theorem instruction_stream {f : Function} {layout : Layout} {limits : Limits} {symbols : Symbols}
    (hc : c = ⟨layout, limits, symbols, f.pos⟩) :
    (∀ code, function f layout limits symbols = .ok code →
      ∃ lines n params st0,
        disassemble code.bytes = some lines ∧ lines.getLast?.map Line.action = some .ret ∧
        storeParams c (f.params.zip Register.arguments) {} = .ok (params, st0) ∧
        (∀ {pre job st shape st'}, Within c (.stmts (f.body.getD [])) st0 pre job st →
          Construct c job st shape st' →
          ∃ start post, start = Instr.enter n ++ params ++ pre ∧
            code = start ++ shape.code ++ post ∧
            ∀ b ∈ shape.branches, Leads lines (start.size + b.source) (start.size + b.target)) ∧
        ∀ line ∈ lines, ∀ disp, line.action.displacement? = some disp →
          disp.natAbs ≤ min limits.branch.toInt 127 ∧
          (∃ target ∈ lines, (target.offset : Int) = line.offset + Instr.jumpSize + disp) ∧
          ∃ pre job st shape st', Within c (.stmts (f.body.getD [])) st0 pre job st ∧
            Construct c job st shape st' ∧ ∃ b ∈ shape.branches,
              line.offset = (Instr.enter n ++ params ++ pre).size + b.source) ∧
    ∀ {job st shape st'}, Construct c job st shape st' →
      ((∀ b ∈ shape.branches, b.distance.natAbs ≤ min limits.branch.toInt 127) →
        job.lower c st = .ok (shape.code, st')) ∧
      ((∃ complaint, job.lower c st = .error complaint ∧ complaint.fault.kind = .capacity) ↔
        ∃ b ∈ shape.branches, min limits.branch.toInt 127 < b.distance.natAbs) := by
  have hreach {d : Int} : Reach c d ↔ (d.natAbs : Int) ≤ min limits.branch.toInt 127 := by
    rw [reach_iff, hc]
  refine ⟨fun code h => ?_, fun {job st shape st'} hcon => ⟨fun hb => ?_, ?_⟩⟩
  · obtain ⟨params, body, st0, st1, hparams, hbody, rfl⟩ := function_parts hc h
    have hstores := stores_storeParams hparams
    have hfront : Code.straight (Instr.enter st1.frame.size ++ params) := by
      rw [Code.straight_append]
      refine ⟨rfl, List.all_eq_true.mpr fun i hi => ?_⟩
      obtain ⟨r, offset, w, rfl⟩ := hstores i hi
      rfl
    have hencodable : (Instr.enter st1.frame.size ++ params ++ (body ++ Instr.returnZero)).all
        Instr.isEncodable := by
      simp only [List.all_append, Bool.and_eq_true]
      refine ⟨⟨rfl, List.all_eq_true.mpr fun i hi => ?_⟩, hbody.encodable, rfl⟩
      obtain ⟨r, offset, w, rfl⟩ := hstores i hi
      rfl
    -- Where a construct of the body stands in the function.
    have hplace {pre job st shape st'} (hw : Within c (.stmts (f.body.getD [])) st0 pre job st)
        (hcon : Construct c job st shape st') :
        (∀ b ∈ shape.branches, Reach c b.distance) ∧ ∃ post,
          Instr.enter st1.frame.size ++ params ++ (body ++ Instr.returnZero) =
            (Instr.enter st1.frame.size ++ params ++ pre) ++ shape.code ++
              (post ++ Instr.returnZero) := by
      obtain ⟨hr, post, hpost⟩ := hw.construct hcon hbody
      exact ⟨hr, post, by simp [← hpost]⟩
    refine ⟨_, st1.frame.size, params, st0, Code.disassemble_bytes hencodable, ?_, hparams,
      fun hw hcon => ?_, fun line hline disp hdisp => ?_⟩
    · simp [Code.lines_append, Instr.returnZero, Code.lines, Instr.action]
    · obtain ⟨hr, post, heq⟩ := hplace hw hcon
      refine ⟨_, _, rfl, heq, fun b hb => ?_⟩
      rw [heq]
      exact Shape.leads _ _ hb (hr b hb)
    · obtain ⟨d, hj, rfl⟩ := Code.mem_lines_jump.mp ⟨line, hline, rfl, hdisp⟩
      obtain ⟨p, hj, hp⟩ := hj.inner hfront rfl
      obtain ⟨pre, job, st, shape, st', hw, hcon, b, hb, rfl, rfl⟩ := hbody.branches hj
      obtain ⟨hr, post, heq⟩ := hplace hw hcon
      obtain ⟨front, rest, hcut, htarget⟩ := (Shape.branch hb).2
      have hr := hr b hb
      rw [hr.toInt]
      refine ⟨hreach.mp hr, ?_, pre, job, st, shape, st', hw, hcon, b, hb, ?_⟩
      · -- Behind the construct there is at least the last return.
        obtain ⟨target, hmem, hoffset⟩ := Code.mem_lines_cut
          (Instr.enter st1.frame.size ++ params ++ pre ++ front)
          (rest ++ (post ++ Instr.returnZero)) (by simp [Instr.returnZero])
        refine ⟨target, ?_, ?_⟩
        · rw [heq, hcut]
          simpa using hmem
        · simp only [hoffset, hp, Code.size_append, Branch.distance, htarget]
          omega
      · simp only [hp, Code.size_append]
        omega
  · exact (hcon.emits fun b hmem => hreach.mpr (hb b hmem)).lower_eq
  · rw [hcon.refused_iff]
    simp only [hreach, Int.not_le]

/-- The function `int f(int n) { while (n < 9 && n) { if (n) n = 2; else 3; } }`. -/
def nestedLoop : Function where
  name := "f"
  params := [⟨"n", .int, 0⟩]
  ret := .int
  pos := 0
  locals := []
  file := ""
  source := ""
  body :=
    let n : Expr := .ident "n" 0 (.stack 0) .int
    let cond : Expr := .binary .and 0 (.binary .lt 0 n (.int 9 0) .int) n .int
    some [.loop cond (.block [.ifElse n (.eval (.binary .assign 0 n (.int 2 0) .int))
      (.eval (.int 3 0))])]

/-- The six jumps of `nestedLoop` lead to instructions of it, and a condition whose part takes more
than one byte is refused where one byte is the limit. -/
theorem instruction_stream_nestedLoop :
    (∃ code lines, function nestedLoop {} {} {} = .ok code ∧
      code.countP (·.displacement?.isSome) = 6 ∧ disassemble code.bytes = some lines ∧
      ∀ line ∈ lines, ∀ disp, line.action.displacement? = some disp →
        ∃ target ∈ lines, (target.offset : Int) = line.offset + Instr.jumpSize + disp) ∧
    ∃ complaint, statement ⟨{}, { branch := 1 }, {}, 0⟩
        (.ifThen (.int 1 0) (.eval (.int 2 0))) {} = .error complaint ∧
      complaint.fault.kind = .capacity := by
  constructor
  · have h : function nestedLoop {} {} {} = .ok _ := rfl
    obtain ⟨lines, _, _, _, hlines, _, _, _, hjumps⟩ := (instruction_stream rfl).1 _ h
    exact ⟨_, lines, h, by decide, hlines, fun line hline disp hd => (hjumps line hline disp hd).2.1⟩
  · have hcon : Construct ⟨{}, { branch := 1 }, {}, 0⟩
        (.stmt (.ifThen (.int 1 0) (.eval (.int 2 0)))) {} _ {} :=
      .ifThen (.num rfl) (.eval (.num rfl))
    exact ((instruction_stream (f := nestedLoop) rfl).2 hcon).2.mpr ⟨_, List.mem_cons_self, by decide⟩

end Lowering

end DirectC
