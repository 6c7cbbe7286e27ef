/-
# The stack under lowered code

Code of an expression or a statement leaves the stack as high as it found it, never goes under
the height it started at, and finds the stack aligned at every call; the number of words that the
lowering counts is the number of words on the stack. All of it follows from one induction over
derivations, `Emits.balanced`, since the height at a position does not depend on the path there.
-/
import DirectC.Proofs.Layout
import DirectC.Proofs.Lowering.Parts
import DirectC.Proofs.Machine.Flow

namespace DirectC

open Code

namespace Lowering

/-- The number of words that a job leaves on the stack. -/
def Job.pushes : Job → Nat
  | .args es => es.length
  | _ => 0

/-- What holds of code that was lowered from `st` and leaves `n` words on the stack: the lowering
counts them, and the code takes the stack there. -/
def Balanced (n : Nat) (st : State) (code : Code) (st' : State) : Prop :=
  st'.depth = st.depth + n ∧
    Lifts (8 * st.depth) (8 * st.depth) (8 * (st.depth + n)) code

variable {c : Context} {st st1 st2 st3 : State} {n : Nat} {code : Code}

/-- Balanced code as a piece of code that started lower. -/
theorem Balanced.lifts {floor a b : Int} (hb : Balanced n st code st1) (hf : floor ≤ 8 * st.depth)
    (ha : a = 8 * st.depth) (hb' : b = 8 * (st.depth + n)) : Lifts floor a b code := by
  subst ha hb'
  exact hb.2.lower hf

/-! ## The forms of code -/

/-- Code that leaves the stack alone. -/
theorem Balanced.quiet (hq : quiet code) : Balanced 0 st code st :=
  ⟨rfl, .quiet hq (Int.le_refl _)⟩

/-- Code after code. -/
theorem Balanced.append {a b : Code} (ha : Balanced 0 st a st1) (hb : Balanced n st1 b st2) :
    Balanced n st (a ++ b) st2 := by
  have hd : st1.depth = st.depth := ha.1
  refine ⟨by rw [hb.1, hd], ha.2.append (hb.lifts ?_ ?_ ?_)⟩ <;> simp [hd]

theorem quiet_cutTo (type : CType) : Code.quiet (cutTo type) := by
  cases type <;> rfl

theorem quiet_update (op : BinaryOp) (w : Width) : Code.quiet (update op w) := by
  unfold update
  split <;> cases w <;> rfl

/-- An assignment takes its address back from the stack. -/
theorem Balanced.assign {op : BinaryOp} {type : CType} {w : Width} {address : Code}
    (hl : Balanced 0 st address st1) (hr : Balanced 0 st1.deeper code st2) :
    Balanced 0 st (assignCode op type w address code) st2.shallower := by
  have hd : st1.depth = st.depth := hl.1
  have hd' : st2.depth = st1.depth + 1 := hr.1
  have hu : Code.quiet (if op == .assign then [] else update op w) := by
    split
    · rfl
    · exact quiet_update op w
  have hs : Code.quiet [.storeRdi w] := by cases w <;> rfl
  refine ⟨by simp; omega, ?_⟩
  simp only [assignCode, List.flatten_cons, List.flatten_nil, List.append_nil]
  refine hl.2.append (.append (.push ?_ rfl) (.append (hr.lifts ?_ ?_ rfl)
    (.append (.quiet hu ?_) (.append (.pop ?_ ?_)
      (.append (.quiet hs ?_) (.quiet (quiet_cutTo type) ?_))))))
  all_goals simp [hd]
  all_goals omega

theorem quiet_truth : Code.quiet truth := rfl

theorem quiet_shortcut (op : BinaryOp) : Code.quiet (shortcut op) := by
  unfold shortcut
  split <;> rfl

/-- The two ways through a logical operator leave the stack alike. -/
theorem Balanced.logical {op : BinaryOp} {l r : Code} (hl : Balanced 0 st l st1)
    (hr : Balanced 0 st1 r st2) (hs : Reach c (Code.size (shortcut op)))
    (hg : Reach c (Code.size (r ++ truth) + Instr.jumpSize)) :
    Balanced 0 st (logicalCode op l r) st2 := by
  have hd : st1.depth = st.depth := hl.1
  have hd' : st2.depth = st1.depth := hr.1
  have hx : Balanced 0 st1 (r ++ truth) st2 := hr.append (.quiet quiet_truth)
  refine ⟨by omega, ?_⟩
  have hx' : Lifts (8 * st.depth) (8 * st.depth) (8 * st.depth) (r ++ truth) :=
    hx.lifts (by omega) (by omega) (by simp [hd])
  have hy : Lifts (8 * st.depth) (8 * st.depth) (8 * st.depth) (shortcut op) :=
    .quiet (quiet_shortcut op) (Int.le_refl _)
  have ht : Code.quiet [.testRdi] := rfl
  simpa [logicalCode] using hl.2.append (.append (.quiet ht (by omega))
    (.branch (decides op) hx' hy hg.toInt hs.toInt))

theorem quiet_operation {op : BinaryOp} {o : Operation} (ho : operation? op = some o) :
    Code.quiet o.code := by
  cases op <;> cases ho <;> rfl

/-- Arithmetic takes its left operand back from the stack. -/
theorem Balanced.arithmetic {op : BinaryOp} {o : Operation} {type : CType} {l r : Code}
    (ho : operation? op = some o) (hl : Balanced 0 st l st1) (hr : Balanced 0 st1.deeper r st2) :
    Balanced 0 st (arithmeticCode o type l r) st2.deeper.shallower.shallower := by
  have hd : st1.depth = st.depth := hl.1
  have hd' : st2.depth = st1.depth + 1 := hr.1
  have hcut : Code.quiet (if o.cut then cutTo type else []) := by
    split
    · exact quiet_cutTo type
    · rfl
  refine ⟨by simp; omega, ?_⟩
  simp only [arithmeticCode, List.flatten_cons, List.flatten_nil, List.append_nil]
  refine hl.2.append (.append (.push ?_ rfl) (.append (hr.lifts ?_ ?_ rfl)
    (.append (.push ?_ rfl) (.append (.pop ?_ rfl) (.append (.pop ?_ ?_)
      (.append (.quiet (quiet_operation ho) ?_) (.quiet hcut ?_)))))))
  all_goals simp [hd]
  all_goals omega

/-! ## Calls -/

/-- Padding makes the depth even. -/
theorem State.padded_even (st : State) : st.padded.depth % 2 = 0 := by
  unfold State.padded
  split
  · simp_all
    omega
  · simp_all

/-- Padding only adds. -/
theorem State.le_padded (st : State) : st.depth ≤ st.padded.depth := by
  unfold State.padded
  split <;> simp

/-- Padding takes the stack to the height at which arguments are lowered, and down again. -/
theorem lifts_padding (st : State) :
    Lifts (8 * st.depth) (8 * st.depth) (8 * st.padded.depth)
        (if st.depth % 2 == 1 then [.subRsp 8] else []) ∧
      Lifts (8 * st.depth) (8 * st.padded.depth) (8 * st.depth)
        (if st.depth % 2 == 1 then [.addRsp 8] else []) := by
  have h8 : (8 : Int32).toInt = 8 := rfl
  unfold State.padded
  split
  · constructor <;> refine .plain rfl ?_ ?_ ?_ <;> simp [Instr.rise, h8] <;> omega
  · exact ⟨.nil (Int.le_refl _), .nil (Int.le_refl _)⟩

/-- Pops, one word each. -/
theorem lifts_pops {floor b : Int} (rs : List Register) (hf : floor ≤ b) :
    Lifts floor (b + 8 * rs.length) b (rs.map .pop) := by
  induction rs with
  | nil => simpa using Lifts.nil hf
  | cons r rs ih =>
    refine .append (x := [.pop r]) (.pop ?_ ?_) ih
    · omega
    · simp only [List.length_cons]
      omega

/-- What is returned is taken without the stack. -/
theorem quiet_takes {type : CType} (h : Takes c type code) : Code.quiet code := by
  unfold Takes at h
  split at h
  · subst h
    rfl
  · obtain ⟨n, _, rfl⟩ := h
    unfold Instr.takeResult
    split
    · rfl
    · split <;> rfl

/-- **A call leaves nothing behind**: arguments are taken to registers, and the padding goes. -/
theorem Balanced.call {target : UInt32} {type : CType} {count : Nat} {args : Code}
    (hk : count ≤ 6) (ha : Balanced count st.padded args st1) (hr : Takes c type code) :
    Balanced 0 st (callCode st.depth target count args code) (st.afterCall st1 count) := by
  have hd : st1.depth = st.padded.depth + count := ha.1
  have hlen : (Register.arguments.take count).length = count := by
    simp [Register.arguments, hk]
  have heven := st.padded_even
  have hle := st.le_padded
  refine ⟨?_, ?_⟩
  · unfold State.afterCall State.padded at *
    split <;> simp_all [State.popped]
  · have hp : Lifts (8 * st.depth) _ (8 * st.padded.depth) _ :=
      lifts_pops (Register.arguments.take count) (by omega)
    rw [hlen] at hp
    have ht : Code.quiet [.movAddr .rax target] := rfl
    have hcall : Lifts (8 * st.depth) (8 * st.padded.depth) (8 * st.padded.depth)
        ([.movAddr .rax target] ++ [.callRax]) :=
      .append (.quiet ht (by omega)) (.call (by omega) (by omega))
    simp only [callCode, List.flatten_cons, List.flatten_nil, List.append_nil]
    exact (lifts_padding st).1.append (.append (ha.lifts (by omega) rfl (by omega))
      (.append hp (.append hcall
        (.append (lifts_padding st).2 (.quiet (quiet_takes hr) (Int.le_refl _))))))

/-- Each argument is left on the stack. -/
theorem Balanced.argument {later : Code} (hr : Balanced n st later st1)
    (ha : Balanced 0 st1 code st2) :
    Balanced (n + 1) st (List.flatten [later, code, [.push .rdi]]) st2.deeper := by
  have hd : st1.depth = st.depth + n := hr.1
  have hd' : st2.depth = st1.depth := ha.1
  refine ⟨by simp; omega, ?_⟩
  simp only [List.flatten_cons, List.flatten_nil, List.append_nil]
  refine hr.2.append (.append (ha.lifts ?_ ?_ rfl) (.push ?_ ?_))
  all_goals simp [hd]
  all_goals omega

/-! ## Statements -/

theorem quiet_testRdi : Code.quiet [.testRdi] := rfl

/-- A branch leaves the stack alike whether or not it is taken. -/
theorem Balanced.ifThen {v y : Code} (hc : Balanced 0 st v st1) (hy : Balanced 0 st1 y st2)
    (hg : Reach c (Code.size y)) : Balanced 0 st (ifThenCode v y) st2 := by
  have hv := hc.append (.quiet quiet_testRdi)
  have hj : Balanced 0 st1 ([.jumpIf .equal (.ofInt (Code.size y))] ++ y) st2 :=
    ⟨hy.1, .skip hy.2 hg.toInt⟩
  simpa [ifThenCode] using hv.append hj

/-- Both ways through an alternative leave the stack alike. -/
theorem Balanced.ifElse {v y z : Code} (hc : Balanced 0 st v st1) (hy : Balanced 0 st1 y st2)
    (hz : Balanced 0 st2 z st3) (hs : Reach c (Code.size z))
    (hg : Reach c (Code.size y + Instr.jumpSize)) : Balanced 0 st (ifElseCode v y z) st3 := by
  have hd : st2.depth = st1.depth := hy.1
  have hv := hc.append (.quiet quiet_testRdi)
  have hz' : Lifts (8 * st1.depth) (8 * st1.depth) (8 * st1.depth) z :=
    hz.lifts (by omega) (by omega) (by simp [hd])
  have hb : Balanced 0 st1 _ st3 :=
    ⟨hz.1.trans hy.1, .branch .equal hy.2 hz' hg.toInt hs.toInt⟩
  simpa [ifElseCode] using hv.append hb

/-- A loop leaves the stack alike, however often it goes round. -/
theorem Balanced.loop {v b : Code} (hc : Balanced 0 st v st1) (hb : Balanced 0 st1 b st2)
    (hg : Reach c (Code.size b + Instr.jumpSize)) (hk : Reach c (-loopSize v b)) :
    Balanced 0 st (loopCode v b) st2 := by
  have hd : st1.depth = st.depth := hc.1
  have hv := (hc.append (.quiet quiet_testRdi)).2
  have hb' : Lifts (8 * st.depth) (8 * st.depth) (8 * st.depth) b :=
    hb.lifts (by omega) (by omega) (by simp [hd])
  have hl := Lifts.loop .equal hv hb' hg.toInt hk.toInt
  exact ⟨hb.1.trans hd, by simpa [loopCode] using hl⟩

/-- **Lowered code is balanced.** Every job leaves the stack where it found it, arguments apart,
which leave one word each. -/
theorem Emits.balanced {job : Job} (h : Emits c job st code st1) :
    Balanced job.pushes st code st1 := by
  induction h with
  | num _ | localAddress _ | globalAddress _ | str _ | retNone => exact .quiet rfl
  | derefAddress _ ih | array _ _ _ ih | decay _ _ ih | addr _ _ ih | eval _ ih | block _ ih =>
    exact ih
  | @load _ _ _ _ _ w _ _ _ _ _ ih => exact ih.append (.quiet (by cases w <;> rfl))
  | assign _ _ _ _ _ _ ihl ihr => exact ihl.assign ihr
  | logical _ _ _ _ hs hg ihl ihr => exact ihl.logical ihr hs hg
  | arithmetic ho _ _ _ ihl ihr => exact ihl.arithmetic ho ihr
  | call _ _ hk _ _ hr ih => exact .call hk ih hr
  | argsNil | stmtsNil => exact .quiet rfl
  | argsCons _ _ ihr iha => exact ihr.argument iha
  | retSome _ ih => exact ih.append (.quiet rfl)
  | exit _ ih => exact ih.append (.quiet rfl)
  | ifThen _ _ hg ihc ihy => exact ihc.ifThen ihy hg
  | ifElse _ _ _ hs hg ihc ihy ihn => exact ihc.ifElse ihy ihn hs hg
  | loop _ _ hg hk ihc ihb => exact ihc.loop ihb hg hk
  | stmtsCons _ _ ihs ihr => exact ihs.append ihr

/-! ## Parts -/

/-- The words that the lowering counts at a part are the words that the code before it pushes. -/
theorem Part.depth {job job' : Job} {pre : Code} (hp : Part c job st pre job' st1) :
    8 * (st1.depth : Int) = 8 * st.depth + rise pre := by
  -- What a derivation in front of the part says about the stack.
  have key : ∀ {job : Job} {st st1 : State} {code : Code}, Emits c job st code st1 →
      8 * (st1.depth : Int) = 8 * st.depth + rise code := by
    intro job st st1 code h
    have hd := h.balanced.1
    have hr := h.balanced.2.rise_eq
    omega
  cases hp with
  | source _ hl | right _ hl =>
    have := key hl
    simp [Instr.rise]
    omega
  | skipped _ hl _ =>
    have := key hl
    simpa [Instr.rise] using this
  | arguments =>
    have := (lifts_padding st).1.rise_eq
    omega
  | argument h | tail h => exact key h
  | ifThenYes hc _ | ifElseYes hc _ | loopBody hc _ =>
    have := key hc
    simpa [Instr.rise] using this
  | ifElseNo hc hy _ =>
    have hv := key hc
    have hw := key hy
    simp [Instr.rise]
    omega
  | _ => simp

/-- At a part of the code the stack is as deep as the code before it says. -/
theorem Within.depth {job job' : Job} {pre : Code} (hw : Within c job st pre job' st1) :
    8 * (st1.depth : Int) = 8 * st.depth + rise pre := by
  induction hw with
  | whole => simp
  | part _ hp ih =>
    have := hp.depth
    rw [rise_append]
    omega

/-! ## Functions -/

/-- Storing parameters does not use the stack. -/
theorem balanced_storeParams {ps : List (Param × Register)}
    (h : storeParams c ps st = .ok (code, st1)) : Balanced 0 st code st1 := by
  induction ps generalizing st code with
  | nil =>
    simp only [storeParams, pure_ok] at h
    cases h
    exact .quiet rfl
  | cons p ps ih =>
    obtain ⟨offset, frame, n, w, later, st2, _, _, _, hl, heq⟩ := storeParams_cons_ok.mp h
    cases heq
    have hs : Code.quiet [.storeSlot p.2 offset w] := by cases w <;> rfl
    have hb : Balanced 0 st [.storeSlot p.2 offset w] { st with frame } :=
      ⟨rfl, .quiet hs (Int.le_refl _)⟩
    exact hb.append (ih hl)

/-- The first instruction of a function with a frame of `n` bytes. Heights count from the bottom of
that frame. -/
def entry (n : Int32) : Place :=
  ⟨0, -(8 + n.toInt)⟩

/-- Code that starts at the bottom of the frame, inside its function. -/
theorem lifts_function (n : Int32) (hl : Lifts 0 0 0 code) :
    ∃ floor, Lifts floor (entry n).height 0
      (List.flatten [Instr.enter n, code, Instr.returnZero]) := by
  obtain ⟨floor, h1, h2, h3⟩ : ∃ floor : Int,
      floor ≤ -(8 + n.toInt) ∧ floor ≤ -n.toInt ∧ floor ≤ 0 :=
    ⟨min (-(8 + n.toInt)) (min (-n.toInt) 0), by omega, by omega, by omega⟩
  refine ⟨floor, ?_⟩
  have hm : Code.quiet [.mov .rbp .rsp] := rfl
  have hz : Code.quiet Instr.returnZero := rfl
  have henter : Lifts floor (entry n).height 0
      ([.push .rbp] ++ ([.mov .rbp .rsp] ++ [.subRsp n])) := by
    refine .append (.push h1 rfl) (.append (.quiet hm ?_) (.plain rfl ?_ h3 ?_)) <;>
      simp only [entry, Instr.rise] <;> omega
  simpa [Instr.enter] using henter.append ((hl.lower h3).append (.quiet hz h3))

/-- **Stack discipline.** The frame of a function is a multiple of sixteen bytes. Every path of
control from its first instruction stays on instructions and finds the stack aligned at every call.
The code of every expression and statement in it stands in one piece; the words counted when its
lowering starts and ends are the words on the stack where the piece starts and ends, the two
numbers are equal (arguments apart, which leave one word each), and no path goes under the first in
the piece. -/
theorem stack_discipline {f : Function} {layout : Layout} {limits : Limits} {symbols : Symbols}
    {code : Code} (h : function f layout limits symbols = .ok code) :
    ∃ (c : Context) (params body : Code) (st0 st1 : State),
      c = ⟨layout, limits, symbols, f.pos⟩ ∧
      storeParams c (f.params.zip Register.arguments) {} = .ok (params, st0) ∧
      statements c (f.body.getD []) st0 = .ok (body, st1) ∧
      code = List.flatten [Instr.enter st1.frame.size, params ++ body, Instr.returnZero] ∧
      (16 : Int) ∣ st1.frame.size.toInt ∧
      (∀ p, Path code (entry st1.frame.size) p →
        (∃ pre post : Code, code = pre ++ post ∧ p.pos = pre.size) ∧
        ∀ pre post : Code, code = pre ++ .callRax :: post → p.pos = pre.size → 16 ∣ p.height) ∧
      ∀ {pre : Code} {job : Job} {st : State},
        Within c (.stmts (f.body.getD [])) st0 pre job st →
        ∃ (start piece post : Code) (st' : State), job.lower c st = .ok (piece, st') ∧
          start = Instr.enter st1.frame.size ++ params ++ pre ∧ code = start ++ piece ++ post ∧
          st'.depth = st.depth + job.pushes ∧
          ∀ p, Path code (entry st1.frame.size) p →
            (p.pos = start.size → p.height = 8 * st.depth) ∧
            (p.pos = start.size + piece.size → p.height = 8 * st'.depth) ∧
            (start.size ≤ p.pos → p.pos ≤ start.size + piece.size → 8 * st.depth ≤ p.height) := by
  obtain ⟨inner, st1, hbody, hcode⟩ := function_ok.mp h
  obtain ⟨params, st0, body, _, _, _, hparams, hstmts, heq⟩ := body_ok.mp hbody
  cases heq
  have hp := balanced_storeParams hparams
  have hemits : Emits _ (.stmts (f.body.getD [])) st0 body st1 := emits_iff.mpr hstmts
  have hd0 : st0.depth = 0 := hp.1
  obtain ⟨floor, hl⟩ := lifts_function st1.frame.size (hp.append hemits.balanced).2
  rw [← hcode] at hl
  have hj : JumpsLand code := fun pre i post disp hc hd => by
    simpa using (hl.sound.fits hc).lands disp (by simpa using hd)
  -- The height at a position is that of the code before it.
  have hat : ∀ p, Path code (entry st1.frame.size) p → At code (entry st1.frame.size).height p :=
    fun p hpath => (At.start code _).path hj hpath
  refine ⟨_, params, body, st0, st1, rfl, hparams, hstmts, hcode, st1.frame.size_aligned, ?_, ?_⟩
  · intro p hpath
    refine ⟨?_, fun pre post hc hpos => ?_⟩
    · obtain ⟨pre, post, hc, hpos, _⟩ := hat p hpath
      exact ⟨pre, post, hc, hpos⟩
    · rw [(hat p hpath).height_eq hc hpos]
      simpa using (hl.sound.fits hc).aligned rfl
  · intro pre job st hw
    obtain ⟨piece, st', hpiece, post, hpost⟩ := hw.emits hemits
    have hc : code = (Instr.enter st1.frame.size ++ params ++ pre) ++ piece ++
        (post ++ Instr.returnZero) := by
      simp [hcode, ← hpost]
    have hstart : (entry st1.frame.size).height +
        rise (Instr.enter st1.frame.size ++ params ++ pre) = 8 * st.depth := by
      have hr := hp.2.rise_eq
      have hw' := hw.depth
      simp [entry, Instr.enter, Instr.rise]
      simp at hr
      omega
    refine ⟨_, piece, _, st', hpiece.lower_eq, rfl, hc, hpiece.balanced.1, fun p hpath => ?_⟩
    have hb := hpiece.balanced
    have hr := hb.2.rise_eq
    refine ⟨fun hpos => ?_, fun hpos => ?_, fun h1 h2 => ?_⟩
    · rw [(hat p hpath).height_eq (hc.trans (List.append_assoc ..)) hpos, hstart]
    · rw [(hat p hpath).height_eq hc (by rw [hpos, size_append _ piece]; omega), rise_append,
        hb.1]
      omega
    · obtain ⟨a, b, hab, hpos, hheight⟩ := hat p hpath
      obtain ⟨x, y, hxy, rfl⟩ := split_between (hab.symm.trans hc) (by omega) (by omega)
      have := hb.2.sound.floor_le (by simp) hxy
      rw [hheight, rise_append]
      simp at this
      omega

/-- The function `int f(int n) { return 1 + g(n, g(3, 4)); }`, whose calls are lowered with one word
on the stack and inside each other. -/
def nestedCall : Function where
  name := "f"
  params := [⟨"n", .int, 0⟩]
  ret := .int
  pos := 0
  locals := []
  file := ""
  source := ""
  body :=
    let inner : Expr := .call "g" 0 [.int 3 0, .int 4 0] .int
    let outer : Expr := .call "g" 0 [.ident "n" 0 (.stack 0) .int, inner] .int
    some [.ret (some (.binary .add 0 (.int 1 0) outer .int)) 0]

/-- Both calls of `nestedCall` find the stack aligned. -/
theorem stack_discipline_nestedCall :
    ∃ code n, function nestedCall {} {} { functions := ⟨[("g", 0x1000)]⟩ } = .ok code ∧
      code.count .callRax = 2 ∧
      ∀ p, Path code (entry n) p →
        ∀ pre post : Code, code = pre ++ .callRax :: post → p.pos = pre.size → 16 ∣ p.height := by
  have h : function nestedCall {} {} { functions := ⟨[("g", 0x1000)]⟩ } = .ok _ := rfl
  obtain ⟨_, _, _, _, st1, _, _, _, _, _, hpath, _⟩ := stack_discipline h
  exact ⟨_, st1.frame.size, h, by decide, fun p hp => (hpath p hp).2⟩

end Lowering

end DirectC
