/-
# What lowering complains about

`Complains P x` says that `P` holds of every complaint of the step `x`. A step that is put together
from others complains about what they complain about, so a property of complaints is followed
through lowering by one rule for each way to put steps together.
-/
import DirectC.Lowering.Statement

namespace DirectC

namespace Lowering

/-- **What a step complains about.** -/
def Complains {α : Type} (P : Complaint → Prop) (x : Lower α) : Prop :=
  ∀ st c, x st = .error c → P c

section Steps

variable {α β : Type} {P : Complaint → Prop} {x : Lower α} {f : α → Lower β}

/-- A step may be followed by one that is known to follow its success. -/
theorem Complains.follow (hx : Complains P x)
    (hf : ∀ a st st', x st = .ok (a, st') → Complains P (f a)) : Complains P (x >>= f) := by
  intro st c h
  change StateT.bind x f st = _ at h
  unfold StateT.bind at h
  cases hr : x st with
  | error c' =>
    rw [hr] at h
    cases h
    exact hx st c hr
  | ok r =>
    rw [hr] at h
    exact hf r.1 st r.2 hr r.2 c h

/-- A step may be followed by any step that complains so. -/
theorem Complains.bind (hx : Complains P x) (hf : ∀ a, Complains P (f a)) :
    Complains P (x >>= f) :=
  hx.follow fun a _ _ _ => hf a

theorem Complains.pure {a : α} : Complains P (Pure.pure a : Lower α) :=
  fun _ _ h => by cases h

theorem Complains.get : Complains P (get : Lower State) :=
  fun _ _ h => by cases h

theorem Complains.modify {g : State → State} : Complains P (modify g : Lower PUnit) :=
  fun _ _ h => by cases h

theorem Complains.fail {fault : Fault} {pos : Int} (h : P ⟨fault, pos⟩) :
    Complains P (fail fault pos : Lower α) :=
  fun _ _ heq => by cases heq; exact h

/-- A question to the layout complains as the layout does. -/
theorem Complains.located {pos : Int} {r : Except Layout.Fault α}
    (h : ∀ fault, r = .error fault → P ⟨.layout fault, pos⟩) : Complains P (located pos r) := by
  cases r with
  | ok a => exact .pure
  | error fault => exact .fail (h fault rfl)

theorem complains_push : Complains P push :=
  .bind .modify fun _ => .pure

theorem complains_pop {r : Register} : Complains P (pop r) :=
  .bind .modify fun _ => .pure

/-- Taking arguments from the stack never fails. -/
theorem complains_popArguments (rs : List Register) : Complains P (popArguments rs) := by
  induction rs with
  | nil => exact .pure
  | cons r rs ih => exact .bind complains_pop fun _ => .bind ih fun _ => .pure

/-! ## Jumps and calls -/

variable {c : Context} {pos : Int}

/-- A distance that is out of reach is complained about, and nothing else. -/
theorem complains_distance {disp : Int}
    (h : ∀ distance limit, P ⟨.jump distance limit, pos⟩) : Complains P (distance c disp pos) := by
  unfold distance
  dsimp only
  split
  · exact .fail (h _ _)
  · exact .pure

/-- A jump complains about its distance, and about nothing else. -/
theorem complains_jump {disp : Int} (h : ∀ distance limit, P ⟨.jump distance limit, pos⟩) :
    Complains P (jump c disp pos) :=
  .bind (complains_distance h) fun _ => .pure

/-- A jump on a condition complains about its distance, and about nothing else. -/
theorem complains_jumpIf {cond : Condition} {disp : Int}
    (h : ∀ distance limit, P ⟨.jump distance limit, pos⟩) :
    Complains P (jumpIf c cond disp pos) :=
  .bind (complains_distance h) fun _ => .pure

/-- A logical operator has jumps, and complains as its sides do. -/
theorem complains_logical {op : BinaryOp} {left right : Lower Code}
    (h : ∀ distance limit, P ⟨.jump distance limit, pos⟩) (hl : Complains P left)
    (hr : Complains P right) : Complains P (logical c op pos left right) :=
  .bind hl fun _ => .bind hr fun _ => .bind (complains_jump h) fun _ =>
    .bind (complains_jumpIf h) fun _ => .pure

/-- A call complains about too many arguments, about a function without an address, about the size
of what is returned, and as its arguments do. -/
theorem complains_call {name : Bytes} {count : Nat} {type : CType} {arguments : Lower Code}
    (hcount : ∀ limit, P ⟨.callArguments name count limit, pos⟩)
    (hname : P ⟨.undefinedFunction name, pos⟩)
    (hsize : Complains P (located pos (c.layout.size type))) (ha : Complains P arguments) :
    Complains P (call c name pos count type arguments) := by
  unfold call
  dsimp only
  split
  · exact .follow (.fail (hcount _)) fun _ _ _ h => by cases h
  · split
    · exact .fail hname
    · refine .bind .get fun st => ?_
      cases hp : st.depth % 2 == 1 <;> cases hv : type.isVoid <;>
        simp only [Bool.false_eq_true, if_false, if_true]
      · exact .bind ha fun _ => .bind (complains_popArguments _) fun _ => .bind hsize fun _ =>
          .bind .pure fun _ => .pure
      · exact .bind ha fun _ => .bind (complains_popArguments _) fun _ => .bind .pure fun _ => .pure
      · exact .bind .modify fun _ => .bind ha fun _ => .bind (complains_popArguments _) fun _ =>
          .bind .modify fun _ => .bind hsize fun _ => .bind .pure fun _ => .pure
      · exact .bind .modify fun _ => .bind ha fun _ => .bind (complains_popArguments _) fun _ =>
          .bind .modify fun _ => .bind .pure fun _ => .pure

/-- Arguments complain as each of them does. -/
theorem complains_lowerArguments {args : List Expr}
    (h : ∀ a ∈ args, Complains P (lower c .value a)) : Complains P (lowerArguments c args) := by
  induction args with
  | nil =>
    rw [lowerArguments]
    exact .pure
  | cons a args ih =>
    rw [lowerArguments]
    exact .bind (ih fun b hb => h b (by simp [hb])) fun _ => .bind (h a (by simp)) fun _ =>
      .bind complains_push fun _ => .pure

/-! ## Statements -/

/-- A condition complains as its value does. -/
theorem complains_condition {e : Expr} (h : Complains P (value c e)) :
    Complains P (condition c e) :=
  .bind h fun _ => .pure

/-- A branch has a jump, and complains as its parts do. -/
theorem complains_ifThen {cond yes : Lower Code}
    (h : ∀ distance limit, P ⟨.jump distance limit, pos⟩) (hc : Complains P cond)
    (hy : Complains P yes) : Complains P (ifThen c pos cond yes) :=
  .bind hc fun _ => .bind hy fun _ => .bind (complains_jumpIf h) fun _ => .pure

/-- A branch with an alternative has two jumps, and complains as its parts do. -/
theorem complains_ifElse {cond yes no : Lower Code}
    (h : ∀ distance limit, P ⟨.jump distance limit, pos⟩) (hc : Complains P cond)
    (hy : Complains P yes) (hn : Complains P no) : Complains P (ifElse c pos cond yes no) :=
  .bind hc fun _ => .bind hy fun _ => .bind hn fun _ => .bind (complains_jump h) fun _ =>
    .bind (complains_jumpIf h) fun _ => .pure

/-- A loop has two jumps, and complains as its parts do. -/
theorem complains_loop {cond body : Lower Code}
    (h : ∀ distance limit, P ⟨.jump distance limit, pos⟩) (hc : Complains P cond)
    (hb : Complains P body) : Complains P (loop c pos cond body) :=
  .bind hc fun _ => .bind hb fun _ => .bind (complains_jumpIf h) fun _ =>
    .bind (complains_jump h) fun _ => .pure

/-- Statements complain as each of them does. -/
theorem complains_statements {items : List Stmt}
    (h : ∀ s ∈ items, Complains P (statement c s)) : Complains P (statements c items) := by
  induction items with
  | nil =>
    rw [statements]
    exact .pure
  | cons s items ih =>
    rw [statements]
    exact .bind (h s (by simp)) fun _ => .bind (ih fun t ht => h t (by simp [ht])) fun _ => .pure

/-! ## Functions -/

/-- A body complains about too many parameters, and as its statements do. -/
theorem complains_body {f : Function}
    (hcount : ∀ count limit, P ⟨.parameters f.name count limit, c.pos⟩)
    (hparams : Complains P (storeParams c (f.params.zip Register.arguments)))
    (hbody : Complains P (statements c (f.body.getD []))) : Complains P (body c f) := by
  unfold body
  dsimp only
  split
  · exact .follow (.fail (hcount _ _)) fun _ _ _ h => by cases h
  · exact .bind hparams fun _ => .bind hbody fun _ => .pure

/-- What a function is refused with is a complaint about its body, reported against its file. -/
theorem function_complaint {f : Function} {layout : Layout} {limits : Limits} {symbols : Symbols}
    {d : Diagnostic} (h : function f layout limits symbols = .error d)
    (hbody : Complains P (body ⟨layout, limits, symbols, f.pos⟩ f)) :
    ∃ complaint, P complaint ∧ d = complaint.diagnostic f.file f.source := by
  unfold function at h
  split at h
  · cases h
  · rename_i complaint hb
    cases h
    exact ⟨complaint, hbody _ _ hb, rfl⟩

end Steps

end Lowering

end DirectC
