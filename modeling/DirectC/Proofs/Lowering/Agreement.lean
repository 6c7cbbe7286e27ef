/-
# Lowering under two symbol tables

Tables that know the same functions and variables and as many strings lead to the same outcome:
lowering fails under both with the same complaint, or yields code that differs in the operands of
address loads only. Those have a fixed width, so the sizes agree, and so does every jump.
-/
import DirectC.Proofs.Basic
import DirectC.Proofs.Lowering.Derivation
import DirectC.Proofs.Machine.Flow
import Mathlib.Data.List.Forall2

namespace DirectC

/-! ## Code that differs in addresses -/

/-- Instructions that are the same up to the address that they load into `rax` or `rdi`. -/
inductive Instr.Alike : Instr → Instr → Prop where
  | same (i : Instr) : Alike i i
  | address {r : Register} (hr : r = .rax ∨ r = .rdi) (a b : UInt32) :
      Alike (.movAddr r a) (.movAddr r b)

/-- An address takes four bytes, whichever it is. -/
theorem Instr.Alike.size_eq {i j : Instr} (h : Alike i j) : i.size = j.size := by
  cases h with
  | same => rfl
  | address hr a b =>
    simp only [size, encode, word, List.length_append, Bytes.length_littleEndian]

/-- Code that is the same up to the addresses it loads. -/
abbrev Code.Alike : Code → Code → Prop :=
  List.Forall₂ Instr.Alike

namespace Code.Alike

theorem refl (c : Code) : Alike c c :=
  List.forall₂_same.mpr fun i _ => .same i

/-- So code that differs in addresses alone has the same size. -/
theorem size_eq {a b : Code} (h : Alike a b) : a.size = b.size := by
  induction h with
  | nil => rfl
  | cons hi _ ih => simp [hi.size_eq, ih]

/-- Alike parts make alike code. -/
theorem append {a b a' b' : Code} (h : Alike a b) (h' : Alike a' b') :
    Alike (a ++ a') (b ++ b') :=
  List.rel_append h h'

/-- Any number of alike parts make alike code. -/
theorem flatten {as bs : List Code} (h : List.Forall₂ Alike as bs) :
    Alike as.flatten bs.flatten := by
  induction h with
  | nil => exact .nil
  | cons h _ ih => exact h.append ih

end Code.Alike

/-- Symbols that know the same names, and equally many strings. -/
structure Symbols.Alike (a b : Symbols) : Prop where
  functions : ∀ name, (a.functions.get? name).isSome = (b.functions.get? name).isSome
  globals : ∀ name, (a.globals.get? name).isSome = (b.globals.get? name).isSome
  strings : a.strings.length = b.strings.length

theorem Symbols.Alike.refl (a : Symbols) : a.Alike a :=
  ⟨fun _ => rfl, fun _ => rfl, rfl⟩

namespace Lowering

/-! ## Steps that agree -/

/-- **Two steps agree**: from every state both fail with the same complaint, or both succeed with
related results and the same state. -/
def Agree {α : Type} (R : α → α → Prop) (x y : Lower α) : Prop :=
  ∀ st, match x st, y st with
    | .ok (a, s), .ok (b, t) => R a b ∧ s = t
    | .error c, .error d => c = d
    | _, _ => False

section Steps

variable {α β : Type} {R : α → α → Prop} {S : β → β → Prop} {x y : Lower α} {f g : α → Lower β}

/-- Steps that agree may be followed by steps that agree. -/
theorem Agree.bind (hx : Agree R x y) (hf : ∀ a b, R a b → Agree S (f a) (g b)) :
    Agree S (x >>= f) (y >>= g) := by
  intro st
  have hx := hx st
  show match StateT.bind x f st, StateT.bind y g st with
    | .ok (a, s), .ok (b, t) => S a b ∧ s = t
    | .error c, .error d => c = d
    | _, _ => False
  unfold StateT.bind
  -- Both fail with one complaint, or both go on from one state.
  cases hxs : x st with
  | error c =>
    cases hys : y st with
    | error d =>
      rw [hxs, hys] at hx
      exact hx
    | ok r =>
      rw [hxs, hys] at hx
      exact hx.elim
  | ok r =>
    cases hys : y st with
    | error d =>
      rw [hxs, hys] at hx
      exact hx.elim
    | ok r' =>
      rw [hxs, hys] at hx
      obtain ⟨hr, hst⟩ := hx
      have hf := hf _ _ hr r'.2
      rw [← hst] at hf
      simpa [Bind.bind, Except.bind, ← hst] using hf

theorem Agree.refl (hR : ∀ a, R a a) (x : Lower α) : Agree R x x := by
  intro st
  cases x st with
  | error c => rfl
  | ok r => exact ⟨hR r.1, rfl⟩

theorem Agree.pure {a b : α} (h : R a b) : Agree R (Pure.pure a) (Pure.pure b) :=
  fun _ => ⟨h, rfl⟩

theorem Agree.fail {fault : Fault} {pos : Int} :
    Agree R (fail fault pos : Lower α) (fail fault pos) :=
  fun _ => rfl

/-- Nothing follows a failure. -/
theorem Agree.stop {fault : Fault} {pos : Int} :
    Agree S ((Lowering.fail fault pos : Lower α) >>= f) (Lowering.fail fault pos >>= g) :=
  .bind (R := fun _ _ => False) .fail fun _ _ h => h.elim

/-- Steps agree that branch on the same condition. -/
theorem Agree.ite {p : Prop} [Decidable p] {x' y' : Lower α} (hx : Agree R x y)
    (hx' : Agree R x' y') : Agree R (if p then x else x') (if p then y else y') := by
  split
  · exact hx
  · exact hx'

/-- A step that is the same under both tables. -/
theorem Agree.same (x : Lower α) : Agree (· = ·) x x :=
  .refl (fun _ => rfl) x

end Steps

/-! ## Places and operators -/

variable {c d : Context}

/-- Contexts that differ in alike symbols. -/
structure Context.Alike (c d : Context) : Prop where
  layout : c.layout = d.layout
  limits : c.limits = d.limits
  pos : c.pos = d.pos
  symbols : c.symbols.Alike d.symbols

/-- Steps that yield alike code. -/
abbrev AgreeCode : Lower Code → Lower Code → Prop :=
  Agree Code.Alike

theorem agree_refl (x : Lower Code) : AgreeCode x x :=
  Agree.refl Code.Alike.refl x

/-- A local variable is addressed in the same way, a global one by another address. -/
theorem agree_variableAddress (hc : c.Alike d) (name : Bytes) (pos : Int) (storage : Storage)
    (type : CType) :
    AgreeCode (variableAddress c name pos storage type)
      (variableAddress d name pos storage type) := by
  cases storage with
  | stack id =>
    unfold variableAddress
    rw [hc.layout]
    exact agree_refl _
  | static =>
    have hg := hc.symbols.globals name
    unfold variableAddress
    cases ha : c.symbols.globals.get? name <;> cases hb : d.symbols.globals.get? name <;>
      simp only [ha, hb, Option.isSome_none, Option.isSome_some, Bool.false_eq_true,
        Bool.true_eq_false] at hg
    · exact agree_refl _
    · exact .pure (.cons (.address (.inr rfl) _ _) .nil)

/-- A string has an address under both tables or under none. -/
theorem isSome_stringAt (hc : c.symbols.Alike d.symbols) (index : Int) :
    (stringAt? c.symbols.strings index).isSome = (stringAt? d.symbols.strings index).isSome := by
  unfold stringAt?
  by_cases h : index < 0
  · simp [h]
  · have hs := hc.strings
    by_cases hlt : index.toNat < c.symbols.strings.length
    · simp [h, hlt, hs ▸ hlt]
    · have hlt' : ¬ index.toNat < d.symbols.strings.length := hs ▸ hlt
      simp only [h, if_false, List.getElem?_eq_none (Nat.le_of_not_lt hlt),
        List.getElem?_eq_none (Nat.le_of_not_lt hlt')]

/-- The address of a string is found under both tables or under none. -/
theorem agree_stringAddress (hc : c.Alike d) (index pos : Int) :
    AgreeCode (stringAddress c index pos) (stringAddress d index pos) := by
  have hs := isSome_stringAt hc.symbols index
  unfold stringAddress
  cases ha : stringAt? c.symbols.strings index <;> cases hb : stringAt? d.symbols.strings index <;>
    simp only [ha, hb, Option.isSome_none, Option.isSome_some, Bool.false_eq_true,
      Bool.true_eq_false] at hs
  · exact agree_refl _
  · exact .pure (.cons (.address (.inr rfl) _ _) .nil)

/-- Loads do not depend on where they load from. -/
theorem agree_load (hc : c.Alike d) {a b : Code} (h : a.Alike b) (pos : Int) (type : CType) :
    AgreeCode (load c a pos type) (load d b pos type) := by
  unfold load
  rw [hc.layout]
  refine .bind (.same _) fun size _ heq => ?_
  subst heq
  split
  · exact .pure (h.append (.refl _))
  · exact agree_refl _

/-- Jumps depend on their distances alone. -/
theorem agree_jump (hc : c.Alike d) (disp pos : Int) :
    AgreeCode (jump c disp pos) (jump d disp pos) := by
  unfold jump distance
  rw [hc.limits]
  exact agree_refl _

/-- Jumps on conditions depend on their distances alone. -/
theorem agree_jumpIf (hc : c.Alike d) (cond : Condition) (disp pos : Int) :
    AgreeCode (jumpIf c cond disp pos) (jumpIf d cond disp pos) := by
  unfold jumpIf distance
  rw [hc.limits]
  exact agree_refl _

/-- Assignments agree if the address and the value do. -/
theorem agree_assign (hc : c.Alike d) (op : BinaryOp) (pos : Int) (type : CType)
    {target target' value value' : Lower Code} (ht : AgreeCode target target')
    (hv : AgreeCode value value') :
    AgreeCode (assign c op pos type target value) (assign d op pos type target' value') := by
  unfold assign
  rw [hc.layout]
  refine .bind ht fun a a' ha => .bind (.same _) fun s _ heq => .bind hv fun r r' hr => ?_
  subst heq
  refine .bind (.same _) fun size _ heq => ?_
  subst heq
  cases Width.ofSize? size with
  | none =>
    dsimp only
    split
    · exact agree_refl _
    · exact agree_refl _
    · exact .stop
  | some w =>
    -- Whatever updates the value, the parts around it are alike.
    have stored : ∀ u : Code, AgreeCode
        (do
          let restore ← pop .rax
          return List.flatten [a, s, r, u, restore, [.storeRdi w], cutTo type])
        (do
          let restore ← pop .rax
          return List.flatten [a', s, r', u, restore, [.storeRdi w], cutTo type]) := by
      intro u
      refine .bind (.same _) fun p _ heq => .pure ?_
      subst heq
      exact .flatten (.cons ha (.cons (.refl _) (.cons hr (.cons (.refl _) (.cons (.refl _)
        (.cons (.refl _) (.cons (.refl _) .nil)))))))
    dsimp only
    split
    · exact stored _
    · exact stored _
    · exact .stop

/-- Logical operators agree if their sides do: the distances are the same, as sizes are. -/
theorem agree_logical (hc : c.Alike d) (op : BinaryOp) (pos : Int)
    {left left' right right' : Lower Code} (hl : AgreeCode left left')
    (hr : AgreeCode right right') :
    AgreeCode (logical c op pos left right) (logical d op pos left' right') := by
  unfold logical
  refine .bind hl fun l l' hl => .bind hr fun r r' hr => ?_
  have hr' := hr.append (.refl [.testRdi, .setAl .notEqual, .movEdiAl])
  refine .bind (agree_jump hc _ _) fun skip skip' hskip => ?_
  rw [hr'.size_eq, hskip.size_eq]
  refine .bind (agree_jumpIf hc _ _ _) fun guard guard' hguard => .pure ?_
  exact .flatten (.cons (hl.append (.refl _)) (.cons hguard (.cons hr' (.cons hskip
    (.cons (.refl _) .nil)))))

/-- Arithmetic agrees if its operands do. -/
theorem agree_arithmetic (op : BinaryOp) (pos : Int) (type : CType)
    {left left' right right' : Lower Code} (hl : AgreeCode left left')
    (hr : AgreeCode right right') :
    AgreeCode (arithmetic op pos type left right) (arithmetic op pos type left' right') := by
  unfold arithmetic
  refine .bind hl fun l l' hl => .bind (.same _) fun s _ heq => .bind hr fun r r' hr =>
    .bind (.same _) fun t _ heq' => ?_
  subst heq
  subst heq'
  split
  · exact agree_refl _
  · refine .bind (.same _) fun p _ heq => .bind (.same _) fun q _ heq' => .pure ?_
    subst heq
    subst heq'
    exact .flatten (.cons hl (.cons (.refl _) (.cons hr (.cons (.refl _) (.cons (.refl _)
      (.cons (.refl _) (.cons (.refl _) (.cons (.refl _) .nil))))))))

/-- The code of a call differs in its arguments and its target. -/
theorem alike_call {pad args args' registers unpad result : Code} {target target' : UInt32}
    (h : args.Alike args') :
    Code.Alike
      (List.flatten [pad, args, registers, [.movAddr .rax target, .callRax], unpad, result])
      (List.flatten [pad, args', registers, [.movAddr .rax target', .callRax], unpad, result]) :=
  .flatten (.cons (.refl _) (.cons h (.cons (.refl _)
    (.cons (.cons (.address (.inl rfl) _ _) (Code.Alike.refl _)) (.cons (.refl _) (.cons (.refl _) .nil))))))

/-- Calls agree if their arguments do: a function is found under both tables or under none. -/
theorem agree_call (hc : c.Alike d) (name : Bytes) (pos : Int) (count : Nat) (type : CType)
    {arguments arguments' : Lower Code} (ha : AgreeCode arguments arguments') :
    AgreeCode (call c name pos count type arguments) (call d name pos count type arguments') := by
  have hf := hc.symbols.functions name
  unfold call
  rw [hc.limits, hc.layout]
  refine .ite .stop ?_
  -- Both tables know the name or neither does, and with it both calls get as far.
  cases hx : c.symbols.functions.get? name <;> cases hy : d.symbols.functions.get? name <;>
    simp only [hx, hy, Option.isSome_none, Option.isSome_some, Bool.false_eq_true,
      Bool.true_eq_false] at hf
  · exact agree_refl _
  · refine .bind (.same _) fun st _ heq => ?_
    subst heq
    cases hp : st.depth % 2 == 1 <;> cases hv : type.isVoid
    · refine .bind ha fun args args' ha => .bind (.same _) fun registers _ heq =>
        .bind (.same _) fun size _ heq' => .pure ?_
      subst heq
      subst heq'
      exact alike_call ha
    · refine .bind ha fun args args' ha => .bind (.same _) fun registers _ heq => .pure ?_
      subst heq
      exact alike_call ha
    · refine .bind (.same _) fun _ _ _ => .bind ha fun args args' ha =>
        .bind (.same _) fun registers _ heq => .bind (.same _) fun _ _ _ =>
          .bind (.same _) fun size _ heq' => .pure ?_
      subst heq
      subst heq'
      exact alike_call ha
    · refine .bind (.same _) fun _ _ _ => .bind ha fun args args' ha =>
        .bind (.same _) fun registers _ heq => .bind (.same _) fun _ _ _ => .pure ?_
      subst heq
      exact alike_call ha

/-! ## Expressions -/

/-- **Expressions agree.** -/
theorem agree_lower (hc : c.Alike d) :
    (∀ want e, AgreeCode (lower c want e) (lower d want e)) ∧
      ∀ args, AgreeCode (lowerArguments c args) (lowerArguments d args) := by
  -- The cases stand in the order of the equations of `lower`.
  apply lower.mutual_induct
  case case1 =>
    intro want v pos type hw
    simp only [lower, hw]
    exact agree_refl _
  case case2 =>
    intro want name pos storage type hw
    simp only [lower, hw]
    exact .bind (agree_variableAddress hc _ _ _ _) fun _ _ h => agree_load hc h _ _
  case case3 =>
    intro want name pos storage type hw
    simp only [lower, hw]
    exact agree_variableAddress hc _ _ _ _
  case case4 =>
    intro want index v pos type
    simp only [lower]
    exact agree_stringAddress hc _ _
  case case5 | case6 =>
    intros
    rename_i hw ih
    simp only [lower, hw]
    exact ih
  case case7 =>
    intro want pos operand type hw ih
    simp only [lower, hw]
    exact .bind ih fun _ _ h => agree_load hc h _ _
  case case8 =>
    intro want pos operand type hw ih
    simp only [lower, hw]
    exact ih
  case case9 | case10 | case11 =>
    intro want pos left right type hw ihl ihr
    simp only [lower, hw]
    exact agree_assign hc _ _ _ ihl ihr
  case case12 | case13 =>
    intro want pos left right type hw ihl ihr
    simp only [lower, hw]
    exact agree_logical hc _ _ ihl ihr
  case case14 =>
    intro want pos left right type op h1 h2 h3 h4 h5 hw ihl ihr
    simp only [lower, hw]
    exact agree_arithmetic _ _ _ ihl ihr
  case case15 =>
    intro want name pos args type hw ih
    simp only [lower, hw]
    exact agree_call hc _ _ _ _ ih
  case case16 =>
    intro want e h1 h2 h3 h4 h5 h6 h7 h8 hw
    rw [lower.eq_16 c want e h1 h2 h3 h4 h5 h6 h7 h8 hw,
      lower.eq_16 d want e h1 h2 h3 h4 h5 h6 h7 h8 hw]
    exact agree_refl _
  case case17 =>
    intro want e h1 h2 h3 hw
    rw [lower.eq_17 c want e h1 h2 h3 hw, lower.eq_17 d want e h1 h2 h3 hw]
    exact agree_refl _
  case case18 =>
    rw [lowerArguments, lowerArguments]
    exact agree_refl _
  case case19 =>
    intro arg rest ihr iha
    rw [lowerArguments, lowerArguments]
    refine .bind ihr fun l l' hl => .bind iha fun a a' ha => .bind (.same _) fun p _ heq => .pure ?_
    subst heq
    exact .flatten (.cons hl (.cons ha (.cons (.refl _) .nil)))

/-! ## Statements -/

/-- Conditions agree, as expressions do. -/
theorem agree_condition (hc : c.Alike d) (e : Expr) :
    AgreeCode (condition c e) (condition d e) :=
  .bind ((agree_lower hc).1 _ _) fun _ _ h => .pure (h.append (.refl _))

/-- A branch agrees if its condition and its body do. -/
theorem agree_ifThen (hc : c.Alike d) (pos : Int) {cond cond' yes yes' : Lower Code}
    (hcond : AgreeCode cond cond') (hyes : AgreeCode yes yes') :
    AgreeCode (ifThen c pos cond yes) (ifThen d pos cond' yes') := by
  refine .bind hcond fun v v' hv => .bind hyes fun y y' hy => ?_
  rw [hy.size_eq]
  exact .bind (agree_jumpIf hc _ _ _) fun g g' hg =>
    .pure (.flatten (.cons hv (.cons hg (.cons hy .nil))))

/-- A branch with an alternative agrees if its three parts do. -/
theorem agree_ifElse (hc : c.Alike d) (pos : Int) {cond cond' yes yes' no no' : Lower Code}
    (hcond : AgreeCode cond cond') (hyes : AgreeCode yes yes') (hno : AgreeCode no no') :
    AgreeCode (ifElse c pos cond yes no) (ifElse d pos cond' yes' no') := by
  refine .bind hcond fun v v' hv => .bind hyes fun y y' hy => .bind hno fun z z' hz => ?_
  rw [hz.size_eq]
  refine .bind (agree_jump hc _ _) fun s s' hs => ?_
  rw [hy.size_eq, hs.size_eq]
  exact .bind (agree_jumpIf hc _ _ _) fun g g' hg =>
    .pure (.flatten (.cons hv (.cons hg (.cons hy (.cons hs (.cons hz .nil))))))

/-- A loop agrees if its condition and its body do. -/
theorem agree_loop (hc : c.Alike d) (pos : Int) {cond cond' body body' : Lower Code}
    (hcond : AgreeCode cond cond') (hbody : AgreeCode body body') :
    AgreeCode (loop c pos cond body) (loop d pos cond' body') := by
  refine .bind hcond fun v v' hv => .bind hbody fun b b' hb => ?_
  rw [hb.size_eq]
  refine .bind (agree_jumpIf hc _ _ _) fun g g' hg => ?_
  rw [hv.size_eq, hg.size_eq]
  exact .bind (agree_jump hc _ _) fun k k' hk =>
    .pure (.flatten (.cons hv (.cons hg (.cons hb (.cons hk .nil)))))

/-- **Statements agree.** -/
theorem agree_statement (hc : c.Alike d) :
    (∀ s, AgreeCode (statement c s) (statement d s)) ∧
      ∀ ss, AgreeCode (statements c ss) (statements d ss) := by
  have hv : ∀ e, AgreeCode (value c e) (value d e) := fun e => (agree_lower hc).1 _ e
  -- Statements have no addresses of their own: all of them stand in expressions.
  apply statement.mutual_induct
  case case1 =>
    intro e
    rw [statement, statement]
    exact hv e
  case case2 =>
    intro pos
    rw [statement, statement]
    exact agree_refl _
  case case3 =>
    intro e pos
    rw [statement, statement]
    exact .bind (hv e) fun _ _ h => .pure (h.append (.refl _))
  case case4 =>
    intro e pos
    rw [statement, statement]
    exact .bind (hv e) fun _ _ h => .pure (h.append (.refl _))
  case case5 =>
    intro cond yes ih
    rw [statement, statement]
    exact agree_ifThen hc _ (agree_condition hc cond) ih
  case case6 =>
    intro cond yes no ihy ihn
    rw [statement, statement]
    exact agree_ifElse hc _ (agree_condition hc cond) ihy ihn
  case case7 =>
    intro cond body ih
    rw [statement, statement]
    exact agree_loop hc _ (agree_condition hc cond) ih
  case case8 =>
    intro items ih
    rw [statement, statement]
    exact ih
  case case9 =>
    rw [statement, statement, hc.pos]
    exact agree_refl _
  case case10 =>
    rw [statements, statements]
    exact agree_refl _
  case case11 =>
    intro s rest ihs ihr
    rw [statements, statements]
    exact .bind ihs fun _ _ hs => .bind ihr fun _ _ hr => .pure (hs.append hr)

/-! ## Functions -/

/-- Parameters are stored without any address. -/
theorem storeParams_eq (hc : c.Alike d) (ps : List (Param × Register)) :
    storeParams c ps = storeParams d ps := by
  induction ps with
  | nil => rfl
  | cons p ps ih => simp only [storeParams, hc.layout, hc.pos, ih]

/-- **The bodies of functions agree.** -/
theorem agree_body (hc : c.Alike d) (f : Function) : AgreeCode (body c f) (body d f) := by
  unfold body
  rw [hc.limits, hc.pos, storeParams_eq hc]
  dsimp only
  split
  · exact .stop
  · refine .bind (.same _) fun p _ heq => .bind ((agree_statement hc).2 _) fun s s' hs => .pure ?_
    subst heq
    exact (Code.Alike.refl _).append hs

/-- **Functions agree.** Under alike symbols a function is refused with the same diagnostic, or has
code that differs in the addresses it loads. -/
theorem agree_function (f : Function) (layout : Layout) (limits : Limits) {a b : Symbols}
    (h : a.Alike b) :
    (∃ d, function f layout limits a = .error d ∧ function f layout limits b = .error d) ∨
      ∃ x y, function f layout limits a = .ok x ∧ function f layout limits b = .ok y ∧
        x.Alike y := by
  -- The two contexts differ in their tables alone.
  have hb := agree_body (c := ⟨layout, limits, a, f.pos⟩) (d := ⟨layout, limits, b, f.pos⟩)
    ⟨rfl, rfl, rfl, h⟩ f {}
  cases hx : body ⟨layout, limits, a, f.pos⟩ f {} with
  | error complaint =>
    cases hy : body ⟨layout, limits, b, f.pos⟩ f {} with
    | error complaint' =>
      rw [hx, hy] at hb
      subst hb
      exact .inl ⟨_, function_error.mpr ⟨_, hx, rfl⟩, function_error.mpr ⟨_, hy, rfl⟩⟩
    | ok r =>
      rw [hx, hy] at hb
      exact hb.elim
  | ok r =>
    cases hy : body ⟨layout, limits, b, f.pos⟩ f {} with
    | error complaint' =>
      rw [hx, hy] at hb
      exact hb.elim
    | ok r' =>
      rw [hx, hy] at hb
      obtain ⟨x, st⟩ := r
      obtain ⟨y, st'⟩ := r'
      obtain ⟨hxy, rfl⟩ := hb
      refine .inr ⟨_, _, function_ok.mpr ⟨_, _, hx, rfl⟩, function_ok.mpr ⟨_, _, hy, rfl⟩, ?_⟩
      exact .flatten (.cons (.refl _) (.cons hxy (.cons (.refl _) .nil)))

end Lowering

end DirectC
