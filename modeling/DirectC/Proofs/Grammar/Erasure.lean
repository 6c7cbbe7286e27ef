/-
# Reading does not depend on positions

A text is read the same way if all positions in its tokens are set to zero: readers succeed where
they did, with the same results but for the positions in them, and complain where they did, about
the same things. What a file declares is read without the local names in scope, so these need not
be the same before a function begins.
-/
import DirectC.Proofs.Bare
import DirectC.Proofs.Grammar.Alike

namespace DirectC

namespace Grammar

/-! ## Typing rules -/

section Rules

variable {α β : Type} {l : Layout} {pos : Int} {e left right : Expr}

/-- The result of a rule without positions. -/
def Checked.bare (f : α → α) : Checked α → Checked α
  | .ok a => .ok (f a)
  | .error c => .error c.bare

/-- A rule may be followed by one that keeps to positions in the same way. -/
theorem Checked.bare_bind {f : α → α} {f' : β → β} {r r' : Checked α} {g g' : α → Checked β}
    (hr : Checked.bare f r = r') (h : ∀ a, Checked.bare f' (g a) = g' (f a)) :
    Checked.bare f' (r >>= g) = r' >>= g' := by
  subst hr
  cases r with
  | ok a => exact h a
  | error c => rfl

/-- A question to the layout is answered without positions. -/
theorem located_bare {x : Except Layout.Fault α} :
    Checked.bare id (located pos x) = located 0 x := by
  cases x <;> rfl

/-- Taking a value is the same without positions. -/
theorem rvalue_bare : Checked.bare Expr.bare (rvalue e) = rvalue e.bare := by
  unfold rvalue
  rw [Expr.type_bare]
  split <;> simp [Checked.bare, Complaint.bare, Fault.bare, Expr.bare, Expr.pos_bare]

/-- Looking at what a pointer points at is the same without positions. -/
theorem deref_bare : Checked.bare Expr.bare (deref pos e) = deref 0 e.bare := by
  unfold deref
  rw [Expr.type_bare]
  split <;> rfl

/-- Taking an address is the same without positions. -/
theorem addressOf_bare : Checked.bare Expr.bare (addressOf pos e) = addressOf 0 e.bare := by
  unfold addressOf
  rw [Expr.type_bare, Expr.isPlace_bare]
  split <;> rfl

/-- Selecting a member is the same without positions. -/
theorem member_bare {struct : Bytes} {name : Token} :
    Checked.bare Expr.bare (member l pos e struct name) = member l 0 e.bare struct name.bare := by
  unfold member
  split
  · rfl
  · rw [Token.literal_bare]
    split <;> rfl

/-- What can be assigned has nothing to do with positions. -/
theorem assignable_bare {type : CType} : assignable type e.bare = assignable type e := by
  simp only [assignable, Expr.type_bare, Expr.isNull_bare]

/-- What can be compared has nothing to do with positions. -/
theorem comparable_bare : comparable left.bare right.bare = comparable left right := by
  simp only [comparable, Expr.type_bare, Expr.isNull_bare]

/-- Indices are scaled without positions. -/
theorem scale_bare {pointer : CType} :
    Checked.bare Expr.bare (scale l pos pointer e) = scale l 0 pointer e.bare := by
  refine Checked.bare_bind located_bare fun size => ?_
  dsimp only [id]
  split <;> rfl

/-- Sums are made without positions. -/
theorem add_bare :
    Checked.bare Expr.bare (add l pos left right) = add l 0 left.bare right.bare := by
  unfold add
  simp only [Expr.type_bare]
  split
  · rfl
  · split
    · exact Checked.bare_bind scale_bare fun _ => rfl
    · split
      · exact Checked.bare_bind scale_bare fun _ => rfl
      · rfl

/-- Differences are made without positions. -/
theorem sub_bare :
    Checked.bare Expr.bare (sub l pos left right) = sub l 0 left.bare right.bare := by
  unfold sub
  simp only [Expr.type_bare]
  split
  · rfl
  · split
    · exact Checked.bare_bind scale_bare fun _ => rfl
    · split
      · refine Checked.bare_bind located_bare fun _ => ?_
        dsimp only [id]
        split <;> rfl
      · rfl

/-- **Binary operators do not look at positions.** -/
theorem binary_bare {op : BinaryOp} :
    Checked.bare Expr.bare (binary l op pos left right) = binary l op 0 left.bare right.bare := by
  have node (ok : Bool) :
      Checked.bare Expr.bare (if ok then .ok (.binary op pos left right .int)
        else .error ⟨.operands op left.type right.type, pos⟩) =
      if ok then .ok (.binary op 0 left.bare right.bare .int)
        else .error ⟨.operands op left.type right.type, 0⟩ := by
    cases ok <;> rfl
  unfold binary
  simp only [Expr.type_bare, comparable_bare]
  cases op with
  | add => exact add_bare
  | sub => exact sub_bare
  | _ => exact node _

/-- **Assignments do not look at positions.** -/
theorem assign_bare {op : BinaryOp} :
    Checked.bare Expr.bare (assign l op pos left right) = assign l op 0 left.bare right.bare := by
  unfold assign
  simp only [Expr.type_bare, Expr.isPlace_bare]
  split
  · rfl
  · split
    · rfl
    · refine Checked.bare_bind rvalue_bare fun value => ?_
      simp only [Expr.type_bare, assignable_bare]
      split
      · split <;> rfl
      · split
        · rfl
        · split
          · exact Checked.bare_bind scale_bare fun _ => rfl
          · rfl

/-- Lengths without their positions. -/
def bareLengths (lengths : List (Int64 × Int)) : List (Int64 × Int) :=
  lengths.map fun d => (d.1, 0)

/-- Array types do not depend on positions. -/
theorem arrayOf_bare {elem : CType} (lengths : List (Int64 × Int)) :
    Checked.bare id (arrayOf l elem lengths) = arrayOf l elem (bareLengths lengths) := by
  induction lengths with
  | nil => rfl
  | cons d rest ih =>
    refine Checked.bare_bind ih fun inner => ?_
    dsimp only [id]
    split
    · rfl
    · exact located_bare

/-- Arguments without positions. -/
def bareArguments (args : List (Expr × Int)) : List (Expr × Int) :=
  args.map fun a => (a.1.bare, 0)

/-- Arguments are checked without positions. -/
theorem checkArguments_bare {function : Bytes} {index : Nat} {types : List CType}
    (args : List (Expr × Int)) :
    Checked.bare id (checkArguments function index args types) =
      checkArguments function index (bareArguments args) types := by
  induction args generalizing index types with
  | nil => rfl
  | cons a args ih =>
    cases types with
    | nil => rfl
    | cons type types =>
      rw [bareArguments, List.map_cons, checkArguments, checkArguments, assignable_bare,
        Expr.type_bare]
      split
      · exact ih
      · rfl

end Rules

/-! ## Readings -/

/-- A state without positions that stands for another one; if it is not `strict`, the local names
in scope are left open. -/
structure Reading.Bares (strict : Bool) (s s' : Reading) : Prop where
  current : s'.current = s.current.bare
  ahead : s'.ahead = s.ahead.map Token.bare
  env : s'.env = s.env.bare
  scope : strict = true → s'.scope = s.scope.bare

namespace Erasure

/-- A reading and the same one without positions. A world says whether the local names in scope are
the same. -/
def pairing : Pairing where
  World := Bool
  Le w v := w = true → v = true
  State := Reading.Bares
  Lost _ := False
  Excused _ := False
  Fails _ c s c' s' := c' = c.bare ∧ s'.env = s.env.bare
  Moved w v := w = true → v = true
  Fresh _ := True
  Enough _ _ n m := n = m
  Names w := w = true
  layer := .file
  Source _ _ file' source' := file' = [] ∧ source' = []
  Current _ t t' := t' = t.bare
  Taken _ t t' := t' = t.bare
  Pos _ _ p' := p' = 0
  Typ _ := True
  Sized _ := True
  Lay _ l l' := l' = l
  Exp _ e e' := e' = e.bare
  Val _ e e' := e' = e.bare
  Sig _ _ s s' := s' = s.bare
  Prm _ p p' := p' = p
  Stm _ s s' := s' = s.bare

variable {strict : Bool} {s s' : Reading}

/-- Going on takes the same token from both. -/
theorem rest (h : s.Bares strict s') : s.rest.Bares strict s'.rest := by
  unfold Reading.rest
  rw [h.ahead]
  cases s.ahead with
  | nil => exact h
  | cons t ts => exact ⟨rfl, rfl, h.env, h.scope⟩

/-- The token behind the next one is of the same kind. -/
theorem peek (h : s.Bares strict s') :
    (s'.ahead.headD s'.current).kind = (s.ahead.headD s.current).kind := by
  rw [h.ahead, h.current]
  cases s.ahead with
  | nil => rfl
  | cons t ts => rfl

/-- The steps on tokens do not look at positions. -/
def steps : Steps where
  toPairing := pairing
  refl _ h := h
  trans h h' := h' ∘ h
  lost _ h := h
  excused h := h.elim
  fails _ h := h
  le h := h
  moved h h' := h' ∘ h
  moved_le h h' := h' ∘ h
  names h := h
  pos _ h := h
  taken _ h := h
  enough_succ h := ⟨_, h.symm⟩
  enough_down h := Nat.succ.inj h
  enough_le _ h := h
  enough_mono _ h := h
  enough_moved _ h := h
  used := by
    rintro _ w _ s s' rfl hs
    refine .inr ⟨rfl, ?_, hs.env⟩
    rw [hs.current]
    rfl
  current := by
    intro w s s' hs
    exact ⟨w, s', id, hs, hs.current, .inr rfl⟩
  kind := by rintro _ _ _ rfl; rfl
  literal := by rintro _ _ _ rfl; rfl
  current_pos := by rintro _ _ _ rfl; rfl
  taken_literal := by rintro _ _ _ rfl; rfl
  taken_pos := by rintro _ _ _ rfl; rfl
  peek h := .inl (Erasure.peek h)
  rest := by
    intro w s s' hs
    exact ⟨w, s'.rest, id, Erasure.rest hs, .inr rfl⟩
  rest_taken := by
    intro w s s' t t' ht _ _ hs
    exact ⟨w, s'.rest, id, Erasure.rest hs, .inr rfl, id, trivial, ht⟩
  complaint := by
    rintro w p _ s s' fault _ hbare rfl hs
    refine .inr ⟨?_, hs.env⟩
    rw [Complaint.bare, hbare]
  unwanted := by
    rintro w t _ s s' wanted rfl hs
    exact .inr ⟨rfl, hs.env⟩

variable {α : Type} {w : Bool}

/-- A rule that does not look at positions. -/
theorem answers {Q : α → α → Prop} {f : α → α} {r r' : Checked α} (h : Checked.bare f r = r')
    (hQ : ∀ a, r = .ok a → Q a (f a)) : steps.Answers w Q r r' := by
  subst h
  cases r with
  | ok a => exact ⟨f a, rfl, hQ a rfl⟩
  | error c => exact .inr ⟨c.bare, rfl, fun _ _ hs => ⟨rfl, hs.env⟩⟩

/-- What succeeds does so without positions. -/
theorem outcome_ok {Q : Bool → α → α → Prop} {a a' : α} (h : s.Bares w s') (hQ : Q w a a') :
    steps.Outcome w Q (.ok a s) (.ok a' s') :=
  ⟨w, a', s', id, h, hQ, .inr rfl⟩

/-- What fails does so without positions. -/
theorem outcome_error {Q : Bool → α → α → Prop} {c c' : Complaint} (h : s.Bares w s')
    (hc : c' = c.bare) : steps.Outcome w Q (.error c s) (.error c' s') :=
  .error ⟨hc, h.env⟩

/-- Lengths without positions are the same lengths. -/
theorem lengths_eq {ds ds' : List (Int64 × Int)} (h : steps.Lengths w ds ds') :
    ds' = bareLengths ds := by
  induction h with
  | nil => rfl
  | cons hd _ ih => exact congrArg₂ List.cons (Prod.ext hd.1 hd.2) ih

/-- Arguments without positions. -/
theorem args_eq {args args' : List (Expr × Int)} (h : steps.Args w args args') :
    args' = bareArguments args := by
  induction h with
  | nil => rfl
  | cons ha _ ih => exact congrArg₂ List.cons (Prod.ext ha.1 ha.2) ih

/-- A list without positions, element by element. -/
theorem map_eq {as as' : List α} {f : α → α} (h : List.Forall₂ (fun a a' => a' = f a) as as') :
    as' = as.map f := by
  induction h with
  | nil => rfl
  | cons ha _ ih => rw [ha, ih, List.map_cons]

/-- A call without positions. -/
theorem call_bare (name : Token) (args : List (Expr × Int)) (ret : CType) :
    (Expr.call name.literal name.pos (args.map (·.1)) ret).bare =
      .call name.literal 0 ((bareArguments args).map (·.1)) ret := by
  simp [Expr.bare, bareArguments, Function.comp_def]

/-- What stands for no variable is complained of alike. -/
theorem unresolved_bare (h : s.Bares strict s') (name : Bytes) :
    s'.unresolved name = (s.unresolved name).bare := by
  unfold Reading.unresolved
  rw [h.env, Env.contains_signatures_bare]
  split <;> rfl

/-- What stands for no function is complained of alike. -/
theorem uncallable_bare (h : s.Bares true s') (name : Bytes) :
    s'.uncallable name = (s.uncallable name).bare := by
  have hlookup : s'.scope.lookup? name = s.scope.lookup? name := by
    rw [h.scope rfl]
    rfl
  unfold Reading.uncallable
  rw [h.env, Env.contains_globals_bare, hlookup]
  split <;> rfl

/-- A string in the pool is one without positions. -/
theorem interned (h : s.Bares strict s') (value : Bytes) :
    Reading.Bares strict { s with env := (s.env.intern value).2 }
      { s' with env := (s'.env.intern value).2 } := by
  refine ⟨h.current, h.ahead, ?_, h.scope⟩
  change (s'.env.intern value).2 = (s.env.intern value).2.bare
  rw [h.env, Env.bare_intern]

/-- A local variable is one without positions. -/
theorem withLocal {sc : Scope} {v : LocalVar} (h : s.Bares strict s') :
    (s.withLocal sc v).Bares strict (s'.withLocal sc.bare v.bare) := by
  refine ⟨h.current, h.ahead, h.env, fun _ => ?_⟩
  simp [Reading.withLocal, Scope.bare]

/-- Names stand for the same functions. -/
theorem callee?_bare (h : s.Bares true s') (name : Bytes) :
    s'.callee? name = (s.callee? name).map Signature.bare := by
  unfold Reading.callee?
  rw [h.scope rfl, h.env, Env.get?_signatures_bare]
  change (if (s.scope.lookup? name).isSome then _ else _) = _
  split <;> rfl

/-- Declarations are made alike. -/
theorem made {e f : Event} (h : s.Bares strict s')
    (hbare : f.apply s.env.bare = (e.apply s.env).bare) :
    (s.made e).Bares strict (s'.made f) := by
  refine ⟨h.current, h.ahead, ?_, h.scope⟩
  change f.apply s'.env = (e.apply s.env).bare
  rw [h.env, hbare]

end Erasure

open Erasure in
/-- **Reading does not depend on positions.** -/
def erasing : Likeness where
  toSteps := steps
  exp _ h := h
  val _ h := h
  sig _ h := h
  prm _ h := h
  stm _ h := h
  exp_of_val h := h
  type h := by rw [h, Expr.type_bare]
  isPlace h := by rw [h, Expr.isPlace_bare]
  sized h := h
  sized_type _ := trivial
  assignable h := by rw [h, assignable_bare]
  int := by rintro _ p _ n rfl; rfl
  typ_int := trivial
  typ_char := trivial
  typ_void := trivial
  typ_pointer h := h
  lay h := by rw [h.env]; rfl
  size := by
    rintro _ l _ p _ t rfl rfl -
    exact answers located_bare fun _ _ => rfl
  alignment := by
    rintro _ l _ p _ t rfl rfl -
    exact answers located_bare fun _ _ => rfl
  characters := by
    rintro _ l _ p _ n rfl rfl
    refine answers located_bare fun t ht => ?_
    exact ⟨rfl, (Layout.array_formed (t := .char) (Int.le_refl _) trivial (located_ok.mp ht)).1,
      trivial⟩
  arrayOf := by
    rintro _ l _ ds ds' t rfl - hds
    rw [lengths_eq hds]
    exact answers (arrayOf_bare ds) fun _ _ => ⟨rfl, trivial⟩
  rvalue := by
    rintro _ e _ rfl
    exact answers rvalue_bare fun _ _ => rfl
  deref := by
    rintro _ p _ e _ rfl rfl
    exact answers deref_bare fun _ _ => rfl
  addressOf := by
    rintro _ p _ e _ rfl rfl
    exact answers addressOf_bare fun _ _ => rfl
  binary := by
    rintro _ _ l op p _ a _ b _ rfl rfl rfl rfl
    exact answers binary_bare fun _ _ => rfl
  assign := by
    rintro _ _ l op p _ a _ b _ - rfl rfl rfl rfl
    exact answers assign_bare fun _ _ => rfl
  dot := by
    rintro _ l _ p _ e _ struct name _ rfl rfl rfl - - ⟨rfl, -⟩
    exact answers member_bare fun _ _ => rfl
  arrow := by
    rintro _ l _ p _ e _ struct name _ rfl rfl rfl - ⟨rfl, -⟩
    exact answers member_bare fun _ _ => rfl
  arguments := by
    rintro _ function index args args' types hargs
    rw [args_eq hargs]
    exact answers (checkArguments_bare args) fun _ _ => trivial
  params h := by rw [h]; rfl
  ret h := by rw [h]; rfl
  call := by
    rintro _ sig _ name _ args args' rfl ⟨rfl, -⟩ hargs - -
    rw [args_eq hargs]
    exact (call_bare name args sig.ret).symm
  eval h := by rw [h.1]; rfl
  exit := by rintro _ p _ e _ rfl rfl -; rfl
  retNone := by rintro _ p _ rfl; rfl
  retSome := by rintro _ p _ e _ rfl rfl; rfl
  ifThen := by rintro _ e _ a _ rfl rfl; rfl
  ifElse := by rintro _ e _ a _ b _ rfl rfl rfl; rfl
  loop := by rintro _ e _ a _ rfl rfl; rfl
  block := by
    rintro _ as as' has
    rw [map_eq has]
    exact congrArg Stmt.block (Stmt.bares_eq_map as).symm
  push h hs := ⟨_, id, hs.current, hs.ahead, hs.env, fun hw => by rw [hs.scope hw, Scope.bare_push]⟩
  pop h hs := ⟨_, id, hs.current, hs.ahead, hs.env, fun hw => by rw [hs.scope hw, Scope.bare_pop]⟩
  fails_pop _ h := h
  resolve := by
    rintro _ name _ rfl ⟨rfl, -⟩ s s' hs
    have hlookup : s'.scope.lookup? name.bare.literal = s.scope.lookup? name.literal := by
      rw [hs.scope rfl]
      rfl
    have hglobal : s'.env.globals.get? name.bare.literal =
        (s.env.globals.get? name.literal).map GlobalVar.bare := by
      rw [hs.env, Env.get?_globals_bare, Token.literal_bare]
    cases hv : s.scope.lookup? name.literal with
    | some v =>
      rw [run_resolve_local hv, run_resolve_local (hlookup.trans hv)]
      exact outcome_ok hs rfl
    | none =>
      cases hg : s.env.globals.get? name.literal with
      | some g =>
        rw [hg] at hglobal
        rw [run_resolve_global hv hg, run_resolve_global (hlookup.trans hv) hglobal]
        exact outcome_ok hs rfl
      | none =>
        rw [hg] at hglobal
        rw [run_resolve_none hv hg, run_resolve_none (hlookup.trans hv) hglobal]
        exact outcome_error hs (by rw [unresolved_bare hs]; rfl)
  callee := by
    rintro _ name _ rfl ⟨rfl, -⟩ s s' hs
    have hcallee : s'.callee? name.bare.literal = _ := callee?_bare hs name.literal
    cases hc : s.callee? name.literal with
    | some sig =>
      rw [hc] at hcallee
      rw [run_callee_some hc, run_callee_some hcallee]
      exact outcome_ok hs rfl
    | none =>
      rw [hc] at hcallee
      rw [run_callee_none hc, run_callee_none hcallee]
      exact outcome_error hs (by rw [uncallable_bare hs]; rfl)
  pooled := by
    rintro w p _ value rfl - s s' hs
    have hnumber : (s'.env.intern value).1 = (s.env.intern value).1 := by
      rw [hs.env, Env.bare_intern]
    have hpooled : pooled value 0 (.array .char (.ofNat (value.length + 1))) s' =
        .ok (.str (s.env.intern value).1 value 0 (.array .char (.ofNat (value.length + 1))))
          { s' with env := (s'.env.intern value).2 } := by
      rw [← hnumber]
      rfl
    rw [hpooled]
    exact outcome_ok (interned hs value) rfl
  struct := by
    rintro w t _ n m ht hk hmembers
    refine .structType (fun _ => trivial) ?_ ht hk hmembers
    rintro v name _ fields - ⟨rfl, -⟩ - s s' hs
    have hlayout : s'.env.layout.define name.bare.literal fields =
        s.env.layout.define name.literal fields := by
      rw [hs.env]
      rfl
    cases hdef : s.env.layout.define name.literal fields with
    | ok l =>
      rw [run_defineStruct_ok hdef, run_defineStruct_ok (hlayout.trans hdef)]
      exact outcome_ok (w := v) ⟨hs.current, hs.ahead, by rw [hs.env]; rfl, hs.scope⟩ trivial
    | error fault =>
      rw [run_defineStruct_error hdef, run_defineStruct_error (hlayout.trans hdef)]
      exact outcome_error hs rfl
  addLocal := by
    rintro _ name _ type _ _ _ - rfl ⟨rfl, -⟩ - - - - s s' hs
    have hdeclare : s'.scope.declare? name.bare.literal type =
        (s.scope.declare? name.literal type).map fun r => (r.1, r.2.bare) := by
      rw [hs.scope rfl, Scope.bare_declare?, Token.literal_bare]
    cases hv : s.scope.declare? name.literal type with
    | some r =>
      rw [hv] at hdeclare
      rw [run_addLocal_some hv, run_addLocal_some hdeclare]
      exact outcome_ok (withLocal hs) rfl
    | none =>
      rw [hv] at hdeclare
      rw [run_addLocal_none hv, run_addLocal_none hdeclare]
      exact outcome_error hs rfl
  addParameter := by
    rintro _ name _ type - rfl ⟨rfl, -⟩ - - - s s' hs
    have hdeclare : s'.scope.declare? name.bare.literal type.decay =
        (s.scope.declare? name.literal type.decay).map fun r => (r.1, r.2.bare) := by
      rw [hs.scope rfl, Scope.bare_declare?, Token.literal_bare]
    cases hv : s.scope.declare? name.literal type.decay with
    | some r =>
      rw [hv] at hdeclare
      rw [run_addParameter_some hv, run_addParameter_some hdeclare]
      exact outcome_ok (w := true) ⟨hs.current, hs.ahead, hs.env, fun _ => rfl⟩ rfl
    | none =>
      rw [hv] at hdeclare
      rw [run_addParameter_none hv, run_addParameter_none hdeclare]
      exact outcome_error hs rfl
  addGlobal := by
    rintro w name _ type - ⟨rfl, -⟩ - - s s' hs
    have hmade := made hs (e := .global ⟨name.literal, type, name.pos⟩ s.env.layout)
      (f := .global ⟨name.literal, type, 0⟩ s'.env.layout) (Env.bare_declareGlobal ⟨_, _, _⟩).symm
    exact outcome_ok hmade trivial
  enter := by
    rintro w - s s' hs
    exact ⟨true, (), s'.entered, fun _ => rfl, ⟨hs.current, hs.ahead, hs.env, fun _ => rfl⟩, rfl,
      .inr rfl⟩
  declareFunction := by
    rintro w ret name _ params params' - ⟨rfl, -⟩ - - - hps s s' hs
    obtain rfl : params' = params := List.forall₂_eq_eq_eq ▸ hps.flip
    have hmade := made hs (e := .declared ⟨name.literal, params'.map Param.type, ret, name.pos⟩)
      (f := .declared ⟨name.literal, params'.map Param.type, ret, 0⟩)
      (Env.bare_declare ⟨_, _, _, _⟩).symm
    exact outcome_ok hmade trivial
  defineFunction := by
    rintro _ file source _ _ ret name _ params params' body body' - rfl ⟨rfl, rfl⟩ ⟨rfl, -⟩ hps
      hbody s s' hs
    obtain rfl : params' = params := List.forall₂_eq_eq_eq ▸ hps.flip
    obtain rfl := map_eq hbody
    have hdefine := @Env.bare_define s.env
      ⟨name.literal, params', ret, name.pos, some body, s.scope.locals, file, source⟩
    refine outcome_ok (made hs ?_) fun h => h
    rw [hs.scope rfl]
    exact hdefine.symm

/-! ## Items -/

/-- An outcome without positions that stands for another one. -/
inductive Echoes (strict : Bool) :
    EStateM.Result Complaint Reading Unit → EStateM.Result Complaint Reading Unit → Prop where
  | ok {t t' : Reading} (ht : t.Bares strict t') : Echoes strict (.ok () t) (.ok () t')
  | error {c c' : Complaint} {t t' : Reading} (hc : c' = c.bare) (he : t'.env = t.env.bare) :
    Echoes strict (.error c t) (.error c' t')

/-- **The items of a file** are read the same way without positions. -/
theorem items_erases {strict : Bool} {file source : Bytes} {fuel : Nat} {s s' : Reading}
    (hs : s.Bares strict s') : Echoes strict (items file source fuel s) (items [] [] fuel s') := by
  have hitems : erasing.Alike strict (items file source fuel) (items [] [] fuel) erasing.Any :=
    items_alike rfl rfl ⟨rfl, rfl⟩
  have hitems := hitems s s' hs
  cases hrun : items file source fuel s with
  | ok _ t =>
    rw [hrun] at hitems
    obtain ⟨v, _, t', hle, ht, _, hrun'⟩ := hitems
    rw [hrun'.resolve_left id]
    exact .ok ⟨ht.current, ht.ahead, ht.env, fun hw => ht.scope (hle hw)⟩
  | error c t =>
    rw [hrun] at hitems
    obtain ⟨c', t', hrun', hc, he⟩ := hitems.resolve_left id
    rw [hrun']
    exact .error hc he

end Grammar

end DirectC
