/-
# Reading under wider limits

What can be read under some limits can be read under wider ones, and reads as the same. Limits are
asked for by the typing rules that ask for sizes and by the definition of a struct, and each of them
yields the same under wider limits if it yields anything (`Widens`). The log of declarations keeps
layouts, and with them limits, but nothing is read from it.
-/
import DirectC.Proofs.Environment
import DirectC.Proofs.Grammar.Alike
import DirectC.Proofs.Limits

namespace DirectC

namespace Grammar

/-! ## Typing rules -/

/-- A rule that yields the same under wider limits, if it yields anything. -/
def Widens {α : Type} (r : Layout → Checked α) : Prop :=
  ∀ l a d, r l = .ok a → l.limits.Within d → r (l.withLimits d) = .ok a

namespace Widens

variable {α β : Type}

/-- A rule that has nothing to do with the layout. -/
theorem const {r : Checked α} : Widens fun _ => r :=
  fun _ _ _ h _ => h

/-- Two rules in a row. -/
theorem bind {r : Layout → Checked α} {f : Layout → α → Checked β} (hr : Widens r)
    (hf : ∀ a, Widens fun l => f l a) : Widens fun l => r l >>= f l := by
  intro l b d h hd
  obtain ⟨a, ha, h⟩ := except_bind_ok.mp h
  exact except_bind_ok.mpr ⟨a, hr l a d ha hd, hf a l b d h hd⟩

/-- One of two rules, by a condition that has nothing to do with the layout. -/
theorem ite {c : Prop} [Decidable c] {r r' : Layout → Checked α} (h : Widens r)
    (h' : Widens r') : Widens fun l => if c then r l else r' l := by
  by_cases hc : c
  · simpa only [if_pos hc] using h
  · simpa only [if_neg hc] using h'

/-- A question to the layout. -/
theorem located {pos : Int} {r : Layout → Except Layout.Fault α}
    (h : ∀ l a d, r l = .ok a → l.limits.Within d → r (l.withLimits d) = .ok a) :
    Widens fun l => Grammar.located pos (r l) :=
  fun l a d ha hd => located_ok.mpr (h l a d (located_ok.mp ha) hd)

end Widens

section Rules

variable {pos : Int} {e left right : Expr}

theorem size_widens {type : CType} : Widens fun l => located pos (l.size type) :=
  .located fun _ _ _ => Layout.size_within

theorem array_widens {elem : CType} {length : Int64} :
    Widens fun l => located pos (l.array elem length) :=
  .located fun _ _ _ => Layout.array_within

/-- Alignments know no limits. -/
theorem alignment_widens {type : CType} : Widens fun l => located pos (l.alignment type) := by
  refine .located fun _ _ _ h _ => ?_
  rw [Layout.alignment_withLimits]
  exact h

/-- Members know no limits: they were checked when the struct was defined. -/
theorem member_widens {struct : Bytes} {name : Token} :
    Widens fun l => member l pos e struct name :=
  fun _ _ _ h _ => h

theorem scale_widens {pointer : CType} : Widens fun l => scale l pos pointer e :=
  .bind size_widens fun _ => .const

theorem add_widens : Widens fun l => add l pos left right :=
  .ite .const (.ite (.bind scale_widens fun _ => .const)
    (.ite (.bind scale_widens fun _ => .const) .const))

theorem sub_widens : Widens fun l => sub l pos left right :=
  .ite .const (.ite (.bind scale_widens fun _ => .const)
    (.ite (.bind size_widens fun _ => .const) .const))

/-- Of the operators only those that may move a pointer ask for a size. -/
theorem binary_widens {op : BinaryOp} : Widens fun l => binary l op pos left right := by
  cases op with
  | add => exact add_widens
  | sub => exact sub_widens
  | _ => exact .const

theorem assign_widens {op : BinaryOp} : Widens fun l => assign l op pos left right := by
  unfold assign
  dsimp only
  cases left.isPlace with
  | false => exact .const
  | true =>
    cases left.type.isScalar with
    | false => exact .const
    | true =>
      exact .bind .const fun _ =>
        .ite .const (.ite .const (.ite (.bind scale_widens fun _ => .const) .const))

theorem arrayOf_widens {elem : CType} {lengths : List (Int64 × Int)} :
    Widens fun l => arrayOf l elem lengths := by
  induction lengths with
  | nil => exact .const
  | cons d rest ih => exact .bind ih fun _ => .ite .const array_widens

end Rules

/-! ## Readings -/

/-- A reading under the limits `c` and the same one under the limits `d`. -/
structure Reading.Widened (c d : Limits) (s s' : Reading) : Prop where
  current : s'.current = s.current
  ahead : s'.ahead = s.ahead
  env : s'.env = s.env.under d
  scope : s'.scope = s.scope
  limits : s.env.layout.limits = c

namespace Widening

/-- A reading under the limits `c` and the same one under the limits `d`. If the first one fails,
nothing is said of the second. -/
def pairing (c d : Limits) : Pairing where
  World := Unit
  Le _ _ := True
  State _ := Reading.Widened c d
  Lost _ := False
  Excused _ := True
  Fails _ _ _ _ _ := False
  Moved _ _ := True
  Fresh _ := True
  Enough _ _ n m := n = m
  Names _ := True
  layer := .file
  Source file source file' source' := file' = file ∧ source' = source
  Current _ t t' := t' = t
  Taken _ t t' := t' = t
  Pos _ p p' := p' = p
  Typ _ := True
  Sized _ := True
  Lay _ l l' := l' = l.withLimits d ∧ l.limits = c
  Exp _ e e' := e' = e
  Val _ e e' := e' = e
  Sig _ _ s s' := s' = s
  Prm _ p p' := p' = p
  Stm _ s s' := s' = s

variable {c d : Limits} {s s' : Reading}

/-- Going on is going on under all limits. -/
theorem rest (h : s.Widened c d s') : s.rest.Widened c d s'.rest := by
  unfold Reading.rest
  rw [h.ahead]
  split
  · exact h
  · exact ⟨rfl, rfl, h.env, h.scope, h.limits⟩

/-- The steps on tokens know no limits. -/
def steps (c d : Limits) : Steps where
  toPairing := pairing c d
  refl _ := trivial
  trans _ _ := trivial
  lost _ h := h
  excused h := h.elim
  fails _ h := h
  le _ := trivial
  moved _ _ := trivial
  moved_le _ _ := trivial
  names _ h := h
  pos _ h := h
  taken _ h := h
  enough_succ h := ⟨_, h.symm⟩
  enough_down h := Nat.succ.inj h
  enough_le _ h := h
  enough_mono _ h := h
  enough_moved _ h := h
  used _ _ := .inl trivial
  current := by
    intro w s s' hs
    exact ⟨w, s', trivial, hs, hs.current, .inr rfl⟩
  kind := by rintro _ _ _ rfl; rfl
  literal := by rintro _ _ _ rfl; rfl
  current_pos := by rintro _ _ _ rfl; rfl
  taken_literal := by rintro _ _ _ rfl; rfl
  taken_pos := by rintro _ _ _ rfl; rfl
  peek := by
    intro w s s' hs
    rw [hs.ahead, hs.current]
    exact .inl rfl
  rest := by
    intro w s s' hs
    exact ⟨w, s'.rest, trivial, Widening.rest hs, .inr rfl⟩
  rest_taken := by
    intro w s s' t t' ht _ _ hs
    exact ⟨w, s'.rest, trivial, Widening.rest hs, .inr rfl, trivial, trivial, ht⟩
  complaint _ _ _ _ := .inl trivial
  unwanted _ _ := .inl trivial

variable {w : Unit} {α : Type}

/-- A rule that yields the same under wider limits. -/
theorem answers {Q : α → α → Prop} {r : Layout → Checked α} {l l' : Layout} (hr : Widens r)
    (hd : c.Within d) (hl : l' = l.withLimits d ∧ l.limits = c) (hQ : ∀ a, r l = .ok a → Q a a) :
    (steps c d).Answers w Q (r l) (r l') := by
  obtain ⟨rfl, rfl⟩ := hl
  cases h : r l with
  | ok a => exact ⟨a, hr l a d h hd, hQ a h⟩
  | error _ => exact .inl trivial

/-- A rule that has nothing to do with the layout. -/
theorem same {Q : α → α → Prop} {r : Checked α} (hQ : ∀ a, Q a a) :
    (steps c d).Answers w Q r r := by
  cases r with
  | ok a => exact ⟨a, rfl, hQ a⟩
  | error _ => exact .inl trivial

/-- What succeeds does so under all limits. -/
theorem outcome_ok {Q : Unit → α → α → Prop} {a a' : α} (h : s.Widened c d s')
    (hQ : Q () a a') : (steps c d).Outcome w Q (.ok a s) (.ok a' s') :=
  ⟨(), a', s', trivial, h, hQ, .inr rfl⟩

/-- What fails need not be followed. -/
theorem outcome_error {Q : Unit → α → α → Prop} {e : Complaint}
    {r : EStateM.Result Complaint Reading α} : (steps c d).Outcome w Q (.error e s) r :=
  .inl trivial

/-- Names stand for the same functions under all limits. -/
theorem callee?_eq (h : s.Widened c d s') (name : Bytes) : s'.callee? name = s.callee? name := by
  unfold Reading.callee?
  rw [h.scope, h.env]
  rfl

/-- Strings are numbered alike under all limits. -/
theorem intern_under (env : Env) (value : Bytes) :
    (env.under d).intern value = ((env.intern value).1, (env.intern value).2.under d) := by
  have hstrings : (env.under d).strings = env.strings := rfl
  unfold Env.intern
  rw [hstrings]
  cases env.strings.idxOf? value with
  | some i => rfl
  | none => rfl

/-- A string in the pool is one under all limits. -/
theorem interned (h : s.Widened c d s') (value : Bytes) :
    Reading.Widened c d { s with env := (s.env.intern value).2 }
      { s' with env := (s'.env.intern value).2 } := by
  refine ⟨h.current, h.ahead, ?_, h.scope, ?_⟩
  · change (s'.env.intern value).2 = (s.env.intern value).2.under d
    rw [h.env, intern_under]
  · rw [Env.layout_intern]
    exact h.limits

/-- A struct that is defined is one under all limits. -/
theorem defined {name : Bytes} {fields : List Field} {l : Layout} (h : s.Widened c d s')
    (hl : s.env.layout.define name fields = .ok l) :
    Reading.Widened c d { s with env := { s.env with layout := l } }
      { s' with env := { s'.env with layout := l.withLimits d } } := by
  obtain ⟨_, _, rfl⟩ := Layout.define_ok.mp hl
  exact ⟨h.current, h.ahead, by rw [h.env]; rfl, h.scope, h.limits⟩

/-- Declarations are made alike. -/
theorem made {e f : Event} (h : s.Widened c d s')
    (henv : f.apply (s.env.under d) = (e.apply s.env).under d)
    (hlimits : (e.apply s.env).layout = s.env.layout) :
    (s.made e).Widened c d (s'.made f) := by
  refine ⟨h.current, h.ahead, ?_, h.scope, ?_⟩
  · change f.apply s'.env = _
    rw [h.env]
    exact henv
  · change (e.apply s.env).layout.limits = c
    rw [hlimits]
    exact h.limits

end Widening

open Widening in
/-- **Limits refuse and do nothing else** while a text is read. -/
def widening {c d : Limits} (hd : c.Within d) : Likeness where
  toSteps := steps c d
  exp _ h := h
  val _ h := h
  sig _ h := h
  prm _ h := h
  stm _ h := h
  exp_of_val h := h
  type h := by rw [h]
  isPlace h := by rw [h]
  sized h := h
  sized_type _ := trivial
  assignable h := by rw [h]
  int h := by rw [h]; rfl
  typ_int := trivial
  typ_char := trivial
  typ_void := trivial
  typ_pointer h := h
  lay h := ⟨by rw [h.env]; rfl, h.limits⟩
  size := by
    rintro _ l _ p _ t hl rfl -
    exact answers size_widens hd hl fun _ _ => rfl
  alignment := by
    rintro _ l _ p _ t hl rfl -
    exact answers alignment_widens hd hl fun _ _ => rfl
  characters := by
    rintro _ l _ p _ n hl rfl
    refine answers array_widens hd hl fun t ht => ?_
    exact ⟨rfl, (Layout.array_formed (t := .char) (Int.le_refl _) trivial (located_ok.mp ht)).1,
      trivial⟩
  arrayOf := by
    rintro _ l _ ds ds' t hl - hds
    obtain rfl := hds.eq fun _ _ h => h
    exact answers arrayOf_widens hd hl fun _ _ => ⟨rfl, trivial⟩
  rvalue := by
    rintro _ _ e rfl
    exact same fun _ => rfl
  deref := by
    rintro _ _ p _ e rfl rfl
    exact same fun _ => rfl
  addressOf := by
    rintro _ _ p _ e rfl rfl
    exact same fun _ => rfl
  binary := by
    rintro _ _ l op _ p _ a _ b hl rfl rfl rfl
    exact answers binary_widens hd hl fun _ _ => rfl
  assign := by
    rintro _ _ l op _ p _ a _ b - hl rfl rfl rfl
    exact answers assign_widens hd hl fun _ _ => rfl
  dot := by
    rintro _ _ l _ p _ e struct _ name hl rfl rfl - - ⟨rfl, -⟩
    exact answers member_widens hd hl fun _ _ => rfl
  arrow := by
    rintro _ _ l _ p _ e struct _ name hl rfl rfl - ⟨rfl, -⟩
    exact answers member_widens hd hl fun _ _ => rfl
  arguments := by
    rintro _ function index args args' types hargs
    obtain rfl := hargs.eq (fun _ _ h => h) fun _ _ h => h
    exact same fun _ => trivial
  params h := by rw [h]
  ret h := by rw [h]
  call := by
    rintro _ _ sig _ name args args' rfl ⟨rfl, -⟩ hargs - -
    rw [hargs.eq (fun _ _ h => h) fun _ _ h => h]
    rfl
  eval h := by rw [h.1]; rfl
  exit := by rintro _ _ p _ e rfl rfl -; rfl
  retNone := by rintro _ _ p rfl; rfl
  retSome := by rintro _ _ p _ e rfl rfl; rfl
  ifThen := by rintro _ _ e _ a rfl rfl; rfl
  ifElse := by rintro _ _ e _ a _ b rfl rfl rfl; rfl
  loop := by rintro _ _ e _ a rfl rfl; rfl
  block := by
    rintro _ as as' has
    obtain rfl : as' = as := List.forall₂_eq_eq_eq ▸ has.flip
    rfl
  push h hs := ⟨(), trivial, hs.current, hs.ahead, hs.env, by rw [hs.scope], hs.limits⟩
  pop h hs := ⟨(), trivial, hs.current, hs.ahead, hs.env, by rw [hs.scope], hs.limits⟩
  fails_pop _ h := h
  resolve := by
    rintro w _ name _ ⟨rfl, -⟩ s s' hs
    cases hv : s.scope.lookup? name.literal with
    | some v =>
      rw [run_resolve_local hv, run_resolve_local (by rw [hs.scope, hv])]
      exact outcome_ok hs rfl
    | none =>
      cases hg : s.env.globals.get? name.literal with
      | some g =>
        rw [run_resolve_global hv hg,
          run_resolve_global (by rw [hs.scope, hv]) (by rw [hs.env]; exact hg)]
        exact outcome_ok hs rfl
      | none =>
        rw [run_resolve_none hv hg]
        exact outcome_error
  callee := by
    rintro w _ name _ ⟨rfl, -⟩ s s' hs
    cases hc : s.callee? name.literal with
    | some sig =>
      rw [run_callee_some hc, run_callee_some ((callee?_eq hs _).trans hc)]
      exact outcome_ok hs rfl
    | none =>
      rw [run_callee_none hc]
      exact outcome_error
  pooled := by
    rintro w _ p value rfl - s s' hs
    have hnumber : (s'.env.intern value).1 = (s.env.intern value).1 := by rw [hs.env, intern_under]
    have hpooled : pooled value p (.array .char (.ofNat (value.length + 1))) s' =
        .ok (.str (s.env.intern value).1 value p (.array .char (.ofNat (value.length + 1))))
          { s' with env := (s'.env.intern value).2 } := by
      rw [← hnumber]
      rfl
    rw [hpooled]
    exact outcome_ok (interned hs value) rfl
  struct := by
    rintro w t _ n m ht hk hmembers
    refine .structType (fun _ => trivial) ?_ ht hk hmembers
    rintro v _ name fields - ⟨rfl, -⟩ - s s' hs
    cases hdef : s.env.layout.define name.literal fields with
    | ok l =>
      have hdef' : s'.env.layout.define name.literal fields = .ok (l.withLimits d) := by
        rw [hs.env]
        exact Layout.define_within hdef (hs.limits ▸ hd)
      rw [run_defineStruct_ok hdef, run_defineStruct_ok hdef']
      exact outcome_ok (defined hs hdef) trivial
    | error fault =>
      rw [run_defineStruct_error hdef]
      exact outcome_error
  addLocal := by
    rintro w _ name type _ _ _ - - ⟨rfl, -⟩ - - - - s s' hs
    cases hv : s.scope.declare? name.literal type with
    | some r =>
      obtain ⟨id, sc⟩ := r
      rw [run_addLocal_some hv, run_addLocal_some (by rw [hs.scope, hv])]
      exact outcome_ok ⟨hs.current, hs.ahead, hs.env, rfl, hs.limits⟩ rfl
    | none =>
      rw [run_addLocal_none hv]
      exact outcome_error
  addParameter := by
    rintro w _ name type - - ⟨rfl, -⟩ - - - s s' hs
    cases hv : s.scope.declare? name.literal type.decay with
    | some r =>
      obtain ⟨id, sc⟩ := r
      rw [run_addParameter_some hv, run_addParameter_some (by rw [hs.scope, hv])]
      exact outcome_ok ⟨hs.current, hs.ahead, hs.env, rfl, hs.limits⟩ rfl
    | none =>
      rw [run_addParameter_none hv]
      exact outcome_error
  addGlobal := by
    rintro w _ name type - ⟨rfl, -⟩ - - s s' hs
    have hmade := made hs (e := .global ⟨name.literal, type, name.pos⟩ s.env.layout)
      (f := .global ⟨name.literal, type, name.pos⟩ s'.env.layout) rfl rfl
    exact outcome_ok hmade trivial
  enter := by
    rintro w - s s' hs
    have hentered : s.entered.Widened c d s'.entered :=
      ⟨hs.current, hs.ahead, hs.env, rfl, hs.limits⟩
    exact outcome_ok hentered trivial
  declareFunction := by
    rintro w ret _ name params params' - ⟨rfl, -⟩ - - - hps s s' hs
    obtain rfl : params' = params := List.forall₂_eq_eq_eq ▸ hps.flip
    have hmade := made hs (e := .declared ⟨name.literal, params'.map (·.type), ret, name.pos⟩)
      (f := .declared ⟨name.literal, params'.map (·.type), ret, name.pos⟩) rfl rfl
    exact outcome_ok hmade trivial
  defineFunction := by
    rintro w file source _ _ ret _ name params params' body body' - - ⟨rfl, rfl⟩ ⟨rfl, -⟩ hps hbody
      s s' hs
    obtain rfl : params' = params := List.forall₂_eq_eq_eq ▸ hps.flip
    obtain rfl : body' = body := List.forall₂_eq_eq_eq ▸ hbody.flip
    refine outcome_ok (made hs ?_ rfl) fun h => h
    rw [hs.scope]
    rfl

/-- **What a text declares**: under wider limits it is the same. -/
theorem items_widened {c d : Limits} (hd : c.Within d) {file source : Bytes} {fuel : Nat}
    {s s' t : Reading} (hs : s.Widened c d s') (h : items file source fuel s = .ok () t) :
    ∃ t', items file source fuel s' = .ok () t' ∧ t.Widened c d t' := by
  have hitems : (widening hd).Alike () (items file source fuel) (items file source fuel)
      (widening hd).Any := items_alike rfl rfl ⟨rfl, rfl⟩
  have hitems := hitems s s' hs
  rw [h] at hitems
  obtain ⟨_, _, t', _, ht, _, hrun⟩ := hitems
  exact ⟨t', hrun.resolve_left id, ht⟩

end Grammar

open Grammar in
/-- A source text that can be read can be read under wider limits, and declares the same. -/
theorem Env.readSource_wider {env env' : Env} {d : Limits} {file source : Bytes}
    (h : env.readSource file source = (.ok (), env')) (hd : env.layout.limits.Within d) :
    env'.layout.limits = env.layout.limits ∧
      (env.under d).readSource file source = (.ok (), env'.under d) := by
  have hstart : (Reading.start source env).Widened env.layout.limits d
      (Reading.start source (env.under d)) := by
    unfold Reading.start
    split <;> exact ⟨rfl, rfl, rfl, rfl, rfl⟩
  have hbudget : (Reading.start source (env.under d)).budget =
      (Reading.start source env).budget := by
    unfold Reading.budget
    rw [hstart.ahead]
  obtain ⟨t, ht, rfl⟩ := readSource_ok.mp h
  obtain ⟨t', ht', hwidened⟩ := items_widened hd hstart ht
  refine ⟨hwidened.limits, readSource_ok.mpr ⟨t', ?_, hwidened.env⟩⟩
  rw [hbudget]
  exact ht'

end DirectC
