/-
# Where a reader complains

A reader that starts where all tokens ahead stand at positions of which `ok` holds complains only at
such a position, the trees that it builds have no other positions, and their string literals are in
the pool of strings. Whatever happens, this is true of every function in the log (`Anchors`).
-/
import DirectC.Proofs.Grammar.Alike
import DirectC.Proofs.Grammar.Anchors
import DirectC.Proofs.Environment

namespace DirectC

namespace Grammar

/-- A state of reading in which all tokens to come stand at positions of which `ok` holds. -/
structure Reading.Anchored (ok : Int → Prop) (s : Reading) : Prop where
  current : ok s.current.pos
  ahead : ∀ t ∈ s.ahead, ok t.pos

/-- The functions in the log were read from a text. -/
def Reading.Recalls (ok : Int → Prop) (file source : Bytes) (s : Reading) : Prop :=
  ∀ f ps ls, .defined f ps ls ∈ s.log.events → f.Anchored ok file source s.env.strings

variable {ok : Int → Prop} {file source : Bytes} {s : Reading}

/-- Going on leaves fewer tokens ahead. -/
theorem Reading.Anchored.rest (h : s.Anchored ok) : s.rest.Anchored ok := by
  unfold Reading.rest
  split
  · exact h
  · rename_i t ts ha
    have hahead := h.ahead
    rw [ha] at hahead
    exact ⟨hahead t List.mem_cons_self, fun u hu => hahead u (List.mem_cons_of_mem _ hu)⟩

/-- Going on leaves the log alone. -/
theorem Reading.Recalls.rest (h : s.Recalls ok file source) : s.rest.Recalls ok file source := by
  unfold Reading.Recalls
  rw [rest_log, rest_env]
  exact h

/-- A declaration without a body. -/
theorem Reading.Recalls.made {e : Event} (h : s.Recalls ok file source)
    (hstrings : (e.apply s.env).strings = s.env.strings)
    (he : ∀ f ps ls, e = .defined f ps ls → f.Anchored ok file source s.env.strings) :
    (s.made e).Recalls ok file source := by
  intro f ps ls hf
  change f.Anchored ok file source (e.apply s.env).strings
  rw [hstrings]
  rcases List.mem_append.mp hf with hf | hf
  · exact h f ps ls hf
  · exact he f ps ls (List.mem_singleton.mp hf).symm

/-! ## Anchored readings -/

namespace Anchoring

/-- A reading over tokens at positions of which `ok` holds and itself. A world is the pool of
strings. -/
def pairing (ok : Int → Prop) (file source : Bytes) : Pairing where
  World := List Bytes
  Le w v := w <+: v
  State w s s' := s' = s ∧ s.env.strings = w ∧ s.Anchored ok ∧ s.Recalls ok file source
  Lost _ := False
  Excused _ := False
  Fails _ c s c' s' := (c' = c ∧ s' = s) ∧ ok c.pos ∧ s.Recalls ok file source
  Moved w v := w <+: v
  Fresh _ := True
  Enough _ _ n m := n = m
  Names _ := True
  layer := .file
  Source file₁ source₁ file₂ source₂ :=
    (file₂ = file₁ ∧ source₂ = source₁) ∧ file₁ = file ∧ source₁ = source
  Current _ t t' := t' = t ∧ ok t.pos
  Taken _ t t' := t' = t ∧ ok t.pos
  Pos _ p p' := p' = p ∧ ok p
  Typ _ := True
  Sized _ := True
  Lay _ l l' := l' = l
  Exp w e e' := e' = e ∧ e.Anchored ok w
  Val w e e' := e' = e ∧ e.Anchored ok w
  Sig _ _ s s' := s' = s
  Prm _ p p' := p' = p
  Stm w s s' := s' = s ∧ s.Anchored ok w

variable {w : List Bytes}

/-- A complaint at such a position. -/
theorem fails {s s' : Reading} {fault : Fault} {p p' : Int}
    (hs : (pairing ok file source).State w s s') (hp : (pairing ok file source).Pos w p p') :
    (pairing ok file source).Fails w ⟨fault, p⟩ s ⟨fault, p'⟩ s' := by
  obtain ⟨rfl, _, _, hrecalls⟩ := hs
  obtain ⟨rfl, hp⟩ := hp
  exact ⟨⟨rfl, rfl⟩, hp, hrecalls⟩

/-- The steps on tokens do not touch the pool. -/
def steps (ok : Int → Prop) (file source : Bytes) : Steps where
  toPairing := pairing ok file source
  refl _ := List.prefix_rfl
  trans := List.IsPrefix.trans
  lost _ h := h
  excused h := h.elim
  fails _ h := h
  le h := h
  moved := List.IsPrefix.trans
  moved_le := List.IsPrefix.trans
  names _ h := h
  pos _ h := h
  taken _ h := h
  enough_succ h := ⟨_, h.symm⟩
  enough_down h := Nat.succ.inj h
  enough_le _ h := h
  enough_mono _ h := h
  enough_moved _ h := h
  used := by
    rintro _ w _ _ s rfl ⟨rfl, hs⟩
    exact .inr ⟨rfl, fails ⟨rfl, hs⟩ ⟨rfl, hs.2.1.current⟩⟩
  current := by
    rintro w _ s ⟨rfl, hs⟩
    exact ⟨w, s, List.prefix_rfl, ⟨rfl, hs⟩, ⟨rfl, hs.2.1.current⟩, .inr rfl⟩
  kind h := by rw [h.1]
  literal h := by rw [h.1]
  current_pos h := ⟨by rw [h.1], h.2⟩
  taken_literal h := by rw [h.1]
  taken_pos h := ⟨by rw [h.1], h.2⟩
  peek := by
    rintro w _ s ⟨rfl, _⟩
    exact .inl rfl
  rest := by
    rintro w _ s ⟨rfl, hpool, hs, hrecalls⟩
    exact ⟨w, s.rest, List.prefix_rfl, ⟨rfl, by rwa [Reading.rest_env], hs.rest, hrecalls.rest⟩,
      .inr rfl⟩
  rest_taken := by
    rintro w _ s t t' ht _ _ ⟨rfl, hpool, hs, hrecalls⟩
    exact ⟨w, s.rest, List.prefix_rfl, ⟨rfl, by rwa [Reading.rest_env], hs.rest, hrecalls.rest⟩,
      .inr rfl, List.prefix_rfl, trivial, ht⟩
  complaint := by
    rintro w p p' s s' fault _ _ hp hs
    exact .inr (fails hs hp)
  unwanted := by
    rintro w t _ s s' wanted ⟨rfl, ht⟩ hs
    exact .inr (fails hs ⟨rfl, ht⟩)

/-- A rule that answers as it should. -/
theorem answers {α : Type} {P : α → Prop} {Q : α → α → Prop} {r : Checked α}
    (hr : Grammar.Answers ok P r) (hQ : ∀ a, P a → Q a a) :
    (steps ok file source).Answers w Q r r := by
  refine .same (fun a ha => hQ a ?_) fun c s s' hc hs => ?_
  · rw [ha] at hr
    exact hr
  · rw [hc] at hr
    exact fails hs ⟨rfl, hr⟩

/-- A rule that answers with a tree. -/
theorem answers_expr {r : Checked Expr} (hr : Grammar.Answers ok (Expr.Anchored ok w) r) :
    (steps ok file source).Answers w ((steps ok file source).Exp w) r r :=
  answers hr fun _ he => ⟨rfl, he⟩

/-- Trees that stand in place of others are the same, and anchored. -/
theorem args_eq {args args' : List (Expr × Int)} (h : (steps ok file source).Args w args args') :
    args' = args ∧ ∀ a ∈ args, a.1.Anchored ok w ∧ ok a.2 :=
  eq_of_forall₂ (h.imp fun _ _ ha => ⟨Prod.ext ha.1.1 ha.2.1, ha.1.2, ha.2.2⟩)

end Anchoring

open Anchoring in
/-- **Readers complain at tokens**, and build trees with the positions of tokens. -/
def anchored (ok : Int → Prop) (file source : Bytes) : Likeness where
  toSteps := steps ok file source
  exp hle h := ⟨h.1, h.2.mono hle⟩
  val hle h := ⟨h.1, h.2.mono hle⟩
  sig _ h := h
  prm _ h := h
  stm hle h := ⟨h.1, h.2.mono hle⟩
  exp_of_val h := h
  type h := by rw [h.1]
  isPlace h := by rw [h.1]
  sized _ := trivial
  sized_type _ := trivial
  assignable h := by rw [h.1]
  int h := ⟨by rw [h.1], .num h.2⟩
  typ_int := trivial
  typ_char := trivial
  typ_void := trivial
  typ_pointer _ := trivial
  lay h := by rw [h.1]; rfl
  size := by
    rintro _ l _ p _ t rfl ⟨rfl, hp⟩ _
    exact answers (.located hp) fun _ _ => rfl
  alignment := by
    rintro _ l _ p _ t rfl ⟨rfl, hp⟩ _
    exact answers (.located hp) fun _ _ => rfl
  characters := by
    rintro _ l _ p _ n rfl ⟨rfl, hp⟩
    exact answers (array_answers hp) fun _ ht => ⟨rfl, ht, trivial⟩
  arrayOf := by
    rintro _ l _ ds ds' t rfl _ hds
    obtain ⟨rfl, hds⟩ : ds' = ds ∧ ∀ d ∈ ds, ok d.2 :=
      eq_of_forall₂ (hds.imp fun _ _ hd => ⟨Prod.ext hd.1 hd.2.1, hd.2.2⟩)
    exact answers (arrayOf_answers hds) fun _ _ => ⟨rfl, trivial⟩
  rvalue := by
    rintro _ _ e ⟨rfl, he⟩
    exact answers_expr (rvalue_answers he)
  deref := by
    rintro _ _ p _ e ⟨rfl, hp⟩ ⟨rfl, he⟩
    exact answers_expr (deref_answers hp he)
  addressOf := by
    rintro _ _ p _ e ⟨rfl, hp⟩ ⟨rfl, he⟩
    exact answers_expr (addressOf_answers hp he)
  binary := by
    rintro _ _ l op _ p _ a _ b rfl ⟨rfl, hp⟩ ⟨rfl, ha⟩ ⟨rfl, hb⟩
    exact answers_expr (binary_answers hp ha hb)
  assign := by
    rintro _ _ l op _ p _ a _ b _ rfl ⟨rfl, hp⟩ ⟨rfl, ha⟩ ⟨rfl, hb⟩
    exact answers_expr (assign_answers hp ha hb)
  dot := by
    rintro _ _ l _ p _ e struct _ name rfl ⟨rfl, hp⟩ ⟨rfl, he⟩ _ _ ⟨⟨rfl, hname⟩, _⟩
    exact answers_expr (member_answers hp hname (.unary hp he))
  arrow := by
    rintro _ _ l _ p _ e struct _ name rfl ⟨rfl, hp⟩ ⟨rfl, he⟩ _ ⟨⟨rfl, hname⟩, _⟩
    exact answers_expr (member_answers hp hname he)
  arguments := by
    rintro _ function index args args' types hargs
    obtain ⟨rfl, hargs⟩ := args_eq hargs
    exact answers (checkArguments_answers fun a ha => (hargs a ha).2) fun _ _ => trivial
  params h := by rw [h]
  ret h := by rw [h]
  call := by
    rintro _ _ sig _ name args args' rfl ⟨⟨rfl, hname⟩, _⟩ hargs _ _
    obtain ⟨rfl, hargs⟩ := args_eq hargs
    refine ⟨rfl, .call hname fun e he => ?_⟩
    obtain ⟨a, ha, rfl⟩ := List.mem_map.mp he
    exact (hargs a ha).1
  eval := by
    rintro _ _ e ⟨⟨rfl, he⟩, _⟩
    exact ⟨rfl, .eval he⟩
  exit := by
    rintro _ _ p _ e ⟨rfl, _⟩ ⟨rfl, he⟩ _
    exact ⟨rfl, .exit he⟩
  retNone := by
    rintro _ _ p ⟨rfl, _⟩
    exact ⟨rfl, .retNone⟩
  retSome := by
    rintro _ _ p _ e ⟨rfl, _⟩ ⟨rfl, he⟩
    exact ⟨rfl, .retSome he⟩
  ifThen := by
    rintro _ _ e _ a ⟨rfl, he⟩ ⟨rfl, ha⟩
    exact ⟨rfl, .ifThen he ha⟩
  ifElse := by
    rintro _ _ e _ a _ b ⟨rfl, he⟩ ⟨rfl, ha⟩ ⟨rfl, hb⟩
    exact ⟨rfl, .ifElse he ha hb⟩
  loop := by
    rintro _ _ e _ a ⟨rfl, he⟩ ⟨rfl, ha⟩
    exact ⟨rfl, .loop he ha⟩
  block := by
    intro _ as as' has
    obtain ⟨rfl, has⟩ := eq_of_forall₂ has
    exact ⟨rfl, .block has⟩
  push := by
    rintro w _ s _ ⟨rfl, hpool, hs, hrecalls⟩
    exact ⟨w, List.prefix_rfl, rfl, hpool, ⟨hs.current, hs.ahead⟩, hrecalls⟩
  pop := by
    rintro w _ s _ ⟨rfl, hpool, hs, hrecalls⟩
    exact ⟨w, List.prefix_rfl, rfl, hpool, ⟨hs.current, hs.ahead⟩, hrecalls⟩
  fails_pop := by
    rintro _ _ _ c s _ ⟨⟨rfl, rfl⟩, hpos, hrecalls⟩
    exact ⟨⟨rfl, rfl⟩, hpos, hrecalls⟩
  resolve := by
    rintro w _ name _ ⟨⟨rfl, hname⟩, _⟩ _ s ⟨rfl, hs⟩
    cases hv : s.scope.lookup? name.literal with
    | some v =>
      rw [run_resolve_local hv]
      exact .ok List.prefix_rfl ⟨rfl, hs⟩ ⟨rfl, .ident hname⟩
    | none =>
      cases hg : s.env.globals.get? name.literal with
      | some g =>
        rw [run_resolve_global hv hg]
        exact .ok List.prefix_rfl ⟨rfl, hs⟩ ⟨rfl, .ident hname⟩
      | none =>
        rw [run_resolve_none hv hg]
        exact .error (fails ⟨rfl, hs⟩ ⟨rfl, hname⟩)
  callee := by
    rintro w _ name _ ⟨⟨rfl, hname⟩, _⟩ _ s ⟨rfl, hs⟩
    cases hc : s.callee? name.literal with
    | some sig =>
      rw [run_callee_some hc]
      exact .ok List.prefix_rfl ⟨rfl, hs⟩ rfl
    | none =>
      rw [run_callee_none hc]
      exact .error (fails ⟨rfl, hs⟩ ⟨rfl, hname⟩)
  pooled := by
    rintro w _ p value ⟨rfl, hp⟩ _ _ s ⟨rfl, rfl, hs, hrecalls⟩
    have hgrow := s.env.strings_isPrefix_intern value
    exact .ok hgrow
      ⟨rfl, rfl, ⟨hs.current, hs.ahead⟩, fun f ps ls hf => (hrecalls f ps ls hf).mono hgrow⟩
      ⟨rfl, .str hp (s.env.getElem?_intern value)⟩
  struct := by
    rintro w t _ n m ht hk hmembers
    refine .structType (fun _ => trivial) ?_ ht hk hmembers
    rintro v _ name fields _ ⟨⟨rfl, hname⟩, _⟩ _ _ s ⟨rfl, hpool, hs, hrecalls⟩
    cases hd : s.env.layout.define name.literal fields with
    | ok l =>
      rw [run_defineStruct_ok hd]
      exact .ok List.prefix_rfl ⟨rfl, hpool, ⟨hs.current, hs.ahead⟩, hrecalls⟩ trivial
    | error fault =>
      rw [run_defineStruct_error hd]
      exact .error ⟨⟨rfl, rfl⟩, hname, hrecalls⟩
  addLocal := by
    rintro w _ name type _ _ _ _ _ ⟨⟨rfl, hname⟩, _⟩ _ _ _ _ _ s ⟨rfl, hpool, hs, hrecalls⟩
    cases hd : s.scope.declare? name.literal type with
    | some r =>
      obtain ⟨id, sc⟩ := r
      rw [run_addLocal_some hd]
      exact .ok List.prefix_rfl ⟨rfl, hpool, ⟨hs.current, hs.ahead⟩, hrecalls⟩ ⟨rfl, .ident hname⟩
    | none =>
      rw [run_addLocal_none hd]
      exact .error ⟨⟨rfl, rfl⟩, hname, hrecalls⟩
  addParameter := by
    rintro w _ name type _ _ ⟨⟨rfl, hname⟩, _⟩ _ _ _ _ s ⟨rfl, hpool, hs, hrecalls⟩
    cases hd : s.scope.declare? name.literal type.decay with
    | some r =>
      obtain ⟨id, sc⟩ := r
      rw [run_addParameter_some hd]
      exact .ok List.prefix_rfl ⟨rfl, hpool, ⟨hs.current, hs.ahead⟩, hrecalls⟩ rfl
    | none =>
      rw [run_addParameter_none hd]
      exact .error ⟨⟨rfl, rfl⟩, hname, hrecalls⟩
  addGlobal := by
    rintro w _ name type _ ⟨⟨rfl, _⟩, _⟩ _ _ _ s ⟨rfl, hpool, hs, hrecalls⟩
    have hmade := hrecalls.made (e := .global ⟨name.literal, type, name.pos⟩ s.env.layout) rfl
      fun _ _ _ h => nomatch h
    exact .ok List.prefix_rfl ⟨rfl, hpool, ⟨hs.current, hs.ahead⟩, hmade⟩ trivial
  enter := by
    rintro w _ _ s ⟨rfl, hpool, hs, hrecalls⟩
    exact .ok List.prefix_rfl ⟨rfl, hpool, ⟨hs.current, hs.ahead⟩, hrecalls⟩ trivial
  declareFunction := by
    rintro w ret _ name params params' _ ⟨⟨rfl, _⟩, _⟩ _ _ _ hps _ s ⟨rfl, hpool, hs, hrecalls⟩
    obtain rfl : params' = params := List.forall₂_eq_eq_eq ▸ hps.flip
    have hmade := hrecalls.made
      (e := .declared ⟨name.literal, params'.map (·.type), ret, name.pos⟩) rfl
      fun _ _ _ h => nomatch h
    exact .ok List.prefix_rfl ⟨rfl, hpool, ⟨hs.current, hs.ahead⟩, hmade⟩ trivial
  defineFunction := by
    rintro w _ _ file source ret _ name params params' body body' _ _ ⟨⟨rfl, rfl⟩, rfl, rfl⟩
      ⟨⟨rfl, hname⟩, _⟩ hps hbody _ s ⟨rfl, hpool, hs, hrecalls⟩
    obtain rfl : params' = params := List.forall₂_eq_eq_eq ▸ hps.flip
    obtain ⟨rfl, hbody⟩ := eq_of_forall₂ hbody
    have hf (locals : List LocalVar) : Function.Anchored ok file source s.env.strings
        ⟨name.literal, params', ret, name.pos, some body', locals, file, source⟩ :=
      ⟨rfl, rfl, hname, body', rfl, fun st hst => hpool ▸ hbody st hst⟩
    have hmade := hrecalls.made (e := .defined _ s.log.params s.log.locals) rfl
      fun f _ _ h => by cases h; exact hf s.scope.locals
    exact .ok List.prefix_rfl ⟨rfl, hpool, ⟨hs.current, hs.ahead⟩, hmade⟩ fun h => h

/-! ## Readers of texts -/

/-- **What a reader anchors** that starts over a text and an empty log. -/
structure Anchors {α : Type} (ok : Int → Prop) (file source : Bytes) (x : Read α)
    (P : List Bytes → α → Prop) (s : Reading) : Prop where
  result : ∀ a t, x s = .ok a t → P t.env.strings a
  pos : ∀ c t, x s = .error c t → ok c.pos
  recalls : (behind (x s)).Recalls ok file source

/-- Readers that are like themselves here. -/
theorem Anchors.of_alike {α : Type} {x : Read α} {Q : List Bytes → α → α → Prop}
    {P : List Bytes → α → Prop} (h : (anchored ok file source).Alike s.env.strings x x Q)
    (hs : s.Anchored ok) (hlog : s.log.events = []) (hQ : ∀ w a a', Q w a a' → P w a) :
    Anchors ok file source x P s := by
  have hx := h s s ⟨rfl, rfl, hs, fun f ps ls hf => by simp [hlog] at hf⟩
  unfold Pairing.Outcome at hx
  cases hxs : x s with
  | ok a t =>
    rw [hxs] at hx
    obtain ⟨_, _, _, _, ⟨_, rfl, _, hrecalls⟩, ha, _⟩ := hx
    refine ⟨fun b u hu => ?_, fun _ _ h => (nomatch hxs.symm.trans h), hxs ▸ hrecalls⟩
    cases hxs.symm.trans hu
    exact hQ _ _ _ ha
  | error c t =>
    rw [hxs] at hx
    rcases hx with hc | ⟨_, _, _, _, hpos, hrecalls⟩
    · exact hc.elim
    · refine ⟨fun _ _ h => (nomatch hxs.symm.trans h), fun d u hu => ?_, hxs ▸ hrecalls⟩
      cases hxs.symm.trans hu
      exact hpos

/-- The items of a file. -/
theorem items_anchors {fuel : Nat} (hs : s.Anchored ok) (hlog : s.log.events = []) :
    Anchors ok file source (items file source fuel) (fun _ _ => True) s :=
  .of_alike (items_alike (L := anchored ok file source) rfl rfl ⟨⟨rfl, rfl⟩, rfl, rfl⟩) hs hlog
    fun _ _ _ _ => trivial

/-- A lone statement. -/
theorem loneStatement_anchors (file source : Bytes) {fuel : Nat} (hs : s.Anchored ok)
    (hlog : s.log.events = []) :
    Anchors ok file source (loneStatement fuel) (fun pool st => st.Anchored ok pool) s :=
  .of_alike (loneStatement_alike (L := anchored ok file source) Layer.file_bodies rfl trivial) hs hlog
    fun _ _ _ h => h.2

end Grammar

end DirectC
