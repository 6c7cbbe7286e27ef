/-
# Reading keeps states formed

Every expression that is read is typed, and one that is used for its value is a scalar; every type
is formed. So a formed state stays one, whether reading succeeds or not. If it fails, the cause is
in the text, or the bound on the depth is used up.
-/
import DirectC.Proofs.Environment
import DirectC.Proofs.Grammar.Alike

namespace DirectC

namespace Grammar

/-- A state of reading with a formed environment and formed scopes. -/
structure Reading.Formed (B : Int) (s : Reading) : Prop where
  env : s.env.Formed B
  scope : s.scope.Formed B

/-- The number of strings in the pool. -/
abbrev Reading.pool (s : Reading) : Nat :=
  s.env.strings.length

/-- A cause that lies in the text and not in the reader, the bound on the depth apart. -/
def Fault.OfText (fault : Fault) : Prop :=
  fault.kind = .internal → fault = .exhausted

/-- Going on leaves the pool alone. -/
theorem Reading.rest_pool (s : Reading) : s.rest.pool = s.pool := by
  rw [pool, rest_env]

/-- Going on keeps a state formed. -/
theorem Reading.Formed.rest {B : Int} {s : Reading} (h : s.Formed B) : s.rest.Formed B :=
  ⟨by simpa using h.env, by simpa using h.scope⟩

/-- Other causes are in the text. -/
theorem Fault.ofText {fault : Fault} (h : (fault.kind == .internal) = false) :
    Fault.OfText fault :=
  fun hkind => by simp [hkind] at h

/-! ## Formed readings -/

namespace Forming

/-- A reading in formed states and itself. A world is the number of strings in the pool, since a
string literal is known by its number there. -/
def pairing (B : Int) : Pairing where
  World := Nat
  Le n m := n ≤ m
  State n s s' := s' = s ∧ s.Formed B ∧ n ≤ s.pool
  Lost _ := False
  Excused _ := False
  Fails _ c s c' s' := (c' = c ∧ s' = s) ∧ s.Formed B ∧ Fault.OfText c.fault
  Moved n m := n ≤ m
  Fresh _ := True
  Enough _ _ n m := n = m
  Names _ := True
  layer := .file
  Source file source file' source' := file' = file ∧ source' = source
  Current _ t t' := t' = t
  Taken _ t t' := t' = t
  Pos _ p p' := p' = p
  Typ := CType.Formed B
  Sized := CType.Formed B
  Lay _ l l' := l' = l ∧ l.Formed B
  Exp n e e' := e' = e ∧ Typed B n e
  Val n e e' := e' = e ∧ Typed B n e ∧ e.type.isScalar
  Sig _ _ s s' := s' = s ∧ (s.ret.isVoid ∨ s.ret.isScalar) ∧ s.ret.Formed B
  Prm _ p p' := p' = p ∧ p.type.isScalar ∧ p.type.Formed B
  Stm n s s' := s' = s ∧ TypedStmt B n s

variable {B : Int} {n : Nat}

/-- What is in the text is complained of in a formed state. -/
theorem fails {s s' : Reading} {fault : Fault} {p p' : Int} (hs : (pairing B).State n s s')
    (hf : Fault.OfText fault) (hp : p' = p) :
    (pairing B).Fails n ⟨fault, p⟩ s ⟨fault, p'⟩ s' := by
  obtain ⟨rfl, hs, _⟩ := hs
  exact ⟨⟨by rw [hp], rfl⟩, hs, hf⟩

/-- The steps on tokens leave environment and scopes alone. -/
def steps (B : Int) : Steps where
  toPairing := pairing B
  refl := Nat.le_refl
  trans := Nat.le_trans
  lost _ h := h
  excused h := h.elim
  fails _ h := h
  le h := h
  moved := Nat.le_trans
  moved_le := Nat.le_trans
  names _ h := h
  pos _ h := h
  taken _ h := h
  enough_succ h := ⟨_, h.symm⟩
  enough_down h := Nat.succ.inj h
  enough_le _ h := h
  enough_mono _ h := h
  enough_moved _ h := h
  used := by
    rintro _ w _ s s' rfl hs
    have hpos : (s'.current.pos : Int) = s.current.pos := by rw [hs.1]
    exact .inr ⟨rfl, fails hs (fun _ => rfl) hpos⟩
  current := by
    rintro w s s' hs
    exact ⟨w, s', Nat.le_refl _, hs, by rw [hs.1]; rfl, .inr rfl⟩
  kind := by rintro _ _ _ rfl; rfl
  literal := by rintro _ _ _ rfl; rfl
  current_pos := by rintro _ _ _ rfl; rfl
  taken_literal := by rintro _ _ _ rfl; rfl
  taken_pos := by rintro _ _ _ rfl; rfl
  peek := by
    rintro w s s' ⟨rfl, _⟩
    exact .inl rfl
  rest := by
    rintro w _ s ⟨rfl, hs, hn⟩
    exact ⟨w, s.rest, Nat.le_refl _, ⟨rfl, hs.rest, by rwa [s.rest_pool]⟩, .inr rfl⟩
  rest_taken := by
    rintro w _ s t _ rfl _ _ ⟨rfl, hs, hn⟩
    exact ⟨w, s.rest, Nat.le_refl _, ⟨rfl, hs.rest, by rwa [s.rest_pool]⟩, .inr rfl,
      Nat.le_refl _, trivial, rfl⟩
  complaint := by
    rintro w p p' s s' fault hkind _ hp hs
    exact .inr (fails hs (Fault.ofText hkind) hp)
  unwanted := by
    rintro w t _ s s' wanted rfl hs
    exact .inr (fails hs (fun h => nomatch h) rfl)

/-- A fair rule of which the results are known. -/
theorem answers {α : Type} {Q : α → α → Prop} {r : Checked α} (hr : Fair True r)
    (hok : ∀ a, r = .ok a → Q a a) : (steps B).Answers n Q r r :=
  .same hok fun c _ _ hc hs => fails hs (fun hkind => absurd hkind ((hr c hc).2 trivial)) rfl

end Forming

open Forming in
/-- **Reading keeps states formed**, and what it builds is typed. -/
def forming (B : Int) : Likeness where
  toSteps := steps B
  exp hle h := ⟨h.1, h.2.mono hle⟩
  val hle h := ⟨h.1, h.2.1.mono hle, h.2.2⟩
  sig _ h := h
  prm _ h := h
  stm hle h := ⟨h.1, h.2.mono hle⟩
  exp_of_val h := ⟨h.1, h.2.1⟩
  type h := by rw [h.1]
  isPlace h := by rw [h.1]
  sized h := h
  sized_type h := h.2.formed
  assignable h := by rw [h.1]
  int h := ⟨by rw [h], .num, rfl⟩
  typ_int := trivial
  typ_char := trivial
  typ_void := trivial
  typ_pointer h := h
  lay := by
    rintro _ _ _ ⟨rfl, hs, _⟩
    exact ⟨rfl, hs.env.layout⟩
  size := by
    rintro _ l _ p _ t ⟨rfl, _⟩ rfl ht
    exact answers (.located fun _ _ => Layout.size_sensible ht) fun _ _ => rfl
  alignment := by
    rintro _ l _ p _ t ⟨rfl, _⟩ rfl ht
    exact answers (.located fun _ _ => Layout.alignment_sensible ht) fun _ _ => rfl
  characters := by
    rintro _ l _ p _ n ⟨rfl, hl⟩ rfl
    exact answers (.located fun _ _ => Layout.array_sensible) fun t ht =>
      ⟨rfl, hl.array (t := .char) trivial (located_ok.mp ht)⟩
  arrayOf := by
    rintro _ l _ ds ds' t ⟨rfl, hl⟩ ht hds
    obtain rfl := hds.eq fun _ _ h => h
    exact answers (arrayOf_fair _) fun _ h => ⟨rfl, arrayOf_formed hl.arrayLength ht h⟩
  rvalue := by
    rintro _ _ e ⟨rfl, he⟩
    exact answers rvalue_fair fun _ h => ⟨rfl, rvalue_typed h he⟩
  deref := by
    rintro _ _ p _ e rfl ⟨rfl, he, hs⟩
    exact answers deref_fair fun _ h => ⟨rfl, deref_typed h he hs⟩
  addressOf := by
    rintro _ _ p _ e rfl ⟨rfl, he⟩
    exact answers addressOf_fair fun _ h => ⟨rfl, addressOf_typed h he⟩
  binary := by
    rintro _ _ l op _ p _ a _ b ⟨rfl, _⟩ rfl ⟨rfl, ha, _⟩ ⟨rfl, hb, _⟩
    exact answers (binary_fair (fun _ => ha) fun _ => hb) fun _ h =>
      ⟨rfl, binary_typed h ha hb, binary_isScalar h⟩
  assign := by
    rintro _ _ l op _ p _ a _ b ho ⟨rfl, _⟩ rfl ⟨rfl, ha⟩ ⟨rfl, hb⟩
    exact answers (assign_fair fun _ => ha) fun _ h =>
      ⟨rfl, assign_typed h ho ha hb, assign_isScalar h⟩
  dot := by
    rintro _ _ l _ p _ e struct _ name ⟨rfl, hl⟩ rfl ⟨rfl, he⟩ htype hplace ⟨rfl, _⟩
    have haddr := (Typed.addr he hplace : Typed B _ (.unary .addr p e (.pointer e.type)))
    rw [htype] at haddr
    exact answers member_fair fun _ h => ⟨rfl, member_typed h hl haddr rfl⟩
  arrow := by
    rintro _ _ l _ p _ e struct _ name ⟨rfl, hl⟩ rfl ⟨rfl, he, hs⟩ htype ⟨rfl, _⟩
    have hp := isPointer_of_deref? hs htype
    exact answers member_fair fun _ h => ⟨rfl, member_typed h hl he hp⟩
  arguments := by
    rintro _ function index args args' types hargs
    obtain rfl := hargs.eq (fun _ _ h => h.1) fun _ _ h => h
    exact answers checkArguments_fair fun _ _ => trivial
  params h := by rw [h.1]
  ret h := by rw [h.1]
  call := by
    rintro _ _ sig _ name args args' ⟨rfl, hret, hform⟩ ⟨rfl, _⟩ hargs _ _
    have hargs : args'.map (·.1) = args.map (·.1) ∧
        ∀ a ∈ args.map (·.1), Typed B _ a ∧ a.type.isScalar :=
      eq_of_forall₂ (List.forall₂_map_left_iff.mpr
        (List.forall₂_map_right_iff.mpr (hargs.imp fun _ _ ha => ha.1)))
    exact ⟨by rw [hargs.1], .call (fun a ha => (hargs.2 a ha).1) (fun a ha => (hargs.2 a ha).2)
      hret hform⟩
  eval := by
    rintro _ _ e ⟨⟨rfl, he⟩, ht⟩
    exact ⟨rfl, .eval he (ht.imp_right fun h => h.2.2)⟩
  exit := by
    rintro _ _ p _ e rfl ⟨rfl, he, _⟩ ht
    exact ⟨rfl, .exit he ht⟩
  retNone := by
    rintro _ _ p rfl
    exact ⟨rfl, .retNone⟩
  retSome := by
    rintro _ _ p _ e rfl ⟨rfl, he, hs⟩
    exact ⟨rfl, .retSome he hs⟩
  ifThen := by
    rintro _ _ e _ a ⟨rfl, he, hs⟩ ⟨rfl, ha⟩
    exact ⟨rfl, .ifThen he hs ha⟩
  ifElse := by
    rintro _ _ e _ a _ b ⟨rfl, he, hs⟩ ⟨rfl, ha⟩ ⟨rfl, hb⟩
    exact ⟨rfl, .ifElse he hs ha hb⟩
  loop := by
    rintro _ _ e _ a ⟨rfl, he, hs⟩ ⟨rfl, ha⟩
    exact ⟨rfl, .loop he hs ha⟩
  block := by
    intro _ as as' has
    obtain ⟨rfl, has⟩ := eq_of_forall₂ has
    exact ⟨rfl, .block has⟩
  push := by
    rintro w _ s _ ⟨rfl, hs, hn⟩
    exact ⟨w, Nat.le_refl _, rfl, ⟨hs.env, hs.scope.push⟩, hn⟩
  pop := by
    rintro w _ s _ ⟨rfl, hs, hn⟩
    exact ⟨w, Nat.le_refl _, rfl, ⟨hs.env, hs.scope.pop⟩, hn⟩
  fails_pop := by
    rintro _ _ _ c s _ ⟨⟨rfl, rfl⟩, hs, hc⟩
    exact ⟨⟨rfl, rfl⟩, ⟨hs.env, hs.scope.pop⟩, hc⟩
  resolve := by
    rintro w _ name _ ⟨rfl, _⟩ _ s ⟨rfl, hs, hn⟩
    cases hv : s.scope.lookup? name.literal with
    | some v =>
      obtain ⟨hf, hvoid⟩ := hs.scope.lookup hv
      rw [run_resolve_local hv]
      exact .ok (Nat.le_refl _) ⟨rfl, hs, hn⟩ ⟨rfl, .ident hf hvoid⟩
    | none =>
      cases hg : s.env.globals.get? name.literal with
      | some g =>
        obtain ⟨_, hf, hvoid⟩ := hs.env.globals _ _ hg
        rw [run_resolve_global hv hg]
        exact .ok (Nat.le_refl _) ⟨rfl, hs, hn⟩ ⟨rfl, .ident hf hvoid⟩
      | none =>
        rw [run_resolve_none hv hg]
        exact .error ⟨⟨rfl, rfl⟩, hs, Fault.ofText s.unresolved_kind⟩
  callee := by
    rintro w _ name _ ⟨rfl, _⟩ _ s ⟨rfl, hs, hn⟩
    cases hc : s.callee? name.literal with
    | some sig =>
      rw [run_callee_some hc]
      exact .ok (Nat.le_refl _) ⟨rfl, hs, hn⟩ ⟨rfl, hs.env.signatures _ _ (s.signature_of_callee hc)⟩
    | none =>
      rw [run_callee_none hc]
      exact .error ⟨⟨rfl, rfl⟩, hs, Fault.ofText s.uncallable_kind⟩
  pooled := by
    rintro w _ p value rfl htype _ s ⟨rfl, hs, hn⟩
    have hlt := s.env.intern_lt value
    exact .ok (Nat.le_trans hn (s.env.length_le_intern value))
      ⟨rfl, ⟨hs.env.intern value, hs.scope⟩, Nat.le_refl _⟩
      ⟨rfl, .str (Int.natCast_nonneg _) (by exact_mod_cast hlt) htype⟩
  struct := by
    rintro w t _ n m ht hk hmembers
    refine .structType (fun _ => trivial) ?_ ht hk hmembers
    rintro v _ name fields _ ⟨rfl, _⟩ hfields _ s ⟨rfl, hs, hn⟩
    cases hd : s.env.layout.define name.literal fields with
    | ok l =>
      rw [run_defineStruct_ok hd]
      have hl := hs.env.layout.define hfields hd
      exact .ok (Nat.le_refl _) ⟨rfl, ⟨hs.env.withLayout hl, hs.scope⟩, hn⟩ trivial
    | error fault =>
      rw [run_defineStruct_error hd]
      exact .error ⟨⟨rfl, rfl⟩, hs, fun h => absurd h (Layout.define_sensible hfields hd)⟩
  addLocal := by
    rintro w _ name type _ _ _ _ _ ⟨rfl, _⟩ htype hvoid _ _ _ s ⟨rfl, hs, hn⟩
    cases hd : s.scope.declare? name.literal type with
    | some r =>
      obtain ⟨id, sc⟩ := r
      rw [run_addLocal_some hd]
      have hsc := hs.scope.declare ⟨htype, hvoid⟩ hd
      exact .ok (Nat.le_refl _) ⟨rfl, ⟨hs.env, hsc⟩, hn⟩ ⟨rfl, .ident htype hvoid⟩
    | none =>
      rw [run_addLocal_none hd]
      exact .error ⟨⟨rfl, rfl⟩, hs, fun h => nomatch h⟩
  addParameter := by
    rintro w _ name type _ _ ⟨rfl, _⟩ htype hvoid hstruct _ s ⟨rfl, hs, hn⟩
    have hscalar := isScalar_decay htype hvoid hstruct
    have hform := formed_decay htype
    cases hd : s.scope.declare? name.literal type.decay with
    | some r =>
      obtain ⟨id, sc⟩ := r
      rw [run_addParameter_some hd]
      have hsc := hs.scope.declare ⟨hform, isVoid_of_isScalar hscalar⟩ hd
      exact .ok (Nat.le_refl _) ⟨rfl, ⟨hs.env, hsc⟩, hn⟩ ⟨rfl, hscalar, hform⟩
    | none =>
      rw [run_addParameter_none hd]
      exact .error ⟨⟨rfl, rfl⟩, hs, fun h => nomatch h⟩
  addGlobal := by
    rintro w _ name type _ ⟨rfl, _⟩ htype hvoid _ s ⟨rfl, hs, hn⟩
    exact .ok (Nat.le_refl _) ⟨rfl, ⟨hs.env.declareGlobal ⟨htype, hvoid⟩, hs.scope⟩, hn⟩ trivial
  enter := by
    rintro w _ _ s ⟨rfl, hs, hn⟩
    exact .ok (Nat.le_refl _) ⟨rfl, ⟨hs.env, .fresh⟩, hn⟩ trivial
  declareFunction := by
    rintro w ret _ name params params' _ ⟨rfl, _⟩ hform hstruct harray hps _ s ⟨rfl, hs, hn⟩
    obtain ⟨rfl, _⟩ := eq_of_forall₂ hps
    have hret := returns_scalar hform hstruct harray
    exact .ok (Nat.le_refl _) ⟨rfl, ⟨hs.env.declare hret hform, hs.scope⟩, hn⟩ trivial
  defineFunction := by
    rintro w file source _ _ ret _ name params params' body body' _ _ ⟨rfl, rfl⟩ ⟨rfl, _⟩ hps hbody
      _ s ⟨rfl, hs, hn⟩
    obtain ⟨rfl, hps⟩ := eq_of_forall₂ hps
    obtain ⟨rfl, hbody⟩ := eq_of_forall₂ hbody
    have hf : ∀ f : Function, f.params = params' → f.body = some body' → f.Formed B s.pool := by
      rintro f rfl hb
      exact ⟨hps, body', hb, fun st hst => (hbody st hst).mono hn⟩
    exact .ok (Nat.le_refl _) ⟨rfl, ⟨hs.env.define (hf _ rfl rfl), hs.scope⟩, hn⟩ fun h => h

/-! ## Readers that keep states formed -/

/-- A reader that keeps states formed and fails only for causes in the text. -/
def Forms {α : Type} (B : Int) (x : Read α) : Prop :=
  ∀ s, s.Formed B → (behind (x s)).Formed B ∧ ∀ c t, x s = .error c t → Fault.OfText c.fault

/-- Readers that are like themselves here keep states formed. -/
theorem Forms.of_alike {α : Type} {B : Int} {x : Read α} {Q : Nat → α → α → Prop}
    (h : (forming B).Alike (0 : Nat) x x Q) : Forms B x := by
  intro s hs
  have hx := h s s ⟨rfl, hs, Nat.zero_le _⟩
  unfold Pairing.Outcome at hx
  cases hxs : x s with
  | ok a t =>
    rw [hxs] at hx
    obtain ⟨_, _, _, _, ⟨_, ht, _⟩, _⟩ := hx
    exact ⟨ht, fun _ _ h => nomatch h⟩
  | error c t =>
    rw [hxs] at hx
    rcases hx with hc | ⟨_, _, _, _, ht, hc⟩
    · exact hc.elim
    · refine ⟨ht, fun c' t' h => ?_⟩
      cases h
      exact hc

theorem items_forms {B : Int} (file source : Bytes) (fuel : Nat) :
    Forms B (items file source fuel) :=
  .of_alike (items_alike (L := forming B) rfl rfl ⟨rfl, rfl⟩)

theorem loneStatement_forms {B : Int} (fuel : Nat) : Forms B (loneStatement fuel) :=
  .of_alike (loneStatement_alike (L := forming B) Layer.file_bodies rfl trivial)

theorem Reading.Formed.start {B : Int} {env : Env} (source : Bytes) (he : env.Formed B) :
    (Reading.start source env).Formed B := by
  unfold Reading.start
  split
  · exact ⟨he, .fresh⟩
  · exact ⟨he, .fresh⟩

end Grammar

/-! ## Environments and programs -/

/-- **Reading keeps an environment formed**, whether it succeeds or not. -/
theorem Env.Formed.read {α : Type} {B : Int} {env : Env} (he : env.Formed B) (file source : Bytes)
    {reader : Nat → Grammar.Read α} (hy : ∀ fuel, Grammar.Forms B (reader fuel)) :
    (env.read file source reader).2.Formed B := by
  have h := (hy (Grammar.Reading.start source env).budget _ (.start source he)).1.env
  unfold Env.read
  dsimp only
  cases hr : reader (Grammar.Reading.start source env).budget
      (Grammar.Reading.start source env) with
  | ok a s =>
    rw [hr] at h
    exact h
  | error c s =>
    rw [hr] at h
    exact h

/-- Source files keep an environment formed. -/
theorem Env.Formed.readSource {B : Int} {env : Env} (he : env.Formed B) (file source : Bytes) :
    (env.readSource file source).2.Formed B :=
  he.read file source (Grammar.items_forms file source)

/-- Statements keep an environment formed. -/
theorem Env.Formed.readStatement {B : Int} {env : Env} (he : env.Formed B) (file source : Bytes) :
    (env.readStatement file source).2.Formed B :=
  he.read file source Grammar.loneStatement_forms

/-- A program that reading can yield. -/
structure Program.Formed (B : Int) (p : Program) : Prop where
  layout : p.layout.Formed B
  functions : ∀ f ∈ p.functions, f.Formed B p.strings.length
  distinct : (p.functions.map (·.name)).Nodup
  globals : ∀ g ∈ p.globals, g.type.Stored B
  named : ∀ g ∈ p.globals, ∀ g' ∈ p.globals, g.name = g'.name → g = g'

theorem Env.Formed.program {B : Int} {env : Env} (he : env.Formed B) : env.program.Formed B := by
  -- a variable stands under its own name, so a name stands for one variable
  have hown : ∀ g ∈ env.program.globals, env.globals.get? g.name = some g ∧ g.type.Stored B := by
    intro g hg
    obtain ⟨name, _, hg⟩ := List.mem_filterMap.mp hg
    obtain ⟨rfl, ht⟩ := he.globals name g hg
    exact ⟨hg, ht⟩
  refine ⟨he.layout, fun f hf => he.functions f (List.mem_filter.mp hf).1,
    he.distinct.sublist (List.filter_sublist.map _), fun g hg => (hown g hg).2,
    fun g hg g' hg' hname => ?_⟩
  have h := (hown g hg).1
  rw [hname, (hown g' hg').1] at h
  exact (Option.some.inj h).symm

/-- **What is read is formed**, for every bound that holds of the limits. -/
theorem Program.formed_ofSource {B : Int} {file source : Bytes} {limits : Limits} {p : Program}
    (hl : limits.arrayLength.toInt ≤ B) (ht : limits.typeSize.toInt ≤ B)
    (h : Program.ofSource file source limits = .ok p) : p.Formed B := by
  have he := (Env.Formed.empty hl ht).readSource file source
  unfold Program.ofSource at h
  split at h
  · rename_i env hr
    cases h
    rw [hr] at he
    exact he.program
  · cases h

end DirectC
