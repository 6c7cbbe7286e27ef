/-
# What readers make

Every reader keeps to a trail, whether it succeeds or fails. The expressions and statements that it
builds are allowed node by node at some moment of that trail (`Built`), and the types that it reads
are within the limits. A reader that reads something leaves fewer tokens (`Consumes`), so that the
bound on the depth, which is counted down where a reader goes round in a loop or calls itself, is
never used up if it was large enough for the tokens in the beginning (`Lasts`). All of this is one
likeness of readings, `making`; its worlds are the states themselves.
-/
import DirectC.Proofs.Grammar.Alike
import DirectC.Proofs.Grammar.Allowed
import DirectC.Proofs.Grammar.Trail

namespace DirectC

namespace Scope

/-- Closing a scope forgets no local variable. -/
theorem locals_pop (s : Scope) : s.pop.locals = s.locals := by
  unfold pop
  split <;> rfl

/-- A name alone is no local variable yet. -/
theorem locals_declare? {s s' : Scope} {name : Bytes} {type : CType} {id : Int}
    (h : s.declare? name type = some (id, s')) : s'.locals = s.locals := by
  unfold declare? at h
  split at h
  · cases h
  · split at h
    · cases h
    · cases h
      rfl

/-- A name stands for what it was declared as last. -/
theorem lookup?_declare? {s s' : Scope} {name : Bytes} {type : CType} {id : Int}
    (h : s.declare? name type = some (id, s')) : s'.lookup? name = some ⟨id, type⟩ := by
  unfold declare? at h
  split at h
  · cases h
  · split at h
    · cases h
    · cases h
      simp [lookup?, Table.get?_insert]

end Scope

namespace Grammar

/-- An identifier among the tokens read between two states. -/
structure Met (k : Layer) (o t : Reading) (name : Token) : Prop where
  kind : name.kind = .identifier
  passed : ∃ u, o.Trail k u ∧ u.current = name ∧ u.rest.Trail k t

/-- **A node built at some moment** between two states. An identifier has its name and its place
from a token that was read before. -/
inductive Built (k : Layer) (o t : Reading) : Node → Prop where
  | name {u : Reading} {name : Token} {storage : Storage} {type : CType} (hmet : Met k o u name)
    (hut : u.Trail k t) (h : u.Finds name.literal storage type) :
    Built k o t (.expr (.ident name.literal name.pos storage type))
  | node {u : Reading} {e : Expr} (hou : o.Trail k u) (hut : u.Trail k t) (h : u.Allows e) :
    Built k o t (.expr e)
  | stmt {st : Stmt} : Built k o t (.stmt st)

/-- A tree built node by node. -/
abbrev BuiltExpr (k : Layer) (o t : Reading) (e : Expr) : Prop :=
  (Node.expr e).All (Built k o t)

/-- A statement built node by node. -/
abbrev BuiltStmt (k : Layer) (o t : Reading) (st : Stmt) : Prop :=
  (Node.stmt st).All (Built k o t)

variable {k : Layer} {o s t : Reading}

theorem Built.mono {node : Node} (h : Built k o s node) (hst : s.Trail k t) :
    Built k o t node := by
  cases h with
  | name hmet hus h => exact .name hmet (hus.trans hst) h
  | node hou hus h => exact .node hou (hus.trans hst) h
  | stmt => exact .stmt

theorem Met.mono {name : Token} (h : Met k o s name) (hst : s.Trail k t) : Met k o t name := by
  obtain ⟨u, hou, hu, hus⟩ := h.passed
  exact ⟨h.kind, u, hou, hu, hus.trans hst⟩

theorem Met.trail {name : Token} (h : Met k o s name) : o.Trail k s := by
  obtain ⟨u, hou, -, hus⟩ := h.passed
  exact hou.trans (.trans (.next (.refl u)) hus)

theorem all_built_mono {node : Node} (h : node.All (Built k o s)) (hst : s.Trail k t) :
    node.All (Built k o t) :=
  fun below hb => (h below hb).mono hst

/-! ## Readings along a trail -/

namespace Making

/-- A state on a trail from `o` on. -/
abbrev Moment (k : Layer) (o : Reading) : Type :=
  { t : Reading // o.Trail k t }

/-- A reading along a trail from `o` on and itself. It is followed what is built and of which types
if `built`, and whether the bound on the depth lasts if `lasts`. -/
def pairing (k : Layer) (o : Reading) (built lasts : Prop) : Pairing where
  World := Moment k o
  Le w v := w.1.Trail k v.1
  State w s s' := s' = s ∧ s = w.1
  Lost _ := False
  Excused _ := False
  Fails w c s c' s' := (c' = c ∧ s' = s) ∧ w.1.Trail k s ∧ (lasts → c.fault ≠ .exhausted)
  Moved w v := w.1.Trail k v.1 ∧ (w.1.Ended → v.1.left < w.1.left)
  Fresh _ := True
  Enough c w n m := n = m ∧ (lasts → w.1.Ended ∧ 2 * w.1.left + c < n)
  Names _ := True
  layer := k
  Source file source file' source' := file' = file ∧ source' = source
  Current w t t' := t' = t ∧ t = w.1.current
  Taken w t t' := t' = t ∧ (built → t.kind = .identifier → Met k o w.1 t)
  Pos _ p p' := p' = p
  Typ t := built → t.Formed o.env.layout.limits.arrayLength.toInt
  Sized _ := True
  Lay w l l' := l' = l ∧ l = w.1.env.layout
  Exp w e e' := e' = e ∧ (built → BuiltExpr k o w.1 e)
  Val w e e' := e' = e ∧ (built → BuiltExpr k o w.1 e) ∧ ∀ elem n, e.type ≠ .array elem n
  Sig w name s s' := s' = s ∧ ∃ u : Moment k o, u.1.Trail k w.1 ∧
    u.1.env.signatures.get? name = some s
  Prm _ p p' := p' = p
  Stm w s s' := s' = s ∧ (built → BuiltStmt k o w.1 s)

variable {built lasts : Prop} {w v : Moment k o}

/-- Causes in the text are not the bound. -/
theorem ne_exhausted {fault : Fault} (h : (fault.kind == .internal) = false) :
    fault ≠ .exhausted := by
  rintro rfl
  cases h

/-- What is complained of is not the bound. -/
theorem fails {s s' : Reading} {fault : Fault} {p p' : Int}
    (hs : (pairing k o built lasts).State w s s') (hf : lasts → fault ≠ .exhausted)
    (hp : p' = p) : (pairing k o built lasts).Fails w ⟨fault, p⟩ s ⟨fault, p'⟩ s' := by
  obtain ⟨rfl, rfl⟩ := hs
  exact ⟨⟨by rw [hp], rfl⟩, .refl _, hf⟩

/-- A later moment. -/
def Moment.on (w : Moment k o) (h : w.1.Trail k t) : Moment k o :=
  ⟨t, w.2.trans h⟩

/-- The moment behind the next token. -/
def later (w : Moment k o) : Moment k o :=
  ⟨w.1.rest, .next w.2⟩

/-- Every step on tokens is a move. -/
def steps (k : Layer) (o : Reading) (built lasts : Prop) : Steps where
  toPairing := pairing k o built lasts
  refl w := .refl w.1
  trans h h' := h.trans h'
  lost _ h := h
  excused h := h.elim
  fails h hf := ⟨hf.1, h.trans hf.2.1, hf.2.2⟩
  le h := h.1
  moved h h' := ⟨h.trans h'.1, fun hs => Nat.lt_of_lt_of_le (h'.2 (h.ended hs)) h.left_le⟩
  moved_le h h' := ⟨h.1.trans h', fun hs => Nat.lt_of_le_of_lt h'.left_le (h.2 hs)⟩
  names _ h := h
  pos _ h := h
  taken h ht := ⟨ht.1, fun hb hk => (ht.2 hb hk).mono h⟩
  enough_succ h := ⟨_, h.1.symm⟩
  enough_down h := ⟨Nat.succ.inj h.1, fun hl => ⟨(h.2 hl).1, by have := (h.2 hl).2; omega⟩⟩
  enough_le hc h := ⟨h.1, fun hl => ⟨(h.2 hl).1, by have := (h.2 hl).2; omega⟩⟩
  enough_mono hle h := by
    refine ⟨h.1, fun hl => ⟨hle.ended (h.2 hl).1, ?_⟩⟩
    have hlt := (h.2 hl).2
    have hleft := hle.left_le
    omega
  enough_moved hm h := by
    refine ⟨h.1, fun hl => ⟨hm.1.ended (h.2 hl).1, ?_⟩⟩
    have hlt := (h.2 hl).2
    have hleft := hm.2 (h.2 hl).1
    omega
  used := by
    rintro c w _ s s' ⟨rfl, hlasts⟩ hs
    have hpos : (s'.current.pos : Int) = s.current.pos := by rw [hs.1]
    exact .inr ⟨rfl, fails hs (fun hl => absurd (hlasts hl).2 (Nat.not_lt_zero _)) hpos⟩
  current := by
    rintro w _ _ ⟨rfl, rfl⟩
    exact ⟨w, w.1, .refl _, ⟨rfl, rfl⟩, ⟨rfl, rfl⟩, .inr rfl⟩
  kind h := by rw [h.1]
  literal h := by rw [h.1]
  current_pos h := by rw [h.1]; rfl
  taken_literal h := by rw [h.1]
  taken_pos h := by rw [h.1]; rfl
  peek := by
    rintro w s _ ⟨rfl, _⟩
    exact .inl rfl
  rest := by
    rintro w _ _ ⟨rfl, rfl⟩
    exact ⟨later w, w.1.rest, .next (.refl _), ⟨rfl, rfl⟩, .inr rfl⟩
  rest_taken := by
    rintro w _ _ _ _ ⟨rfl, rfl⟩ hend _ ⟨rfl, rfl⟩
    exact ⟨later w, w.1.rest, .next (.refl _), ⟨rfl, rfl⟩, .inr rfl,
      ⟨.next (.refl _), fun hs => Reading.left_rest hs hend⟩, trivial, rfl,
      fun _ hk => ⟨hk, w.1, w.2, rfl, .refl _⟩⟩
  complaint := by
    rintro w p p' s s' fault hkind _ hp hs
    exact .inr (fails hs (fun _ => ne_exhausted hkind) hp)
  unwanted := by
    rintro w t _ s s' wanted ⟨rfl, _⟩ hs
    exact .inr (fails hs (fun _ h => nomatch h) rfl)

/-- A rule of which the results are known. -/
theorem answers {α : Type} {Q : α → α → Prop} {r : Checked α} (hr : Fair False r)
    (hok : ∀ a, r = .ok a → Q a a) : (steps k o built lasts).Answers w Q r r :=
  .same hok fun c _ _ hc hs => fails hs (fun _ => (hr c hc).1) rfl

/-- A step that succeeds. -/
theorem outcome_on {α : Type} {Q : Moment k o → α → α → Prop} {a : α} (h : w.1.Trail k t)
    (hQ : Q (w.on h) a a) : (steps k o built lasts).Outcome w Q (.ok a t) (.ok a t) :=
  ⟨w.on h, a, t, h, ⟨rfl, rfl⟩, hQ, .inr rfl⟩

/-- What is allowed at a moment is built there. -/
theorem built_of_allows (w : Moment k o) {e : Expr} (h : w.1.Allows e) :
    Built k o w.1 (.expr e) :=
  .node w.2 (.refl _) h

/-- A scalar is no array. -/
theorem ne_array {t : CType} (h : t.isScalar) (elem : CType) (n : Int64) : t ≠ .array elem n := by
  rintro rfl
  cases h

/-- A statement of which the parts are built. -/
theorem built_stmt {st : Stmt} (h : ∀ child ∈ (Node.stmt st).children, child.All (Built k o t)) :
    BuiltStmt k o t st :=
  Node.all_iff.mpr ⟨.stmt, h⟩

/-- What comes behind the next token is beyond it. -/
theorem moved_of_later (hend : w.1.current.kind ≠ .endOfFile) (h : (later w).1.Trail k v.1) :
    (steps k o built lasts).Moved w v :=
  ⟨.trans (.next (.refl _)) h, fun hs =>
    Nat.lt_of_le_of_lt h.left_le (Reading.left_rest hs hend)⟩

/-- The definition of a struct is one move from its keyword on. -/
theorem structBody_outcome {n m : Nat} (hk : w.1.current.kind = .keyword .struct)
    (hname : w.1.rest.current.kind = .identifier)
    (hbrace : w.1.rest.rest.current.kind = .punct .leftBrace)
    (hmembers : (steps k o built lasts).Alike (later (later (later w)))
      (members w.1.rest.current.literal n) (members w.1.rest.current.literal m)
      (steps k o built lasts).Fields) :
    (steps k o built lasts).Outcome w (fun v _ _ => (steps k o built lasts).Moved w v)
      (structBody w.1.rest.current (members w.1.rest.current.literal n) w.1.rest.rest.rest)
      (structBody w.1.rest.current (members w.1.rest.current.literal m) w.1.rest.rest.rest) := by
  have hhead : w.1.Trail k w.1.rest.rest.rest := .next (.next (.next (.refl _)))
  have hm : (steps k o built lasts).Outcome (later (later (later w)))
      (steps k o built lasts).Fields
      (members w.1.rest.current.literal n w.1.rest.rest.rest)
      (members w.1.rest.current.literal m w.1.rest.rest.rest) := hmembers _ _ ⟨rfl, rfl⟩
  unfold Pairing.Outcome at hm
  unfold structBody
  -- Whatever the members are, the struct is defined behind all of them, or not at all.
  cases hr : members w.1.rest.current.literal n w.1.rest.rest.rest with
  | error c u =>
    rw [hr] at hm
    rw [run_bind_of_error hr]
    obtain hc | ⟨c', u', hr', hfails⟩ := hm
    · exact hc.elim
    · rw [run_bind_of_error hr']
      exact .error ⟨hfails.1, hhead.trans hfails.2.1, hfails.2.2⟩
  | ok fields u =>
    rw [hr] at hm
    obtain ⟨v, _, _, hle, ⟨rfl, rfl⟩, ⟨rfl, _⟩, hr'⟩ := hm
    rw [run_bind_of_ok hr, run_bind_of_ok (hr'.resolve_left id)]
    have hbody : w.1.rest.rest.rest.Trail k v.1 := hle
    cases hd : v.1.env.layout.define w.1.rest.current.literal _ with
    | ok l =>
      rw [run_defineStruct_ok hd]
      have hstruct : w.1.Trail k { v.1 with env := { v.1.env with layout := l } } :=
        .struct (.refl _) hk hname hbrace hbody hr hd
      have hleft : v.1.left ≤ w.1.rest.left := by
        have htrail : w.1.rest.Trail k v.1 := .trans (.next (.next (.refl _))) hbody
        exact htrail.left_le
      exact outcome_on hstruct ⟨hstruct, fun hs =>
        Nat.lt_of_le_of_lt hleft (Reading.left_rest hs (by simp [hk]))⟩
    | error fault =>
      rw [run_defineStruct_error hd]
      exact .error ⟨⟨rfl, rfl⟩, hhead.trans hbody, fun _ h => nomatch h⟩

/-- A struct keyword, its name and its body, if there is one. -/
theorem structType_alike {n m : Nat} (hk : w.1.current.kind = .keyword .struct)
    (hmembers : ∀ v name, (steps k o built lasts).Moved w v →
      (steps k o built lasts).Alike v (members name n) (members name m)
        (steps k o built lasts).Fields) :
    (steps k o built lasts).Alike w (structType fun name => members name n)
      (structType fun name => members name m)
      ((steps k o built lasts).Beyond w (steps k o built lasts).Types) := by
  rintro _ _ ⟨rfl, rfl⟩
  have hend : w.1.current.kind ≠ .endOfFile := by simp [hk]
  unfold structType
  rw [run_bind_of_ok (run_next _), run_bind_of_ok (run_next _)]
  by_cases hname : w.1.rest.current.kind = .identifier
  · rw [run_bind_of_ok (run_expect hname), run_bind_of_ok (run_expect hname)]
    -- Only with a body is a struct defined. Without one it is mentioned.
    by_cases hbrace : w.1.rest.rest.current.kind = .punct .leftBrace
    · rw [run_bind_of_ok (run_accept hbrace), run_bind_of_ok (run_accept hbrace)]
      have hbody := structBody_outcome hk hname hbrace
        (hmembers (later (later (later w))) w.1.rest.current.literal
          (moved_of_later hend (.next (.next (.refl _)))))
      exact hbody.bind fun v _ _ _ hv => .pure ⟨hv, rfl, fun _ => trivial⟩
    · rw [run_bind_of_ok (run_accept_of_ne hbrace), run_bind_of_ok (run_accept_of_ne hbrace)]
      exact outcome_on (.next (.next (.refl _)))
        ⟨moved_of_later hend (.next (.refl _)), rfl, fun _ => trivial⟩
  · have hexpect : (steps k o built lasts).Outcome (later w) (fun _ _ _ => False)
        (expect .identifier w.1.rest) (expect .identifier w.1.rest) := by
      rw [run_expect_of_ne hname]
      exact Pairing.Alike.unexpected _ _ ⟨rfl, rfl⟩
    have hle : (steps k o built lasts).Le w (later w) := .next (.refl w.1)
    exact .of_le hle (hexpect.bind fun _ _ _ _ h => h.elim)

end Making

open Making in
/-- **Every reader keeps to a trail**, and what it builds is allowed on the way. -/
def making (k : Layer) (o : Reading) (built lasts : Prop) : Likeness where
  toSteps := steps k o built lasts
  exp hle h := ⟨h.1, fun hb => all_built_mono (h.2 hb) hle⟩
  val hle h := ⟨h.1, fun hb => all_built_mono (h.2.1 hb) hle, h.2.2⟩
  sig hle h := ⟨h.1, h.2.imp fun _ hu => ⟨hu.1.trans hle, hu.2⟩⟩
  prm _ h := h
  stm hle h := ⟨h.1, fun hb => all_built_mono (h.2 hb) hle⟩
  exp_of_val h := ⟨h.1, h.2.1⟩
  type h := by rw [h.1]
  isPlace h := by rw [h.1]
  sized _ := trivial
  sized_type _ := trivial
  assignable h := by rw [h.1]
  int := by
    rintro w _ p n rfl
    exact ⟨rfl, fun _ => all_leaf (built_of_allows w .num) rfl, fun _ _ h => nomatch h⟩
  typ_int _ := trivial
  typ_char _ := trivial
  typ_void _ := trivial
  typ_pointer h := h
  lay := by
    rintro _ _ _ ⟨rfl, rfl⟩
    exact ⟨rfl, rfl⟩
  size := by
    rintro _ _ l _ p t ⟨rfl, _⟩ rfl _
    exact answers (.located fun h => h.elim) fun _ _ => rfl
  alignment := by
    rintro _ _ l _ p t ⟨rfl, _⟩ rfl _
    exact answers (.located fun h => h.elim) fun _ _ => rfl
  characters := by
    rintro w _ _ _ p n ⟨rfl, rfl⟩ rfl
    refine answers (.located fun h => h.elim) fun t ht => ?_
    have hform := Layout.array_formed (t := .char) (Int.le_of_eq (by rw [w.2.limits])) trivial
      (located_ok.mp ht)
    exact ⟨rfl, hform.1, fun _ => hform.2⟩
  arrayOf := by
    rintro w _ _ ds ds' t ⟨rfl, rfl⟩ ht hds
    obtain rfl := hds.eq fun _ _ h => h
    exact answers (arrayOf_fair _) fun _ h =>
      ⟨rfl, fun hb => arrayOf_formed (Int.le_of_eq (by rw [w.2.limits])) (ht hb) h⟩
  rvalue := by
    rintro w _ e ⟨rfl, he⟩
    exact answers rvalue_fair fun _ h =>
      ⟨rfl, fun hb => rvalue_all (fun _ => built_of_allows w) h (he hb), rvalue_type h⟩
  deref := by
    rintro w _ p _ e rfl ⟨rfl, he, _⟩
    exact answers deref_fair fun _ h =>
      ⟨rfl, fun hb => deref_all (fun _ => built_of_allows w) h (he hb)⟩
  addressOf := by
    rintro w _ p _ e rfl ⟨rfl, he⟩
    exact answers addressOf_fair fun _ h =>
      ⟨rfl, fun hb => addressOf_all (fun _ => built_of_allows w) h (he hb)⟩
  binary := by
    rintro w _ _ op _ p _ a _ b ⟨rfl, rfl⟩ rfl ⟨rfl, ha, _⟩ ⟨rfl, hb, _⟩
    exact answers (binary_fair (B := 0) (n := 0) (fun h => h.elim) fun h => h.elim) fun _ h =>
      ⟨rfl, fun hbuilt => binary_all (fun _ => built_of_allows w) h (ha hbuilt) (hb hbuilt),
        ne_array (binary_isScalar h)⟩
  assign := by
    rintro w _ _ op _ p _ a _ b ho ⟨rfl, rfl⟩ rfl ⟨rfl, ha⟩ ⟨rfl, hb⟩
    exact answers (assign_fair (B := 0) (n := 0) fun h => h.elim) fun _ h =>
      ⟨rfl, fun hbuilt => assign_all (fun _ => built_of_allows w) h ho (ha hbuilt) (hb hbuilt),
        ne_array (assign_isScalar h)⟩
  dot := by
    rintro w _ _ _ p _ e struct _ name ⟨rfl, rfl⟩ rfl ⟨rfl, he⟩ _ _ ⟨⟨rfl, _⟩, _⟩
    exact answers member_fair fun _ h => ⟨rfl, fun hb => member_all (fun _ => built_of_allows w) h
      (all_unary (built_of_allows w .unary) (he hb)) rfl⟩
  arrow := by
    rintro w _ _ _ p _ e struct _ name ⟨rfl, rfl⟩ rfl ⟨rfl, he, hne⟩ htype ⟨⟨rfl, _⟩, _⟩
    have hpointer : e.type = .pointer (.struct struct) := by
      cases hte : e.type with
      | array elem n => exact absurd hte (hne elem n)
      | pointer elem =>
        rw [hte] at htype
        rw [Option.some.inj htype]
      | _ =>
        rw [hte] at htype
        cases htype
    exact answers member_fair fun _ h =>
      ⟨rfl, fun hb => member_all (fun _ => built_of_allows w) h (he hb) hpointer⟩
  arguments := by
    rintro _ function index args args' types hargs
    obtain rfl := hargs.eq (fun _ _ h => h.1) fun _ _ h => h
    exact answers checkArguments_fair fun _ _ => trivial
  params h := by rw [h.1]
  ret h := by rw [h.1]
  call := by
    rintro w _ sig _ name args args' ⟨rfl, u, huw, hsig⟩ ⟨⟨rfl, _⟩, _⟩ hargs hlen hcheck
    have hsame : args'.map (·.1) = args.map (·.1) ∧
        ∀ a ∈ args.map (·.1), (built → BuiltExpr k o w.1 a) ∧ ∀ elem n, a.type ≠ .array elem n :=
      eq_of_forall₂ (List.forall₂_map_left_iff.mpr
        (List.forall₂_map_right_iff.mpr (hargs.imp fun _ _ ha => ha.1)))
    refine ⟨by rw [hsame.1], fun hb => all_call ?_ fun a ha => (hsame.2 a ha).1 hb⟩
    exact .node u.2 huw (.call ⟨sig, hsig, checkArguments_ok hlen hcheck, rfl⟩)
  eval := by
    rintro _ _ e ⟨⟨rfl, he⟩, _⟩
    exact ⟨rfl, fun hb => built_stmt (by simpa [Node.children] using he hb)⟩
  exit := by
    rintro _ _ p _ e rfl ⟨rfl, he, _⟩ _
    exact ⟨rfl, fun hb => built_stmt (by simpa [Node.children] using he hb)⟩
  retNone := by
    rintro _ _ p rfl
    exact ⟨rfl, fun _ => built_stmt (by simp [Node.children])⟩
  retSome := by
    rintro _ _ p _ e rfl ⟨rfl, he, _⟩
    exact ⟨rfl, fun hb => built_stmt (by simpa [Node.children] using he hb)⟩
  ifThen := by
    rintro _ _ e _ a ⟨rfl, he, _⟩ ⟨rfl, ha⟩
    exact ⟨rfl, fun hb => built_stmt (by simpa [Node.children] using ⟨he hb, ha hb⟩)⟩
  ifElse := by
    rintro _ _ e _ a _ b ⟨rfl, he, _⟩ ⟨rfl, ha⟩ ⟨rfl, hb⟩
    exact ⟨rfl, fun hbuilt => built_stmt
      (by simpa [Node.children] using ⟨he hbuilt, ha hbuilt, hb hbuilt⟩)⟩
  loop := by
    rintro _ _ e _ a ⟨rfl, he, _⟩ ⟨rfl, ha⟩
    exact ⟨rfl, fun hb => built_stmt (by simpa [Node.children] using ⟨he hb, ha hb⟩)⟩
  block := by
    intro _ as as' has
    obtain ⟨rfl, has⟩ := eq_of_forall₂ has
    exact ⟨rfl, fun hb => built_stmt (by simpa [Node.children] using fun a ha => has a ha hb)⟩
  push := by
    rintro w _ _ hk ⟨rfl, rfl⟩
    have hpush : w.1.Trail k { w.1 with scope := w.1.scope.push } := .scope hk (.refl _) rfl
    exact ⟨⟨_, w.2.trans hpush⟩, hpush, rfl, rfl⟩
  pop := by
    rintro w _ _ hk ⟨rfl, rfl⟩
    have hpop : w.1.Trail k { w.1 with scope := w.1.scope.pop } :=
      .scope hk (.refl _) (Scope.locals_pop _)
    exact ⟨⟨_, w.2.trans hpop⟩, hpop, rfl, rfl⟩
  fails_pop := by
    rintro _ _ _ c s hk ⟨⟨rfl, rfl⟩, hs, hc⟩
    exact ⟨⟨rfl, rfl⟩, .scope hk hs (Scope.locals_pop _), hc⟩
  resolve := by
    rintro w _ name _ ⟨⟨rfl, hmet⟩, hkind⟩ _ _ ⟨rfl, rfl⟩
    cases hv : w.1.scope.lookup? name.literal with
    | some v =>
      rw [run_resolve_local hv]
      exact .ok (.refl _) ⟨rfl, rfl⟩
        ⟨rfl, fun hb => all_leaf (.name (hmet hb hkind) (.refl _) (.stack hv)) rfl⟩
    | none =>
      cases hg : w.1.env.globals.get? name.literal with
      | some g =>
        rw [run_resolve_global hv hg]
        exact .ok (.refl _) ⟨rfl, rfl⟩
          ⟨rfl, fun hb => all_leaf (.name (hmet hb hkind) (.refl _) (.static hv hg)) rfl⟩
      | none =>
        rw [run_resolve_none hv hg]
        exact .error (fails ⟨rfl, rfl⟩ (fun _ => ne_exhausted Reading.unresolved_kind) rfl)
  callee := by
    rintro w _ name _ ⟨⟨rfl, _⟩, _⟩ _ _ ⟨rfl, rfl⟩
    cases hc : w.1.callee? name.literal with
    | some sig =>
      rw [run_callee_some hc]
      exact .ok (.refl _) ⟨rfl, rfl⟩ ⟨rfl, w, .refl _, Reading.signature_of_callee hc⟩
    | none =>
      rw [run_callee_none hc]
      exact .error (fails ⟨rfl, rfl⟩ (fun _ => ne_exhausted Reading.uncallable_kind) rfl)
  pooled := by
    rintro w _ p value rfl _ _ _ ⟨rfl, rfl⟩
    have hintern : w.1.Trail k { w.1 with env := (w.1.env.intern value).2 } :=
      .intern (.refl _) value
    exact outcome_on hintern
      ⟨rfl, fun _ => all_leaf (.node w.2 hintern .str) rfl⟩
  struct := by
    rintro w _ _ n m ⟨rfl, rfl⟩ hk hmembers
    exact structType_alike hk hmembers
  addLocal := by
    rintro w _ name type _ _ n hk _ ⟨⟨rfl, hmet⟩, hkind⟩ _ _ ⟨rfl, rfl⟩ hsize _ _ ⟨rfl, rfl⟩
    cases hd : w.1.scope.declare? name.literal type with
    | some r =>
      obtain ⟨id, sc⟩ := r
      rw [run_addLocal_some hd]
      have hinner : w.1.Trail k (w.1.withLocal sc ⟨name.literal, type, id, name.pos⟩) :=
        .inner hk (.refl _) (Scope.locals_declare? hd) (Layout.knows_of_size hsize)
      refine outcome_on hinner ⟨rfl, fun hb => ?_⟩
      have hlookup : sc.lookup? name.literal = some ⟨id, type⟩ := Scope.lookup?_declare? hd
      have hfinds : (w.1.withLocal sc ⟨name.literal, type, id, name.pos⟩).Finds name.literal
          (.stack id) type := .stack (v := ⟨id, type⟩) hlookup
      exact all_leaf (.name ((hmet hb hkind).mono hinner) (.refl _) hfinds) rfl
    | none =>
      rw [run_addLocal_none hd]
      exact .error (fails ⟨rfl, rfl⟩ (fun _ h => nomatch h) rfl)
  addParameter := by
    rintro w _ name type hk _ ⟨⟨rfl, _⟩, _⟩ _ _ _ _ _ ⟨rfl, rfl⟩
    cases hd : w.1.scope.declare? name.literal type.decay with
    | some r =>
      obtain ⟨id, sc⟩ := r
      rw [run_addParameter_some hd]
      have hparam : w.1.Trail k (w.1.withParam sc) := .param hk (.refl _) (Scope.locals_declare? hd)
      exact outcome_on hparam rfl
    | none =>
      rw [run_addParameter_none hd]
      exact .error (fails ⟨rfl, rfl⟩ (fun _ h => nomatch h) rfl)
  addGlobal := by
    rintro w _ name type hk ⟨⟨rfl, _⟩, _⟩ _ _ _ _ ⟨rfl, rfl⟩
    have hmake := Reading.Trail.declare hk (.refl w.1)
      (.global ⟨name.literal, type, name.pos⟩ w.1.env.layout)
    exact outcome_on hmake trivial
  enter := by
    rintro w hk _ _ ⟨rfl, rfl⟩
    have henter : w.1.Trail k w.1.entered := .enter hk (.refl _)
    exact outcome_on henter trivial
  declareFunction := by
    rintro w ret _ name params params' hk ⟨⟨rfl, _⟩, _⟩ _ _ _ hps _ _ ⟨rfl, rfl⟩
    obtain rfl : params' = params := List.forall₂_eq_eq_eq ▸ hps.flip
    have hmake := Reading.Trail.declare hk (.refl w.1)
      (.declared ⟨name.literal, params'.map (·.type), ret, name.pos⟩)
    exact outcome_on hmake trivial
  defineFunction := by
    rintro w file source _ _ ret _ name params params' body body' hk _ ⟨rfl, rfl⟩ ⟨⟨rfl, _⟩, _⟩ hps
      hbody _ _ ⟨rfl, rfl⟩
    obtain rfl : params' = params := List.forall₂_eq_eq_eq ▸ hps.flip
    obtain ⟨rfl, _⟩ := eq_of_forall₂ hbody
    have hmake (f : Function) : w.1.Trail k
        (w.1.made (.defined f w.1.log.params w.1.log.locals)) := .declare hk (.refl _) _
    exact outcome_on (hmake _) fun h => h

end Grammar

end DirectC
