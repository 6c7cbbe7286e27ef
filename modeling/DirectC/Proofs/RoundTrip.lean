/-
# Printing and reading

Integer expressions can be read from their own texts: in an environment and a scope that know the
names, the text of an expression and a semicolon are read as the expression again, up to positions,
and nothing but the semicolon is left (`Grammar.assignment_text`). A printed expression is a single
operand, since all parentheses are there; so the ladder of precedences is climbed once for each pair
of parentheses, and stops at the one operator between them.
-/
import DirectC.Proofs.Grammar.Allowed
import DirectC.Proofs.Grammar.Extension
import DirectC.Proofs.PrintedText

namespace DirectC

namespace Grammar

/-! ## Tokens that are passed -/

/-- The state `t` is the state `s` behind the tokens `ts`. -/
structure Reading.Past (s : Reading) (ts : List Token) (t : Reading) : Prop where
  text : s.text = ts ++ t.text
  env : t.env = s.env
  scope : t.scope = s.scope
  log : t.log = s.log

namespace Reading.Past

variable {s t : Reading} {x : Token} {ts us : List Token}

/-- Behind no tokens at all the state is the same. -/
theorem eq (h : s.Past [] t) : s = t :=
  eq_of_text h.text h.env.symm h.scope.symm h.log.symm

/-- The first of the tokens is the next one. -/
theorem current (h : s.Past (x :: ts) t) : s.current = x :=
  (List.cons.inj h.text).1

/-- The other tokens come next, and then what is left. -/
theorem ahead (h : s.Past (x :: ts) t) : s.ahead = ts ++ t.text :=
  (List.cons.inj h.text).2

/-- Going on takes the first of the tokens. -/
theorem rest (h : s.Past (x :: ts) t) : s.rest.Past ts t := by
  refine ⟨?_, by rw [rest_env]; exact h.env, by rw [rest_scope]; exact h.scope,
    by rw [rest_log]; exact h.log⟩
  have hahead := h.ahead
  unfold Reading.rest
  split
  · rename_i hnil
    rw [hnil] at hahead
    exact absurd hahead.symm (by simp [Reading.text])
  · rename_i hcons
    exact hcons.symm.trans hahead

/-- There is a state between two parts of the tokens. -/
theorem split (h : s.Past (ts ++ us) t) : ∃ m, s.Past ts m ∧ m.Past us t := by
  have hne : us ++ t.text ≠ [] := by simp [Reading.text]
  obtain ⟨x, rest, hrest⟩ := List.exists_cons_of_ne_nil hne
  refine ⟨{ s with current := x, ahead := rest }, ⟨?_, rfl, rfl, rfl⟩,
    ⟨hrest.symm, h.env, h.scope, h.log⟩⟩
  rw [h.text, List.append_assoc, hrest]
  rfl

end Reading.Past

variable {s t u : Reading} {n : Nat}

theorem run_token (s : Reading) : token s = .ok s.current s := rfl

theorem run_peekKind (s : Reading) : peekKind s = .ok (s.ahead.headD s.current).kind s := rfl

theorem run_layout (s : Reading) : layout s = .ok s.env.layout s := rfl

theorem run_environment (s : Reading) : environment s = .ok s.env s := rfl

theorem run_scope (s : Reading) : scope s = .ok s.scope s := rfl

/-- An operator that is there is read. -/
theorem run_expectPunct {p : Punct} (h : s.current.kind = .punct p) :
    expectPunct p s = .ok s.current s.rest :=
  run_expect h

/-! ## Operators -/

/-- A row ends where no operator of its level follows. -/
theorem chain_none {operand : Read Expr} {level : List LevelOp} {left : Expr}
    (h : findOp level s.current.kind = none) :
    chain operand level (n + 1) left s = .ok left s := by
  rw [chain, chainRound, run_bind_of_ok (run_token s), h]
  rfl

/-- An operator of the level goes on with its row. -/
theorem chain_some {operand : Read Expr} {level : List LevelOp} {left right e : Expr} {o : LevelOp}
    (h : findOp level s.current.kind = some o) (hright : operand s.rest = .ok right t)
    (hjoin : join o s.current.pos left right t = .ok e t) :
    chain operand level (n + 1) left s = chain operand level n e t := by
  rw [chain, chainRound, run_bind_of_ok (run_token s), h]
  dsimp only
  rw [run_bind_of_ok (run_next s), run_bind_of_ok hright, run_bind_of_ok hjoin]

/-- An operand alone, before a token that is no operator. -/
theorem cascade_operand {operand : Read Expr} {e : Expr} {tiers : List (List LevelOp)}
    (h : operand s = .ok e t) (hend : ∀ level ∈ tiers, findOp level t.current.kind = none) :
    cascade operand (n + 1) tiers s = .ok e t := by
  induction tiers with
  | nil => exact h
  | cons level tighter ih =>
    rw [cascade, run_bind_of_ok (ih fun l hl => hend l (List.mem_cons_of_mem level hl)),
      chain_none (hend level List.mem_cons_self)]

/-- Two operands with an operator between them, before a token that is no operator. -/
theorem cascade_binary {operand : Read Expr} {left right e : Expr} {o : LevelOp}
    {looser tighter : List (List LevelOp)} {level : List LevelOp}
    (hleft : operand s = .ok left t) (ho : findOp level t.current.kind = some o)
    (htighter : ∀ l ∈ tighter, findOp l t.current.kind = none)
    (hright : operand t.rest = .ok right u)
    (hend : ∀ l ∈ looser ++ level :: tighter, findOp l u.current.kind = none)
    (hjoin : join o t.current.pos left right u = .ok e u) :
    cascade operand (n + 2) (looser ++ level :: tighter) s = .ok e u := by
  induction looser with
  | nil =>
    have hend' (l : List LevelOp) (hl : l ∈ tighter) := hend l (List.mem_cons_of_mem level hl)
    rw [List.nil_append, cascade, run_bind_of_ok (cascade_operand hleft htighter),
      chain_some ho (cascade_operand hright hend') hjoin,
      chain_none (hend level List.mem_cons_self)]
  | cons first looser ih =>
    rw [List.cons_append, cascade,
      run_bind_of_ok (ih fun l hl => hend l (List.mem_cons_of_mem first hl)),
      chain_none (hend first List.mem_cons_self)]

/-! ## Integers -/

/-- Integers need no conversion. -/
theorem rvalue_integer {e : Expr} (h : e.type.isInteger) : rvalue e = .ok e := by
  unfold rvalue
  cases htype : e.type <;> simp [htype, CType.isInteger] at h ⊢

/-- All operators that are printed take integers. -/
theorem binary_integer {l : Layout} {op : BinaryOp} {pos : Int} {left right : Expr}
    (hop : op ∈ Expr.operations) (hleft : left.type.isInteger) (hright : right.type.isInteger) :
    binary l op pos left right = .ok (.binary op pos left right .int) := by
  cases op <;> simp [Expr.operations] at hop <;>
    simp [binary, add, sub, comparable, CType.isScalar, hleft, hright] <;> rfl

/-- Two integers are joined in their order, or the other way round for an operator that is swapped.
-/
theorem join_integer {o : LevelOp} {pos : Int} {left right : Expr} (hop : o.op ∈ Expr.operations)
    (hleft : left.type.isInteger) (hright : right.type.isInteger) :
    join o pos left right s = .ok (if o.swap then .binary o.op pos right left .int
      else .binary o.op pos left right .int) s := by
  unfold join
  rw [rvalue_integer hleft, rvalue_integer hright]
  change (if o.swap then checked (binary s.env.layout o.op pos right left)
    else checked (binary s.env.layout o.op pos left right)) s = _
  rw [binary_integer hop hleft hright, binary_integer hop hright hleft]
  split <;> rfl

/-- Any integer can be assigned to an integer place. -/
theorem assign_integer {l : Layout} {op : BinaryOp} {pos : Int} {left right : Expr}
    (hop : op ∈ Expr.assignments) (hplace : left.isPlace) (hleft : left.type.isInteger)
    (hright : right.type.isInteger) :
    assign l op pos left right = .ok (.binary op pos left right left.type) := by
  unfold assign
  dsimp only
  rw [if_neg (by simp [hplace]), if_neg (by simp [CType.isScalar, hleft]), rvalue_integer hright]
  dsimp only [bind, Except.bind]
  cases op <;> simp [Expr.assignments] at hop <;> simp [assignable, hleft, hright] <;> rfl

/-! ## Operands -/

/-- Tokens that go on with an operand. -/
def continues : Token.Kind → Bool
  | .punct .leftParen | .punct .leftBracket | .punct .dot | .punct .arrow | .punct .increment
  | .punct .decrement => true
  | _ => false

/-- Operators behind an operand. -/
def isPostfix : Token.Kind → Bool
  | .punct .leftBracket | .punct .dot | .punct .arrow => true
  | .punct .increment | .punct .decrement => true
  | _ => false

/-- Tokens that start an operand of their own. -/
def begins : Token.Kind → Bool
  | .number | .identifier | .punct .leftParen => true
  | _ => false

/-- Tokens that end an expression. -/
def closes : Token.Kind → Bool
  | .punct .rightParen | .punct .comma | .punct .semicolon => true
  | _ => false

/-- What closes an expression neither goes on with an operand nor is an operator. -/
theorem closes_ends {k : Token.Kind} (h : closes k) :
    (∀ level ∈ levels, findOp level k = none) ∧ assignOp? k = none ∧ continues k = false := by
  unfold closes at h
  split at h
  · decide
  · decide
  · decide
  · cases h

/-- All postfix operators go on with an operand. -/
theorem isPostfix_of_continues {k : Token.Kind} (h : continues k = false) :
    isPostfix k = false := by
  cases k with
  | punct p => cases p <;> simp_all [continues, isPostfix]
  | _ => rfl

/-- How printed operands begin. -/
theorem begins_cases {k : Token.Kind} (h : begins k) :
    k = .number ∨ k = .identifier ∨ k = .punct .leftParen := by
  unfold begins at h
  split at h
  · exact .inl rfl
  · exact .inr (.inl rfl)
  · exact .inr (.inr rfl)
  · cases h

/-- A row of postfix operators ends where none follows. -/
theorem postfixes_end {expr : Read Expr} {e : Expr} (h : isPostfix s.current.kind = false) :
    postfixes expr (n + 1) e s = .ok e s := by
  rw [postfixes, postfixesRound, run_bind_of_ok (run_token s)]
  cases hkind : s.current.kind with
  | punct p =>
    rw [hkind] at h
    cases p <;> first | rfl | cases h
  | _ => rfl

/-- An operand without prefix and postfix operators is a primary expression. -/
theorem unary_operand {e : Expr} (hk : begins s.current.kind)
    (h : primary (assignment (n + 1)) (n + 1) s = .ok e t)
    (hend : isPostfix t.current.kind = false) : unary (n + 2) s = .ok e t := by
  have hrun : unary (n + 2) s =
      (do postfixes (assignment (n + 1)) (n + 1) (← primary (assignment (n + 1)) (n + 1))) s := by
    rw [unary, run_bind_of_ok (run_token s)]
    rcases begins_cases hk with hkind | hkind | hkind
    all_goals
      rw [hkind]
      rfl
  rw [hrun, run_bind_of_ok h, postfixes_end hend]

section Primary

variable {expr : Read Expr}

/-- A literal stands for its number. -/
theorem primary_number (hk : s.current.kind = .number)
    (hv : Bytes.toNat s.current.literal < 0x80000000) :
    primary expr n s =
      .ok (.int (Int32.ofNat (Bytes.toNat s.current.literal)) s.current.pos) s.rest := by
  rw [primary, run_bind_of_ok (run_token s), hk]
  dsimp only
  rw [run_bind_of_ok (run_next s), if_neg (by omega)]
  rfl

/-- A name without a parenthesis behind it is a variable. -/
theorem primary_name (hk : s.current.kind = .identifier)
    (hnext : (s.ahead.headD s.current).kind ≠ .punct .leftParen) :
    primary expr n s = resolve s.current s.rest := by
  rw [primary, run_bind_of_ok (run_token s), hk]
  dsimp only
  rw [run_bind_of_ok (run_peekKind s),
    if_neg (by simpa using hnext), run_bind_of_ok (run_next s)]

/-- A name with a parenthesis behind it is called. -/
theorem primary_call (hk : s.current.kind = .identifier)
    (hnext : (s.ahead.headD s.current).kind = .punct .leftParen) :
    primary expr n s = call s.current expr n s := by
  rw [primary, run_bind_of_ok (run_token s), hk]
  dsimp only
  rw [run_bind_of_ok (run_peekKind s),
    if_pos (beq_iff_eq.mpr hnext)]

end Primary

/-- An expression in parentheses is an operand. -/
theorem unary_paren {e : Expr} (hk : s.current.kind = .punct .leftParen)
    (he : assignment (n + 1) s.rest = .ok e t) (ht : t.current.kind = .punct .rightParen)
    (hend : isPostfix t.rest.current.kind = false) : unary (n + 2) s = .ok e t.rest := by
  refine unary_operand (by rw [hk]; rfl) ?_ hend
  rw [primary, run_bind_of_ok (run_token s), hk]
  dsimp only
  rw [run_bind_of_ok (run_next s), run_bind_of_ok he, run_bind_of_ok (run_expectPunct ht)]
  rfl

/-- A name is resolved to what is found under it. -/
theorem resolve_finds {storage : Storage} {type : CType} {x : Token}
    (h : s.Finds x.literal storage type) :
    resolve x s = .ok (.ident x.literal x.pos storage type) s := by
  cases h with
  | stack hv =>
    rw [resolve, run_bind_of_ok (run_scope s), hv]
    rfl
  | static hfree hg =>
    rw [resolve, run_bind_of_ok (run_scope s), hfree]
    dsimp only
    rw [run_bind_of_ok (run_environment s), hg]
    rfl

/-- A printed variable is found again, at another position. -/
theorem resolve_variable {e : Expr} {x : Token} (h : e.IsVariable s.env s.scope)
    (hx : e.tokens = [x.bare]) :
    ∃ a, resolve x s = .ok a s ∧ a.bare = e.bare ∧ a.isPlace := by
  cases h with
  | @onStack name pos v hname hv htype =>
    have hx : name = x.literal := congrArg Token.literal (List.cons.inj hx).1
    subst hx
    exact ⟨_, resolve_finds (.stack hv), rfl, rfl⟩
  | @inData name pos g hname hfree hg htype =>
    have hx : name = x.literal := congrArg Token.literal (List.cons.inj hx).1
    subst hx
    exact ⟨_, resolve_finds (.static hfree hg), rfl, rfl⟩

/-- A function is called by its name where no local variable hides it. -/
theorem callee_signature {x : Token} {f : Signature} (hfree : s.scope.lookup? x.literal = none)
    (hf : s.env.signatures.get? x.literal = some f) : callee x s = .ok f s := by
  rw [callee, run_bind_of_ok (run_scope s), hfree]
  dsimp only
  rw [if_neg (by simp), run_bind_of_ok (run_environment s), hf]
  rfl

/-! ## Assignments -/

/-- An expression ends where no assignment follows. -/
theorem assignment_value {e : Expr} (h : cascade (unary n) n levels s = .ok e t)
    (ht : assignOp? t.current.kind = none) : assignment (n + 1) s = .ok e t := by
  rw [assignment, run_bind_of_ok h, run_bind_of_ok (run_token t), ht]
  rfl

/-- The right side of an assignment is an expression of its own. -/
theorem assignment_assign {op : BinaryOp} {left right e : Expr}
    (h : cascade (unary n) n levels s = .ok left t) (ht : assignOp? t.current.kind = some op)
    (hright : assignment n t.rest = .ok right u)
    (he : assign u.env.layout op t.current.pos left right = .ok e) :
    assignment (n + 1) s = .ok e u := by
  rw [assignment, run_bind_of_ok h, run_bind_of_ok (run_token t), ht]
  dsimp only
  rw [run_bind_of_ok (run_next t), run_bind_of_ok hright,
    run_bind_of_ok (run_layout u), he]
  rfl

/-! ## Printed operators -/

/-- Where an operator stands on the ladder. -/
theorem operation_level {op : BinaryOp} (h : op ∈ Expr.operations) :
    ∃ looser level tighter o, levels = looser ++ level :: tighter ∧
      findOp level (.punct op.punct) = some o ∧ o.op = op ∧ o.swap = false ∧
      (∀ l ∈ tighter, findOp l (.punct op.punct) = none) ∧
      continues (.punct op.punct) = false := by
  obtain ⟨i, o, hi, ho⟩ : ∃ i o, i < levels.length ∧
      findOp (levels.getD i []) (.punct op.punct) = some o ∧ o.op = op ∧ o.swap = false ∧
      (∀ l ∈ levels.drop (i + 1), findOp l (.punct op.punct) = none) ∧
      continues (.punct op.punct) = false := by
    cases op with
    | or => exact ⟨0, ⟨.or, .or, false⟩, by decide⟩
    | and => exact ⟨1, ⟨.and, .and, false⟩, by decide⟩
    | eq => exact ⟨2, ⟨.eq, .eq, false⟩, by decide⟩
    | ne => exact ⟨2, ⟨.ne, .ne, false⟩, by decide⟩
    | lt => exact ⟨3, ⟨.lt, .lt, false⟩, by decide⟩
    | le => exact ⟨3, ⟨.le, .le, false⟩, by decide⟩
    | add => exact ⟨4, ⟨.plus, .add, false⟩, by decide⟩
    | sub => exact ⟨4, ⟨.minus, .sub, false⟩, by decide⟩
    | mul => exact ⟨5, ⟨.star, .mul, false⟩, by decide⟩
    | div => exact ⟨5, ⟨.slash, .div, false⟩, by decide⟩
    | rem => exact ⟨5, ⟨.percent, .rem, false⟩, by decide⟩
    | assign | addAssign | subAssign | unknown => exact absurd h (by decide)
  refine ⟨levels.take i, levels.getD i [], levels.drop (i + 1), o, ?_, ho⟩
  rw [← List.getElem_eq_getD (h := hi), ← List.drop_eq_getElem_cons hi, List.take_append_drop]

/-- The operators of assignments are on no level, and go on with no operand. -/
theorem assignment_operator {op : BinaryOp} (h : op ∈ Expr.assignments) :
    (∀ level ∈ levels, findOp level (.punct op.punct) = none) ∧
      assignOp? (.punct op.punct) = some op ∧ continues (.punct op.punct) = false := by
  revert h
  cases op <;> decide

/-! ## Printed expressions -/

section RoundTrip

variable {env : Env} {scope : Scope} {e : Expr} {ts : List Token}

/-- An expression stands printed between two states. -/
structure Printed (env : Env) (scope : Scope) (e : Expr) (s : Reading) (ts : List Token)
    (t : Reading) : Prop where
  past : s.Past ts t
  tokens : ts.map Token.bare = e.tokens
  env : s.env = env
  scope : s.scope = scope

/-- **An expression is read back as an operand**: from its tokens, whatever its place is, if nothing
follows that goes on with it. -/
def ReadBack (env : Env) (scope : Scope) (e : Expr) : Prop :=
  ∀ ⦃s ts t n⦄, Printed env scope e s ts t → continues t.current.kind = false →
    2 * ts.length ≤ n → ∃ a, unary n s = .ok a t ∧ a.bare = e.bare

/-- Positions are no part of types. -/
theorem type_eq_of_bare {a : Expr} (h : a.bare = e.bare) : a.type = e.type := by
  rw [← Expr.type_bare, h, Expr.type_bare]

/-- Positions are no part of the kinds of tokens. -/
theorem kind_of_bare {x y : Token} (h : x.bare = y) : x.kind = y.kind := by
  rw [← h, Token.kind_bare]

/-- In front of a token that ends it, an operand is an expression. -/
theorem ReadBack.assignment (h : ReadBack env scope e) (hs : Printed env scope e s ts t)
    (ht : closes t.current.kind) (hn : 2 * ts.length + 2 ≤ n) :
    ∃ a, assignment n s = .ok a t ∧ a.bare = e.bare := by
  obtain ⟨hops, hassign, hcontinues⟩ := closes_ends ht
  obtain ⟨n, rfl⟩ : ∃ k, n = k + 2 := ⟨n - 2, by omega⟩
  obtain ⟨a, ha, hbare⟩ := h (n := n + 1) hs hcontinues (by omega)
  exact ⟨a, assignment_value (cascade_operand ha hops) hassign, hbare⟩

/-- The parts of an operator with its operands in parentheses. -/
theorem Printed.binary {op : BinaryOp} {pos : Int} {left right : Expr} {type : CType}
    (h : Printed env scope (.binary op pos left right type) s ts t) :
    ∃ tl m tr m', s.current.kind = .punct .leftParen ∧ Printed env scope left s.rest tl m ∧
      m.current.kind = .punct op.punct ∧ Printed env scope right m.rest tr m' ∧
      m'.current.kind = .punct .rightParen ∧ m'.rest = t ∧
      ts.length = tl.length + tr.length + 3 := by
  obtain ⟨hpast, htokens, henv, hscope⟩ := h
  obtain ⟨x, us, rfl, hx, hus⟩ := List.map_eq_cons_iff.mp htokens
  obtain ⟨tl, vs, rfl, htl, hvs⟩ := List.map_eq_append_iff.mp hus
  obtain ⟨y, ws, rfl, hy, hws⟩ := List.map_eq_cons_iff.mp hvs
  obtain ⟨tr, zs, rfl, htr, hzs⟩ := List.map_eq_append_iff.mp hws
  obtain ⟨z, none, rfl, hz, hnone⟩ := List.map_eq_cons_iff.mp hzs
  obtain rfl := List.map_eq_nil_iff.mp hnone
  -- The tokens are taken apart first, and then the states between them.
  obtain ⟨m, hleft, hm⟩ := hpast.rest.split
  obtain ⟨m', hright, hm'⟩ := hm.rest.split
  refine ⟨tl, m, tr, m', ?_, ⟨hleft, htl, ?_, ?_⟩, ?_, ⟨hright, htr, ?_, ?_⟩, ?_, hm'.rest.eq, ?_⟩
  · rw [hpast.current]
    exact kind_of_bare hx
  · rw [Reading.rest_env, henv]
  · rw [Reading.rest_scope, hscope]
  · rw [hm.current]
    exact kind_of_bare hy
  · rw [Reading.rest_env, hleft.env, Reading.rest_env, henv]
  · rw [Reading.rest_scope, hleft.scope, Reading.rest_scope, hscope]
  · rw [hm'.current]
    exact kind_of_bare hz
  · simp only [List.length_cons, List.length_append, List.length_nil]
    omega

/-- A literal that is not negative is read back. -/
theorem readBack_constant {value : Int32} {pos : Int} (h : 0 ≤ value.toInt) :
    ReadBack env scope (.num value pos .int) := by
  intro s ts t n hs hend hn
  obtain ⟨x, us, rfl, hx, hus⟩ := List.map_eq_cons_iff.mp hs.tokens
  obtain rfl := List.map_eq_nil_iff.mp hus
  obtain ⟨n, rfl⟩ : ∃ k, n = k + 2 := ⟨n - 2, by simp at hn; omega⟩
  have hkind : s.current.kind = .number := by
    rw [hs.past.current]
    exact kind_of_bare hx
  have hvalue : Bytes.toNat s.current.literal = value.toInt.toNat := by
    have hliteral : x.literal = Bytes.ofInt value.toInt := congrArg Token.literal hx
    rw [hs.past.current, hliteral, Bytes.ofInt, if_neg (by omega), Bytes.toNat_ofNat]
    omega
  have hbound := value.toInt_lt
  have hread : primary (assignment (n + 1)) (n + 1) s = _ :=
    primary_number hkind (by rw [hvalue]; omega)
  rw [hvalue, hs.past.rest.eq] at hread
  refine ⟨_, unary_operand (by rw [hkind]; rfl) hread (isPostfix_of_continues hend), ?_⟩
  have hof : Int32.ofNat value.toInt.toNat = value := by
    rw [← Int32.ofInt_eq_ofNat, Int.toNat_of_nonneg h, Int32.ofInt_toInt]
  rw [Expr.int_bare, hof]
  rfl

/-- A variable is read back. -/
theorem readBack_variable (h : e.IsVariable env scope) :
    ReadBack env scope e := by
  intro s ts t n hs hend hn
  obtain ⟨name, hname, -, htokens⟩ := h.tokens_eq
  obtain ⟨x, us, rfl, hx, hus⟩ := List.map_eq_cons_iff.mp (hs.tokens.trans htokens)
  obtain rfl := List.map_eq_nil_iff.mp hus
  obtain ⟨n, rfl⟩ : ∃ k, n = k + 2 := ⟨n - 2, by simp at hn; omega⟩
  have hkind : s.current.kind = .identifier := by
    rw [hs.past.current]
    exact kind_of_bare hx
  have hnext : (s.ahead.headD s.current).kind ≠ .punct .leftParen := by
    rw [hs.past.ahead]
    intro hparen
    rw [show t.current.kind = .punct .leftParen from hparen] at hend
    cases hend
  have hrest := hs.past.rest.eq
  have hvariable : e.IsVariable t.env t.scope := by
    rw [hs.past.env, hs.past.scope, hs.env, hs.scope]
    exact h
  obtain ⟨a, ha, hbare, -⟩ := resolve_variable (x := x) hvariable (by rw [htokens, hx])
  refine ⟨a, unary_operand (by rw [hkind]; rfl) ?_ (isPostfix_of_continues hend), hbare⟩
  rw [primary_name hkind hnext, hs.past.current, hrest, ha]

/-- Two operands in parentheses are read back, with the one operator between them. -/
theorem readBack_operation {op : BinaryOp} {pos : Int} {left right : Expr}
    (hop : op ∈ Expr.operations) (hleft : left.Integral env scope)
    (hright : right.Integral env scope) (hl : ReadBack env scope left)
    (hr : ReadBack env scope right) : ReadBack env scope (.binary op pos left right .int) := by
  intro s ts t n hs hend hn
  obtain ⟨tl, m, tr, m', hopen, htl, hm, htr, hclose, rfl, hlength⟩ := hs.binary
  obtain ⟨n, rfl⟩ : ∃ k, n = k + 4 := ⟨n - 4, by omega⟩
  obtain ⟨looser, level, tighter, o, hlevels, ho, rfl, hswap, htighter, hop'⟩ :=
    operation_level hop
  obtain ⟨hends, hassign, hcontinues⟩ := closes_ends (k := m'.current.kind) (by rw [hclose]; rfl)
  obtain ⟨a, ha, hab⟩ := hl (n := n + 2) htl (by rw [hm]; exact hop') (by omega)
  obtain ⟨b, hb, hbb⟩ := hr (n := n + 2) htr hcontinues (by omega)
  have hjoin : join o m.current.pos a b m' = .ok (.binary o.op m.current.pos a b .int) m' :=
    (join_integer hop (by rw [type_eq_of_bare hab]; exact hleft.integer)
      (by rw [type_eq_of_bare hbb]; exact hright.integer)).trans (by rw [hswap]; rfl)
  have hcascade : cascade (unary (n + 2)) (n + 2) levels s.rest =
      .ok (.binary o.op m.current.pos a b .int) m' := by
    rw [hlevels]
    exact cascade_binary ha (by rw [hm]; exact ho) (by rw [hm]; exact htighter) hb
      (hlevels ▸ hends) hjoin
  refine ⟨_, unary_paren hopen (assignment_value hcascade hassign) hclose
    (isPostfix_of_continues hend), ?_⟩
  simp only [Expr.bare, hab, hbb]

/-- An assignment in parentheses is read back. -/
theorem readBack_assignment {op : BinaryOp} {pos : Int} {left right : Expr}
    (hop : op ∈ Expr.assignments) (hleft : left.IsVariable env scope)
    (hright : right.Integral env scope) (hr : ReadBack env scope right) :
    ReadBack env scope (.binary op pos left right left.type) := by
  intro s ts t n hs hend hn
  obtain ⟨tl, m, tr, m', hopen, htl, hm, htr, hclose, rfl, hlength⟩ := hs.binary
  obtain ⟨n, rfl⟩ : ∃ k, n = k + 4 := ⟨n - 4, by omega⟩
  obtain ⟨hops, hassign, hop'⟩ := assignment_operator hop
  obtain ⟨a, ha, hab⟩ := readBack_variable hleft (n := n + 2) htl (by rw [hm]; exact hop')
    (by omega)
  obtain ⟨b, hb, hbb⟩ := hr.assignment (n := n + 2) htr (by rw [hclose]; rfl) (by omega)
  have hplace : a.isPlace := by
    rw [← Expr.isPlace_bare, hab, Expr.isPlace_bare]
    cases hleft <;> rfl
  have hassigned : assign m'.env.layout op m.current.pos a b =
      .ok (.binary op m.current.pos a b a.type) :=
    assign_integer hop hplace (by rw [type_eq_of_bare hab]; exact hleft.integer)
      (by rw [type_eq_of_bare hbb]; exact hright.integer)
  have hread := assignment_assign (cascade_operand ha (by rw [hm]; exact hops))
    (by rw [hm]; exact hassign) hb hassigned
  refine ⟨_, unary_paren hopen hread hclose (isPostfix_of_continues hend), ?_⟩
  simp only [Expr.bare, hab, hbb, type_eq_of_bare hab]

/-! ## Printed calls -/

/-- A printed expression begins as an operand does. -/
theorem integral_begins (h : e.Integral env scope) :
    ∃ x xs, e.tokens = x :: xs ∧ begins x.kind := by
  cases h with
  | name h =>
    obtain ⟨name, -, -, htokens⟩ := h.tokens_eq
    exact ⟨_, _, htokens, rfl⟩
  | constant | operation | assignment | call => exact ⟨_, _, by rw [Expr.tokens], rfl⟩

/-- Behind an argument there is a comma or the closing parenthesis. -/
theorem closes_args {args : List Expr} {us : List Token} (h : s.Past us t)
    (hus : us.map Token.bare = Expr.argTokens false args ++ [Scan.punctToken .rightParen]) :
    closes s.current.kind := by
  cases args with
  | nil =>
    obtain ⟨x, _, rfl, hx, -⟩ := List.map_eq_cons_iff.mp hus
    rw [h.current, kind_of_bare hx]
    rfl
  | cons a args =>
    rw [Expr.argTokens] at hus
    obtain ⟨x, _, rfl, hx, -⟩ := List.map_eq_cons_iff.mp hus
    rw [h.current, kind_of_bare hx]
    rfl

/-- Where an argument begins: behind a comma, unless it is the first one. -/
inductive Reading.ArgumentAt : Bool → Reading → Reading → Prop where
  | first {s : Reading} (h : s.current.kind ≠ .punct .rightParen) : ArgumentAt true s s
  | next {s : Reading} (h : s.current.kind = .punct .comma) : ArgumentAt false s s.rest

theorem Reading.ArgumentAt.env_eq {first : Bool} {s s' : Reading} (h : s.ArgumentAt first s') :
    s'.env = s.env := by
  cases h with
  | first => rfl
  | next => exact Reading.rest_env

theorem Reading.ArgumentAt.scope_eq {first : Bool} {s s' : Reading} (h : s.ArgumentAt first s') :
    s'.scope = s.scope := by
  cases h with
  | first => rfl
  | next => exact Reading.rest_scope

/-- If there is an argument left, it begins here or behind a comma. -/
theorem argument_begins {a : Expr} {args : List Expr} {first : Bool} {us : List Token}
    (ha : a.Integral env scope) (h : s.Past us t)
    (hus : us.map Token.bare = Expr.argTokens first (a :: args) ++ [Scan.punctToken .rightParen]) :
    ∃ s' us', s.ArgumentAt first s' ∧ s'.Past us' t ∧ us'.length ≤ us.length ∧ us'.map Token.bare =
      a.tokens ++ (Expr.argTokens false args ++ [Scan.punctToken .rightParen]) := by
  cases first with
  | true =>
    have hus : us.map Token.bare =
        a.tokens ++ (Expr.argTokens false args ++ [Scan.punctToken .rightParen]) := by
      rw [hus, Expr.argTokens]
      simp
    refine ⟨s, us, .first ?_, h, Nat.le_refl _, hus⟩
    -- The first argument is told from an empty list by how an expression begins.
    obtain ⟨x, xs, hx, hbegins⟩ := integral_begins ha
    rw [hx] at hus
    obtain ⟨y, _, rfl, hy, -⟩ := List.map_eq_cons_iff.mp hus
    rw [h.current, kind_of_bare hy]
    intro hparen
    rw [hparen] at hbegins
    cases hbegins
  | false =>
    have hus : us.map Token.bare = Scan.punctToken .comma ::
        (a.tokens ++ (Expr.argTokens false args ++ [Scan.punctToken .rightParen])) := by
      rw [hus, Expr.argTokens]
      simp
    obtain ⟨c, us, rfl, hc, hmore⟩ := List.map_eq_cons_iff.mp hus
    refine ⟨s.rest, us, .next ?_, h.rest, Nat.le_succ _, hmore⟩
    rw [h.current, kind_of_bare hc]
    rfl

/-- One argument is read, and then the others. -/
theorem arguments_cons {expr : Read Expr} {s s' m : Reading} {b : Expr} {as : List (Expr × Int)}
    {first : Bool} (hat : s.ArgumentAt first s') (hb : expr s' = .ok b m)
    (hinteger : b.type.isInteger) (has : arguments expr n false m = .ok as t) :
    arguments expr (n + 1) first s = .ok ((b, s'.current.pos) :: as) t := by
  have hargument : argument expr s' = .ok (b, s'.current.pos) m := by
    rw [argument, run_bind_of_ok (show position s' = .ok s'.current.pos s' from rfl),
      run_bind_of_ok hb, rvalue_integer hinteger]
    rfl
  cases hat with
  | first hkind =>
    rw [arguments, argumentsRound, run_bind_of_ok (run_accept_of_ne hkind), if_neg (by simp),
      if_neg (by simp)]
    dsimp only
    rw [run_bind_of_ok hargument, run_bind_of_ok has]
    rfl
  | next hcomma =>
    rw [arguments, argumentsRound, run_bind_of_ok (run_accept_of_ne (by simp [hcomma])),
      if_neg (by simp), if_pos (by simp)]
    dsimp only
    rw [run_bind_of_ok (run_expectPunct hcomma), run_bind_of_ok hargument, run_bind_of_ok has]
    rfl

/-- The arguments of a call are read up to the closing parenthesis, if each of them is read. -/
theorem arguments_readBack {expr : Read Expr} {args : List Expr} {bound : Nat}
    (hargs : ∀ a ∈ args, a.Integral env scope)
    (hexpr : ∀ a ∈ args, ∀ {s ts t}, Printed env scope a s ts t → ts.length ≤ bound →
      closes t.current.kind → ∃ b, expr s = .ok b t ∧ b.bare = a.bare)
    {first : Bool} {us : List Token} (h : s.Past us t)
    (hus : us.map Token.bare = Expr.argTokens first args ++ [Scan.punctToken .rightParen])
    (henv : s.env = env) (hscope : s.scope = scope) (hbound : us.length ≤ bound)
    (hn : args.length < n) :
    ∃ as, arguments expr n first s = .ok as t ∧ as.map (·.1.bare) = args.map Expr.bare := by
  -- The first argument has no comma in front of it, which is what `first` says.
  induction args generalizing first s us n with
  | nil =>
    obtain ⟨n, rfl⟩ : ∃ k, n = k + 1 := ⟨n - 1, by omega⟩
    obtain ⟨z, none, rfl, hz, hnone⟩ := List.map_eq_cons_iff.mp hus
    obtain rfl := List.map_eq_nil_iff.mp hnone
    have hkind : s.current.kind = .punct .rightParen := by
      rw [h.current]
      exact kind_of_bare hz
    refine ⟨[], ?_, rfl⟩
    rw [arguments, argumentsRound, run_bind_of_ok (run_accept hkind), if_pos rfl, h.rest.eq]
    rfl
  | cons a args ih =>
    obtain ⟨n, rfl⟩ : ∃ k, n = k + 1 := ⟨n - 1, by omega⟩
    have ha := hargs a List.mem_cons_self
    obtain ⟨s', us', hat, h', hlength, hus'⟩ := argument_begins ha h hus
    rw [← hat.env_eq] at henv
    rw [← hat.scope_eq] at hscope
    obtain ⟨ta, more, rfl, hta, hmore⟩ := List.map_eq_append_iff.mp hus'
    obtain ⟨m, hpast, hm⟩ := h'.split
    rw [List.length_append] at hlength
    obtain ⟨b, hb, hbb⟩ := hexpr a List.mem_cons_self ⟨hpast, hta, henv, hscope⟩ (by omega)
      (closes_args hm hmore)
    have hinteger : b.type.isInteger := by
      rw [type_eq_of_bare hbb]
      exact ha.integer
    obtain ⟨as, has, hbares⟩ := ih (fun c hc => hargs c (List.mem_cons_of_mem a hc))
      (fun c hc => hexpr c (List.mem_cons_of_mem a hc)) hm hmore (by rw [hpast.env, henv])
      (by rw [hpast.scope, hscope]) (by omega) (by simpa using hn)
    exact ⟨_, arguments_cons hat hb hinteger has, by
      rw [List.map_cons, hbb, hbares, List.map_cons]⟩

/-- Integers fit integer parameters. -/
theorem checkArguments_integer {name : Bytes} {index : Nat} {args : List (Expr × Int)}
    {types : List CType} (hargs : ∀ a ∈ args, a.1.type.isInteger)
    (htypes : ∀ t ∈ types, t.isInteger) : checkArguments name index args types = .ok () := by
  induction args generalizing index types with
  | nil => rfl
  | cons a args ih =>
    cases types with
    | nil => rfl
    | cons type types =>
      have hassignable : assignable type a.1 := by
        rw [assignable, if_pos (htypes type List.mem_cons_self)]
        exact hargs a List.mem_cons_self
      rw [checkArguments, if_pos hassignable]
      exact ih (fun b hb => hargs b (List.mem_cons_of_mem a hb))
        fun t ht => htypes t (List.mem_cons_of_mem type ht)

/-- Each argument has a token at least. -/
theorem length_le_argTokens {args : List Expr} (first : Bool)
    (h : ∀ a ∈ args, a.tokens ≠ []) : args.length ≤ (Expr.argTokens first args).length := by
  induction args generalizing first with
  | nil => exact Nat.zero_le _
  | cons a args ih =>
    have ih := ih false fun b hb => h b (List.mem_cons_of_mem a hb)
    have hpos := List.length_pos_of_ne_nil (h a List.mem_cons_self)
    simp only [Expr.argTokens, List.length_append, List.length_cons]
    omega

/-- A call is read back, if its arguments are. -/
theorem readBack_call {name : Bytes} {pos : Int} {args : List Expr} {f : Signature}
    (hfree : scope.lookup? name = none) (hf : env.signatures.get? name = some f)
    (hparams : ∀ t ∈ f.params, t.isInteger) (hcount : args.length = f.params.length)
    (hargs : ∀ a ∈ args, a.Integral env scope) (hread : ∀ a ∈ args, ReadBack env scope a) :
    ReadBack env scope (.call name pos args f.ret) := by
  intro s ts t n hs hend hn
  obtain ⟨x, us, rfl, hx, hus⟩ := List.map_eq_cons_iff.mp hs.tokens
  obtain ⟨y, vs, rfl, hy, hvs⟩ := List.map_eq_cons_iff.mp hus
  have hkind : s.current.kind = .identifier := by
    rw [hs.past.current, kind_of_bare hx]
    rfl
  have hnext : (s.ahead.headD s.current).kind = .punct .leftParen := by
    rw [hs.past.ahead]
    exact kind_of_bare hy
  have hname : s.current.literal = name := by
    rw [hs.past.current]
    exact congrArg Token.literal hx
  have henv : s.rest.rest.env = env := by rw [Reading.rest_env, Reading.rest_env, hs.env]
  have hscope : s.rest.rest.scope = scope := by
    rw [Reading.rest_scope, Reading.rest_scope, hs.scope]
  -- Each argument has a token, so the fuel for the tokens is enough for the arguments.
  have hlength : args.length + 1 ≤ vs.length := by
    have hle := length_le_argTokens true fun a ha => (hargs a ha).tokens_ne_nil
    have htokens := congrArg List.length hvs
    simp only [List.length_map, List.length_append, List.length_singleton] at htokens
    omega
  simp only [List.length_cons] at hn
  obtain ⟨n, rfl⟩ : ∃ k, n = k + 2 := ⟨n - 2, by omega⟩
  obtain ⟨as, has, hbares⟩ : ∃ as, arguments (assignment (n + 1)) (n + 1) true s.rest.rest =
      .ok as t ∧ as.map (·.1.bare) = args.map Expr.bare :=
    arguments_readBack hargs
      (fun a ha s ts t hs hle ht => (hread a ha).assignment hs ht (by omega))
      hs.past.rest.rest hvs henv hscope (Nat.le_refl vs.length) (by omega)
  have hcallee : callee s.current s.rest.rest = .ok f s.rest.rest :=
    callee_signature (by rw [hscope, hname, hfree]) (by rw [henv, hname, hf])
  have hcounts : as.length = f.params.length := by
    rw [← hcount, ← List.length_map (f := fun a : Expr × Int => a.1.bare), hbares, List.length_map]
  -- The arguments that are read have the types of those that were printed.
  have hchecked : checkArguments s.current.literal 1 as f.params = .ok () := by
    refine checkArguments_integer (fun a ha => ?_) hparams
    have hmem : a.1.bare ∈ args.map Expr.bare := hbares ▸ List.mem_map_of_mem ha
    obtain ⟨b, hb, hba⟩ := List.mem_map.mp hmem
    rw [type_eq_of_bare hba.symm]
    exact (hargs b hb).integer
  refine ⟨.call s.current.literal s.current.pos (as.map (·.1)) f.ret, ?_, ?_⟩
  · refine unary_operand (by rw [hkind]; rfl) ?_ (isPostfix_of_continues hend)
    rw [primary_call hkind hnext, call, run_bind_of_ok (run_next s),
      run_bind_of_ok (run_next s.rest), run_bind_of_ok hcallee, run_bind_of_ok has,
      if_neg (by simp [hcounts]), hchecked]
    rfl
  · rw [Expr.bare, Expr.bare, Expr.bares_eq_map, Expr.bares_eq_map, List.map_map, hname, ← hbares]
    rfl

/-- Every integer expression is read back, by induction on how it is put together. -/
theorem integral_readBack (h : e.Integral env scope) : ReadBack env scope e := by
  induction h with
  | constant h => exact readBack_constant h
  | name h => exact readBack_variable h
  | operation hop hleft hright ihl ihr => exact readBack_operation hop hleft hright ihl ihr
  | assignment hop hleft hright ihr => exact readBack_assignment hop hleft hright ihr
  | call hname hfree hs hparams hret hcount hargs ih =>
    exact readBack_call hfree hs hparams hcount hargs ih

/-- An expression that is used for its value, with a semicolon behind it, is a statement. -/
theorem statement_effect {a : Expr} {ret : CType} (hk : begins s.current.kind)
    (h : assignment n s = .ok a t) (ha : a.type.isInteger)
    (ht : t.current.kind = .punct .semicolon) : statement ret (n + 1) s = .ok (.eval a) t.rest := by
  have hrun : statement ret (n + 1) s = effectStatement n s := by
    rw [statement, run_bind_of_ok (run_token s)]
    rcases begins_cases hk with hkind | hkind | hkind
    all_goals rw [hkind]
  have hvoid : a.type.isVoid = false := by
    cases htype : a.type <;> simp [htype, CType.isInteger] at ha <;> rfl
  have heffect : effect n s = .ok a t := by
    rw [effect, run_bind_of_ok h, if_neg (by simp [hvoid]), rvalue_integer ha]
    rfl
  rw [hrun, effectStatement, run_bind_of_ok heffect, run_bind_of_ok (run_expectPunct ht)]
  rfl

/-- **Integer expressions are read back from their texts.** Where the names of an integer expression
are known, its text with a semicolon behind it is read as the expression, up to positions. The
reader stops at the semicolon, behind the last byte of the expression's text, with the environment
and the scope as they were; and as a statement, the whole is read as the expression's evaluation, up
to the end. -/
theorem assignment_text (h : e.Integral env scope) :
    let s : Reading := { Reading.start (e.text ++ ";") env with scope }
    ∃ a t, assignment s.budget s = .ok a t ∧ a.bare = e.bare ∧ t.env = env ∧ t.scope = scope ∧
      t.current.kind = .punct .semicolon ∧ t.current.pos = e.text.length ∧
      t.ahead.map Token.kind = [.endOfFile] ∧
      ∀ ret, statement ret s.budget s = .ok (.eval a) t.rest := by
  intro s
  obtain ⟨ts, semicolon, last, hscan, hts, hkind, hpos, hlast⟩ := h.scan
  have htext : s.text = ts ++ [semicolon, last] :=
    (Reading.start_text (e.text ++ ";") env).trans hscan
  have hended : s.Ended := Reading.start_ended (e.text ++ ";") env
  let t : Reading := { current := semicolon, ahead := [last], env, scope }
  have henv : s.env = env := start_env (e.text ++ ";") env
  have hlog : s.log = {} := start_log (e.text ++ ";") env
  have hprinted : Printed env scope e s ts t :=
    ⟨⟨htext, henv.symm, rfl, hlog.symm⟩, hts, henv, rfl⟩
  have hclose : closes t.current.kind := by
    change closes semicolon.kind
    rw [hkind]
    rfl
  -- A bound that is smaller by one does for the expression of a statement.
  obtain ⟨n, hn⟩ : ∃ n, s.budget = n + 1 := ⟨4 * s.ahead.length + 15, rfl⟩
  have hbound : 2 * ts.length + 2 ≤ n := by
    have hlength := congrArg List.length htext
    simp only [Reading.text, List.length_append, List.length_cons, List.length_nil] at hlength
    have hbudget : s.budget = 4 * s.ahead.length + 16 := rfl
    omega
  obtain ⟨a, ha, hbare⟩ := (integral_readBack h).assignment hprinted hclose hbound
  have hread : assignment s.budget s = .ok a t :=
    (assignment_deepens hended (by omega)).ok a t ha
  have hbegins : begins s.current.kind := by
    obtain ⟨x, xs, hx, hbegins⟩ := integral_begins h
    obtain ⟨y, _, rfl, hy, -⟩ := List.map_eq_cons_iff.mp (hts.trans hx)
    rwa [hprinted.past.current, kind_of_bare hy]
  refine ⟨a, t, hread, hbare, rfl, rfl, hkind, hpos, by rw [← hlast]; rfl, fun ret => ?_⟩
  rw [hn]
  exact statement_effect hbegins ha (by rw [type_eq_of_bare hbare]; exact h.integer) hkind

/-- A variable and a function. -/
def known : Env :=
  ((Env.empty {}).readSource "f.c" "char g; int f(int a, char b) { return a; }").2

/-- A local variable. -/
def inside : Scope :=
  { levels := [(∅ : Table Local).insert "x" ⟨0, .int⟩], nextId := 1 }

/-- An assignment and a call as operands. -/
def mixture : Expr :=
  .binary .mul 0
    (.binary .addAssign 0 (.ident "x" 0 (.stack 0) .int) (.num 1 0 .int) .int)
    (.call "f" 0 [.ident "g" 0 .static .char, .num 40 0 .int] .int) .int

/-- The names of the mixture are known. -/
theorem integral_mixture : mixture.Integral known inside := by
  have hone : Expr.Integral known inside (.num 1 0 .int) := .constant (by decide)
  have hx : Expr.IsVariable known inside (.ident "x" 0 (.stack 0) .int) :=
    .onStack (v := ⟨0, .int⟩) ⟨⟨120, by decide⟩, by decide, by decide⟩ (by decide +kernel) rfl
  have hg : Expr.IsVariable known inside (.ident "g" 0 .static .char) :=
    .inData (g := ⟨"g", .char, 5⟩) ⟨⟨103, by decide⟩, by decide, by decide⟩ (by decide +kernel)
      (by decide +kernel) rfl
  have hcall : Expr.Integral known inside
      (.call "f" 0 [.ident "g" 0 .static .char, .num 40 0 .int] .int) := by
    refine .call (s := ⟨"f", [.int, .char], .int, 12⟩) ⟨⟨102, by decide⟩, by decide, by decide⟩
      (by decide +kernel) (by decide +kernel) (by decide) rfl rfl ?_
    rintro a (_ | ⟨_, _ | ⟨_, ⟨⟩⟩⟩)
    · exact .name hg
    · exact .constant (by decide)
  exact .operation (by decide) (.assignment (by decide) hx hone) hcall

theorem assignment_text_mixture :
    mixture.text = "((x += 1) * f(g, 40))" ∧ mixture.Integral known inside ∧
    let s : Reading := { Reading.start (mixture.text ++ ";") known with scope := inside }
    ∃ a t, assignment s.budget s = .ok a t ∧ a.bare = mixture.bare ∧ t.env = known ∧
      t.scope = inside ∧ t.current.kind = .punct .semicolon ∧
      t.current.pos = mixture.text.length ∧ t.ahead.map Token.kind = [.endOfFile] ∧
      ∀ ret, statement ret s.budget s = .ok (.eval a) t.rest :=
  ⟨by decide, integral_mixture, assignment_text integral_mixture⟩

end RoundTrip

end Grammar

end DirectC
