/-
# Lexical scoping

The rules of scoping, on the tokens of a body and independent of how it is read. `Bindings` are the
variables in force at a place, scope by scope; a name stands for the variable of that name in the
innermost scope that has one (`Selects`), and for a global variable if there is none. A declaration
adds to the innermost scope, from its name on; a block and a `for` loop have scopes of their own.
`Scoped` says that a list of statements with the variables declared in it belongs to a list of
tokens by these rules. Every body that can be read does (`statement_blockItems_goes`).
-/
import DirectC.Proofs.Grammar.Segments

namespace DirectC

/-! ## Variables in force -/

/-- A parameter or a local variable. -/
structure StackVar where
  name : Bytes
  type : CType
  id : Int
  deriving DecidableEq, Repr

def Param.toStackVar (p : Param) : StackVar :=
  ⟨p.name, p.type, p.id⟩

def LocalVar.toStackVar (v : LocalVar) : StackVar :=
  ⟨v.name, v.type, v.id⟩

/-- The variables of a function by their numbers: its parameters, then its local variables. -/
def Function.stackVars (f : Function) : List StackVar :=
  f.params.map (·.toStackVar) ++ f.locals.map (·.toStackVar)

/-- The variables declared in the innermost scope, and in the scopes around it, from the inside
out. -/
structure Bindings where
  inner : List StackVar
  outer : List (List StackVar)

namespace Bindings

variable {Γ : Bindings} {name : Bytes}

/-- All scopes, the innermost first. -/
def scopes (Γ : Bindings) : List (List StackVar) :=
  Γ.inner :: Γ.outer

/-- A new scope inside. -/
def enter (Γ : Bindings) : Bindings :=
  ⟨[], Γ.scopes⟩

/-- One more variable in the innermost scope. -/
def declare (Γ : Bindings) (v : StackVar) : Bindings :=
  { Γ with inner := Γ.inner ++ [v] }

/-- **The variable that a name stands for**: that of the innermost scope which declares it. -/
inductive Selects (name : Bytes) : List (List StackVar) → StackVar → Prop where
  | here {scope : List StackVar} {outer : List (List StackVar)} {v : StackVar} (hv : v ∈ scope)
    (hname : v.name = name) : Selects name (scope :: outer) v
  | outside {scope : List StackVar} {outer : List (List StackVar)} {v : StackVar}
    (hnone : ∀ w ∈ scope, w.name ≠ name) (h : Selects name outer v) :
    Selects name (scope :: outer) v

theorem selects_declare (Γ : Bindings) (v : StackVar) : Selects v.name (Γ.declare v).scopes v :=
  .here (List.mem_append_right Γ.inner List.mem_cons_self) rfl

/-- No scope declares a name. -/
def Free (name : Bytes) (scopes : List (List StackVar)) : Prop :=
  ∀ scope ∈ scopes, ∀ v ∈ scope, v.name ≠ name

/-! ## Scopes and tables -/

/-- A scope and the table that holds it while a body is read. -/
def Held (scope : List StackVar) (level : Table Local) : Prop :=
  ∀ name v, level.get? name = some v ↔ ⟨name, v.type, v.id⟩ ∈ scope

/-- The scopes as they are kept while a body is read. -/
def Agrees (Γ : Bindings) (sc : Scope) : Prop :=
  List.Forall₂ Held Γ.scopes sc.levels

/-- A name that is missing in the table of a scope is not declared in it. -/
theorem Held.get?_eq_none {scope : List StackVar} {level : Table Local} (h : Held scope level)
    (hnone : level.get? name = none) : ∀ v ∈ scope, v.name ≠ name := by
  rintro ⟨_, type, id⟩ hv rfl
  have hsome := (h _ ⟨id, type⟩).mpr hv
  exact nomatch hnone.symm.trans hsome

/-- **A variable that is found is the one in force.** -/
theorem Agrees.selects {sc : Scope} {v : Local} (h : Γ.Agrees sc)
    (hv : sc.lookup? name = some v) : Selects name Γ.scopes ⟨name, v.type, v.id⟩ := by
  unfold Agrees at h
  unfold Scope.lookup? at hv
  generalize Γ.scopes = scopes at h
  generalize sc.levels = levels at h hv
  induction h with
  | nil => cases hv
  | @cons scope level scopes levels hheld _ ih =>
    rw [List.findSome?_cons] at hv
    cases hlevel : level.get? name with
    | some w =>
      rw [hlevel] at hv
      cases hv
      exact .here ((hheld name v).mp hlevel) rfl
    | none =>
      rw [hlevel] at hv
      exact .outside (hheld.get?_eq_none hlevel) (ih hv)

/-- A name that is not found has no variable in force. -/
theorem Agrees.free {sc : Scope} (h : Γ.Agrees sc) (hv : sc.lookup? name = none) :
    Free name Γ.scopes := by
  unfold Agrees at h
  unfold Scope.lookup? at hv
  generalize Γ.scopes = scopes at h
  generalize sc.levels = levels at h hv
  induction h with
  | nil => exact List.forall_mem_nil _
  | @cons scope level scopes levels hheld _ ih =>
    rw [List.findSome?_eq_none_iff] at hv
    have hlevel := hv level List.mem_cons_self
    have hrest : levels.findSome? (fun level => level.get? name) = none :=
      List.findSome?_eq_none_iff.mpr fun l hl => hv l (List.mem_cons_of_mem _ hl)
    exact List.forall_mem_cons.mpr ⟨hheld.get?_eq_none hlevel, ih hrest⟩

/-- A new scope is empty on both sides. -/
theorem Agrees.enter {sc : Scope} (h : Γ.Agrees sc) : Γ.enter.Agrees sc.push :=
  .cons (by simp [Held, Bindings.enter]) h

/-- Closing a scope leaves those around it. -/
theorem Agrees.leave {Γ' : Bindings} {sc : Scope} (h : Γ'.Agrees sc) (ho : Γ'.outer = Γ.scopes) :
    Γ.Agrees sc.pop := by
  unfold Agrees scopes at h
  rw [ho] at h
  unfold Scope.pop Agrees
  -- Two scopes at least are open, so the innermost is closed.
  split
  · rename_i hlevels
    rw [hlevels] at h
    exact (List.forall₂_cons.mp h).2
  · rename_i hone
    have hlength := h.length_eq
    cases hlevels : sc.levels with
    | nil =>
      rw [hlevels] at hlength
      simp at hlength
    | cons level levels =>
      cases levels with
      | nil =>
        rw [hlevels] at hlength
        simp [scopes] at hlength
      | cons level' levels => exact absurd hlevels (hone level level' levels)

/-- A table holds one variable more if the name was new. -/
theorem Held.insert {scope : List StackVar} {level : Table Local} {type : CType} {id : Int}
    (h : Held scope level) (hnew : level.get? name = none) :
    Held (scope ++ [⟨name, type, id⟩]) (level.insert name ⟨id, type⟩) := by
  intro other v
  rw [Table.get?_insert]
  by_cases hname : name = other
  · subst hname
    rw [if_pos rfl]
    have hscope : ⟨name, v.type, v.id⟩ ∉ scope := fun hv => h.get?_eq_none hnew _ hv rfl
    simp only [List.mem_append, hscope, List.mem_singleton, false_or, StackVar.mk.injEq, true_and]
    constructor
    · rintro ⟨⟩
      exact ⟨rfl, rfl⟩
    · rintro ⟨rfl, rfl⟩
      rfl
  · rw [if_neg hname, h other v]
    simp [Ne.symm hname]

/-- A declaration brings its variable into force, under a name that is new in the inner scope. -/
theorem Agrees.declare {sc sc' : Scope} {type : CType} {id : Int} (h : Γ.Agrees sc)
    (hd : sc.declare? name type = some (id, sc')) :
    (Γ.declare ⟨name, type, id⟩).Agrees sc' ∧ (∀ w ∈ Γ.inner, w.name ≠ name) ∧ id = sc.nextId ∧
      sc'.nextId = sc.nextId + 1 := by
  unfold Scope.declare? at hd
  split at hd
  · cases hd
  · rename_i inner outer hlevels
    unfold Agrees at h
    rw [hlevels] at h
    obtain ⟨hheld, houter⟩ := List.forall₂_cons.mp h
    split at hd
    · cases hd
    · rename_i hnew
      cases hd
      have hnew : inner.get? name = none := by simpa [Table.contains_eq] using hnew
      exact ⟨.cons (hheld.insert hnew) houter, hheld.get?_eq_none hnew, rfl, rfl⟩

end Bindings

/-- **What a name stands for** by lexical scoping: the variable that the scopes select, with its
number and type, and a global variable if no scope declares the name. -/
inductive Bindings.Resolves (globals : Table GlobalVar) (Γ : Bindings) (name : Bytes) :
    Storage → CType → Prop where
  | stack {id : Int} {type : CType} (h : Selects name Γ.scopes ⟨name, type, id⟩) :
    Resolves globals Γ name (.stack id) type
  | static {g : GlobalVar} (h : Free name Γ.scopes) (hg : globals.get? name = some g) :
    Resolves globals Γ name .static g.type

/-- An identifier is one of the tokens `ts`, and it is what its name stands for. -/
def Node.Resolved (globals : Table GlobalVar) (Γ : Bindings) (ts : List Token) : Node → Prop
  | .expr (.ident name pos storage type) =>
    (∃ tok ∈ ts, tok.kind = .identifier ∧ tok.literal = name ∧ tok.pos = pos) ∧
      Γ.Resolves globals name storage type
  | _ => True

namespace Grammar

/-! ## Rules of scoping -/

section Rules

variable (globals : Table GlobalVar)

/-- An expression and the tokens that it is read from. -/
structure Occurrence (Γ : Bindings) (ts : List Token) (e : Expr) : Prop where
  phrase : Phrase ts
  resolved : (Node.expr e).All (Node.Resolved globals Γ ts)

/-- The initial value of the variable `name`, as an assignment to it. -/
inductive Initializer (Γ : Bindings) (name : Token) : List Token → List Stmt → Prop where
  | none : Initializer Γ name [] []
  | assign {tok : Token} {ts : List Token} {e : Expr} (htok : tok.kind = .punct .assign)
    (hts : Phrase ts) (he : (Node.expr e).All (Node.Resolved globals Γ (name :: ts))) :
    Initializer Γ name (tok :: ts) [.eval e]

/-- Declarators up to their semicolon, each with its variable, which is new in its scope and in
force from there on. -/
inductive Declarators : Bindings → List Token → List Stmt → List LocalVar → Bindings → Prop where
  | last {Γ : Bindings} {name semicolon : Token} {ts us : List Token} {ss : List Stmt}
    {v : LocalVar} (hts : Declarator name ts) (hname : v.name = name.literal)
    (hpos : v.pos = name.pos) (hnew : ∀ w ∈ Γ.inner, w.name ≠ v.name)
    (hinit : Initializer globals (Γ.declare v.toStackVar) name us ss)
    (hend : semicolon.kind = .punct .semicolon) :
    Declarators Γ (ts ++ us ++ [semicolon]) ss [v] (Γ.declare v.toStackVar)
  | more {Γ Γ' : Bindings} {name comma : Token} {ts us rest : List Token} {ss more : List Stmt}
    {v : LocalVar} {vs : List LocalVar} (hts : Declarator name ts) (hname : v.name = name.literal)
    (hpos : v.pos = name.pos) (hnew : ∀ w ∈ Γ.inner, w.name ≠ v.name)
    (hinit : Initializer globals (Γ.declare v.toStackVar) name us ss)
    (hcomma : comma.kind = .punct .comma)
    (hrest : Declarators (Γ.declare v.toStackVar) rest more vs Γ') :
    Declarators Γ (ts ++ us ++ comma :: rest) (ss ++ more) (v :: vs) Γ'

/-- A declaration of variables, or of a struct alone. -/
inductive Declares (Γ : Bindings) : List Token → List Stmt → List LocalVar → Bindings → Prop where
  | struct {semicolon : Token} {ts : List Token} (hts : BaseType ts)
    (hend : semicolon.kind = .punct .semicolon) : Declares Γ (ts ++ [semicolon]) [] [] Γ
  | declarators {Γ' : Bindings} {ts us : List Token} {ss : List Stmt} {vs : List LocalVar}
    (hts : BaseType ts) (h : Declarators globals Γ us ss vs Γ') : Declares Γ (ts ++ us) ss vs Γ'

/-- What a `for` loop does first, with its semicolon. -/
inductive Begins (Γ : Bindings) : List Token → List Stmt → List LocalVar → Bindings → Prop where
  | declaration {Γ' : Bindings} {ts : List Token} {ss : List Stmt} {vs : List LocalVar}
    (h : Declares globals Γ ts ss vs Γ') : Begins Γ ts ss vs Γ'
  | none {semicolon : Token} (hend : semicolon.kind = .punct .semicolon) :
    Begins Γ [semicolon] [] [] Γ
  | effect {semicolon : Token} {ts : List Token} {e : Expr} (he : Occurrence globals Γ ts e)
    (hend : semicolon.kind = .punct .semicolon) : Begins Γ (ts ++ [semicolon]) [.eval e] [] Γ

/-- The condition of a `for` loop at `pos`, with its semicolon. -/
inductive Tests (Γ : Bindings) (pos : Int) : List Token → Expr → Prop where
  | none {semicolon : Token} (hend : semicolon.kind = .punct .semicolon) :
    Tests Γ pos [semicolon] (.int 1 pos)
  | value {semicolon : Token} {ts : List Token} {e : Expr} (he : Occurrence globals Γ ts e)
    (hend : semicolon.kind = .punct .semicolon) : Tests Γ pos (ts ++ [semicolon]) e

/-- What a `for` loop does after each round, with the closing parenthesis. -/
inductive Updates (Γ : Bindings) : List Token → List Stmt → Prop where
  | none {close : Token} (hclose : close.kind = .punct .rightParen) : Updates Γ [close] []
  | effect {close : Token} {ts : List Token} {e : Expr} (he : Occurrence globals Γ ts e)
    (hclose : close.kind = .punct .rightParen) : Updates Γ (ts ++ [close]) [.eval e]

/-- What a list of tokens is: one statement, or the items of a block with its closing brace. -/
inductive Form where
  | statement
  | items

/-- **Statements and the tokens that they are read from**, with the variables that are declared in
them. -/
inductive Scoped : Form → Bindings → List Token → List Stmt → List LocalVar → Prop where
  | block {Γ : Bindings} {brace : Token} {ts : List Token} {ss : List Stmt} {vs : List LocalVar}
    (hbrace : brace.kind = .punct .leftBrace) (h : Scoped .items Γ.enter ts ss vs) :
    Scoped .statement Γ (brace :: ts) [.block ss] vs
  | empty {Γ : Bindings} {semicolon : Token} (hend : semicolon.kind = .punct .semicolon) :
    Scoped .statement Γ [semicolon] [.block []] []
  | ret {Γ : Bindings} {tok semicolon : Token} (htok : tok.kind = .keyword .returnKw)
    (hend : semicolon.kind = .punct .semicolon) :
    Scoped .statement Γ [tok, semicolon] [.ret none tok.pos] []
  | retValue {Γ : Bindings} {tok semicolon : Token} {ts : List Token} {e : Expr}
    (htok : tok.kind = .keyword .returnKw) (he : Occurrence globals Γ ts e)
    (hend : semicolon.kind = .punct .semicolon) :
    Scoped .statement Γ (tok :: ts ++ [semicolon]) [.ret (some e) tok.pos] []
  | exit {Γ : Bindings} {tok semicolon : Token} {ts : List Token} {e : Expr}
    (htok : tok.kind = .keyword .throwKw) (he : Occurrence globals Γ ts e)
    (hend : semicolon.kind = .punct .semicolon) :
    Scoped .statement Γ (tok :: ts ++ [semicolon]) [.exit e tok.pos] []
  | ifThen {Γ : Bindings} {tok opening close : Token} {cs ts : List Token} {cond : Expr}
    {yes : Stmt} {vs : List LocalVar} (htok : tok.kind = .keyword .ifKw)
    (hopen : opening.kind = .punct .leftParen) (hcond : Occurrence globals Γ cs cond)
    (hclose : close.kind = .punct .rightParen) (hyes : Scoped .statement Γ ts [yes] vs) :
    Scoped .statement Γ (tok :: opening :: cs ++ close :: ts) [.ifThen cond yes] vs
  | ifElse {Γ : Bindings} {tok opening close other : Token} {cs ts us : List Token} {cond : Expr}
    {yes no : Stmt} {vs ws : List LocalVar} (htok : tok.kind = .keyword .ifKw)
    (hopen : opening.kind = .punct .leftParen) (hcond : Occurrence globals Γ cs cond)
    (hclose : close.kind = .punct .rightParen) (hyes : Scoped .statement Γ ts [yes] vs)
    (hother : other.kind = .keyword .elseKw) (hno : Scoped .statement Γ us [no] ws) :
    Scoped .statement Γ (tok :: opening :: cs ++ close :: ts ++ other :: us)
      [.ifElse cond yes no] (vs ++ ws)
  | loop {Γ : Bindings} {tok opening close : Token} {cs ts : List Token} {cond : Expr} {body : Stmt}
    {vs : List LocalVar} (htok : tok.kind = .keyword .whileKw)
    (hopen : opening.kind = .punct .leftParen) (hcond : Occurrence globals Γ cs cond)
    (hclose : close.kind = .punct .rightParen) (hbody : Scoped .statement Γ ts [body] vs) :
    Scoped .statement Γ (tok :: opening :: cs ++ close :: ts) [.loop cond body] vs
  | forLoop {Γ Γ' : Bindings} {tok opening : Token} {ss cs us ts : List Token}
    {start update : List Stmt} {cond : Expr} {body : Stmt} {vs ws : List LocalVar}
    (htok : tok.kind = .keyword .forKw) (hopen : opening.kind = .punct .leftParen)
    (hstart : Begins globals Γ.enter ss start vs Γ') (hcond : Tests globals Γ' tok.pos cs cond)
    (hupdate : Updates globals Γ' us update) (hbody : Scoped .statement Γ' ts [body] ws) :
    Scoped .statement Γ (tok :: opening :: ss ++ cs ++ us ++ ts)
      [.block (start ++ [.loop cond (.block (body :: update))])] (vs ++ ws)
  | eval {Γ : Bindings} {semicolon : Token} {ts : List Token} {e : Expr}
    (he : Occurrence globals Γ ts e) (hend : semicolon.kind = .punct .semicolon) :
    Scoped .statement Γ (ts ++ [semicolon]) [.eval e] []
  | close {Γ : Bindings} {brace : Token} (hbrace : brace.kind = .punct .rightBrace) :
    Scoped .items Γ [brace] [] []
  | declaration {Γ Γ' : Bindings} {ts us : List Token} {ss more : List Stmt}
    {vs ws : List LocalVar} (h : Declares globals Γ ts ss vs Γ')
    (hmore : Scoped .items Γ' us more ws) :
    Scoped .items Γ (ts ++ us) (ss ++ more) (vs ++ ws)
  | statement {Γ : Bindings} {ts us : List Token} {s : Stmt} {more : List Stmt}
    {vs ws : List LocalVar} (h : Scoped .statement Γ ts [s] vs)
    (hmore : Scoped .items Γ us more ws) :
    Scoped .items Γ (ts ++ us) (s :: more) (vs ++ ws)

end Rules

/-! ## Reading with variables in force -/

/-- A state in which these variables are in force. -/
structure Sees (gs : Table GlobalVar) (Γ : Bindings) (s : Reading) : Prop where
  ended : s.Ended
  agrees : Γ.Agrees s.scope
  globals : s.env.globals = gs

/-- **From a state to another**: the tokens read in between, and the variables declared, which are
numbered on. Scopes further out stay as they are. -/
structure Goes (gs : Table GlobalVar) (Γ : Bindings) (s : Reading) (ts : List Token)
    (vs : List LocalVar) (Γ' : Bindings) (t : Reading) : Prop where
  text : s.text = ts ++ t.text
  locals : t.scope.locals = s.scope.locals ++ vs
  ids : vs.map (·.id) = (List.range' s.scope.nextId vs.length).map Int.ofNat
  nextId : t.scope.nextId = s.scope.nextId + vs.length
  outer : Γ'.outer = Γ.outer
  sees : Sees gs Γ' t

variable {gs : Table GlobalVar} {Γ Γ' Γ'' : Bindings} {s t u : Reading} {ts us : List Token}
  {vs ws : List LocalVar}

/-- One part of the text may be followed by another. -/
theorem Goes.trans (h : Goes gs Γ s ts vs Γ' t) (h' : Goes gs Γ' t us ws Γ'' u) :
    Goes gs Γ s (ts ++ us) (vs ++ ws) Γ'' u where
  text := by rw [h.text, h'.text, List.append_assoc]
  locals := by rw [h'.locals, h.locals, List.append_assoc]
  ids := by
    rw [List.map_append, h.ids, h'.ids, h.nextId, ← List.map_append, List.range'_append_1,
      List.length_append]
  nextId := by rw [h'.nextId, h.nextId, List.length_append, Nat.add_assoc]
  outer := h'.outer.trans h.outer
  sees := h'.sees

section Steps

variable {α : Type} {x : Read α} {a : α} {P : α → List Token → Prop}

/-- Types and expressions declare nothing. -/
theorem Sees.goes (h : Sees gs Γ s) (htrail : s.Trail .expression t)
    (htext : s.text = ts ++ t.text) : Goes gs Γ s ts [] Γ t where
  text := htext
  locals := by rw [htrail.scopes, List.append_nil]
  ids := rfl
  nextId := by rw [htrail.scopes, List.length_nil, Nat.add_zero]
  outer := rfl
  sees := by
    refine ⟨htrail.ended h.ended, by rw [htrail.scopes]; exact h.agrees, ?_⟩
    have hdeclarations := htrail.declarations Layer.expression_ne_file
    exact (congrArg Env.globals hdeclarations).trans h.globals

/-- Expressions declare nothing, so the same variables are in force behind them. -/
theorem Sees.reads (h : Sees gs Γ s) (hk : Keeps .expression x) (hx : Spans P x)
    (hr : x s = .ok a t) : ∃ ts, P a ts ∧ Goes gs Γ s ts [] Γ t := by
  obtain ⟨ts, hts, htext⟩ := hx s h.ended a t hr
  exact ⟨ts, hts, h.goes (hk.trail hr) htext⟩

/-- An operator that is expected declares nothing. -/
theorem Sees.expect {p : Punct} {tok : Token} (h : Sees gs Γ s)
    (hr : expectPunct p s = .ok tok t) : tok.kind = .punct p ∧ Goes gs Γ s [tok] [] Γ t := by
  obtain ⟨_, ⟨rfl, htok⟩, hgoes⟩ := h.reads expect_keeps expectPunct_spans hr
  exact ⟨htok, hgoes⟩

/-- Going on from any token but the end of file. -/
theorem Sees.next (h : Sees gs Γ s) (hne : s.current.kind ≠ .endOfFile) :
    Goes gs Γ s [s.current] [] Γ s.rest :=
  h.goes (.next (.refl s)) (Reading.text_eq_of_ne h.ended hne)

/-- A name that was met stands in the text. -/
theorem Met.mem {k : Layer} {name : Token} (h : Met k s t name) (hs : s.Ended)
    (htext : s.text = ts ++ t.text) : name ∈ ts := by
  obtain ⟨u, hsu, rfl, hut⟩ := h.passed
  obtain ⟨before, hbefore⟩ := hsu.text
  obtain ⟨after, hafter⟩ := hut.text
  have hu := Reading.text_eq_of_ne (hsu.ended hs) (ne_of_eq_of_ne h.kind (by simp))
  rw [← hbefore, hu, ← hafter, ← List.cons_append, ← List.append_assoc] at htext
  rw [← List.append_cancel_right htext]
  simp

/-- A node other than an identifier names nothing. -/
theorem Reading.Allows.resolved {e : Expr} (h : s.Allows e) :
    (Node.expr e).Resolved gs Γ ts := by
  cases h <;> trivial

/-- Names that stand in a text stand in any longer one. -/
theorem resolved_mono {node : Node} (h : node.All (Node.Resolved gs Γ ts)) (hsub : ts ⊆ us) :
    node.All (Node.Resolved gs Γ us) := by
  intro below hb
  have hbelow := h below hb
  unfold Node.Resolved at hbelow ⊢
  split
  · obtain ⟨⟨tok, htok, hname⟩, hresolves⟩ := hbelow
    exact ⟨⟨tok, hsub htok, hname⟩, hresolves⟩
  · trivial

/-- Each identifier is looked up in the scopes that are open. -/
theorem Sees.resolved {node : Node} (h : Sees gs Γ s) (hb : Built .expression s t node)
    (htext : s.text = ts ++ t.text) : node.Resolved gs Γ ts := by
  cases hb with
  | stmt => trivial
  | node _ _ hallows => exact hallows.resolved
  | @name u name _ _ hmet hut hfinds =>
    refine ⟨⟨name, (hmet.mono hut).mem h.ended htext, hmet.kind, rfl, rfl⟩, ?_⟩
    have hdeclarations := hmet.trail.declarations Layer.expression_ne_file
    have hglobals : u.env.globals = gs :=
      (congrArg Env.globals hdeclarations).trans h.globals
    cases hfinds with
    | stack hv =>
      rw [hmet.trail.scopes] at hv
      exact .stack (h.agrees.selects hv)
    | static hv hg =>
      rw [hmet.trail.scopes] at hv
      rw [hglobals] at hg
      exact .static (h.agrees.free hv) hg

/-- What an expression is read from, and what it is. -/
theorem Sees.occurs {x : Read Expr} {e : Expr} (h : Sees gs Γ s) (hk : Keeps .expression x)
    (hbuilt : BuiltExpr .expression s t e) (hc : Covers Phrase x) (hr : x s = .ok e t) :
    ∃ ts, Occurrence gs Γ ts e ∧ Goes gs Γ s ts [] Γ t := by
  obtain ⟨ts, hts, htext⟩ := hc s h.ended e t hr
  exact ⟨ts, ⟨hts, fun node hn => h.resolved (hbuilt node hn) htext⟩,
    h.goes (hk.trail hr) htext⟩

/-- An expression used for its value. -/
theorem Sees.value {fuel : Nat} {e : Expr} (h : Sees gs Γ s) (hr : value fuel s = .ok e t) :
    ∃ ts, Occurrence gs Γ ts e ∧ Goes gs Γ s ts [] Γ t :=
  h.occurs value_keeps (value_builds hr) value_phrase hr

/-- An expression whose value is dropped. -/
theorem Sees.effect {fuel : Nat} {e : Expr} (h : Sees gs Γ s) (hr : effect fuel s = .ok e t) :
    ∃ ts, Occurrence gs Γ ts e ∧ Goes gs Γ s ts [] Γ t :=
  h.occurs effect_keeps (effect_builds hr) effect_phrase hr

end Steps

/-! ## Declarations -/

/-- The name of a new variable stands for it at once. -/
theorem declareLocal_goes {type : CType} {name : Token} {target : Expr} (h : Sees gs Γ s)
    (hkind : name.kind = .identifier) (hr : declareLocal type name s = .ok target t) :
    ∃ v : LocalVar, v.name = name.literal ∧ v.pos = name.pos ∧ (∀ w ∈ Γ.inner, w.name ≠ v.name) ∧
      Goes gs Γ s [] [v] (Γ.declare v.toStackVar) t ∧
      (Node.expr target).All (Node.Resolved gs (Γ.declare v.toStackVar) [name]) := by
  obtain ⟨c, hc⟩ | ⟨n, id, sc, _, _, hd, hok⟩ := declareLocal_cases type name s
  · cases hc.symm.trans hr
  cases hok.symm.trans hr
  obtain ⟨hagrees, hnew, hid, hnext⟩ := h.agrees.declare hd
  refine ⟨⟨name.literal, type, id, name.pos⟩, rfl, rfl, hnew, ?_, ?_⟩
  · exact {
      text := rfl
      locals := congrArg (· ++ _) (Scope.locals_declare? hd)
      ids := by rw [hid]; rfl
      nextId := hnext
      outer := rfl
      sees := ⟨h.ended, hagrees, h.globals⟩ }
  · have hselects := Bindings.selects_declare Γ ⟨name.literal, type, id⟩
    exact all_leaf ⟨⟨name, List.mem_cons_self, hkind, rfl, rfl⟩, .stack hselects⟩ rfl

/-- An initializer is resolved with its own variable in force. -/
theorem initializer_goes {fuel : Nat} {type : CType} {name : Token} {target : Expr}
    {ss : List Stmt} (h : Sees gs Γ s) (ht : (Node.expr target).All (Node.Resolved gs Γ [name]))
    (hr : initializer fuel type name target s = .ok ss t) :
    ∃ ts, Initializer gs Γ name ts ss ∧ Goes gs Γ s ts [] Γ t := by
  obtain ⟨pos, _, hpos, hr⟩ := run_bind_ok.mp hr
  cases hpos
  by_cases htok : s.current.kind = .punct .assign
  · rw [run_bind_of_ok (run_accept htok), if_pos rfl] at hr
    split at hr
    · cases hr
    · obtain ⟨init, s1, h1, hr⟩ := run_bind_ok.mp hr
      obtain ⟨l, _, hl, hr⟩ := run_bind_ok.mp hr
      cases hl
      obtain ⟨e, s2, h2, hr⟩ := run_bind_ok.mp hr
      cases hr
      have g0 := h.next (ne_of_eq_of_ne htok (by simp))
      obtain ⟨ts, hinit, g1⟩ :=
        g0.sees.occurs assignment_keeps (assignment_builds h1) assignment_phrase h1
      have hassign : assign s1.env.layout .assign s.current.pos target init = .ok e := checked_ok h2
      -- Assigning adds nodes, and all of them are resolved as the two sides are.
      have he := assign_all (fun _ ha => ha.resolved) hassign rfl
        (resolved_mono ht (List.cons_subset_cons name (List.nil_subset ts)))
        (resolved_mono hinit.resolved (List.subset_cons_self name ts))
      rw [hassign] at h2
      cases h2
      exact ⟨_, .assign htok hinit.phrase he, g0.trans g1⟩
  · rw [run_bind_of_ok (run_accept_of_ne htok), if_neg Bool.false_ne_true] at hr
    cases hr
    exact ⟨[], .none, h.goes (.refl s) rfl⟩

/-- Each declarator of a row sees the variables of those before it. -/
theorem declarators_goes {base : CType} {fuel : Nat} {ss : List Stmt} (h : Sees gs Γ s)
    (hr : declarators base fuel s = .ok ss t) :
    ∃ ts vs Γ', Declarators gs Γ ts ss vs Γ' ∧ Goes gs Γ s ts vs Γ' t := by
  induction fuel generalizing Γ s ss with
  | zero => cases hr
  | succ fuel ih =>
    obtain ⟨⟨type, name⟩, s1, h1, hr⟩ := run_bind_ok.mp hr
    obtain ⟨target, s2, h2, hr⟩ := run_bind_ok.mp hr
    obtain ⟨init, s3, h3, hr⟩ := run_bind_ok.mp hr
    obtain ⟨ts, hts, g1⟩ := h.reads declarator_keeps declarator_spans h1
    obtain ⟨_, _, _, _, hkind, _⟩ := id hts
    obtain ⟨v, hname, hpos, hnew, g2, htarget⟩ := declareLocal_goes g1.sees hkind h2
    obtain ⟨us, hinit, g3⟩ := initializer_goes g2.sees htarget h3
    -- The variable is in force for its own initializer and for all that follows.
    have g := (g1.trans g2).trans g3
    by_cases hcomma : s3.current.kind = .punct .comma
    · rw [run_bind_of_ok (run_accept hcomma), if_pos rfl] at hr
      obtain ⟨more, s4, h4, hr⟩ := run_bind_ok.mp hr
      cases hr
      have g4 := g3.sees.next (ne_of_eq_of_ne hcomma (by simp))
      obtain ⟨rest, vs, Γ', hrest, g5⟩ := ih g4.sees h4
      refine ⟨_, _, Γ', .more hts hname hpos hnew hinit hcomma hrest, ?_⟩
      simpa using (g.trans g4).trans g5
    · rw [run_bind_of_ok (run_accept_of_ne hcomma), if_neg Bool.false_ne_true] at hr
      obtain ⟨semicolon, s4, h4, hr⟩ := run_bind_ok.mp hr
      cases hr
      obtain ⟨hend, g4⟩ := g3.sees.expect h4
      refine ⟨_, _, _, .last hts hname hpos hnew hinit hend, ?_⟩
      simpa using g.trans g4

/-- **A declaration brings its variables into force, one after the other.** -/
theorem declaration_goes {fuel : Nat} {ss : List Stmt} (h : Sees gs Γ s)
    (hr : declaration fuel s = .ok ss t) :
    ∃ ts vs Γ', Declares gs Γ ts ss vs Γ' ∧ Goes gs Γ s ts vs Γ' t := by
  obtain ⟨base, s1, h1, hr⟩ := run_bind_ok.mp hr
  obtain ⟨ts, hts, g1⟩ := h.reads baseType_keeps baseType_covers h1
  by_cases hend : s1.current.kind = .punct .semicolon
  · rw [run_bind_of_ok (run_accept hend), if_pos rfl] at hr
    cases hr
    exact ⟨_, _, _, .struct hts hend, g1.trans (g1.sees.next (ne_of_eq_of_ne hend (by simp)))⟩
  · rw [run_bind_of_ok (run_accept_of_ne hend), if_neg Bool.false_ne_true] at hr
    obtain ⟨us, vs, Γ', hus, g2⟩ := declarators_goes g1.sees hr
    exact ⟨_, _, _, .declarators hts hus, g1.trans g2⟩

/-! ## Simple statements -/

/-- A return has no value or that of an expression. -/
theorem returnStatement_goes {ret : CType} {pos : Int} {fuel : Nat} {st : Stmt} (h : Sees gs Γ s)
    (hr : returnStatement ret pos fuel s = .ok st t) :
    (∃ semicolon, semicolon.kind = .punct .semicolon ∧ st = .ret none pos ∧
      Goes gs Γ s [semicolon] [] Γ t) ∨
    ∃ ts e semicolon, Occurrence gs Γ ts e ∧ semicolon.kind = .punct .semicolon ∧
      st = .ret (some e) pos ∧ Goes gs Γ s (ts ++ [semicolon]) [] Γ t := by
  unfold returnStatement at hr
  by_cases hend : s.current.kind = .punct .semicolon
  · rw [run_bind_of_ok (run_accept hend), if_pos rfl] at hr
    split at hr
    · cases hr
      exact .inl ⟨s.current, hend, rfl, h.next (ne_of_eq_of_ne hend (by simp))⟩
    · cases hr
  · rw [run_bind_of_ok (run_accept_of_ne hend), if_neg Bool.false_ne_true] at hr
    obtain ⟨pos', _, hpos, hr⟩ := run_bind_ok.mp hr
    cases hpos
    dsimp only at hr
    split at hr
    · cases hr
    · obtain ⟨e, s1, h1, hr⟩ := run_bind_ok.mp hr
      split at hr
      · cases hr
      · obtain ⟨semicolon, s2, h2, hr⟩ := run_bind_ok.mp hr
        cases hr
        obtain ⟨ts, he, g1⟩ := h.value h1
        obtain ⟨hend, g2⟩ := g1.sees.expect h2
        exact .inr ⟨ts, e, semicolon, he, hend, rfl, g1.trans g2⟩

/-- An exit has a value. -/
theorem exitStatement_goes {pos : Int} {fuel : Nat} {st : Stmt} (h : Sees gs Γ s)
    (hr : exitStatement pos fuel s = .ok st t) :
    ∃ ts e semicolon, Occurrence gs Γ ts e ∧ semicolon.kind = .punct .semicolon ∧
      st = .exit e pos ∧ Goes gs Γ s (ts ++ [semicolon]) [] Γ t := by
  obtain ⟨pos', _, hpos, hr⟩ := run_bind_ok.mp hr
  cases hpos
  obtain ⟨e, s1, h1, hr⟩ := run_bind_ok.mp hr
  dsimp only at hr
  split at hr
  · cases hr
  · obtain ⟨semicolon, s2, h2, hr⟩ := run_bind_ok.mp hr
    cases hr
    obtain ⟨ts, he, g1⟩ := h.value h1
    obtain ⟨hend, g2⟩ := g1.sees.expect h2
    exact ⟨ts, e, semicolon, he, hend, rfl, g1.trans g2⟩

/-- An expression may stand alone. -/
theorem effectStatement_goes {fuel : Nat} {st : Stmt} (h : Sees gs Γ s)
    (hr : effectStatement fuel s = .ok st t) :
    ∃ ts e semicolon, Occurrence gs Γ ts e ∧ semicolon.kind = .punct .semicolon ∧
      st = .eval e ∧ Goes gs Γ s (ts ++ [semicolon]) [] Γ t := by
  obtain ⟨e, s1, h1, hr⟩ := run_bind_ok.mp hr
  obtain ⟨semicolon, s2, h2, hr⟩ := run_bind_ok.mp hr
  cases hr
  obtain ⟨ts, he, g1⟩ := h.effect h1
  obtain ⟨hend, g2⟩ := g1.sees.expect h2
  exact ⟨ts, e, semicolon, he, hend, rfl, g1.trans g2⟩

/-- A condition stands in parentheses. -/
theorem condition_goes {fuel : Nat} {e : Expr} (h : Sees gs Γ s)
    (hr : condition fuel s = .ok e t) :
    ∃ opening ts close, opening.kind = .punct .leftParen ∧ Occurrence gs Γ ts e ∧
      close.kind = .punct .rightParen ∧ Goes gs Γ s (opening :: ts ++ [close]) [] Γ t := by
  obtain ⟨opening, s1, h1, hr⟩ := run_bind_ok.mp hr
  obtain ⟨e', s2, h2, hr⟩ := run_bind_ok.mp hr
  obtain ⟨close, s3, h3, hr⟩ := run_bind_ok.mp hr
  cases hr
  obtain ⟨hopen, g1⟩ := h.expect h1
  obtain ⟨ts, he, g2⟩ := g1.sees.value h2
  obtain ⟨hclose, g3⟩ := g2.sees.expect h3
  exact ⟨opening, ts, close, hopen, he, hclose, (g1.trans g2).trans g3⟩

/-- The beginning of a loop may declare variables. -/
theorem forStart_goes {fuel : Nat} {ss : List Stmt} (h : Sees gs Γ s)
    (hr : forStart fuel s = .ok ss t) :
    ∃ ts vs Γ', Begins gs Γ ts ss vs Γ' ∧ Goes gs Γ s ts vs Γ' t := by
  obtain ⟨kind, _, hkind, hr⟩ := run_bind_ok.mp hr
  cases hkind
  split at hr
  · obtain ⟨ts, vs, Γ', hts, g⟩ := declaration_goes h hr
    exact ⟨ts, vs, Γ', .declaration hts, g⟩
  · by_cases hend : s.current.kind = .punct .semicolon
    · rw [run_bind_of_ok (run_accept hend), if_pos rfl] at hr
      cases hr
      exact ⟨_, _, _, .none hend, h.next (ne_of_eq_of_ne hend (by simp))⟩
    · rw [run_bind_of_ok (run_accept_of_ne hend), if_neg Bool.false_ne_true] at hr
      obtain ⟨st, s1, h1, hr⟩ := run_bind_ok.mp hr
      cases hr
      obtain ⟨ts, e, semicolon, he, hend, rfl, g⟩ := effectStatement_goes h h1
      exact ⟨_, _, _, .effect he hend, g⟩

/-- The condition of a loop may be missing. -/
theorem forCondition_goes {pos : Int} {fuel : Nat} {e : Expr} (h : Sees gs Γ s)
    (hr : forCondition pos fuel s = .ok e t) :
    ∃ ts, Tests gs Γ pos ts e ∧ Goes gs Γ s ts [] Γ t := by
  obtain ⟨_, _, hat, hr⟩ := run_bind_ok.mp hr
  cases hat
  dsimp only at hr
  split at hr
  · obtain ⟨_, _, hcond, hr⟩ := run_bind_ok.mp hr
    cases hcond
    obtain ⟨semicolon, s1, h1, hr⟩ := run_bind_ok.mp hr
    cases hr
    obtain ⟨hend, g⟩ := h.expect h1
    exact ⟨_, .none hend, g⟩
  · obtain ⟨e', s1, h1, hr⟩ := run_bind_ok.mp hr
    obtain ⟨semicolon, s2, h2, hr⟩ := run_bind_ok.mp hr
    cases hr
    obtain ⟨ts, he, g1⟩ := h.value h1
    obtain ⟨hend, g2⟩ := g1.sees.expect h2
    exact ⟨_, .value he hend, g1.trans g2⟩

/-- The update of a loop may be missing. -/
theorem forUpdate_goes {fuel : Nat} {ss : List Stmt} (h : Sees gs Γ s)
    (hr : forUpdate fuel s = .ok ss t) : ∃ ts, Updates gs Γ ts ss ∧ Goes gs Γ s ts [] Γ t := by
  obtain ⟨_, _, hat, hr⟩ := run_bind_ok.mp hr
  cases hat
  dsimp only at hr
  split at hr
  · obtain ⟨_, _, hnone, hr⟩ := run_bind_ok.mp hr
    cases hnone
    obtain ⟨close, s1, h1, hr⟩ := run_bind_ok.mp hr
    cases hr
    obtain ⟨hclose, g⟩ := h.expect h1
    exact ⟨_, .none hclose, g⟩
  · obtain ⟨e, s1, h1, hr⟩ := run_bind_ok.mp hr
    obtain ⟨_, _, hsome, hr⟩ := run_bind_ok.mp hr
    cases hsome
    obtain ⟨close, s2, h2, hr⟩ := run_bind_ok.mp hr
    cases hr
    obtain ⟨ts, he, g1⟩ := h.effect h1
    obtain ⟨hclose, g2⟩ := g1.sees.expect h2
    exact ⟨_, .effect he hclose, g1.trans g2⟩

/-! ## Blocks -/

/-- What is read in a scope of its own begins with a new scope and ends by closing it. -/
theorem inScope_ok {α : Type} {x : Read α} {a : α} (h : inScope x s = .ok a t) :
    ∃ u, x { s with scope := s.scope.push } = .ok a u ∧ t = { u with scope := u.scope.pop } := by
  unfold inScope at h
  cases hx : x { s with scope := s.scope.push } with
  | error c u =>
    rw [hx] at h
    cases h
  | ok b u =>
    rw [hx] at h
    cases h
    exact ⟨u, rfl, rfl⟩

/-- In a new scope the same variables are in force. -/
theorem Sees.enter (h : Sees gs Γ s) : Sees gs Γ.enter { s with scope := s.scope.push } :=
  ⟨h.ended, h.agrees.enter, h.globals⟩

/-- Numbers of variables are not given out again. -/
theorem nextId_pop (sc : Scope) : sc.pop.nextId = sc.nextId := by
  unfold Scope.pop
  split <;> rfl

/-- What a scope of its own declares is not in force behind it. -/
theorem Goes.leave (h : Goes gs Γ.enter { s with scope := s.scope.push } ts vs Γ' t) :
    Goes gs Γ s ts vs Γ { t with scope := t.scope.pop } where
  text := h.text
  locals := by rw [Scope.locals_pop]; exact h.locals
  ids := h.ids
  nextId := by rw [nextId_pop]; exact h.nextId
  outer := rfl
  sees := ⟨h.sees.ended, h.sees.agrees.leave h.outer, h.sees.globals⟩

/-! ## Statements -/

/-- Reading a statement from a state on goes by the rules. -/
def StatementGoes (gs : Table GlobalVar) (x : Read Stmt) (s : Reading) : Prop :=
  ∀ Γ st t, Sees gs Γ s → x s = .ok st t →
    ∃ ts vs, Scoped gs .statement Γ ts [st] vs ∧ Goes gs Γ s ts vs Γ t

/-- Reading the items of a block from a state on goes by the rules. -/
def ItemsGo (gs : Table GlobalVar) (x : Read (List Stmt)) (s : Reading) : Prop :=
  ∀ Γ ss t, Sees gs Γ s → x s = .ok ss t →
    ∃ ts vs Γ', Scoped gs .items Γ ts ss vs ∧ Goes gs Γ s ts vs Γ' t

section Statements

variable {ret : CType} {fuel : Nat} {st : Stmt} {ss : List Stmt}

/-- A step that looks at the state comes first. -/
theorem StatementGoes.look {α : Type} {g : Reading → α} {f : α → Read Stmt}
    (h : StatementGoes gs (f (g s)) s) :
    StatementGoes gs ((fun s => .ok (g s) s : Read α) >>= f) s :=
  h

theorem ItemsGo.look {α : Type} {g : Reading → α} {f : α → Read (List Stmt)}
    (h : ItemsGo gs (f (g s)) s) : ItemsGo gs ((fun s => .ok (g s) s : Read α) >>= f) s :=
  h

/-- A conditional statement. -/
theorem conditional_goes {x : Read Stmt} (ih : ∀ s, StatementGoes gs x s)
    (hkind : s.current.kind = .keyword .ifKw) : StatementGoes gs (conditional x fuel) s := by
  intro Γ st t h hr
  have g0 := h.next (ne_of_eq_of_ne hkind (by simp))
  unfold conditional at hr
  rw [run_bind_of_ok (run_next s)] at hr
  obtain ⟨cond, s1, h1, hr⟩ := run_bind_ok.mp hr
  obtain ⟨yes, s2, h2, hr⟩ := run_bind_ok.mp hr
  obtain ⟨opening, cs, close, hopen, hcond, hclose, g1⟩ := condition_goes g0.sees h1
  obtain ⟨ts, vs, hyes, g2⟩ := ih s1 Γ yes s2 g1.sees h2
  have g := (g0.trans g1).trans g2
  obtain ⟨_, _, hnext, hr⟩ := run_bind_ok.mp hr
  cases hnext
  split at hr
  · rename_i hother
    have hother := eq_of_beq hother
    have g3 := g2.sees.next (ne_of_eq_of_ne hother (by simp))
    rw [run_bind_of_ok (run_next s2)] at hr
    obtain ⟨no, s4, h4, hr⟩ := run_bind_ok.mp hr
    cases hr
    obtain ⟨us, ws, hno, g4⟩ := ih s2.rest Γ no _ g3.sees h4
    refine ⟨_, _, .ifElse hkind hopen hcond hclose hyes hother hno, ?_⟩
    simpa using (g.trans g3).trans g4
  · cases hr
    refine ⟨_, _, .ifThen hkind hopen hcond hclose hyes, ?_⟩
    simpa using g

/-- A block, in a scope of its own. -/
theorem block_goes {x : Read (List Stmt)} (ih : ∀ s, ItemsGo gs x s)
    (hkind : s.current.kind = .punct .leftBrace) : StatementGoes gs (block x) s := by
  intro Γ st t h hr
  have g0 := h.next (ne_of_eq_of_ne hkind (by simp))
  unfold block at hr
  rw [run_bind_of_ok (run_next s)] at hr
  obtain ⟨items, s1, h1, hr⟩ := run_bind_ok.mp hr
  cases hr
  obtain ⟨u, hu, rfl⟩ := inScope_ok h1
  obtain ⟨ts, vs, Γ', hitems, g1⟩ := ih _ _ _ _ g0.sees.enter hu
  exact ⟨_, _, .block hkind hitems, g0.trans g1.leave⟩

/-- A `while` loop. -/
theorem whileLoop_goes {x : Read Stmt} (ih : ∀ s, StatementGoes gs x s)
    (hkind : s.current.kind = .keyword .whileKw) : StatementGoes gs (whileLoop x fuel) s := by
  intro Γ st t h hr
  have g0 := h.next (ne_of_eq_of_ne hkind (by simp))
  unfold whileLoop at hr
  rw [run_bind_of_ok (run_next s)] at hr
  obtain ⟨cond, s1, h1, hr⟩ := run_bind_ok.mp hr
  obtain ⟨body, s2, h2, hr⟩ := run_bind_ok.mp hr
  cases hr
  obtain ⟨opening, cs, close, hopen, hcond, hclose, g1⟩ := condition_goes g0.sees h1
  obtain ⟨ts, vs, hbody, g2⟩ := ih _ _ _ _ g1.sees h2
  refine ⟨_, _, .loop hkind hopen hcond hclose hbody, ?_⟩
  simpa using (g0.trans g1).trans g2

/-- A `for` loop, in a scope of its own. -/
theorem forLoop_goes {x : Read Stmt} (ih : ∀ s, StatementGoes gs x s)
    (hkind : s.current.kind = .keyword .forKw) :
    StatementGoes gs (forLoop x s.current.pos fuel) s := by
  intro Γ st t h hr
  have g0 := h.next (ne_of_eq_of_ne hkind (by simp))
  unfold forLoop at hr
  rw [run_bind_of_ok (run_next s)] at hr
  obtain ⟨opening, s1, h1, hr⟩ := run_bind_ok.mp hr
  obtain ⟨hopen, g1⟩ := g0.sees.expect h1
  obtain ⟨u, hu, rfl⟩ := inScope_ok hr
  obtain ⟨start, s2, h2, hu⟩ := run_bind_ok.mp hu
  obtain ⟨cond, s3, h3, hu⟩ := run_bind_ok.mp hu
  obtain ⟨update, s4, h4, hu⟩ := run_bind_ok.mp hu
  obtain ⟨body, s5, h5, hu⟩ := run_bind_ok.mp hu
  cases hu
  obtain ⟨ss, vs, Γ', hstart, g2⟩ := forStart_goes g1.sees.enter h2
  obtain ⟨cs, hcond, g3⟩ := forCondition_goes g2.sees h3
  obtain ⟨us, hupdate, g4⟩ := forUpdate_goes g3.sees h4
  obtain ⟨ts, ws, hbody, g5⟩ := ih s4 Γ' body _ g4.sees h5
  refine ⟨_, _, .forLoop hkind hopen hstart hcond hupdate hbody, ?_⟩
  have g := (g0.trans g1).trans (((g2.trans g3).trans g4).trans g5).leave
  simpa using g

/-- A statement goes by the rules if the statements and the items within it do. -/
theorem statement_goes (ihs : ∀ s, StatementGoes gs (statement ret fuel) s)
    (ihi : ∀ s, ItemsGo gs (blockItems ret fuel) s) (s : Reading) :
    StatementGoes gs (statement ret (fuel + 1)) s := by
  rw [statement]
  refine .look ?_
  split
  · rename_i hkind
    exact block_goes ihi hkind
  · rename_i hkind
    intro Γ st t h hr
    rw [run_bind_of_ok (run_next s)] at hr
    cases hr
    exact ⟨_, _, .empty hkind, h.next (ne_of_eq_of_ne hkind (by simp))⟩
  · rename_i hkind
    intro Γ st t h hr
    have g0 := h.next (ne_of_eq_of_ne hkind (by simp))
    rw [run_bind_of_ok (run_next s)] at hr
    rcases returnStatement_goes g0.sees hr with ⟨_, hend, rfl, g⟩ | ⟨ts, e, _, he, hend, rfl, g⟩
    · exact ⟨_, _, .ret hkind hend, g0.trans g⟩
    · exact ⟨_, _, .retValue hkind he hend, g0.trans g⟩
  · rename_i hkind
    intro Γ st t h hr
    have g0 := h.next (ne_of_eq_of_ne hkind (by simp))
    rw [run_bind_of_ok (run_next s)] at hr
    obtain ⟨ts, e, _, he, hend, rfl, g⟩ := exitStatement_goes g0.sees hr
    exact ⟨_, _, .exit hkind he hend, g0.trans g⟩
  · rename_i hkind
    exact conditional_goes ihs hkind
  · rename_i hkind
    exact whileLoop_goes ihs hkind
  · rename_i hkind
    exact forLoop_goes ihs hkind
  · intro Γ st t h hr
    obtain ⟨ts, e, semicolon, he, hend, rfl, g⟩ := effectStatement_goes h hr
    exact ⟨_, _, .eval he hend, g⟩

/-- The items of a block go by the rules if the first one and those behind it do. -/
theorem blockItems_go (ihs : ∀ s, StatementGoes gs (statement ret fuel) s)
    (ihi : ∀ s, ItemsGo gs (blockItems ret fuel) s) (s : Reading) :
    ItemsGo gs (blockItems ret (fuel + 1)) s := by
  rw [blockItems]
  refine .look ?_
  split
  · rename_i hkind
    intro Γ ss t h hr
    rw [run_bind_of_ok (run_next s)] at hr
    cases hr
    exact ⟨_, _, _, .close hkind, h.next (ne_of_eq_of_ne hkind (by simp))⟩
  · exact fun _ _ _ _ hr => absurd hr unexpected_ne
  · intro Γ ss t h hr
    dsimp only at hr
    split at hr
    · obtain ⟨items, s1, h1, hr⟩ := run_bind_ok.mp hr
      obtain ⟨more, s2, h2, hr⟩ := run_bind_ok.mp hr
      cases hr
      obtain ⟨ts, vs, Γ', hitems, g1⟩ := declaration_goes h h1
      obtain ⟨us, ws, Γ'', hmore, g2⟩ := ihi _ _ _ _ g1.sees h2
      exact ⟨_, _, _, .declaration hitems hmore, g1.trans g2⟩
    · obtain ⟨item, s1, h1, hr⟩ := run_bind_ok.mp hr
      obtain ⟨_, _, hsingle, hr⟩ := run_bind_ok.mp hr
      cases hsingle
      obtain ⟨more, s2, h2, hr⟩ := run_bind_ok.mp hr
      cases hr
      obtain ⟨ts, vs, hitem, g1⟩ := ihs _ _ _ _ h h1
      obtain ⟨us, ws, Γ'', hmore, g2⟩ := ihi _ _ _ _ g1.sees h2
      exact ⟨_, _, _, .statement hitem hmore, g1.trans g2⟩

end Statements

/-- Both readers go by one induction on the fuel, from the rules for the parts to those for the
whole. -/
theorem statement_blockItems_goes (gs : Table GlobalVar) (ret : CType) (fuel : Nat) :
    (∀ s, StatementGoes gs (statement ret fuel) s) ∧ ∀ s, ItemsGo gs (blockItems ret fuel) s := by
  induction fuel with
  | zero =>
    refine ⟨fun s Γ st t _ hr => ?_, fun s Γ ss t _ hr => ?_⟩
    · rw [statement] at hr
      cases hr
    · rw [blockItems] at hr
      cases hr
  | succ fuel ih => exact ⟨statement_goes ih.1 ih.2, blockItems_go ih.1 ih.2⟩

end Grammar

end DirectC
