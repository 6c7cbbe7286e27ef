/-
# Local names

Parameters and local variables share one numbering, in the order in which they are declared. An
identifier carries the number, so its name is never looked up again. That it carries the right one
is said here for every function with a body in a text that can be read (`Program.locals_resolved`):
its variables are numbered from zero on, each local identifier is the variable under its number, and
that variable is the one which lexical scoping selects at that place of the text.
-/
import DirectC.Proofs.Grammar.Definitions
import DirectC.Proofs.Grammar.Scoping

namespace DirectC

open Grammar

/-! ## Variables in force are declared -/

namespace Bindings

variable {Γ : Bindings} {vars : List StackVar}

/-- The variables in force are among those of a list. -/
def Within (Γ : Bindings) (vars : List StackVar) : Prop :=
  ∀ scope ∈ Γ.scopes, scope ⊆ vars

/-- A variable in force is declared in one of the scopes. -/
theorem Selects.mem {name : Bytes} {scopes : List (List StackVar)} {v : StackVar}
    (h : Selects name scopes v) : ∃ scope ∈ scopes, v ∈ scope := by
  induction h with
  | here hv => exact ⟨_, List.mem_cons_self, hv⟩
  | outside _ _ ih =>
    obtain ⟨scope, hscope, hv⟩ := ih
    exact ⟨scope, List.mem_cons_of_mem _ hscope, hv⟩

/-- A new scope has no variables yet. -/
theorem Within.enter (h : Γ.Within vars) : Γ.enter.Within vars :=
  List.forall_mem_cons.mpr ⟨List.nil_subset _, h⟩

/-- A variable of the function may be declared. -/
theorem Within.declare {v : StackVar} (h : Γ.Within vars) (hv : v ∈ vars) :
    (Γ.declare v).Within vars := by
  obtain ⟨hinner, houter⟩ := List.forall_mem_cons.mp h
  refine List.forall_mem_cons.mpr ⟨List.append_subset.mpr ⟨hinner, ?_⟩, houter⟩
  exact List.cons_subset.mpr ⟨hv, List.nil_subset _⟩

end Bindings

/-- A local identifier is a variable of a list, with its name, its type and its number. -/
def Node.Declared (vars : List StackVar) : Node → Prop
  | .expr (.ident name _ (.stack id) type) => ⟨name, type, id⟩ ∈ vars
  | _ => True

namespace Grammar

variable {gs : Table GlobalVar} {Γ Γ' : Bindings} {ts : List Token} {ss : List Stmt}
  {vs : List LocalVar} {vars : List StackVar}

/-- Only variables of a list are named below statements. -/
abbrev AllDeclared (vars : List StackVar) (ss : List Stmt) : Prop :=
  ∀ st ∈ ss, (Node.stmt st).All (Node.Declared vars)

/-- **Names that are resolved are declared.** -/
theorem declared_of_resolved {node : Node} (h : node.All (Node.Resolved gs Γ ts))
    (hΓ : Γ.Within vars) : node.All (Node.Declared vars) := by
  intro below hb
  have hbelow := h below hb
  unfold Node.Resolved at hbelow
  unfold Node.Declared
  split
  · obtain ⟨-, ⟨hselects⟩⟩ := hbelow
    obtain ⟨scope, hscope, hv⟩ := hselects.mem
    exact hΓ scope hscope hv
  · trivial

/-- A statement is declared if its parts are. -/
theorem declared_stmt {st : Stmt}
    (h : ∀ child ∈ (Node.stmt st).children, child.All (Node.Declared vars)) :
    AllDeclared vars [st] :=
  List.forall_mem_singleton.mpr (Node.all_iff.mpr ⟨trivial, h⟩)

theorem declared_eval {e : Expr} (h : (Node.expr e).All (Node.Declared vars)) :
    AllDeclared vars [.eval e] :=
  declared_stmt (List.forall_mem_singleton.mpr h)

theorem declared_block (h : AllDeclared vars ss) : AllDeclared vars [.block ss] :=
  declared_stmt (List.forall_mem_map.mpr h)

/-- An initializer is, if its variables are in force. -/
theorem Initializer.declared {name : Token} (h : Initializer gs Γ name ts ss)
    (hΓ : Γ.Within vars) : AllDeclared vars ss := by
  cases h with
  | none => exact List.forall_mem_nil _
  | assign _ _ he => exact declared_eval (declared_of_resolved he hΓ)

/-- What is declared is in force behind it. -/
theorem Declarators.declared (h : Declarators gs Γ ts ss vs Γ') (hΓ : Γ.Within vars)
    (hvs : ∀ v ∈ vs, v.toStackVar ∈ vars) : AllDeclared vars ss ∧ Γ'.Within vars := by
  induction h with
  | last _ _ _ _ hinit =>
    have hΓ := hΓ.declare (hvs _ List.mem_cons_self)
    exact ⟨hinit.declared hΓ, hΓ⟩
  | more _ _ _ _ hinit _ _ ih =>
    obtain ⟨hv, hvs⟩ := List.forall_mem_cons.mp hvs
    have hΓ := hΓ.declare hv
    obtain ⟨hmore, hΓ'⟩ := ih hΓ hvs
    exact ⟨List.forall_mem_append.mpr ⟨hinit.declared hΓ, hmore⟩, hΓ'⟩

/-- A declaration leaves variables of the function in force. -/
theorem Declares.declared (h : Declares gs Γ ts ss vs Γ') (hΓ : Γ.Within vars)
    (hvs : ∀ v ∈ vs, v.toStackVar ∈ vars) : AllDeclared vars ss ∧ Γ'.Within vars := by
  cases h with
  | struct => exact ⟨List.forall_mem_nil _, hΓ⟩
  | declarators _ h => exact h.declared hΓ hvs

/-- The beginning of a loop leaves variables of the function in force. -/
theorem Begins.declared (h : Begins gs Γ ts ss vs Γ') (hΓ : Γ.Within vars)
    (hvs : ∀ v ∈ vs, v.toStackVar ∈ vars) : AllDeclared vars ss ∧ Γ'.Within vars := by
  cases h with
  | declaration h => exact h.declared hΓ hvs
  | none => exact ⟨List.forall_mem_nil _, hΓ⟩
  | effect he => exact ⟨declared_eval (declared_of_resolved he.resolved hΓ), hΓ⟩

/-- The condition of a loop is declared. -/
theorem Tests.declared {pos : Int} {e : Expr} (h : Tests gs Γ pos ts e) (hΓ : Γ.Within vars) :
    (Node.expr e).All (Node.Declared vars) := by
  cases h with
  | none => exact all_leaf trivial rfl
  | value he => exact declared_of_resolved he.resolved hΓ

/-- The update of a loop names declared variables. -/
theorem Updates.declared (h : Updates gs Γ ts ss) (hΓ : Γ.Within vars) : AllDeclared vars ss := by
  cases h with
  | none => exact List.forall_mem_nil _
  | effect he => exact declared_eval (declared_of_resolved he.resolved hΓ)

/-- **Local identifiers are variables in force or declared on the way**, whatever the statements. -/
theorem Scoped.declared {form : Form} (h : Scoped gs form Γ ts ss vs) (hΓ : Γ.Within vars)
    (hvs : ∀ v ∈ vs, v.toStackVar ∈ vars) : AllDeclared vars ss := by
  -- By induction on the rules: a scope begins with the variables in force around it.
  induction h with
  | block _ _ ih => exact declared_block (ih hΓ.enter hvs)
  | empty => exact declared_block (List.forall_mem_nil _)
  | ret => exact declared_stmt (List.forall_mem_nil _)
  | retValue _ he | exit _ he =>
    exact declared_stmt (List.forall_mem_singleton.mpr (declared_of_resolved he.resolved hΓ))
  | ifThen _ _ hcond _ _ ih | loop _ _ hcond _ _ ih =>
    refine declared_stmt ?_
    have hcond := declared_of_resolved hcond.resolved hΓ
    have hbelow := List.forall_mem_singleton.mp (ih hΓ hvs)
    simpa [Node.children] using ⟨hcond, hbelow⟩
  | ifElse _ _ hcond _ _ _ _ ihyes ihno =>
    obtain ⟨hvs, hws⟩ := List.forall_mem_append.mp hvs
    refine declared_stmt ?_
    have hcond := declared_of_resolved hcond.resolved hΓ
    have hyes := List.forall_mem_singleton.mp (ihyes hΓ hvs)
    have hno := List.forall_mem_singleton.mp (ihno hΓ hws)
    simpa [Node.children] using ⟨hcond, hyes, hno⟩
  | @forLoop _ _ _ _ _ _ _ _ start update cond body _ _ _ _ hstart hcond hupdate _ ih =>
    obtain ⟨hvs, hws⟩ := List.forall_mem_append.mp hvs
    obtain ⟨hstart, hΓ'⟩ := hstart.declared hΓ.enter hvs
    have hround := List.forall_mem_singleton.mp
      (declared_block (List.forall_mem_append.mpr ⟨ih hΓ' hws, hupdate.declared hΓ'⟩))
    have hloop : AllDeclared vars [.loop cond (.block (body :: update))] := by
      refine declared_stmt ?_
      simpa [Node.children] using ⟨hcond.declared hΓ', hround⟩
    exact declared_block (List.forall_mem_append.mpr ⟨hstart, hloop⟩)
  | eval he => exact declared_eval (declared_of_resolved he.resolved hΓ)
  | close => exact List.forall_mem_nil _
  | declaration h _ ih =>
    obtain ⟨hvs, hws⟩ := List.forall_mem_append.mp hvs
    obtain ⟨hss, hΓ'⟩ := h.declared hΓ hvs
    exact List.forall_mem_append.mpr ⟨hss, ih hΓ' hws⟩
  | statement _ _ ih ihmore =>
    obtain ⟨hvs, hws⟩ := List.forall_mem_append.mp hvs
    exact List.forall_mem_append.mpr ⟨ih hΓ hvs, ihmore hΓ hws⟩

/-! ## Parameters -/

/-- **Parameters are declared** one by one in the innermost scope, and numbered on. -/
structure Enrolled (Γ : Bindings) (sc : Scope) (ps : List Param) (sc' : Scope) : Prop where
  agrees : Bindings.Agrees ⟨Γ.inner ++ ps.map (·.toStackVar), Γ.outer⟩ sc'
  distinct : (Γ.inner.map (·.name)).Nodup →
    ((Γ.inner ++ ps.map (·.toStackVar)).map (·.name)).Nodup
  ids : ps.map (·.id) = (List.range' sc.nextId ps.length).map Int.ofNat
  nextId : sc'.nextId = sc.nextId + ps.length
  locals : sc'.locals = sc.locals

theorem Enrolled.nil {sc : Scope} (h : Γ.Agrees sc) : Enrolled Γ sc [] sc where
  agrees := by simpa using h
  distinct := by simp
  ids := rfl
  nextId := rfl
  locals := rfl

/-- One more parameter is enrolled in front. -/
theorem Enrolled.cons {p : Param} {ps : List Param} {sc sc' sc'' : Scope} (h : Γ.Agrees sc)
    (hp : sc.declare? p.name p.type = some (p.id, sc'))
    (hps : Enrolled (Γ.declare p.toStackVar) sc' ps sc'') : Enrolled Γ sc (p :: ps) sc'' := by
  obtain ⟨-, hnew, hid, hnext⟩ := h.declare hp
  have happend : Γ.inner ++ (p :: ps).map (·.toStackVar) =
      (Γ.declare p.toStackVar).inner ++ ps.map (·.toStackVar) := by
    simp [Bindings.declare]
  exact {
    agrees := by rw [happend]; exact hps.agrees
    distinct := by
      intro hdistinct
      rw [happend]
      refine hps.distinct ?_
      rw [Bindings.declare, List.map_append]
      refine List.nodup_append.mpr ⟨hdistinct, by simp, ?_⟩
      simpa [Param.toStackVar] using hnew
    ids := by simp [hps.ids, hid, hnext, List.range'_succ]
    nextId := by rw [hps.nextId, hnext, List.length_cons]; omega
    locals := hps.locals.trans (Scope.locals_declare? hp) }

/-- The parameters of a head are enrolled in their order. -/
theorem Declared.enrolled {ps : List Param} {s t : Reading} (h : Γ.Agrees s.scope)
    (hps : Declared s ps t) : Enrolled Γ s.scope ps t.scope := by
  induction hps generalizing Γ with
  | nil htrail =>
    rw [htrail.scopes]
    exact .nil h
  | cons hsu hd _ _ ih =>
    rw [hsu.scopes] at hd
    exact .cons h hd (ih (h.declare hd).1)

end Grammar

/-! ## Programs -/

theorem Env.declarations_declareAll (env : Env) (ds : List Declaration) :
    (env.declareAll ds).declarations = env.declarations.declareAll ds := by
  induction ds generalizing env with
  | nil => rfl
  | cons d ds ih =>
    change ((d.apply env).declareAll ds).declarations = _
    rw [ih, declarations_apply]
    rfl

/-- Numbers from zero on are the places in a list. -/
theorem getElem?_of_mem_numbered {vars : List StackVar}
    (h : vars.map (·.id) = (List.range vars.length).map Int.ofNat) {v : StackVar} (hv : v ∈ vars) :
    ∃ i : Nat, v.id = i ∧ vars[i]? = some v := by
  obtain ⟨i, hi, rfl⟩ := List.getElem_of_mem hv
  refine ⟨i, ?_, List.getElem?_eq_getElem hi⟩
  have hid := congrArg (·[i]?) h
  simpa [hi] using hid

namespace Program

variable {file source : Bytes} {limits : Limits} {p : Program}

/-- **Local names are resolved by lexical scoping.** Every function of a program is among the
functions with a body that its text declares. For each of those: the parameters have different
names; parameters and local variables are numbered from zero on; each local identifier is the
variable that stands under its number, with the same name and type; and the body belongs by the
rules of scoping to the tokens behind the heading of the function, with the parameters in the
outermost scope and the global variables declared before it outside of all. -/
theorem locals_resolved (h : ofSource file source limits = .ok p) :
    (∀ f ∈ p.functions, .body f ∈ (Env.empty limits).declared file source) ∧
    ∀ before f after, (Env.empty limits).declared file source = before ++ .body f :: after →
      ∃ items, f.body = some items ∧
        (f.params.map (·.name)).Nodup ∧
        f.stackVars.map (·.id) = (List.range f.stackVars.length).map Int.ofNat ∧
        (∀ name pos id type, (Node.expr (.ident name pos (.stack id) type)).Occurs items →
          ∃ i : Nat, id = i ∧ f.stackVars[i]? = some ⟨name, type, id⟩) ∧
        ∃ pre heading text post, Token.scan source = pre ++ heading ++ text ++ post ∧
          Heading f heading ∧ Scoped ((Env.empty limits).declareAll before).globals .items
            ⟨f.params.map (·.toStackVar), []⟩ text items f.locals := by
  refine ⟨fun f hf => body_of_mem h hf, fun before f after hsplit => ?_⟩
  obtain ⟨t, htold, rfl, hdeclared⟩ := told_ofSource h
  obtain ⟨v, w, hv, -, hread, hbefore⟩ := htold.body (hdeclared.symm.trans hsplit)
  obtain ⟨fuel, items, hitems, hbody⟩ := hread.body
  obtain ⟨_, a, b, ha, hparams, hscope⟩ := hread.params
  obtain ⟨heading, hheading, pre, hpre⟩ := hread.heading
  -- The scope behind the parameters holds them and nothing else.
  have hempty : Bindings.Agrees ⟨[], []⟩ a.scope := by
    rw [ha]
    exact .cons (by simp [Bindings.Held]) .nil
  have henrolled := (parameters_declared hparams).enrolled hempty
  rw [← hscope, ha] at henrolled
  have hglobals : v.env.globals = ((Env.empty limits).declareAll before).globals := by
    rw [start_env, ← Env.declarations_declareAll] at hbefore
    have hsame := congrArg Env.globals hbefore
    exact hsame
  have hsees : Sees ((Env.empty limits).declareAll before).globals
      ⟨f.params.map (·.toStackVar), []⟩ v :=
    ⟨hv.ended (Reading.start_ended source _), henrolled.agrees, hglobals⟩
  obtain ⟨text, vs, _, hscoped, hgoes⟩ :=
    (statement_blockItems_goes _ f.ret fuel).2 v _ items w hsees hitems
  have hlocals : vs = f.locals := by
    rw [← hread.locals, hgoes.locals, henrolled.locals]
    rfl
  subst hlocals
  have hnumbers : f.stackVars.map (·.id) =
      (List.range f.stackVars.length).map Int.ofNat := by
    have hids := hgoes.ids
    rw [henrolled.nextId] at hids
    calc f.stackVars.map (·.id)
        = f.params.map (·.id) ++ f.locals.map (·.id) := by
          simp [Function.stackVars, Param.toStackVar, LocalVar.toStackVar,
            Function.comp_def]
      _ = (List.range' 0 (f.params.length + f.locals.length)).map Int.ofNat := by
          rw [henrolled.ids, hids, ← List.map_append, List.range'_append_1]
      _ = (List.range f.stackVars.length).map Int.ofNat := by
          simp [Function.stackVars, List.range_eq_range']
  refine ⟨items, hbody, ?_, hnumbers, fun name pos id type ho => ?_, ?_⟩
  · simpa [Param.toStackVar, Function.comp_def] using henrolled.distinct List.nodup_nil
  · have hwithin : Bindings.Within ⟨f.params.map (·.toStackVar), []⟩ f.stackVars :=
      List.forall_mem_singleton.mpr (List.subset_append_left _ _)
    have hdeclared := hscoped.declared hwithin fun v hv =>
      List.mem_append_right _ (List.mem_map_of_mem hv)
    exact getElem?_of_mem_numbered hnumbers (Node.All.of_occurs hdeclared ho)
  · refine ⟨pre, heading, text, w.text, ?_, hheading, hscoped⟩
    rw [← Reading.start_text source (Env.empty limits), ← hpre, hgoes.text]
    simp

/-- A global variable, a parameter and a variable of a loop named `n`, and a parameter and two local
variables named `k`. -/
def shadowing : Bytes := "int n;
int sum(int n, int k) \x7b
  int r = n;
  for (int n = 0, i = n; n < k; n++) \x7b
    int k = n * 2; r += k;
    \x7b char k = k; r = k + i; \x7d
  \x7d
  if (k) \x7b n = r; \x7d
  return n + r;
\x7d
int last() \x7b return n; \x7d"

theorem locals_resolved_shadowing :
    ∃ p, ofSource "shadowing.c" shadowing {} = .ok p ∧
      p.functions.map (fun f => f.stackVars.map (·.id)) = [[0, 1, 2, 3, 4, 5, 6], []] ∧
      ∀ f ∈ p.functions, ∃ items, f.body = some items ∧
        ∀ name pos id type, (Node.expr (.ident name pos (.stack id) type)).Occurs items →
          ∃ i : Nat, id = i ∧ f.stackVars[i]? = some ⟨name, type, id⟩ := by
  have hp : ((ofSource "shadowing.c" shadowing {}).toOption.any fun p =>
      p.functions.map (fun f => f.stackVars.map (·.id)) =
        [[0, 1, 2, 3, 4, 5, 6], []]) = true := by
    decide +kernel
  obtain ⟨p, h, hp⟩ := exists_ok_of_any hp
  rw [decide_eq_true_eq] at hp
  refine ⟨p, h, hp, fun f hf => ?_⟩
  obtain ⟨hbodies, hresolved⟩ := locals_resolved h
  obtain ⟨before, after, hsplit⟩ := List.append_of_mem (hbodies f hf)
  obtain ⟨items, hitems, -, -, hidents, -⟩ := hresolved before f after hsplit
  exact ⟨items, hitems, hidents⟩

end Program

end DirectC
