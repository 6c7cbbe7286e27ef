/-
# Running readers

What the readers of single tokens do in a state, and what a sequence of readers does. Readers are
followed step by step with these equations where it matters which tokens there are.
-/
import DirectC.Grammar.SourceFile

namespace DirectC

namespace Grammar

/-- What a reader may change of the state. -/
inductive Layer where
  /-- Types and expressions: the tokens, the pool of strings and the structs. -/
  | expression
  /-- Statements: the scopes and the local variables as well. -/
  | body
  /-- The heading of a function: its parameters as well. -/
  | heading
  /-- The items of a file: all of it. -/
  | file

namespace Layer

/-- Scopes are opened and closed, and local variables are declared. -/
def Bodies (k : Layer) : Prop :=
  k = .body ∨ k = .file

/-- Parameters are declared. -/
def Heads (k : Layer) : Prop :=
  k = .heading ∨ k = .file

theorem Bodies.ne_expression {k : Layer} (h : k.Bodies) : k ≠ .expression := by
  rcases h with rfl | rfl <;> simp

theorem Heads.ne_expression {k : Layer} (h : k.Heads) : k ≠ .expression := by
  rcases h with rfl | rfl <;> simp

theorem body_bodies : Layer.body.Bodies :=
  .inl rfl

theorem file_bodies : Layer.file.Bodies :=
  .inr rfl

theorem heading_heads : Layer.heading.Heads :=
  .inl rfl

theorem file_heads : Layer.file.Heads :=
  .inr rfl

theorem body_ne_file : Layer.body ≠ .file := by simp

theorem heading_ne_file : Layer.heading ≠ .file := by simp

theorem expression_ne_file : Layer.expression ≠ .file := by simp

end Layer

namespace Reading

/-- The state behind the next token. Nothing is behind the last one. -/
def rest (s : Reading) : Reading :=
  match s.ahead with
  | [] => s
  | t :: ts => { s with current := t, ahead := ts }

/-- The tokens from here on. -/
def text (s : Reading) : List Token :=
  s.current :: s.ahead

/-- The state behind a declaration. -/
def made (s : Reading) (e : Event) : Reading :=
  { s with
    env := e.apply s.env
    log := { s.log with events := s.log.events ++ [e] } }

variable {s t : Reading}

/-- Going on does not touch the environment. -/
@[simp] theorem rest_env : s.rest.env = s.env := by
  unfold rest
  split <;> rfl

/-- Going on does not touch the scopes. -/
@[simp] theorem rest_scope : s.rest.scope = s.scope := by
  unfold rest
  split <;> rfl

/-- Going on does not touch the log. -/
@[simp] theorem rest_log : s.rest.log = s.log := by
  unfold rest
  split <;> rfl

/-- The token behind the current one, which is the one that is peeked at. -/
theorem rest_current (s : Reading) : s.rest.current = s.ahead.headD s.current := by
  unfold rest
  split
  · rename_i h
    rw [h]
    rfl
  · rename_i h
    rw [h]
    rfl

/-- A state is its tokens, its environment, its scopes and its log. -/
theorem eq_of_text (h : s.text = t.text) (henv : s.env = t.env) (hscope : s.scope = t.scope)
    (hlog : s.log = t.log) : s = t := by
  cases s
  cases t
  cases henv
  cases hscope
  cases hlog
  cases h
  rfl

end Reading

/-- The state behind a step, whatever happened. -/
def behind {α : Type} : EStateM.Result Complaint Reading α → Reading
  | .ok _ t => t
  | .error _ t => t

/-- Reading begins in the environment that is given. -/
@[simp] theorem start_env (source : Bytes) (env : Env) : (Reading.start source env).env = env := by
  unfold Reading.start
  split <;> rfl

/-- Reading begins with an empty log. -/
@[simp] theorem start_log (source : Bytes) (env : Env) : (Reading.start source env).log = {} := by
  unfold Reading.start
  split <;> rfl

/-- What a reader leaves of an environment is what it leaves in the state. -/
theorem read_env {α : Type} (env : Env) (file source : Bytes) (reader : Nat → Read α) :
    (env.read file source reader).2 =
      (behind (reader (Reading.start source env).budget (Reading.start source env))).env := by
  unfold Env.read
  dsimp only
  cases reader (Reading.start source env).budget (Reading.start source env) <;> rfl

/-- A source file can be read if its items can. -/
theorem readSource_ok {env env' : Env} {file source : Bytes} :
    env.readSource file source = (.ok (), env') ↔
      ∃ s, items file source (Reading.start source env).budget (Reading.start source env) =
        .ok () s ∧ s.env = env' := by
  unfold Env.readSource Env.read
  dsimp only
  cases items file source (Reading.start source env).budget (Reading.start source env) with
  | error c s => simp
  | ok a s => simp

variable {s t : Reading}

/-! ## Sequences -/

section Sequences

variable {α β : Type} {x : Read α} {f : α → Read β}

/-- A sequence succeeds if both of its steps do. -/
theorem run_bind_ok {u : Reading} {b : β} :
    (x >>= f) s = .ok b u ↔ ∃ a t, x s = .ok a t ∧ f a t = .ok b u := by
  change EStateM.bind x f s = _ ↔ _
  unfold EStateM.bind
  cases x s with
  | error c t => simp
  | ok a t =>
    constructor
    · intro h
      exact ⟨a, t, rfl, h⟩
    · rintro ⟨_, _, ⟨⟩, h⟩
      exact h

/-- Behind a step that succeeds, the next one goes on. -/
theorem run_bind_of_ok {a : α} (h : x s = .ok a t) : (x >>= f) s = f a t := by
  change EStateM.bind x f s = _
  rw [EStateM.bind, h]

/-- Nothing follows a step that fails. -/
theorem run_bind_of_error {c : Complaint} (h : x s = .error c t) : (x >>= f) s = .error c t := by
  change EStateM.bind x f s = _
  rw [EStateM.bind, h]

/-- A failure is no success. -/
theorem error_ne_ok {c : Complaint} {a : α} :
    (.error c s : EStateM.Result Complaint Reading α) ≠ .ok a t := by
  intro h
  cases h

/-- A step in a scope of its own that succeeds. -/
theorem run_inScope_of_ok {a : α} (h : x { s with scope := s.scope.push } = .ok a t) :
    inScope x s = .ok a { t with scope := t.scope.pop } := by
  simp only [inScope, h]

/-- A step in a scope of its own that fails. -/
theorem run_inScope_of_error {c : Complaint}
    (h : x { s with scope := s.scope.push } = .error c t) :
    inScope x s = .error c { t with scope := t.scope.pop } := by
  simp only [inScope, h]

/-- Rules succeed as steps if they succeed. -/
theorem checked_ok {r : Checked α} {a : α} (h : checked r s = .ok a t) : r = .ok a := by
  cases r with
  | error c => cases h
  | ok b =>
    cases h
    rfl

end Sequences

/-! ## Tokens -/

section Tokens

variable {α β : Type} {k : Token.Kind} {p : Punct} {wanted : Wanted}

/-- Going on leads behind the current token. -/
theorem run_next (s : Reading) : next s = .ok () s.rest := by
  unfold next Reading.rest
  cases s.ahead <;> rfl

/-- What is not expected is a complaint. -/
theorem run_unexpected (wanted : Wanted) (s : Reading) :
    ∃ c, (unexpected wanted : Read α) s = .error c s := by
  change ∃ c, (if s.current.kind == .illegal then
    if s.current.literal == Bytes.ofString "/*" then fail .unterminatedComment s.current.pos
    else fail (.invalidToken s.current.literal) s.current.pos
    else fail (.unexpected wanted s.current) s.current.pos) s = .error c s
  split
  · split <;> exact ⟨_, rfl⟩
  · exact ⟨_, rfl⟩

/-- What is not expected is no success. -/
theorem unexpected_ne {a : α} : (unexpected wanted : Read α) s ≠ .ok a t := by
  intro h
  have hc : ∃ c, (unexpected wanted : Read α) s = .error c s := run_unexpected wanted s
  obtain ⟨c, hc⟩ := hc
  cases hc.symm.trans h

/-- Nothing follows what is not expected. -/
theorem unexpected_bind_ne {f : α → Read β} {b : β} : (unexpected wanted >>= f) s ≠ .ok b t := by
  intro h
  obtain ⟨a, u, ha, -⟩ := run_bind_ok.mp h
  exact unexpected_ne ha

/-- A token of the kind wanted is taken. -/
theorem run_expect (h : s.current.kind = k) : expect k s = .ok s.current s.rest := by
  change (if s.current.kind == k then (do next; return s.current : Read Token)
    else unexpected (.token k)) s = _
  rw [if_pos (beq_iff_eq.mpr h), run_bind_of_ok (run_next s)]
  rfl

/-- A token of another kind is complained of. -/
theorem run_expect_of_ne (h : s.current.kind ≠ k) : expect k s = unexpected (.token k) s := by
  change (if s.current.kind == k then (do next; return s.current : Read Token)
    else unexpected (.token k)) s = _
  rw [if_neg (by simpa using h)]

/-- Nothing but a token of the kind wanted is taken. -/
theorem expect_ok {tok : Token} (h : expect k s = .ok tok t) :
    s.current.kind = k ∧ tok = s.current ∧ next s = .ok () t := by
  by_cases hk : s.current.kind = k
  · rw [run_expect hk] at h
    cases h
    exact ⟨hk, rfl, run_next s⟩
  · obtain ⟨tok', u, htok, h⟩ := run_bind_ok.mp h
    cases htok
    rw [if_neg (by simpa using hk)] at h
    exact absurd h unexpected_ne

/-- An operator is taken if it is there. -/
theorem run_accept (h : s.current.kind = .punct p) : accept p s = .ok true s.rest := by
  change (if s.current.kind == .punct p then (do next; return true : Read Bool)
    else return false) s = _
  rw [if_pos (beq_iff_eq.mpr h), run_bind_of_ok (run_next s)]
  rfl

/-- Nothing is taken if the operator is not there. -/
theorem run_accept_of_ne (h : s.current.kind ≠ .punct p) : accept p s = .ok false s := by
  change (if s.current.kind == .punct p then (do next; return true : Read Bool)
    else return false) s = _
  rw [if_neg (by simpa using h)]
  rfl

/-- An operator that was taken was there. -/
theorem accept_ok_true (h : accept p s = .ok true t) :
    s.current.kind = .punct p ∧ t = s.rest := by
  by_cases hkind : s.current.kind = .punct p
  · rw [run_accept hkind] at h
    cases h
    exact ⟨hkind, rfl⟩
  · rw [run_accept_of_ne hkind] at h
    cases h

/-- If no operator was taken, the state is the same. -/
theorem accept_ok_false (h : accept p s = .ok false t) : t = s := by
  by_cases hkind : s.current.kind = .punct p
  · rw [run_accept hkind] at h
    cases h
  · rw [run_accept_of_ne hkind] at h
    cases h
    rfl

end Tokens

/-! ## Names -/

section Names

variable {name : Token}

/-- A local variable comes first. -/
theorem run_resolve_local {v : Local} (h : s.scope.lookup? name.literal = some v) :
    resolve name s = .ok (.ident name.literal name.pos (.stack v.id) v.type) s := by
  unfold resolve
  rw [run_bind_of_ok (rfl : scope s = .ok s.scope s), h]
  rfl

/-- A global variable comes next. -/
theorem run_resolve_global {g : GlobalVar} (h : s.scope.lookup? name.literal = none)
    (hg : s.env.globals.get? name.literal = some g) :
    resolve name s = .ok (.ident name.literal name.pos .static g.type) s := by
  unfold resolve
  rw [run_bind_of_ok (rfl : scope s = .ok s.scope s), h]
  dsimp only
  rw [run_bind_of_ok (rfl : environment s = .ok s.env s), hg]
  rfl

/-- What a name that stands for no variable is complained of. -/
def Reading.unresolved (s : Reading) (name : Bytes) : Fault :=
  if s.env.signatures.contains name then .functionValue name else .undeclaredIdentifier name

/-- A name that is not found is no fault of the compiler. -/
theorem Reading.unresolved_kind {name : Bytes} : ((s.unresolved name).kind == .internal) = false := by
  unfold unresolved
  split <;> rfl

/-- A name that stands for no variable. -/
theorem run_resolve_none (h : s.scope.lookup? name.literal = none)
    (hg : s.env.globals.get? name.literal = none) :
    resolve name s = .error ⟨s.unresolved name.literal, name.pos⟩ s := by
  unfold resolve Reading.unresolved
  rw [run_bind_of_ok (rfl : scope s = .ok s.scope s), h]
  dsimp only
  rw [run_bind_of_ok (rfl : environment s = .ok s.env s), hg]
  dsimp only
  split <;> rfl

/-- What a name that stands for no function is complained of. -/
def Reading.uncallable (s : Reading) (name : Bytes) : Fault :=
  if (s.scope.lookup? name).isSome ∨ s.env.globals.contains name then .notFunction name
  else .undeclaredFunction name

/-- A name that cannot be called is no fault of the compiler. -/
theorem Reading.uncallable_kind {name : Bytes} : ((s.uncallable name).kind == .internal) = false := by
  unfold uncallable
  split <;> rfl

/-- The signature that a name stands for where no local variable has it. -/
def Reading.callee? (s : Reading) (name : Bytes) : Option Signature :=
  if (s.scope.lookup? name).isSome then none else s.env.signatures.get? name

/-- What can be called is declared. -/
theorem Reading.signature_of_callee {name : Bytes} {sig : Signature} (h : s.callee? name = some sig) :
    s.env.signatures.get? name = some sig := by
  unfold callee? at h
  split at h
  · cases h
  · exact h

/-- A function is called by its name. -/
theorem run_callee_some {sig : Signature} (h : s.callee? name.literal = some sig) :
    callee name s = .ok sig s := by
  unfold Reading.callee? at h
  unfold callee
  rw [run_bind_of_ok (rfl : scope s = .ok s.scope s)]
  split at h
  · cases h
  · rename_i hlocal
    rw [if_neg hlocal]
    dsimp only
    rw [run_bind_of_ok (rfl : environment s = .ok s.env s), h]
    rfl

/-- A name that stands for no function. -/
theorem run_callee_none (h : s.callee? name.literal = none) :
    callee name s = .error ⟨s.uncallable name.literal, name.pos⟩ s := by
  unfold Reading.callee? at h
  unfold callee Reading.uncallable
  rw [run_bind_of_ok (rfl : scope s = .ok s.scope s)]
  split at h
  · rename_i hlocal
    rw [if_pos hlocal, if_pos (.inl hlocal)]
    rfl
  · rename_i hlocal
    rw [if_neg hlocal]
    dsimp only
    rw [run_bind_of_ok (rfl : environment s = .ok s.env s), h]
    dsimp only
    by_cases hglobal : s.env.globals.contains name.literal
    · rw [if_pos hglobal, if_pos (.inr hglobal)]
      rfl
    · rw [if_neg hglobal, if_neg (not_or.mpr ⟨hlocal, hglobal⟩)]
      rfl

end Names

/-! ## Declarations -/

section Declarations

variable {type : CType} {name : Token}

/-- The struct is defined if it can be laid out. -/
theorem run_defineStruct_ok {fields : List Field} {l : Layout}
    (h : s.env.layout.define name.literal fields = .ok l) :
    defineStruct name fields s = .ok () { s with env := { s.env with layout := l } } := by
  unfold defineStruct
  rw [run_bind_of_ok (rfl : layout s = .ok s.env.layout s), h]
  rfl

/-- What cannot be laid out is complained of. -/
theorem run_defineStruct_error {fields : List Field} {fault : Layout.Fault}
    (h : s.env.layout.define name.literal fields = .error fault) :
    defineStruct name fields s = .error ⟨.layout fault, name.pos⟩ s := by
  unfold defineStruct
  rw [run_bind_of_ok (rfl : layout s = .ok s.env.layout s), h]
  rfl

/-- The state behind the declaration of a local variable. -/
def Reading.withLocal (s : Reading) (sc : Scope) (v : LocalVar) : Reading :=
  { s with
    scope := { sc with locals := sc.locals ++ [v] }
    log := { s.log with locals := s.log.locals ++ [s.env.layout] } }

/-- A local variable is declared if its name is new in its scope. -/
theorem run_addLocal_some {id : Int} {sc : Scope}
    (h : s.scope.declare? name.literal type = some (id, sc)) :
    addLocal type name s = .ok (.ident name.literal name.pos (.stack id) type)
      (s.withLocal sc ⟨name.literal, type, id, name.pos⟩) := by
  unfold addLocal
  rw [run_bind_of_ok (rfl : scope s = .ok s.scope s), h]
  rfl

/-- A local variable whose name is taken. -/
theorem run_addLocal_none (h : s.scope.declare? name.literal type = none) :
    addLocal type name s = .error ⟨.duplicateLocal name.literal, name.pos⟩ s := by
  unfold addLocal
  rw [run_bind_of_ok (rfl : scope s = .ok s.scope s), h]
  rfl

/-- The declaration of a local variable fails and changes nothing, or its type has a size and its
name is new. -/
theorem declareLocal_cases (type : CType) (name : Token) (s : Reading) :
    (∃ c, declareLocal type name s = .error c s) ∨
      ∃ n id sc, type.isVoid = false ∧ s.env.layout.size type = .ok n ∧
        s.scope.declare? name.literal type = some (id, sc) ∧
        declareLocal type name s = .ok (.ident name.literal name.pos (.stack id) type)
          (s.withLocal sc ⟨name.literal, type, id, name.pos⟩) := by
  unfold declareLocal
  cases hvoid : type.isVoid with
  | true => exact .inl ⟨_, rfl⟩
  | false =>
    rw [if_neg Bool.false_ne_true]
    dsimp only
    rw [run_bind_of_ok (rfl : layout s = .ok s.env.layout s)]
    cases hsize : s.env.layout.size type with
    | error fault => exact .inl ⟨_, rfl⟩
    | ok n =>
      rw [located, checked, pure_bind]
      cases hd : s.scope.declare? name.literal type with
      | none => exact .inl ⟨_, run_addLocal_none hd⟩
      | some r => exact .inr ⟨n, r.1, r.2, rfl, rfl, rfl, run_addLocal_some hd⟩

/-- The declaration of a global variable fails and changes nothing, or its type has a size. -/
theorem declareGlobal_cases (type : CType) (name : Token) (s : Reading) :
    (∃ c, declareGlobal type name s = .error c s) ∨
      ∃ n, type.isVoid = false ∧ s.env.layout.size type = .ok n ∧
        declareGlobal type name s =
          .ok () (s.made (.global ⟨name.literal, type, name.pos⟩ s.env.layout)) := by
  unfold declareGlobal
  cases hvoid : type.isVoid with
  | true => exact .inl ⟨_, rfl⟩
  | false =>
    rw [if_neg Bool.false_ne_true]
    dsimp only
    rw [run_bind_of_ok (rfl : layout s = .ok s.env.layout s)]
    cases hsize : s.env.layout.size type with
    | error fault => exact .inl ⟨_, rfl⟩
    | ok n =>
      rw [located, checked, pure_bind,
        run_bind_of_ok (rfl : isAtPunct .assign s = .ok (s.current.kind == .punct .assign) s)]
      cases s.current.kind == .punct .assign with
      | true => exact .inl ⟨_, rfl⟩
      | false => exact .inr ⟨n, rfl, rfl, rfl⟩

/-- The state behind a parameter. -/
def Reading.withParam (s : Reading) (sc : Scope) : Reading :=
  { s with
    scope := sc
    log := { s.log with params := s.log.params ++ [s.env.layout] } }

/-- A parameter is declared if its name is new. -/
theorem run_addParameter_some {id : Int} {sc : Scope}
    (h : s.scope.declare? name.literal type = some (id, sc)) :
    addParameter type name s = .ok ⟨name.literal, type, id⟩ (s.withParam sc) := by
  unfold addParameter
  rw [run_bind_of_ok (rfl : scope s = .ok s.scope s), h]
  rfl

/-- A parameter whose name is taken. -/
theorem run_addParameter_none (h : s.scope.declare? name.literal type = none) :
    addParameter type name s = .error ⟨.duplicateParameter name.literal, name.pos⟩ s := by
  unfold addParameter
  rw [run_bind_of_ok (rfl : scope s = .ok s.scope s), h]
  rfl

/-- The state in which a function begins. -/
def Reading.entered (s : Reading) : Reading :=
  { s with
    scope := {}
    log := { s.log with params := [], locals := [] } }

end Declarations

end Grammar

end DirectC
