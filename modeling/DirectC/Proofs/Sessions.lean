/-
# Sessions

An environment can be built up in any way: by declarations made one at a time, and by texts read
into it, whether they are read to their end or not. Whatever the operations were, the environment
behind them is the one that the declarations among them make (`declarations_run`), so what each
declaration keeps holds after every session.
-/
import DirectC.Proofs.Grammar.Record

namespace DirectC

namespace Env

/-- The operations on an environment. -/
inductive Op where
  | declare (s : Signature)
  | declareGlobal (g : GlobalVar)
  | define (f : Function)
  | intern (s : Bytes)
  | source (file text : Bytes)
  | statement (file text : Bytes)

/-- The environment behind an operation. A text that cannot be read to its end leaves what was
declared before the failure. -/
def Op.apply (env : Env) : Op → Env
  | .declare s => env.declare s
  | .declareGlobal g => env.declareGlobal g
  | .define f => env.define f
  | .intern s => (env.intern s).2
  | .source file text => (env.readSource file text).2
  | .statement file text => (env.readStatement file text).2

/-- The environment behind a session. -/
def run (env : Env) (ops : List Op) : Env :=
  ops.foldl Op.apply env

/-! ## The declarations of a session -/

/-- The declarations that an operation makes. -/
def Op.declared (env : Env) : Op → List Declaration
  | .declare s => [.function s]
  | .declareGlobal g => [.global g]
  | .define f => [.body f]
  | .source file text => env.declared file text
  | .intern _ | .statement _ _ => []

/-- The declarations of a session in their order. -/
def history (env : Env) : List Op → List Declaration
  | [] => []
  | op :: ops => op.declared env ++ history (op.apply env) ops

/-- The bodies that an operation reads: those of the functions in a source file, and a lone
statement. -/
def Op.bodies (env : Env) : Op → List (List Stmt)
  | .source file text =>
    (env.declared file text).filterMap fun d => d.body?.bind (·.body)
  | .statement file text => (env.readStatement file text).1.toOption.toList.map ([·])
  | _ => []

/-- The bodies that a session reads. -/
def bodiesRead (env : Env) : List Op → List (List Stmt)
  | [] => []
  | op :: ops => op.bodies env ++ bodiesRead (op.apply env) ops

variable {env : Env} {op : Op} {ops : List Op} {ds : List Declaration}

/-- One operation makes its declarations. -/
theorem declarations_op (env : Env) (op : Op) :
    (op.apply env).declarations = env.declarations.declareAll (op.declared env) := by
  cases op with
  | declare s | declareGlobal g | define f => rfl
  | intern s => exact env.declarations_intern s
  | source file text => exact (env.readSource_becomes file text).1.declarations
  | statement file text => exact (env.readStatement_gathers file text).1.declarations

/-- **The declarations of a session make its environment**, apart from layouts and strings. -/
theorem declarations_run (env : Env) (ops : List Op) :
    (env.run ops).declarations = env.declarations.declareAll (env.history ops) := by
  induction ops generalizing env with
  | nil => rfl
  | cons op ops ih =>
    change ((op.apply env).run ops).declarations = _
    rw [ih, declarations_op, history, declareAll_append]

/-! ## Strings -/

/-- Strings keep their numbers when a text is read. -/
theorem strings_op (env : Env) (op : Op) : env.strings <+: (op.apply env).strings := by
  cases op with
  | declare s | declareGlobal g | define f => exact List.prefix_rfl
  | intern s => exact env.strings_isPrefix_intern s
  | source file text => exact (env.readSource_becomes file text).1.pool
  | statement file text => exact (env.readStatement_gathers file text).1.pool

/-- Strings keep their numbers throughout a session. -/
theorem strings_run (env : Env) (ops : List Op) : env.strings <+: (env.run ops).strings := by
  induction ops generalizing env with
  | nil => exact List.prefix_rfl
  | cons op ops ih => exact (env.strings_op op).trans (ih _)

theorem nodup_strings_op (h : env.strings.Nodup) : (op.apply env).strings.Nodup := by
  cases op with
  | declare s | declareGlobal g | define f => exact h
  | intern s => exact nodup_strings_intern s h
  | source file text => exact (env.readSource_becomes file text).1.distinct h
  | statement file text => exact (env.readStatement_gathers file text).1.distinct h

/-- No string is ever in the pool twice. -/
theorem nodup_strings_run (h : env.strings.Nodup) : (env.run ops).strings.Nodup := by
  induction ops generalizing env with
  | nil => exact h
  | cons op ops ih => exact ih (nodup_strings_op h)

/-- The literals in the bodies of a text stand in the pool behind it. -/
theorem pooled_op {items : List Stmt} (h : items ∈ op.bodies env) {node : Node}
    (ho : node.Occurs items) : node.Pooled (op.apply env).strings := by
  cases op with
  | declare s | declareGlobal g | define f | intern s => cases h
  | source file text =>
    obtain ⟨d, hd, hb⟩ := List.mem_filterMap.mp h
    obtain ⟨f, hf, hb⟩ := Option.bind_eq_some_iff.mp hb
    obtain rfl := Declaration.body?_eq_some.mp hf
    obtain ⟨_, hitems, hs⟩ := ((env.readSource_becomes file text).1.bodies f hd).body
    obtain rfl := Option.some.inj (hb.symm.trans hitems)
    exact Node.All.of_occurs (fun s hm => Node.pooled_of_stmt (hs s hm)) ho
  | statement file text =>
    obtain ⟨s, hs, rfl⟩ := List.mem_map.mp h
    have hs : s.Anchored (InText text) (env.readStatement file text).2.strings := by
      refine (env.readStatement_gathers file text).2 s ?_
      cases hr : (env.readStatement file text).1 with
      | error d => simp [hr, Except.toOption] at hs
      | ok t => simp_all [Except.toOption]
    refine Node.All.of_occurs (fun t ht => ?_) ho
    rw [List.mem_singleton.mp ht]
    exact Node.pooled_of_stmt hs

/-- All literals of a body that was read are in the pool of the session. -/
theorem pooled_run {items : List Stmt} (h : items ∈ env.bodiesRead ops) {node : Node}
    (ho : node.Occurs items) : node.Pooled (env.run ops).strings := by
  induction ops generalizing env with
  | nil => cases h
  | cons op ops ih =>
    rcases List.mem_append.mp h with h | h
    · exact (pooled_op h ho).mono (strings_run _ ops)
    · exact ih h

/-! ## Names -/

/-- An environment in which no name stands for two things, and a variable under its own name. -/
structure Orderly (env : Env) : Prop where
  named : env.globals.All fun name g => g.name = name
  apart : ∀ name, env.signatures.get? name = none ∨ env.globals.get? name = none
  distinct : (env.functions.map (·.name)).Nodup

theorem Orderly.empty (limits : Limits) : (Env.empty limits).Orderly :=
  ⟨.empty, fun _ => .inl rfl, List.nodup_nil⟩

/-- A declaration keeps names apart: none is that of a function and of a variable. -/
theorem Orderly.apply (h : env.Orderly) (d : Declaration) : (d.apply env).Orderly := by
  cases d with
  | function s =>
    refine ⟨h.named.erase, fun name => ?_, h.distinct⟩
    rcases eq_or_ne s.name name with hname | hname
    · exact .inr (by rw [Declaration.apply, Env.declare, Table.get?_erase, if_pos hname])
    · rw [Declaration.apply, Env.declare, Table.get?_erase, Table.get?_insert, if_neg hname,
        if_neg hname]
      exact h.apart name
  | global g =>
    refine ⟨h.named.insert rfl, fun name => ?_, h.distinct⟩
    rcases eq_or_ne g.name name with hname | hname
    · exact .inl (by rw [Declaration.apply, Env.declareGlobal, Table.get?_erase, if_pos hname])
    · rw [Declaration.apply, Env.declareGlobal, Table.get?_erase, Table.get?_insert, if_neg hname,
        if_neg hname]
      exact h.apart name
  | body f => exact ⟨h.named, h.apart, nodup_names_putFunction h.distinct⟩

/-- Any number of declarations keeps names apart. -/
theorem Orderly.declareAll (h : env.Orderly) (ds : List Declaration) :
    (env.declareAll ds).Orderly := by
  induction ds generalizing env with
  | nil => exact h
  | cons d ds ih => exact ih (h.apply d)

/-- Every body was there before or is one of the new ones. -/
theorem mem_functions_declareAll {f : Function} (h : f ∈ (env.declareAll ds).functions) :
    f ∈ env.functions ∨ .body f ∈ ds := by
  induction ds generalizing env with
  | nil => exact .inl h
  | cons d ds ih =>
    rcases ih h with h | h
    · cases d with
      | function s | global g => exact .inl h
      | body g =>
        rcases mem_putFunction h with rfl | h
        · exact .inr List.mem_cons_self
        · exact .inl h
    · exact .inr (List.mem_cons_of_mem _ h)

/-- A body in the history of a session was handed in or read from a text. -/
theorem body_of_mem_history {f : Function} (h : .body f ∈ env.history ops) :
    .define f ∈ ops ∨ ∃ items ∈ env.bodiesRead ops, f.body = some items := by
  induction ops generalizing env with
  | nil => cases h
  | cons op ops ih =>
    rcases List.mem_append.mp h with h | h
    · cases op with
      | declare s | declareGlobal g => cases List.mem_singleton.mp h
      | intern s | statement file text => cases h
      | define g =>
        cases List.mem_singleton.mp h
        exact .inl List.mem_cons_self
      | source file text =>
        obtain ⟨items, hitems, -⟩ := ((env.readSource_becomes file text).1.bodies f h).body
        exact .inr ⟨items, List.mem_append_left _ (List.mem_filterMap.mpr
          ⟨_, h, by simp [Declaration.body?, hitems]⟩), hitems⟩
    · rcases ih h with h | ⟨items, hitems, hf⟩
      · exact .inl (List.mem_cons_of_mem _ h)
      · exact .inr ⟨items, List.mem_append_right _ hitems, hf⟩

/-! ## Whole sessions -/

/-- A session keeps names apart. -/
theorem orderly_run (h : env.Orderly) (ops : List Op) : (env.run ops).Orderly := by
  have hstart : env.declarations.Orderly := ⟨h.named, h.apart, h.distinct⟩
  have hend := hstart.declareAll (env.history ops)
  rw [← declarations_run] at hend
  exact ⟨hend.named, hend.apart, hend.distinct⟩

/-- **What holds after every session** from an environment without declarations. No name is both a
function and a variable, and no two bodies have one name. No string is twice in the pool, and a
string gets the number under which it stands there; it is added if it is new. The functions of the
program have signatures. The string literals in everything that was read are the strings under
their numbers; and a body of the program that was not handed in was read. -/
theorem session_invariants (limits : Limits) (ops : List Op) :
    let env := (Env.empty limits).run ops
    let p := env.program
    (∀ name, ¬ (env.signatures.contains name ∧ env.globals.contains name)) ∧
    (env.functions.map (·.name)).Nodup ∧
    env.strings.Nodup ∧
    (∀ s, (env.intern s).2.strings[(env.intern s).1]? = some s ∧
      (env.intern s).2.strings = if s ∈ env.strings then env.strings else env.strings ++ [s]) ∧
    (∀ f ∈ p.functions, p.signatures.contains f.name) ∧
    (∀ items ∈ (Env.empty limits).bodiesRead ops, ∀ node : Node,
      node.Occurs items → node.Pooled p.strings) ∧
    ∀ f ∈ p.functions,
      .define f ∈ ops ∨ ∃ items ∈ (Env.empty limits).bodiesRead ops, f.body = some items := by
  intro env p
  have horderly : env.Orderly := orderly_run (.empty limits) ops
  refine ⟨fun name ⟨hs, hg⟩ => ?_, horderly.distinct, nodup_strings_run List.nodup_nil,
    fun s => ⟨env.getElem?_intern s, env.strings_intern s⟩, fun f hf => (List.mem_filter.mp hf).2,
    fun items hitems node ho => pooled_run hitems ho, fun f hf => ?_⟩
  · obtain ⟨_, hs⟩ := Table.contains_iff.mp hs
    obtain ⟨_, hg⟩ := Table.contains_iff.mp hg
    rcases horderly.apart name with h | h
    · exact nomatch hs.symm.trans h
    · exact nomatch hg.symm.trans h
  · -- A session starts with no functions, so each comes from its history.
    have hf : f ∈ env.declarations.functions := (List.mem_filter.mp hf).1
    rw [declarations_run] at hf
    rcases mem_functions_declareAll hf with hf | hf
    · cases hf
    · exact body_of_mem_history hf

end Env

end DirectC
