/-
# The environment only grows

Reading a text takes nothing out of an environment and moves nothing in it, however far it gets.
Strings, structs, function bodies and global variables keep their places in their lists, a struct
that is defined stays defined, and a name that is declared stays declared, though what it stands for
may change from a function to a variable and back. Every move of reading grows the environment
(`Grammar.Reading.Trail.grows`), and all readers keep to such moves.
-/
import DirectC.Proofs.Grammar.Keeping

namespace DirectC

open Grammar

/-- A name is a function or a global variable. -/
def Env.Declares (env : Env) (name : Bytes) : Prop :=
  env.signatures.contains name ∨ env.globals.contains name

/-- **Nothing is lost** from one environment to another. -/
structure Env.Grows (env env' : Env) : Prop where
  strings : env.strings <+: env'.strings
  structs : env.layout.order <+: env'.layout.order
  defined : ∀ name, (env.layout.struct? name).isSome → (env'.layout.struct? name).isSome
  functions : env.functions.map (·.name) <+: env'.functions.map (·.name)
  globals : env.globalOrder <+: env'.globalOrder
  names : ∀ name, env.Declares name → env'.Declares name

namespace Env

variable {env env' env'' : Env}

theorem Grows.refl (env : Env) : env.Grows env :=
  ⟨List.prefix_rfl, List.prefix_rfl, fun _ => id, List.prefix_rfl, List.prefix_rfl, fun _ => id⟩

/-- What grows twice has grown. -/
theorem Grows.trans (h : env.Grows env') (h' : env'.Grows env'') : env.Grows env'' where
  strings := h.strings.trans h'.strings
  structs := h.structs.trans h'.structs
  defined name hd := h'.defined name (h.defined name hd)
  functions := h.functions.trans h'.functions
  globals := h.globals.trans h'.globals
  names name hn := h'.names name (h.names name hn)

/-- The pool may grow. -/
theorem grows_intern (env : Env) (value : Bytes) : env.Grows (env.intern value).2 := by
  have hstrings := env.strings_isPrefix_intern value
  unfold intern at hstrings ⊢
  split
  · exact .refl env
  · rename_i hi
    rw [hi] at hstrings
    exact { Grows.refl env with strings := hstrings }

/-- A new struct comes last; one that is defined again stays in its place. -/
theorem grows_struct {name : Bytes} {fields : List Field} {l : Layout}
    (h : env.layout.define name fields = .ok l) : env.Grows { env with layout := l } := by
  obtain ⟨d, -, rfl⟩ := Layout.define_ok.mp h
  refine { Grows.refl env with structs := ?_, defined := fun n hn => ?_ }
  · change _ <+: if _ then _ else _
    split
    · exact List.prefix_rfl
    · exact List.prefix_append _ _
  · change ((env.layout.structs.insert d.name d).get? n).isSome
    rw [Table.get?_insert]
    split
    · rfl
    · exact hn

/-- A name is declared as a function or as a global variable. -/
theorem declares_iff {name : Bytes} :
    env.Declares name ↔ (env.signatures.get? name).isSome ∨ (env.globals.get? name).isSome := by
  rw [Declares, Table.contains_eq, Table.contains_eq]

/-- A name that is taken for something else is still a name of something. -/
theorem grows_declare (env : Env) (s : Signature) : env.Grows (env.declare s) := by
  refine { Grows.refl env with names := fun name hn => ?_ }
  rw [declares_iff] at hn ⊢
  rw [declare, Table.get?_insert, Table.get?_erase]
  by_cases hname : s.name = name
  · rw [if_pos hname]
    exact .inl rfl
  · rw [if_neg hname, if_neg hname]
    exact hn

/-- A declaration keeps those before it. -/
theorem grows_declareGlobal (env : Env) (g : GlobalVar) : env.Grows (env.declareGlobal g) := by
  refine { Grows.refl env with globals := ?_, names := fun name hn => ?_ }
  · change _ <+: if _ then _ else _
    split
    · exact List.prefix_rfl
    · exact List.prefix_append _ _
  · rw [declares_iff] at hn ⊢
    rw [declareGlobal, Table.get?_insert, Table.get?_erase]
    by_cases hname : g.name = name
    · rw [if_pos hname, if_pos hname]
      exact .inr rfl
    · rw [if_neg hname, if_neg hname]
      exact hn

/-- A definition keeps all declarations before it. -/
theorem grows_define (env : Env) (f : Function) : env.Grows (env.define f) := by
  refine { Grows.refl env with functions := ?_ }
  change _ <+: (putFunction f env.functions).map (·.name)
  rw [names_putFunction]
  split
  · exact List.prefix_rfl
  · exact List.prefix_append _ _

/-- Declarations take nothing away. -/
theorem grows_apply (env : Env) (e : Event) : env.Grows (e.apply env) := by
  cases e with
  | declared s => exact env.grows_declare s
  | global g _ => exact env.grows_declareGlobal g
  | defined f _ _ => exact env.grows_define f

end Env

/-! ## Reading -/

/-- **Along a trail the environment grows.** -/
theorem Grammar.Reading.Trail.grows {k : Layer} {s t : Reading} (h : s.Trail k t) :
    s.env.Grows t.env := by
  refine h.induct (R := fun s t => s.env.Grows t.env) ?_ ?_ ?_ ?_ ?_ ?_ ?_
  · exact fun s => .refl s.env
  · exact fun h h' => h.trans h'
  · intro s
    rw [rest_env]
    exact .refl s.env
  · exact fun s value => s.env.grows_intern value
  · exact fun s name fields l hl => Env.grows_struct hl
  · exact fun _ s _ _ _ => .refl s.env
  · exact fun _ s e => s.env.grows_apply e

/-- Reading a text makes the environment grow, whether or not it succeeds. -/
theorem Env.grows_read {α : Type} {reader : Nat → Read α} (h : ∀ fuel, Keeps .file (reader fuel))
    (env : Env) (file source : Bytes) : env.Grows (env.read file source reader).2 := by
  have hgrows := (h (Reading.start source env).budget (Reading.start source env)).grows
  rw [start_env] at hgrows
  rw [read_env]
  exact hgrows

/-- **The environment only grows**, whatever text is read into it as a source file or as a single
statement, and whether or not it can be read. -/
theorem Env.grows_reading (env : Env) (file source : Bytes) :
    env.Grows (env.readSource file source).2 ∧ env.Grows (env.readStatement file source).2 :=
  ⟨Env.grows_read (fun _ => items_keeps) env file source,
    Env.grows_read (fun _ => loneStatement_keeps Layer.file_bodies) env file source⟩

end DirectC
