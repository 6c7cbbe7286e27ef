/-
# What a text declares

The declarations that a text makes are those in the log behind it, whether it is read to its end or
not. Made one after the other, they lead from the environment before to the environment behind
(`Env.readSource_becomes`); what reading puts into the environment apart from them is struct layouts
and strings. A lone statement declares nothing (`Env.readStatement_gathers`).
-/
import DirectC.Proofs.Grammar.Anchoring
import DirectC.Proofs.Grammar.Keeping

namespace DirectC

open Grammar

/-! ## Declarations -/

/-- What can be declared. -/
inductive Declaration where
  | function (s : Signature)
  | global (g : GlobalVar)
  | body (f : Function)

/-- The environment with one more declaration. -/
def Declaration.apply (env : Env) : Declaration → Env
  | .function s => env.declare s
  | .global g => env.declareGlobal g
  | .body f => env.define f

/-- The body that a declaration adds. -/
def Declaration.body? : Declaration → Option Function
  | .body f => some f
  | _ => none

@[simp] theorem Declaration.body?_eq_some {d : Declaration} {f : Function} :
    d.body? = some f ↔ d = .body f := by
  cases d <;> simp [body?]

/-- The environment with more declarations, the first one first. -/
def Env.declareAll (env : Env) (ds : List Declaration) : Env :=
  ds.foldl Declaration.apply env

/-- The declaration that an event in the log stands for. -/
def Grammar.Event.declaration : Event → Declaration
  | .declared s => .function s
  | .global g _ => .global g
  | .defined f _ _ => .body f

/-- An event does what its declaration does. -/
theorem Grammar.Event.apply_declaration (env : Env) (e : Event) :
    e.declaration.apply env = e.apply env := by
  cases e <;> rfl

/-- A body is declared by its definition. -/
theorem Grammar.Event.defined_of_declaration {e : Event} {f : Function}
    (h : e.declaration = .body f) : ∃ ps ls, e = .defined f ps ls := by
  cases e with
  | declared s | global g l => cases h
  | defined g ps ls =>
    cases h
    exact ⟨ps, ls, rfl⟩

namespace Env

theorem declareAll_append (env : Env) (ds ds' : List Declaration) :
    env.declareAll (ds ++ ds') = (env.declareAll ds).declareAll ds' :=
  List.foldl_append

/-- A declaration has nothing to do with layouts and strings. -/
theorem declarations_apply (env : Env) (d : Declaration) :
    (d.apply env).declarations = d.apply env.declarations := by
  cases d <;> rfl

/-- Events make the declarations that they stand for. -/
theorem declareAll_declaration (env : Env) (es : List Event) :
    env.declareAll (es.map Event.declaration) = replay env es := by
  rw [declareAll, replay, List.foldl_map]
  simp only [Event.apply_declaration]

end Env

/-! ## Texts -/

/-- A position in a text, or at its end. -/
def InText (source : Bytes) (pos : Int) : Prop :=
  0 ≤ pos ∧ pos ≤ source.length

theorem Grammar.Reading.start_anchored (source : Bytes) (env : Env) :
    (Reading.start source env).Anchored (InText source) := by
  have hscan : ∀ t ∈ Token.scan source, InText source t.pos := fun t ht =>
    ⟨Int.natCast_nonneg _, by exact_mod_cast Token.pos_le_of_mem_scan ht⟩
  unfold Reading.start
  split
  · exact ⟨⟨Int.le_refl _, Int.natCast_nonneg _⟩, by simp⟩
  · rename_i t ts heq
    rw [heq] at hscan
    exact ⟨hscan t List.mem_cons_self, fun u hu => hscan u (List.mem_cons_of_mem _ hu)⟩

/-- **The declarations of a text** lead from one environment to another; the bodies among them were
read from it. -/
structure Env.Becomes (ok : Int → Prop) (file source : Bytes) (env : Env) (ds : List Declaration)
    (env' : Env) : Prop where
  declarations : env'.declarations = env.declarations.declareAll ds
  pool : env.strings <+: env'.strings
  distinct : env.strings.Nodup → env'.strings.Nodup
  bodies : ∀ f, .body f ∈ ds → f.Anchored ok file source env'.strings

/-- Nothing is declared, and the pool of strings only grows. -/
structure Env.Gathers (env env' : Env) : Prop where
  declarations : env'.declarations = env.declarations
  pool : env.strings <+: env'.strings
  distinct : env.strings.Nodup → env'.strings.Nodup

namespace Env

/-- The state behind the items of a file, or where reading them fails. -/
def afterItems (env : Env) (file source : Bytes) : Reading :=
  behind (items file source (Reading.start source env).budget (Reading.start source env))

/-- The declarations that reading a source file makes, up to where it ends or fails. -/
def declared (env : Env) (file source : Bytes) : List Declaration :=
  (env.afterItems file source).log.events.map Event.declaration

/-- Reading a file keeps to a trail. -/
theorem trail_afterItems (env : Env) (file source : Bytes) :
    (Reading.start source env).Trail .file (env.afterItems file source) :=
  items_keeps _

/-- The environment behind a file is that of the state behind it. -/
theorem env_afterItems (env : Env) (file source : Bytes) :
    (env.readSource file source).2 = (env.afterItems file source).env :=
  read_env env file source (items file source)

/-- The log behind a file accounts for its declarations. -/
theorem logs_afterItems (env : Env) (file source : Bytes) :
    (Reading.start source env).Logs (env.afterItems file source)
      (env.afterItems file source).log.events := by
  obtain ⟨es, hlog, hdeclarations⟩ := (env.trail_afterItems file source).logged
  rw [start_log] at hlog
  rw [hlog]
  exact ⟨by rw [start_log, hlog]; rfl, hdeclarations⟩

/-- **Reading a source file** makes the declarations in its log, whether it succeeds or fails, and
fails at a position in the text. -/
theorem readSource_becomes (env : Env) (file source : Bytes) :
    env.Becomes (InText source) file source (env.declared file source)
        (env.readSource file source).2 ∧
      ∀ d, (env.readSource file source).1 = .error d →
        d.file = file ∧ d.source = source ∧ InText source d.pos := by
  -- What is built and what is complained about is anchored in the text, by one fact on the reader.
  have hanchors : Anchors (InText source) file source
      (items file source (Reading.start source env).budget) (fun _ _ => True)
      (Reading.start source env) :=
    items_anchors (Reading.start_anchored source env) (by rw [start_log])
  have hpool := (env.trail_afterItems file source).pool
  have hdistinct := (env.trail_afterItems file source).distinct
  rw [start_env] at hpool hdistinct
  refine ⟨?_, fun d hd => ?_⟩
  · rw [env_afterItems]
    refine ⟨?_, hpool, hdistinct, fun f hf => ?_⟩
    · have hlogs := (env.logs_afterItems file source).2
      rwa [start_env, ← declareAll_declaration] at hlogs
    · obtain ⟨e, he, hbody⟩ := List.mem_map.mp hf
      obtain ⟨ps, ls, rfl⟩ := Event.defined_of_declaration hbody
      exact hanchors.recalls f ps ls he
  · unfold readSource read at hd
    dsimp only at hd
    split at hd
    · cases hd
    · rename_i c t h
      cases hd
      exact ⟨rfl, rfl, hanchors.pos c t h⟩

/-- **Reading a statement** declares nothing. -/
theorem readStatement_gathers (env : Env) (file source : Bytes) :
    env.Gathers (env.readStatement file source).2 ∧
      ∀ s, (env.readStatement file source).1 = .ok s →
        s.Anchored (InText source) (env.readStatement file source).2.strings := by
  have hkeeps : Keeps .body (loneStatement (Reading.start source env).budget) :=
    loneStatement_keeps Layer.body_bodies
  have hdeclarations := (hkeeps (Reading.start source env)).declarations Layer.body_ne_file
  have hpool := (hkeeps (Reading.start source env)).pool
  have hdistinct := (hkeeps (Reading.start source env)).distinct
  rw [start_env] at hdeclarations hpool hdistinct
  refine ⟨?_, fun s hs => ?_⟩
  · rw [readStatement, read_env]
    exact ⟨hdeclarations, hpool, hdistinct⟩
  · have hanchors : Anchors (InText source) file source
        (loneStatement (Reading.start source env).budget)
        (fun pool st => st.Anchored (InText source) pool) (Reading.start source env) :=
      loneStatement_anchors file source (Reading.start_anchored source env) (by rw [start_log])
    unfold readStatement read at hs ⊢
    dsimp only at hs ⊢
    split at hs
    · rename_i s' t h
      cases hs
      exact hanchors.result _ t h
    · cases hs

end Env

end DirectC
