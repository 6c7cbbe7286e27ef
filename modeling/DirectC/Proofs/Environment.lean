/-
# Laws of environments

What every environment that declarations build up has in common, and that each declaration keeps
it. Names of functions are distinct, a variable stands under its own name, and all types and trees
are formed.
-/
import DirectC.Env
import DirectC.Proofs.Layout
import DirectC.Scope

namespace DirectC

/-! ## Formed environments -/

/-- A function that reading can define, when the pool has `n` strings. -/
structure Function.Formed (B : Int) (n : Nat) (f : Function) : Prop where
  params : ∀ p ∈ f.params, p.type.isScalar ∧ p.type.Formed B
  body : ∃ items, f.body = some items ∧ ∀ s ∈ items, TypedStmt B n s

/-- A type that a variable can have. -/
def CType.Stored (B : Int) (t : CType) : Prop :=
  t.Formed B ∧ t.isVoid = false

/-- An environment that declarations can build up. -/
structure Env.Formed (B : Int) (env : Env) : Prop where
  layout : env.layout.Formed B
  signatures : env.signatures.All fun _ s => (s.ret.isVoid ∨ s.ret.isScalar) ∧ s.ret.Formed B
  globals : env.globals.All fun name g => g.name = name ∧ g.type.Stored B
  functions : ∀ f ∈ env.functions, f.Formed B env.strings.length
  distinct : (env.functions.map (·.name)).Nodup

/-- Scopes in which every local name has a type that can be stored. -/
def Scope.Formed (B : Int) (s : Scope) : Prop :=
  ∀ level ∈ s.levels, level.All fun _ v => v.type.Stored B

variable {B : Int} {n m : Nat}

/-- Functions stay formed as the pool grows. -/
theorem Function.Formed.mono {f : Function} (hf : f.Formed B n) (hm : n ≤ m) : f.Formed B m := by
  obtain ⟨items, hb, ht⟩ := hf.body
  exact ⟨hf.params, items, hb, fun s hs => (ht s hs).mono hm⟩

namespace Env

/-- The declarations in an environment, without the layout and the pool of strings. -/
def declarations (env : Env) : Env :=
  { env with layout := {}, strings := [] }

variable {env : Env}

/-- An environment is formed at first. -/
theorem Formed.empty {limits : Limits} (hl : limits.arrayLength.toInt ≤ B)
    (ht : limits.typeSize.toInt ≤ B) : (Env.empty limits).Formed B :=
  ⟨⟨hl, ht, .empty⟩, .empty, .empty, by simp [Env.empty], by simp [Env.empty]⟩

/-! ## Declarations -/

/-- A function may be declared if it returns a scalar or nothing. -/
theorem Formed.declare {s : Signature} (he : env.Formed B) (hv : s.ret.isVoid ∨ s.ret.isScalar)
    (hf : s.ret.Formed B) : (env.declare s).Formed B :=
  ⟨he.layout, he.signatures.insert ⟨hv, hf⟩, he.globals.erase, he.functions, he.distinct⟩

/-- A global variable may be declared if its type can be stored. -/
theorem Formed.declareGlobal {g : GlobalVar} (he : env.Formed B) (ht : g.type.Stored B) :
    (env.declareGlobal g).Formed B :=
  ⟨he.layout, he.signatures.erase, he.globals.insert ⟨rfl, ht⟩, he.functions, he.distinct⟩

/-- The layout may be replaced by a formed one. -/
theorem Formed.withLayout {l : Layout} (he : env.Formed B) (hl : l.Formed B) :
    { env with layout := l }.Formed B :=
  ⟨hl, he.signatures, he.globals, he.functions, he.distinct⟩

/-- Limits may be changed within the bound. -/
theorem Formed.withLimits {limits : Limits} (he : env.Formed B)
    (hl : limits.arrayLength.toInt ≤ B) (ht : limits.typeSize.toInt ≤ B) :
    { env with layout := env.layout.withLimits limits }.Formed B :=
  he.withLayout ⟨hl, ht, he.layout.structs⟩

/-! ## Functions -/

/-- A list with one more function has no other new one. -/
theorem mem_putFunction {f g : Function} {fs : List Function} (h : g ∈ putFunction f fs) :
    g = f ∨ g ∈ fs := by
  induction fs with
  | nil => simpa [putFunction] using h
  | cons a fs ih =>
    unfold putFunction at h
    split at h
    · rcases List.mem_cons.mp h with h | h
      · exact .inl h
      · exact .inr (List.mem_cons_of_mem _ h)
    · rcases List.mem_cons.mp h with h | h
      · exact .inr (h ▸ List.mem_cons_self)
      · exact (ih h).imp_right (List.mem_cons_of_mem _)

/-- A new body takes the place of the one with its name, or comes last. -/
theorem names_putFunction (f : Function) (fs : List Function) :
    (putFunction f fs).map (·.name) =
      if f.name ∈ fs.map (·.name) then fs.map (·.name) else fs.map (·.name) ++ [f.name] := by
  induction fs with
  | nil => rfl
  | cons a fs ih =>
    by_cases ha : a.name = f.name
    · simp [putFunction, ha]
    · have ha' : ¬ f.name = a.name := fun h => ha h.symm
      simp only [putFunction, beq_iff_eq, if_neg ha, List.map_cons, List.mem_cons, ih, ha',
        false_or]
      split <;> rfl

theorem nodup_append_singleton {α : Type} {l : List α} {a : α} (h : l.Nodup) (ha : a ∉ l) :
    (l ++ [a]).Nodup := by
  rw [List.nodup_append]
  refine ⟨h, by simp, fun b hb c hc => ?_⟩
  rintro rfl
  exact ha (List.mem_singleton.mp hc ▸ hb)

/-- Functions have different names: a new one replaces the old one of its name. -/
theorem nodup_names_putFunction {f : Function} {fs : List Function}
    (h : (fs.map (·.name)).Nodup) : ((putFunction f fs).map (·.name)).Nodup := by
  rw [names_putFunction]
  split
  · exact h
  · rename_i hn
    exact nodup_append_singleton h hn

/-- A formed function may be defined. -/
theorem Formed.define {f : Function} (he : env.Formed B) (hf : f.Formed B env.strings.length) :
    (env.define f).Formed B := by
  refine ⟨he.layout, he.signatures, he.globals, fun g hg => ?_, ?_⟩
  · rcases mem_putFunction hg with rfl | hg
    · exact hf
    · exact he.functions g hg
  · exact nodup_names_putFunction he.distinct

/-! ## The pool -/

theorem layout_intern (env : Env) (s : Bytes) : (env.intern s).2.layout = env.layout := by
  unfold intern
  split <;> rfl

/-- The pool only grows. -/
theorem length_le_intern (env : Env) (s : Bytes) :
    env.strings.length ≤ (env.intern s).2.strings.length := by
  unfold intern
  split <;> simp

/-- A string is within the pool that it is put into. -/
theorem intern_lt (env : Env) (s : Bytes) : (env.intern s).1 < (env.intern s).2.strings.length := by
  unfold intern
  split
  · rename_i i hi
    obtain ⟨hlt, _⟩ := List.findIdx?_eq_some_iff_getElem.mp hi
    exact hlt
  · simp

/-- A string that is new is put at the end. -/
theorem strings_intern (env : Env) (s : Bytes) :
    (env.intern s).2.strings = if s ∈ env.strings then env.strings else env.strings ++ [s] := by
  unfold intern
  split
  · rename_i i hi
    have hs : s ∈ env.strings := by
      rw [← List.isSome_idxOf?, hi]
      rfl
    rw [if_pos hs]
  · rename_i hi
    rw [if_neg (List.idxOf?_eq_none_iff.mp hi)]

/-- A string stands in the pool under its number. -/
theorem getElem?_intern (env : Env) (s : Bytes) :
    (env.intern s).2.strings[(env.intern s).1]? = some s := by
  unfold intern
  split
  · rename_i i hi
    obtain ⟨hlt, heq, _⟩ := List.findIdx?_eq_some_iff_getElem.mp hi
    rw [List.getElem?_eq_getElem hlt, eq_of_beq heq]
  · exact List.getElem?_concat_length

/-- Strings keep their numbers as the pool grows. -/
theorem strings_isPrefix_intern (env : Env) (s : Bytes) :
    env.strings <+: (env.intern s).2.strings := by
  rw [strings_intern]
  split
  · exact List.prefix_rfl
  · exact List.prefix_append _ _

theorem declarations_intern (env : Env) (s : Bytes) :
    (env.intern s).2.declarations = env.declarations := by
  unfold intern
  split <;> rfl

/-- No string is in the pool twice. -/
theorem nodup_strings_intern (s : Bytes) (h : env.strings.Nodup) :
    (env.intern s).2.strings.Nodup := by
  rw [strings_intern]
  split
  · exact h
  · rename_i hs
    exact nodup_append_singleton h hs

/-- An environment stays formed as its pool grows. -/
theorem Formed.intern (he : env.Formed B) (s : Bytes) : (env.intern s).2.Formed B := by
  have hle := env.length_le_intern s
  have hfs : (env.intern s).2.functions = env.functions := by
    unfold Env.intern
    split <;> rfl
  refine ⟨?_, ?_, ?_, fun f hf => ?_, by rw [hfs]; exact he.distinct⟩
  · unfold Env.intern
    split <;> exact he.layout
  · unfold Env.intern
    split <;> exact he.signatures
  · unfold Env.intern
    split <;> exact he.globals
  · rw [hfs] at hf
    exact (he.functions f hf).mono hle

end Env

/-! ## Scopes -/

namespace Scope

variable {s s' : Scope} {name : Bytes} {type : CType} {id : Int}

theorem Formed.fresh : ({} : Scope).Formed B := by
  intro level hl
  rw [List.mem_singleton.mp hl]
  exact .empty

theorem Formed.push (hs : s.Formed B) : s.push.Formed B := by
  intro level hl
  rcases List.mem_cons.mp hl with rfl | hl
  · exact .empty
  · exact hs level hl

theorem Formed.pop (hs : s.Formed B) : s.pop.Formed B := by
  unfold Scope.pop
  split
  · rename_i outer rest heq
    intro level hl
    exact hs level (heq ▸ List.mem_cons_of_mem _ hl)
  · exact hs

/-- A local variable may be declared if its type can be stored. -/
theorem Formed.declare (hs : s.Formed B) (ht : type.Stored B)
    (h : s.declare? name type = some (id, s')) : s'.Formed B := by
  unfold declare? at h
  split at h
  · cases h
  · rename_i inner outer heq
    split at h
    · cases h
    · cases h
      intro level hl
      rcases List.mem_cons.mp hl with rfl | hl
      · exact (hs inner (heq ▸ List.mem_cons_self)).insert ht
      · exact hs level (heq ▸ List.mem_cons_of_mem _ hl)

/-- Every variable that is found has a type that can be stored. -/
theorem Formed.lookup {v : Local} (hs : s.Formed B) (h : s.lookup? name = some v) :
    v.type.Stored B := by
  obtain ⟨level, hl, hv⟩ := List.exists_of_findSome?_eq_some h
  exact hs level hl name v hv

end Scope

end DirectC
