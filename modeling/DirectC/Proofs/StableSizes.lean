/-
# Sizes from declaration to storage

A variable is checked under the layout at its declaration, and storage is set aside for it under
the layout at the end of the text. The two agree on its size and its alignment if no struct that it
holds has more than one body in the text (`Program.sizes_stable`). A second body takes the place of
the first, also for variables declared before it (`Program.sizes_change_resized`).
-/
import DirectC.Proofs.Grammar.Definitions

namespace DirectC

open Grammar

/-! ## Variables -/

/-- A variable of a program. -/
inductive Variable where
  | global (g : GlobalVar)
  | param (f : Function) (p : Param)
  | inner (f : Function) (v : LocalVar)

/-- The type of a variable. -/
def Variable.type : Variable → CType
  | .global g => g.type
  | .param _ p => p.type
  | .inner _ v => v.type

/-- The parameters and the local variables of a function. -/
def Function.variables (f : Function) : List Variable :=
  f.params.map (.param f) ++ f.locals.map (.inner f)

/-- All variables of a program. -/
def Program.variables (p : Program) : List Variable :=
  p.globals.map .global ++ p.functions.flatMap (·.variables)

/-- The variables that an event declares, each with the layout at its declaration. -/
def Grammar.Event.variables : Event → List (Variable × Layout)
  | .global g l => [(.global g, l)]
  | .declared _ => []
  | .defined f ps ls => (f.params.map (.param f)).zip ps ++ (f.locals.map (.inner f)).zip ls

/-- The variables that a source text declares, each with the layout at its declaration. -/
def declaredVariables (file source : Bytes) (limits : Limits) : List (Variable × Layout) :=
  (journal file source limits).flatMap Event.variables

/-! ## Declarations in the journal -/

section Journal

variable {s s' : Reading} {x : Variable} {l : Layout}

/-- A list in step with another is zipped with it as a whole. -/
theorem exists_mem_zip {α β : Type} {r : α → β → Prop} {as : List α} {bs : List β} {a : α}
    (h : List.Forall₂ r as bs) (ha : a ∈ as) (f : α → Variable) :
    ∃ b, (f a, b) ∈ (as.map f).zip bs := by
  induction h with
  | nil => cases ha
  | @cons a' b' as bs _ _ ih =>
    rcases List.mem_cons.mp ha with rfl | ha
    · exact ⟨b', by simp⟩
    · obtain ⟨b, hb⟩ := ih ha
      exact ⟨b, List.mem_cons_of_mem _ hb⟩

theorem rel_of_mem_zip {α : Type} {as : List α} {ls : List Layout} {f : α → Variable}
    (h : List.Forall₂ (fun a l => s.Stood s' (f a).type l) as ls)
    (hx : (x, l) ∈ (as.map f).zip ls) : s.Stood s' x.type l := by
  induction h with
  | nil => cases hx
  | cons hstood _ ih =>
    rcases List.mem_cons.mp hx with hx | hx
    · cases hx
      exact hstood
    · exact ih hx

/-- The layout noted with a variable stood when it was declared. -/
theorem stood_of_mem_variables {e : Event} (he : e.Stands s s') (hx : (x, l) ∈ e.variables) :
    s.Stood s' x.type l := by
  cases e with
  | global g l' =>
    cases List.mem_singleton.mp hx
    exact he.1
  | declared _ => cases hx
  | defined f ps ls =>
    rcases List.mem_append.mp hx with hx | hx
    · exact rel_of_mem_zip he.1 hx
    · exact rel_of_mem_zip he.2 hx

end Journal

namespace Program

variable {file source : Bytes} {limits : Limits} {p : Program} {x : Variable}

/-- Every variable of a program is declared in its text. -/
theorem declared_of_mem_variables (h : ofSource file source limits = .ok p)
    (hx : x ∈ p.variables) : ∃ l, (x, l) ∈ declaredVariables file source limits := by
  rcases List.mem_append.mp hx with hx | hx
  · obtain ⟨g, hg, rfl⟩ := List.mem_map.mp hx
    obtain ⟨l, hl⟩ := global_of_mem h hg
    exact ⟨l, List.mem_flatMap.mpr ⟨_, hl, List.mem_singleton.mpr rfl⟩⟩
  · obtain ⟨f, hf, hx⟩ := List.mem_flatMap.mp hx
    obtain ⟨ps, ls, hd⟩ := defined_of_mem h hf
    obtain ⟨_, htold, -⟩ := told_ofSource h
    obtain ⟨hps, hls⟩ := htold.stands _ hd
    rcases List.mem_append.mp hx with hx | hx
    · obtain ⟨v, hv, rfl⟩ := List.mem_map.mp hx
      obtain ⟨l, hl⟩ := exists_mem_zip hps hv (.param f)
      exact ⟨l, List.mem_flatMap.mpr ⟨_, hd, List.mem_append_left _ hl⟩⟩
    · obtain ⟨v, hv, rfl⟩ := List.mem_map.mp hx
      obtain ⟨l, hl⟩ := exists_mem_zip hls hv (.inner f)
      exact ⟨l, List.mem_flatMap.mpr ⟨_, hd, List.mem_append_right _ hl⟩⟩

/-- **Parser and code generator agree on sizes.** Every global variable, parameter and local
variable of a program was declared somewhere in its text. If no struct that it holds has two bodies
there, then the layout that storage is set aside under gives it the size and the alignment that it
had at its declaration. -/
theorem sizes_stable (h : ofSource file source limits = .ok p) (hx : x ∈ p.variables) :
    (∃ l, (x, l) ∈ declaredVariables file source limits) ∧
      ((∀ n ∈ x.type.structs, (bodies (Token.scan source)).count n ≤ 1) →
        ∀ l, (x, l) ∈ declaredVariables file source limits →
          p.layout.size x.type = l.size x.type ∧
            p.layout.alignment x.type = l.alignment x.type) := by
  refine ⟨declared_of_mem_variables h hx, fun honce l hl => ?_⟩
  obtain ⟨s, htold, rfl, -⟩ := told_ofSource h
  obtain ⟨e, he, hl⟩ := List.mem_flatMap.mp hl
  have hstood := stood_of_mem_variables (htold.stands e he) hl
  -- Reading starts without structs and with all bodies of the text ahead.
  refine hstood.size_alignment (fun n => ?_) fun n hn => ?_
  · rw [start_env]
    rfl
  · rw [start_bodies]
    exact honce n hn

/-- A struct with padding, held by a global variable and by a local array. -/
def pairs : Bytes := "struct pair \x7b char c; int n; \x7d; struct pair cell;
int sum(struct pair *p, int k) \x7b struct pair two[2]; two[1].n = k; return p->n + k; \x7d"

theorem sizes_stable_pairs :
    ∃ p, ofSource "pairs.c" pairs {} = .ok p ∧ p.variables.length = 4 ∧
      ∀ x ∈ p.variables, (∀ n ∈ x.type.structs, (bodies (Token.scan pairs)).count n ≤ 1) ∧
        ∃ l, (x, l) ∈ declaredVariables "pairs.c" pairs {} ∧
          p.layout.size x.type = l.size x.type ∧
            p.layout.alignment x.type = l.alignment x.type := by
  have hp : ((ofSource "pairs.c" pairs {}).toOption.any fun p =>
      p.variables.length = 4 ∧ ∀ x ∈ p.variables,
        ∀ n ∈ x.type.structs, (bodies (Token.scan pairs)).count n ≤ 1) = true := by
    decide +kernel
  obtain ⟨p, h, hp⟩ := exists_ok_of_any hp
  rw [decide_eq_true_eq] at hp
  refine ⟨p, h, hp.1, fun x hx => ⟨hp.2 x hx, ?_⟩⟩
  obtain ⟨⟨l, hl⟩, hsizes⟩ := sizes_stable h hx
  exact ⟨l, hl, hsizes (hp.2 x hx) l hl⟩

/-- A struct with a second body, behind the declaration of a variable that holds it. -/
def resized : Bytes :=
  "struct S \x7b int a[10]; \x7d; struct S g; struct S \x7b char a; \x7d;"

/-- The variable is declared with forty bytes, and one is set aside for it. -/
theorem sizes_change_resized :
    ∃ p x l, ofSource "t.c" resized {} = .ok p ∧ x ∈ p.variables ∧
      (x, l) ∈ declaredVariables "t.c" resized {} ∧
      l.size x.type = .ok 40 ∧ p.layout.size x.type = .ok 1 := by
  have hp : ((ofSource "t.c" resized {}).toOption.any fun p =>
      p.variables ≠ [] ∧ ∀ x ∈ p.variables, p.layout.size x.type = .ok 1) = true := by
    decide +kernel
  have hd : ∀ d ∈ declaredVariables "t.c" resized {}, d.2.size d.1.type = .ok 40 := by
    decide +kernel
  obtain ⟨p, h, hp⟩ := exists_ok_of_any hp
  rw [decide_eq_true_eq] at hp
  obtain ⟨x, hx⟩ := List.exists_mem_of_ne_nil _ hp.1
  obtain ⟨l, hl⟩ := declared_of_mem_variables h hx
  exact ⟨p, x, l, h, hx, hl, hd _ hl, hp.2 x hx⟩

end Program

end DirectC
