/-
# Where failures are reported

A source text that cannot be compiled is refused with a diagnostic, which points into the text
(`Compile.failure_located`). There are two exceptions. A variable that has outgrown the limits since
its declaration, because a struct in it got another body, is refused without a place. And a variable
with the name of the library's helper makes the library point into itself.
-/
import DirectC.Proofs.AddressIndependence
import DirectC.Proofs.Grammar.Definitions
import DirectC.Proofs.Library
import DirectC.Proofs.Lowering.Positions
import DirectC.Proofs.WiderLimits

namespace DirectC

open Grammar

/-- A diagnostic with a place in a text of a file. -/
def Diagnostic.PointsInto (file source : Bytes) (d : Diagnostic) : Prop :=
  d.file = file ∧ d.source = source ∧ InText source d.pos

/-! ## Variables without a size -/

/-- Storage cannot be set aside because some variable has no size. -/
theorem CodeArea.globalStarts_error {l : Layout} {offset : Int64} {gs : List GlobalVar}
    {fault : Layout.Fault} (h : globalStarts l offset gs = .error fault) :
    ∃ g ∈ gs, l.size g.type = .error fault := by
  induction gs generalizing offset with
  | nil => cases h
  | cons g gs ih =>
    unfold globalStarts at h
    rcases except_bind_error.mp h with hsize | ⟨size, hsize, h⟩
    · exact ⟨g, List.mem_cons_self, hsize⟩
    obtain ⟨align, halign⟩ := Layout.alignment_of_size hsize
    rcases except_bind_error.mp h with h | ⟨_, _, h⟩
    · cases halign.symm.trans h
    rcases except_bind_error.mp h with h | ⟨_, _, h⟩
    · obtain ⟨g', hg', hsize⟩ := ih h
      exact ⟨g', List.mem_cons_of_mem _ hg', hsize⟩
    · cases h

/-- **A variable keeps its size** to the end of the text if no struct in it has two bodies. -/
theorem Env.size_of_readSource {env env' : Env} {file source : Bytes} {g : GlobalVar}
    (h : env.readSource file source = (.ok (), env'))
    (hstructs : ∀ name, env.layout.struct? name = none)
    (hglobals : ∀ name, env.globals.get? name = none) (hg : g ∈ env'.program.globals)
    (honce : ∀ n ∈ g.type.structs, (bodies (Token.scan source)).count n ≤ 1) :
    ∃ n, env'.layout.size g.type = .ok n := by
  obtain ⟨s, hs, rfl⟩ := readSource_ok.mp h
  have htold := items_told hs
  obtain ⟨name, -, hg⟩ := List.mem_filterMap.mp hg
  change s.env.declarations.globals.get? name = some g at hg
  rw [htold.logs.2, start_env] at hg
  rcases get?_globals_replay hg with hg | ⟨l, hl⟩
  · exact nomatch (hglobals name).symm.trans hg
  · obtain ⟨hstood, n, hn⟩ := htold.stands _ hl
    refine ⟨n, ?_⟩
    rw [(hstood.size_alignment ?_ ?_).1, hn]
    · rw [start_env]
      exact hstructs
    · rw [start_bodies]
      exact honce

/-- A function was there before or was read from the text. -/
theorem Env.mem_functions_readSource {env env' : Env} {d : Limits} {file source : Bytes}
    {f : Function} (h : ((env.under d).readSource file source).2 = env')
    (hf : f ∈ env'.functions) :
    f ∈ env.functions ∨ f.Anchored (InText source) file source env'.strings := by
  have hbecomes := ((env.under d).readSource_becomes file source).1
  rw [h] at hbecomes
  change f ∈ env'.declarations.functions at hf
  rw [hbecomes.declarations] at hf
  exact (mem_functions_declareAll hf).imp_right (hbecomes.bodies f)

namespace Compile

variable {file source : Bytes} {settings : Settings} {p : Program}

/-! ## Programs -/

/-- The source text cannot be read, or it defines a reserved name. -/
theorem program_error {d : Diagnostic} (h : program file source settings = .error d) :
    let read := (preludeEnv.2.under settings.limits).readSource file source
    read.1 = .error d ∨ ∃ f ∈ read.2.program.functions, checkReserved f = .error d := by
  have hlibrary := library_reads
  unfold program at h
  generalize preludeEnv = library at h hlibrary ⊢
  obtain ⟨_, env⟩ := library
  obtain rfl := hlibrary
  rcases except_bind_error.mp h with h | ⟨_, _, h⟩
  · cases h
  rcases except_bind_error.mp h with h | ⟨_, _, h⟩
  · exact .inl h
  rcases except_bind_error.mp h with h | ⟨_, _, h⟩
  · exact .inr (except_forM_error h)
  · cases h

/-- **A text that makes no program** is refused at a place in it. -/
theorem program_located {d : Diagnostic} (h : program file source settings = .error d) :
    d.PointsInto file source := by
  rcases program_error h with h | ⟨f, hf, h⟩
  · exact (Env.readSource_becomes _ file source).2 d h
  unfold checkReserved at h
  split at h
  · rename_i hname
    cases h
    rcases Env.mem_functions_readSource rfl (List.mem_of_mem_filter hf) with hlib | htext
    · exact absurd (List.contains_iff_mem.mp hname) (library_functions f hlib).2.2.1
    · exact ⟨htext.file, htext.source, htext.pos⟩
  · cases h

/-! ## Code -/

/-- The first pass fails in a function, as the routines of an executable never fail. -/
theorem pieces_error {options : CodeArea.Options} {d : Diagnostic}
    (hsteady : ∀ r ∈ routines, r.Steady (CodeArea.provisional p routines))
    (h : CodeArea.pieces p routines options .sizing (CodeArea.provisional p routines) =
      .error d) :
    ∃ f ∈ p.functions,
      CodeArea.functionPiece p.layout options (CodeArea.provisional p routines) f = .error d := by
  rcases except_bind_error.mp h with h | ⟨_, _, h⟩
  · obtain ⟨r, hr, h⟩ := except_mapM_error h
    obtain ⟨_, hn⟩ := hsteady r hr
    obtain ⟨code, hcode, -⟩ := hn .sizing _ (.refl _)
    rcases except_bind_error.mp h with h | ⟨_, _, h⟩
    · cases hcode.symm.trans h
    · cases h
  rcases except_bind_error.mp h with h | ⟨_, _, h⟩
  · exact except_mapM_error h
  · cases h

/-- **What is pointed at when a program has no code**: a place in the text, or the library without
its helper, or nothing, for a variable without a size. -/
theorem emit_located {d : Diagnostic} (hp : program file source settings = .ok p)
    (hmain : (p.functions.any fun f => f.name == Bytes.ofString "main") = true)
    (h : CodeArea.emit p routines (optionsOf settings) = .error d) :
    d.PointsInto file source ∨ (d = helperMissing ∧ helper ∉ p.functions.map (·.name)) ∨
      ∃ g ∈ p.globals, ∃ fault, p.layout.size g.type = .error fault ∧ d = fault.diagnostic := by
  -- The entry calls `main`, so its code is steady only because there is one.
  have hsteady : ∀ r ∈ routines, r.Steady (CodeArea.provisional p routines) := by
    refine routines_steady ?_
    obtain ⟨f, hf, hname⟩ := List.any_eq_true.mp hmain
    rw [CodeArea.provisional, CodeArea.isSome_zeros, decide_eq_true_eq]
    exact List.mem_append_right _ (List.mem_map.mpr ⟨f, hf, beq_iff_eq.mp hname⟩)
  rcases (CodeArea.emit_error hsteady).mp h with h | ⟨_, fault, -, hroom, rfl⟩
  · obtain ⟨f, hf, h⟩ := pieces_error hsteady h
    obtain ⟨-, env, hread, -, rfl⟩ := program_ok.mp hp
    rcases Env.mem_functions_readSource (congrArg Prod.snd hread) (List.mem_of_mem_filter hf) with
      hlib | htext
    · exact .inr (.inl (library_function hlib hf h))
    · -- A function of the text complains within the text.
      refine .inl ?_
      rw [CodeArea.functionPiece_eq] at h
      cases hcode : Lowering.function f (CodeArea.rulesFor _ _ f).1 (CodeArea.rulesFor _ _ f).2
        (CodeArea.provisional env.program routines) with
      | error d' =>
        rw [hcode] at h
        cases h
        exact Lowering.function_points htext hcode
      | ok code =>
        rw [hcode] at h
        cases h
  · obtain ⟨g, hg, hsize⟩ := CodeArea.globalStarts_error hroom
    exact .inr (.inr ⟨g, hg, fault, hsize, rfl⟩)

/-! ## Executables -/

/-- A program without the helper has a variable of its name. -/
theorem exists_global_helper (hp : program file source settings = .ok p)
    (hmissing : helper ∉ p.functions.map (·.name)) : ∃ g ∈ p.globals, g.name = helper := by
  obtain ⟨-, env, hread, -, rfl⟩ := program_ok.mp hp
  have horderly := library_orderly
  have hhelper := library_helper
  generalize preludeEnv.2 = library at hread horderly hhelper
  have hbecomes := ((library.under settings.limits).readSource_becomes file source).1
  rw [hread] at hbecomes
  exact Env.exists_global_of_missing horderly hbecomes.declarations hhelper.2 hhelper.1 hmissing

/-- A variable without a size holds a struct with two bodies. -/
theorem exists_struct_twice {g : GlobalVar} {fault : Layout.Fault}
    (hp : program file source settings = .ok p) (hg : g ∈ p.globals)
    (hsize : p.layout.size g.type = .error fault) :
    ∃ n ∈ g.type.structs, 2 ≤ (bodies (Token.scan source)).count n := by
  obtain ⟨-, env, hread, -, rfl⟩ := program_ok.mp hp
  have hstructs := library_structs
  have hglobals := library_globals
  generalize preludeEnv.2 = library at hread hstructs hglobals
  by_contra hnone
  have honce : ∀ n ∈ g.type.structs, (bodies (Token.scan source)).count n ≤ 1 := by
    intro n hn
    by_contra htwice
    exact hnone ⟨n, hn, by omega⟩
  obtain ⟨n, hn⟩ := Env.size_of_readSource hread hstructs hglobals hg honce
  cases hn.symm.trans hsize

/-- **Failures point into the text.** If a source text does not compile under valid settings, the
failure is a diagnostic with the text, the name of its file and a place in the text. Two kinds of
programs are excepted. A variable with the name of the helper takes the helper away from the
library, and that is where it is missed. A variable that holds a struct with two bodies can lose its
size after its declaration, and that is reported without a place. -/
theorem failure_located {f : Failure} (hv : settings.validate = .ok ())
    (h : executable file source settings = .error f) :
    ∃ d, f = .diagnostic d ∧
      (d.PointsInto file source ∨
        ∃ p, program file source settings = .ok p ∧ ∃ g ∈ p.globals,
          (g.name = helper ∧ d = helperMissing) ∨
          (∃ n ∈ g.type.structs, 2 ≤ (bodies (Token.scan source)).count n) ∧
            ∃ fault, p.layout.size g.type = .error fault ∧ d = fault.diagnostic) := by
  unfold executable at h
  rw [hv] at h
  rcases except_bind_error.mp h with h | ⟨_, _, h⟩
  · cases h
  rcases except_bind_error.mp h with h | ⟨p, hp, h⟩
  · obtain ⟨d, hd, rfl⟩ := except_mapError_error.mp h
    exact ⟨d, rfl, .inl (program_located hd)⟩
  rw [except_mapError_ok] at hp
  -- The program was read. What can still fail is that it has no entry, or the code itself.
  cases hmain : p.functions.any fun f => f.name == Bytes.ofString "main" with
  | false =>
    simp only [hmain] at h
    cases h
    exact ⟨_, rfl, .inl ⟨rfl, rfl, Int.le_refl 0, Int.natCast_nonneg _⟩⟩
  | true =>
    simp only [hmain, Bool.not_true, Bool.false_eq_true, if_false] at h
    rcases except_bind_error.mp h with h | ⟨_, _, h⟩
    · obtain ⟨d, hd, rfl⟩ := except_mapError_error.mp h
      refine ⟨d, rfl, ?_⟩
      rcases emit_located hp hmain hd with hd | ⟨hd, hmissing⟩ | ⟨g, hg, fault, hsize, hd⟩
      · exact .inl hd
      · obtain ⟨g, hg, hname⟩ := exists_global_helper hp hmissing
        exact .inr ⟨p, hp, g, hg, .inl ⟨hname, hd⟩⟩
      · exact .inr ⟨p, hp, g, hg, .inr ⟨exists_struct_twice hp hg hsize, fault, hsize, hd⟩⟩
    · cases h

/-- The failure of a text that does not compile. -/
def failure? (file source : Bytes) (settings : Settings) : Option Failure :=
  match executable file source settings with
  | .ok _ => none
  | .error f => some f

theorem failure?_eq_some {f : Failure} :
    failure? file source settings = some f ↔ executable file source settings = .error f := by
  unfold failure?
  cases executable file source settings <;> simp

/-- A source with a call of a function that is declared only. -/
def dangling : Bytes :=
  "int later(int n); int main() \x7b return later(1); \x7d"

/-- What is reported about `dangling`. -/
def laterMissing : Diagnostic :=
  Lowering.Complaint.diagnostic ⟨.undefinedFunction "later", 38⟩ "t.c" dangling

/-- The call in `dangling` is reported where it is. -/
theorem failure_located_dangling : ({} : Settings).validate = .ok () ∧
    executable "t.c" dangling {} = .error (.diagnostic laterMissing) ∧
    laterMissing.PointsInto "t.c" dangling := by
  have hv : ({} : Settings).validate = .ok () := by decide
  have hfailure : failure? "t.c" dangling {} = some (.diagnostic laterMissing) := by
    decide +kernel
  have hglobals : ((program "t.c" dangling {}).toOption.all (·.globals.isEmpty)) = true := by
    decide +kernel
  have h := failure?_eq_some.mp hfailure
  obtain ⟨d, hd, hplace⟩ := failure_located hv h
  cases hd
  refine ⟨hv, h, hplace.resolve_right ?_⟩
  -- The program has no variables, so there is no exception.
  rintro ⟨p, hp, g, hg, -⟩
  rw [hp] at hglobals
  rw [List.isEmpty_iff.mp hglobals] at hg
  cases hg

/-- A source with a variable of the name of the helper. -/
def bereft : Bytes :=
  "int __atoi_from; int main() \x7b return 0; \x7d"

/-- A source with an array that is too large once its struct has a second body. -/
def outgrown : Bytes := "struct S \x7b char c; \x7d; struct S a[200];
struct S \x7b int x; \x7d; int main() \x7b return 0; \x7d"

/-- Two failures that are not reported in the text: one points into the library, and the other one
points nowhere. -/
theorem failures_elsewhere : ({} : Settings).validate = .ok () ∧
    (∃ d, executable "t.c" bereft {} = .error (.diagnostic d) ∧ d.file = "<prelude>") ∧
    ∃ d, executable "t.c" outgrown {} = .error (.diagnostic d) ∧ d.file = "" ∧ d.pos = -1 := by
  have hbereft : failure? "t.c" bereft {} = some (.diagnostic helperMissing) := by decide +kernel
  have houtgrown : failure? "t.c" outgrown {} = some (.diagnostic
      (Layout.Fault.typeSize (.array (.struct "S") 200) 800 255).diagnostic) := by decide +kernel
  exact ⟨by decide, ⟨_, failure?_eq_some.mp hbereft, rfl⟩, _, failure?_eq_some.mp houtgrown, rfl,
    rfl⟩

end Compile

end DirectC
