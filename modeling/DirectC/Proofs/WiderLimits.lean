/-
# Limits refuse and do nothing else

A source text that compiles under some limits compiles to the same executable under wider ones.
Every stage is followed once with its budgets raised: reading the source (`readSource_wider`),
lowering functions (`function_wider`), laying out the code area (`emit_wider`), and writing the
image. No stage records a budget in what it hands on, except for the layout, which carries its
limits along.
-/
import DirectC.Proofs.CodeArea
import DirectC.Proofs.Compile
import DirectC.Proofs.Grammar.Widening
import DirectC.Proofs.Lowering.Inclusion

namespace DirectC

/-- The same program under other limits. -/
def Program.under (p : Program) (d : Limits) : Program :=
  { p with layout := p.layout.withLimits d }

/-! ## Lowering -/

namespace Lowering

variable {d : Limits}

/-- **A function that has code under some limits has the same code under wider ones.** -/
theorem function_wider {f : Function} {layout : Layout} {limits : Limits} {symbols : Symbols}
    {code : Code} (h : function f layout limits symbols = .ok code)
    (hl : layout.limits.Within d) (hd : limits.Within d) :
    function f (layout.withLimits d) d symbols = .ok code :=
  function_covers h ⟨Layout.covers_withLimits hl, hd.branch, hd.registerArgs, id, id, id⟩

end Lowering

/-! ## The code area -/

namespace CodeArea

variable {p : Program} {routines : List Routine} {options : Options} {d : Limits}

/-- The same options with other limits. -/
def Options.under (options : Options) (d : Limits) : Options :=
  { options with limits := d }

theorem functionPiece_wider {layout : Layout} {symbols : Symbols} {f : Function} {q : Piece}
    (h : functionPiece layout options symbols f = .ok q) (hl : layout.limits.Within d)
    (hd : options.limits.Within d) :
    functionPiece (layout.withLimits d) (options.under d) symbols f = .ok q := by
  unfold functionPiece at h ⊢
  cases hf : options.fileLimits.get? f.file with
  | some limits =>
    simp only [Options.under, hf] at h ⊢
    exact h
  | none =>
    simp only [Options.under, hf] at h ⊢
    obtain ⟨code, hc, h⟩ := except_bind_ok.mp h
    exact except_bind_ok.mpr ⟨code, Lowering.function_wider hc hl hd, h⟩

theorem pieces_wider {pass : Pass} {symbols : Symbols} {ps : List Piece}
    (h : pieces p routines options pass symbols = .ok ps) (hl : p.layout.limits.Within d)
    (hd : options.limits.Within d) :
    pieces (p.under d) routines (options.under d) pass symbols = .ok ps := by
  obtain ⟨rs, fs, hr, hf, rfl⟩ := pieces_ok.mp h
  refine pieces_ok.mpr ⟨rs, fs, hr, ?_, rfl⟩
  rw [except_mapM_ok] at hf ⊢
  exact hf.imp fun _ _ hq => functionPiece_wider hq hl hd

theorem globalStarts_wider {l : Layout} {offset : Int64} {gs : List GlobalVar}
    {r : List (Bytes × Int64) × Int64} (h : globalStarts l offset gs = .ok r)
    (hl : l.limits.Within d) : globalStarts (l.withLimits d) offset gs = .ok r := by
  induction gs generalizing offset r with
  | nil => exact h
  | cons g gs ih =>
    unfold globalStarts at h ⊢
    simp only [Layout.alignment_withLimits, except_bind_ok] at h ⊢
    obtain ⟨size, hs, align, ha, rest, hr, h⟩ := h
    exact ⟨size, Layout.size_within hs hl, align, ha, rest, ih hr, h⟩

/-- **The code area is the same under wider limits.** -/
theorem emit_wider {area : CodeArea} (h : emit p routines options = .ok area)
    (hl : p.layout.limits.Within d) (hd : options.limits.Within d) :
    emit (p.under d) routines (options.under d) = .ok area := by
  obtain ⟨sized, final, globals, bss, hp, rfl⟩ := emit_ok.mp h
  refine emit_ok.mpr ⟨sized, final, globals, bss, ⟨?_, ?_, ?_, hp.sizes⟩, rfl⟩
  · exact pieces_wider hp.sizing hl hd
  · exact globalStarts_wider hp.room hl
  · exact pieces_wider hp.filling hl hd

end CodeArea

/-! ## Executables -/

namespace Compile

variable {file source : Bytes} {c d : Settings}

/-- **What a program is made of**: the library, then the source under its own limits. -/
theorem program_ok {p : Program} :
    program file source c = .ok p ↔
      preludeEnv.1 = .ok () ∧
        ∃ env, (preludeEnv.2.under c.limits).readSource file source = (.ok (), env) ∧
          env.program.functions.forM checkReserved = .ok () ∧ env.program = p := by
  unfold program
  generalize preludeEnv = library
  obtain ⟨result, env⟩ := library
  have hunder : { env with layout := env.layout.withLimits c.limits } = env.under c.limits := rfl
  simp only [hunder, except_bind_ok]
  cases (env.under c.limits).readSource file source with
  | mk result' env' =>
    constructor
    · rintro ⟨_, hresult, _, hread, _, hreserved, h⟩
      cases h
      exact ⟨hresult, env', Prod.ext hread rfl, hreserved, rfl⟩
    · rintro ⟨hresult, env, hread, hreserved, rfl⟩
      cases hread
      exact ⟨_, hresult, _, rfl, _, hreserved, rfl⟩

/-- The library and a source text are read under wider limits as before. -/
theorem program_wider {p : Program} (h : program file source c = .ok p)
    (hd : c.limits.Within d.limits) :
    p.layout.limits = c.limits ∧ program file source d = .ok (p.under d.limits) := by
  rw [program_ok] at h ⊢
  generalize preludeEnv = library at h ⊢
  obtain ⟨hresult, env, hread, hreserved, rfl⟩ := h
  obtain ⟨hl, hwide⟩ := Env.readSource_wider hread hd
  exact ⟨hl, hresult, env.under d.limits, hwide, hreserved, rfl⟩

theorem optionsOf_under (hbase : d.loadBase = c.loadBase) :
    (optionsOf c).under d.limits = optionsOf d := by
  unfold optionsOf CodeArea.Options.under
  rw [hbase]

/-- **Wider limits change nothing.** If a source text compiles, it compiles under any valid
settings with the same load address and limits at least as wide: to the same image, with all code,
strings and variables at the same places. -/
theorem executable_wider {x : Executable} (hle : c.limits.Within d.limits)
    (hbase : d.loadBase = c.loadBase) (hd : d.validate = .ok ())
    (h : executable file source c = .ok x) :
    ∃ y, executable file source d = .ok y ∧ y.image = x.image ∧ y.code = x.code ∧
      y.entry = x.entry ∧ y.program = x.program.under d.limits := by
  obtain ⟨_, hp, hmain, hc, hi, he⟩ := executable_iff.mp h
  obtain ⟨hl, hwide⟩ := program_wider hp hle
  refine ⟨{ x with program := x.program.under d.limits }, executable_iff.mpr
    ⟨hd, hwide, hmain, ?_, ?_, ?_⟩, rfl, rfl, rfl, rfl⟩
  · have hlayout : x.program.layout.limits.Within d.limits := hl ▸ hle
    rw [← optionsOf_under hbase]
    exact CodeArea.emit_wider hc hlayout hle
  · rw [hbase]
    exact hi
  · rw [hbase]
    exact he

/-- A source with a struct, a variable, a string, a call and a loop. -/
def ledger : Bytes := "struct row \x7b char tag; int n[3]; \x7d; struct row last;
int pick(struct row *r, int i) \x7b return r->n[i]; \x7d
int main() \x7b int i; char *s; i = 0; s = \"ab\"; last.n[1] = 7;
  while (i < 2) i += *s;
  return pick(&last, 1); \x7d"

/-- Limits that `ledger` just keeps to. -/
def narrow : Settings where
  limits := { typeSize := 16, arrayLength := 3, branch := 69, registerArgs := 2 }

/-- `ledger` compiles under `narrow` limits, and to the same executable under the usual ones. -/
theorem executable_wider_ledger : narrow.limits.Within ({} : Settings).limits ∧
    ∃ x y, executable "ledger.c" ledger narrow = .ok x ∧ executable "ledger.c" ledger {} = .ok y ∧
      y.image = x.image ∧ y.code = x.code ∧ y.entry = x.entry := by
  have hle : narrow.limits.Within ({} : Settings).limits := by
    constructor <;> decide
  have hread : (executable "ledger.c" ledger narrow).toOption.any (fun _ => true) = true := by
    decide +kernel
  obtain ⟨x, hx, -⟩ := exists_ok_of_any hread
  obtain ⟨y, hy, hi, hc, he, _⟩ := executable_wider hle rfl (by decide) hx
  exact ⟨hle, x, y, hx, hy, hi, hc, he⟩

end Compile

end DirectC
