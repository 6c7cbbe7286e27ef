/-
# What is read can be lowered

A program that was read has a code area unless a limit does not suffice or a function that is
called has no definition. Reading leaves formed trees (`Program.formed_ofSource`), and formed
trees are refused late, if at all (`Lowering.function_refusal`). Only the sizing pass and the
variables are refused (`CodeArea.emit_error`).
-/
import DirectC.Proofs.CodeArea
import DirectC.Proofs.Grammar.Forming
import DirectC.Proofs.Lowering.Refusal

namespace DirectC

namespace CodeArea

variable {B : Int} {p : Program} {options : Options}

/-! ## Refusals of each stage -/

theorem functionPiece_refusal {layout : Layout} {symbols : Symbols} {f : Function}
    {d : Diagnostic} {n : Nat} (hf : f.Formed B n) (hs : n ≤ symbols.strings.length)
    (h : functionPiece layout options symbols f = .error d) : d.kind.IsLate := by
  rw [functionPiece_eq] at h
  cases hc : Lowering.function f (rulesFor layout options f).1 (rulesFor layout options f).2
    symbols with
  | error d' =>
    rw [hc] at h
    cases h
    exact Lowering.function_refusal hf hs hc
  | ok code =>
    rw [hc] at h
    cases h

/-- The sizing pass refuses the functions of a formed program late. -/
theorem sizing_refusal {d : Diagnostic} (hp : p.Formed B)
    (h : pieces p [] options .sizing (provisional p []) = .error d) : d.kind.IsLate := by
  unfold pieces at h
  rcases except_bind_error.mp h with h | ⟨rs, _, h⟩
  · cases h
  rcases except_bind_error.mp h with h | ⟨fs, _, h⟩
  · obtain ⟨f, hf, hd⟩ := except_mapM_error h
    refine functionPiece_refusal (hp.functions f hf) ?_ hd
    simp [provisional]
  · cases h

/-- Variables are refused a place late. -/
theorem globalStarts_refusal {l : Layout} {offset : Int64} {gs : List GlobalVar}
    {fault : Layout.Fault} (hg : ∀ g ∈ gs, g.type.Stored B)
    (h : globalStarts l offset gs = .error fault) : fault.kind.IsLate := by
  induction gs generalizing offset with
  | nil => cases h
  | cons g gs ih =>
    have hf := (hg g List.mem_cons_self).1
    rcases except_bind_error.mp h with h | ⟨size, _, h⟩
    · exact Layout.size_fault hf h
    rcases except_bind_error.mp h with h | ⟨align, _, h⟩
    · exact Layout.alignment_fault hf h
    rcases except_bind_error.mp h with h | ⟨⟨rest, last⟩, _, h⟩
    · exact ih (fun g' hg' => hg g' (List.mem_cons_of_mem _ hg')) h
    · cases h

/-- **Formed programs are refused late**, whatever the options. -/
theorem emit_formed (hp : p.Formed B) (options : Options) :
    (∃ area, emit p [] options = .ok area) ∨
      ∃ d, emit p [] options = .error d ∧ d.kind.IsLate := by
  cases hemit : emit p [] options with
  | ok area => exact .inl ⟨area, rfl⟩
  | error d =>
    refine .inr ⟨d, rfl, ?_⟩
    rcases (emit_error (by simp)).mp hemit with hs | ⟨_, fault, _, hg, rfl⟩
    · exact sizing_refusal hp hs
    · exact globalStarts_refusal hp.globals hg

/-! ## Sources -/

/-- **What is read can be lowered.** A program that was read under any limits, laid out under any
options, has a code area, or is refused because a capacity is exceeded or a name has no
definition. -/
theorem emit_ofSource {file source : Bytes} {limits : Limits} {p : Program}
    (h : Program.ofSource file source limits = .ok p) (options : Options) :
    (∃ area, emit p [] options = .ok area) ∨
      ∃ d, emit p [] options = .error d ∧ (d.kind = .capacity ∨ d.kind = .naming) := by
  have hp : p.Formed (max limits.arrayLength.toInt limits.typeSize.toInt) :=
    Program.formed_ofSource (Int.le_max_left _ _) (Int.le_max_right _ _) h
  exact emit_formed hp options

/-- A source with members, elements, strings, short circuits and calls. -/
def marks : Bytes := "struct mark \x7b int n; char c; \x7d;
struct mark last; int seen[4];
int put(int *to, int n) \x7b *to = n; return n; \x7d
int main() \x7b
  int i = 0; char *s = \"ab\";
  while (i < 4 && s[i]) \x7b seen[i] += put(&last.n, i); last.c = s[i]; i = i + 1; \x7d
  return last.n;
\x7d"

theorem emit_ofSource_marks : ∃ p, Program.ofSource "marks.c" marks {} = .ok p ∧
    ((∃ area, emit p [] { base := 4096 } = .ok area) ∨
      ∃ d, emit p [] { base := 4096 } = .error d ∧ (d.kind = .capacity ∨ d.kind = .naming)) := by
  have hread : (Program.ofSource "marks.c" marks {}).toOption.any (fun _ => true) = true := by
    decide +kernel
  obtain ⟨p, h, -⟩ := exists_ok_of_any hread
  exact ⟨p, h, emit_ofSource h _⟩

end CodeArea

end DirectC
