/-
# Laws of compiling

What holds of every program that compiling yields: it is formed, and it defines no reserved name.
The library is read under the default limits and the source under those of the settings, so the
bound on sizes is one for both.
-/
import DirectC.Compile
import DirectC.Proofs.Grammar.Forming
import DirectC.Proofs.Image

namespace DirectC

namespace Compile

variable {B : Int} {file source : Bytes} {settings : Settings}

/-! ## The library -/

/-- The library is formed, as its arrays are short. -/
theorem formed_preludeEnv (hB : 255 ≤ B) : preludeEnv.2.Formed B := by
  have he : (Env.empty {}).Formed B := .empty hB hB
  have h1 := he.declare (s := Prelude.three.signature) (.inr rfl) trivial
  have h2 := h1.declare (s := Prelude.putchar.signature) (.inr rfl) trivial
  have h3 := h2.declare (s := Prelude.alloc4.signature) (.inr rfl) trivial
  exact h3.readSource _ _

/-! ## Programs -/

/-- A function may have any name that is not reserved. -/
theorem checkReserved_ok {f : Function} :
    checkReserved f = .ok () ↔ f.name ∉ Prelude.reserved := by
  unfold checkReserved
  split <;> rename_i h
  · simpa using h
  · simpa using h

/-- **Programs are formed** and leave the reserved names alone. -/
theorem formed_program {p : Program} (hB : 255 ≤ B) (hl : settings.limits.arrayLength.toInt ≤ B)
    (ht : settings.limits.typeSize.toInt ≤ B) (h : program file source settings = .ok p) :
    p.Formed B ∧ ∀ f ∈ p.functions, f.name ∉ Prelude.reserved := by
  have henv := formed_preludeEnv hB
  unfold program at h
  generalize preludeEnv = library at h henv
  obtain ⟨result, env⟩ := library
  dsimp only at h
  have hread := (henv.withLimits hl ht).readSource file source
  generalize Env.readSource _ file source = read at h hread
  obtain ⟨result', env'⟩ := read
  obtain ⟨_, _, h⟩ := except_bind_ok.mp h
  obtain ⟨_, _, h⟩ := except_bind_ok.mp h
  obtain ⟨_, hr, h⟩ := except_bind_ok.mp h
  cases h
  exact ⟨hread.program, fun f hf => checkReserved_ok.mp (except_forM_ok.mp hr f hf)⟩

/-! ## Executables -/

/-- The routines of an executable. -/
def routines : List CodeArea.Routine :=
  Prelude.startRoutine :: Prelude.builtinRoutines

/-- The options of a code area under settings. -/
def optionsOf (settings : Settings) : CodeArea.Options where
  limits := settings.limits
  base := (Image.codeAddress settings.loadBase).toUInt32
  fileLimits := (∅ : Table Limits).insert Prelude.fileName {}

/-- Settings that pass have a load address that passes. -/
theorem validate_base (h : settings.validate = .ok ()) :
    Image.checkBase settings.loadBase = .ok () := by
  unfold Settings.validate at h
  dsimp only at h
  split at h
  · cases h
  split at h
  · cases h
  split at h
  · cases h
  split at h
  · cases h
  split at h
  · cases h
  exact except_mapError_ok.mp h

/-- **When an executable comes about**, and what it is made of. -/
theorem executable_iff {x : Executable} :
    executable file source settings = .ok x ↔
      settings.validate = .ok () ∧ program file source settings = .ok x.program ∧
        (x.program.functions.any fun f => f.name == Bytes.ofString "main") = true ∧
        CodeArea.emit x.program routines (optionsOf settings) = .ok x.code ∧
        x.image = Image.splice settings.loadBase x.code.text
          (.ofNat ((x.code.offsets.get? Prelude.startName).getD 0)) x.code.bssSize ∧
        x.entry = Image.codeAddress settings.loadBase +
          .ofNat ((x.code.offsets.get? Prelude.startName).getD 0) := by
  unfold executable
  simp only [except_bind_ok, except_mapError_ok]
  constructor
  · rintro ⟨_, hv, p, hp, h⟩
    -- The function `main` is looked for before any code is made.
    cases hmain : p.functions.any fun f => f.name == Bytes.ofString "main" with
    | false =>
      simp only [hmain] at h
      cases h
    | true =>
      simp only [hmain, Bool.not_true, Bool.false_eq_true, if_false, except_bind_ok,
        except_mapError_ok] at h
      obtain ⟨code, hc, h⟩ := h
      cases h
      exact ⟨hv, hp, hmain, hc, rfl, rfl⟩
  · obtain ⟨image, p, code, entry⟩ := x
    rintro ⟨hv, hp, hmain, hc, hi, he⟩
    dsimp only at hp hmain hc hi he
    subst hi he
    refine ⟨(), hv, p, hp, ?_⟩
    simp only [hmain, Bool.not_true, Bool.false_eq_true, if_false, except_bind_ok,
      except_mapError_ok]
    exact ⟨code, hc, rfl⟩

/-- **What an executable is made of.** -/
theorem executable_ok {x : Executable} (h : executable file source settings = .ok x) :
    settings.validate = .ok () ∧ program file source settings = .ok x.program ∧
      CodeArea.emit x.program routines (optionsOf settings) = .ok x.code ∧
      ∃ entry, entry = (x.code.offsets.get? Prelude.startName).getD 0 ∧
        x.image = Image.splice settings.loadBase x.code.text (.ofNat entry) x.code.bssSize ∧
        x.entry = Image.codeAddress settings.loadBase + .ofNat entry := by
  obtain ⟨hv, hp, _, hc, hi, he⟩ := executable_iff.mp h
  exact ⟨hv, hp, hc, _, rfl, hi, he⟩

end Compile

end DirectC
