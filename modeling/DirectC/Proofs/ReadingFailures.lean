/-
# Where reading fails

A text that cannot be read is refused at one of its tokens, and for a cause that lies in the text
(`Env.failure_at_token`). Every position that a reader complains at comes from a token that it has
seen. The types that a reader asks the sizes of are known, since every text that was read before
left an environment of known types; and its bound on the depth is never used up.
-/
import DirectC.Proofs.Grammar.Forming
import DirectC.Proofs.Sessions
import DirectC.Proofs.Termination

namespace DirectC

open Grammar

/-! ## Complaints at tokens -/

/-- The position of a token of a text. -/
def AtTokenOf (source : Bytes) (pos : Int) : Prop :=
  ∃ t ∈ Token.scan source, pos = t.pos

/-- At first everything is anchored at tokens of the source. -/
theorem Grammar.Reading.start_atToken (source : Bytes) (env : Env) :
    (Reading.start source env).Anchored (AtTokenOf source) := by
  have htext := Reading.start_text source env
  refine ⟨⟨_, ?_, rfl⟩, fun t ht => ⟨t, ?_, rfl⟩⟩
  · rw [← htext]
    exact List.mem_cons_self
  · rw [← htext]
    exact List.mem_cons_of_mem _ ht

namespace Env

/-! ## Environments behind texts -/

/-- The operations that read a text. -/
def Op.isReading : Op → Bool
  | .source .. | .statement .. => true
  | _ => false

/-- Texts leave an environment formed, whether they are read to their end or not. -/
theorem Formed.run {B : Int} {env : Env} {ops : List Op} (he : env.Formed B)
    (hops : ∀ op ∈ ops, op.isReading) : (env.run ops).Formed B := by
  induction ops generalizing env with
  | nil => exact he
  | cons op ops ih =>
    refine ih ?_ fun op' hop => hops op' (List.mem_cons_of_mem _ hop)
    cases op with
    | source file text => exact he.readSource file text
    | statement file text => exact he.readStatement file text
    | _ => cases hops _ List.mem_cons_self

/-! ## Failures -/

/-- A text is refused as its reader complains, with its file and its text. -/
theorem read_error {α : Type} {env : Env} {file source : Bytes} {reader : Nat → Read α}
    {d : Diagnostic} :
    (env.read file source reader).1 = .error d ↔
      ∃ c s, reader (Reading.start source env).budget (Reading.start source env) = .error c s ∧
        d = c.diagnostic file source := by
  unfold read
  dsimp only
  split <;> rename_i heq <;> simp [heq, eq_comm]

/-- A reader that complains at tokens, about the text and within its bound. -/
theorem read_blames {α : Type} {B : Int} {env : Env} {file source : Bytes} {reader : Nat → Read α}
    {d : Diagnostic} (he : env.Formed B) (h : (env.read file source reader).1 = .error d)
    (hforms : ∀ fuel, Forms B (reader fuel))
    (hpos : ∀ c s, reader (Reading.start source env).budget (Reading.start source env) =
      .error c s → AtTokenOf source c.pos)
    (hlasts : LastsAt (reader (Reading.start source env).budget) (Reading.start source env)) :
    d.file = file ∧ d.source = source ∧ d.kind ≠ .internal ∧ AtTokenOf source d.pos := by
  obtain ⟨c, s, hc, rfl⟩ := read_error.mp h
  have hcause := (hforms _ _ (.start source he)).2 c s hc
  exact ⟨rfl, rfl, fun hkind => hlasts c s hc (hcause hkind), hpos c s hc⟩

/-- **Failures point at tokens.** The tokens of a text end with the end of file, at the end of the
text. If a source file or a statement cannot be read into an environment that texts have built up,
the diagnostic names the file and the text, is no internal error, and stands at the position of one
of the tokens. -/
theorem failure_at_token (limits : Limits) (ops : List Op) (hops : ∀ op ∈ ops, op.isReading)
    (file source : Bytes) :
    (∃ ts t, Token.scan source = ts ++ [t] ∧ t.kind = .endOfFile ∧ t.pos = source.length) ∧
    ∀ d, (((Env.empty limits).run ops).readSource file source).1 = .error d ∨
        (((Env.empty limits).run ops).readStatement file source).1 = .error d →
      d.file = file ∧ d.source = source ∧ d.kind ≠ .internal ∧
        ∃ t ∈ Token.scan source, d.pos = t.pos := by
  refine ⟨Token.scan_last source, fun d hd => ?_⟩
  -- Any bound above both limits does.
  have hempty : (Env.empty limits).Formed
      (max limits.arrayLength.toInt limits.typeSize.toInt) :=
    .empty (Int.le_max_left _ _) (Int.le_max_right _ _)
  have he := hempty.run hops
  generalize (Env.empty limits).run ops = env at hd he
  have hlength := length_scan env source
  have hstart := Reading.start_atToken source env
  have hbudget : (Reading.start source env).budget = 4 * (Reading.start source env).left + 16 := rfl
  rcases hd with hd | hd
  · exact read_blames he hd (items_forms file source) (items_anchors hstart (by rw [start_log])).pos
      (start_lasts (items_lasts (by rw [hbudget]; omega)) (Nat.le_of_eq hlength))
  · exact read_blames he hd loneStatement_forms
      (loneStatement_anchors file source hstart (by rw [start_log])).pos
      (start_lasts (loneStatement_lasts (by rw [hbudget]; omega)) (Nat.le_of_eq hlength))

/-- A function, and a text that breaks off inside a structure. -/
def interrupted : List Op :=
  [.source "f.c" "int f(int n) \x7b return n; \x7d", .source "s.c" "struct s \x7b int a; int"]

/-- A call with one argument too many. -/
def excess : Bytes := "int g() \x7b return f(1, 2); \x7d"

theorem failure_at_token_interrupted :
    ∃ d, (((Env.empty {}).run interrupted).readSource "g.c" excess).1 = .error d ∧
      d.pos = 17 ∧ d.file = "g.c" ∧ d.source = excess ∧ d.kind ≠ .internal ∧
      ∃ t ∈ Token.scan excess, d.pos = t.pos := by
  have hpos : (((Env.empty {}).run interrupted).readSource "g.c" excess).1.mapError (·.pos) =
      .error 17 := by
    decide +kernel
  cases h : (((Env.empty {}).run interrupted).readSource "g.c" excess).1 with
  | ok _ =>
    rw [h] at hpos
    cases hpos
  | error d =>
    rw [h] at hpos
    have hpos : d.pos = 17 := Except.error.inj hpos
    exact ⟨d, rfl, hpos, (failure_at_token {} interrupted (by decide) "g.c" excess).2 d (.inl h)⟩

end Env

end DirectC
