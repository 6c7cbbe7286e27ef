/-
# Reading ends by consuming tokens

The readers recurse on a bound, and report that it is used up when it is. This never happens: a
bound that is linear in the number of tokens is enough for every text, in every environment
(`Env.reading_consumes`). The reason is that reading consumes: each reader that can call itself has
used up a token before, and each round of each loop uses up a token before the next.
-/
import DirectC.Proofs.Grammar.Loops

namespace DirectC

open Grammar

/-- Reading came to an end: there is a result, or a complaint about the text, and not one about the
bound on the depth. -/
def Diagnostic.Concludes {α : Type} (file source : Bytes) (r : Except Diagnostic α) : Prop :=
  (∃ a, r = .ok a) ∨
    ∃ c : Complaint, c.fault ≠ .exhausted ∧ r = .error (c.diagnostic file source)

namespace Env

/-- A reader that lasts for the source concludes. -/
theorem read_concludes {α : Type} {env : Env} {file source : Bytes} {reader : Nat → Read α}
    (h : LastsAt (reader (Reading.start source env).budget) (Reading.start source env)) :
    Diagnostic.Concludes file source (env.read file source reader).1 := by
  unfold read
  dsimp only
  split
  · exact .inl ⟨_, rfl⟩
  · rename_i c t hc
    exact .inr ⟨c, h c t hc, rfl⟩

/-- The last token does not count as left. -/
theorem length_scan (env : Env) (source : Bytes) :
    (Token.scan source).length = (Reading.start source env).left + 1 := by
  rw [← Reading.start_text source env]
  rfl

/-- A budget for all tokens lasts from the first one on. -/
theorem start_lasts {α : Type} {n : Nat} {env : Env} {source : Bytes} {x : Read α} (h : Lasts n x)
    (hn : (Token.scan source).length ≤ n + 1) : LastsAt x (Reading.start source env) := by
  refine h _ (Reading.start_ended source env) ?_
  rw [length_scan env] at hn
  exact Nat.le_of_succ_le_succ hn

/-- **Reading terminates by consuming tokens.** Every source file and every statement is read to a
result or a complaint about it, in every environment, and a bound of four more than twice the number
of tokens is never used up. In every state that reading reaches, the end of file is the last token;
from there on an item of a file, an item of a block, a statement, an expression, an operand and a
primary expression with or without its operators leave fewer tokens than there were, and so does
each round of each loop before the next one. -/
theorem reading_consumes :
    (∀ (env : Env) (file source : Bytes),
      Diagnostic.Concludes file source (readSource env file source).1 ∧
      Diagnostic.Concludes file source (readStatement env file source).1) ∧
    (∀ (env : Env) (file source : Bytes) (bound : Nat), 2 * (Token.scan source).length + 4 ≤ bound →
      Diagnostic.Concludes file source (read env file source fun _ => items file source bound).1 ∧
      Diagnostic.Concludes file source (read env file source fun _ => loneStatement bound).1) ∧
    (∀ source env s, (Reading.start source env).Trail .file s → s.Ended) ∧
    (∀ fuel,
      (∀ file source, Consumes (item file source fuel)) ∧
      (∀ ret, Consumes (blockItem ret fuel)) ∧
      (∀ ret, Consumes (statement ret fuel)) ∧
      Consumes (assignment fuel) ∧
      Consumes (unary fuel) ∧
      Consumes (do postfixes (assignment fuel) fuel (← primary (assignment fuel) fuel)) ∧
      Consumes (primary (assignment fuel) fuel)) ∧
    (∀ file source, PlainLoop (items file source) (itemsRound file source)) ∧
    (∀ ret, PlainLoop (blockItems ret) fun fuel => blockItemsRound (statement ret fuel) fuel) ∧
    (∀ base, PlainLoop (declarators base) (declaratorsRound base)) ∧
    (∀ base, Loop (fun fuel (v : CType × Token) => Grammar.globals base fuel v.1 v.2)
      fun fuel again v => globalsRound base fuel (fun type name => again (type, name)) v.1 v.2) ∧
    (∀ struct base, PlainLoop (memberDeclarators struct base)
      (memberDeclaratorsRound struct base)) ∧
    (∀ struct, PlainLoop (members struct) fun fuel => membersRound struct (baseType fuel) fuel) ∧
    Loop parameters parametersRound ∧
    (∀ depth, Loop (arguments (assignment depth)) fun _ => argumentsRound (assignment depth)) ∧
    PlainLoop dimensions (fun _ => dimensionsRound) ∧
    Loop pointers (fun _ => pointersRound) ∧
    (∀ depth, Loop (postfixes (assignment depth)) fun _ => postfixesRound (assignment depth)) ∧
    (∀ depth level tighter, Loop (chain (cascade (unary depth) depth tighter) level) fun _ =>
      chainRound (cascade (unary depth) depth tighter) level) ∧
    PlainLoop adjacentStrings (fun _ => adjacentStringsRound) := by
  -- The budget is more than twice the tokens, with room for the levels around a file.
  have hbudget : ∀ source env, (Reading.start source env).budget =
      4 * (Reading.start source env).left + 16 := fun _ _ => rfl
  refine ⟨fun env file source => ?_, fun env file source bound hbound => ?_, fun source env s hs =>
    hs.ended (Reading.start_ended source env), fun fuel => ?_, items_loop, blockItems_loop,
    declarators_loop, globals_loop, memberDeclarators_loop, members_loop, parameters_loop,
    arguments_loop, dimensions_loop, pointers_loop, postfixes_loop, chain_loop,
    adjacentStrings_loop⟩
  · have hlength := length_scan env source
    exact ⟨read_concludes (start_lasts (items_lasts (by rw [hbudget]; omega))
        (Nat.le_of_eq hlength)),
      read_concludes (start_lasts (loneStatement_lasts (by rw [hbudget]; omega))
        (Nat.le_of_eq hlength))⟩
  · have hlength := length_scan env source
    exact ⟨read_concludes (start_lasts (items_lasts (by omega)) (Nat.le_of_eq hlength)),
      read_concludes (start_lasts (loneStatement_lasts (by omega)) (Nat.le_of_eq hlength))⟩
  · exact ⟨fun _ _ => item_consumes, fun _ => blockItem_consumes, fun _ => statement_consumes,
      assignment_consumes, unary_consumes, postfix_consumes, primary_consumes⟩

end Env

end DirectC
