/-
# The loops of reading

Each reader that goes round in a loop is one round, which is given how the loop goes on.
`Descends round` says that a round goes on only with fewer tokens than it began with: its outcome
does not depend on how the loop goes on from any other state. So every round of every loop consumes
a token, returns or fails (`Loop`).
-/
import DirectC.Proofs.Grammar.Keeping

namespace DirectC

namespace Grammar

/-! ## Loops -/

section Loops

variable {ι α β : Type}

/-- **A round goes on with fewer tokens** than it began with. -/
def Descends (round : (ι → Read α) → ι → Read α) : Prop :=
  ∀ again again' i s, s.Ended →
    (∀ j t, t.Ended → t.left < s.left → again j t = again' j t) →
      round again i s = round again' i s

/-- A loop that goes round by round, and consumes a token in each. -/
structure Loop (loop : Nat → ι → Read α) (round : Nat → (ι → Read α) → ι → Read α) : Prop where
  step : ∀ fuel i, loop (fuel + 1) i = round fuel (loop fuel) i
  descends : ∀ fuel, Descends (round fuel)

/-- A loop that hands nothing on from one round to the next. -/
abbrev PlainLoop (loop : Nat → Read α) (round : Nat → Read α → Read α) : Prop :=
  Loop (fun fuel (_ : Unit) => loop fuel) fun fuel again _ => round fuel (again ())

/-- Two readers have the same outcome from a state. -/
def SameAt (x y : Read α) (s : Reading) : Prop :=
  x s = y s

/-- Two readers are the same for up to `n` tokens. -/
def Same (n : Nat) (x y : Read α) : Prop :=
  ∀ s, s.Ended → s.left ≤ n → SameAt x y s

variable {n : Nat} {s : Reading} {x y z x' y' z' : Read α} {f g : α → Read β}

/-- Rounds that agree descend. -/
theorem Descends.of_same {round : (ι → Read α) → ι → Read α}
    (h : ∀ n again again', (∀ j, ∀ m < n, Same m (again j) (again' j)) →
      ∀ i, Same n (round again i) (round again' i)) : Descends round := by
  intro again again' i s hs hsame
  refine h s.left again again' (fun j m hm t ht hle => ?_) i s hs (Nat.le_refl _)
  exact hsame j t ht (Nat.lt_of_le_of_lt hle hm)

theorem Same.refl : Same n x x :=
  fun _ _ _ => rfl

/-- A step in front only takes tokens. -/
theorem Same.bind (hk : Keeps .file x) (hf : ∀ a, Same n (f a) (g a)) :
    Same n (x >>= f) (x >>= g) := by
  intro s hs hn
  cases hx : x s with
  | error c t => rw [SameAt, run_bind_of_error hx, run_bind_of_error hx]
  | ok a t =>
    rw [SameAt, run_bind_of_ok hx, run_bind_of_ok hx]
    have htrail := hk.trail hx
    exact hf a t (htrail.ended hs) (Nat.le_trans htrail.left_le hn)

/-- Behind a step that consumes, there are fewer tokens left. -/
theorem Same.bind_lt (hk : Keeps .file x) (hc : Consumes x)
    (hf : ∀ m < n, ∀ a, Same m (f a) (g a)) : Same n (x >>= f) (x >>= g) := by
  intro s hs hn
  cases hx : x s with
  | error c t => rw [SameAt, run_bind_of_error hx, run_bind_of_error hx]
  | ok a t =>
    rw [SameAt, run_bind_of_ok hx, run_bind_of_ok hx]
    have hlt := Nat.lt_of_lt_of_le (hc s hs a t hx) hn
    exact hf t.left hlt a t ((hk.trail hx).ended hs) (Nat.le_refl _)

/-- The loop goes on, and something is done with its result. -/
theorem Same.again (h : Same n x y) : Same n (x >>= f) (y >>= f) := by
  intro s hs hn
  cases hy : y s with
  | error c t =>
    rw [SameAt, run_bind_of_error hy, run_bind_of_error ((h s hs hn).trans hy)]
  | ok a t => rw [SameAt, run_bind_of_ok hy, run_bind_of_ok ((h s hs hn).trans hy)]

theorem Same.ite {c : Prop} [Decidable c] (hy : Same n y y') (hz : Same n z z') :
    Same n (if c then y else z) (if c then y' else z') := by
  split
  · exact hy
  · exact hz

/-- The first step is there only if a condition holds. -/
theorem Same.optional {c : Prop} [Decidable c] {w w' : Read β} (hk : Keeps .file x)
    (hw : Same n w w') :
    Same n (if c then x >>= fun _ => w else w) (if c then x >>= fun _ => w' else w') :=
  .ite (.bind hk fun _ => hw) hw

/-- Behind an operator that is passed there are fewer tokens. -/
theorem accept_same {p : Punct} (hy : ∀ m < n, Same m y y') (hz : Same n z z') :
    Same n (do if ← accept p then y else z) (do if ← accept p then y' else z') := by
  intro s hs hn
  by_cases h : s.current.kind = .punct p
  · rw [SameAt, run_bind_of_ok (run_accept h), run_bind_of_ok (run_accept h), if_pos rfl,
      if_pos rfl]
    have hlt := Nat.lt_of_lt_of_le (Reading.left_rest hs (ne_of_eq_of_ne h (by simp))) hn
    exact hy s.rest.left hlt s.rest (Reading.rest_ended hs) (Nat.le_refl _)
  · rw [SameAt, run_bind_of_ok (run_accept_of_ne h), run_bind_of_ok (run_accept_of_ne h),
      if_neg Bool.false_ne_true, if_neg Bool.false_ne_true]
    exact hz s hs hn

/-- A step that looks at the state comes first. -/
theorem SameAt.look {v : Reading → α} (h : SameAt (f (v s)) (g (v s)) s) :
    SameAt ((fun s => .ok (v s) s : Read α) >>= f) ((fun s => .ok (v s) s : Read α) >>= g) s :=
  h

/-- Behind any token but the last there are fewer tokens. -/
theorem next_same {f g : Unit → Read β} (hs : s.Ended) (hn : s.left ≤ n)
    (h : s.current.kind ≠ .endOfFile) (hf : ∀ m < n, Same m (f ()) (g ())) :
    SameAt (next >>= f) (next >>= g) s := by
  rw [SameAt, run_bind_of_ok (run_next s), run_bind_of_ok (run_next s)]
  have hlt := Nat.lt_of_lt_of_le (Reading.left_rest hs h) hn
  exact hf s.rest.left hlt s.rest (Reading.rest_ended hs) (Nat.le_refl _)

end Loops

/-- A plain loop, of which the rounds are the same for as many tokens. -/
theorem PlainLoop.of_same {α : Type} {loop : Nat → Read α} {round : Nat → Read α → Read α}
    (hstep : ∀ fuel, loop (fuel + 1) = round fuel (loop fuel))
    (h : ∀ fuel n again again', (∀ m < n, Same m again again') →
      Same n (round fuel again) (round fuel again')) : PlainLoop loop round :=
  ⟨fun fuel _ => hstep fuel, fun fuel => .of_same fun n _ _ hsame _ =>
    h fuel n _ _ fun m hm => hsame () m hm⟩

/-! ## Types -/

/-- Stars in front of a name are read in rounds. -/
theorem pointers_loop : Loop pointers fun _ => pointersRound :=
  ⟨fun _ _ => rfl, fun _ => .of_same fun _ _ _ h _ =>
    accept_same (fun m hm => h _ m hm) .refl⟩

/-- Array lengths behind a name are read in rounds. -/
theorem dimensions_loop : PlainLoop dimensions fun _ => dimensionsRound :=
  .of_same (fun _ => rfl) fun _ _ _ _ h =>
    accept_same (fun m hm => .bind dimension_keeps fun _ => .again (h m hm)) .refl

/-- The members of one type are read in rounds. -/
theorem memberDeclarators_loop (struct : Bytes) (base : CType) :
    PlainLoop (memberDeclarators struct base) (memberDeclaratorsRound struct base) :=
  .of_same (fun _ => rfl) fun _ _ _ _ h => .bind declarator_keeps fun _ => .ite .refl
    (accept_same (fun m hm => .again (h m hm)) .refl)

/-- Nothing follows what is not expected. -/
theorem unexpected_bind_same {α β : Type} {n : Nat} {wanted : Wanted} {f g : α → Read β} :
    Same n (unexpected wanted >>= f) (unexpected wanted >>= g) := by
  intro s _ _
  have hc : ∃ c, (unexpected wanted : Read α) s = .error c s := run_unexpected wanted s
  obtain ⟨c, hc⟩ := hc
  rw [SameAt, run_bind_of_error hc, run_bind_of_error hc]

/-- The members of a struct are read in rounds: each takes a type and the members of it. -/
theorem members_loop (struct : Bytes) :
    PlainLoop (members struct) fun fuel => membersRound struct (baseType fuel) fuel := by
  refine .of_same (fun fuel => by rw [members]) fun _ _ _ _ h => ?_
  refine accept_same (fun _ _ => .refl) (.bind .look fun _ => .ite unexpected_bind_same ?_)
  exact .bind_lt baseType_keeps baseType_consumes fun m hm _ =>
    .bind memberDeclarators_keeps fun _ => .bind expect_keeps fun _ => .again (h m hm)

/-! ## Expressions -/

/-- The end of file is no operator. -/
theorem ne_endOfFile_of_findOp {level : List LevelOp} {kind : Token.Kind} {op : LevelOp}
    (h : findOp level kind = some op) : kind ≠ .endOfFile := by
  rintro rfl
  have hop := List.find?_some h
  cases hop

/-- The operators of one level are read in rounds, from the left operand on. -/
theorem chain_loop (depth : Nat) (level : List LevelOp) (tighter : List (List LevelOp)) :
    Loop (chain (cascade (unary depth) depth tighter) level) fun _ =>
      chainRound (cascade (unary depth) depth tighter) level := by
  refine ⟨fun _ _ => rfl, fun _ => .of_same fun n again again' h left s hs hn => ?_⟩
  refine SameAt.look ?_
  cases hop : findOp level s.current.kind with
  | none => rfl
  | some op =>
    exact next_same hs hn (ne_endOfFile_of_findOp hop) fun m hm =>
      .bind (cascade_keeps tighter) fun _ => .bind join_keeps fun _ => h _ m hm

/-- The arguments of a call are read in rounds. -/
theorem arguments_loop (depth : Nat) :
    Loop (arguments (assignment depth)) fun _ => argumentsRound (assignment depth) := by
  refine ⟨fun _ _ => rfl, fun _ => .of_same fun n again again' h first => ?_⟩
  refine accept_same (fun _ _ => .refl) (.optional expect_keeps ?_)
  exact .bind_lt argument_keeps argument_consumes fun m hm _ => .again (h false m hm)

/-- Strings that stand together are read in rounds. -/
theorem adjacentStrings_loop : PlainLoop adjacentStrings fun _ => adjacentStringsRound := by
  refine .of_same (fun _ => rfl) fun _ n again again' h s hs hn => ?_
  refine SameAt.look ?_
  by_cases hkind : s.current.kind = .string
  · rw [if_pos (beq_iff_eq.mpr hkind), if_pos (beq_iff_eq.mpr hkind)]
    exact next_same hs hn (ne_of_eq_of_ne hkind (by simp)) fun m hm => .again (h m hm)
  · rw [if_neg (by simpa using hkind), if_neg (by simpa using hkind)]
    rfl

/-- Postfix operators are read in rounds, from the operand on. -/
theorem postfixes_loop (depth : Nat) :
    Loop (postfixes (assignment depth)) fun _ => postfixesRound (assignment depth) := by
  refine ⟨fun _ _ => rfl, fun _ => .of_same fun n again again' h e s hs hn => ?_⟩
  have hgo : ∀ {kind : Token.Kind} {step : Read Expr}, s.current.kind = kind →
      kind ≠ .endOfFile → Keeps .file step →
      SameAt (do next; again (← step)) (do next; again' (← step)) s :=
    fun hkind hne hstep => next_same hs hn (ne_of_eq_of_ne hkind hne) fun m hm =>
      .bind hstep fun _ => h _ m hm
  refine SameAt.look ?_
  generalize hkind : s.current.kind = kind
  split
  · exact hgo hkind (by simp) indexed_keeps
  · exact hgo hkind (by simp) dotMember_keeps
  · exact hgo hkind (by simp) arrowMember_keeps
  · exact hgo hkind (by simp) (stepped_keeps rfl)
  · exact hgo hkind (by simp) (stepped_keeps rfl)
  · rfl

/-! ## Statements -/

/-- The variables of a declaration are read in rounds. -/
theorem declarators_loop (base : CType) : PlainLoop (declarators base) (declaratorsRound base) :=
  .of_same (fun _ => rfl) fun _ _ _ _ h => .bind declarator_keeps fun _ =>
    .bind (declareLocal_keeps Layer.file_bodies) fun _ => .bind initializer_keeps fun _ =>
      accept_same (fun m hm => .again (h m hm)) .refl

/-- The items of a block are read in rounds. -/
theorem blockItems_loop (ret : CType) :
    PlainLoop (blockItems ret) fun fuel => blockItemsRound (statement ret fuel) fuel := by
  refine .of_same (fun fuel => by rw [blockItems]) fun _ _ _ _ h => ?_
  unfold blockItemsRound
  refine .bind .look fun kind => ?_
  split
  · exact .refl
  · exact .refl
  · exact .ite
      (.bind_lt (declaration_keeps Layer.file_bodies) declaration_consumes fun m hm _ =>
        .again (h m hm))
      (.bind_lt (statement_keeps Layer.file_bodies) statement_consumes fun m hm _ =>
        .bind .pure fun _ => .again (h m hm))

/-! ## Files -/

/-- The global variables of one type are read in rounds. -/
theorem globals_loop (base : CType) :
    Loop (fun fuel (v : CType × Token) => globals base fuel v.1 v.2) fun fuel again v =>
      globalsRound base fuel (fun type name => again (type, name)) v.1 v.2 := by
  refine ⟨fun _ _ => rfl, fun _ => .of_same fun n again again' h v => ?_⟩
  exact .bind declareGlobal_keeps fun _ => accept_same
    (fun m hm => .bind declarator_keeps fun _ => h _ m hm) .refl

/-- Parameters are read in rounds, which know whether one came before. -/
theorem parameters_loop : Loop parameters parametersRound := by
  refine ⟨fun _ _ => rfl, fun fuel => .of_same fun n again again' h first => ?_⟩
  refine accept_same (fun _ _ => .refl) (.optional expect_keeps ?_)
  exact .bind_lt (parameter_keeps Layer.file_heads) parameter_consumes fun m hm _ =>
    .again (h false m hm)

/-- The items of a file are read in rounds. -/
theorem items_loop (file source : Bytes) :
    PlainLoop (items file source) (itemsRound file source) :=
  .of_same (fun _ => rfl) fun _ _ _ _ h => .bind .look fun _ => .ite .refl
    (.bind_lt item_keeps item_consumes fun m hm _ => h m hm)

end Grammar

end DirectC
