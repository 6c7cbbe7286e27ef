/-
# More tokens and a larger bound

What a reader has read stays read when its bound is larger, and when more tokens follow in place of
the end of file. A reader that has looked at the end of file may go another way if it finds a token
there, so nothing is known of the longer text from then on; but a reader that takes tokens up to a
semicolon or a closing brace knows where it ends, and does not look any further. So the items of a
file that is read to its end can be read as the beginning of a longer one (`items_goes`).
-/
import DirectC.Proofs.Grammar.Alike
import DirectC.Proofs.Grammar.Trail

namespace DirectC

namespace Grammar

/-! ## More tokens -/

namespace Reading

variable {s t u : Reading} {ts : List Token}

/-- The state with these tokens to be read. -/
def before (s : Reading) (ts : List Token) : Reading :=
  { s with current := ts.headD s.current, ahead := ts.tail }

/-- The state with other tokens in place of the last one. -/
def followed (s : Reading) (ts : List Token) : Reading :=
  s.before (s.text.dropLast ++ ts)

/-- As long as the end of file is not reached, there are just more tokens ahead. -/
theorem followed_of_ne (h : s.ahead ≠ []) :
    s.followed ts = { s with ahead := s.ahead.dropLast ++ ts } := by
  rw [followed, text, List.dropLast_cons_of_ne_nil h]
  rfl

/-- All of the text is read before what follows it. -/
theorem text_followed (hts : ts ≠ []) : (s.followed ts).text = s.text.dropLast ++ ts := by
  have hne : s.text.dropLast ++ ts ≠ [] := fun h => hts (List.append_eq_nil_iff.mp h).2
  obtain ⟨u, us, hus⟩ := List.exists_cons_of_ne_nil hne
  rw [followed, hus]
  rfl

/-- Going on is the same with more tokens, except at the end. -/
theorem rest_followed (h : s.ahead ≠ []) (hts : ts ≠ []) :
    (s.followed ts).rest = s.rest.followed ts := by
  obtain ⟨t, us, ha⟩ := List.exists_cons_of_ne_nil h
  have hrest : s.rest = { s with current := t, ahead := us } := by
    rw [rest, ha]
  have hne : (t :: us).dropLast ++ ts ≠ [] := fun hnil => hts (List.append_eq_nil_iff.mp hnil).2
  obtain ⟨v, vs, hv⟩ := List.exists_cons_of_ne_nil hne
  rw [followed_of_ne h, hrest, ha, hv, followed, text, hv]
  rfl

/-- Only the end of file has nothing ahead. -/
theorem ahead_ne_nil (hs : s.Ended) (h : s.current.kind ≠ .endOfFile) : s.ahead ≠ [] :=
  List.ne_nil_of_length_pos (Nat.lt_of_le_of_lt (Nat.zero_le _) (left_rest hs h))

/-- Tokens have been read, and the last one of them is a token of the language. -/
def Took (s t : Reading) : Prop :=
  ∃ ts last, s.text = ts ++ last :: t.text ∧ last.kind ≠ .illegal

theorem Took.suffix (h : s.Took t) : t.text <:+ s.text := by
  obtain ⟨ts, last, hs, -⟩ := h
  exact ⟨ts ++ [last], by rw [hs, List.append_assoc]; rfl⟩

theorem Took.left_lt (h : s.Took t) : t.left < s.left := by
  obtain ⟨ts, last, hs, -⟩ := h
  have hlength := congrArg List.length hs
  simp only [text, List.length_append, List.length_cons] at hlength
  unfold left
  omega

/-- There may be more before the tokens that have been read. -/
theorem Took.after (h : t.text <:+ s.text) (h' : t.Took u) : s.Took u := by
  obtain ⟨ts, hts⟩ := h
  obtain ⟨us, last, hus, hlast⟩ := h'
  exact ⟨ts ++ us, last, by rw [← hts, hus, List.append_assoc], hlast⟩

end Reading

/-! ## Two readings -/

namespace Extension

/-- Where a reading from `o` on has come to. If `ts` is given, the second reading goes on with these
tokens at the end of file, and once the first one has looked there the second one is `lost`. -/
structure World (ts : Option (List Token)) (o : Reading) where
  reading : Reading
  lost : Bool
  ended : reading.Ended
  suffix : reading.text <:+ o.text
  last : lost = true → ts.isSome ∧ reading.ahead = []

variable {ts : Option (List Token)} {o : Reading}

namespace World

/-- The tokens of the second reading. -/
def tokens (w : World ts o) : List Token :=
  if w.lost then w.reading.text
  else ts.elim w.reading.text fun us => w.reading.text.dropLast ++ us

/-- The state of the second reading. -/
def other (w : World ts o) : Reading :=
  w.reading.before w.tokens

/-- The same place with other declarations. -/
def declaring (w : World ts o) (env : Env) (scope : Scope) (log : Log) : World ts o :=
  ⟨{ w.reading with env, scope, log }, w.lost, w.ended, w.suffix, w.last⟩

/-- The place behind the next token. -/
def later (w : World ts o) : World ts o where
  reading := w.reading.rest
  lost := w.lost
  ended := Reading.rest_ended w.ended
  suffix := w.reading.text_rest.trans w.suffix
  last hw := by
    obtain ⟨hts, hnil⟩ := w.last hw
    have hrest : w.reading.rest = w.reading := by rw [Reading.rest, hnil]
    exact ⟨hts, by rw [hrest]; exact hnil⟩

/-- The end of file has been looked at. -/
def losing (w : World ts o) (hts : ts.isSome) (hnil : w.reading.ahead = []) : World ts o :=
  ⟨w.reading, true, w.ended, w.suffix, fun _ => ⟨hts, hnil⟩⟩

variable {w : World ts o}

/-- A reading that is lost is not followed any more. -/
theorem other_of_lost (h : w.lost = true) : w.other = w.reading := by
  rw [other, tokens, if_pos h]
  rfl

end World

variable {w v : World ts o}

/-- Without more tokens both readings are the same. -/
theorem other_none {w : World none o} : w.other = w.reading := by
  unfold World.other World.tokens
  split <;> rfl

/-- More tokens follow. -/
theorem other_some {us : List Token} {w : World (some us) o} (h : w.lost = false) :
    w.other = w.reading.followed us := by
  unfold World.other World.tokens
  rw [if_neg (by simp [h])]
  rfl

/-- The end of file is not in sight. -/
theorem lost_of_ne (h : w.reading.ahead ≠ []) : w.lost = false := by
  cases hw : w.lost with
  | false => rfl
  | true => exact absurd (w.last hw).2 h

/-- Before the end of file the next token is the same. -/
theorem current_other (h : w.reading.ahead ≠ []) : w.other.current = w.reading.current := by
  cases ts with
  | none => rw [other_none]
  | some us => rw [other_some (lost_of_ne h), Reading.followed_of_ne h]

/-- Before the end of file going on is the same. -/
theorem later_other (hts : ∀ us ∈ ts, us ≠ []) (h : w.reading.ahead ≠ []) :
    w.later.other = w.other.rest := by
  cases ts with
  | none => rw [other_none, other_none]; rfl
  | some us =>
    have hlost := lost_of_ne h
    rw [other_some (w := w.later) hlost, other_some hlost, Reading.rest_followed h (hts us rfl)]
    rfl

/-- Two tokens before the end of file the second one is the same. -/
theorem peek_other (h : 2 ≤ w.reading.left) :
    w.other.ahead.headD w.other.current = w.reading.ahead.headD w.reading.current := by
  have hlength : 2 ≤ w.reading.ahead.length := h
  have hne : w.reading.ahead ≠ [] := List.ne_nil_of_length_pos (by omega)
  cases ts with
  | none => rw [other_none]
  | some us =>
    rw [other_some (lost_of_ne hne), Reading.followed_of_ne hne]
    match w.reading.ahead, hlength with
    | _ :: _ :: _, _ => rfl

/-- A reading with a bound, and one with a larger bound and more tokens. If tokens follow, nothing
is said of the second reading where the first one fails. -/
def pairing (ts : Option (List Token)) (o : Reading) : Pairing where
  World := World ts o
  Le w v := v.reading.text <:+ w.reading.text ∧ (w.lost = true → v.lost = true)
  State w s s' := s = w.reading ∧ s' = w.other
  Lost w := w.lost = true
  Excused c := ts.isSome ∨ c.fault = .exhausted
  Fails _ c s c' s' := c' = c ∧ s' = s
  Moved w v := (v.reading.text <:+ w.reading.text ∧ (w.lost = true → v.lost = true)) ∧
    v.reading.left < w.reading.left
  Fresh w := w.lost = false ∧ o.Took w.reading
  Enough _ _ n m := n ≤ m
  Names _ := True
  layer := .file
  Source file source file' source' := file' = file ∧ source' = source
  Current w t t' := t' = t ∧ t = w.reading.current
  Taken _ t t' := t' = t
  Pos _ p p' := p' = p
  Typ _ := True
  Sized _ := True
  Lay _ l l' := l' = l
  Exp _ e e' := e' = e
  Val _ e e' := e' = e
  Sig _ _ s s' := s' = s
  Prm _ p p' := p' = p
  Stm _ s s' := s' = s

/-- The same complaint, if complaints matter. -/
theorem fails {s s' : Reading} {c c' : Complaint} (hs : (pairing ts o).State w s s') (hc : c' = c) :
    (pairing ts o).Excused c ∨ (pairing ts o).Fails w c s c' s' := by
  obtain ⟨rfl, rfl⟩ := hs
  cases ts with
  | none => exact .inr ⟨hc, other_none⟩
  | some us => exact .inl (.inl rfl)

/-- At the end of file the readings are the same, or the second one is lost. -/
theorem at_end (h : w.reading.ahead = []) :
    ∃ v : World ts o, (pairing ts o).Le w v ∧ v.reading = w.reading ∧ v.other = w.reading ∧
      (v.lost = true ∨ w.other = w.reading) := by
  cases ts with
  | none => exact ⟨w, ⟨List.suffix_rfl, id⟩, rfl, other_none, .inr other_none⟩
  | some us =>
    exact ⟨w.losing rfl h, ⟨List.suffix_rfl, fun _ => rfl⟩, rfl, World.other_of_lost rfl, .inl rfl⟩

/-- Going on. -/
theorem rest (hts : ∀ us ∈ ts, us ≠ []) (w : World ts o) :
    ∃ (v : World ts o) (u : Reading), (pairing ts o).Le w v ∧
      (pairing ts o).State v w.reading.rest u ∧ (v.lost = true ∨ u = w.other.rest) := by
  by_cases h : w.reading.ahead = []
  · obtain ⟨v, hle, hv, hother, hend⟩ := at_end h
    have hrest : w.reading.rest = w.reading := by rw [Reading.rest, h]
    refine ⟨v, w.reading, hle, ⟨hrest.trans hv.symm, hother.symm⟩, hend.imp_right fun hsame => ?_⟩
    rw [hsame, hrest]
  · exact ⟨w.later, w.later.other, ⟨w.reading.text_rest, id⟩, ⟨rfl, rfl⟩, .inr (later_other hts h)⟩

/-- Reading a token that is not the end of file. -/
theorem rest_taken (hts : ∀ us ∈ ts, us ≠ []) (hend : w.reading.current.kind ≠ .endOfFile)
    (hlegal : w.reading.current.kind ≠ .illegal) :
    (pairing ts o).Moved w w.later ∧ (pairing ts o).Fresh w.later ∧
      w.later.other = w.other.rest := by
  have hne := Reading.ahead_ne_nil w.ended hend
  have htook : w.reading.Took w.later.reading :=
    ⟨[], w.reading.current, Reading.text_eq_of_ne w.ended hend, hlegal⟩
  exact ⟨⟨⟨w.reading.text_rest, id⟩, Reading.left_rest w.ended hend⟩,
    ⟨(lost_of_ne hne : w.lost = false), htook.after w.suffix⟩, later_other hts hne⟩

/-- A token that is not there in the second reading is behind the last one. -/
theorem peek (w : World ts o) :
    (w.other.ahead.headD w.other.current).kind = (w.reading.ahead.headD w.reading.current).kind ∨
      ts.isSome ∧ w.reading.left ≤ 1 := by
  by_cases h : 2 ≤ w.reading.left
  · exact .inl (by rw [peek_other h])
  · cases ts with
    | none => exact .inl (by rw [other_none])
    | some us => exact .inr ⟨rfl, by omega⟩

/-- The steps on tokens, up to the end of file. -/
def steps {ts : Option (List Token)} (hts : ∀ us ∈ ts, us ≠ []) (o : Reading) : Steps where
  toPairing := pairing ts o
  refl _ := ⟨List.suffix_rfl, id⟩
  trans h h' := ⟨h'.1.trans h.1, h'.2 ∘ h.2⟩
  lost h := h.2
  excused {w} h _ := .inl (w.last h).1
  fails _ h := h
  le h := h.1
  moved h h' := ⟨⟨h'.1.1.trans h.1, h'.1.2 ∘ h.2⟩,
    Nat.lt_of_lt_of_le h'.2 (Reading.left_le_of_suffix h.1)⟩
  moved_le h h' := ⟨⟨h'.1.trans h.1.1, h'.2 ∘ h.1.2⟩,
    Nat.lt_of_le_of_lt (Reading.left_le_of_suffix h'.1) h.2⟩
  names _ h := h
  pos _ h := h
  taken _ h := h
  enough_succ h := ⟨_, (Nat.succ_pred_eq_of_pos (Nat.lt_of_lt_of_le (Nat.succ_pos _) h)).symm⟩
  enough_down h := Nat.le_of_succ_le_succ h
  enough_le _ h := h
  enough_mono _ h := h
  enough_moved _ h := h
  used _ _ := .inl (.inr rfl)
  current := by
    rintro w _ _ ⟨rfl, rfl⟩
    by_cases h : w.reading.ahead = []
    · obtain ⟨v, hle, hv, hother, hend⟩ := at_end h
      exact ⟨v, w.reading, hle, ⟨hv.symm, hother.symm⟩, ⟨rfl, by rw [hv]⟩, hend.imp_right Eq.symm⟩
    · exact ⟨w, w.other, ⟨List.suffix_rfl, id⟩, ⟨rfl, rfl⟩, ⟨current_other h, rfl⟩, .inr rfl⟩
  kind h := by rw [h.1]
  literal h := by rw [h.1]
  current_pos h := by rw [h.1]; rfl
  taken_literal h := by rw [h]
  taken_pos h := by rw [h]; rfl
  peek := by
    rintro w _ _ ⟨rfl, rfl⟩
    refine (peek w).imp_right fun ⟨hsome, hleft⟩ => ⟨fun _ => .inl hsome, ?_, fun hu hv => ?_⟩
    · rintro v _ _ hmoved ⟨rfl, rfl⟩
      have hnil : v.reading.ahead = [] := List.length_eq_zero_iff.mp
        (Nat.lt_one_iff.mp (Nat.lt_of_lt_of_le hmoved.2 hleft))
      have hother : (v.losing hsome hnil).other = v.reading := World.other_of_lost rfl
      exact ⟨v.losing hsome hnil, v.reading, ⟨List.suffix_rfl, fun _ => rfl⟩, rfl, rfl, hother.symm⟩
    · have hu := hu.2
      have hv := hv.2
      omega
  rest := by
    rintro w _ _ ⟨rfl, rfl⟩
    exact rest hts w
  rest_taken := by
    rintro w _ _ t _ ⟨rfl, rfl⟩ hend hlegal ⟨rfl, rfl⟩
    obtain ⟨hmoved, hfresh, hother⟩ := rest_taken hts hend hlegal
    exact ⟨w.later, w.later.other, hmoved.1, ⟨rfl, rfl⟩, .inr hother, hmoved, hfresh, rfl⟩
  complaint := by
    rintro w p _ s s' fault _ _ rfl hs
    exact fails hs rfl
  unwanted := by
    rintro w t _ s s' wanted ⟨rfl, _⟩ hs
    exact fails hs rfl

variable {α : Type} {hts : ∀ us ∈ ts, us ≠ []}

/-- A rule and itself. -/
theorem answers {Q : α → α → Prop} {r : Checked α} (hQ : ∀ a, r = .ok a → Q a a) :
    (steps hts o).Answers w Q r r := by
  cases r with
  | ok a => exact ⟨a, rfl, hQ a rfl⟩
  | error c =>
    cases ts with
    | none =>
      refine .inr ⟨c, rfl, ?_⟩
      rintro _ _ ⟨rfl, rfl⟩
      exact ⟨rfl, other_none⟩
    | some us => exact .inl (.inl rfl)

/-- A step that changes what is declared. -/
theorem outcome_ok {Q : World ts o → α → α → Prop} {a : α} {env : Env} {scope : Scope} {log : Log}
    (hQ : Q (w.declaring env scope log) a a) :
    (steps hts o).Outcome w Q (.ok a { w.reading with env, scope, log })
      (.ok a { w.other with env, scope, log }) :=
  ⟨w.declaring env scope log, a, _, ⟨List.suffix_rfl, id⟩, ⟨rfl, rfl⟩, hQ, .inr rfl⟩

/-- A step that fails. -/
theorem outcome_error {Q : World ts o → α → α → Prop} {c : Complaint} :
    (steps hts o).Outcome w Q (.error c w.reading) (.error c w.other) := by
  rcases fails (w := w) ⟨rfl, rfl⟩ (rfl : c = c) with hc | hfails
  · exact .inl hc
  · exact .inr ⟨c, _, rfl, hfails⟩

end Extension

open Extension in
/-- **What has been read stays read** with a larger bound and before more tokens. -/
def extending {ts : Option (List Token)} (hts : ∀ us ∈ ts, us ≠ []) (o : Reading) : Likeness where
  toSteps := steps hts o
  exp _ h := h
  val _ h := h
  sig _ h := h
  prm _ h := h
  stm _ h := h
  exp_of_val h := h
  type h := by rw [h]
  isPlace h := by rw [h]
  sized h := h
  sized_type _ := trivial
  assignable h := by rw [h]
  int h := by rw [h]; rfl
  typ_int := trivial
  typ_char := trivial
  typ_void := trivial
  typ_pointer h := h
  lay := by rintro w _ _ ⟨rfl, rfl⟩; rfl
  size := by
    rintro _ l _ p _ t rfl rfl -
    exact answers fun _ _ => rfl
  alignment := by
    rintro _ l _ p _ t rfl rfl -
    exact answers fun _ _ => rfl
  characters := by
    rintro _ l _ p _ n rfl rfl
    refine answers fun t ht => ?_
    exact ⟨rfl, (Layout.array_formed (t := .char) (Int.le_refl _) trivial (located_ok.mp ht)).1,
      trivial⟩
  arrayOf := by
    rintro _ l _ ds ds' t rfl - hds
    obtain rfl := hds.eq fun _ _ h => h
    exact answers fun _ _ => ⟨rfl, trivial⟩
  rvalue := by
    rintro _ e _ rfl
    exact answers fun _ _ => rfl
  deref := by
    rintro _ p _ e _ rfl rfl
    exact answers fun _ _ => rfl
  addressOf := by
    rintro _ p _ e _ rfl rfl
    exact answers fun _ _ => rfl
  binary := by
    rintro _ _ l op p _ a _ b _ rfl rfl rfl rfl
    exact answers fun _ _ => rfl
  assign := by
    rintro _ _ l op p _ a _ b _ - rfl rfl rfl rfl
    exact answers fun _ _ => rfl
  dot := by
    rintro _ l _ p _ e _ struct name _ rfl rfl rfl - - ⟨rfl, -⟩
    exact answers fun _ _ => rfl
  arrow := by
    rintro _ l _ p _ e _ struct name _ rfl rfl rfl - ⟨rfl, -⟩
    exact answers fun _ _ => rfl
  arguments := by
    rintro _ function index args args' types hargs
    obtain rfl := hargs.eq (fun _ _ h => h) fun _ _ h => h
    exact answers fun _ _ => trivial
  params h := by rw [h]
  ret h := by rw [h]
  call := by
    rintro _ sig _ name _ args args' rfl ⟨rfl, -⟩ hargs - -
    rw [hargs.eq (fun _ _ h => h) fun _ _ h => h]
    rfl
  eval h := by rw [h.1]; rfl
  exit := by rintro _ p _ e _ rfl rfl -; rfl
  retNone := by rintro _ p _ rfl; rfl
  retSome := by rintro _ p _ e _ rfl rfl; rfl
  ifThen := by rintro _ e _ a _ rfl rfl; rfl
  ifElse := by rintro _ e _ a _ b _ rfl rfl rfl; rfl
  loop := by rintro _ e _ a _ rfl rfl; rfl
  block := by
    rintro _ as as' has
    obtain rfl : as' = as := List.forall₂_eq_eq_eq ▸ has.flip
    rfl
  push := by
    rintro w _ _ - ⟨rfl, rfl⟩
    exact ⟨w.declaring w.reading.env w.reading.scope.push w.reading.log, ⟨List.suffix_rfl, id⟩,
      rfl, rfl⟩
  pop := by
    rintro w _ _ - ⟨rfl, rfl⟩
    exact ⟨w.declaring w.reading.env w.reading.scope.pop w.reading.log, ⟨List.suffix_rfl, id⟩,
      rfl, rfl⟩
  fails_pop := by
    rintro w c s _ _ - ⟨rfl, rfl⟩
    exact ⟨rfl, rfl⟩
  resolve := by
    rintro w _ name - ⟨rfl, -⟩ _ _ ⟨rfl, rfl⟩
    cases hv : w.reading.scope.lookup? name.literal with
    | some v =>
      rw [run_resolve_local hv, run_resolve_local (s := w.other) hv]
      exact outcome_ok rfl
    | none =>
      cases hg : w.reading.env.globals.get? name.literal with
      | some g =>
        rw [run_resolve_global hv hg, run_resolve_global (s := w.other) hv hg]
        exact outcome_ok rfl
      | none =>
        rw [run_resolve_none hv hg, run_resolve_none (s := w.other) hv hg]
        exact outcome_error
  callee := by
    rintro w _ name - ⟨rfl, -⟩ _ _ ⟨rfl, rfl⟩
    cases hc : w.reading.callee? name.literal with
    | some sig =>
      rw [run_callee_some hc, run_callee_some (s := w.other) hc]
      exact outcome_ok rfl
    | none =>
      rw [run_callee_none hc, run_callee_none (s := w.other) hc]
      exact outcome_error
  pooled := by
    rintro w _ p value rfl - _ _ ⟨rfl, rfl⟩
    exact outcome_ok rfl
  struct := by
    rintro w t _ n m ht hk hmembers
    refine .structType (fun _ => trivial) ?_ ht hk hmembers
    rintro v _ name fields - ⟨rfl, -⟩ - _ _ ⟨rfl, rfl⟩
    cases hdef : v.reading.env.layout.define name.literal fields with
    | ok l =>
      rw [run_defineStruct_ok hdef, run_defineStruct_ok (s := v.other) hdef]
      exact outcome_ok trivial
    | error fault =>
      rw [run_defineStruct_error hdef, run_defineStruct_error (s := v.other) hdef]
      exact outcome_error
  addLocal := by
    rintro w _ name type _ _ _ - - ⟨rfl, -⟩ - - - - _ _ ⟨rfl, rfl⟩
    cases hv : w.reading.scope.declare? name.literal type with
    | some r =>
      rw [run_addLocal_some hv, run_addLocal_some (s := w.other) hv]
      exact outcome_ok rfl
    | none =>
      rw [run_addLocal_none hv, run_addLocal_none (s := w.other) hv]
      exact outcome_error
  addParameter := by
    rintro w _ name type - - ⟨rfl, -⟩ - - - _ _ ⟨rfl, rfl⟩
    cases hv : w.reading.scope.declare? name.literal type.decay with
    | some r =>
      rw [run_addParameter_some hv, run_addParameter_some (s := w.other) hv]
      exact outcome_ok rfl
    | none =>
      rw [run_addParameter_none hv, run_addParameter_none (s := w.other) hv]
      exact outcome_error
  addGlobal := by
    rintro w _ name type - ⟨rfl, -⟩ - - _ _ ⟨rfl, rfl⟩
    exact outcome_ok trivial
  enter := by
    rintro w - _ _ ⟨rfl, rfl⟩
    exact outcome_ok trivial
  declareFunction := by
    rintro w ret _ name params params' - ⟨rfl, -⟩ - - - hps _ _ ⟨rfl, rfl⟩
    obtain rfl : params' = params := List.forall₂_eq_eq_eq ▸ hps.flip
    exact outcome_ok trivial
  defineFunction := by
    rintro w file source _ _ ret _ name params params' body body' - - ⟨rfl, rfl⟩ ⟨rfl, -⟩ hps hbody
      _ _ ⟨rfl, rfl⟩
    obtain rfl : params' = params := List.forall₂_eq_eq_eq ▸ hps.flip
    obtain rfl : body' = body := List.forall₂_eq_eq_eq ▸ hbody.flip
    exact outcome_ok fun h => h

/-! ## A larger bound -/

/-- **A reader does the same with a larger bound**, unless the bound was used up. -/
structure Deepens {α : Type} (x y : Read α) (s : Reading) : Prop where
  ok : ∀ a t, x s = .ok a t → y s = .ok a t
  error : ∀ c t, x s = .error c t → c.fault ≠ .exhausted → y s = .error c t

/-- The start of two readings. -/
def Extension.World.start (ts : Option (List Token)) {s : Reading} (hs : s.Ended) :
    Extension.World ts s :=
  ⟨s, false, hs, List.suffix_rfl, fun h => nomatch h⟩

variable {s t : Reading} {n m : Nat} {file source : Bytes}

/-- Readers that are alike without more tokens do the same. -/
theorem Deepens.of_alike {α : Type} {x y : Read α} (hs : s.Ended)
    {Q : Extension.World none s → α → α → Prop} (hQ : ∀ w a a', Q w a a' → a' = a)
    (h : (@extending none (fun _ h => nomatch h) s).Alike (.start none hs) x y Q) :
    Deepens x y s := by
  have hstart : (Extension.World.start none hs).other = s := Extension.other_none
  have hx := h s s ⟨rfl, hstart.symm⟩
  refine ⟨fun a t ha => ?_, fun c t hc hfault => ?_⟩
  · rw [ha] at hx
    obtain ⟨v, a', _, _, ⟨rfl, rfl⟩, hv, hlost | hrun⟩ := hx
    · cases (v.last hlost).1
    · have hother : Extension.World.other v = v.reading := Extension.other_none
      rw [hrun, hQ v a a' hv, hother]
  · rw [hc] at hx
    rcases hx with (hsome | hused) | ⟨_, _, hrun, rfl, rfl⟩
    · cases hsome
    · exact absurd hused hfault
    · exact hrun

theorem assignment_deepens (hs : s.Ended) (h : n ≤ m) : Deepens (assignment n) (assignment m) s :=
  .of_alike hs (fun _ _ _ h => h.2) (assignment_alike h trivial)

theorem items_deepens (hs : s.Ended) (h : n ≤ m) :
    Deepens (items file source n) (items file source m) s :=
  .of_alike hs (fun _ _ _ _ => rfl) (items_alike rfl h ⟨rfl, rfl⟩)

/-! ## More tokens behind the items of a file -/

/-- An item knows where it ends. -/
theorem item_goes {us : List Token} (hus : us ≠ []) (hs : s.Ended) (h : n ≤ m)
    (hrun : item file source n s = .ok () t) :
    s.Took t ∧ item file source m (s.followed us) = .ok () (t.followed us) := by
  have hne : ∀ us' ∈ some us, us' ≠ [] := fun _ h => Option.some.inj h ▸ hus
  have hstart : (Extension.World.start (some us) hs).other = s.followed us :=
    Extension.other_some rfl
  have hitem : (extending hne s).Alike (Extension.World.start (some us) hs) (item file source n)
      (item file source m) _ := item_alike rfl h ⟨rfl, rfl⟩
  have hitem := hitem s _ ⟨rfl, hstart.symm⟩
  rw [hrun] at hitem
  obtain ⟨v, _, _, _, ⟨rfl, rfl⟩, ⟨_, hlost, htook⟩, hrun'⟩ := hitem
  refine ⟨htook, (hrun'.resolve_left fun h => ?_).trans (by rw [Extension.other_some hlost])⟩
  exact absurd (hlost.symm.trans h) Bool.false_ne_true

theorem run_items_of_end (h : s.current.kind = .endOfFile) :
    items file source (n + 1) s = .ok () s := by
  change (if s.current.kind == .endOfFile then pure ()
    else item file source n >>= fun _ => items file source n : Read Unit) s = _
  rw [if_pos (by simp [h])]
  rfl

theorem run_items_of_ne (h : s.current.kind ≠ .endOfFile) :
    items file source (n + 1) s = (item file source n >>= fun _ => items file source n) s := by
  change (if s.current.kind == .endOfFile then pure ()
    else item file source n >>= fun _ => items file source n : Read Unit) s = _
  rw [if_neg (by simp [h])]

/-- **A file is read as the beginning of a longer one.** The items up to its end are read as before
if more tokens follow, and each of them uses up a token of the text and one of the bound. -/
theorem items_goes {us : List Token} (hus : us ≠ []) (hs : s.Ended) (h : n ≤ m)
    (hrun : items file source n s = .ok () t) :
    t.current.kind = .endOfFile ∧ (t = s ∨ s.Took t) ∧
      ∃ k, m + t.left ≤ k + s.left ∧
        items file source m (s.followed us) = items file source k (t.followed us) := by
  induction n generalizing m s with
  | zero => cases hrun
  | succ n ih =>
    obtain ⟨m, rfl⟩ : ∃ k, m = k + 1 := ⟨m - 1, by omega⟩
    have hle : n ≤ m := Nat.le_of_succ_le_succ h
    -- Items end at the end of the file, which is where the other tokens follow.
    by_cases hend : s.current.kind = .endOfFile
    · rw [run_items_of_end hend] at hrun
      cases hrun
      exact ⟨hend, .inl rfl, m + 1, Nat.le_refl _, rfl⟩
    · rw [run_items_of_ne hend] at hrun
      obtain ⟨_, u, hitem, hrest⟩ := run_bind_ok.mp hrun
      -- The item is read alike with more tokens behind, and takes at least one.
      obtain ⟨htook, hitem'⟩ := item_goes hus hs hle hitem
      have hcurrent : (s.followed us).current = s.current := by
        rw [Reading.followed_of_ne (Reading.ahead_ne_nil hs hend)]
      obtain ⟨htend, htaken, k, hk, hgoes⟩ := ih (hs.of_suffix htook.suffix) hle hrest
      refine ⟨htend, .inr ?_, k, ?_, ?_⟩
      · rcases htaken with rfl | htaken
        · exact htook
        · exact htaken.after htook.suffix
      · have hlt := htook.left_lt
        omega
      · rw [run_items_of_ne (by rwa [hcurrent]), run_bind_of_ok hitem', hgoes]

end Grammar

end DirectC
