/-
# What is alike in two readings

Much that is true of one reader is true of all of them, and for the same reason: it is true of the
steps that they are put together from. A `Likeness` says once what that is. It relates two readings,
which may be the same one: their states, the trees that they build, and the complaints with which
they fail. What is known of both at a moment is called a *world*; worlds grow while tokens are read.
Each field of a `Likeness` is about one step or one typing rule, and no field is about a reader that
calls other readers. `Pairing.Alike w x y Q` says that the readers `x` and `y`, started in states
that are alike in the world `w`, have outcomes that are alike, with results of which `Q` holds.
-/
import Mathlib.Data.List.Forall2
import DirectC.Proofs.Bare
import DirectC.Proofs.Grammar.Running
import DirectC.Proofs.Typed

namespace DirectC

namespace Grammar

/-- Which states, outcomes and values of two readings are alike. -/
structure Pairing where
  /-- What is known of both readings at a moment. -/
  World : Type
  /-- A world comes later than another. -/
  Le : World → World → Prop
  /-- States that are alike. -/
  State : World → Reading → Reading → Prop
  /-- Nothing is known of the second reading any more. -/
  Lost : World → Prop
  /-- Complaints of the first reading that say nothing of the second. -/
  Excused : Complaint → Prop
  /-- Failures that are alike: the complaints, and the states behind them. -/
  Fails : World → Complaint → Reading → Complaint → Reading → Prop
  /-- A token was read between two worlds. -/
  Moved : World → World → Prop
  /-- No token was looked at since the last one was read. -/
  Fresh : World → Prop
  /-- Bounds on the depth of both readings, with so many levels to spare. -/
  Enough : Nat → World → Nat → Nat → Prop
  /-- The local names in scope are alike. -/
  Names : World → Prop
  /-- Up to which layer the changes of the state are alike. -/
  layer : Layer
  /-- The files that are read and their texts. -/
  Source : Bytes → Bytes → Bytes → Bytes → Prop
  /-- The tokens to be read next. -/
  Current : World → Token → Token → Prop
  /-- Tokens that have been read. -/
  Taken : World → Token → Token → Prop
  /-- Positions. -/
  Pos : World → Int → Int → Prop
  /-- Types that are read, which are the same in both readings. -/
  Typ : CType → Prop
  /-- Types of which the size is asked. -/
  Sized : CType → Prop
  /-- The layouts of a moment. -/
  Lay : World → Layout → Layout → Prop
  /-- Expressions. -/
  Exp : World → Expr → Expr → Prop
  /-- Expressions that are used for their values. -/
  Val : World → Expr → Expr → Prop
  /-- The signatures of a function. -/
  Sig : World → Bytes → Signature → Signature → Prop
  /-- Parameters. -/
  Prm : World → Param → Param → Prop
  /-- Statements. -/
  Stm : World → Stmt → Stmt → Prop

namespace Pairing

variable (L : Pairing) {α : Type}

/-- **Outcomes that are alike.** -/
def Outcome (w : L.World) (Q : L.World → α → α → Prop)
    (r r' : EStateM.Result Complaint Reading α) : Prop :=
  match r with
  | .ok a t => ∃ v a' t', L.Le w v ∧ L.State v t t' ∧ Q v a a' ∧ (L.Lost v ∨ r' = .ok a' t')
  | .error c t => L.Excused c ∨ ∃ c' t', r' = .error c' t' ∧ L.Fails w c t c' t'

/-- **Readers that are alike**, with results of which `Q` holds. -/
def Alike (w : L.World) (x y : Read α) (Q : L.World → α → α → Prop) : Prop :=
  ∀ s s', L.State w s s' → L.Outcome w Q (x s) (y s')

/-- **Rules that are alike**, with results of which `Q` holds. -/
def Answers (w : L.World) (Q : α → α → Prop) (r r' : Checked α) : Prop :=
  match r with
  | .ok a => ∃ a', r' = .ok a' ∧ Q a a'
  | .error c => L.Excused c ∨
      ∃ c', r' = .error c' ∧ ∀ s s', L.State w s s' → L.Fails w c s c' s'

/-- Results behind a token at least. -/
def Beyond (w : L.World) (Q : L.World → α → α → Prop) : L.World → α → α → Prop :=
  fun v a a' => L.Moved w v ∧ Q v a a'

/-- The same types. -/
def Types : L.World → CType → CType → Prop :=
  fun _ t t' => t' = t ∧ L.Typ t

/-- The same fields. -/
def Fields : L.World → List Field → List Field → Prop :=
  fun _ fs fs' => fs' = fs ∧ ∀ f ∈ fs, L.Typ f.type

/-- Names that have been read. -/
def Name (w : L.World) (t t' : Token) : Prop :=
  L.Taken w t t' ∧ t.kind = .identifier

/-- Names with their types. -/
def Declared (w : L.World) (d d' : CType × Token) : Prop :=
  d'.1 = d.1 ∧ L.Typ d.1 ∧ L.Name w d.2 d'.2

/-- Lengths with their positions. -/
def Lengths (w : L.World) : List (Int64 × Int) → List (Int64 × Int) → Prop :=
  List.Forall₂ fun d d' => d'.1 = d.1 ∧ L.Pos w d.2 d'.2

/-- Arguments with their positions. -/
def Args (w : L.World) : List (Expr × Int) → List (Expr × Int) → Prop :=
  List.Forall₂ fun a a' => L.Val w a.1 a'.1 ∧ L.Pos w a.2 a'.2

/-- Expressions of which the value is dropped. -/
def Eff (w : L.World) (e e' : Expr) : Prop :=
  L.Exp w e e' ∧ (e.type.isVoid ∨ L.Val w e e')

/-- Statements in a row. -/
def Stms (w : L.World) : List Stmt → List Stmt → Prop :=
  List.Forall₂ (L.Stm w)

/-- Results of which nothing is known. -/
abbrev Any : L.World → α → α → Prop :=
  fun _ _ _ => True

end Pairing

/-- A pairing of which the laws of worlds hold and of which all steps on tokens are alike. -/
structure Steps extends Pairing where
  refl : ∀ w, Le w w
  trans : ∀ {u v w}, Le u v → Le v w → Le u w
  /-- There is no way back. -/
  lost : ∀ {w v}, Le w v → Lost w → Lost v
  excused : ∀ {w}, Lost w → ∀ c, Excused c
  fails : ∀ {w v c t c' t'}, Le w v → Fails v c t c' t' → Fails w c t c' t'
  le : ∀ {w v}, Moved w v → Le w v
  moved : ∀ {w u v}, Le w u → Moved u v → Moved w v
  moved_le : ∀ {w u v}, Moved w u → Le u v → Moved w v
  names : ∀ {w v}, Le w v → Names w → Names v
  pos : ∀ {w v p p'}, Le w v → Pos w p p' → Pos v p p'
  taken : ∀ {w v t t'}, Le w v → Taken w t t' → Taken v t t'
  /-- A bound that is not used up is none in the second reading either. -/
  enough_succ : ∀ {c w n m}, Enough c w (n + 1) m → ∃ m', m = m' + 1
  /-- A level takes one from both bounds. -/
  enough_down : ∀ {c w n m}, Enough (c + 1) w (n + 1) (m + 1) → Enough c w n m
  enough_le : ∀ {c c' w n m}, c' ≤ c → Enough c w n m → Enough c' w n m
  enough_mono : ∀ {c w v n m}, Le w v → Enough c w n m → Enough c v n m
  /-- A token pays for two levels. -/
  enough_moved : ∀ {c w v n m}, Moved w v → Enough c w n m → Enough (c + 2) v n m
  /-- A bound that is used up. -/
  used : ∀ {c w m s s'}, Enough c w 0 m → State w s s' →
    Excused ⟨.exhausted, s.current.pos⟩ ∨
      m = 0 ∧ Fails w ⟨.exhausted, s.current.pos⟩ s ⟨.exhausted, s'.current.pos⟩ s'
  /-- Looking at the next token. -/
  current : ∀ {w s s'}, State w s s' → ∃ v u, Le w v ∧ State v s u ∧
    Current v s.current u.current ∧ (Lost v ∨ u = s')
  kind : ∀ {w t t'}, Current w t t' → t'.kind = t.kind
  literal : ∀ {w t t'}, Current w t t' → t'.literal = t.literal
  current_pos : ∀ {w t t'}, Current w t t' → Pos w t.pos t'.pos
  taken_literal : ∀ {w t t'}, Taken w t t' → t'.literal = t.literal
  taken_pos : ∀ {w t t'}, Taken w t t' → Pos w t.pos t'.pos
  /-- Looking at the token behind the next one. If it is another one in the second reading, nothing
  is known of that reading behind the next token, which is the last one. -/
  peek : ∀ {w s s'}, State w s s' →
    (s'.ahead.headD s'.current).kind = (s.ahead.headD s.current).kind ∨
      (∀ c, Excused c) ∧
        (∀ {v t t'}, Moved w v → State v t t' → ∃ v' u, Le v v' ∧ Lost v' ∧ State v' t u) ∧
        ∀ {u v}, Moved w u → ¬ Moved u v
  /-- Going on. -/
  rest : ∀ {w s s'}, State w s s' → ∃ v u, Le w v ∧ State v s.rest u ∧ (Lost v ∨ u = s'.rest)
  /-- Going on from a token that has been looked at. -/
  rest_taken : ∀ {w s s' t t'}, Current w t t' → t.kind ≠ .endOfFile → t.kind ≠ .illegal →
    State w s s' → ∃ v u, Le w v ∧ State v s.rest u ∧ (Lost v ∨ u = s'.rest) ∧ Moved w v ∧
      Fresh v ∧ Taken v t t'
  /-- A complaint about the text. -/
  complaint : ∀ {w p p' s s'} {fault : Fault}, (fault.kind == .internal) = false →
    fault.bare = fault → Pos w p p' → State w s s' →
    Excused ⟨fault, p⟩ ∨ Fails w ⟨fault, p⟩ s ⟨fault, p'⟩ s'
  /-- A complaint about the next token. -/
  unwanted : ∀ {w t t' s s'} {wanted : Wanted}, Current w t t' → State w s s' →
    Excused ⟨.unexpected wanted t, t.pos⟩ ∨
      Fails w ⟨.unexpected wanted t, t.pos⟩ s ⟨.unexpected wanted t', t'.pos⟩ s'

namespace Steps

variable {L : Steps} {w v : L.World} {n m c : Nat}

/-- One level further down, behind a token. -/
theorem enough_again (h : L.Enough c w (n + 1) (m + 1)) (hmoved : L.Moved w v) :
    L.Enough (c + 1) v n m :=
  L.enough_down (L.enough_moved hmoved h)

/-- Names stay names. -/
theorem name {t t' : Token} (h : L.Le w v) (ht : L.Name w t t') : L.Name v t t' :=
  ⟨L.taken h ht.1, ht.2⟩

end Steps

/-! ## Outcomes -/

namespace Pairing.Outcome

variable {L : Steps} {α : Type} {w v : L.World} {Q R : L.World → α → α → Prop}
  {r r' r'' : EStateM.Result Complaint Reading α}

/-- What is alike later is alike. -/
theorem of_le (h : L.Le w v) (hr : L.Outcome v Q r r') : L.Outcome w Q r r' := by
  unfold Outcome at hr ⊢
  split at hr
  · obtain ⟨u, a', t', hle, hrest⟩ := hr
    exact ⟨u, a', t', L.trans h hle, hrest⟩
  · rcases hr with hc | ⟨c', t', hr', hfails⟩
    · exact .inl hc
    · exact .inr ⟨c', t', hr', L.fails h hfails⟩

/-- In a world that is lost, the second outcome does not matter. -/
theorem of_lost (h : L.Lost w) (hr : L.Outcome w Q r r') : L.Outcome w Q r r'' := by
  unfold Outcome at hr ⊢
  split at hr
  · obtain ⟨u, a', t', hle, hs, hQ, -⟩ := hr
    exact ⟨u, a', t', hle, hs, hQ, .inl (L.lost hle h)⟩
  · exact .inl (L.excused h _)

/-- The results may be known less well. -/
theorem mono (hr : L.Outcome w Q r r') (h : ∀ v a a', L.Le w v → Q v a a' → R v a a') :
    L.Outcome w R r r' := by
  unfold Outcome at hr ⊢
  split at hr
  · obtain ⟨u, a', t', hle, hs, hQ, hr'⟩ := hr
    exact ⟨u, a', t', hle, hs, h u _ a' hle hQ, hr'⟩
  · exact hr

/-- What follows steps that are alike. -/
theorem bind {β : Type} {x y : Read α} {f g : α → Read β} {S : L.World → β → β → Prop}
    {s s' : Reading} (hx : L.Outcome w Q (x s) (y s'))
    (hf : ∀ v a a', L.Le w v → Q v a a' → L.Alike v (f a) (g a') S) :
    L.Outcome w S ((x >>= f) s) ((y >>= g) s') := by
  unfold Outcome at hx
  cases hxs : x s with
  | error c t =>
    rw [hxs] at hx
    rw [run_bind_of_error hxs]
    rcases hx with hc | ⟨c', t', hys, hfails⟩
    · exact .inl hc
    · exact .inr ⟨c', t', run_bind_of_error hys, hfails⟩
  | ok a t =>
    rw [hxs] at hx
    obtain ⟨v, a', t', hle, hst, hQ, hys⟩ := hx
    have hf := hf v a a' hle hQ t t' hst
    rw [run_bind_of_ok hxs]
    rcases hys with hlost | hys
    · exact (hf.of_lost hlost).of_le hle
    · rw [run_bind_of_ok hys]
      exact hf.of_le hle

end Pairing.Outcome

namespace Pairing.Alike

variable {L : Steps} {α β : Type} {w v : L.World} {x y : Read α} {f g : α → Read β}
  {Q R : L.World → α → α → Prop} {S : L.World → β → β → Prop} {n m c : Nat}

/-! ## Sequences -/

/-- The results may be known less well. -/
theorem mono (hx : L.Alike w x y Q) (h : ∀ v a a', L.Le w v → Q v a a' → R v a a') :
    L.Alike w x y R :=
  fun s s' hs => (hx s s' hs).mono h

/-- Two steps in a row. The second may rely on what the first one yields. -/
theorem bind (hx : L.Alike w x y Q)
    (hf : ∀ v a a', L.Le w v → Q v a a' → L.Alike v (f a) (g a') S) :
    L.Alike w (x >>= f) (y >>= g) S :=
  fun s s' hs => (hx s s' hs).bind hf

/-- A step that does nothing. -/
theorem pure {a a' : α} (h : Q w a a') : L.Alike w (Pure.pure a) (Pure.pure a') Q :=
  fun _ s' hs => ⟨w, a', s', L.refl w, hs, h, .inr rfl⟩

/-- A step may be left out, in both readings alike. -/
theorem optional {b : Prop} [Decidable b] {z z' : Read β} (hx : L.Alike w x y Q)
    (hz : ∀ v, L.Le w v → L.Alike v z z' S) :
    L.Alike w (if b then x >>= fun _ => z else z) (if b then y >>= fun _ => z' else z') S := by
  split
  · exact .bind hx fun v _ _ hle _ => hz v hle
  · exact hz w (L.refl w)

/-! ## Failures -/

/-- Complaints about the text are alike. -/
theorem fail {fault : Fault} {p p' : Int} (hkind : (fault.kind == .internal) = false)
    (hbare : fault.bare = fault) (hp : L.Pos w p p') :
    L.Alike w (Grammar.fail fault p) (Grammar.fail fault p') Q := by
  intro s s' hs
  rcases L.complaint hkind hbare hp hs with hc | hfails
  · exact .inl hc
  · exact .inr ⟨_, _, rfl, hfails⟩

/-- Nothing follows a step that always fails. -/
theorem stop (hx : L.Alike w x y fun _ _ _ => False) : L.Alike w (x >>= f) (y >>= g) S :=
  .bind hx fun _ _ _ _ h => h.elim

/-- A reader whose bound is used up, and the same reader with a bound that may be larger. -/
theorem exhausted (h : L.Enough c w 0 m) (hy : m = 0 → y = Grammar.exhausted) :
    L.Alike w Grammar.exhausted y Q := by
  intro s s' hs
  rcases L.used h hs with hc | ⟨hm, hfails⟩
  · exact .inl hc
  · rw [hy hm]
    exact .inr ⟨_, _, rfl, hfails⟩

/-! ## Tokens -/

/-- A step that looks at the next token comes first. -/
theorem token {f g : Token → Read β}
    (h : ∀ v t t', L.Le w v → L.Current v t t' → L.Alike v (f t) (g t') S) :
    L.Alike w (Grammar.token >>= f) (Grammar.token >>= g) S := by
  intro s s' hs
  obtain ⟨v, u, hle, hu, hcurrent, hs'⟩ := L.current hs
  have hf := h v _ _ hle hcurrent s u hu
  rcases hs' with hlost | rfl
  · exact (hf.of_lost hlost).of_le hle
  · exact hf.of_le hle

/-- A step that looks at the kind of the next token comes first. -/
theorem kind {f g : Token.Kind → Read β}
    (h : ∀ v t t', L.Le w v → L.Current v t t' → L.Alike v (f t.kind) (g t.kind) S) :
    L.Alike w (Grammar.kind >>= f) (Grammar.kind >>= g) S := by
  refine token (f := fun t => f t.kind) (g := fun t => g t.kind) fun v t t' hle ht => ?_
  rw [L.kind ht]
  exact h v t t' hle ht

/-- A step that looks at the position of the next token comes first. -/
theorem position {f g : Int → Read β}
    (h : ∀ v p p', L.Le w v → L.Pos v p p' → L.Alike v (f p) (g p') S) :
    L.Alike w (Grammar.position >>= f) (Grammar.position >>= g) S :=
  token (f := fun t => f t.pos) (g := fun t => g t.pos) fun v _ _ hle ht =>
    h v _ _ hle (L.current_pos ht)

/-- A step that looks whether the next token has a kind comes first. -/
theorem isAt {k : Token.Kind} {f g : Bool → Read β}
    (h : ∀ v t t', L.Le w v → L.Current v t t' →
      L.Alike v (f (t.kind == k)) (g (t.kind == k)) S) :
    L.Alike w (Grammar.isAt k >>= f) (Grammar.isAt k >>= g) S :=
  kind (f := fun k' => f (k' == k)) (g := fun k' => g (k' == k)) h

/-- A step that looks at the kind of the token behind the next one comes first. A token is read
after it, whatever that kind is. -/
theorem peekKind {f g : Token.Kind → Read β}
    (hS : ∀ v v' b b', L.Le v v' → S v b b' → S v' b b')
    (h : ∀ k, L.Alike w (f k) (g k) (L.Beyond w S)) :
    L.Alike w (Grammar.peekKind >>= f) (Grammar.peekKind >>= g) S := by
  intro s s' hs
  change L.Outcome w S (f (s.ahead.headD s.current).kind s)
    (g (s'.ahead.headD s'.current).kind s')
  have hf := h (s.ahead.headD s.current).kind s s' hs
  rcases L.peek hs with hkind | ⟨hexcused, hmoved, _⟩
  · rw [hkind]
    exact hf.mono fun _ _ _ _ hQ => hQ.2
  · unfold Outcome at hf ⊢
    split at hf
    · obtain ⟨v, b', t', hle, ht, hQ, -⟩ := hf
      obtain ⟨v', u, hle', hlost, hu⟩ := hmoved hQ.1 ht
      exact ⟨v', b', u, L.trans hle hle', hu, hS v v' _ _ hle' hQ.2, .inl hlost⟩
    · exact .inl (hexcused _)

/-- A step that looks at the kind of the token behind the next one comes first. Two tokens are read
after it, whatever that kind is. -/
theorem peekKind_twice {f g : Token.Kind → Read β}
    (h : ∀ k, L.Alike w (f k) (g k) fun v b b' => (∃ u, L.Moved w u ∧ L.Moved u v) ∧ S v b b') :
    L.Alike w (Grammar.peekKind >>= f) (Grammar.peekKind >>= g) S := by
  intro s s' hs
  change L.Outcome w S (f (s.ahead.headD s.current).kind s)
    (g (s'.ahead.headD s'.current).kind s')
  have hf := h (s.ahead.headD s.current).kind s s' hs
  rcases L.peek hs with hkind | ⟨hexcused, _, hlast⟩
  · rw [hkind]
    exact hf.mono fun _ _ _ _ hQ => hQ.2
  · unfold Outcome at hf ⊢
    split at hf
    · obtain ⟨_, _, _, _, _, ⟨⟨u, hu, hv⟩, _⟩, _⟩ := hf
      exact absurd hv (hlast hu)
    · exact .inl (hexcused _)

/-- Going on to the next token. -/
theorem next : L.Alike w Grammar.next Grammar.next L.Any := by
  intro s s' hs
  obtain ⟨v, u, hle, hu, hs'⟩ := L.rest hs
  rw [run_next, run_next]
  refine ⟨v, (), u, hle, hu, trivial, ?_⟩
  rcases hs' with hlost | rfl
  · exact .inl hlost
  · exact .inr rfl

/-- Going on from a token that has been looked at. -/
theorem take {t t' : Token} (ht : L.Current w t t') (hend : t.kind ≠ .endOfFile)
    (hlegal : t.kind ≠ .illegal) :
    L.Alike w Grammar.next Grammar.next
      fun v _ _ => L.Moved w v ∧ L.Fresh v ∧ L.Taken v t t' := by
  intro s s' hs
  obtain ⟨v, u, hle, hu, hs', hrest⟩ := L.rest_taken ht hend hlegal hs
  rw [run_next, run_next]
  refine ⟨v, (), u, hle, hu, hrest, ?_⟩
  rcases hs' with hlost | rfl
  · exact .inl hlost
  · exact .inr rfl

/-- What is not expected is complained about alike. -/
theorem unexpected {wanted : Wanted} :
    L.Alike w (Grammar.unexpected wanted) (Grammar.unexpected wanted) Q := by
  refine .token fun v t t' _ ht => ?_
  rw [L.kind ht, L.literal ht]
  split
  · split
    · exact .fail rfl rfl (L.current_pos ht)
    · exact .fail rfl rfl (L.current_pos ht)
  · intro s s' hs
    rcases L.unwanted ht hs with hc | hfails
    · exact .inl hc
    · exact .inr ⟨_, _, rfl, hfails⟩

/-- A token of a kind is read. -/
theorem expect {k : Token.Kind} (hend : k ≠ .endOfFile) (hlegal : k ≠ .illegal) :
    L.Alike w (Grammar.expect k) (Grammar.expect k)
      fun v t t' => L.Moved w v ∧ L.Fresh v ∧ L.Taken v t t' ∧ t.kind = k := by
  refine .token fun v t t' hle ht => ?_
  rw [L.kind ht]
  split
  · rename_i hk
    have hk := eq_of_beq hk
    refine .bind (.take ht (ne_of_eq_of_ne hk hend) (ne_of_eq_of_ne hk hlegal)) ?_
    intro u _ _ _ ⟨hmoved, hfresh, htaken⟩
    exact .pure ⟨L.moved hle hmoved, hfresh, htaken, hk⟩
  · exact .unexpected

/-- An operator or delimiter is read. -/
theorem expectPunct {p : Punct} :
    L.Alike w (Grammar.expectPunct p) (Grammar.expectPunct p)
      fun v _ _ => L.Moved w v ∧ L.Fresh v :=
  (expect (by simp) (by simp)).mono fun _ _ _ _ h => ⟨h.1, h.2.1⟩

/-- A step that takes an operator if it is there comes first. -/
theorem accept {p : Punct} {f g : Bool → Read β}
    (hyes : ∀ v, L.Moved w v → L.Fresh v → L.Alike v (f true) (g true) S)
    (hno : ∀ v, L.Le w v → L.Alike v (f false) (g false) S) :
    L.Alike w (Grammar.accept p >>= f) (Grammar.accept p >>= g) S := by
  have hbind : ∀ h : Bool → Read β, Grammar.accept p >>= h = Grammar.isAt (.punct p) >>= fun b =>
      if b then Grammar.next >>= fun _ => h true else h false := by
    intro h
    unfold Grammar.accept
    rw [bind_assoc]
    refine bind_congr fun b => ?_
    cases b with
    | false => rfl
    | true => simp only [if_true, bind_assoc, pure_bind]
  rw [hbind, hbind]
  refine .isAt fun v t t' hle ht => ?_
  split
  · rename_i hk
    have hk := eq_of_beq hk
    refine .bind (.take ht (by simp [hk]) (by simp [hk])) fun u _ _ _ hu => ?_
    exact hyes u (L.moved hle hu.1) hu.2.1
  · exact hno v hle

/-- A struct, if its members are read alike and what they define is alike. -/
theorem structType {members members' : Bytes → Read (List Field)} {t t' : Token}
    (hstruct : ∀ name, L.Typ (.struct name))
    (hdefine : ∀ v name name' fields, L.Moved w v → L.Name v name name' →
      (∀ f ∈ fields, L.Typ f.type) →
      L.Alike v (defineStruct name fields) (defineStruct name' fields) L.Any)
    (ht : L.Current w t t') (hk : t.kind = .keyword .struct)
    (hmembers : ∀ v name, L.Moved w v → L.Alike v (members name) (members' name) L.Fields) :
    L.Alike w (Grammar.structType members) (Grammar.structType members') (L.Beyond w L.Types) := by
  refine .bind (.take ht (by simp [hk]) (by simp [hk])) fun v1 _ _ _ ⟨hmoved, _⟩ => ?_
  refine .bind (.expect (by simp) (by simp)) fun v2 name name' h2 ⟨_, _, hname, hkind⟩ => ?_
  rw [L.taken_literal hname]
  have hmoved : ∀ v, L.Le v2 v → L.Moved w v := fun v hle => L.moved_le hmoved (L.trans h2 hle)
  have hdone : ∀ v, L.Le v2 v → L.Alike v (Pure.pure (CType.struct name.literal))
      (Pure.pure (CType.struct name.literal)) (L.Beyond w L.Types) :=
    fun v hle => .pure ⟨hmoved v hle, rfl, hstruct _⟩
  refine .accept (fun v3 h3 _ => ?_) hdone
  have h3 := L.le h3
  have hbody : L.Alike v3 (structBody name (members name.literal))
      (structBody name' (members' name.literal)) L.Any := by
    refine .bind (hmembers v3 _ (hmoved v3 h3)) fun v4 fields fields' h4 hfields => ?_
    obtain ⟨rfl, htypes⟩ := hfields
    have h4 := L.trans h3 h4
    exact hdefine v4 name name' _ (hmoved v4 h4) ⟨L.taken h4 hname, hkind⟩ htypes
  exact .bind hbody fun v5 _ _ h5 _ => hdone v5 (L.trans h3 h5)

end Pairing.Alike

/-! ## Rules and declarations -/

/-- **A likeness**: a pairing of which all steps and all typing rules are alike. -/
structure Likeness extends Steps where
  exp : ∀ {w v e e'}, Le w v → Exp w e e' → Exp v e e'
  val : ∀ {w v e e'}, Le w v → Val w e e' → Val v e e'
  sig : ∀ {w v name s s'}, Le w v → Sig w name s s' → Sig v name s s'
  prm : ∀ {w v p p'}, Le w v → Prm w p p' → Prm v p p'
  stm : ∀ {w v t t'}, Le w v → Stm w t t' → Stm v t t'
  exp_of_val : ∀ {w e e'}, Val w e e' → Exp w e e'
  type : ∀ {w e e'}, Exp w e e' → e'.type = e.type
  isPlace : ∀ {w e e'}, Exp w e e' → e'.isPlace = e.isPlace
  sized : ∀ {t}, Typ t → Sized t
  sized_type : ∀ {w e e'}, Exp w e e' → Sized e.type
  assignable : ∀ {w e e'} {type : CType}, Val w e e' → assignable type e' = assignable type e
  /-- A constant. -/
  int : ∀ {w p p'} {n : Int32}, Pos w p p' → Val w (.int n p) (.int n p')
  typ_int : Typ .int
  typ_char : Typ .char
  typ_void : Typ .void
  typ_pointer : ∀ {t}, Typ t → Typ (.pointer t)
  lay : ∀ {w s s'}, State w s s' → Lay w s.env.layout s'.env.layout
  size : ∀ {w l l' p p' t}, Lay w l l' → Pos w p p' → Sized t →
    toSteps.Answers w (fun n n' => n' = n) (located p (l.size t)) (located p' (l'.size t))
  alignment : ∀ {w l l' p p' t}, Lay w l l' → Pos w p p' → Sized t →
    toSteps.Answers w (fun n n' => n' = n) (located p (l.alignment t)) (located p' (l'.alignment t))
  /-- An array of characters. -/
  characters : ∀ {w l l' p p'} {n : Int64}, Lay w l l' → Pos w p p' →
    toSteps.Answers w (fun t t' => t' = t ∧ t = .array .char n ∧ Typ t)
      (located p (l.array .char n)) (located p' (l'.array .char n))
  arrayOf : ∀ {w l l' ds ds' t}, Lay w l l' → Typ t → toSteps.Lengths w ds ds' →
    toSteps.Answers w (fun t t' => t' = t ∧ Typ t) (arrayOf l t ds) (arrayOf l' t ds')
  rvalue : ∀ {w e e'}, Exp w e e' → toSteps.Answers w (Val w) (rvalue e) (rvalue e')
  deref : ∀ {w p p' e e'}, Pos w p p' → Val w e e' →
    toSteps.Answers w (Exp w) (deref p e) (deref p' e')
  addressOf : ∀ {w p p' e e'}, Pos w p p' → Exp w e e' →
    toSteps.Answers w (Exp w) (addressOf p e) (addressOf p' e')
  binary : ∀ {w l l' op p p' a a' b b'}, Lay w l l' → Pos w p p' → Val w a a' → Val w b b' →
    toSteps.Answers w (Val w) (binary l op p a b) (binary l' op p' a' b')
  assign : ∀ {w l l'} {op : BinaryOp} {p p' a a' b b'}, op.isAssign → Lay w l l' → Pos w p p' →
    Exp w a a' → Exp w b b' → toSteps.Answers w (Val w) (assign l op p a b) (assign l' op p' a' b')
  /-- A member of a struct. -/
  dot : ∀ {w l l' p p' e e' struct name name'}, Lay w l l' → Pos w p p' → Exp w e e' →
    e.type = .struct struct → e.isPlace → toSteps.Name w name name' →
    toSteps.Answers w (Exp w)
      (member l p (.unary .addr p e (.pointer (.struct struct))) struct name)
      (member l' p' (.unary .addr p' e' (.pointer (.struct struct))) struct name')
  /-- A member of the struct that a pointer points at. -/
  arrow : ∀ {w l l' p p' e e' struct name name'}, Lay w l l' → Pos w p p' → Val w e e' →
    e.type.deref? = some (.struct struct) → toSteps.Name w name name' →
    toSteps.Answers w (Exp w) (member l p e struct name) (member l' p' e' struct name')
  arguments : ∀ {w function index args args' types}, toSteps.Args w args args' →
    toSteps.Answers w (fun _ _ => True) (checkArguments function index args types)
      (checkArguments function index args' types)
  params : ∀ {w name sig sig'}, Sig w name sig sig' → sig'.params = sig.params
  ret : ∀ {w name sig sig'}, Sig w name sig sig' → sig'.ret = sig.ret
  /-- A call whose arguments fit. -/
  call : ∀ {w sig sig' name name' args args'}, Sig w name.literal sig sig' →
    toSteps.Name w name name' → toSteps.Args w args args' → args.length = sig.params.length →
    checkArguments name.literal 1 args sig.params = .ok () →
    Exp w (.call name.literal name.pos (args.map (·.1)) sig.ret)
      (.call name.literal name'.pos (args'.map (·.1)) sig.ret)
  eval : ∀ {w e e'}, toSteps.Eff w e e' → Stm w (.eval e) (.eval e')
  exit : ∀ {w p p' e e'}, Pos w p p' → Val w e e' → e.type.isInteger →
    Stm w (.exit e p) (.exit e' p')
  retNone : ∀ {w p p'}, Pos w p p' → Stm w (.ret none p) (.ret none p')
  retSome : ∀ {w p p' e e'}, Pos w p p' → Val w e e' → Stm w (.ret (some e) p) (.ret (some e') p')
  ifThen : ∀ {w e e' a a'}, Val w e e' → Stm w a a' → Stm w (.ifThen e a) (.ifThen e' a')
  ifElse : ∀ {w e e' a a' b b'}, Val w e e' → Stm w a a' → Stm w b b' →
    Stm w (.ifElse e a b) (.ifElse e' a' b')
  loop : ∀ {w e e' a a'}, Val w e e' → Stm w a a' → Stm w (.loop e a) (.loop e' a')
  block : ∀ {w as as'}, toSteps.Stms w as as' → Stm w (.block as) (.block as')
  /-- A scope is opened. -/
  push : ∀ {w s s'}, layer.Bodies → State w s s' →
    ∃ v, Le w v ∧ State v { s with scope := s.scope.push } { s' with scope := s'.scope.push }
  /-- A scope is closed. -/
  pop : ∀ {w s s'}, layer.Bodies → State w s s' →
    ∃ v, Le w v ∧ State v { s with scope := s.scope.pop } { s' with scope := s'.scope.pop }
  fails_pop : ∀ {w c s c' s'}, layer.Bodies → Fails w c s c' s' →
    Fails w c { s with scope := s.scope.pop } c' { s' with scope := s'.scope.pop }
  resolve : ∀ {w name name'}, Names w → toSteps.Name w name name' →
    toSteps.Alike w (resolve name) (resolve name') Exp
  callee : ∀ {w name name'}, Names w → toSteps.Name w name name' →
    toSteps.Alike w (callee name) (callee name') fun v => Sig v name.literal
  /-- A string is taken into the pool. -/
  pooled : ∀ {w p p'} {value : Bytes}, Pos w p p' →
    Typ (.array .char (.ofNat (value.length + 1))) →
    toSteps.Alike w (pooled value p (.array .char (.ofNat (value.length + 1))))
      (pooled value p' (.array .char (.ofNat (value.length + 1)))) Exp
  /-- A struct is defined behind its body. -/
  struct : ∀ {w t t' n m}, Current w t t' → t.kind = .keyword .struct →
    (∀ v name, Moved w v → toSteps.Alike v (members name n) (members name m) toSteps.Fields) →
    toSteps.Alike w (structType fun name => members name n) (structType fun name => members name m)
      (toSteps.Beyond w toSteps.Types)
  addLocal : ∀ {w name name' type l l' n}, layer.Bodies → Names w → toSteps.Name w name name' →
    Typ type → type.isVoid = false → Lay w l l' → l.size type = .ok n →
    toSteps.Alike w (addLocal type name) (addLocal type name') Exp
  addParameter : ∀ {w name name' type}, layer.Heads → Names w → toSteps.Name w name name' →
    Typ type → type.decay ≠ .void → (∀ struct, type.decay ≠ .struct struct) →
    toSteps.Alike w (addParameter type.decay name) (addParameter type.decay name') Prm
  addGlobal : ∀ {w name name' type}, layer = .file → toSteps.Name w name name' → Typ type →
    type.isVoid = false → toSteps.Alike w (addGlobal type name) (addGlobal type name') toSteps.Any
  enter : ∀ {w}, layer = .file → toSteps.Alike w enterFunction enterFunction fun v _ _ => Names v
  declareFunction : ∀ {w ret name name' params params'}, layer = .file → toSteps.Name w name name' →
    Typ ret → (∀ struct, ret ≠ .struct struct) → (∀ elem length, ret ≠ .array elem length) →
    List.Forall₂ (Prm w) params params' →
    toSteps.Alike w (declareFunction ret name params) (declareFunction ret name' params')
      toSteps.Any
  defineFunction : ∀ {w file source file' source' ret name name' params params' body body'},
    layer = .file → Names w → Source file source file' source' → toSteps.Name w name name' →
    List.Forall₂ (Prm w) params params' → toSteps.Stms w body body' →
    toSteps.Alike w (defineFunction file source ret name params body)
      (defineFunction file' source' ret name' params' body') fun v _ _ => Fresh w → Fresh v

namespace Likeness

variable {L : Likeness} {w v : L.World}

/-- Parameters stay parameters. -/
theorem prms {ps ps' : List Param} (h : L.Le w v) (hp : List.Forall₂ (L.Prm w) ps ps') :
    List.Forall₂ (L.Prm v) ps ps' :=
  hp.imp fun _ _ hp => L.prm h hp

/-- Statements stay statements. -/
theorem stms {ss ss' : List Stmt} (h : L.Le w v) (hs : L.Stms w ss ss') : L.Stms v ss ss' :=
  hs.imp fun _ _ hs => L.stm h hs

/-- Expressions behind a token stay behind it. -/
theorem beyond_exp {u : L.World} {e e' : Expr} (h : L.Le u v) (he : L.Beyond w L.Exp u e e') :
    L.Beyond w L.Exp v e e' :=
  ⟨L.moved_le he.1 h, L.exp h he.2⟩

end Likeness

/-! ## Outcomes and answers that are known -/

section Known

variable {L : Pairing} {α : Type} {w v : L.World} {t t' : Reading}

/-- Two steps that succeed. -/
theorem Pairing.Outcome.ok {Q : L.World → α → α → Prop} {a a' : α} (hle : L.Le w v)
    (hs : L.State v t t') (hQ : Q v a a') : L.Outcome w Q (.ok a t) (.ok a' t') :=
  ⟨v, a', t', hle, hs, hQ, .inr rfl⟩

/-- Two steps that fail. -/
theorem Pairing.Outcome.error {Q : L.World → α → α → Prop} {c c' : Complaint}
    (h : L.Fails w c t c' t') : L.Outcome w Q (.error c t) (.error c' t') :=
  .inr ⟨c', t', rfl, h⟩

/-- A rule and itself. -/
theorem Pairing.Answers.same {Q : α → α → Prop} {r : Checked α} (hok : ∀ a, r = .ok a → Q a a)
    (herror : ∀ c s s', r = .error c → L.State w s s' → L.Fails w c s c s') :
    L.Answers w Q r r := by
  cases r with
  | ok a => exact ⟨a, rfl, hok a rfl⟩
  | error c => exact .inr ⟨c, rfl, fun s s' => herror c s s' rfl⟩

/-- Lengths are the same if positions are. -/
theorem Pairing.Lengths.eq {ds ds' : List (Int64 × Int)} (h : L.Lengths w ds ds')
    (hpos : ∀ p p', L.Pos w p p' → p' = p) : ds' = ds := by
  induction h with
  | nil => rfl
  | cons hd _ ih => rw [ih, Prod.ext hd.1 (hpos _ _ hd.2)]

/-- Arguments are the same if values and positions are. -/
theorem Pairing.Args.eq {args args' : List (Expr × Int)} (h : L.Args w args args')
    (hval : ∀ e e', L.Val w e e' → e' = e) (hpos : ∀ p p', L.Pos w p p' → p' = p) :
    args' = args := by
  induction h with
  | nil => rfl
  | cons ha _ ih => rw [ih, Prod.ext (hval _ _ ha.1) (hpos _ _ ha.2)]

/-- A list and itself, element by element. -/
theorem eq_of_forall₂ {α : Type} {P : α → Prop} {as as' : List α}
    (h : List.Forall₂ (fun a a' => a' = a ∧ P a) as as') : as' = as ∧ ∀ a ∈ as, P a := by
  induction h with
  | nil => exact ⟨rfl, by simp⟩
  | cons ha _ ih =>
    obtain ⟨rfl, ha⟩ := ha
    obtain ⟨rfl, has⟩ := ih
    exact ⟨rfl, List.forall_mem_cons.mpr ⟨ha, has⟩⟩

end Known

end Grammar

end DirectC
