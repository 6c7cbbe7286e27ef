/-
# The segments of a text

`Spans P x` says that the reader `x` reads a segment of the text of which `P` holds. What types and
expressions are read from is told by brackets and separators alone: their brackets match, and
outside of brackets there is no comma and no semicolon (`Enclosed`). So where an expression ends
does not depend on what is in it.
-/
import DirectC.Proofs.Grammar.Keeping

namespace DirectC

namespace Grammar

/-! ## Brackets -/

/-- The bracket that closes a bracket. -/
def closer? : Token.Kind → Option Token.Kind
  | .punct .leftParen => some (.punct .rightParen)
  | .punct .leftBracket => some (.punct .rightBracket)
  | .punct .leftBrace => some (.punct .rightBrace)
  | _ => none

/-- Tokens that separate. -/
def separates : Token.Kind → Bool
  | .punct .comma | .punct .semicolon => true
  | _ => false

/-- Tokens that neither are brackets nor separate. -/
def ordinary : Token.Kind → Bool
  | .punct .leftParen | .punct .leftBracket | .punct .leftBrace => false
  | .punct .rightParen | .punct .rightBracket | .punct .rightBrace => false
  | .punct .comma | .punct .semicolon | .endOfFile => false
  | _ => true

/-- **Tokens with matching brackets.** If they are not `loose`, nothing separates them outside of
the brackets. -/
inductive Enclosed : (loose : Bool) → List Token → Prop where
  | nil {loose : Bool} : Enclosed loose []
  | ordinary {loose : Bool} {t : Token} {ts : List Token} (ht : ordinary t.kind = true)
    (h : Enclosed loose ts) : Enclosed loose (t :: ts)
  | separator {t : Token} {ts : List Token} (ht : separates t.kind = true)
    (h : Enclosed true ts) : Enclosed true (t :: ts)
  | group {loose : Bool} {o c : Token} {inner ts : List Token}
    (hoc : closer? o.kind = some c.kind) (hinner : Enclosed true inner) (h : Enclosed loose ts) :
    Enclosed loose (o :: (inner ++ c :: ts))

/-- Tokens with matching brackets up to a bracket that closes. -/
def Closing (c : Token.Kind) (ts : List Token) : Prop :=
  ∃ inner t, ts = inner ++ [t] ∧ Enclosed true inner ∧ t.kind = c

/-- Stars. -/
def Stars (ts : List Token) : Prop :=
  ∀ t ∈ ts, t.kind = .punct .star

/-- Numbers in brackets. -/
inductive Dimensions : List Token → Prop where
  | nil : Dimensions []
  | cons {o n c : Token} {ts : List Token} (ho : o.kind = .punct .leftBracket)
    (hn : n.kind = .number) (hc : c.kind = .punct .rightBracket) (h : Dimensions ts) :
    Dimensions (o :: n :: c :: ts)

/-- A name with its stars and lengths. -/
def Declarator (name : Token) (ts : List Token) : Prop :=
  ∃ stars dims, ts = stars ++ name :: dims ∧ Stars stars ∧ name.kind = .identifier ∧
    Dimensions dims

/-- A base type: a word, or a struct with or without its body. -/
inductive BaseType : List Token → Prop where
  | word {t : Token} (ht : t.kind ∈ [.keyword .int, .keyword .char, .keyword .void]) : BaseType [t]
  | struct {t name : Token} (ht : t.kind = .keyword .struct) (hname : name.kind = .identifier) :
    BaseType [t, name]
  | body {t name o : Token} {ts : List Token} (ht : t.kind = .keyword .struct)
    (hname : name.kind = .identifier) (ho : o.kind = .punct .leftBrace)
    (h : Closing (.punct .rightBrace) ts) : BaseType (t :: name :: o :: ts)

variable {loose : Bool} {ts us : List Token}

/-- What is enclosed can be put in a row. -/
theorem Enclosed.append (h : Enclosed loose ts) (h' : Enclosed loose us) :
    Enclosed loose (ts ++ us) := by
  induction h with
  | nil => exact h'
  | ordinary ht _ ih => exact .ordinary ht (ih h')
  | separator ht _ ih => exact .separator ht (ih h')
  | group hoc hinner _ _ ih =>
    rw [List.cons_append, List.append_assoc, List.cons_append]
    exact .group hoc hinner (ih h')

/-- A bracket with what it opens counts as one enclosed token. -/
theorem Enclosed.open {o : Token} {c : Token.Kind} (hoc : closer? o.kind = some c)
    (h : Closing c ts) (h' : Enclosed loose us) : Enclosed loose (o :: (ts ++ us)) := by
  obtain ⟨inner, t, rfl, hinner, rfl⟩ := h
  rw [List.append_assoc]
  exact .group hoc hinner h'

/-- Enclosed tokens before a closing bracket are inside of it. -/
theorem Closing.append {c : Token.Kind} (h : Enclosed true ts) (h' : Closing c us) :
    Closing c (ts ++ us) := by
  obtain ⟨inner, t, rfl, hinner, ht⟩ := h'
  exact ⟨ts ++ inner, t, (List.append_assoc ..).symm, h.append hinner, ht⟩

/-- Stars are no brackets. -/
theorem Stars.enclosed (h : Stars ts) : Enclosed loose ts := by
  induction ts with
  | nil => exact .nil
  | cons t ts ih =>
    have ht : t.kind = .punct .star := h t List.mem_cons_self
    exact .ordinary (by rw [ht]; rfl) (ih fun t' ht' => h t' (List.mem_cons_of_mem _ ht'))

/-- Each length stands in brackets of its own. -/
theorem Dimensions.enclosed (h : Dimensions ts) : Enclosed loose ts := by
  induction h with
  | nil => exact .nil
  | @cons o n c ts ho hn hc _ ih =>
    have hinner : Enclosed true [n] := .ordinary (by rw [hn]; rfl) .nil
    exact .group (by rw [ho, hc]; rfl) hinner ih

/-- A declarator is enclosed: stars, a name, and lengths in brackets. -/
theorem Declarator.enclosed {name : Token} (h : Declarator name ts) : Enclosed loose ts := by
  obtain ⟨stars, dims, rfl, hstars, hname, hdims⟩ := h
  exact hstars.enclosed.append (.ordinary (by rw [hname]; rfl) hdims.enclosed)

/-- A type is enclosed, also if it is a struct with a body. -/
theorem BaseType.enclosed (h : BaseType ts) : Enclosed loose ts := by
  cases h with
  | word ht =>
    simp only [List.mem_cons, List.not_mem_nil, or_false] at ht
    rcases ht with ht | ht | ht <;> exact .ordinary (by rw [ht]; rfl) .nil
  | struct ht hname =>
    exact .ordinary (by rw [ht]; rfl) (.ordinary (by rw [hname]; rfl) .nil)
  | @body t name o ts ht hname ho h =>
    have hgroup : Enclosed loose (o :: (ts ++ [])) := .open (by rw [ho]; rfl) h .nil
    rw [List.append_nil] at hgroup
    exact .ordinary (by rw [ht]; rfl) (.ordinary (by rw [hname]; rfl) hgroup)

/-! ## Steps -/

/-- A reader reads a segment from a state on. -/
def SpansAt {α : Type} (P : α → List Token → Prop) (x : Read α) (s : Reading) : Prop :=
  ∀ a t, x s = .ok a t → ∃ ts, P a ts ∧ s.text = ts ++ t.text

/-- **What a reader reads**: segments of which `P` holds with the result. -/
def Spans {α : Type} (P : α → List Token → Prop) (x : Read α) : Prop :=
  ∀ s, s.Ended → SpansAt P x s

/-- A reader reads segments of which `P` holds, whatever its result is. -/
abbrev Covers {α : Type} (P : List Token → Prop) (x : Read α) : Prop :=
  Spans (fun _ => P) x

/-- A step that reads no token. -/
abbrev Quiet {α : Type} (x : Read α) : Prop :=
  Covers (· = []) x

variable {s t : Reading} {c : Token.Kind}

section Steps

variable {α β : Type} {x : Read α} {f : α → Read β} {P : α → List Token → Prop}
  {Q : α → β → List Token → Prop} {R : β → List Token → Prop} {M N : List Token → Prop}

/-- What is left of a text still has its end. -/
theorem Reading.Ended.of_text (hs : s.Ended) (h : s.text = ts ++ t.text) : t.Ended := by
  have hsuffix : t.text <:+ s.text := ⟨ts, h.symm⟩
  rw [Reading.Ended, hsuffix.getLast (List.cons_ne_nil _ _)]
  exact hs

/-- The segments of two steps side by side. -/
theorem Spans.bind (hx : Spans P x) (hf : ∀ a, Spans (Q a) (f a))
    (h : ∀ a b ts us, P a ts → Q a b us → R b (ts ++ us)) : Spans R (x >>= f) := by
  intro s hs b u hb
  obtain ⟨a, t, hxs, hft⟩ := run_bind_ok.mp hb
  obtain ⟨ts, hts, htext⟩ := hx s hs a t hxs
  obtain ⟨us, hus, htext'⟩ := hf a t (hs.of_text htext) b u hft
  exact ⟨ts ++ us, h a b ts us hts hus, by rw [htext, htext', List.append_assoc]⟩

/-- A step that takes no tokens comes first. -/
theorem Spans.step (hx : Quiet x) (hf : ∀ a, Spans R (f a)) : Spans R (x >>= f) := by
  refine .bind hx hf fun _ _ ts us hts hus => ?_
  rwa [hts, List.nil_append]

/-- A step that does nothing takes no tokens. -/
theorem Spans.pure {a : α} (h : P a []) : Spans P (Pure.pure a) := by
  intro s _ b t hb
  cases hb
  exact ⟨[], h, rfl⟩

/-- A step that looks at the state. -/
theorem look_quiet {g : Reading → α} : Quiet (fun s => .ok (g s) s) := by
  intro s _ b t hb
  cases hb
  exact ⟨[], rfl, rfl⟩

/-- A typing rule takes no tokens. -/
theorem checked_quiet {r : Checked α} : Quiet (checked r) := by
  cases r with
  | ok a => exact .pure rfl
  | error e => exact fun _ _ _ _ h => absurd h error_ne_ok

/-- Of a failure anything can be said. -/
theorem fail_spans {fault : Fault} {pos : Int} : Spans P (fail fault pos) :=
  fun _ _ _ _ h => absurd h error_ne_ok

/-- Nothing follows a failure. -/
theorem fail_bind_spans {fault : Fault} {pos : Int} : Spans R (fail fault pos >>= f) :=
  fun _ _ _ _ h => absurd h error_ne_ok

/-- A bound that is used up is a failure, too. -/
theorem exhausted_spans : Spans P exhausted :=
  fun _ _ _ _ h => absurd h error_ne_ok

theorem unexpected_spans {wanted : Wanted} : Spans P (unexpected wanted) :=
  fun _ _ _ _ h => absurd h unexpected_ne

theorem unexpected_bind_spans {wanted : Wanted} : Spans R (unexpected wanted >>= f) :=
  fun _ _ _ _ h => absurd h unexpected_bind_ne

/-- A quiet step comes last. -/
theorem Spans.last (hx : Covers M x) (hf : ∀ a, Quiet (f a)) : Covers M (x >>= f) := by
  refine .bind hx hf fun _ _ ts us hts hus => ?_
  rwa [hus, List.append_nil]

/-- Of the tokens less may be said. -/
theorem Spans.mono (hx : Covers M x) (h : ∀ ts, M ts → N ts) : Covers N x := by
  intro s hs a t hxs
  obtain ⟨ts, hts, htext⟩ := hx s hs a t hxs
  exact ⟨ts, h ts hts, htext⟩

/-- Enclosed tokens in two steps are enclosed together. -/
theorem Spans.append (hx : Covers (Enclosed loose) x) (hf : ∀ a, Covers (Enclosed loose) (f a)) :
    Covers (Enclosed loose) (x >>= f) :=
  .bind hx hf fun _ _ _ _ => .append

/-- Something stands in front of the closing bracket. -/
theorem Spans.closing (hx : Covers (Enclosed true) x) (hf : ∀ a, Covers (Closing c) (f a)) :
    Covers (Closing c) (x >>= f) :=
  .bind hx hf fun _ _ _ _ => .append

/-- A step that looks at the state comes first. -/
theorem SpansAt.look {g : Reading → α} (h : SpansAt R (f (g s)) s) :
    SpansAt R ((fun s => .ok (g s) s : Read α) >>= f) s :=
  h

/-- Going on from any token but the end of file. -/
theorem next_spans {f : Unit → Read β} (hs : s.Ended) (hne : s.current.kind ≠ .endOfFile)
    (hf : Covers M (f ())) (h : ∀ ts, M ts → N (s.current :: ts)) :
    SpansAt (fun _ => N) (next >>= f) s := by
  intro b u hb
  rw [run_bind_of_ok (run_next s)] at hb
  have htext := Reading.text_eq_of_ne hs hne
  obtain ⟨ts, hts, hrest⟩ := hf s.rest (Reading.rest_ended hs) b u hb
  exact ⟨s.current :: ts, h ts hts, by rw [htext, hrest, List.cons_append]⟩

/-- The end of file is no ordinary token. -/
theorem ne_endOfFile_of_ordinary {kind : Token.Kind} (h : ordinary kind = true) :
    kind ≠ .endOfFile := by
  rintro rfl
  cases h

/-- The end of file opens nothing. -/
theorem ne_endOfFile_of_closer {kind : Token.Kind} (h : closer? kind = some c) :
    kind ≠ .endOfFile := by
  rintro rfl
  cases h

/-- An ordinary token is passed, and what follows is enclosed. -/
theorem next_ordinary {f : Unit → Read β} (hs : s.Ended) (ho : ordinary s.current.kind = true)
    (hf : Covers (Enclosed loose) (f ())) : SpansAt (fun _ => Enclosed loose) (next >>= f) s :=
  next_spans hs (ne_endOfFile_of_ordinary ho) hf fun _ => .ordinary ho

/-- An opening bracket, and all up to the one that closes it. -/
theorem next_group {f : Unit → Read β} (hs : s.Ended) (ho : closer? s.current.kind = some c)
    (hf : Covers (Closing c) (f ())) : SpansAt (fun _ => Enclosed loose) (next >>= f) s := by
  refine next_spans hs (ne_endOfFile_of_closer ho) hf fun ts hts => ?_
  rw [← List.append_nil ts]
  exact .open ho hts .nil

/-- More follows the closing bracket. -/
theorem next_group_bind {f : α → Read β} (hs : s.Ended) (ho : closer? s.current.kind = some c)
    (hx : Covers (Closing c) x) (hf : ∀ a, Covers (Enclosed loose) (f a)) :
    SpansAt (fun _ => Enclosed loose) (next >>= fun _ => x >>= f) s := by
  refine next_spans (M := fun ts => Enclosed loose (s.current :: ts)) hs
    (ne_endOfFile_of_closer ho) ?_ fun _ h => h
  exact .bind hx hf fun _ _ ts us hts hus => .open ho hts hus

/-- The token that is expected is the one that is taken. -/
theorem expect_spans {kind : Token.Kind} (h : kind ≠ .endOfFile) :
    Spans (fun tok ts => ts = [tok] ∧ tok.kind = kind) (expect kind) := by
  intro s hs tok t ht
  obtain ⟨hkind, rfl, hnext⟩ := expect_ok ht
  rw [run_next] at hnext
  cases hnext
  exact ⟨[s.current], ⟨rfl, hkind⟩, Reading.text_eq_of_ne hs (ne_of_eq_of_ne hkind h)⟩

/-- An operator or delimiter that is expected is the one token. -/
theorem expectPunct_spans {p : Punct} :
    Spans (fun tok ts => ts = [tok] ∧ tok.kind = .punct p) (expectPunct p) :=
  expect_spans (by simp)

/-- An ordinary token alone is enclosed. -/
theorem expect_ordinary {kind : Token.Kind} (h : ordinary kind = true) :
    Covers (Enclosed loose) (expect kind) := by
  intro s hs tok t ht
  obtain ⟨ts, ⟨rfl, hkind⟩, htext⟩ := expect_spans (ne_endOfFile_of_ordinary h) s hs tok t ht
  exact ⟨[tok], .ordinary (hkind ▸ h) .nil, htext⟩

/-- Inside of brackets a separator is enclosed, too. -/
theorem expect_separator {p : Punct} (h : separates (.punct p) = true) :
    Covers (Enclosed true) (expectPunct p) := by
  intro s hs tok t ht
  obtain ⟨ts, ⟨rfl, hkind⟩, htext⟩ := expectPunct_spans s hs tok t ht
  exact ⟨[tok], .separator (hkind ▸ h) .nil, htext⟩

/-- A closing bracket alone closes what is open. -/
theorem expect_closing {p : Punct} : Covers (Closing (.punct p)) (expectPunct p) := by
  intro s hs tok t ht
  obtain ⟨ts, ⟨rfl, hkind⟩, htext⟩ := expectPunct_spans s hs tok t ht
  exact ⟨[tok], ⟨[], tok, rfl, .nil, hkind⟩, htext⟩

/-- An operator may be there or not. -/
theorem accept_spans {p : Punct} {y z : Read β} {P Q : β → List Token → Prop} (hy : Spans P y)
    (hz : Spans Q z) (hyes : ∀ b tok ts, tok.kind = .punct p → P b ts → R b (tok :: ts))
    (hno : ∀ b ts, Q b ts → R b ts) : Spans R (do if ← accept p then y else z) := by
  intro s hs b u hb
  by_cases h : s.current.kind = .punct p
  · rw [run_bind_of_ok (run_accept h), if_pos rfl] at hb
    have htext := Reading.text_eq_of_ne hs (ne_of_eq_of_ne h (by simp))
    obtain ⟨ts, hts, hrest⟩ := hy s.rest (Reading.rest_ended hs) b u hb
    exact ⟨s.current :: ts, hyes b _ ts h hts, by rw [htext, hrest, List.cons_append]⟩
  · rw [run_bind_of_ok (run_accept_of_ne h), if_neg Bool.false_ne_true] at hb
    obtain ⟨ts, hts, htext⟩ := hz s hs b u hb
    exact ⟨ts, hno b ts hts, htext⟩

/-- The closing bracket may be there at once. -/
theorem accept_closing {p : Punct} {y z : Read β} (hy : Quiet y)
    (hz : Covers (Closing (.punct p)) z) :
    Covers (Closing (.punct p)) (do if ← accept p then y else z) := by
  refine accept_spans hy hz (fun _ tok ts htok hts => ?_) fun _ _ h => h
  rw [hts]
  exact ⟨[], tok, rfl, .nil, htok⟩

/-- A separator may have to stand in front. -/
theorem Spans.separated {b : Prop} [Decidable b] {p : Punct} {y : Read β}
    (hp : separates (.punct p) = true) (hy : Covers (Closing c) y) :
    Covers (Closing c) (if b then expectPunct p >>= fun _ => y else y) := by
  split
  · exact .closing (expect_separator hp) fun _ => hy
  · exact hy

end Steps

/-! ## Types -/

/-- Behind a type pointers are stars. -/
theorem pointers_covers {fuel : Nat} {type : CType} : Covers Stars (pointers fuel type) := by
  induction fuel generalizing type with
  | zero => exact exhausted_spans
  | succ fuel ih =>
    have hnone : Stars [] := by simp [Stars]
    refine accept_spans ih (.pure (P := fun _ => Stars) hnone) (fun _ tok ts htok hts => ?_)
      fun _ _ h => h
    exact List.forall_mem_cons.mpr ⟨htok, hts⟩

/-- A number and the bracket behind it. -/
theorem dimension_covers : Covers (fun ts => ∃ n c, ts = [n, c] ∧ n.kind = .number ∧
    c.kind = .punct .rightBracket) dimension := by
  refine .bind (expect_spans (by simp)) (Q := fun _ _ ts => ∃ c, ts = [c] ∧
    c.kind = .punct .rightBracket) (fun tok => ?_) ?_
  · dsimp only
    split
    · exact fail_bind_spans
    · refine .bind (expect_spans (by simp)) (fun _ => .pure (P := fun _ ts => ts = []) rfl) ?_
      rintro c _ _ _ ⟨rfl, hc⟩ rfl
      exact ⟨c, rfl, hc⟩
  · rintro n _ _ _ ⟨rfl, hn⟩ ⟨c, rfl, hc⟩
    exact ⟨n, c, rfl, hn, hc⟩

/-- The lengths of an array, each in its brackets. -/
theorem dimensions_covers {fuel : Nat} : Covers Dimensions (dimensions fuel) := by
  induction fuel with
  | zero => exact exhausted_spans
  | succ fuel ih =>
    refine accept_spans (P := fun _ ts => ∃ n c ds, ts = n :: c :: ds ∧ n.kind = .number ∧
      c.kind = .punct .rightBracket ∧ Dimensions ds) ?_
      (.pure (P := fun _ => Dimensions) .nil) ?_ fun _ _ h => h
    · refine .bind dimension_covers (fun _ => ih.last fun _ => .pure rfl) ?_
      rintro _ _ _ ds ⟨n, c, rfl, hn, hc⟩ hds
      exact ⟨n, c, ds, rfl, hn, hc, hds⟩
    · rintro _ o _ ho ⟨n, c, ds, rfl, hn, hc, hds⟩
      exact .cons ho hn hc hds

/-- Looking up the element takes no more tokens than the lengths. -/
theorem arraySuffix_covers {fuel : Nat} {elem : CType} :
    Covers Dimensions (arraySuffix fuel elem) :=
  dimensions_covers.last fun _ => .step look_quiet fun _ => checked_quiet

/-- The name that a declarator yields is the one among its tokens. -/
theorem declarator_spans {fuel : Nat} {base : CType} :
    Spans (fun a ts => Declarator a.2 ts) (declarator fuel base) := by
  refine .bind pointers_covers (Q := fun _ a ts => ∃ dims, ts = a.2 :: dims ∧
    a.2.kind = .identifier ∧ Dimensions dims) (fun _ => ?_) ?_
  · refine .bind (expect_spans (by simp)) (Q := fun name a ts => a.2 = name ∧ Dimensions ts)
      (fun name => ?_) ?_
    · refine .bind arraySuffix_covers (Q := fun _ a ts => a.2 = name ∧ ts = [])
        (fun _ => .pure ⟨rfl, rfl⟩) ?_
      rintro _ a ts _ hts ⟨ha, rfl⟩
      exact ⟨ha, by rwa [List.append_nil]⟩
    · rintro _ a _ ds ⟨rfl, hname⟩ ⟨rfl, hds⟩
      exact ⟨ds, rfl, hname, hds⟩
  · rintro _ a stars _ hstars ⟨dims, rfl, hname, hdims⟩
    exact ⟨stars, dims, rfl, hstars, hname, hdims⟩

/-- Declarators have no open ends. -/
theorem declarator_covers {fuel : Nat} {base : CType} :
    Covers (Enclosed loose) (declarator fuel base) := by
  intro s hs a t h
  obtain ⟨ts, hts, htext⟩ := declarator_spans s hs a t h
  exact ⟨ts, hts.enclosed, htext⟩

/-- Members in a row have commas between them, so they are enclosed only inside of braces. -/
theorem memberDeclarators_covers {struct : Bytes} {base : CType} {fuel : Nat} :
    Covers (Enclosed true) (memberDeclarators struct base fuel) := by
  induction fuel with
  | zero => exact exhausted_spans
  | succ fuel ih =>
    refine .append declarator_covers fun _ => ?_
    dsimp only
    split
    · exact fail_bind_spans
    · refine accept_spans (ih.last fun _ => .pure rfl)
        (Spans.pure (P := fun _ => Enclosed true) .nil) (fun _ tok ts htok hts => ?_) fun _ _ h => h
      exact .separator (by rw [htok]; rfl) hts

/-- The name of a struct and its body, if there is one, behind the keyword. -/
def StructRest (ts : List Token) : Prop :=
  ∃ name rest, ts = name :: rest ∧ name.kind = .identifier ∧ (rest = [] ∨
    ∃ o inner, rest = o :: inner ∧ o.kind = .punct .leftBrace ∧ Closing (.punct .rightBrace) inner)

/-- The keyword `struct` makes a type of what follows it. -/
theorem StructRest.baseType {tok : Token} (h : StructRest ts)
    (htok : tok.kind = .keyword .struct) : BaseType (tok :: ts) := by
  obtain ⟨name, rest, rfl, hname, rfl | ⟨o, inner, rfl, ho, hinner⟩⟩ := h
  · exact .struct htok hname
  · exact .body htok hname ho hinner

/-- A struct is defined behind its tokens. -/
theorem defineStruct_quiet {name : Token} {fields : List Field} :
    Quiet (defineStruct name fields) := by
  refine .step look_quiet fun _ => .step checked_quiet fun l => ?_
  intro s _ a t h
  cases h
  exact ⟨[], rfl, rfl⟩

/-- A struct is read from its keyword on. -/
theorem structType_spans {members : Bytes → Read (List Field)}
    (hm : ∀ struct, Covers (Closing (.punct .rightBrace)) (members struct)) (hs : s.Ended)
    (hk : s.current.kind = .keyword .struct) :
    SpansAt (fun _ => BaseType) (structType members) s := by
  refine next_spans (M := StructRest) hs (ne_of_eq_of_ne hk (by simp)) ?_ fun _ hts =>
    hts.baseType hk
  refine .bind (expect_spans (by simp)) (Q := fun _ _ rest => rest = [] ∨
    ∃ o inner, rest = o :: inner ∧ o.kind = .punct .leftBrace ∧
      Closing (.punct .rightBrace) inner) (fun name => ?_) ?_
  · refine accept_spans (P := fun _ => Closing (.punct .rightBrace)) (Q := fun _ ts => ts = [])
      ?_ (.pure rfl) (fun _ o inner ho hinner => .inr ⟨o, inner, rfl, ho, hinner⟩)
      fun _ _ h => .inl h
    exact .last (.last (hm _) fun _ => defineStruct_quiet) fun _ => .pure rfl
  · rintro name _ _ rest ⟨rfl, hname⟩ hrest
    exact ⟨name, rest, rfl, hname, hrest⟩

/-- Both readers go by one induction on the fuel. -/
theorem baseType_members_covers (fuel : Nat) :
    Covers BaseType (baseType fuel) ∧
      ∀ struct, Covers (Closing (.punct .rightBrace)) (members struct fuel) := by
  induction fuel with
  | zero =>
    refine ⟨?_, fun struct => ?_⟩
    · rw [baseType]
      exact exhausted_spans
    · rw [members]
      exact exhausted_spans
  | succ fuel ih =>
    refine ⟨fun s hs => ?_, fun struct => ?_⟩
    · rw [baseType]
      refine .look ?_
      -- The three words for types are one token each.
      have hword : ∀ (type : CType) {kind : Token.Kind}, s.current.kind = kind →
          kind ∈ [.keyword .int, .keyword .char, .keyword .void] → kind ≠ .endOfFile →
          SpansAt (fun _ => BaseType) (do next; return type) s := by
        intro type kind hkind hword hne
        refine next_spans (M := (· = [])) hs (ne_of_eq_of_ne hkind hne) (.pure rfl) ?_
        rintro _ rfl
        exact .word (hkind ▸ hword)
      split
      · rename_i h
        exact hword _ h (by decide) (by simp)
      · rename_i h
        exact hword _ h (by decide) (by simp)
      · rename_i h
        exact hword _ h (by decide) (by simp)
      · rename_i h
        exact structType_spans ih.2 hs h
      · exact unexpected_spans s hs
    · rw [members]
      refine accept_closing (.pure rfl) (.step look_quiet fun _ => ?_)
      dsimp only
      split
      · exact unexpected_bind_spans
      · exact .closing (ih.1.mono fun _ => BaseType.enclosed) fun _ =>
          .closing memberDeclarators_covers fun _ => .closing (expect_separator rfl) fun _ =>
            (ih.2 struct).last fun _ => .pure rfl

/-- The tokens of a type. -/
theorem baseType_covers {fuel : Nat} : Covers BaseType (baseType fuel) :=
  (baseType_members_covers fuel).1

/-- The type in a cast or behind `sizeof` has no open ends. -/
theorem typeName_covers {fuel : Nat} : Covers (Enclosed loose) (typeName fuel) :=
  .append (baseType_covers.mono fun _ => BaseType.enclosed) fun _ =>
    .append (pointers_covers.mono fun _ => Stars.enclosed) fun _ =>
      arraySuffix_covers.mono fun _ => Dimensions.enclosed

/-! ## Binary operators -/

/-- Two operands are joined when their tokens have been read. -/
theorem join_quiet {op : LevelOp} {pos : Int} {left right : Expr} :
    Quiet (join op pos left right) := by
  refine .step checked_quiet fun _ => .step checked_quiet fun _ => .step look_quiet fun _ => ?_
  split <;> exact checked_quiet

/-- Operators that neither are brackets nor separate. -/
def Ordinary (level : List LevelOp) : Prop :=
  ∀ op ∈ level, ordinary (.punct op.punct) = true

/-- No binary operator is a bracket or a separator. -/
theorem ordinary_levels : ∀ level ∈ levels, Ordinary level := by
  unfold Ordinary
  decide

/-- A token that a level knows as its operator is ordinary. -/
theorem ordinary_of_findOp {level : List LevelOp} {kind : Token.Kind} {op : LevelOp}
    (hl : Ordinary level) (h : findOp level kind = some op) : ordinary kind = true := by
  have hkind := List.find?_some h
  rw [beq_iff_eq.mp hkind]
  exact hl op (List.mem_of_find?_eq_some h)

/-- Operands of a level with operators between them. -/
theorem chain_covers {operand : Read Expr} (ho : Covers (Enclosed loose) operand)
    {level : List LevelOp} (hl : Ordinary level) {fuel : Nat} {left : Expr} :
    Covers (Enclosed loose) (chain operand level fuel left) := by
  induction fuel generalizing left with
  | zero => exact exhausted_spans
  | succ fuel ih =>
    intro s hs
    refine .look ?_
    split
    · exact Spans.pure (P := fun _ => Enclosed loose) .nil s hs
    · rename_i hop
      exact next_ordinary hs (ordinary_of_findOp hl hop) (.append ho fun _ =>
        .step join_quiet fun _ => ih)

/-- All levels of operators take enclosed tokens if operands do. -/
theorem cascade_covers {operand : Read Expr} (ho : Covers (Enclosed loose) operand) {fuel : Nat}
    {levels : List (List LevelOp)} (hl : ∀ level ∈ levels, Ordinary level) :
    Covers (Enclosed loose) (cascade operand fuel levels) := by
  induction levels with
  | nil => exact ho
  | cons level tighter ih =>
    have htighter := ih fun level' h => hl level' (List.mem_cons_of_mem _ h)
    exact .append htighter fun _ => chain_covers htighter (hl level List.mem_cons_self)

/-! ## Primary expressions -/

/-- Looking up a variable takes no tokens. -/
theorem resolve_quiet {name : Token} : Quiet (resolve name) := by
  refine .step look_quiet fun _ => ?_
  split
  · exact .pure rfl
  · refine .step look_quiet fun _ => ?_
    split
    · exact .pure rfl
    · split <;> exact fail_spans

/-- Looking up a function takes no tokens. -/
theorem callee_quiet {name : Token} : Quiet (callee name) := by
  refine .step look_quiet fun _ => ?_
  dsimp only
  split
  · exact fail_bind_spans
  · refine .step look_quiet fun _ => ?_
    split
    · exact .pure rfl
    · split <;> exact fail_spans

/-- An argument takes the tokens of its expression. -/
theorem argument_covers {expr : Read Expr} (he : Covers (Enclosed true) expr) :
    Covers (Enclosed true) (argument expr) :=
  .step look_quiet fun _ => he.last fun _ => .step checked_quiet fun _ => .pure rfl

/-- Arguments take all tokens up to the closing parenthesis of the call. -/
theorem arguments_covers {expr : Read Expr} (he : Covers (Enclosed true) expr) {fuel : Nat}
    {first : Bool} : Covers (Closing (.punct .rightParen)) (arguments expr fuel first) := by
  induction fuel generalizing first with
  | zero => exact exhausted_spans
  | succ fuel ih =>
    exact accept_closing (.pure rfl) (.separated rfl (.closing (argument_covers he) fun _ =>
      ih.last fun _ => .pure rfl))

/-- A call is read from its name on. The bracket stands right behind it. -/
theorem call_covers {expr : Read Expr} (he : Covers (Enclosed true) expr) {name : Token}
    {fuel : Nat} (hs : s.Ended) (hname : s.current.kind = .identifier)
    (hopen : (s.ahead.headD s.current).kind = .punct .leftParen) :
    SpansAt (fun _ => Enclosed loose) (call name expr fuel) s := by
  have hordinary : ordinary s.current.kind = true := by rw [hname]; rfl
  intro e t h
  unfold call at h
  rw [run_bind_of_ok (run_next s)] at h
  have hclosing : closer? s.rest.current.kind = some (.punct .rightParen) := by
    rw [Reading.rest_current, hopen]
    rfl
  obtain ⟨ts, hts, htext⟩ := next_group (Reading.rest_ended hs) hclosing
    (.step callee_quiet fun sig => (arguments_covers he).last fun args => by
      dsimp only
      split
      · exact fail_bind_spans
      · exact .step checked_quiet fun _ => .pure rfl) e t h
  refine ⟨s.current :: ts, .ordinary hordinary hts, ?_⟩
  rw [Reading.text_eq_of_ne hs (ne_endOfFile_of_ordinary hordinary), htext, List.cons_append]

/-- Strings in a row are ordinary tokens. -/
theorem adjacentStrings_covers {fuel : Nat} :
    Covers (Enclosed loose) (adjacentStrings fuel) := by
  induction fuel with
  | zero => exact exhausted_spans
  | succ fuel ih =>
    intro s hs
    refine .look ?_
    split
    · rename_i h
      exact next_ordinary hs (by rw [eq_of_beq h]; rfl) (ih.last fun _ => .pure rfl)
    · exact Spans.pure (P := fun _ => Enclosed loose) .nil s hs

/-- A string literal is read from its first string on. -/
theorem stringLiteral_covers {first : Token} {fuel : Nat} (hs : s.Ended)
    (hk : s.current.kind = .string) :
    SpansAt (fun _ => Enclosed loose) (stringLiteral first fuel) s := by
  refine next_ordinary hs (by rw [hk]; rfl) ?_
  refine adjacentStrings_covers.last fun _ => .step look_quiet fun _ => .step checked_quiet
    fun _ => ?_
  intro s _ a t h
  cases h
  exact ⟨[], rfl, rfl⟩

/-- Whatever a primary expression opens, it closes. -/
theorem primary_covers {expr : Read Expr} (he : Covers (Enclosed true) expr) {fuel : Nat} :
    Covers (Enclosed loose) (primary expr fuel) := by
  have hend : ∀ e : Expr, Covers (Enclosed loose) (Pure.pure e) := fun _ => .pure .nil
  intro s hs
  refine .look ?_
  split
  · rename_i h
    refine next_ordinary hs (by rw [h]; rfl) ?_
    dsimp only
    split
    · exact fail_spans
    · exact hend _
  · rename_i h
    exact next_ordinary hs (by rw [h]; rfl) (hend _)
  · exact stringLiteral_covers hs ‹_›
  · rename_i h
    refine .look ?_
    split
    · rename_i hopen
      exact call_covers he hs h (eq_of_beq hopen)
    · exact next_ordinary hs (by rw [h]; rfl) (resolve_quiet.mono fun _ hts => hts ▸ .nil)
  · rename_i h
    exact next_group hs (by rw [h]; rfl) (.closing he fun _ => expect_closing.last fun _ =>
      .pure rfl)
  · exact unexpected_spans s hs

/-! ## Postfix operators -/

/-- An index goes up to its closing bracket. -/
theorem indexed_covers {expr : Read Expr} (he : Covers (Enclosed true) expr) {pos : Int}
    {e : Expr} : Covers (Closing (.punct .rightBracket)) (indexed expr pos e) :=
  .closing he fun _ => .step checked_quiet fun _ => expect_closing.last fun _ =>
    .step checked_quiet fun _ => .step look_quiet fun _ => .step checked_quiet fun _ =>
      checked_quiet

/-- A member takes its name. -/
theorem dotMember_covers {pos : Int} {e : Expr} : Covers (Enclosed loose) (dotMember pos e) := by
  refine (expect_ordinary rfl).last fun _ => ?_
  split
  · exact .step look_quiet fun _ => checked_quiet
  · exact fail_spans

/-- A member behind an arrow takes its name. -/
theorem arrowMember_covers {pos : Int} {e : Expr} :
    Covers (Enclosed loose) (arrowMember pos e) := by
  refine (expect_ordinary rfl).last fun _ => .step checked_quiet fun _ => ?_
  split
  · exact .step look_quiet fun _ => checked_quiet
  · exact fail_spans

/-- A step up or down has been read with its operator. -/
theorem stepped_quiet {op undo : BinaryOp} {pos : Int} {e : Expr} :
    Quiet (stepped op undo pos e) :=
  .step look_quiet fun _ => .step checked_quiet fun _ => checked_quiet

/-- Whatever a postfix operator opens, it closes. -/
theorem postfixes_covers {expr : Read Expr} (he : Covers (Enclosed true) expr) {fuel : Nat}
    {e : Expr} : Covers (Enclosed loose) (postfixes expr fuel e) := by
  induction fuel generalizing e with
  | zero => exact exhausted_spans
  | succ fuel ih =>
    intro s hs
    refine .look ?_
    split
    · rename_i h
      exact next_group_bind hs (by rw [h]; rfl) (indexed_covers he) fun _ => ih
    · rename_i h
      exact next_ordinary hs (by rw [h]; rfl) (.append dotMember_covers fun _ => ih)
    · rename_i h
      exact next_ordinary hs (by rw [h]; rfl) (.append arrowMember_covers fun _ => ih)
    · rename_i h
      exact next_ordinary hs (by rw [h]; rfl) (.step stepped_quiet fun _ => ih)
    · rename_i h
      exact next_ordinary hs (by rw [h]; rfl) (.step stepped_quiet fun _ => ih)
    · exact Spans.pure (P := fun _ => Enclosed loose) .nil s hs

/-! ## Expressions -/

/-- A size is looked up when its type has been read. -/
theorem measure_quiet {kind : Token.Kind} {pos : Int} {type : CType} :
    Quiet (measure kind pos type) :=
  .step look_quiet fun _ => .step checked_quiet fun _ => .pure rfl

/-- A measure is read from its keyword on. -/
theorem measured_covers {fuel : Nat} {operand : Read Expr} {kind : Token.Kind} {pos : Int}
    (ho : Covers (Enclosed loose) operand) (hs : s.Ended)
    (hk : ordinary s.current.kind = true) :
    SpansAt (fun _ => Enclosed loose) (measured (typeName fuel) operand kind pos) s := by
  refine next_ordinary hs hk ?_
  intro t ht
  refine .look (.look ?_)
  split
  · rename_i h
    have hopen : t.current.kind = .punct .leftParen := eq_of_beq (Bool.and_eq_true_iff.mp h).1
    exact next_group ht (by rw [hopen]; rfl) (.closing typeName_covers fun _ =>
      expect_closing.last fun _ => measure_quiet)
  · exact (ho.last fun _ => measure_quiet) t ht

/-- Signs are ordinary tokens. -/
theorem ordinary_of_signOp {kind : Token.Kind} {op : BinaryOp} (h : signOp? kind = some op) :
    ordinary kind = true := by
  unfold signOp? at h
  split at h
  · rfl
  · rfl
  · rfl
  · cases h

/-- Assignment operators are ordinary tokens. -/
theorem ordinary_of_assignOp {kind : Token.Kind} {op : BinaryOp} (h : assignOp? kind = some op) :
    ordinary kind = true := by
  unfold assignOp? at h
  split at h
  · rfl
  · rfl
  · rfl
  · cases h

/-- Both readers go by one induction on the fuel. -/
theorem assignment_unary_covers (fuel : Nat) :
    (∀ loose, Covers (Enclosed loose) (assignment fuel)) ∧
      ∀ loose, Covers (Enclosed loose) (unary fuel) := by
  -- The same induction as for every fact about expressions, for both readers at once.
  induction fuel with
  | zero =>
    refine ⟨fun loose => ?_, fun loose => ?_⟩
    · rw [assignment]
      exact exhausted_spans
    · rw [unary]
      exact exhausted_spans
  | succ fuel ih =>
    refine ⟨fun loose => ?_, fun loose s hs => ?_⟩
    · rw [assignment]
      refine .append (cascade_covers (ih.2 loose) ordinary_levels) fun _ => ?_
      intro s hs
      refine .look ?_
      split
      · exact Spans.pure (P := fun _ => Enclosed loose) .nil s hs
      · rename_i hop
        exact next_ordinary hs (ordinary_of_assignOp hop) ((ih.1 loose).last fun _ =>
          .step look_quiet fun _ => checked_quiet)
    · rw [unary]
      refine .look ?_
      split
      · rename_i hop
        exact next_ordinary hs (ordinary_of_signOp hop) ((ih.2 loose).last fun _ =>
          .step checked_quiet fun _ => .step look_quiet fun _ => checked_quiet)
      · split
        · rename_i h
          exact next_ordinary hs (by rw [h]; rfl) ((ih.2 loose).last fun _ =>
            .step checked_quiet fun _ => checked_quiet)
        · rename_i h
          exact next_ordinary hs (by rw [h]; rfl) ((ih.2 loose).last fun _ => checked_quiet)
        · rename_i h
          exact next_ordinary hs (by rw [h]; rfl) ((ih.2 loose).last fun _ =>
            .step look_quiet fun _ => checked_quiet)
        · rename_i h
          exact next_ordinary hs (by rw [h]; rfl) ((ih.2 loose).last fun _ =>
            .step look_quiet fun _ => checked_quiet)
        · rename_i h
          exact measured_covers (ih.2 loose) hs (by rw [h]; rfl)
        · rename_i h
          exact measured_covers (ih.2 loose) hs (by rw [h]; rfl)
        · have hpostfix : Covers (Enclosed loose) (do
              postfixes (assignment fuel) fuel (← primary (assignment fuel) fuel)) :=
            .append (primary_covers (ih.1 true)) fun _ => postfixes_covers (ih.1 true)
          exact hpostfix s hs

/-- **Expressions have no open ends**: whatever they open, they close. -/
theorem assignment_covers {fuel : Nat} : Covers (Enclosed loose) (assignment fuel) :=
  (assignment_unary_covers fuel).1 loose

/-- An expression that is used for its value has the tokens of the expression. -/
theorem value_covers {fuel : Nat} : Covers (Enclosed loose) (value fuel) :=
  assignment_covers.last fun _ => checked_quiet

/-- An expression whose value is dropped has the tokens of the expression. -/
theorem effect_covers {fuel : Nat} : Covers (Enclosed loose) (effect fuel) := by
  refine assignment_covers.last fun _ => ?_
  split
  · exact .pure rfl
  · exact checked_quiet

/-! ## How expressions begin -/

/-- Tokens that start an expression. -/
def startsExpression : Token.Kind → Bool
  | .number | .character | .string | .identifier => true
  | .punct .leftParen | .punct .plus | .punct .minus | .punct .not => true
  | .punct .star | .punct .ampersand | .punct .increment | .punct .decrement => true
  | .keyword .sizeof | .keyword .alignof => true
  | _ => false

/-- A reader succeeds from a state only if an expression starts there. -/
def StartsAt {α : Type} (x : Read α) (s : Reading) : Prop :=
  ∀ a t, x s = .ok a t → startsExpression s.current.kind = true

/-- A reader that succeeds only where an expression starts. -/
def Starts {α : Type} (x : Read α) : Prop :=
  ∀ s, StartsAt x s

section Starts

variable {α β : Type} {x : Read α} {f : α → Read β}

/-- The first step says how a reader starts. -/
theorem Starts.bind (hx : Starts x) : Starts (x >>= f) := by
  intro s b u h
  obtain ⟨a, t, hxs, -⟩ := run_bind_ok.mp h
  exact hx s a t hxs

/-- A step that looks at the state comes first. -/
theorem StartsAt.look {g : Reading → α} (h : StartsAt (f (g s)) s) :
    StartsAt ((fun s => .ok (g s) s : Read α) >>= f) s :=
  h

/-- The token at hand can start an expression. -/
theorem StartsAt.of_kind {kind : Token.Kind} (h : s.current.kind = kind)
    (hkind : startsExpression kind = true) : StartsAt x s := by
  intro _ _ _
  rw [h, hkind]

end Starts

/-- A primary expression starts with one of the tokens for it. -/
theorem primary_starts {expr : Read Expr} {fuel : Nat} : Starts (primary expr fuel) := by
  intro s
  refine .look ?_
  split
  · exact .of_kind ‹_› rfl
  · exact .of_kind ‹_› rfl
  · exact .of_kind ‹_› rfl
  · exact .of_kind ‹_› rfl
  · exact .of_kind ‹_› rfl
  · exact fun _ _ h => absurd h unexpected_ne

/-- Signs start expressions. -/
theorem startsExpression_of_signOp {kind : Token.Kind} {op : BinaryOp}
    (h : signOp? kind = some op) : startsExpression kind = true := by
  unfold signOp? at h
  split at h
  · rfl
  · rfl
  · rfl
  · cases h

/-- Operands start with a prefix operator or a primary expression. -/
theorem unary_starts {fuel : Nat} : Starts (unary fuel) := by
  cases fuel with
  | zero =>
    rw [unary]
    exact fun _ _ _ h => absurd h error_ne_ok
  | succ fuel =>
    intro s
    rw [unary]
    refine .look ?_
    split
    · exact .of_kind rfl (startsExpression_of_signOp ‹_›)
    · split
      · exact .of_kind ‹_› rfl
      · exact .of_kind ‹_› rfl
      · exact .of_kind ‹_› rfl
      · exact .of_kind ‹_› rfl
      · exact .of_kind ‹_› rfl
      · exact .of_kind ‹_› rfl
      · exact primary_starts.bind s

/-- A row of operands starts with the first one. -/
theorem cascade_starts {operand : Read Expr} (ho : Starts operand) {fuel : Nat}
    (levels : List (List LevelOp)) : Starts (cascade operand fuel levels) := by
  induction levels with
  | nil => exact ho
  | cons level tighter ih => exact ih.bind

/-- Assignments start with the place that is assigned. -/
theorem assignment_starts {fuel : Nat} : Starts (assignment fuel) := by
  cases fuel with
  | zero =>
    rw [assignment]
    exact fun _ _ _ h => absurd h error_ne_ok
  | succ fuel =>
    rw [assignment]
    exact (cascade_starts unary_starts levels).bind

theorem value_starts {fuel : Nat} : Starts (value fuel) :=
  assignment_starts.bind

theorem effect_starts {fuel : Nat} : Starts (effect fuel) :=
  assignment_starts.bind

/-- **What an expression is read from.** -/
structure Phrase (ts : List Token) : Prop where
  starts : ∃ first more, ts = first :: more ∧ startsExpression first.kind = true
  enclosed : Enclosed false ts

/-- A reader that takes a token, starts as an expression does and leaves nothing open takes a
phrase. -/
theorem phrase_covers {x : Read Expr} (hc : Consumes x) (hstarts : Starts x)
    (hx : Covers (Enclosed false) x) : Covers Phrase x := by
  intro s hs e t h
  obtain ⟨ts, hts, htext⟩ := hx s hs e t h
  cases ts with
  | nil =>
    have hlt := hc s hs e t h
    have hlength := congrArg List.length htext
    simp [Reading.text, Reading.left] at hlt hlength
    omega
  | cons first more =>
    have hfirst : s.current = first := (List.cons.inj htext).1
    exact ⟨first :: more, ⟨⟨first, more, rfl, hfirst ▸ hstarts s e t h⟩, hts⟩, htext⟩

/-- **The tokens of an expression are a phrase.** -/
theorem assignment_phrase {fuel : Nat} : Covers Phrase (assignment fuel) :=
  phrase_covers assignment_consumes assignment_starts assignment_covers

theorem value_phrase {fuel : Nat} : Covers Phrase (value fuel) :=
  phrase_covers value_consumes value_starts value_covers

theorem effect_phrase {fuel : Nat} : Covers Phrase (effect fuel) :=
  phrase_covers effect_consumes effect_starts effect_covers

end Grammar

end DirectC
