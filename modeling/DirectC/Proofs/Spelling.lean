/-
# Texts and their tokens

`Spells text ts` says that the tokens of a text are `ts`, without counting bytes: a token is what
stands behind the blanks and comments, and the rest of the text spells the rest of the tokens. The
scanner finds these tokens, whatever place it starts from (`Token.scan_spells`), and no others are
spelled (`Spells.unique`). A newline ends every token and every line comment, so the tokens of two
texts with a newline between them are the tokens of the first and then those of the second
(`Token.scan_append`), unless the first one breaks off inside a comment.
-/
import DirectC.Proofs.Bare
import DirectC.Proofs.Scanner

namespace DirectC

namespace Scan

/-! ## Blanks and comments -/

mutual

/-- The text behind the blanks and comments that it starts with, if these are closed. -/
def skip : Bytes → Option Bytes
  | [] => some []
  | b :: rest =>
    if isBlank b then skip rest
    else if b == 47 then
      match rest with
      | [] => some [b]
      | c :: inner =>
        if c == 47 then skipLine inner
        else if c == 42 then skipBlock false inner
        else some (b :: c :: inner)
    else some (b :: rest)

/-- The text behind the rest of a line comment. -/
def skipLine : Bytes → Option Bytes
  | [] => some []
  | b :: rest => if b == 10 then skip rest else skipLine rest

/-- The text behind the rest of a block comment. -/
def skipBlock (starred : Bool) : Bytes → Option Bytes
  | [] => none
  | b :: rest => if starred && b == 47 then skip rest else skipBlock (b == 42) rest

end

/-- What is left of a text behind blanks and comments, `k` bytes of which stand before it. -/
def Trivia.Leaves (k : Nat) (text : Bytes) : Trivia → Option Bytes → Prop
  | .clear n, rest => k ≤ n ∧ rest = some (text.drop (n - k))
  | .unclosed _, rest => rest = none

theorem Trivia.Leaves.none {k : Nat} {text : Bytes} : (Trivia.clear k).Leaves k text (some text) :=
  ⟨Nat.le_refl k, by rw [Nat.sub_self, List.drop_zero]⟩

/-- One byte more in front changes nothing but where the rest begins. -/
theorem Trivia.Leaves.cons {k : Nat} {b : UInt8} {text : Bytes} {t : Trivia} {rest : Option Bytes}
    (h : t.Leaves (k + 1) text rest) : t.Leaves k (b :: text) rest := by
  cases t with
  | unclosed n => exact h
  | clear n =>
    obtain ⟨hle, hrest⟩ := h
    refine ⟨by omega, ?_⟩
    rw [hrest, show n - k = n - (k + 1) + 1 by omega, List.drop_succ_cons]

mutual

/-- Trivia is counted as it is skipped. -/
theorem triviaFrom_leaves (k : Nat) : ∀ text, (triviaFrom k text).Leaves k text (skip text)
  | [] => by
    rw [triviaFrom, skip]
    exact .none
  | b :: rest => by
    rw [triviaFrom.eq_def, skip.eq_def]
    dsimp only
    split
    · exact .cons (triviaFrom_leaves (k + 1) rest)
    · split
      · cases rest with
        | nil => exact .none
        | cons c inner =>
          dsimp only
          split
          · exact .cons (.cons (lineComment_leaves (k + 2) inner))
          · split
            · exact .cons (.cons (blockComment_leaves k (k + 2) false inner))
            · exact .none
      · exact .none

/-- What is counted in a line comment is what is skipped. -/
theorem lineComment_leaves (k : Nat) :
    ∀ text, (lineComment k text).Leaves k text (skipLine text)
  | [] => by
    rw [lineComment, skipLine]
    exact .none
  | b :: rest => by
    rw [lineComment, skipLine]
    split
    · exact .cons (triviaFrom_leaves (k + 1) rest)
    · exact .cons (lineComment_leaves (k + 1) rest)

/-- What is counted in a block comment is what is skipped. -/
theorem blockComment_leaves (opened k : Nat) (starred : Bool) :
    ∀ text, (blockComment opened k starred text).Leaves k text (skipBlock starred text)
  | [] => by
    rw [blockComment, skipBlock]
    rfl
  | b :: rest => by
    rw [blockComment, skipBlock]
    split
    · exact .cons (triviaFrom_leaves (k + 1) rest)
    · exact .cons (blockComment_leaves opened (k + 1) (b == 42) rest)

end

/-- **What is counted is what is skipped.** -/
theorem trivia_leaves (text : Bytes) : (trivia text).Leaves 0 text (skip text) :=
  triviaFrom_leaves 0 text

/-- What is skipped in front of a newline and more: as much as before, or the newline too. -/
def Skips (more : Bytes) (short long : Option Bytes) : Prop :=
  (∀ b rest, short = some (b :: rest) → long = some (b :: rest ++ 10 :: more)) ∧
    (short = some [] → long = skip more)

theorem Skips.stay {more : Bytes} {b : UInt8} {rest : Bytes} :
    Skips more (some (b :: rest)) (some (b :: (rest ++ 10 :: more))) := by
  refine ⟨fun b' rest' h => ?_, fun h => ?_⟩
  · cases h
    rfl
  · cases h

mutual

/-- A line that is appended to a text is skipped behind it. -/
theorem skip_append (more : Bytes) :
    ∀ text, Skips more (skip text) (skip (text ++ 10 :: more))
  | [] => by
    rw [List.nil_append, skip, skip.eq_def (10 :: more)]
    exact ⟨fun b rest h => absurd (Option.some.inj h) (by simp), fun _ => rfl⟩
  | b :: rest => by
    rw [List.cons_append, skip.eq_def (b :: rest), skip.eq_def (b :: (rest ++ _))]
    dsimp only
    split
    · exact skip_append more rest
    · split
      · -- A slash at the end of the text begins no comment, with a new line behind it or without.
        cases rest with
        | nil =>
          rw [List.nil_append]
          dsimp only
          rw [if_neg (by decide), if_neg (by decide)]
          exact .stay
        | cons c inner =>
          rw [List.cons_append]
          dsimp only
          split
          · exact skipLine_append more inner
          · split
            · exact skipBlock_append more false inner
            · exact .stay
      · exact .stay

/-- A line that is appended ends an open line comment. -/
theorem skipLine_append (more : Bytes) :
    ∀ text, Skips more (skipLine text) (skipLine (text ++ 10 :: more))
  | [] => by
    rw [List.nil_append, skipLine, skipLine]
    exact ⟨fun b rest h => absurd (Option.some.inj h) (by simp), fun _ => rfl⟩
  | b :: rest => by
    rw [List.cons_append, skipLine, skipLine]
    split
    · exact skip_append more rest
    · exact skipLine_append more rest

/-- A line that is appended is inside an open block comment. -/
theorem skipBlock_append (more : Bytes) (starred : Bool) :
    ∀ text, Skips more (skipBlock starred text) (skipBlock starred (text ++ 10 :: more))
  | [] => by
    rw [skipBlock]
    exact ⟨fun b rest h => absurd h (by simp), fun h => absurd h (by simp)⟩
  | b :: rest => by
    rw [List.cons_append, skipBlock, skipBlock]
    split
    · exact skip_append more rest
    · exact skipBlock_append more (b == 42) rest

end

/-! ## Lexemes -/

/-- A run of bytes ends at a byte that is no part of it. -/
theorem takeWhile_append_cons {p : UInt8 → Bool} {c : UInt8} (hc : p c = false)
    (text more : Bytes) : (text ++ c :: more).takeWhile p = text.takeWhile p := by
  induction text with
  | nil => exact List.takeWhile_cons_of_neg (by simp [hc])
  | cons b text ih => rw [List.cons_append, List.takeWhile_cons, List.takeWhile_cons, ih]

/-- A literal breaks off before a newline, and behind a backslash in front of one. -/
theorem literal_append {quote : UInt8} (hq : quote ≠ 10) (text more : Bytes) :
    literal quote (text ++ 10 :: more) = literal quote text := by
  induction text using literal.induct quote with
  | case1 =>
    have hq : (10 == quote) = false := beq_false_of_ne hq.symm
    simp [literal.eq_def, hq]
  | case2 b rest h => simp [literal.eq_def, h]
  | case3 b rest h h' => simp [literal.eq_def, h, h']
  | case4 b h h' h'' =>
    have h10 : unescape? 10 = none := by decide
    simp [literal.eq_def, h, h', h'', h10]
  | case5 b h h' h'' e inner v hv ih =>
    rw [List.cons_append, List.cons_append, literal.eq_def, literal.eq_def quote (b :: e :: inner)]
    simp [h, h', h'', hv, ih]
  | case6 b h h' h'' e inner hv =>
    rw [List.cons_append, List.cons_append, literal.eq_def, literal.eq_def quote (b :: e :: inner)]
    simp [h, h', h'', hv]
  | case7 b rest h h' h'' ih =>
    rw [List.cons_append, literal.eq_def, literal.eq_def quote (b :: rest)]
    simp [h, h', h'', ih]

/-- A literal is no longer than the text. -/
theorem length_literal_le (quote : UInt8) (text : Bytes) :
    (literal quote text).length ≤ text.length := by
  induction text using literal.induct quote with
  | case1 => exact Nat.le_refl 0
  | case2 b rest h => simp [literal.eq_def, h]
  | case3 b rest h h' => simp [literal.eq_def, h, h']
  | case4 b h h' h'' => simp [literal.eq_def, h, h', h'']
  | case5 b h h' h'' e inner v hv ih =>
    rw [literal.eq_def]
    simp only [h, h', h'', hv, Literal.push, List.length_cons]
    simp only [Bool.false_eq_true, ↓reduceIte]
    omega
  | case6 b h h' h'' e inner hv =>
    rw [literal.eq_def]
    simp [h, h', h'', hv]
  | case7 b rest h h' h'' ih =>
    rw [literal.eq_def]
    simp only [h, h', h'', Literal.push, List.length_cons]
    simp only [Bool.false_eq_true, ↓reduceIte]
    omega

/-- No operator ends with a line. -/
theorem ofText?_newline (b : UInt8) : Punct.ofText? [b, 10] = none := by
  refine List.find?_eq_none.mpr fun p _ => ?_
  have hp : p.spelling[1]? ≠ some 10 := by
    cases p <;> decide
  intro h
  rw [eq_of_beq h] at hp
  exact hp rfl

/-- An operator is the same with a line behind it. -/
theorem punct?_append (b : UInt8) (text more : Bytes) :
    punct? b (text ++ 10 :: more) = punct? b text := by
  cases text with
  | nil =>
    unfold punct?
    simp [ofText?_newline]
  | cons c text => rfl

/-- **A newline ends every token.** -/
theorem lexeme_append (b : UInt8) (text more : Bytes) :
    lexeme b (text ++ 10 :: more) = lexeme b text := by
  unfold lexeme stringLexeme characterLexeme wordLexeme numberLexeme
  rw [literal_append (by decide), literal_append (by decide), ← List.cons_append,
    takeWhile_append_cons (by decide), takeWhile_append_cons (by decide), punct?_append]

/-- An operator is no longer than the text. -/
theorem length_punct?_le {b : UInt8} {rest : Bytes} {l : Lexeme} (h : punct? b rest = some l) :
    l.length ≤ rest.length + 1 := by
  unfold punct? at h
  split at h
  · rename_i p hp
    cases h
    cases rest with
    | nil => cases hp
    | cons c rest => simp
  · obtain ⟨p, -, rfl⟩ := Option.map_eq_some_iff.mp h
    simp

/-- A lexeme stands in the text. -/
theorem length_lexeme_le (b : UInt8) (rest : Bytes) : (lexeme b rest).length ≤ rest.length + 1 := by
  unfold lexeme
  split
  · exact Nat.succ_le_succ (length_literal_le 34 rest)
  · split
    · exact Nat.succ_le_succ (length_literal_le 39 rest)
    · split
      · exact (List.takeWhile_prefix isWordByte).length_le
      · split
        · exact (List.takeWhile_prefix Bytes.isDigit).length_le
        · cases hp : punct? b rest with
          | none => simp
          | some l => exact length_punct?_le hp

/-- The token that a lexeme makes. -/
def Lexeme.token (l : Lexeme) : Token :=
  ⟨l.kind, l.literal, 0, 0, 0⟩

end Scan

/-! ## Texts -/

/-- **A text spells tokens.** -/
inductive Spells : Bytes → List Token → Prop where
  | done {text : Bytes} (h : Scan.skip text = some []) : Spells text [⟨.endOfFile, [], 0, 0, 0⟩]
  | unclosed {text : Bytes} (h : Scan.skip text = none) :
    Spells text [⟨.illegal, "/*", 0, 0, 0⟩, ⟨.endOfFile, [], 0, 0, 0⟩]
  | cons {text : Bytes} {b : UInt8} {rest : Bytes} {ts : List Token}
    (h : Scan.skip text = some (b :: rest))
    (hts : Spells ((b :: rest).drop (Scan.lexeme b rest).length) ts) :
    Spells text ((Scan.lexeme b rest).token :: ts)

namespace Spells

variable {text more : Bytes} {ts us : List Token}

/-- There is a last token at least. -/
theorem ne_nil (h : Spells text ts) : ts ≠ [] := by
  cases h <;> simp

/-- A text spells the same tokens behind its blanks and comments. -/
theorem of_skip (h : Scan.skip text = Scan.skip more) (hm : Spells more us) : Spells text us := by
  cases hm with
  | done hs => exact .done (h.trans hs)
  | unclosed hs => exact .unclosed (h.trans hs)
  | cons hs hts => exact .cons (h.trans hs) hts

/-- No text spells other tokens too. -/
theorem unique (h : Spells text ts) (h' : Spells text us) : ts = us := by
  induction h generalizing us with
  | done hs =>
    cases h' with
    | done => rfl
    | unclosed hs' => exact absurd (hs.symm.trans hs') (by simp)
    | cons hs' => exact absurd (hs.symm.trans hs') (by simp)
  | unclosed hs =>
    cases h' with
    | done hs' => exact absurd (hs.symm.trans hs') (by simp)
    | unclosed => rfl
    | cons hs' => exact absurd (hs.symm.trans hs') (by simp)
  | cons hs hts ih =>
    cases h' with
    | done hs' => exact absurd (hs.symm.trans hs') (by simp)
    | unclosed hs' => exact absurd (hs.symm.trans hs') (by simp)
    | cons hs' hts' =>
      cases hs.symm.trans hs'
      rw [ih hts']

/-- Nothing is spelled behind the end of file. -/
theorem eq_nil_of_end {t : Token} {vs : List Token} (h : Spells text (us ++ t :: vs))
    (ht : t.kind = .endOfFile) : vs = [] := by
  generalize hts : us ++ t :: vs = ts at h
  induction h generalizing us with
  | done hs =>
    have hlength := congrArg List.length hts
    simp only [List.length_append, List.length_cons, List.length_nil] at hlength
    exact List.eq_nil_of_length_eq_zero (by omega)
  | unclosed hs =>
    cases us with
    | nil =>
      cases hts
      cases ht
    | cons u us =>
      have hlength := congrArg List.length hts
      simp only [List.length_append, List.length_cons, List.length_nil] at hlength
      exact List.eq_nil_of_length_eq_zero (by omega)
  | @cons text b rest ts hs htail ih =>
    cases us with
    | nil =>
      cases hts
      exact absurd ht (Scan.kind_lexeme b rest)
    | cons u us => exact ih (List.cons.inj hts).2

/-- Two texts with a newline between them, if the last token of the first is one. -/
theorem append (h : Spells text ts) (hts : ∀ us t u, ts = us ++ [t, u] → t.kind ≠ .illegal)
    (hm : Spells more us) : Spells (text ++ 10 :: more) (ts.dropLast ++ us) := by
  induction h with
  | done hs => exact hm.of_skip ((Scan.skip_append more _).2 hs)
  | unclosed hs => exact absurd rfl (hts [] _ _ rfl)
  | @cons text b rest ts hs htail ih =>
    have ih := ih fun us t u h => hts (_ :: us) t u (by rw [h]; rfl)
    rw [List.dropLast_cons_of_ne_nil htail.ne_nil, List.cons_append,
      ← Scan.lexeme_append b rest more]
    refine .cons ((Scan.skip_append more _).1 b rest hs) ?_
    rwa [Scan.lexeme_append, ← List.cons_append, List.drop_append_of_le_length]
    exact Scan.length_lexeme_le b rest

end Spells

/-! ## The scanner -/

namespace Cursor

/-- Where the scanner goes. -/
theorem next_of_skip (c : Cursor) :
    (Scan.skip c.rest = some [] ∧ c.next.1.bare = ⟨.endOfFile, [], 0, 0, 0⟩) ∨
    (Scan.skip c.rest = none ∧ c.next.1.bare = ⟨.illegal, "/*", 0, 0, 0⟩ ∧ c.next.2.rest = []) ∨
    ∃ b rest, Scan.skip c.rest = some (b :: rest) ∧
      c.next.1.bare = (Scan.lexeme b rest).token ∧
      c.next.2.rest = (b :: rest).drop (Scan.lexeme b rest).length := by
  have hleaves := Scan.trivia_leaves c.rest
  unfold next
  cases ht : Scan.trivia c.rest with
  | unclosed n =>
    rw [ht] at hleaves
    refine .inr (.inl ⟨hleaves, rfl, ?_⟩)
    dsimp only
    rw [rest_advance, List.drop_length]
  | clear n =>
    rw [ht] at hleaves
    obtain ⟨-, hskip⟩ := hleaves
    rw [Nat.sub_zero, ← rest_advance] at hskip
    dsimp only
    cases hr : (c.advance n).rest with
    | nil => exact .inl ⟨hskip.trans (congrArg some hr), rfl⟩
    | cons b rest =>
      refine .inr (.inr ⟨b, rest, hskip.trans (congrArg some hr), rfl, ?_⟩)
      dsimp only
      rw [rest_advance, hr]

/-- Unless the next token is the last one, others follow. -/
theorem tokens_of_ne {fuel : Nat} {c : Cursor} (h : c.next.1.kind ≠ .endOfFile) :
    (c.tokens (fuel + 1)).1 = c.next.1 :: (c.next.2.tokens fuel).1 := by
  rw [tokens]
  dsimp only
  rw [if_neg h]

/-- **A cursor goes on as the text behind it is spelled.** -/
theorem tokens_spells {fuel : Nat} {c : Cursor} (h : c.rest.length ≤ fuel) :
    Spells c.rest ((c.tokens fuel).1.map Token.bare) := by
  induction fuel generalizing c with
  | zero =>
    have hnil : Scan.skip c.rest = some [] := by
      rw [List.length_eq_zero_iff.mp (Nat.le_zero.mp h), Scan.skip]
    obtain ⟨-, ht⟩ | ⟨hs, -⟩ | ⟨b, rest, hs, -⟩ := c.next_of_skip
    · change Spells c.rest [c.next.1.bare]
      rw [ht]
      exact .done hnil
    · exact absurd (hnil.symm.trans hs) (by simp)
    · exact absurd (hnil.symm.trans hs) (by simp)
  | succ fuel ih =>
    -- Any token but the last takes bytes, so the fuel is enough for what is left.
    have hrest (hk : c.next.1.kind ≠ .endOfFile) :
        (c.tokens (fuel + 1)).1.map Token.bare =
            c.next.1.bare :: (c.next.2.tokens fuel).1.map Token.bare ∧
          Spells c.next.2.rest ((c.next.2.tokens fuel).1.map Token.bare) := by
      have hlt := length_rest_next hk
      exact ⟨by rw [tokens_of_ne hk, List.map_cons], ih (by omega)⟩
    obtain ⟨hs, ht⟩ | ⟨hs, ht, hr⟩ | ⟨b, rest, hs, ht, hr⟩ := c.next_of_skip
    · have hk : c.next.1.kind = .endOfFile := congrArg Token.kind ht
      rw [tokens]
      dsimp only
      rw [if_pos hk, List.map_singleton, ht]
      exact .done hs
    · have hk : c.next.1.kind = .illegal := congrArg Token.kind ht
      obtain ⟨htokens, htail⟩ := hrest (by simp [hk])
      rw [hr] at htail
      rw [htokens, ht, htail.unique (.done rfl)]
      exact .unclosed hs
    · have hk : c.next.1.kind = (Scan.lexeme b rest).kind := congrArg Token.kind ht
      obtain ⟨htokens, htail⟩ := hrest (by rw [hk]; exact Scan.kind_lexeme b rest)
      rw [hr] at htail
      rw [htokens, ht]
      exact .cons hs htail

end Cursor

namespace Token

/-- **The scanner finds the tokens that a text spells.** -/
theorem scan_spells (source : Bytes) : Spells source ((scan source).map bare) :=
  Cursor.tokens_spells (c := ⟨source, 0, 1, 1⟩) (Nat.le_refl _)

/-- **The tokens of two texts**, one after the other on lines of their own. -/
theorem scan_append {first second : Bytes}
    (h : ∀ ts t u, (scan first).map bare = ts ++ [t, u] → t.kind ≠ .illegal) :
    (scan (first ++ 10 :: second)).map bare =
      ((scan first).map bare).dropLast ++ (scan second).map bare :=
  (scan_spells _).unique (.append (scan_spells first) h (scan_spells second))

end Token

end DirectC
