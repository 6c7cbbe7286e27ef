/-
# Terminals

The terminals of the language are its names, keywords, numbers, operators, delimiters and literals.
`Terminal.Written` says which texts stand for a terminal; all have one text, save the literals,
whose bytes may be escaped or not. `Terminal.EndsBefore` says that a terminal is not continued by
what follows it. The lexeme at the beginning of a text is exactly such a terminal: a written
terminal that ends is taken as a whole (`Terminal.Written.taken`), and a text with a legal lexeme
starts with a written terminal that ends (`Terminal.starts_of_lexeme`).
-/
import DirectC.Proofs.Spelling
import Mathlib.Data.List.Basic

namespace DirectC

namespace Scan

/-! ## Quoted bytes -/

/-- **What stands between quotes.** A byte other than the quote, a newline and a backslash stands
for itself, and an escape for the byte that it denotes. -/
inductive Denotes (quote : UInt8) : Bytes → Bytes → Prop where
  | nil : Denotes quote [] []
  | raw {b : UInt8} {body value : Bytes} (hquote : b ≠ quote) (hnewline : b ≠ 10)
    (hbackslash : b ≠ 92) (h : Denotes quote body value) : Denotes quote (b :: body) (b :: value)
  | escaped {e v : UInt8} {body value : Bytes} (he : unescape? e = some v)
    (h : Denotes quote body value) : Denotes quote (92 :: e :: body) (v :: value)

variable {quote b e v : UInt8} {body value rest : Bytes}

/-- Most bytes stand for themselves. -/
theorem literal_raw (hquote : b ≠ quote) (hnewline : b ≠ 10) (hbackslash : b ≠ 92) :
    literal quote (b :: rest) = (literal quote rest).push b 1 := by
  rw [literal.eq_def]
  simp [hquote, hnewline, hbackslash]

/-- A backslash and a letter stand for one byte. -/
theorem literal_escaped (hquote : quote ≠ 92) (he : unescape? e = some v) :
    literal quote (92 :: e :: rest) = (literal quote rest).push v 2 := by
  rw [literal.eq_def]
  simp [hquote.symm, he]

/-- Every string of bytes can be quoted. -/
theorem exists_denotes (hquote : unescape? quote = some quote) (value : Bytes) :
    ∃ body, Denotes quote body value := by
  induction value with
  | nil => exact ⟨[], .nil⟩
  | cons b value ih =>
    obtain ⟨body, ih⟩ := ih
    by_cases hq : b = quote
    · exact ⟨_, .escaped (hq ▸ hquote) ih⟩
    by_cases hn : b = 10
    · subst hn
      exact ⟨_, .escaped (e := 110) rfl ih⟩
    by_cases hb : b = 92
    · subst hb
      exact ⟨_, .escaped (e := 92) rfl ih⟩
    exact ⟨_, .raw hq hn hb ih⟩

/-- Quoted bytes are read back, up to the closing quote. -/
theorem Denotes.literal_eq (h : Denotes quote body value) (hquote : quote ≠ 92)
    (rest : Bytes) : literal quote (body ++ quote :: rest) = ⟨value, body.length + 1, true⟩ := by
  induction h with
  | nil =>
    rw [List.nil_append, literal.eq_def]
    simp
  | raw hq hn hb _ ih =>
    rw [List.cons_append, literal_raw hq hn hb, ih, Literal.push, List.length_cons, Nat.add_comm 1]
  | escaped he _ ih =>
    rw [List.cons_append, List.cons_append, literal_escaped hquote he, ih, Literal.push,
      List.length_cons, List.length_cons, Nat.add_comm 2]

/-- A closed literal has quoted bytes in front of its closing quote. -/
theorem denotes_of_closed {text : Bytes} (hquote : quote ≠ 92) (h : (literal quote text).closed) :
    ∃ body rest, text = body ++ quote :: rest ∧ Denotes quote body (literal quote text).value := by
  -- The cases without a closing quote contradict `h`. The other ones follow the text.
  induction text using literal.induct quote with
  | case1 => cases h
  | case2 b rest hb =>
    refine ⟨[], rest, by rw [eq_of_beq hb]; rfl, ?_⟩
    rw [literal.eq_def]
    simp only [hb, if_true]
    exact .nil
  | case3 b rest hb hn =>
    rw [literal.eq_def] at h
    simp [hb, hn] at h
  | case4 b hb hn hs =>
    rw [literal.eq_def] at h
    simp [hb, hn, hs] at h
  | case5 b hb hn hs e inner v hv ih =>
    cases eq_of_beq hs
    rw [literal_escaped hquote hv] at h ⊢
    obtain ⟨body, rest, rfl, hbody⟩ := ih h
    exact ⟨92 :: e :: body, rest, rfl, .escaped hv hbody⟩
  | case6 b hb hn hs e inner hv =>
    rw [literal.eq_def] at h
    simp [hb, hn, hs, hv] at h
  | case7 b rest hb hn hs ih =>
    have hb : b ≠ quote := by simpa using hb
    have hn : b ≠ 10 := by simpa using hn
    have hs : b ≠ 92 := by simpa using hs
    rw [literal_raw hb hn hs] at h ⊢
    obtain ⟨body, rest, rfl, hbody⟩ := ih h
    exact ⟨b :: body, rest, rfl, .raw hb hn hs hbody⟩

/-! ## Words and numbers -/

/-- A byte that starts a token. -/
theorem skip_of_ne (hblank : isBlank b = false) (hslash : b ≠ 47) :
    skip (b :: rest) = some (b :: rest) := by
  rw [skip.eq_def]
  simp [hblank, hslash]

/-- Trivia only takes bytes away. -/
theorem Trivia.Leaves.length_le {k : Nat} {text : Bytes} {t : Trivia}
    (h : t.Leaves k text (some rest)) : rest.length ≤ text.length := by
  cases t with
  | unclosed n => cases h
  | clear n =>
    rw [Option.some.inj h.2, List.length_drop]
    exact Nat.sub_le ..

/-- A slash that starts a token starts no comment. -/
theorem ne_of_skip_slash {c : UInt8} (h : skip (47 :: c :: rest) = some (47 :: c :: rest)) :
    c ≠ 47 ∧ c ≠ 42 := by
  rw [skip.eq_def] at h
  constructor
  · rintro rfl
    have hleaves := lineComment_leaves 0 rest
    rw [show skipLine rest = _ from h] at hleaves
    have := hleaves.length_le
    simp only [List.length_cons] at this
    omega
  · rintro rfl
    have hleaves := blockComment_leaves 0 0 false rest
    rw [show skipBlock false rest = _ from h] at hleaves
    have := hleaves.length_le
    simp only [List.length_cons] at this
    omega

/-- What follows a word ends it. -/
def Breaks (rest : Bytes) : Prop :=
  ∀ b ∈ rest.head?, isWordByte b = false

/-- A run of bytes ends in front of the first one that is no part of it. -/
theorem takeWhile_append_of_head {p : UInt8 → Bool} {text : Bytes} (htext : ∀ b ∈ text, p b)
    (hrest : ∀ b ∈ rest.head?, p b = false) : (text ++ rest).takeWhile p = text := by
  have hnil : rest.takeWhile p = [] := by
    cases rest with
    | nil => rfl
    | cons c rest => exact List.takeWhile_cons_of_neg (by simp [hrest c rfl])
  rw [List.takeWhile_append_of_pos htext, hnil, List.append_nil]

/-- The first byte behind a run is no part of it. -/
theorem head?_dropWhile {p : UInt8 → Bool} {text : Bytes} :
    ∀ b ∈ (text.dropWhile p).head?, p b = false := by
  intro b hb
  have hfind := List.head?_dropWhile_not p text
  rw [Option.mem_def.mp hb] at hfind
  exact hfind

/-- The bytes of words are neither blanks nor quotes nor slashes. -/
theorem wordByte_ne (h : isWordByte b) :
    isBlank b = false ∧ b ≠ 47 ∧ b ≠ 34 ∧ b ≠ 39 := by
  have hne (c : UInt8) (hc : isWordByte c = false) : b ≠ c := by
    rintro rfl
    exact absurd (h.symm.trans hc) (by simp)
  refine ⟨?_, hne 47 (by decide), hne 34 (by decide), hne 39 (by decide)⟩
  simp [isBlank, hne 32 (by decide), hne 9 (by decide), hne 10 (by decide), hne 13 (by decide)]

/-- Digits are no letters. -/
theorem not_isLetter_of_isDigit (h : Bytes.isDigit b) : isLetter b = false := by
  have hrange : 48 ≤ b.toNat ∧ b.toNat ≤ 57 := by
    simpa [Bytes.isDigit, UInt8.le_iff_toNat_le] using h
  have hunderscore : b ≠ 95 := by
    rintro rfl
    exact absurd h (by decide)
  simp only [isLetter, UInt8.le_iff_toNat_le, beq_false_of_ne hunderscore, Bool.or_false,
    Bool.or_eq_false_iff, Bool.and_eq_false_iff, decide_eq_false_iff_not]
  simp only [UInt8.reduceToNat]
  omega

/-- The spelling of an identifier. -/
structure IsName (name : Bytes) : Prop where
  letter : ∃ b ∈ name.head?, isLetter b
  word : name.all isWordByte
  free : Keyword.ofText? name = none

/-- A word is read up to the byte that ends it. -/
theorem lexeme_word {tail : Bytes} (hletter : isLetter b) (hword : ∀ c ∈ b :: tail, isWordByte c)
    (hrest : Breaks rest) :
    lexeme b (tail ++ rest) = ⟨.ofWord (b :: tail), b :: tail, (b :: tail).length⟩ := by
  obtain ⟨-, -, hquote, htick⟩ := wordByte_ne (hword b List.mem_cons_self)
  unfold lexeme
  rw [if_neg (by simpa using hquote), if_neg (by simpa using htick), if_pos hletter, wordLexeme,
    ← List.cons_append, takeWhile_append_of_head hword hrest]

/-- A number is read up to the byte that ends it. -/
theorem lexeme_digits {tail : Bytes} (hdigits : ∀ c ∈ b :: tail, Bytes.isDigit c)
    (hrest : ∀ c ∈ rest.head?, Bytes.isDigit c = false) :
    lexeme b (tail ++ rest) = ⟨.number, b :: tail, (b :: tail).length⟩ := by
  have hdigit := hdigits b List.mem_cons_self
  obtain ⟨-, -, hquote, htick⟩ := wordByte_ne (b := b) (by simp [isWordByte, hdigit])
  unfold lexeme
  rw [if_neg (by simpa using hquote), if_neg (by simpa using htick),
    if_neg (by simp [not_isLetter_of_isDigit hdigit]), if_pos hdigit, numberLexeme,
    ← List.cons_append, takeWhile_append_of_head hdigits hrest]

/-! ## Operators and delimiters -/

/-- A byte that starts neither a word nor a number nor a literal. -/
def isPunctByte (b : UInt8) : Bool :=
  b != 34 && b != 39 && !isLetter b && !Bytes.isDigit b

/-- A byte of operators begins an operator. -/
theorem lexeme_punct (h : isPunctByte b) {l : Lexeme} (hl : punct? b rest = some l) :
    lexeme b rest = l := by
  simp only [isPunctByte, Bool.and_eq_true, Bool.not_eq_true', bne_iff_ne, ne_eq] at h
  obtain ⟨⟨⟨hquote, htick⟩, hletter⟩, hdigit⟩ := h
  unfold lexeme
  rw [if_neg (by simpa using hquote), if_neg (by simpa using htick), if_neg (by simp [hletter]),
    if_neg (by simp [hdigit]), hl, Option.getD_some]

end Scan

/-- A keyword is read from its own spelling only. -/
theorem Keyword.spelling_of_ofText? {text : Bytes} {k : Keyword} (h : ofText? text = some k) :
    k.spelling = text := by
  unfold ofText? at h
  have hk := List.find?_some h
  exact eq_of_beq hk

namespace Punct

theorem mem_all (p : Punct) : p ∈ all := by
  cases p <;> decide

/-- An operator is read back from its spelling. -/
theorem ofText?_spelling (p : Punct) : ofText? p.spelling = some p := by
  cases p <;> decide

/-- An operator is read from its own spelling only. -/
theorem spelling_of_ofText? {text : Bytes} {p : Punct} (h : ofText? text = some p) :
    p.spelling = text := by
  unfold ofText? at h
  have hp := List.find?_some h
  exact eq_of_beq hp

/-- A text that is no operator is not the spelling of one. -/
theorem ofText?_eq_none {text : Bytes} : ofText? text = none ↔ ∀ p : Punct, p.spelling ≠ text := by
  unfold ofText?
  rw [List.find?_eq_none]
  constructor
  · intro h p hp
    exact h p p.mem_all (by simp [hp])
  · intro h p _ hp
    exact h p (eq_of_beq hp)

/-- Operators and delimiters have one byte or two, and all but the division start with a byte that
neither a comment nor another sort of token starts with. -/
theorem spelling_cases (p : Punct) :
    (∃ b, p.spelling = [b] ∧ Scan.isPunctByte b ∧ Scan.isBlank b = false ∧ (b = 47 → p = .slash)) ∨
      ∃ b c, p.spelling = [b, c] ∧ Scan.isPunctByte b ∧ Scan.isBlank b = false ∧ b ≠ 47 := by
  have hall : p.spelling.head?.all fun b =>
      decide (Scan.isPunctByte b ∧ Scan.isBlank b = false ∧ (b = 47 → p = .slash)) := by
    cases p <;> decide
  have hbyte (b : UInt8) (hb : p.spelling.head? = some b) :
      Scan.isPunctByte b ∧ Scan.isBlank b = false ∧ (b = 47 → p = .slash) :=
    of_decide_eq_true ((Option.all_eq_true ..).mp hall b hb)
  have hlength : p.spelling.length = 1 ∨ (p.spelling.length = 2 ∧ p ≠ .slash) := by
    cases p <;> decide
  rcases hlength with h | ⟨h, hne⟩
  · obtain ⟨b, hb⟩ := List.length_eq_one_iff.mp h
    exact .inl ⟨b, hb, hbyte b (by simp [hb])⟩
  · obtain ⟨b, c, hb⟩ := List.length_eq_two.mp h
    obtain ⟨hpunct, hblank, hslash⟩ := hbyte b (by simp [hb])
    exact .inr ⟨b, c, hb, hpunct, hblank, fun h => hne (hslash h)⟩

end Punct

/-! ## Terminals -/

/-- **The terminals of the language.** -/
inductive Terminal where
  | name (text : Bytes) (h : Scan.IsName text)
  | keyword (k : Keyword)
  | number (digits : Bytes) (hne : digits ≠ []) (h : digits.all Bytes.isDigit)
  | punct (p : Punct)
  | character (b : UInt8)
  | string (value : Bytes)

namespace Terminal

/-- The kind of token of a terminal. -/
def kind : Terminal → Token.Kind
  | name .. => .identifier
  | keyword k => .keyword k
  | number .. => .number
  | punct p => .punct p
  | character _ => .character
  | string _ => .string

/-- The spelling of a terminal, or the bytes that a literal denotes. -/
def literal : Terminal → Bytes
  | name text _ => text
  | keyword k => k.spelling
  | number digits _ _ => digits
  | punct p => p.spelling
  | character b => [b]
  | string value => value

/-- **The texts of a terminal**: its spelling, or quoted bytes between two quotes. -/
inductive Written : Terminal → Bytes → Prop where
  | name {text : Bytes} (h : Scan.IsName text) : Written (.name text h) text
  | keyword (k : Keyword) : Written (.keyword k) k.spelling
  | number {digits : Bytes} (hne : digits ≠ []) (h : digits.all Bytes.isDigit) :
    Written (.number digits hne h) digits
  | punct (p : Punct) : Written (.punct p) p.spelling
  | character {b : UInt8} {body : Bytes} (h : Scan.Denotes 39 body [b]) :
    Written (.character b) (39 :: (body ++ [39]))
  | string {value body : Bytes} (h : Scan.Denotes 34 body value) :
    Written (.string value) (34 :: (body ++ [34]))

/-- **A terminal ends.** The next byte makes no longer word, number or operator of it, and no
comment. -/
def EndsBefore (rest : Bytes) : Terminal → Prop
  | name .. | keyword _ => Scan.Breaks rest
  | number .. => ∀ b ∈ rest.head?, Bytes.isDigit b = false
  | punct p => ∀ b ∈ rest.head?,
    (∀ q : Punct, q.spelling ≠ p.spelling ++ [b]) ∧ (p = .slash → b ≠ 47 ∧ b ≠ 42)
  | character _ | string _ => True

/-- Every terminal can be written. -/
theorem exists_written (w : Terminal) : ∃ text, w.Written text := by
  cases w with
  | name text h => exact ⟨text, .name h⟩
  | keyword k => exact ⟨_, .keyword k⟩
  | number digits hne h => exact ⟨digits, .number hne h⟩
  | punct p => exact ⟨_, .punct p⟩
  | character b =>
    obtain ⟨body, hbody⟩ : ∃ body, Scan.Denotes 39 body [b] := Scan.exists_denotes rfl [b]
    exact ⟨_, .character hbody⟩
  | string value =>
    obtain ⟨body, hbody⟩ : ∃ body, Scan.Denotes 34 body value := Scan.exists_denotes rfl value
    exact ⟨_, .string hbody⟩

variable {w : Terminal} {text rest : Bytes}

/-- A blank and the end of the text end every terminal. -/
theorem endsBefore_of_blank (hrest : ∀ b ∈ rest.head?, b = 32) (w : Terminal) :
    w.EndsBefore rest := by
  have hword : Scan.Breaks rest := by
    intro b hb
    rw [hrest b hb]
    decide
  cases w with
  | name | keyword => exact hword
  | number =>
    intro b hb
    rw [hrest b hb]
    decide
  | punct p =>
    intro b hb
    rw [hrest b hb]
    refine ⟨fun q hq => ?_, fun _ => by decide⟩
    have hlast : q.spelling.getLast? ≠ some 32 := by
      cases q <;> decide
    exact hlast (by rw [hq, List.getLast?_concat])
  | character | string => exact trivial

/-! ## Lexemes -/

/-- What the scanner does at a written terminal: nothing is skipped, and the lexeme is its text. -/
def Taken (w : Terminal) (text rest : Bytes) : Prop :=
  ∃ b inner, text = b :: inner ∧ Scan.skip (text ++ rest) = some (text ++ rest) ∧
    Scan.lexeme b (inner ++ rest) = ⟨w.kind, w.literal, text.length⟩

/-- A word is taken up to the first byte that is no part of one, and is a keyword or a name. -/
theorem Taken.word {b : UInt8} {tail : Bytes} (hletter : Scan.isLetter b)
    (hword : ∀ c ∈ b :: tail, Scan.isWordByte c) (hrest : Scan.Breaks rest)
    (hkind : w.kind = .ofWord (b :: tail)) (hliteral : w.literal = b :: tail) :
    w.Taken (b :: tail) rest := by
  obtain ⟨hblank, hslash, -, -⟩ := Scan.wordByte_ne (hword b List.mem_cons_self)
  refine ⟨b, tail, rfl, Scan.skip_of_ne hblank hslash, ?_⟩
  rw [Scan.lexeme_word hletter hword hrest, hkind, hliteral]

/-- A name is taken if no byte of a word follows. -/
theorem Taken.name (h : Scan.IsName text) (hrest : Scan.Breaks rest) :
    (Terminal.name text h).Taken text rest := by
  obtain ⟨b, hb, hletter⟩ := h.letter
  obtain ⟨tail, rfl⟩ : ∃ tail, text = b :: tail := List.head?_eq_some_iff.mp hb
  refine .word hletter (List.all_eq_true.mp h.word) hrest ?_ rfl
  rw [kind, Token.Kind.ofWord, h.free]

/-- A keyword is taken if no byte of a word follows. -/
theorem Taken.keyword (k : Keyword) (hrest : Scan.Breaks rest) :
    (Terminal.keyword k).Taken k.spelling rest := by
  have hfirst : k.spelling.head?.any Scan.isLetter := by
    cases k <;> decide
  have hall : k.spelling.all Scan.isWordByte := by
    cases k <;> decide
  have hword := List.all_eq_true.mp hall
  have hkind : Token.Kind.keyword k = .ofWord k.spelling := by
    cases k <;> decide
  obtain ⟨b, hb, hletter⟩ := (Option.any_eq_true ..).mp hfirst
  obtain ⟨tail, htail⟩ : ∃ tail, k.spelling = b :: tail := List.head?_eq_some_iff.mp hb
  rw [htail] at hword hkind ⊢
  exact .word hletter hword hrest hkind htail

/-- Digits are taken up to the first byte that is none. -/
theorem Taken.number {digits : Bytes} (hne : digits ≠ []) (h : digits.all Bytes.isDigit)
    (hrest : ∀ b ∈ rest.head?, Bytes.isDigit b = false) :
    (Terminal.number digits hne h).Taken digits rest := by
  obtain ⟨b, tail, rfl⟩ := List.exists_cons_of_ne_nil hne
  have hdigits := List.all_eq_true.mp h
  obtain ⟨hblank, hslash, -, -⟩ := Scan.wordByte_ne (b := b) (by
    simp [Scan.isWordByte, hdigits b List.mem_cons_self])
  exact ⟨b, tail, rfl, Scan.skip_of_ne hblank hslash, Scan.lexeme_digits hdigits hrest⟩

/-- **Operators are taken if no longer one can begin with them**: this is what the boundary says. -/
theorem Taken.punct (p : Punct) (hrest : (Terminal.punct p).EndsBefore rest) :
    (Terminal.punct p).Taken p.spelling rest := by
  have hp := p.ofText?_spelling
  obtain ⟨b, hb, hpunct, hblank, hslash⟩ | ⟨b, c, hb, hpunct, hblank, hslash⟩ := p.spelling_cases
  · have hlexeme : Scan.punct? b rest = some ⟨.punct p, p.spelling, 1⟩ := by
      unfold Scan.punct?
      cases rest with
      | nil => simp [← hb, hp]
      | cons c rest =>
        have hnone : Punct.ofText? [b, c] = none := by
          refine Punct.ofText?_eq_none.mpr fun q hq => ?_
          exact (hrest c rfl).1 q (by rw [hq, hb]; rfl)
        simp [hnone, ← hb, hp]
    have hskip : Scan.skip (b :: rest) = some (b :: rest) := by
      by_cases h47 : b = 47
      · -- The division starts no comment, for what follows it is neither a slash nor a star.
        rw [Scan.skip.eq_def]
        cases rest with
        | nil => simp [h47, Scan.isBlank]
        | cons c rest =>
          obtain ⟨hslash, hstar⟩ := (hrest c rfl).2 (hslash h47)
          simp [hblank, hslash, hstar]
      · exact Scan.skip_of_ne hblank h47
    rw [Taken, hb]
    refine ⟨b, [], rfl, hskip, ?_⟩
    rw [List.nil_append, Scan.lexeme_punct hpunct hlexeme, kind, literal, List.length_singleton]
  · have hlexeme : Scan.punct? b (c :: rest) = some ⟨.punct p, p.spelling, 2⟩ := by
      simp [Scan.punct?, ← hb, hp]
    rw [Taken, hb]
    refine ⟨b, [c], rfl, Scan.skip_of_ne hblank hslash, ?_⟩
    rw [List.singleton_append, Scan.lexeme_punct hpunct hlexeme]
    rfl

/-- A character is taken between its quotes. -/
theorem Taken.character {b : UInt8} {body : Bytes} (h : Scan.Denotes 39 body [b]) :
    (Terminal.character b).Taken (39 :: (body ++ [39])) rest := by
  have hliteral := h.literal_eq (by decide) rest
  refine ⟨39, body ++ [39], rfl, Scan.skip_of_ne (by decide) (by decide), ?_⟩
  rw [List.append_assoc, List.singleton_append]
  simp [Scan.lexeme, Scan.characterLexeme, hliteral, kind, literal]

/-- A string is taken between its quotes. -/
theorem Taken.string {body value : Bytes} (h : Scan.Denotes 34 body value) :
    (Terminal.string value).Taken (34 :: (body ++ [34])) rest := by
  have hliteral := h.literal_eq (by decide) rest
  refine ⟨34, body ++ [34], rfl, Scan.skip_of_ne (by decide) (by decide), ?_⟩
  rw [List.append_assoc, List.singleton_append]
  simp [Scan.lexeme, Scan.stringLexeme, hliteral, kind, literal]

/-- **A written terminal that ends is taken as a whole.** -/
theorem Written.taken (h : w.Written text) (hend : w.EndsBefore rest) : w.Taken text rest := by
  cases h with
  | name h => exact .name h hend
  | keyword k => exact .keyword k hend
  | number hne h => exact .number hne h hend
  | punct p => exact .punct p hend
  | character h => exact .character h
  | string h => exact .string h

/-! ## Legal lexemes -/

/-- A text that starts with a written terminal, which ends there. -/
def Starts (source : Bytes) : Prop :=
  ∃ w text rest, source = text ++ rest ∧ Written w text ∧ w.EndsBefore rest

theorem starts_of_word {b : UInt8} {inner : Bytes} (hletter : Scan.isLetter b) :
    Starts (b :: inner) := by
  let word := (b :: inner).takeWhile Scan.isWordByte
  have hb : Scan.isWordByte b := by simp [Scan.isWordByte, hletter]
  have hcut : b :: inner = word ++ (b :: inner).dropWhile Scan.isWordByte :=
    List.takeWhile_append_dropWhile.symm
  cases hk : Keyword.ofText? word with
  | some k =>
    have hspelling : k.spelling = word := Keyword.spelling_of_ofText? hk
    exact ⟨.keyword k, word, _, hcut, hspelling ▸ .keyword k, Scan.head?_dropWhile⟩
  | none =>
    have hname : Scan.IsName word := by
      refine ⟨⟨b, ?_, hletter⟩, List.all_takeWhile, hk⟩
      simp [word, List.takeWhile_cons_of_pos hb]
    exact ⟨.name word hname, word, _, hcut, .name hname, Scan.head?_dropWhile⟩

theorem starts_of_digits {b : UInt8} {inner : Bytes} (hdigit : Bytes.isDigit b) :
    Starts (b :: inner) := by
  let digits := (b :: inner).takeWhile Bytes.isDigit
  have hne : digits ≠ [] := by
    simp [digits, List.takeWhile_cons_of_pos hdigit]
  have hcut : b :: inner = digits ++ (b :: inner).dropWhile Bytes.isDigit :=
    List.takeWhile_append_dropWhile.symm
  exact ⟨.number digits hne List.all_takeWhile, digits, _, hcut, .number hne _,
    Scan.head?_dropWhile⟩

theorem starts_of_punct {b : UInt8} {inner : Bytes} {l : Scan.Lexeme}
    (hl : Scan.punct? b inner = some l) (hskip : Scan.skip (b :: inner) = some (b :: inner)) :
    Starts (b :: inner) := by
  unfold Scan.punct? at hl
  split at hl
  · rename_i p hp
    obtain ⟨c, hc, hp⟩ := Option.bind_eq_some_iff.mp hp
    obtain ⟨rest, rfl⟩ := List.head?_eq_some_iff.mp hc
    have hspelling := Punct.spelling_of_ofText? hp
    refine ⟨.punct p, [b, c], rest, rfl, hspelling ▸ .punct p, fun d _ => ⟨fun q hq => ?_, ?_⟩⟩
    · -- No operator has three bytes.
      have hlength : q.spelling.length ≤ 2 := by
        cases q <;> decide
      simp [hq, hspelling] at hlength
    · rintro rfl
      cases hspelling
  · rename_i hnone
    obtain ⟨p, hp, -⟩ := Option.map_eq_some_iff.mp hl
    have hspelling := Punct.spelling_of_ofText? hp
    refine ⟨.punct p, [b], inner, rfl, hspelling ▸ .punct p, fun c hc => ⟨fun q hq => ?_, ?_⟩⟩
    · -- A longer operator would have been taken instead.
      rw [Option.mem_def.mp hc] at hnone
      exact Punct.ofText?_eq_none.mp hnone q (by rw [hq, hspelling]; rfl)
    · rintro rfl
      obtain ⟨rest, rfl⟩ := List.head?_eq_some_iff.mp hc
      have hb : b = 47 := (List.cons.inj hspelling).1.symm
      exact Scan.ne_of_skip_slash (hb ▸ hskip)

theorem starts_of_character {inner : Bytes} (h : (Scan.characterLexeme inner).kind ≠ .illegal) :
    Starts (39 :: inner) := by
  unfold Scan.characterLexeme at h
  dsimp only at h
  split at h
  · rename_i hclosed
    rw [Bool.and_eq_true, beq_iff_eq, List.length_eq_one_iff] at hclosed
    obtain ⟨hclosed, b, hb⟩ := hclosed
    obtain ⟨body, rest, rfl, hbody⟩ := Scan.denotes_of_closed (by decide) hclosed
    rw [hb] at hbody
    exact ⟨.character b, 39 :: (body ++ [39]), rest, by simp, .character hbody, trivial⟩
  · exact absurd rfl h

theorem starts_of_string {inner : Bytes} (h : (Scan.stringLexeme inner).kind ≠ .illegal) :
    Starts (34 :: inner) := by
  unfold Scan.stringLexeme at h
  dsimp only at h
  split at h
  · rename_i hclosed
    obtain ⟨body, rest, rfl, hbody⟩ := Scan.denotes_of_closed (by decide) hclosed
    exact ⟨.string _, 34 :: (body ++ [34]), rest, by simp, .string hbody, trivial⟩
  · exact absurd rfl h

/-- **A text with a legal lexeme starts with a written terminal.** -/
theorem starts_of_lexeme {b : UInt8} {inner : Bytes}
    (hlegal : (Scan.lexeme b inner).kind ≠ .illegal)
    (hskip : Scan.skip (b :: inner) = some (b :: inner)) :
    Starts (b :: inner) := by
  unfold Scan.lexeme at hlegal
  split at hlegal
  · rename_i hb
    rw [eq_of_beq hb]
    exact starts_of_string hlegal
  split at hlegal
  · rename_i hb
    rw [eq_of_beq hb]
    exact starts_of_character hlegal
  split at hlegal
  · exact starts_of_word ‹_›
  split at hlegal
  · exact starts_of_digits ‹_›
  cases hl : Scan.punct? b inner with
  | some l => exact starts_of_punct hl hskip
  | none =>
    rw [hl] at hlegal
    exact absurd rfl hlegal

end Terminal

end DirectC
