/-
# Tilings

The tokens of a text tile it. Between them there are blanks and complete comments only (`Scan.Gap`),
and each legal token stands at its position in a text of its terminal that goes as far as it can
(`Tiles`). The scanner finds a tiling whenever it finds no illegal token, and a tiling of a text is
what the scanner finds (`Tiles.scan`).

Legal or not, tokens stand one behind the other, every one of them takes a byte at least, and
behind the last byte there is the end of file, as often as one asks (`Token.scan_lossless`).
-/
import DirectC.Proofs.Terminals

namespace DirectC

namespace Scan

/-! ## Gaps -/

/-- **What stands between tokens**, in front of the rest of a text: blanks, line comments up to a
newline or the end of the text, and block comments up to the first star and slash in them. -/
inductive Gap : Bytes → Bytes → Prop where
  | nil {rest : Bytes} : Gap [] rest
  | blank {b : UInt8} {gap rest : Bytes} (hb : isBlank b) (h : Gap gap rest) : Gap (b :: gap) rest
  | line {body gap rest : Bytes} (hbody : 10 ∉ body) (hend : ∀ b ∈ (gap ++ rest).head?, b = 10)
    (h : Gap gap rest) : Gap (47 :: 47 :: (body ++ gap)) rest
  | block {body gap rest : Bytes} (hbody : ¬ [42, 47] <:+: body) (h : Gap gap rest) :
    Gap (47 :: 42 :: (body ++ 42 :: 47 :: gap)) rest

variable {b : UInt8} {body gap rest text : Bytes}

/-- Blanks are skipped. -/
theorem skip_blank (hb : isBlank b) : skip (b :: rest) = skip rest := by
  rw [skip.eq_def]
  simp [hb]

/-- A line comment is skipped up to the end of its line. -/
theorem skipLine_body (hbody : 10 ∉ body) (hend : ∀ b ∈ rest.head?, b = 10) :
    skipLine (body ++ rest) = skip rest := by
  induction body with
  | nil =>
    cases rest with
    | nil => rw [List.nil_append, skipLine, skip]
    | cons b rest =>
      rw [hend b rfl, List.nil_append, skipLine, skip_blank (by decide)]
      rfl
  | cons b body ih =>
    obtain ⟨hb, hbody⟩ : 10 ≠ b ∧ 10 ∉ body := by simpa using hbody
    rw [List.cons_append, skipLine, if_neg (by simpa using hb.symm), ih hbody]

/-- A star and a slash in front of other bytes: at their beginning, or behind it. -/
theorem not_infix_close (hbody : ¬ [42, 47] <:+: body) (hb : b = 42 → ∀ c ∈ body.head?, c ≠ 47) :
    ¬ [42, 47] <:+: b :: body := by
  rw [List.infix_cons_iff]
  rintro (h | h)
  · obtain ⟨hb', h⟩ := List.cons_prefix_cons.mp h
    obtain ⟨rest, rfl⟩ := h
    exact hb hb'.symm 47 rfl rfl
  · exact hbody h

/-- A block comment is skipped up to the first mark that ends it. -/
theorem skipBlock_body (starred : Bool)
    (hbody : ¬ [42, 47] <:+: if starred then 42 :: body else body) :
    skipBlock starred (body ++ 42 :: 47 :: rest) = skip rest := by
  induction body generalizing starred with
  | nil =>
    rw [List.nil_append, skipBlock, if_neg (by simp), skipBlock]
    rfl
  | cons b body ih =>
    have hopen : ¬ (starred && b == 47) = true := by
      rintro h
      rw [Bool.and_eq_true, beq_iff_eq] at h
      rw [if_pos h.1, h.2] at hbody
      exact hbody (List.prefix_append [42, 47] body).isInfix
    have htail : ¬ [42, 47] <:+: b :: body := by
      cases starred with
      | false => exact hbody
      | true => exact fun h => hbody (h.trans (List.suffix_cons 42 _).isInfix)
    rw [List.cons_append, skipBlock, if_neg hopen]
    apply ih
    by_cases hb : b = 42
    · rw [if_pos (by simpa using hb)]
      rwa [hb] at htail
    · rw [if_neg (by simpa using hb)]
      exact fun h => htail (h.trans (List.suffix_cons b _).isInfix)

/-- A gap is skipped. -/
theorem Gap.skip_append (h : Gap gap rest) : skip (gap ++ rest) = skip rest := by
  induction h with
  | nil => rfl
  | blank hb _ ih => rw [List.cons_append, skip_blank hb, ih]
  | @line body gap rest hbody hend _ ih =>
    have hline : skip (47 :: 47 :: (body ++ gap) ++ rest) = skipLine (body ++ (gap ++ rest)) := by
      rw [List.cons_append, List.cons_append, List.append_assoc, skip.eq_def]
      rfl
    rw [hline, skipLine_body hbody hend, ih]
  | @block body gap rest hbody _ ih =>
    have hblock : skip (47 :: 42 :: (body ++ 42 :: 47 :: gap) ++ rest) =
        skipBlock false (body ++ 42 :: 47 :: (gap ++ rest)) := by
      rw [List.cons_append, List.cons_append, List.append_assoc, skip.eq_def]
      rfl
    rw [hblock, skipBlock_body false hbody, ih]

mutual

/-- What is skipped is a gap, and a token or the end follows it. -/
theorem gap_of_skip : ∀ {text rest : Bytes}, skip text = some rest →
    ∃ gap, text = gap ++ rest ∧ Gap gap rest ∧ skip rest = some rest
  | [], rest, h => by
    rw [skip] at h
    cases h
    exact ⟨[], rfl, .nil, by rw [skip]⟩
  | b :: text, rest, h => by
    by_cases hb : isBlank b
    · rw [skip_blank hb] at h
      obtain ⟨gap, rfl, hgap, hrest⟩ := gap_of_skip h
      exact ⟨b :: gap, rfl, .blank hb hgap, hrest⟩
    have hstay (h : skip (b :: text) = some (b :: text)) (hrest : some (b :: text) = some rest) :
        ∃ gap, b :: text = gap ++ rest ∧ Gap gap rest ∧ skip rest = some rest := by
      cases hrest
      exact ⟨[], rfl, .nil, h⟩
    -- Only a slash can begin a comment, and only with the byte behind it.
    by_cases hslash : b = 47
    · subst hslash
      cases text with
      | nil => exact hstay (by rw [skip.eq_def]; rfl) (by rw [← h, skip.eq_def]; rfl)
      | cons c text =>
        by_cases hline : c = 47
        · rw [hline, skip.eq_def] at h
          obtain ⟨body, gap, rfl, hbody, hend, hgap, hrest⟩ := gap_of_skipLine h
          exact ⟨_, by rw [hline]; simp, .line hbody hend hgap, hrest⟩
        by_cases hblock : c = 42
        · rw [hblock, skip.eq_def] at h
          obtain ⟨body, gap, htext, hbody, hgap, hrest⟩ := gap_of_skipBlock false h
          rw [if_neg (by simp)] at htext
          exact ⟨_, by rw [hblock, htext]; simp, .block hbody hgap, hrest⟩
        have hskip : skip (47 :: c :: text) = some (47 :: c :: text) := by
          rw [skip.eq_def]
          simp [hb, hline, hblock]
        exact hstay hskip (hskip.symm.trans h)
    · have hskip : skip (b :: text) = some (b :: text) := skip_of_ne (by simpa using hb) hslash
      exact hstay hskip (hskip.symm.trans h)

/-- What is skipped in a line comment is the rest of the line, and a gap behind it. -/
theorem gap_of_skipLine : ∀ {text rest : Bytes}, skipLine text = some rest →
    ∃ body gap, text = body ++ (gap ++ rest) ∧ 10 ∉ body ∧
      (∀ b ∈ (gap ++ rest).head?, b = 10) ∧ Gap gap rest ∧ skip rest = some rest
  | [], rest, h => by
    rw [skipLine] at h
    cases h
    exact ⟨[], [], rfl, by simp, by simp, .nil, by rw [skip]⟩
  | b :: text, rest, h => by
    rw [skipLine] at h
    by_cases hb : b = 10
    · rw [if_pos (by simpa using hb)] at h
      obtain ⟨gap, rfl, hgap, hrest⟩ := gap_of_skip h
      exact ⟨[], b :: gap, rfl, by simp, by simp [hb], .blank (by simp [hb, isBlank]) hgap, hrest⟩
    · rw [if_neg (by simpa using hb)] at h
      obtain ⟨body, gap, rfl, hbody, hend, hgap, hrest⟩ := gap_of_skipLine h
      exact ⟨b :: body, gap, rfl, by simp [hbody, Ne.symm hb], hend, hgap, hrest⟩

/-- What is skipped in a block comment is the rest of it, with its mark, and a gap behind it. -/
theorem gap_of_skipBlock : ∀ (starred : Bool) {text rest : Bytes},
    skipBlock starred text = some rest →
    ∃ body gap, (if starred then 42 :: text else text) = body ++ 42 :: 47 :: (gap ++ rest) ∧
      ¬ [42, 47] <:+: body ∧ Gap gap rest ∧ skip rest = some rest
  | starred, [], rest, h => by
    rw [skipBlock] at h
    cases h
  | starred, b :: text, rest, h => by
    rw [skipBlock] at h
    by_cases hclose : (starred && b == 47) = true
    · rw [if_pos hclose] at h
      rw [Bool.and_eq_true, beq_iff_eq] at hclose
      obtain ⟨gap, rfl, hgap, hrest⟩ := gap_of_skip h
      exact ⟨[], gap, by simp [hclose], by simp, hgap, hrest⟩
    rw [if_neg hclose] at h
    obtain ⟨body, gap, htext, hbody, hgap, hrest⟩ := gap_of_skipBlock (b == 42) h
    -- The bytes of the body up to `b`, as if no star stood before it.
    obtain ⟨body, hhead, htext, hbody⟩ : ∃ body, (∀ c ∈ body.head?, c = b) ∧
        b :: text = body ++ 42 :: 47 :: (gap ++ rest) ∧ ¬ [42, 47] <:+: body := by
      by_cases hb : b = 42
      · rw [if_pos (by simpa using hb)] at htext
        refine ⟨body, fun c hc => ?_, hb ▸ htext, hbody⟩
        obtain ⟨tail, rfl⟩ := List.head?_eq_some_iff.mp hc
        rw [hb]
        exact (List.cons.inj htext).1.symm
      · rw [if_neg (by simpa using hb)] at htext
        refine ⟨b :: body, by simp, by rw [htext]; rfl, not_infix_close hbody fun h => absurd h hb⟩
    cases starred with
    | false => exact ⟨body, gap, htext, hbody, hgap, hrest⟩
    | true =>
      refine ⟨42 :: body, gap, by rw [if_pos rfl, htext]; rfl, ?_, hgap, hrest⟩
      refine not_infix_close hbody fun _ c hc hc47 => hclose ?_
      rw [← hhead c hc, hc47]
      rfl

end

end Scan

/-! ## Tilings -/

/-- **Tokens tile a text** that starts at an offset: each legal token but the last stands behind a
gap, at its position, in a text of its terminal that ends there; the last one is the end of file,
behind a last gap. -/
inductive Tiles : Nat → Bytes → List Token → Prop where
  | done {pos : Nat} {gap : Bytes} {t : Token} (hgap : Scan.Gap gap [])
    (hkind : t.kind = .endOfFile) (hliteral : t.literal = []) (hpos : t.pos = pos + gap.length) :
    Tiles pos gap [t]
  | cons {pos : Nat} {gap text rest : Bytes} {t : Token} {ts : List Token} {w : Terminal}
    (hgap : Scan.Gap gap (text ++ rest)) (hw : w.Written text) (hend : w.EndsBefore rest)
    (hkind : t.kind = w.kind) (hliteral : t.literal = w.literal) (hpos : t.pos = pos + gap.length)
    (hts : Tiles (t.pos + text.length) rest ts) : Tiles pos (gap ++ (text ++ rest)) (t :: ts)

/-- The tokens of a tiling are those that the text spells. -/
theorem Tiles.spells {pos : Nat} {text : Bytes} {ts : List Token} (h : Tiles pos text ts) :
    Spells text (ts.map Token.bare) := by
  induction h with
  | @done pos gap t hgap hkind hliteral hpos =>
    have hskip : Scan.skip gap = some [] := by
      rw [← List.append_nil gap, hgap.skip_append, Scan.skip]
    rw [List.map_singleton, Token.bare, hkind, hliteral]
    exact .done hskip
  | @cons pos gap text rest t ts w hgap hw hend hkind hliteral hpos hts ih =>
    obtain ⟨b, inner, rfl, hskip, hlexeme⟩ := hw.taken hend
    have htoken : t.bare = (Scan.lexeme b (inner ++ rest)).token := by
      rw [hlexeme, Token.bare, hkind, hliteral]
      rfl
    rw [List.map_cons, htoken]
    refine .cons (hgap.skip_append.trans hskip) ?_
    rw [hlexeme, ← List.cons_append, List.drop_left]
    exact ih

/-- **A tiling is what the scanner finds**, up to lines and columns and the offset. -/
theorem Tiles.scan {pos : Nat} {text : Bytes} {ts : List Token} (h : Tiles pos text ts) :
    (Token.scan text).map Token.bare = ts.map Token.bare :=
  (Token.scan_spells text).unique h.spells

/-! ## The cursor -/

namespace Scan

/-- Trivia that is skipped has a length. -/
theorem trivia_of_skip {text rest : Bytes} (h : skip text = some rest) :
    ∃ n, trivia text = .clear n ∧ text.drop n = rest := by
  have hleaves := trivia_leaves text
  cases ht : trivia text with
  | unclosed n =>
    rw [ht, h] at hleaves
    cases hleaves
  | clear n =>
    rw [ht, h] at hleaves
    exact ⟨n, rfl, (Option.some.inj hleaves.2).symm⟩

/-- Blanks and comments that stand before the byte with number `last`; a comment that is not closed
has a byte of its own before it. -/
def Trivia.EndsBy (last : Nat) : Trivia → Prop
  | .clear n => n ≤ last
  | .unclosed n => n < last

mutual

/-- Blanks and comments stand in the text. -/
theorem triviaFrom_endsBy (k : Nat) : ∀ text, (triviaFrom k text).EndsBy (k + text.length)
  | [] => by
    rw [triviaFrom]
    exact Nat.le_add_right ..
  | b :: text => by
    rw [triviaFrom.eq_def, List.length_cons, ← Nat.add_assoc, Nat.add_right_comm]
    have hstart : (Trivia.clear k).EndsBy (k + 1 + text.length) := by
      rw [Trivia.EndsBy]
      omega
    dsimp only
    split
    · exact triviaFrom_endsBy (k + 1) text
    split
    · cases text with
      | nil => exact hstart
      | cons c text =>
        rw [List.length_cons]
        have hlength : k + 2 + text.length = k + 1 + (text.length + 1) := by omega
        dsimp only
        split
        · exact hlength ▸ lineComment_endsBy (k + 2) text
        split
        · exact hlength ▸ blockComment_endsBy k (k + 2) false (by omega) text
        · exact hstart
    · exact hstart

/-- A line comment ends within the text. -/
theorem lineComment_endsBy (k : Nat) : ∀ text, (lineComment k text).EndsBy (k + text.length)
  | [] => by
    rw [lineComment]
    exact Nat.le_add_right ..
  | b :: text => by
    rw [lineComment, List.length_cons, ← Nat.add_assoc, Nat.add_right_comm]
    split
    · exact triviaFrom_endsBy (k + 1) text
    · exact lineComment_endsBy (k + 1) text

/-- A block comment ends within the text, or is complained about within it. -/
theorem blockComment_endsBy (opened k : Nat) (starred : Bool) (h : opened < k) :
    ∀ text, (blockComment opened k starred text).EndsBy (k + text.length)
  | [] => by
    rw [blockComment]
    exact Nat.lt_add_right _ h
  | b :: text => by
    rw [blockComment, List.length_cons, ← Nat.add_assoc, Nat.add_right_comm]
    split
    · exact triviaFrom_endsBy (k + 1) text
    · exact blockComment_endsBy opened (k + 1) (b == 42) (by omega) text

end

/-- Trivia ends within the text, or is complained about within it. -/
theorem trivia_endsBy (text : Bytes) : (trivia text).EndsBy text.length :=
  Nat.zero_add text.length ▸ triviaFrom_endsBy 0 text

end Scan

namespace Cursor

variable {c : Cursor} {n : Nat}

/-- One step is one byte, as long as there is one. -/
theorem pos_step (c : Cursor) : c.step.pos = c.pos + min 1 c.rest.length := by
  unfold step
  cases hr : c.rest with
  | nil => rfl
  | cons b rest =>
    rw [List.length_cons, Nat.min_eq_left (by omega)]
    dsimp only
    split <;> rfl

/-- Many steps are as many bytes, as long as there are. -/
theorem pos_advance (n : Nat) (c : Cursor) : (c.advance n).pos = c.pos + min n c.rest.length := by
  induction n generalizing c with
  | zero => simp [advance]
  | succ n ih =>
    rw [advance, ih, pos_step, rest_step, List.length_drop]
    omega

/-- The end of file, behind the last gap. -/
theorem next_of_end (hn : Scan.trivia c.rest = .clear n) (hr : c.rest.drop n = []) :
    c.next = ((c.advance n).token .endOfFile [], c.advance n) := by
  rw [← rest_advance] at hr
  simp only [next, hn, hr]

/-- A token, behind a gap. -/
theorem next_of_lexeme {b : UInt8} {inner : Bytes} (hn : Scan.trivia c.rest = .clear n)
    (hr : c.rest.drop n = b :: inner) :
    c.next = ((c.advance n).token (Scan.lexeme b inner).kind (Scan.lexeme b inner).literal,
      (c.advance n).advance (Scan.lexeme b inner).length) := by
  rw [← rest_advance] at hr
  simp only [next, hn, hr]

/-- A comment that is not closed, behind a gap. -/
theorem next_of_unclosed (hn : Scan.trivia c.rest = .unclosed n) :
    c.next = ((c.advance n).token .illegal "/*",
      (c.advance n).advance (c.advance n).rest.length) := by
  simp only [next, hn]

/-- Steps add up. -/
theorem advance_advance (n m : Nat) (c : Cursor) : (c.advance n).advance m = c.advance (n + m) := by
  induction n generalizing c with
  | zero => rw [advance, Nat.zero_add]
  | succ n ih => rw [advance, ih, Nat.add_right_comm, advance]

/-- **The scanner never steps at the end of the text.** It moves over blanks and comments and then
over a token, byte by byte, and every byte that it moves over is there. -/
theorem next_steps (c : Cursor) : ∃ n m kind literal,
    c.next = ((c.advance n).token kind literal, c.advance (n + m)) ∧
      ∀ k < n + m, (c.advance k).rest ≠ [] := by
  -- All bytes before the end of the token are there, as it ends within the text.
  have hthere {n m : Nat} (h : n + m ≤ c.rest.length) (k : Nat) (hk : k < n + m) :
      (c.advance k).rest ≠ [] := by
    rw [rest_advance, ne_eq, List.drop_eq_nil_iff]
    omega
  have hends := Scan.trivia_endsBy c.rest
  cases hn : Scan.trivia c.rest with
  | unclosed n =>
    have hlt : n < c.rest.length := by rwa [hn] at hends
    refine ⟨n, (c.advance n).rest.length, .illegal, "/*", ?_, hthere ?_⟩
    · rw [next_of_unclosed hn, advance_advance]
    · rw [rest_advance, List.length_drop]
      omega
  | clear n =>
    have hle : n ≤ c.rest.length := by rwa [hn] at hends
    cases hr : c.rest.drop n with
    | nil => exact ⟨n, 0, _, _, next_of_end hn hr, hthere hle⟩
    | cons b inner =>
      have hlexeme := Scan.length_lexeme_le b inner
      have hlength := congrArg List.length hr
      rw [List.length_drop, List.length_cons] at hlength
      refine ⟨n, (Scan.lexeme b inner).length, (Scan.lexeme b inner).kind,
        (Scan.lexeme b inner).literal, ?_, hthere (by omega)⟩
      rw [next_of_lexeme hn hr, advance_advance]

/-- One step of a tiling: a legal token tiles the text up to the place behind it, and the end of
file tiles all of it. -/
theorem next_tiles (hlegal : c.next.1.kind ≠ .illegal) :
    (c.next.1.kind = .endOfFile ∧ Tiles c.pos c.rest [c.next.1]) ∨
      (c.next.1.kind ≠ .endOfFile ∧
        ∀ ts, Tiles c.next.2.pos c.next.2.rest ts → Tiles c.pos c.rest (c.next.1 :: ts)) := by
  cases hs : Scan.skip c.rest with
  | none =>
    have hleaves := Scan.trivia_leaves c.rest
    cases hn : Scan.trivia c.rest with
    | unclosed n =>
      rw [next_of_unclosed hn] at hlegal
      exact absurd rfl hlegal
    | clear n =>
      rw [hn, hs] at hleaves
      cases hleaves.2
  | some rest =>
    obtain ⟨gap, hrest, hgap, hskip⟩ := Scan.gap_of_skip hs
    obtain ⟨n, hn, hdrop⟩ := Scan.trivia_of_skip hs
    -- The cursor moves over the gap.
    have hpos : (c.advance n).pos = c.pos + gap.length := by
      have hlength := congrArg List.length hdrop
      rw [List.length_drop] at hlength
      rw [pos_advance]
      rw [hrest, List.length_append] at hlength ⊢
      omega
    cases rest with
    | nil =>
      rw [next_of_end hn hdrop, hrest, List.append_nil]
      exact .inl ⟨rfl, .done hgap rfl rfl hpos⟩
    | cons b inner =>
      rw [next_of_lexeme hn hdrop] at hlegal ⊢
      obtain ⟨w, text, more, htext, hw, hend⟩ := Terminal.starts_of_lexeme hlegal hskip
      obtain ⟨b', inner', rfl, -, hlexeme⟩ := hw.taken hend
      obtain ⟨rfl, rfl⟩ := List.cons.inj (htext.trans (List.cons_append ..))
      refine .inr ⟨Scan.kind_lexeme b (inner' ++ more), fun ts hts => ?_⟩
      rw [rest_advance, rest_advance, hdrop, pos_advance, rest_advance, hdrop, hlexeme,
        ← List.cons_append, List.drop_left, List.length_append,
        Nat.min_eq_left (Nat.le_add_right ..)] at hts
      rw [hrest, hlexeme]
      exact .cons hgap hw hend rfl rfl hpos hts

/-- The next token is one of the tokens. -/
theorem next_mem_tokens (fuel : Nat) (c : Cursor) : c.next.1 ∈ (c.tokens fuel).1 := by
  cases fuel with
  | zero => exact List.mem_singleton_self _
  | succ fuel =>
    rw [tokens]
    dsimp only
    split <;> exact List.mem_cons_self

/-- At the end of the file there is one token. -/
theorem tokens_of_end {fuel : Nat} (h : c.next.1.kind = .endOfFile) :
    (c.tokens fuel).1 = [c.next.1] := by
  cases fuel with
  | zero => rfl
  | succ fuel =>
    rw [tokens]
    dsimp only
    rw [if_pos h]

/-- Legal tokens tile the text in front of the cursor. -/
theorem tokens_tile {fuel : Nat} (hfuel : c.rest.length ≤ fuel)
    (hlegal : ∀ t ∈ (c.tokens fuel).1, t.kind ≠ .illegal) :
    Tiles c.pos c.rest (c.tokens fuel).1 := by
  induction fuel generalizing c with
  | zero =>
    obtain ⟨-, htiles⟩ | ⟨hkind, -⟩ := next_tiles (hlegal _ (next_mem_tokens 0 c))
    · exact htiles
    · have := length_rest_next hkind
      omega
  | succ fuel ih =>
    obtain ⟨hkind, htiles⟩ | ⟨hkind, htiles⟩ := next_tiles (hlegal _ (next_mem_tokens _ c))
    · rw [tokens_of_end hkind]
      exact htiles
    · have := length_rest_next hkind
      rw [tokens_of_ne hkind] at hlegal ⊢
      exact htiles _ (ih (by omega) fun t ht => hlegal t (List.mem_cons_of_mem _ ht))

/-! ## The stream of tokens -/

/-- Tokens never go back. -/
theorem pos_le_next (c : Cursor) : c.pos ≤ c.next.1.pos := by
  have hstart (n : Nat) : c.pos ≤ (c.advance n).pos := by
    rw [pos_advance]
    omega
  unfold next
  split
  · exact hstart _
  · dsimp only
    split <;> exact hstart _

/-- A token that is not the end of file stands in front of the place behind it. -/
theorem pos_next_lt (h : c.next.1.kind ≠ .endOfFile) : c.next.1.pos < c.next.2.pos := by
  cases hn : Scan.trivia c.rest with
  | unclosed n =>
    have hlt := Scan.trivia_endsBy c.rest
    rw [hn, Scan.Trivia.EndsBy] at hlt
    rw [next_of_unclosed hn]
    change (c.advance n).pos < _
    rw [pos_advance _ (c.advance n), rest_advance, List.length_drop]
    omega
  | clear n =>
    cases hr : c.rest.drop n with
    | nil =>
      rw [next_of_end hn hr] at h
      exact absurd rfl h
    | cons b inner =>
      have hlength := Scan.length_lexeme b inner
      rw [next_of_lexeme hn hr]
      change (c.advance n).pos < _
      rw [pos_advance _ (c.advance n), rest_advance, hr, List.length_cons]
      omega

/-- Tokens stand one behind the other, from the cursor on. -/
theorem tokens_sorted (fuel : Nat) (c : Cursor) :
    (c.tokens fuel).1.Pairwise (fun t u => t.pos < u.pos) ∧
      ∀ t ∈ (c.tokens fuel).1, c.pos ≤ t.pos := by
  induction fuel generalizing c with
  | zero => exact ⟨List.pairwise_singleton .., by simpa [tokens] using c.pos_le_next⟩
  | succ fuel ih =>
    have hfirst := c.pos_le_next
    by_cases hkind : c.next.1.kind = .endOfFile
    · rw [tokens_of_end hkind]
      exact ⟨List.pairwise_singleton .., by simpa using hfirst⟩
    · have hlt := pos_next_lt hkind
      obtain ⟨hsorted, hbehind⟩ := ih c.next.2
      rw [tokens_of_ne hkind]
      refine ⟨List.pairwise_cons.mpr ⟨fun t ht => ?_, hsorted⟩, ?_⟩
      · have := hbehind t ht
        omega
      · intro t ht
        rcases List.mem_cons.mp ht with rfl | ht
        · exact hfirst
        · have := hbehind t ht
          omega

/-- Behind the end of file there is the end of file again. -/
theorem next_next_of_end (h : c.next.1.kind = .endOfFile) : c.next.2.next = c.next := by
  cases hn : Scan.trivia c.rest with
  | unclosed n =>
    rw [next_of_unclosed hn] at h
    cases h
  | clear n =>
    cases hr : c.rest.drop n with
    | nil =>
      have hend : (c.advance n).rest = [] := by rw [rest_advance, hr]
      rw [next_of_end hn hr]
      exact next_of_end (n := 0) (by rw [hend]; rfl) (by rw [hend]; rfl)
    | cons b inner =>
      rw [next_of_lexeme hn hr] at h
      exact absurd h (Scan.kind_lexeme b inner)

/-- Behind the end of the file its token is repeated. -/
theorem take_of_end (h : c.next.1.kind = .endOfFile) (n : Nat) :
    c.take n = List.replicate n c.next.1 := by
  induction n generalizing c with
  | zero => rfl
  | succ n ih =>
    have hnext := next_next_of_end h
    rw [take, List.replicate_succ]
    dsimp only
    rw [ih (by rw [hnext]; exact h), hnext]

/-- **The stream of tokens**: at most one for each byte, and then the end of file without end. -/
theorem tokens_stream {fuel : Nat} (hfuel : c.rest.length ≤ fuel) :
    ∃ ts t, (c.tokens fuel).1 = ts ++ [t] ∧ ts.length ≤ c.rest.length ∧
      (∀ u ∈ ts, u.kind ≠ .endOfFile) ∧ t.kind = .endOfFile ∧
      ∀ n, c.take (ts.length + n) = ts ++ List.replicate n t := by
  induction fuel generalizing c with
  | zero =>
    by_cases hkind : c.next.1.kind = .endOfFile
    · refine ⟨[], c.next.1, rfl, Nat.zero_le _, by simp, hkind, fun n => ?_⟩
      rw [List.length_nil, Nat.zero_add, take_of_end hkind, List.nil_append]
    · have := length_rest_next hkind
      omega
  | succ fuel ih =>
    by_cases hkind : c.next.1.kind = .endOfFile
    · refine ⟨[], c.next.1, tokens_of_end hkind, Nat.zero_le _, by simp, hkind, fun n => ?_⟩
      rw [List.length_nil, Nat.zero_add, take_of_end hkind, List.nil_append]
    · -- Any other token takes bytes, so less fuel is enough for the rest.
      have hlt := length_rest_next hkind
      obtain ⟨ts, t, hts, hlength, hbefore, ht, htake⟩ := ih (c := c.next.2) (by omega)
      refine ⟨c.next.1 :: ts, t, ?_, ?_, ?_, ht, fun n => ?_⟩
      · rw [tokens_of_ne hkind, hts, List.cons_append]
      · rw [List.length_cons]
        omega
      · exact List.forall_mem_cons.mpr ⟨hkind, hbefore⟩
      · rw [List.length_cons, Nat.add_right_comm, take]
        dsimp only
        rw [htake, List.cons_append]

end Cursor

/-! ## Source texts -/

namespace Token

/-- **Scanning loses nothing and adds nothing.** If there is no illegal token, the tokens tile the
text. In every text the tokens stand one behind the other, there are at most as many of them as
bytes, and from then on there is the end of file, at the end of the text. -/
theorem scan_lossless (source : Bytes) :
    ((∀ t ∈ scan source, t.kind ≠ .illegal) → Tiles 0 source (scan source)) ∧
      (scan source).Pairwise (fun t u => t.pos < u.pos) ∧
      ∃ ts e, scan source = ts ++ [e] ∧ ts.length ≤ source.length ∧
        (∀ t ∈ ts, t.kind ≠ .endOfFile) ∧ e.kind = .endOfFile ∧ e.pos = source.length ∧
        ∀ n, (⟨source, 0, 1, 1⟩ : Cursor).take (ts.length + n) = ts ++ List.replicate n e := by
  refine ⟨fun hlegal => ?_, (Cursor.tokens_sorted _ _).1, ?_⟩
  · exact Cursor.tokens_tile (c := ⟨source, 0, 1, 1⟩) (Nat.le_refl _) hlegal
  · obtain ⟨ts, e, hts, hlength, hbefore, he, htake⟩ :=
      Cursor.tokens_stream (c := ⟨source, 0, 1, 1⟩) (Nat.le_refl _)
    refine ⟨ts, e, hts, hlength, hbefore, he, ?_, htake⟩
    have hstart : Cursor.Within source.length ⟨source, 0, 1, 1⟩ := Nat.zero_add _
    refine hstart.tokens_end source.length e ?_ he
    rw [hts]
    exact List.mem_append_right _ (List.mem_singleton_self e)

/-- Comments of both sorts next to divisions, operators that share bytes, and escaped quotes. -/
def medley : Bytes := "/**/a+++b/ /*/ */c // ''
int9->'\\''\"//\""

theorem scan_lossless_medley :
    (scan medley).map (fun t => (t.literal, t.pos)) =
        ([("a", 4), ("++", 5), ("+", 7), ("b", 8), ("/", 9), ("c", 17), ("int9", 25), ("->", 29),
          ("'", 31), ("//", 35), ("", 39)] : List (Bytes × Nat)) ∧
      (∀ t ∈ scan medley, t.kind ≠ .illegal) ∧ Tiles 0 medley (scan medley) := by
  have hlegal : ∀ t ∈ scan medley, t.kind ≠ .illegal := by decide +kernel
  exact ⟨by decide +kernel, hlegal, (scan_lossless medley).1 hlegal⟩

end Token

end DirectC
