/-
# Lines and columns

A place in a text has a line and a column: one more than the newlines before it, and one more than
the bytes between the last of them and the place. The scanner counts both as it goes, and a
diagnostic counts them anew from an offset. They agree on every token, illegal ones and repeated
ends of file among them (`Token.lineColumn_eq`).

The source line that a diagnostic shows is found by looking both ways for a newline. It is the line
of the text that the count gives, and the column leads to the byte at the offset
(`Diagnostic.caret_under_byte`).
-/
import DirectC.Diagnostic
import DirectC.Proofs.Scanner
import Mathlib.Data.List.DropRight

namespace DirectC

/-! ## Lines of a text -/

namespace Bytes

/-- There is a line at least. -/
theorem split_ne_nil (separator : UInt8) (text : Bytes) : split separator text ≠ [] := by
  cases text with
  | nil => simp [split]
  | cons b text =>
    rw [split]
    split
    · simp
    · split <;> simp

/-- The first string ends before the first separator. -/
theorem head?_split (separator : UInt8) (text : Bytes) :
    (split separator text).head? = some (text.takeWhile (· != separator)) := by
  induction text with
  | nil => rfl
  | cons b text ih =>
    rw [split]
    by_cases hb : b = separator
    · simp [hb]
    · rw [if_neg (by simpa using hb), List.takeWhile_cons_of_pos (by simpa using hb)]
      obtain ⟨part, parts, hparts⟩ := List.exists_cons_of_ne_nil (split_ne_nil separator text)
      rw [hparts, List.head?_cons, Option.some_inj] at ih
      rw [hparts, ih]
      rfl

/-- There is one string more than there are separators. -/
theorem length_split (separator : UInt8) (text : Bytes) :
    (split separator text).length = text.count separator + 1 := by
  induction text with
  | nil => rfl
  | cons b text ih =>
    rw [split]
    by_cases hb : b = separator
    · rw [if_pos (by simpa using hb), List.length_cons, ih, hb, List.count_cons_self]
    · obtain ⟨part, parts, hparts⟩ := List.exists_cons_of_ne_nil (split_ne_nil separator text)
      rw [if_neg (by simpa using hb), List.count_cons_of_ne hb, ← ih, hparts]
      rfl

/-- A text can be split at one of its separators first. -/
theorem split_append_cons (separator : UInt8) (text rest : Bytes) :
    split separator (text ++ separator :: rest) =
      split separator text ++ split separator rest := by
  induction text with
  | nil => simp [split]
  | cons b text ih =>
    rw [List.cons_append, split, split, ih]
    by_cases hb : b = separator
    · simp [hb]
    · obtain ⟨part, parts, hparts⟩ := List.exists_cons_of_ne_nil (split_ne_nil separator text)
      rw [if_neg (by simpa using hb), if_neg (by simpa using hb), hparts]
      rfl

/-- The bytes behind the last newline. -/
def lastLine (text : Bytes) : Bytes :=
  text.rtakeWhile (· != 10)

/-- Behind a newline the last line is empty. -/
theorem lastLine_newline (text : Bytes) : lastLine (text ++ [10]) = [] :=
  List.rtakeWhile_concat_neg _ _ 10 (by decide)

/-- The last line grows with each byte but a newline. -/
theorem lastLine_concat {b : UInt8} (hb : b ≠ 10) (text : Bytes) :
    lastLine (text ++ [b]) = lastLine text ++ [b] :=
  List.rtakeWhile_concat_pos _ _ b (by simpa using hb)

/-- **The line around a place**: the bytes behind the last newline before it, and those in front of
the first newline behind it. Its number is that of the newlines before the place. -/
theorem getElem?_split (text rest : Bytes) :
    (split 10 (text ++ rest))[text.count 10]? =
      some (lastLine text ++ rest.takeWhile (· != 10)) := by
  -- From the end of `text` on, since the line grows there.
  induction text using List.reverseRecOn generalizing rest with
  | nil =>
    rw [List.nil_append, List.count_nil, ← List.head?_eq_getElem?, head?_split]
    rfl
  | append_singleton text b ih =>
    rw [List.append_assoc, List.singleton_append]
    by_cases hb : b = 10
    · rw [hb, split_append_cons, List.count_append, List.count_singleton_self, ← length_split,
        List.getElem?_append_right (Nat.le_refl _), Nat.sub_self, ← List.head?_eq_getElem?,
        head?_split, lastLine_newline, List.nil_append]
    · rw [List.count_append, List.count_singleton, if_neg (by simpa using hb), Nat.add_zero, ih,
        lastLine_concat hb, List.takeWhile_cons_of_pos (by simpa using hb), List.append_assoc]
      rfl

end Bytes

namespace Diagnostic

/-- Line and column behind a text. -/
theorem foldl_advance (text : Bytes) :
    text.foldl advance (1, 1) = (text.count 10 + 1, (Bytes.lastLine text).length + 1) := by
  induction text using List.reverseRecOn with
  | nil => rfl
  | append_singleton text b ih =>
    rw [List.foldl_concat, ih, advance, List.count_append, List.count_singleton]
    by_cases hb : b = 10
    · rw [hb, Bytes.lastLine_newline]
      rfl
    · rw [Bytes.lastLine_concat hb, if_neg (by simpa using hb), if_neg (by simpa using hb),
        List.length_append]
      rfl

end Diagnostic

/-! ## The places of tokens -/

/-- The line and the column of a token are those of its offset in the text. -/
structure Token.Placed (source : Bytes) (t : Token) : Prop where
  inside : t.pos ≤ source.length
  place : (t.line, t.column) = (source.take t.pos).foldl Diagnostic.advance (1, 1)

namespace Cursor

variable {source : Bytes} {c : Cursor}

/-- The cursor stands in the text, and its line and its column are those of its offset. -/
structure Placed (source : Bytes) (c : Cursor) : Prop where
  inside : c.pos ≤ source.length
  rest : c.rest = source.drop c.pos
  place : (c.line, c.column) = (source.take c.pos).foldl Diagnostic.advance (1, 1)

theorem placed_start (source : Bytes) : Placed source ⟨source, 0, 1, 1⟩ :=
  ⟨Nat.zero_le _, rfl, rfl⟩

/-- One step goes on in the line, or to the next one. -/
theorem Placed.step (h : c.Placed source) : c.step.Placed source := by
  have hrest := h.rest
  unfold Cursor.step
  cases hc : c.rest with
  | nil => exact h
  | cons b rest =>
    rw [hc] at hrest
    have hlt : c.pos < source.length := by
      by_contra hge
      rw [List.drop_eq_nil_of_le (by omega)] at hrest
      cases hrest
    have hb : source[c.pos]? = some b := by
      rw [← List.head?_drop, ← hrest]
      rfl
    have htake : source.take (c.pos + 1) = source.take c.pos ++ [b] := by
      rw [List.take_add_one, hb]
      rfl
    have hdrop : rest = source.drop (c.pos + 1) := by
      rw [← List.tail_drop, ← hrest]
      rfl
    -- The cursor counts lines and columns as a fold over the text before it does.
    have hplace : Diagnostic.advance (c.line, c.column) b =
        (source.take (c.pos + 1)).foldl Diagnostic.advance (1, 1) := by
      rw [htake, List.foldl_concat, h.place]
    unfold Diagnostic.advance at hplace
    dsimp only
    split
    · rename_i hnewline
      rw [if_pos hnewline] at hplace
      exact ⟨hlt, hdrop, hplace⟩
    · rename_i hother
      rw [if_neg hother] at hplace
      exact ⟨hlt, hdrop, hplace⟩

/-- Any number of steps goes on in the line, or to later ones. -/
theorem Placed.advance (h : c.Placed source) (n : Nat) : (c.advance n).Placed source := by
  induction n generalizing c with
  | zero => exact h
  | succ n ih => exact ih h.step

/-- A token is where the cursor is. -/
theorem Placed.token (h : c.Placed source) (kind : Token.Kind) (literal : Bytes) :
    (c.token kind literal).Placed source :=
  ⟨h.inside, h.place⟩

/-- Whatever the next token is, it starts at the cursor moved over some bytes. -/
theorem Placed.next (h : c.Placed source) :
    c.next.1.Placed source ∧ c.next.2.Placed source := by
  unfold Cursor.next
  split
  · exact ⟨(h.advance _).token _ _, (h.advance _).advance _⟩
  · dsimp only
    split
    · exact ⟨(h.advance _).token _ _, h.advance _⟩
    · exact ⟨(h.advance _).token _ _, (h.advance _).advance _⟩

/-- All tokens are where the cursor was. -/
theorem Placed.tokens (h : c.Placed source) (fuel : Nat) :
    (∀ t ∈ (c.tokens fuel).1, t.Placed source) ∧ (c.tokens fuel).2.Placed source := by
  induction fuel generalizing c with
  | zero => exact ⟨fun t ht => List.mem_singleton.mp ht ▸ h.next.1, h.next.2⟩
  | succ fuel ih =>
    unfold Cursor.tokens
    dsimp only
    split
    · exact ⟨fun t ht => List.mem_singleton.mp ht ▸ h.next.1, h.next.2⟩
    · obtain ⟨hmore, hlast⟩ := ih h.next.2
      refine ⟨fun t ht => ?_, hlast⟩
      rcases List.mem_cons.mp ht with rfl | ht
      · exact h.next.1
      · exact hmore t ht

theorem Placed.take (h : c.Placed source) (n : Nat) : ∀ t ∈ c.take n, t.Placed source := by
  induction n generalizing c with
  | zero => simp [Cursor.take]
  | succ n ih =>
    intro t ht
    rcases List.mem_cons.mp ht with rfl | ht
    · exact h.next.1
    · exact ih h.next.2 t ht

end Cursor

namespace Token

/-- **Every token knows its line and its column.** -/
theorem placed_scanBeyond {source : Bytes} {n : Nat} {t : Token} (h : t ∈ scanBeyond source n) :
    t.Placed source := by
  obtain ⟨htokens, hlast⟩ := (Cursor.placed_start source).tokens source.length
  rcases List.mem_append.mp h with h | h
  · exact htokens t h
  · exact hlast.take n t h

/-- A diagnostic at the offset of a token computes its line and its column. -/
theorem Placed.lineColumn {source : Bytes} {t : Token} {d : Diagnostic} (h : t.Placed source)
    (hsource : d.source = source) (hpos : d.pos = t.pos) : d.lineColumn = (t.line, t.column) := by
  have hoffset : d.offset = t.pos := by
    rw [Diagnostic.offset, hpos, hsource, Int.toNat_natCast, Nat.min_eq_left h.inside]
  rw [Diagnostic.lineColumn, hoffset, hsource, h.place]

/-- **The places of tokens and of diagnostics agree.** Every token that the scanner yields on a
text, up to the end of file and as often as it is asked behind it, has the line and the column that
a diagnostic at its offset computes; and so has every token of those that come first, however many
they are. -/
theorem lineColumn_eq (source : Bytes) (n : Nat) (t : Token)
    (h : t ∈ scanBeyond source n ∨ t ∈ Cursor.take n ⟨source, 0, 1, 1⟩) (d : Diagnostic)
    (hsource : d.source = source) (hpos : d.pos = t.pos) : d.lineColumn = (t.line, t.column) := by
  have hplaced : t.Placed source := by
    rcases h with h | h
    · exact placed_scanBeyond h
    · exact (Cursor.placed_start source).take n t h
  exact hplaced.lineColumn hsource hpos

/-- A comment over two lines, a string that breaks off before a newline, a comment that is not
closed, and the end of file twice. -/
theorem lineColumn_eq_broken :
    scanBeyond "/* a\n */ \"b\n /*" 1 =
        [⟨.illegal, "b", 9, 2, 5⟩, ⟨.illegal, "/*", 13, 3, 2⟩, ⟨.endOfFile, [], 15, 3, 4⟩,
          ⟨.endOfFile, [], 15, 3, 4⟩] ∧
      Diagnostic.lineColumn ⟨.syntactic, "f.c", "/* a\n */ \"b\n /*", 13, []⟩ = (3, 2) := by
  have hscan : scanBeyond "/* a\n */ \"b\n /*" 1 =
      [⟨.illegal, "b", 9, 2, 5⟩, ⟨.illegal, "/*", 13, 3, 2⟩, ⟨.endOfFile, [], 15, 3, 4⟩,
        ⟨.endOfFile, [], 15, 3, 4⟩] := by decide
  refine ⟨hscan,
    lineColumn_eq "/* a\n */ \"b\n /*" 1 ⟨.illegal, "/*", 13, 3, 2⟩ (.inl ?_) _ rfl rfl⟩
  rw [hscan]
  exact List.mem_cons_of_mem _ List.mem_cons_self

end Token

/-! ## The caret -/

namespace Diagnostic

/-- The line that is shown has a part before the place and a part behind it. -/
theorem sourceLine_eq (d : Diagnostic) :
    d.sourceLine =
      Bytes.lastLine (d.source.take d.offset) ++ (d.source.drop d.offset).takeWhile (· != 10) :=
  rfl

/-- The line that is shown is one line. -/
theorem newline_notMem_sourceLine (d : Diagnostic) : 10 ∉ d.sourceLine := by
  rw [sourceLine_eq, List.mem_append]
  rintro (h | h)
  · exact absurd (List.mem_rtakeWhile_imp h) (by decide)
  · exact absurd (List.mem_takeWhile_imp h) (by decide)

/-- Behind the bytes of its line, the offset leads to its own byte. -/
theorem getElem?_sourceLine {d : Diagnostic} {b : UInt8}
    (hb : d.source[d.pos.toNat]? = some b) (hne : b ≠ 10) :
    d.sourceLine[(Bytes.lastLine (d.source.take d.offset)).length]? = some b := by
  have hlt : d.pos.toNat < d.source.length := (List.getElem?_eq_some_iff.mp hb).1
  have hoffset : d.offset = d.pos.toNat := Nat.min_eq_left (by omega)
  obtain ⟨rest, hrest⟩ : ∃ rest, d.source.drop d.offset = b :: rest := by
    refine List.head?_eq_some_iff.mp ?_
    rw [List.head?_drop, hoffset, hb]
  rw [sourceLine_eq, hrest, List.takeWhile_cons_of_pos (by simpa using hne),
    List.getElem?_append_right (Nat.le_refl _), Nat.sub_self]
  rfl

/-- **The caret stands under the offending byte.** Whatever the offset of a diagnostic is, inside
its text or not, the source line that it shows has no newline and is the line of the text with its
number, and its column is that of a byte of this line or of the end of it. A byte at the offset
that is no newline stands in this column. If there is an offset at all, the diagnostic is rendered
with this line and, below it, a caret behind as many blanks as there are columns before it. -/
theorem caret_under_byte (d : Diagnostic) :
    ∃ line column, d.lineColumn = (line + 1, column + 1) ∧ 10 ∉ d.sourceLine ∧
      (Bytes.split 10 d.source)[line]? = some d.sourceLine ∧ column ≤ d.sourceLine.length ∧
      (0 ≤ d.pos → ∀ b, d.source[d.pos.toNat]? = some b → b ≠ 10 →
        d.sourceLine[column]? = some b) ∧
      (0 ≤ d.pos → ∀ style : Style, d.render style =
        Bytes.say [d.file, ":", .ofNat (line + 1), ":", .ofNat (column + 1), ": ",
          style.kind d.kind.text, ": ", d.message, "\n",
          d.sourceLine, "\n",
          List.replicate column 32, style.caret "^", "\n"]) := by
  have hplace : d.lineColumn = ((d.source.take d.offset).count 10 + 1,
      (Bytes.lastLine (d.source.take d.offset)).length + 1) := foldl_advance _
  have hline := Bytes.getElem?_split (d.source.take d.offset) (d.source.drop d.offset)
  rw [List.take_append_drop, ← sourceLine_eq] at hline
  refine ⟨_, _, hplace, d.newline_notMem_sourceLine, hline, ?_, fun _ b => getElem?_sourceLine,
    fun hpos style => ?_⟩
  · rw [sourceLine_eq, List.length_append]
    exact Nat.le_add_right _ _
  · have hplaced : ¬ d.pos < 0 := Int.not_lt.mpr hpos
    simp only [render, header, hplace, if_neg hplaced, Bytes.say, List.flatten_cons,
      List.flatten_nil, List.append_assoc, List.append_nil, Nat.add_sub_cancel]

/-- Behind the last newline there is an empty line. -/
example : render ⟨.syntactic, "f.c", "int a\n", 6, "unexpected end"⟩ =
    ("f.c:2:1: syntax error: unexpected end\n\n^\n" : Bytes) := by decide

end Diagnostic

end DirectC
