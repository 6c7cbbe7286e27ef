/-
# Where tokens stand

A cursor moves over its text byte by byte and stops at its end. So the bytes behind it and the bytes
ahead of it always make up the text, and every token starts inside the text or at its end
(`Token.pos_le_of_mem_scan`). Every token but the end of file takes a byte at least, so the bytes
bound the tokens, and the end of file is the last one (`Token.scan_ended`). Identifiers are words
(`Token.word_of_mem_scan`).
-/
import DirectC.Scanner

namespace DirectC

namespace Cursor

variable {n : Nat} {c : Cursor}

/-- A place in a text of `n` bytes. -/
def Within (n : Nat) (c : Cursor) : Prop :=
  c.pos + c.rest.length = n

/-- One step stays within the text. -/
theorem Within.step (h : c.Within n) : c.step.Within n := by
  unfold Within at h ⊢
  unfold Cursor.step
  cases hr : c.rest with
  | nil =>
    rw [hr] at h
    simpa [hr] using h
  | cons b rest =>
    rw [hr, List.length_cons] at h
    dsimp only
    split <;> (dsimp only; omega)

/-- Any number of steps stays within the text. -/
theorem Within.advance (h : c.Within n) (k : Nat) : (c.advance k).Within n := by
  induction k generalizing c with
  | zero => exact h
  | succ k ih => exact ih h.step

/-- The next token starts in the text, and the place behind it is in the text. -/
theorem Within.next (h : c.Within n) : c.next.1.pos ≤ n ∧ c.next.2.Within n := by
  have hstart : ∀ k, (c.advance k).pos ≤ n := fun k => by
    have := h.advance k
    unfold Within at this
    omega
  unfold Cursor.next
  split
  · exact ⟨hstart _, (h.advance _).advance _⟩
  · dsimp only
    split
    · exact ⟨hstart _, h.advance _⟩
    · exact ⟨hstart _, (h.advance _).advance _⟩

/-- All tokens are within the text. -/
theorem Within.tokens (h : c.Within n) (fuel : Nat) : ∀ t ∈ (c.tokens fuel).1, t.pos ≤ n := by
  induction fuel generalizing c with
  | zero =>
    intro t ht
    rw [List.mem_singleton.mp ht]
    exact h.next.1
  | succ fuel ih =>
    intro t ht
    unfold Cursor.tokens at ht
    dsimp only at ht
    split at ht
    · rw [List.mem_singleton.mp ht]
      exact h.next.1
    · rcases List.mem_cons.mp ht with rfl | ht
      · exact h.next.1
      · exact ih h.next.2 t ht

end Cursor

/-- **Tokens stand in their text**, the end of file at its end. -/
theorem Token.pos_le_of_mem_scan {source : Bytes} {t : Token} (h : t ∈ Token.scan source) :
    t.pos ≤ source.length := by
  have hstart : Cursor.Within source.length ⟨source, 0, 1, 1⟩ := Nat.zero_add _
  exact hstart.tokens _ t h

/-! ## The last token -/

namespace Scan

theorem length_takeWhile_pos {p : UInt8 → Bool} {b : UInt8} {rest : Bytes} (h : p b) :
    0 < ((b :: rest).takeWhile p).length := by
  rw [List.takeWhile_cons_of_pos h]
  exact Nat.succ_pos _

/-- No operator is empty. -/
theorem length_punct? {b : UInt8} {rest : Bytes} {l : Lexeme} (h : punct? b rest = some l) :
    0 < l.length := by
  unfold punct? at h
  split at h
  · cases h
    exact Nat.succ_pos _
  · obtain ⟨p, -, rfl⟩ := Option.map_eq_some_iff.mp h
    exact Nat.succ_pos _

/-- A lexeme takes at least one byte. -/
theorem length_lexeme (b : UInt8) (rest : Bytes) : 0 < (lexeme b rest).length := by
  unfold lexeme
  split
  · exact Nat.succ_pos _
  · split
    · exact Nat.succ_pos _
    · split
      · rename_i h
        exact length_takeWhile_pos (by simp [isWordByte, h])
      · split
        · rename_i h
          exact length_takeWhile_pos h
        · cases hp : punct? b rest with
          | none => exact Nat.succ_pos _
          | some l => exact length_punct? hp

end Scan

namespace Cursor

theorem rest_step (c : Cursor) : c.step.rest = c.rest.drop 1 := by
  unfold step
  cases hr : c.rest with
  | nil => simpa using hr
  | cons b rest =>
    dsimp only
    split <;> rfl

/-- Steps drop bytes. -/
theorem rest_advance (n : Nat) (c : Cursor) : (c.advance n).rest = c.rest.drop n := by
  induction n generalizing c with
  | zero => rfl
  | succ n ih =>
    rw [advance, ih, rest_step, List.drop_drop, Nat.add_comm]

/-- A token that is not the end of file takes bytes of the text. -/
theorem length_rest_next {c : Cursor} (h : c.next.1.kind ≠ .endOfFile) :
    c.next.2.rest.length < c.rest.length := by
  unfold next at h ⊢
  cases ht : Scan.trivia c.rest with
  | unclosed n =>
    simp only [rest_advance, List.drop_drop, List.length_drop]
    have hpos : 0 < c.rest.length := by
      cases hr : c.rest with
      | nil =>
        rw [hr] at ht
        cases ht
      | cons b rest => exact Nat.succ_pos _
    omega
  | clear n =>
    simp only [ht] at h ⊢
    have hrest := rest_advance n c
    cases hr : (c.advance n).rest with
    | nil =>
      simp only [hr] at h
      exact absurd rfl h
    | cons b rest =>
      -- A lexeme is not empty, wherever the trivia before it ends.
      have hlexeme := Scan.length_lexeme b rest
      have hlength : c.rest.length - n = rest.length + 1 := by
        rw [← List.length_drop, ← hrest, hr, List.length_cons]
      simp only [rest_advance, List.length_drop]
      omega

/-- With a token for each byte the end of file is reached. -/
theorem tokens_ended {fuel : Nat} {c : Cursor} (h : c.rest.length ≤ fuel) :
    ∃ ts t, (c.tokens fuel).1 = ts ++ [t] ∧ t.kind = .endOfFile := by
  induction fuel generalizing c with
  | zero =>
    by_cases hkind : c.next.1.kind = .endOfFile
    · exact ⟨[], c.next.1, rfl, hkind⟩
    · have := length_rest_next hkind
      omega
  | succ fuel ih =>
    unfold tokens
    dsimp only
    by_cases hkind : c.next.1.kind = .endOfFile
    · rw [if_pos hkind]
      exact ⟨[], c.next.1, rfl, hkind⟩
    · rw [if_neg hkind]
      have := length_rest_next hkind
      obtain ⟨ts, t, hts, ht⟩ := ih (c := c.next.2) (by omega)
      exact ⟨c.next.1 :: ts, t, by rw [hts]; rfl, ht⟩

end Cursor

/-- **The end of file is the last token** of every text. -/
theorem Token.scan_ended (source : Bytes) :
    ∃ ts t, Token.scan source = ts ++ [t] ∧ t.kind = .endOfFile :=
  Cursor.tokens_ended (Nat.le_refl _)

/-! ## The position of the end -/

/-- An operator is scanned as one. -/
theorem Scan.kind_punct? {b : UInt8} {rest : Bytes} {l : Lexeme} (h : punct? b rest = some l) :
    ∃ p, l.kind = .punct p := by
  unfold punct? at h
  split at h
  · cases h
    exact ⟨_, rfl⟩
  · obtain ⟨p, -, rfl⟩ := Option.map_eq_some_iff.mp h
    exact ⟨p, rfl⟩

/-- No lexeme is the end of file. -/
theorem Scan.kind_lexeme (b : UInt8) (rest : Bytes) : (lexeme b rest).kind ≠ .endOfFile := by
  unfold lexeme
  split
  · unfold stringLexeme
    dsimp only
    split <;> simp
  · split
    · unfold characterLexeme
      dsimp only
      split <;> simp
    · split
      · unfold wordLexeme Token.Kind.ofWord
        dsimp only
        split <;> simp
      · split
        · simp [numberLexeme]
        · cases hp : punct? b rest with
          | none => simp
          | some l =>
            obtain ⟨p, hl⟩ := kind_punct? hp
            simp [hl]

namespace Cursor

variable {n : Nat} {c : Cursor}

/-- The end of file stands at the end of the text. -/
theorem Within.pos_end (h : c.Within n) (hk : c.next.1.kind = .endOfFile) : c.next.1.pos = n := by
  unfold Cursor.next at hk ⊢
  cases ht : Scan.trivia c.rest with
  | unclosed k =>
    simp only [ht] at hk
    cases hk
  | clear k =>
    simp only [ht] at hk ⊢
    have hstart := h.advance k
    cases hr : (c.advance k).rest with
    | nil =>
      rw [Within, hr] at hstart
      exact hstart
    | cons b rest =>
      simp only [hr] at hk
      exact absurd hk (Scan.kind_lexeme b rest)

/-- The end of the file is at the end of the text. -/
theorem Within.tokens_end (h : c.Within n) (fuel : Nat) :
    ∀ t ∈ (c.tokens fuel).1, t.kind = .endOfFile → t.pos = n := by
  induction fuel generalizing c with
  | zero =>
    intro t ht
    rw [List.mem_singleton.mp ht]
    exact h.pos_end
  | succ fuel ih =>
    intro t ht
    unfold Cursor.tokens at ht
    dsimp only at ht
    split at ht
    · rw [List.mem_singleton.mp ht]
      exact h.pos_end
    · rcases List.mem_cons.mp ht with rfl | ht
      · exact h.pos_end
      · exact ih h.next.2 t ht

end Cursor

/-- **The last token is the end of file**, at the end of the text. -/
theorem Token.scan_last (source : Bytes) :
    ∃ ts t, Token.scan source = ts ++ [t] ∧ t.kind = .endOfFile ∧ t.pos = source.length := by
  obtain ⟨ts, t, hts, ht⟩ := Token.scan_ended source
  have hstart : Cursor.Within source.length ⟨source, 0, 1, 1⟩ := Nat.zero_add _
  refine ⟨ts, t, hts, ht, hstart.tokens_end source.length t ?_ ht⟩
  change t ∈ Token.scan source
  simp [hts]

/-! ## Identifiers -/

/-- The lexeme of an identifier is a word. -/
theorem Scan.word_lexeme {b : UInt8} {rest : Bytes} (h : (lexeme b rest).kind = .identifier) :
    ∀ c ∈ (lexeme b rest).literal, isWordByte c := by
  unfold lexeme at h ⊢
  split at h
  · unfold stringLexeme at h
    dsimp only at h
    split at h <;> cases h
  · rename_i hquote
    rw [if_neg hquote]
    split at h
    · unfold characterLexeme at h
      dsimp only at h
      split at h <;> cases h
    · rename_i htick
      rw [if_neg htick]
      split at h
      · -- Of all lexemes only this one is a word.
        rename_i hletter
        rw [if_pos hletter]
        intro c hc
        exact List.all_eq_true.mp List.all_takeWhile c hc
      · split at h
        · cases h
        · cases hp : punct? b rest with
          | none =>
            rw [hp] at h
            cases h
          | some l =>
            rw [hp] at h
            obtain ⟨p, hl⟩ := kind_punct? hp
            rw [Option.getD_some, hl] at h
            cases h

namespace Cursor

/-- Names have the bytes of words. -/
theorem word_next {c : Cursor} (h : c.next.1.kind = .identifier) :
    ∀ b ∈ c.next.1.literal, Scan.isWordByte b := by
  unfold next at h ⊢
  cases ht : Scan.trivia c.rest with
  | unclosed n =>
    simp only [ht] at h
    cases h
  | clear n =>
    simp only [ht] at h ⊢
    cases hr : (c.advance n).rest with
    | nil =>
      simp only [hr] at h
      cases h
    | cons b rest =>
      simp only [hr] at h
      exact Scan.word_lexeme h

/-- All names among the tokens have the bytes of words. -/
theorem word_tokens (fuel : Nat) (c : Cursor) :
    ∀ t ∈ (c.tokens fuel).1, t.kind = .identifier → ∀ b ∈ t.literal, Scan.isWordByte b := by
  induction fuel generalizing c with
  | zero =>
    intro t ht
    rw [List.mem_singleton.mp ht]
    exact word_next
  | succ fuel ih =>
    intro t ht
    unfold tokens at ht
    dsimp only at ht
    split at ht
    · rw [List.mem_singleton.mp ht]
      exact word_next
    · rcases List.mem_cons.mp ht with rfl | ht
      · exact word_next
      · exact ih _ t ht

end Cursor

/-- **Identifiers are words.** -/
theorem Token.word_of_mem_scan {source : Bytes} {t : Token} (h : t ∈ Token.scan source)
    (hkind : t.kind = .identifier) : ∀ b ∈ t.literal, Scan.isWordByte b :=
  Cursor.word_tokens _ _ t h hkind

end DirectC
