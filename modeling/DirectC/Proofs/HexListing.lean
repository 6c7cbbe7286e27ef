/-
# Reading listings

A listing is lines of text: headings, and lines of bytes. `HexDump.read` takes it apart again, line
by line, into one entry for every heading, with the lines of bytes under it.

Main statements: `read_text`, which says that the text of entries reads back as these entries, and
`chunks_flatten` and `chunks_full`, which say how the bytes of an entry are spread over its lines.
-/
import DirectC.HexDump
import DirectC.Proofs.Basic
import DirectC.Proofs.Places

namespace DirectC

/-! ## Digits -/

namespace Bytes

/-- The sixteen digits have their values, and are neither blanks nor newlines. -/
theorem hexValue?_hexDigit {n : Nat} (h : n < 16) :
    hexValue? (hexDigit n) = some n ∧ hexDigit n ≠ 32 ∧ hexDigit n ≠ 10 := by
  have hall : ∀ n : Fin 16, hexValue? (hexDigit n) = some n.val ∧ hexDigit n ≠ 32 ∧
      hexDigit n ≠ 10 := by decide
  exact hall ⟨n, h⟩

/-- A byte is written in digits. -/
theorem mem_hexByte {b c : UInt8} (h : c ∈ hexByte b) : ∃ n < 16, c = hexDigit n := by
  have hb := b.toNat_lt
  rcases List.mem_cons.mp h with rfl | h
  · exact ⟨b.toNat / 16, by omega, rfl⟩
  · exact ⟨b.toNat % 16, by omega, List.mem_singleton.mp h⟩

/-- A byte is read back from its digits. -/
theorem ofHex?_hexByte (b : UInt8) (rest : Bytes) :
    ofHex? (hexByte b ++ rest) = (ofHex? rest).map (b :: ·) := by
  have hb := b.toNat_lt
  have hhigh := (hexValue?_hexDigit (n := b.toNat / 16) (by omega)).1
  have hlow := (hexValue?_hexDigit (n := b.toNat % 16) (by omega)).1
  have hbyte : (16 * (b.toNat / 16) + b.toNat % 16).toUInt8 = b := by
    rw [Nat.div_add_mod]
    exact UInt8.ofNat_toNat
  rw [hexByte, List.cons_append, List.singleton_append, ofHex?, hhigh, hlow]
  cases ofHex? rest with
  | none => rfl
  | some bs => exact congrArg (some <| · :: bs) hbyte

/-- Bytes in hexadecimal read back. -/
theorem ofHex?_hex (bs : Bytes) : ofHex? (hex bs) = some bs := by
  induction bs with
  | nil => rfl
  | cons b bs ih => rw [hex, List.flatMap_cons, ofHex?_hexByte, ← hex, ih, Option.map_some]

/-- The number that hexadecimal digits stand for. -/
def ofHexDigits? (digits : Bytes) : Option Nat :=
  digits.foldlM (fun n d => (hexValue? d).map (16 * n + ·)) 0

/-- A number is read back, as far as its digits go. -/
theorem ofHexDigits?_hexDigits (count n : Nat) :
    ofHexDigits? (hexDigits count n) = some (n % 16 ^ count) := by
  induction count generalizing n with
  | zero => rw [Nat.pow_zero, Nat.mod_one]; rfl
  | succ count ih =>
    have hdigit := (hexValue?_hexDigit (Nat.mod_lt n (by decide : 0 < 16))).1
    have ih' := ih (n / 16)
    unfold ofHexDigits? at ih' ⊢
    rw [hexDigits, List.foldlM_append, ih', Nat.pow_succ', Nat.mod_mul]
    simp [hdigit, Nat.add_comm]

theorem length_hexDigits (count n : Nat) : (hexDigits count n).length = count := by
  induction count generalizing n with
  | zero => rfl
  | succ count ih => rw [hexDigits, List.length_append, ih, List.length_singleton]

/-- A number is written in digits. -/
theorem mem_hexDigits {count n : Nat} {c : UInt8} (h : c ∈ hexDigits count n) :
    ∃ d < 16, c = hexDigit d := by
  induction count generalizing n with
  | zero => cases h
  | succ count ih =>
    rcases List.mem_append.mp h with h | h
    · exact ih h
    · exact ⟨n % 16, Nat.mod_lt n (by decide), List.mem_singleton.mp h⟩

/-- Bytes with blanks between them are the bytes, once the blanks are gone. -/
theorem filter_hexSpaced (bs : Bytes) : (hexSpaced bs).filter (· != 32) = hex bs := by
  have hkept (b : UInt8) : (hexByte b).filter (· != 32) = hexByte b := by
    refine List.filter_eq_self.mpr fun c hc => ?_
    obtain ⟨n, hn, rfl⟩ := mem_hexByte hc
    simpa using (hexValue?_hexDigit hn).2.1
  induction bs with
  | nil => rfl
  | cons b bs ih =>
    cases bs with
    | nil => simp [hexSpaced, hex, List.intercalate, hkept]
    | cons c cs =>
      have hspaced : hexSpaced (b :: c :: cs) = hexByte b ++ 32 :: hexSpaced (c :: cs) := by
        simp [hexSpaced, List.intercalate]
      rw [hspaced, List.filter_append, hkept, List.filter_cons_of_neg (by decide), ih]
      rfl

/-- Bytes are written on one line. -/
theorem newline_notMem_hexSpaced (bs : Bytes) : 10 ∉ hexSpaced bs := by
  intro h
  have hmem : 10 ∈ (hexSpaced bs).filter (· != 32) := List.mem_filter.mpr ⟨h, by decide⟩
  rw [filter_hexSpaced] at hmem
  obtain ⟨b, -, hb⟩ := List.mem_flatMap.mp hmem
  obtain ⟨n, hn, hdigit⟩ := mem_hexByte hb
  exact (hexValue?_hexDigit hn).2.2 hdigit.symm

/-! ## Lines -/

/-- Without a separator there is one part. -/
theorem split_of_notMem {sep : UInt8} {bs : Bytes} (h : sep ∉ bs) : split sep bs = [bs] := by
  have hlength := length_split sep bs
  rw [List.count_eq_zero.mpr h] at hlength
  obtain ⟨part, hpart⟩ := List.length_eq_one_iff.mp hlength
  have hhead := head?_split sep bs
  rw [hpart, List.head?_cons, List.takeWhile_eq_self_iff.mpr] at hhead
  · rw [hpart, Option.some.inj hhead]
  · intro b hb
    have hne : b ≠ sep := fun heq => h (heq ▸ hb)
    simpa using hne

/-- A text of lines splits into these lines, and nothing behind the last newline. -/
theorem split_lines {lines : List Bytes} (h : ∀ l ∈ lines, 10 ∉ l) :
    split 10 (lines.flatMap (· ++ [10])) = lines ++ [[]] := by
  induction lines with
  | nil => rfl
  | cons l lines ih =>
    rw [List.flatMap_cons, List.append_assoc, List.singleton_append, split_append_cons,
      split_of_notMem (h l List.mem_cons_self), ih fun l hl => h l (List.mem_cons_of_mem _ hl)]
    rfl

end Bytes

namespace HexDump

/-! ## Reading -/

/-- What a line of a listing says. -/
inductive Line where
  | heading (address : Nat) (name : Bytes)
  | bytes (bytes : Bytes)
  deriving DecidableEq

/-- A name behind a blank, in angle brackets and with a colon at the end. -/
def readName? (text : Bytes) : Option Bytes :=
  let name := (text.drop 2).dropLast.dropLast
  if text = [32, 60] ++ name ++ [62, 58] then some name else none

/-- A heading: eight digits and a name. -/
def readHeading? (line : Bytes) : Option Line := do
  let address ← Bytes.ofHexDigits? (line.take 8)
  let name ← readName? (line.drop 8)
  return .heading address name

/-- A line of bytes starts with two blanks; all other lines are headings. -/
def readLine? (line : Bytes) : Option Line :=
  if line.take 2 = [32, 32] then (Bytes.ofHex? (line.filter (· != 32))).map .bytes
  else readHeading? line

/-- A heading and the lines of bytes under it. -/
structure Entry where
  address : Nat
  name : Bytes
  lines : List Bytes
  deriving DecidableEq

/-- The bytes under a heading. -/
def Entry.bytes (e : Entry) : Bytes :=
  e.lines.flatten

/-- The lines of bytes before the first heading, and the entries of the headings. -/
def assemble : List Line → List Bytes × List Entry
  | [] => ([], [])
  | .heading address name :: lines =>
    ([], ⟨address, name, (assemble lines).1⟩ :: (assemble lines).2)
  | .bytes bytes :: lines => (bytes :: (assemble lines).1, (assemble lines).2)

/-- **The entries of a listing**, if it is one from its first line to its last. -/
def read (text : Bytes) : Option (List Entry) := do
  let lines ← (Bytes.split 10 text).dropLast.mapM readLine?
  if (assemble lines).1 = [] then some (assemble lines).2 else none

/-! ## Lines that were written -/

/-- The text of a heading without its newline. -/
def headingLine (address : Nat) (name : Bytes) : Bytes :=
  Bytes.hexDigits 8 address ++ ([32, 60] ++ name ++ [62, 58])

/-- The text of a line of bytes without its newline. -/
def bytesLine (bytes : Bytes) : Bytes :=
  [32, 32] ++ bytes.hexSpaced

/-- A name is read back from its brackets. -/
theorem readName?_brackets (name : Bytes) :
    readName? ([32, 60] ++ name ++ [62, 58]) = some name := by
  have hends : (name ++ [62, 58]).dropLast = name ++ [62] := by
    rw [List.dropLast_append_of_ne_nil (by simp)]
    rfl
  have hname : (([32, 60] ++ name ++ [62, 58]).drop 2).dropLast.dropLast = name := by
    show (name ++ [62, 58]).dropLast.dropLast = name
    rw [hends, List.dropLast_concat]
  rw [readName?, hname]
  exact if_pos rfl

/-- A heading is read back. -/
theorem readLine?_headingLine {address : Nat} (name : Bytes) (h : address < 2 ^ 32) :
    readLine? (headingLine address name) = some (.heading address name) := by
  have hlength := Bytes.length_hexDigits 8 address
  have hdigits := Bytes.ofHexDigits?_hexDigits 8 address
  rw [Nat.mod_eq_of_lt (by simpa using h)] at hdigits
  -- A heading starts with a digit, so it is no line of bytes.
  have hfirst : (headingLine address name).take 2 ≠ [32, 32] := by
    intro htake
    have hmem : 32 ∈ (Bytes.hexDigits 8 address).take 2 := by
      rw [headingLine, List.take_append_of_le_length (by omega)] at htake
      rw [htake]
      exact List.mem_cons_self
    obtain ⟨d, hd, hblank⟩ := Bytes.mem_hexDigits (List.mem_of_mem_take hmem)
    exact (Bytes.hexValue?_hexDigit hd).2.1 hblank.symm
  rw [readLine?, if_neg hfirst, readHeading?, headingLine, List.take_left' hlength, hdigits,
    List.drop_left' hlength, readName?_brackets]
  rfl

/-- A line of bytes is read back. -/
theorem readLine?_bytesLine (bytes : Bytes) :
    readLine? (bytesLine bytes) = some (.bytes bytes) := by
  have hfirst : (bytesLine bytes).take 2 = [32, 32] := rfl
  have hfilter : (bytesLine bytes).filter (· != 32) = Bytes.hex bytes := by
    rw [bytesLine, List.filter_append, Bytes.filter_hexSpaced]
    rfl
  rw [readLine?, if_pos hfirst, hfilter, Bytes.ofHex?_hex, Option.map_some]

theorem heading_eq (address : UInt32) (name : Bytes) :
    heading address name = headingLine address.toNat name ++ [10] := by
  have hopen : Bytes.ofString " <" = [32, 60] := rfl
  have hclose : Bytes.ofString ">:\n" = [62, 58] ++ [10] := rfl
  rw [heading, Bytes.say, hopen, hclose]
  simp [headingLine]

theorem line_eq (bytes : Bytes) : line bytes = bytesLine bytes ++ [10] := by
  have hblanks : Bytes.ofString "  " = [32, 32] := rfl
  have hnewline : Bytes.ofString "\n" = [10] := rfl
  rw [line, Bytes.say, hblanks, hnewline]
  simp [bytesLine]

/-! ## Entries -/

namespace Entry

/-- The listing of an entry. -/
def text (e : Entry) : Bytes :=
  (headingLine e.address e.name ++ [10]) ++ e.lines.flatMap line

/-- The lines of the listing of an entry. -/
def lineTexts (e : Entry) : List Bytes :=
  headingLine e.address e.name :: e.lines.map bytesLine

/-- What the lines of an entry say. -/
def marks (e : Entry) : List Line :=
  .heading e.address e.name :: e.lines.map .bytes

/-- An entry is written line by line. -/
theorem text_eq (e : Entry) : e.text = e.lineTexts.flatMap (· ++ [10]) := by
  have hlines (ls : List Bytes) : ls.flatMap line = (ls.map bytesLine).flatMap (· ++ [10]) := by
    induction ls with
    | nil => rfl
    | cons l ls ih => rw [List.flatMap_cons, ih, line_eq, List.map_cons, List.flatMap_cons]
  rw [text, lineTexts, List.flatMap_cons, hlines]

/-- Its lines are lines, if its name is on one. -/
theorem newline_notMem_lineTexts {e : Entry} (h : 10 ∉ e.name) : ∀ l ∈ e.lineTexts, 10 ∉ l := by
  intro l hl
  rcases List.mem_cons.mp hl with rfl | hl
  · intro hmem
    rcases List.mem_append.mp hmem with hmem | hmem
    · obtain ⟨d, hd, hnewline⟩ := Bytes.mem_hexDigits hmem
      exact (Bytes.hexValue?_hexDigit hd).2.2 hnewline.symm
    · simp [h] at hmem
  · obtain ⟨bytes, -, rfl⟩ := List.mem_map.mp hl
    intro hmem
    rcases List.mem_append.mp hmem with hmem | hmem
    · simp at hmem
    · exact Bytes.newline_notMem_hexSpaced bytes hmem

/-- The lines of an entry are read back. -/
theorem mapM_lineTexts {e : Entry} (h : e.address < 2 ^ 32) :
    e.lineTexts.mapM readLine? = some e.marks := by
  have hlines (ls : List Bytes) :
      (ls.map bytesLine).mapM readLine? = some (ls.map Line.bytes) := by
    induction ls with
    | nil => rfl
    | cons l ls ih =>
      rw [List.map_cons, List.mapM_cons, readLine?_bytesLine, ih]
      rfl
  rw [lineTexts, List.mapM_cons, readLine?_headingLine e.name h, hlines]
  rfl

/-- The lines of all entries are read back. -/
theorem mapM_flatMap_lineTexts {es : List Entry} (h : ∀ e ∈ es, e.address < 2 ^ 32) :
    (es.flatMap lineTexts).mapM readLine? = some (es.flatMap marks) := by
  induction es with
  | nil => rfl
  | cons e es ih =>
    rw [List.flatMap_cons, List.mapM_append, mapM_lineTexts (h e List.mem_cons_self),
      ih fun e he => h e (List.mem_cons_of_mem _ he)]
    rfl

end Entry

/-- Lines of bytes belong to the heading above them. -/
theorem assemble_bytes (ls : List Bytes) (rest : List Line) :
    assemble (ls.map .bytes ++ rest) = (ls ++ (assemble rest).1, (assemble rest).2) := by
  induction ls with
  | nil => rfl
  | cons l ls ih => rw [List.map_cons, List.cons_append, assemble, ih, List.cons_append]

/-- **Entries are assembled from their lines.** -/
theorem assemble_marks (es : List Entry) : assemble (es.flatMap Entry.marks) = ([], es) := by
  induction es with
  | nil => rfl
  | cons e es ih =>
    rw [List.flatMap_cons, Entry.marks, List.cons_append, assemble, assemble_bytes, ih,
      List.append_nil]

/-- **Listings read back**: the text of entries is read as these entries. -/
theorem read_text {es : List Entry} (haddress : ∀ e ∈ es, e.address < 2 ^ 32)
    (hname : ∀ e ∈ es, 10 ∉ e.name) : read (es.flatMap Entry.text) = some es := by
  have hlines : es.flatMap Entry.text = (es.flatMap Entry.lineTexts).flatMap (· ++ [10]) := by
    rw [List.flatMap_assoc]
    exact List.flatMap_congr fun e _ => e.text_eq
  have hsplit : Bytes.split 10 (es.flatMap Entry.text) = es.flatMap Entry.lineTexts ++ [[]] := by
    rw [hlines]
    apply Bytes.split_lines
    intro l hl
    obtain ⟨e, he, hl⟩ := List.mem_flatMap.mp hl
    exact Entry.newline_notMem_lineTexts (hname e he) l hl
  rw [read, hsplit, List.dropLast_concat, Entry.mapM_flatMap_lineTexts haddress]
  change (if (assemble _).1 = [] then some (assemble _).2 else none) = _
  rw [assemble_marks]
  exact if_pos rfl

/-! ## Lines of sixteen bytes -/

/-- The lines make up the bytes. -/
theorem chunks_flatten {fuel : Nat} {bytes : Bytes} (h : bytes.length ≤ fuel) :
    (chunks fuel bytes).flatten = bytes := by
  induction fuel generalizing bytes with
  | zero =>
    rw [List.length_eq_zero_iff.mp (Nat.le_zero.mp h)]
    rfl
  | succ fuel ih =>
    cases bytes with
    | nil => rfl
    | cons b bs =>
      have hrest : ((b :: bs).drop lineSize).length ≤ fuel := by
        rw [List.length_drop, lineSize]
        simp only [List.length_cons] at h ⊢
        omega
      rw [chunks, List.flatten_cons, ih hrest, List.take_append_drop]
      exact List.cons_ne_nil b bs

/-- Every line has bytes, at most sixteen of them, and exactly sixteen if it is not the last one. -/
theorem chunks_full {fuel : Nat} {bytes : Bytes} {front back : List Bytes} {l : Bytes}
    (h : chunks fuel bytes = front ++ l :: back) :
    0 < l.length ∧ l.length ≤ 16 ∧ (back ≠ [] → l.length = 16) := by
  induction fuel generalizing bytes front with
  | zero => cases bytes <;> simp [chunks] at h
  | succ fuel ih =>
    cases bytes with
    | nil => simp [chunks] at h
    | cons b bs =>
      rw [chunks] at h
      · cases front with
        | cons c front => exact ih (List.cons.inj h).2
        | nil =>
          obtain ⟨rfl, rfl⟩ := List.cons.inj h
          have hlength : ((b :: bs).take lineSize).length = min 16 (bs.length + 1) := by
            rw [List.length_take, List.length_cons, lineSize]
          rw [hlength]
          refine ⟨by omega, Nat.min_le_left _ _, fun hback => ?_⟩
          -- A line follows, so bytes are left behind the first sixteen.
          by_contra hshort
          have hnil : (b :: bs).drop lineSize = [] := by
            apply List.drop_eq_nil_of_le
            rw [List.length_cons, lineSize]
            omega
          rw [hnil] at hback
          cases fuel <;> exact hback rfl
      · exact List.cons_ne_nil b bs

end HexDump

end DirectC
