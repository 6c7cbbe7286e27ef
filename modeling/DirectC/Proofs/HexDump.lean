/-
# Listings of executables

What the listing of an executable shows: under the heading of every routine and function its code,
and in all every byte of code once. The end of a piece is not stored anywhere; it is where the next
name starts according to the table of offsets. As no two pieces have one name, the table has the
start of each of them, and the pieces that it cuts out of the text are those that were put in
(`extents_areaOf`).

Main statement: `Compile.listing_shows_code`.
-/
import DirectC.Proofs.HexListing
import DirectC.Proofs.Narrowing

namespace DirectC

namespace HexDump

open CodeArea (Piece Passes areaOf starts lengthOf tableOf)

/-! ## Extents -/

/-- The names of pieces, where they start and where they stop, if the first one starts at
`offset`. -/
def spans (offset : Nat) : List Piece → List (Bytes × Nat × Nat)
  | [] => []
  | q :: qs => (q.name, offset, offset + q.code.length) :: spans (offset + q.code.length) qs

/-- A piece stops where the next one starts, and the last one where the code ends. -/
theorem zipWith_starts {f : Bytes × Nat → Nat → Bytes × Nat × Nat}
    (hf : ∀ name start stop, f (name, start) stop = (name, start, stop)) (qs : List Piece)
    (offset : Nat) :
    ((qs.map (·.name)).zip ((starts offset qs).map (·.2))).zipWith f
      (((starts offset qs).map (·.2)).drop 1 ++ [offset + lengthOf qs]) = spans offset qs := by
  induction qs generalizing offset with
  | nil => rfl
  | cons q qs ih =>
    have hlength : lengthOf (q :: qs) = q.code.length + lengthOf qs := by
      simp [lengthOf]
    have ih' := ih (offset + q.code.length)
    rw [hlength, ← Nat.add_assoc, spans, ← ih']
    cases qs with
    | nil => simp [starts, hf, lengthOf]
    | cons r rs => simp [starts, hf]

variable {p : Program} {rs : List CodeArea.Routine} {options : CodeArea.Options}
  {sized final : List Piece} {globals : List (Bytes × Int64)} {bss : Int64}

/-- **The extents of a code area are those of its pieces**, if they have distinct names. -/
theorem extents_areaOf (h : Passes p rs options sized final globals bss)
    (hn : (sized.map (·.name)).Nodup) :
    extents (areaOf p options sized final globals bss) = spans 0 final := by
  have hnames : sized.map (·.name) = final.map (·.name) := by
    rw [CodeArea.pieces_names h.sizing, CodeArea.pieces_names h.filling]
  have hstarts : starts 0 sized = starts 0 final := CodeArea.SameShape.starts_eq h.shapes 0
  -- Every name has its start in the table.
  have hoffsets : (sized.map (·.name)).map
      (fun name => ((tableOf (starts 0 sized)).get? name).getD 0) = (starts 0 final).map (·.2) := by
    rw [← CodeArea.starts_names 0 sized, List.map_map, ← hstarts]
    apply List.map_congr_left
    intro row hrow
    have hget : (tableOf (starts 0 sized)).get? row.1 = some row.2 :=
      CodeArea.get?_tableOf (by rwa [CodeArea.starts_names]) hrow
    show ((tableOf (starts 0 sized)).get? row.1).getD 0 = row.2
    rw [hget, Option.getD_some]
  have hsize : lengthOf sized = 0 + lengthOf final := by
    rw [Nat.zero_add, CodeArea.SameShape.lengthOf_eq h.shapes]
  show List.zipWith _
    ((sized.map (·.name)).zip ((sized.map (·.name)).map fun name =>
      ((tableOf (starts 0 sized)).get? name).getD 0))
    (((sized.map (·.name)).map fun name =>
      ((tableOf (starts 0 sized)).get? name).getD 0).drop 1 ++ [lengthOf sized]) = spans 0 final
  rw [hoffsets, hnames, hsize]
  exact zipWith_starts (fun _ _ _ => rfl) final 0

/-! ## Entries -/

/-- The entry of a piece in the listing of a code area. -/
def entryOf (a : CodeArea) (q : Piece) : Entry :=
  ⟨((a.symbols.functions.get? q.name).getD 0).toNat, q.name, chunks q.code.length q.code⟩

theorem bytes_entryOf (a : CodeArea) (q : Piece) : (entryOf a q).bytes = q.code :=
  chunks_flatten (Nat.le_refl _)

/-- What is cut out of a text at the extents of pieces is their code. -/
theorem flatMap_spans (a : CodeArea) (front data : Bytes) (qs : List Piece) :
    (spans front.length qs).flatMap (piece a (front ++ qs.flatMap (·.code) ++ data)) =
      (qs.map (entryOf a)).flatMap Entry.text := by
  induction qs generalizing front with
  | nil => rfl
  | cons q qs ih =>
    have htext : front ++ (q :: qs).flatMap (·.code) ++ data =
        (front ++ q.code) ++ qs.flatMap (·.code) ++ data := by
      simp
    have hcut : (((front ++ q.code) ++ qs.flatMap (·.code) ++ data).take
        (front.length + q.code.length)).drop front.length = q.code := by
      rw [List.append_assoc, ← List.length_append, List.take_left, List.drop_left]
    have ih' := ih (front ++ q.code)
    rw [List.length_append] at ih'
    rw [htext, spans, List.flatMap_cons, ih', List.map_cons, List.flatMap_cons]
    congr 1
    rw [piece, hcut, heading_eq]
    simp [Bytes.say, Entry.text, entryOf]

/-- **The listing of a code area** is that of its pieces. -/
theorem text_areaOf (h : Passes p rs options sized final globals bss)
    (hn : (sized.map (·.name)).Nodup) :
    text (areaOf p options sized final globals bss) =
      (final.map (entryOf (areaOf p options sized final globals bss))).flatMap Entry.text := by
  have hspans := flatMap_spans (areaOf p options sized final globals bss) []
    (CodeArea.stringData p.strings) final
  have htext : (areaOf p options sized final globals bss).text.toBytes =
      final.flatMap (·.code) ++ CodeArea.stringData p.strings := CodeArea.toBytes_text
  rw [List.nil_append, List.length_nil, ← htext, ← extents_areaOf h hn] at hspans
  exact hspans

/-- The entry of a piece shows where the piece is, and the code there. -/
theorem entryOf_placed (h : Passes p rs options sized final globals bss)
    (hn : (sized.map (·.name)).Nodup) {a : CodeArea}
    (ha : a = areaOf p options sized final globals bss) {q : Piece} (hq : q ∈ final) :
    ∃ offset, a.offsets.get? q.name = some offset ∧
      a.symbols.functions.get? q.name = some (CodeArea.address options offset) ∧
      (entryOf a q).address = (CodeArea.address options offset).toNat ∧
      (entryOf a q).bytes <+: a.text.toBytes.drop offset := by
  subst ha
  obtain ⟨before, after, hsplit⟩ := List.append_of_mem hq
  obtain ⟨hoffset, haddress⟩ := h.lookup hsplit hn
  obtain ⟨-, hprefix, -⟩ := h.piece hsplit
  refine ⟨lengthOf before, hoffset, haddress, ?_, ?_⟩
  · show (((CodeArea.symbolsOf p options sized globals).functions.get? q.name).getD 0).toNat = _
    rw [haddress, Option.getD_some]
  · rw [bytes_entryOf]
    exact hprefix

end HexDump

namespace Compile

open CodeArea (Piece Passes areaOf)
open HexDump (Entry)

variable {file source : Bytes} {settings : Settings} {x : Executable}

/-! ## Names -/

/-- The names of functions are words. -/
theorem word_name {p : Program} {f : Function} (h : program file source settings = .ok p)
    (hf : f ∈ p.functions) : ∀ b ∈ f.name, Scan.isWordByte b := by
  obtain ⟨text, env, v, w, hread, -⟩ := body_read h hf
  obtain ⟨ts, hheading, hsuffix⟩ := hread.heading
  obtain ⟨name, dims, opening, params, brace, rfl, hkind, hliteral, -⟩ := hheading
  rw [Grammar.Reading.start_text] at hsuffix
  have hmem : name ∈ Token.scan text := hsuffix.subset (by simp)
  rw [← hliteral]
  exact Token.word_of_mem_scan hmem hkind

/-- The names of pieces have no newlines. -/
theorem newline_notMem_name {p : Program} {options : CodeArea.Options} {pass : CodeArea.Pass}
    {symbols : Symbols} {ps : List Piece} (h : program file source settings = .ok p)
    (hp : CodeArea.pieces p routines options pass symbols = .ok ps) : ∀ q ∈ ps, 10 ∉ q.name := by
  intro q hq hnewline
  have hmem : q.name ∈ routines.map (·.name) ++ p.functions.map (·.name) := by
    rw [← CodeArea.pieces_names hp]
    exact List.mem_map_of_mem hq
  rcases List.mem_append.mp hmem with hmem | hmem
  · have hall : ∀ name ∈ routines.map (·.name), 10 ∉ name := by decide +kernel
    exact hall q.name hmem hnewline
  · obtain ⟨f, hf, hname⟩ := List.mem_map.mp hmem
    have hword := word_name h hf 10 (hname ▸ hnewline)
    exact absurd hword (by decide)

/-! ## Executables -/

/-- How the code of an executable came about, whatever its size is. -/
theorem passes_of_executable (h : executable file source settings = .ok x) :
    ∃ sized final globals bss,
      Passes x.program routines (optionsOf settings) sized final globals bss ∧
      x.code = areaOf x.program (optionsOf settings) sized final globals bss ∧
      (sized.map (·.name)).Nodup ∧ ∀ q ∈ final, 10 ∉ q.name := by
  obtain ⟨-, hp, hc, -⟩ := executable_ok h
  obtain ⟨sized, final, globals, bss, hpass, hcode⟩ := CodeArea.emit_ok.mp hc
  -- Any bound on sizes will do.
  let B : Int := max 255 (max settings.limits.arrayLength.toInt settings.limits.typeSize.toInt)
  obtain ⟨hformed, hreserved⟩ := formed_program (B := B) (by omega) (by omega) (by omega) hp
  exact ⟨sized, final, globals, bss, hpass, hcode,
    nodup_pieces hpass.sizing hformed.distinct hreserved, newline_notMem_name hp hpass.filling⟩

/-- **The listing of an executable shows every byte of code once.** Read back, it has an entry for
every piece of code, in their order, with its name, its final address and its code. All lines of an
entry but the last have sixteen bytes, and the bytes of all entries are those of the code. -/
theorem listing_shows_code (h : executable file source settings = .ok x) :
    ∃ final entries,
      CodeArea.pieces x.program routines (optionsOf settings) .final x.code.symbols = .ok final ∧
      HexDump.read (HexDump.text x.code) = some entries ∧
      entries.flatMap Entry.bytes = x.code.text.toBytes.take x.code.codeSize ∧
      entries.map (·.name) = x.code.order ∧ x.code.order.Nodup ∧
      entries.map (fun e => (e.name, e.bytes)) = final.map (fun q => (q.name, q.code)) ∧
      (∀ e ∈ entries, ∃ offset address, x.code.offsets.get? e.name = some offset ∧
        x.code.symbols.functions.get? e.name = some address ∧ e.address = address.toNat ∧
        address = (Image.codeAddress settings.loadBase).toUInt32 + .ofNat offset ∧
        e.bytes <+: x.code.text.toBytes.drop offset) ∧
      ∀ e ∈ entries, ∀ front line back, e.lines = front ++ line :: back →
        0 < line.length ∧ line.length ≤ 16 ∧ (back ≠ [] → line.length = 16) := by
  obtain ⟨sized, final, globals, bss, hpass, hcode, hn, hnewline⟩ := passes_of_executable h
  have htext : HexDump.text x.code = (final.map (HexDump.entryOf x.code)).flatMap Entry.text := by
    rw [hcode]
    exact HexDump.text_areaOf hpass hn
  have hnames : x.code.order = final.map (·.name) := by
    rw [CodeArea.pieces_names hpass.filling, ← CodeArea.pieces_names hpass.sizing, hcode]
    rfl
  -- The entries are those of the final pieces, so each part is a fact about a piece.
  refine ⟨final, final.map (HexDump.entryOf x.code), ?_, ?_, ?_, ?_, ?_, ?_, ?_, ?_⟩
  · rw [hcode]
    exact hpass.filling
  · rw [htext]
    apply HexDump.read_text
    · intro e he
      obtain ⟨q, -, rfl⟩ := List.mem_map.mp he
      exact UInt32.toNat_lt _
    · intro e he
      obtain ⟨q, hq, rfl⟩ := List.mem_map.mp he
      exact hnewline q hq
  · have hsize : x.code.codeSize = (final.flatMap (·.code)).length := by
      rw [hcode]
      exact CodeArea.SameShape.lengthOf_eq hpass.shapes
    rw [List.flatMap_map, hsize, hcode, CodeArea.toBytes_text, List.take_left]
    exact List.flatMap_congr fun q _ => HexDump.bytes_entryOf _ q
  · rw [List.map_map, hnames]
    rfl
  · rw [hcode]
    exact hn
  · rw [List.map_map]
    apply List.map_congr_left
    intro q _
    exact Prod.ext rfl (HexDump.bytes_entryOf x.code q)
  · intro e he
    obtain ⟨q, hq, rfl⟩ := List.mem_map.mp he
    obtain ⟨offset, hoffset, haddress, hshown, hbytes⟩ := HexDump.entryOf_placed hpass hn hcode hq
    exact ⟨offset, _, hoffset, haddress, hshown, rfl, hbytes⟩
  · intro e he front line back hlines
    obtain ⟨q, -, rfl⟩ := List.mem_map.mp he
    exact HexDump.chunks_full hlines

/-- A source with two functions and a string, which stands behind the code. -/
def greeting : Bytes := "int show(char *s) \x7b __builtin_putchar(*s); return s[1]; \x7d
int main() \x7b return show(\"ab\"); \x7d"

theorem listing_shows_code_greeting : ∃ x entries, executable "greeting.c" greeting {} = .ok x ∧
    x.code.order.length = 8 ∧ x.code.codeSize < x.code.text.length ∧
    HexDump.read (HexDump.text x.code) = some entries ∧ entries.length = 8 ∧
    entries.flatMap Entry.bytes = x.code.text.toBytes.take x.code.codeSize := by
  have hread : (executable "greeting.c" greeting {}).toOption.any (fun x =>
      x.code.order.length == 8 && decide (x.code.codeSize < x.code.text.length)) = true := by
    decide +kernel
  obtain ⟨x, h, hread⟩ := exists_ok_of_any hread
  simp only [Bool.and_eq_true, beq_iff_eq, decide_eq_true_eq] at hread
  obtain ⟨-, entries, -, hentries, hbytes, hnames, -⟩ := listing_shows_code h
  have hlength := congrArg List.length hnames
  rw [List.length_map, hread.1] at hlength
  exact ⟨x, entries, h, hread.1, hread.2, hentries, hlength, hbytes⟩

end Compile

end DirectC
