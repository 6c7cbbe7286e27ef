/-
# Addresses and images

An executable is consistent: its pieces lie one behind the other in the text, every symbol is the
address of what it names, and the image has at that address what the symbol promises. Variables
lie behind the file in the memory that the program header asks for, each at a multiple of its
alignment and apart from the others.
-/
import DirectC.Proofs.CodeArea
import DirectC.Proofs.Compile
import DirectC.Proofs.Room
import Mathlib.Data.List.Pairwise

namespace DirectC

namespace CodeArea

variable {p : Program} {rs : List Routine} {options : Options} {sized final : List Piece}
  {globals : List (Bytes × Int64)} {bss : Int64}

/-! ## The text -/

/-- The data of strings is laid out one after the other. -/
theorem stringData_append (ss ts : List Bytes) :
    stringData (ss ++ ts) = stringData ss ++ stringData ts := by
  simp [stringData]

theorem stringData_cons (s : Bytes) (ss : List Bytes) :
    stringData (s :: ss) = (s ++ [0]) ++ stringData ss := by
  simp [stringData]

/-- The text is the code of the pieces in turn with the strings behind it. -/
theorem toBytes_text : (areaOf p options sized final globals bss).text.toBytes =
    final.flatMap (·.code) ++ stringData p.strings := by
  rw [areaOf, Rope.toBytes_ofBytes]

/-- The text can be put together from the pieces as they are, if its bytes can be counted in a
word. -/
theorem toBytes_text_joined (h : (areaOf p options sized final globals bss).text.length < 2 ^ 64) :
    ((Rope.concat (final.map fun piece => .ofBytes piece.code)).join
        (.concat (p.strings.map fun s => .ofBytes (s ++ [0])))).toBytes =
      (areaOf p options sized final globals bss).text.toBytes := by
  rw [Rope.length, toBytes_text, List.length_append] at h
  have hcode : (Rope.concat (final.map fun piece => .ofBytes piece.code)).toBytes =
      final.flatMap (·.code) := Rope.toBytes_concat_ofBytes (fun q : Piece => q.code) _ (by omega)
  have hdata : (Rope.concat (p.strings.map fun s => .ofBytes (s ++ [0]))).toBytes =
      stringData p.strings := Rope.toBytes_concat_ofBytes _ _ (by rw [← stringData]; omega)
  rw [Rope.toBytes_join (by rw [Rope.length, hcode]; omega) (by rw [Rope.length, hdata]; omega),
    hcode, hdata, toBytes_text]

/-- Later strings start behind the data of earlier ones. -/
theorem stringStarts_append (offset : Nat) (ss ts : List Bytes) :
    stringStarts offset (ss ++ ts) =
      stringStarts offset ss ++ stringStarts (offset + (stringData ss).length) ts := by
  induction ss generalizing offset with
  | nil => simp [stringStarts, stringData]
  | cons s ss ih =>
    rw [List.cons_append, stringStarts, ih, stringStarts, List.cons_append, stringData_cons,
      List.length_append, List.length_append, List.length_singleton, Nat.add_assoc offset,
      Nat.add_assoc offset]

/-- The number of bytes that follow a text of `n` bytes: a gap and the variables. -/
def roomOf (p : Program) (n : Nat) : Int :=
  roundUp n 8 - n + roomEnd p.layout 0 p.globals

/-- Addresses do not wrap around as long as they are below 2^32. -/
theorem toNat_address {offset : Nat} (h : options.base.toNat + offset < 2 ^ 32) :
    (address options offset).toNat = options.base.toNat + offset := by
  rw [address, UInt32.toNat_add, UInt32.toNat_ofNat', Nat.mod_eq_of_lt (a := offset) (by omega),
    Nat.mod_eq_of_lt h]

/-- Functions have code. -/
theorem functionPiece_pos {layout : Layout} {symbols : Symbols} {f : Function} {q : Piece}
    (h : functionPiece layout options symbols f = .ok q) : 0 < q.code.length := by
  rw [functionPiece_eq] at h
  cases hc : Lowering.function f (rulesFor layout options f).1 (rulesFor layout options f).2
    symbols with
  | error d =>
    rw [hc] at h
    cases h
  | ok code =>
    rw [hc] at h
    cases h
    unfold Lowering.function at hc
    split at hc
    · cases hc
      rw [Code.length_bytes]
      simp only [List.flatten_cons, Code.size_append]
      have hret : 0 < Code.size Instr.returnZero := by decide
      omega
    · cases hc

namespace Passes

variable (h : Passes p rs options sized final globals bss)

include h

/-- The text is as long as the code and the strings together. -/
theorem length_text :
    (areaOf p options sized final globals bss).text.length = textSize p sized := by
  rw [Rope.length, toBytes_text, List.length_append, textSize, SameShape.lengthOf_eq h.shapes,
    lengthOf]

/-- Where a piece is in the text. -/
theorem piece {before after : List Piece} {q : Piece} (hq : final = before ++ q :: after) :
    (q.name, lengthOf before) ∈ starts 0 sized ∧
      q.code <+: (areaOf p options sized final globals bss).text.toBytes.drop (lengthOf before) ∧
      lengthOf before + q.code.length ≤ lengthOf sized := by
  refine ⟨?_, ?_, ?_⟩
  · rw [SameShape.starts_eq h.shapes, hq, starts_append, starts, Nat.zero_add]
    simp [lengthOf]
  · rw [toBytes_text, hq, List.flatMap_append, List.append_assoc, lengthOf, List.drop_left,
      List.flatMap_cons, List.append_assoc]
    exact List.prefix_append _ _
  · rw [SameShape.lengthOf_eq h.shapes, hq]
    simp [lengthOf]

/-- What the tables say about a piece, if names are distinct. -/
theorem lookup {before after : List Piece} {q : Piece} (hq : final = before ++ q :: after)
    (hn : (sized.map (·.name)).Nodup) :
    (tableOf (starts 0 sized)).get? q.name = some (lengthOf before) ∧
      (symbolsOf p options sized globals).functions.get? q.name =
        some (address options (lengthOf before)) := by
  have hmem := (h.piece hq).1
  refine ⟨get?_tableOf (by rwa [starts_names]) hmem, get?_tableOf ?_ ?_⟩
  · rw [List.map_map]
    change ((starts 0 sized).map (·.1)).Nodup
    rwa [starts_names]
  · exact List.mem_map.mpr ⟨_, hmem, rfl⟩

/-- Where a string is in the text. -/
theorem string {before after : List Bytes} {s : Bytes} (hs : p.strings = before ++ s :: after) :
    (stringStarts (lengthOf sized) p.strings)[before.length]? =
        some (lengthOf sized + (stringData before).length) ∧
      s ++ [0] <+: (areaOf p options sized final globals bss).text.toBytes.drop
        (lengthOf sized + (stringData before).length) ∧
      lengthOf sized + (stringData before).length + (s.length + 1) ≤ textSize p sized := by
  refine ⟨?_, ?_, ?_⟩
  · rw [hs, stringStarts_append, List.getElem?_append_right (by simp [length_stringStarts])]
    simp [length_stringStarts, stringStarts]
  · rw [toBytes_text, SameShape.lengthOf_eq h.shapes, lengthOf, ← List.drop_drop, List.drop_left, hs,
      stringData_append, List.drop_left, stringData_cons]
    exact List.prefix_append _ _
  · rw [textSize, hs, stringData_append, stringData_cons]
    simp only [List.length_append, List.length_singleton]
    omega

/-- **The words of a code area are the numbers they stand for**, if the text and the room behind
it stay small. -/
theorem numbers {B : Int} (hp : p.Formed B) (hB : B < 2 ^ 31)
    (hfit : textSize p sized + roomOf p (textSize p sized) < 2 ^ 62) :
    (bssStart p sized).toInt = roundUp (textSize p sized) 8 ∧
      (areaOf p options sized final globals bss).bssSize.toInt = roomOf p (textSize p sized) ∧
      bss.toInt = roomEnd p.layout 0 p.globals ∧
      ∃ rows, rows.map (·.1) = p.globals ∧ globals = rows.map (fun q => (q.1.name, q.2)) ∧
        Placed p.layout 0 rows bss.toInt := by
  have hround := le_roundUp (a := 8) (.inr (.inr rfl)) (textSize p sized)
  have hroom := le_roomEnd hp.layout hB hp.globals 0
  have h8 : (8 : Int64).toInt = 8 := rfl
  rw [h8] at hround
  unfold roomOf at hfit ⊢
  have htext : (Int64.ofNat (textSize p sized)).toInt = textSize p sized :=
    Int64.toInt_ofNat_of_lt (by omega)
  have hstart : (bssStart p sized).toInt = roundUp (textSize p sized) 8 := by
    rw [bssStart, toInt_alignUp (.inr (.inr rfl)) (by omega) (by omega), htext, h8]
  obtain ⟨hbss, hrows⟩ := globalStarts_placed hp.layout hB hp.globals h.room (Int.le_refl 0)
    (by change roomEnd p.layout 0 p.globals < 2 ^ 62; omega)
  refine ⟨hstart, ?_, hbss, hrows⟩
  have hbss' : bss.toInt = roomEnd p.layout 0 p.globals := hbss
  change (bssStart p sized - .ofNat (textSize p sized) + bss).toInt = _
  rw [Int64.toInt_add, Int64.toInt_sub, hstart, htext, hbss',
    word_eq (x := roundUp _ 8 - _) (by omega) (by omega), word_eq (by omega) (by omega)]

end Passes

end CodeArea

namespace Compile

open CodeArea (Piece Passes areaOf lengthOf roomOf textSize)

/-! ## Executables in memory -/

/-- The number of bytes of memory behind the file, counted in numbers that do not wrap. -/
def Executable.room (x : Executable) : Int :=
  roomOf x.program x.code.text.length

/-- A variable of an executable takes the byte at an address. -/
def Executable.Occupies (x : Executable) (g : GlobalVar) (b : Int) : Prop :=
  ∃ address size, x.code.symbols.globals.get? g.name = some address ∧
    x.program.layout.size g.type = .ok size ∧ (address.toNat : Int) ≤ b ∧
    b < address.toNat + size.toInt

/-- How an executable came about, when it fits into the addresses of 32 bits. -/
structure Laid (settings : Settings) (x : Executable) (sized final : List Piece)
    (globals : List (Bytes × Int64)) (bss : Int64) : Prop where
  page : settings.loadBase.toNat % Image.pageSize = 0
  below : settings.loadBase.toNat < 2 ^ 31
  formed : x.program.Formed (2 ^ 31 - 1)
  reserved : ∀ f ∈ x.program.functions, f.name ∉ Prelude.reserved
  passes : Passes x.program routines (optionsOf settings) sized final globals bss
  code : x.code = areaOf x.program (optionsOf settings) sized final globals bss
  image : x.image = Image.splice settings.loadBase x.code.text
    (.ofNat ((x.code.offsets.get? Prelude.startName).getD 0)) x.code.bssSize
  entry : x.entry = Image.codeAddress settings.loadBase +
    .ofNat ((x.code.offsets.get? Prelude.startName).getD 0)
  fits : settings.loadBase.toNat + Image.headerSize + x.code.text.length + x.room ≤ 2 ^ 32

/-- **An executable that fits is laid out by two passes**, with the sizes of the first and the code
of the second. -/
theorem laid_of_executable {file source : Bytes} {settings : Settings} {x : Executable}
    (h : executable file source settings = .ok x) (ht : settings.limits.typeSize.toInt < 2 ^ 31)
    (ha : settings.limits.arrayLength.toInt < 2 ^ 31)
    (hfit : settings.loadBase.toNat + Image.headerSize + x.code.text.length + x.room ≤ 2 ^ 32) :
    ∃ sized final globals bss, Laid settings x sized final globals bss := by
  obtain ⟨hv, hp, hc, entry, rfl, himage, hentry⟩ := executable_ok h
  obtain ⟨hpage, _, hbelow⟩ := Image.checkBase_ok.mp (validate_base hv)
  obtain ⟨hformed, hreserved⟩ := formed_program (B := 2 ^ 31 - 1) (by decide) (by omega)
    (by omega) hp
  obtain ⟨sized, final, globals, bss, hpass, hcode⟩ := CodeArea.emit_ok.mp hc
  exact ⟨sized, final, globals, bss, hpage, hbelow, hformed, hreserved, hpass, hcode, himage,
    hentry, hfit⟩

/-- The pieces of a program have distinct names: it defines no name twice, and none of those of the
routines. -/
theorem nodup_pieces {p : Program} {options : CodeArea.Options} {pass : CodeArea.Pass}
    {symbols : Symbols} {ps : List Piece}
    (h : CodeArea.pieces p routines options pass symbols = .ok ps)
    (hdistinct : (p.functions.map (·.name)).Nodup)
    (hreserved : ∀ f ∈ p.functions, f.name ∉ Prelude.reserved) : (ps.map (·.name)).Nodup := by
  rw [CodeArea.pieces_names h, List.nodup_append]
  refine ⟨by decide +kernel, hdistinct, fun a ha b hb hab => ?_⟩
  obtain ⟨f, hf, rfl⟩ := List.mem_map.mp hb
  exact hreserved f hf (hab ▸ ha)

/-- No routine is empty. -/
theorem routine_pos {pass : CodeArea.Pass} {symbols : Symbols} {r : CodeArea.Routine} {q : Piece}
    (hr : r ∈ routines) (h : CodeArea.routinePiece pass symbols r = .ok q) :
    0 < q.code.length := by
  obtain ⟨code, hcode, h⟩ := except_bind_ok.mp h
  cases h
  rcases List.mem_cons.mp hr with rfl | hr
  · unfold Prelude.startRoutine at hcode
    dsimp only at hcode
    split at hcode
    · cases hcode
      rw [Code.length_bytes, Prelude.startup, Code.size_cons]
      exact Nat.add_pos_left (Instr.size_pos _) _
    · cases hcode
  · obtain ⟨b, hb, rfl⟩ := List.mem_map.mp hr
    cases hcode
    have hall : ∀ b ∈ Prelude.builtins, 0 < (Code.bytes b.code).length := by decide
    exact hall b hb

namespace Laid

variable {settings : Settings} {x : Executable} {sized final : List Piece}
  {globals : List (Bytes × Int64)} {bss : Int64}
  (h : Laid settings x sized final globals bss)

include h

/-- Code is loaded behind the headers. -/
theorem base : (optionsOf settings).base.toNat = settings.loadBase.toNat + Image.headerSize := by
  have hbelow := h.below
  change ((settings.loadBase + UInt64.ofNat Image.headerSize).toUInt32).toNat = _
  rw [UInt64.toNat_toUInt32, UInt64.toNat_add]
  change (settings.loadBase.toNat + 0x78) % 2 ^ 64 % 2 ^ 32 = settings.loadBase.toNat + 0x78
  omega

/-- The text of an executable has the length that the first pass computes. -/
theorem length_text : x.code.text.length = textSize x.program sized := by
  rw [h.code]
  exact h.passes.length_text

/-- The names of pieces are distinct. -/
theorem distinct : (sized.map (·.name)).Nodup :=
  nodup_pieces h.passes.sizing h.formed.distinct h.reserved

/-- There is no negative room. -/
theorem room_nonneg (n : Nat) : 0 ≤ roomOf x.program n := by
  have hround := CodeArea.le_roundUp (a := 8) (.inr (.inr rfl)) n
  have hroom := CodeArea.le_roomEnd h.formed.layout (by decide) h.formed.globals 0
  change (n : Int) ≤ CodeArea.roundUp n 8 at hround
  unfold CodeArea.roomOf
  omega

/-- Text and room fit behind the base. -/
theorem small : (textSize x.program sized : Int) + roomOf x.program (textSize x.program sized) ≤
    2 ^ 32 - (settings.loadBase.toNat + Image.headerSize : Nat) := by
  have hfits := h.fits
  rw [Executable.room, h.length_text] at hfits
  omega

/-- The words of the code area are numbers. -/
theorem numbers : (CodeArea.bssStart x.program sized).toInt =
      CodeArea.roundUp (textSize x.program sized) 8 ∧
    x.code.bssSize.toInt = x.room ∧ bss.toInt = CodeArea.roomEnd x.program.layout 0 x.program.globals ∧
      ∃ rows, rows.map (·.1) = x.program.globals ∧
        globals = rows.map (fun q => (q.1.name, q.2)) ∧
        CodeArea.Placed x.program.layout 0 rows bss.toInt := by
  have hsmall := h.small
  rw [Executable.room, h.length_text, h.code]
  exact h.passes.numbers h.formed (by decide) (by omega)

/-! ## Code -/

/-- No piece of code is empty, so no two of them start at the same address. -/
theorem code_pos {q : Piece} (hq : q ∈ final) : 0 < q.code.length := by
  obtain ⟨rs, fs, hr, hf, rfl⟩ := CodeArea.pieces_ok.mp h.passes.filling
  rcases List.mem_append.mp hq with hq | hq
  · obtain ⟨r, hmem, hpiece⟩ := except_mapM_mem hr hq
    exact routine_pos hmem hpiece
  · obtain ⟨f, _, hpiece⟩ := except_mapM_mem hf hq
    exact CodeArea.functionPiece_pos hpiece

/-- An offset in the text is an address that does not wrap. -/
theorem toNat_address {n : Nat} (hn : n < textSize x.program sized) :
    (CodeArea.address (optionsOf settings) n).toNat =
      settings.loadBase.toNat + Image.headerSize + n := by
  have hsmall := h.small
  have hroom := h.room_nonneg (textSize x.program sized)
  rw [CodeArea.toNat_address (by rw [h.base]; omega), h.base]

/-- What the text has at an offset, the image has at its address. -/
theorem drop_image {a offset : Nat}
    (ha : a = settings.loadBase.toNat + Image.headerSize + offset) :
    x.image.toBytes.drop (a - settings.loadBase.toNat) = x.code.text.toBytes.drop offset := by
  have hsub : a - settings.loadBase.toNat = Image.headerSize + offset := by omega
  rw [hsub, h.image, Image.drop_splice]

/-- **Pieces**: what the tables say, and what the image has at the address. -/
theorem function {before after : List Piece} {q : Piece} (hq : final = before ++ q :: after) :
    x.code.offsets.get? q.name = some (lengthOf before) ∧
      q.code <+: x.code.text.toBytes.drop (lengthOf before) ∧
      ∃ address, x.code.symbols.functions.get? q.name = some address ∧
        address.toNat = settings.loadBase.toNat + Image.headerSize + lengthOf before ∧
        q.code <+: x.image.toBytes.drop (address.toNat - settings.loadBase.toNat) := by
  have hpos := h.code_pos (hq ▸ List.mem_append_right _ List.mem_cons_self)
  obtain ⟨_, hprefix, hle⟩ := h.passes.piece hq
  obtain ⟨hoffset, hsymbol⟩ := h.passes.lookup hq h.distinct
  have htext : lengthOf sized ≤ textSize x.program sized := Nat.le_add_right _ _
  have haddress := h.toNat_address (n := lengthOf before) (by omega)
  rw [← h.code] at hprefix
  refine ⟨by rw [h.code]; exact hoffset, hprefix, _, by rw [h.code]; exact hsymbol, haddress, ?_⟩
  rwa [h.drop_image haddress]

/-! ## Strings -/

/-- The file is its headers and its text. -/
theorem length_image : x.image.toBytes.length = Image.headerSize + textSize x.program sized := by
  rw [h.image, Image.length_splice, h.length_text]

/-- **Strings**: the image has a string at its address, behind the code. -/
theorem string {i : Nat} {s : Bytes} (hs : x.program.strings[i]? = some s) :
    ∃ address, x.code.symbols.strings[i]? = some address ∧
      settings.loadBase.toNat + Image.headerSize + x.code.codeSize ≤ address.toNat ∧
      address.toNat + (s.length + 1) ≤ settings.loadBase.toNat + x.image.toBytes.length ∧
      s ++ [0] <+: x.image.toBytes.drop (address.toNat - settings.loadBase.toNat) := by
  obtain ⟨hi, rfl⟩ := List.getElem?_eq_some_iff.mp hs
  have hsplit : x.program.strings =
      x.program.strings.take i ++ x.program.strings[i] :: x.program.strings.drop (i + 1) := by
    rw [List.getElem_cons_drop, List.take_append_drop]
  obtain ⟨hstart, hprefix, hle⟩ := h.passes.string hsplit
  rw [List.length_take, Nat.min_eq_left (by omega)] at hstart
  rw [← h.code] at hprefix
  generalize hn : lengthOf sized + (CodeArea.stringData (x.program.strings.take i)).length = n
    at hstart hprefix hle
  have haddress := h.toNat_address (n := n) (by omega)
  have hsymbol : x.code.symbols.strings[i]? =
      some (CodeArea.address (optionsOf settings) n) := by
    rw [h.code]
    change ((CodeArea.stringStarts _ _).map _)[i]? = _
    rw [List.getElem?_map, hstart]
    rfl
  have hcode : x.code.codeSize = lengthOf sized := by rw [h.code]; rfl
  refine ⟨_, hsymbol, by omega, by rw [h.length_image]; omega, ?_⟩
  rwa [h.drop_image haddress]

/-! ## Sizes -/

/-- The size in the header is that of the file. -/
theorem fileSize : Image.fileSize x.image.toBytes = x.image.toBytes.length := by
  have hsmall := h.small
  have hroom := h.room_nonneg (textSize x.program sized)
  have hword : (Int64.ofNat (Image.headerSize + textSize x.program sized)).toInt =
      (Image.headerSize + textSize x.program sized : Nat) := Int64.toInt_ofNat_of_lt (by omega)
  have hnat := toNat_toUInt64 (n := .ofNat (Image.headerSize + textSize x.program sized))
    (by omega)
  rw [h.length_image, h.image, Image.fileSize_splice, h.length_text]
  omega

/-- The size in memory has the room on top. -/
theorem memSize : (Image.memSize x.image.toBytes : Int) = x.image.toBytes.length + x.room := by
  have hsmall := h.small
  have hroom := h.room_nonneg (textSize x.program sized)
  have hword : (Int64.ofNat (Image.headerSize + textSize x.program sized)).toInt =
      (Image.headerSize + textSize x.program sized : Nat) := Int64.toInt_ofNat_of_lt (by omega)
  have hbss : x.code.bssSize.toInt = roomOf x.program (textSize x.program sized) := by
    rw [h.numbers.2.1, Executable.room, h.length_text]
  have hsum : (Int64.ofNat (Image.headerSize + textSize x.program sized) + x.code.bssSize).toInt =
      (Image.headerSize + textSize x.program sized : Nat) +
        roomOf x.program (textSize x.program sized) := by
    rw [Int64.toInt_add, hword, hbss, word_eq (by omega) (by omega)]
  rw [h.length_image, h.image, Image.memSize_splice, Executable.room, h.length_text,
    toNat_toUInt64 (by omega), hsum]

/-! ## Variables -/

/-- The address where the room for variables starts. -/
def front (settings : Settings) (x : Executable) (sized : List Piece) : Int :=
  settings.loadBase.toNat + Image.headerSize + CodeArea.roundUp (textSize x.program sized) 8

variable {rows : List (GlobalVar × Int64)} {g : GlobalVar}

/-- The address of a variable that starts somewhere in the room. -/
def variableAddress (settings : Settings) (x : Executable) (sized : List Piece) (start : Int64) :
    UInt32 :=
  (optionsOf settings).base + (CodeArea.bssStart x.program sized + start).toUInt64.toUInt32

/-- A variable has the address of one of its places. -/
theorem lookup_variable (hrows : rows.map (·.1) = x.program.globals)
    (hglobals : globals = rows.map (fun q => (q.1.name, q.2))) (hg : g ∈ x.program.globals) :
    ∃ start, (g, start) ∈ rows ∧ x.code.symbols.globals.get? g.name =
      some (variableAddress settings x sized start) := by
  have hsymbols : x.code.symbols.globals = CodeArea.tableOf
      (rows.map fun q => (q.1.name, variableAddress settings x sized q.2)) := by
    rw [h.code]
    change CodeArea.tableOf (globals.map _) = _
    rw [hglobals, List.map_map]
    rfl
  have hsome : (x.code.symbols.globals.get? g.name).isSome := by
    rw [hsymbols, CodeArea.isSome_tableOf, decide_eq_true_eq, List.map_map]
    rw [← hrows] at hg
    obtain ⟨q, hq, rfl⟩ := List.mem_map.mp hg
    exact List.mem_map.mpr ⟨q, hq, rfl⟩
  obtain ⟨address, haddress⟩ := Option.isSome_iff_exists.mp hsome
  rw [hsymbols] at haddress ⊢
  obtain ⟨q, hq, heq⟩ := List.mem_map.mp (CodeArea.mem_of_get?_tableOf haddress)
  obtain ⟨hname, rfl⟩ := Prod.mk.inj heq
  -- a name may have several places, but it has one variable
  have hqg : q.1 = g :=
    h.formed.named _ (hrows ▸ List.mem_map_of_mem hq) _ hg hname
  exact ⟨q.2, hqg ▸ hq, haddress⟩

/-- The number of an address in the room. It wraps for a variable without bytes at the very end. -/
theorem toNat_variable {start : Int64} (h0 : 0 ≤ start.toInt) (hle : start.toInt ≤ bss.toInt) :
    ((variableAddress settings x sized start).toNat : Int) =
      (front settings x sized + start.toInt) % 2 ^ 32 := by
  obtain ⟨hstart, _, hbss, _⟩ := h.numbers
  have hsmall := h.small
  have hround := CodeArea.le_roundUp (a := 8) (.inr (.inr rfl)) (textSize x.program sized)
  change (textSize x.program sized : Int) ≤ CodeArea.roundUp (textSize x.program sized) 8 at hround
  rw [CodeArea.roomOf, ← hbss] at hsmall
  have hsum : (CodeArea.bssStart x.program sized + start).toInt =
      CodeArea.roundUp (textSize x.program sized) 8 + start.toInt := by
    rw [Int64.toInt_add, hstart, word_eq (by omega) (by omega)]
  have hnat := toNat_toUInt64 (n := CodeArea.bssStart x.program sized + start) (by omega)
  rw [variableAddress, UInt32.toNat_add, UInt64.toNat_toUInt32, h.base, front]
  omega

/-- The room for variables ends where the executable ends. -/
theorem front_add_room : front settings x sized + bss.toInt =
    settings.loadBase.toNat + Image.headerSize + x.code.text.length + x.room := by
  obtain ⟨_, _, hbss, _⟩ := h.numbers
  rw [Executable.room, h.length_text, CodeArea.roomOf, ← hbss, front]
  omega

/-- The room ends where the addresses of 32 bits end, or before. -/
theorem front_le : front settings x sized + bss.toInt ≤ 2 ^ 32 := by
  rw [h.front_add_room]
  exact h.fits

omit h in
theorem front_nonneg (settings : Settings) (x : Executable) (sized : List Piece) :
    0 ≤ front settings x sized := by
  have hround := CodeArea.le_roundUp (a := 8) (.inr (.inr rfl)) (textSize x.program sized)
  change (textSize x.program sized : Int) ≤ CodeArea.roundUp _ 8 at hround
  unfold front
  omega

/-- The room starts at a multiple of eight. -/
theorem eight_dvd_front : 8 ∣ front settings x sized := by
  have hpage := h.page
  change settings.loadBase.toNat % 0x1000 = 0 at hpage
  change (8 : Int) ∣ settings.loadBase.toNat + 0x78 + CodeArea.roundUp _ 8
  unfold CodeArea.roundUp
  omega

/-- **Variables**: where one is, and which bytes it takes. -/
theorem place (hrows : rows.map (·.1) = x.program.globals)
    (hglobals : globals = rows.map (fun q => (q.1.name, q.2)))
    (hplaced : CodeArea.Placed x.program.layout 0 rows bss.toInt) (hg : g ∈ x.program.globals) :
    ∃ address start size align, (g, start) ∈ rows ∧
      x.code.symbols.globals.get? g.name = some address ∧
      x.program.layout.size g.type = .ok size ∧ x.program.layout.alignment g.type = .ok align ∧
      align.toInt ∣ address.toNat ∧ 0 ≤ size.toInt ∧ 0 ≤ start.toInt ∧
      start.toInt + size.toInt ≤ bss.toInt ∧
      (address.toNat : Int) = (front settings x sized + start.toInt) % 2 ^ 32 ∧
      ∀ b, x.Occupies g b → front settings x sized + start.toInt ≤ b ∧
        b < front settings x sized + start.toInt + size.toInt := by
  obtain ⟨start, hmem, haddress⟩ := h.lookup_variable hrows hglobals hg
  obtain ⟨size, align, hs, ha, hd, h0, hlast⟩ := hplaced.mem hmem
  dsimp only at hs ha hd h0 hlast
  have hsize := (h.formed.layout.size (by decide) (h.formed.globals g hg).1 hs).1
  have hnumber := h.toNat_variable h0 (by omega)
  have hfront := h.front_le
  have height := h.eight_dvd_front
  refine ⟨_, start, size, align, hmem, haddress, hs, ha, ?_, hsize, h0, hlast, hnumber, ?_⟩
  · rw [hnumber]
    -- An alignment is one, four or eight, and the room starts at a multiple of eight.
    rcases h.formed.layout.alignment ha with rfl | rfl | rfl
    · exact Int.one_dvd _
    · change (4 : Int) ∣ start.toInt at hd
      change (4 : Int) ∣ _
      omega
    · change (8 : Int) ∣ start.toInt at hd
      change (8 : Int) ∣ _
      omega
  · -- a variable that takes a byte does not end beyond the last address, so it does not wrap
    rintro b ⟨address', size', haddress', hs', hle, hlt⟩
    rw [haddress] at haddress'
    rw [hs] at hs'
    cases haddress'
    cases hs'
    have hnonneg := front_nonneg settings x sized
    omega

/-- The room for variables lies between the end of the file and the end of the memory. -/
theorem room_between {b : Int} (hle : front settings x sized ≤ b)
    (hlt : b < front settings x sized + bss.toInt) :
    settings.loadBase.toNat + (Image.fileSize x.image.toBytes : Int) ≤ b ∧
      b < settings.loadBase.toNat + (Image.memSize x.image.toBytes : Int) := by
  obtain ⟨_, _, hbss, _⟩ := h.numbers
  have hround := CodeArea.le_roundUp (a := 8) (.inr (.inr rfl)) (textSize x.program sized)
  change (textSize x.program sized : Int) ≤ CodeArea.roundUp _ 8 at hround
  rw [h.fileSize, h.memSize, h.length_image, Executable.room, h.length_text, CodeArea.roomOf, ← hbss]
  unfold front at hle hlt
  omega

omit h in
/-- Of two variables with different names, one ends in the room before the other starts. -/
theorem ends_before (hplaced : CodeArea.Placed x.program.layout 0 rows bss.toInt)
    {g g' : GlobalVar} (hname : g.name ≠ g'.name) {start start' size size' : Int64}
    (hmem : (g, start) ∈ rows) (hmem' : (g', start') ∈ rows)
    (hs : x.program.layout.size g.type = .ok size)
    (hs' : x.program.layout.size g'.type = .ok size') :
    start.toInt + size.toInt ≤ start'.toInt ∨ start'.toInt + size'.toInt ≤ start.toInt := by
  have hsymm : Std.Symm (CodeArea.Apart x.program.layout) := ⟨fun _ _ h => h.symm⟩
  have hne : (g, start) ≠ (g', start') := fun heq => hname (congrArg (·.1.name) heq)
  exact (hplaced.apart.forall hmem hmem' hne).imp (· size hs) (· size' hs')

/-- Variables of different names have no byte in common. -/
theorem apart {g g' : GlobalVar} (hg : g ∈ x.program.globals) (hg' : g' ∈ x.program.globals)
    (hname : g.name ≠ g'.name) {b : Int} (hb : x.Occupies g b) (hb' : x.Occupies g' b) : False := by
  obtain ⟨_, _, _, rows, hrows, hglobals, hplaced⟩ := h.numbers
  obtain ⟨_, start, size, _, hmem, _, hs, _, _, _, _, _, _, hin⟩ :=
    h.place hrows hglobals hplaced hg
  obtain ⟨_, start', size', _, hmem', _, hs', _, _, _, _, _, _, hin'⟩ :=
    h.place hrows hglobals hplaced hg'
  obtain ⟨hle, hlt⟩ := hin b hb
  obtain ⟨hle', hlt'⟩ := hin' b hb'
  rcases ends_before hplaced hname hmem hmem' hs hs' with hends | hends <;> omega

/-- **Variables as ranges**: where the executable ends before the last address, each of them starts
and ends in the memory behind the file, also one without bytes. -/
theorem range (hshort : settings.loadBase.toNat + Image.headerSize + x.code.text.length + x.room <
      (2 : Int) ^ 32) (hg : g ∈ x.program.globals) :
    ∃ address size, x.code.symbols.globals.get? g.name = some address ∧
      x.program.layout.size g.type = .ok size ∧
      settings.loadBase.toNat + (Image.fileSize x.image.toBytes : Int) ≤ address.toNat ∧
      address.toNat + size.toInt ≤
        settings.loadBase.toNat + (Image.memSize x.image.toBytes : Int) := by
  obtain ⟨_, _, hbss, rows, hrows, hglobals, hplaced⟩ := h.numbers
  obtain ⟨address, start, size, _, _, haddress, hs, _, _, hpos, h0, hlast, hnumber, -⟩ :=
    h.place hrows hglobals hplaced hg
  have hround := CodeArea.le_roundUp (a := 8) (.inr (.inr rfl)) (textSize x.program sized)
  change (textSize x.program sized : Int) ≤ CodeArea.roundUp _ 8 at hround
  have hfront := front_nonneg settings x sized
  rw [← h.front_add_room] at hshort
  refine ⟨address, size, haddress, hs, ?_⟩
  rw [h.fileSize, h.memSize, h.length_image, Executable.room, h.length_text, CodeArea.roomOf, ← hbss]
  unfold front at hnumber hshort hfront
  omega

/-- Where the executable ends before the last address, one of two variables with different names
ends before the other starts. -/
theorem ranges_apart (hshort : settings.loadBase.toNat + Image.headerSize + x.code.text.length +
      x.room < (2 : Int) ^ 32) {g g' : GlobalVar} (hg : g ∈ x.program.globals)
    (hg' : g' ∈ x.program.globals) (hname : g.name ≠ g'.name) :
    ∃ (address address' : UInt32) (size size' : Int64),
      x.code.symbols.globals.get? g.name = some address ∧
      x.code.symbols.globals.get? g'.name = some address' ∧
      x.program.layout.size g.type = .ok size ∧ x.program.layout.size g'.type = .ok size' ∧
      (address.toNat + size.toInt ≤ address'.toNat ∨
        address'.toNat + size'.toInt ≤ address.toNat) := by
  obtain ⟨_, _, _, rows, hrows, hglobals, hplaced⟩ := h.numbers
  obtain ⟨address, start, size, _, hmem, haddress, hs, _, _, hpos, h0, hlast, hnumber, -⟩ :=
    h.place hrows hglobals hplaced hg
  obtain ⟨address', start', size', _, hmem', haddress', hs', _, _, hpos', h0', hlast', hnumber', -⟩ :=
    h.place hrows hglobals hplaced hg'
  have hfront := front_nonneg settings x sized
  rw [← h.front_add_room] at hshort
  refine ⟨address, address', size, size', haddress, haddress', hs, hs', ?_⟩
  rcases ends_before hplaced hname hmem hmem' hs hs' with hends | hends
  · exact .inl (by omega)
  · exact .inr (by omega)

end Laid

/-! ## Consistency -/

/-- **Consistent executables.** The tables, the image and its headers agree about the pieces of
code `final`, the strings and the variables. -/
structure Executable.Consistent (settings : Settings) (x : Executable) (final : List Piece) :
    Prop where
  /-- The pieces are the routines and functions of the program under the final addresses. -/
  pieces : CodeArea.pieces x.program routines (optionsOf settings) .final x.code.symbols = .ok final
  order : x.code.order = final.map (·.name)
  distinct : x.code.order.Nodup
  first : x.code.order.head? = some Prelude.startName ∧
    x.code.offsets.get? Prelude.startName = some 0
  /-- The pieces make up the code. -/
  tile : x.code.text.toBytes.take x.code.codeSize = final.flatMap (·.code) ∧
    x.code.codeSize = lengthOf final
  function : ∀ before q after, final = before ++ q :: after →
    x.code.offsets.get? q.name = some (lengthOf before) ∧
    ∃ address, x.code.symbols.functions.get? q.name = some address ∧
      address.toNat = settings.loadBase.toNat + Image.headerSize + lengthOf before ∧
      q.code <+: x.image.toBytes.drop (address.toNat - settings.loadBase.toNat)
  string : ∀ (i : Nat) (s : Bytes), x.program.strings[i]? = some s →
    ∃ address : UInt32, x.code.symbols.strings[i]? = some address ∧
      settings.loadBase.toNat + Image.headerSize + x.code.codeSize ≤ address.toNat ∧
      address.toNat + (s.length + 1) ≤
        settings.loadBase.toNat + Image.fileSize x.image.toBytes ∧
      s ++ [0] <+: x.image.toBytes.drop (address.toNat - settings.loadBase.toNat)
  /-- The program header maps the whole file, and the room behind it. -/
  sizes : Image.fileSize x.image.toBytes = x.image.toBytes.length ∧
    (Image.memSize x.image.toBytes : Int) = x.image.toBytes.length + x.code.bssSize.toInt
  aligned : ∀ g ∈ x.program.globals, ∃ (address : UInt32) (size align : Int64),
    x.code.symbols.globals.get? g.name = some address ∧
      x.program.layout.size g.type = .ok size ∧ x.program.layout.alignment g.type = .ok align ∧
      align.toInt ∣ address.toNat
  between : ∀ g ∈ x.program.globals, ∀ b, x.Occupies g b →
    settings.loadBase.toNat + (Image.fileSize x.image.toBytes : Int) ≤ b ∧
      b < settings.loadBase.toNat + (Image.memSize x.image.toBytes : Int)
  apart : ∀ g ∈ x.program.globals, ∀ g' ∈ x.program.globals, g.name ≠ g'.name →
    ∀ b, x.Occupies g b → ¬ x.Occupies g' b
  /-- If the executable ends before the last address of 32 bits, the variables are ranges of
  addresses behind the file, also those without bytes. -/
  ranges : settings.loadBase.toNat + Image.headerSize + x.code.text.length + x.room < 2 ^ 32 →
    (∀ g ∈ x.program.globals, ∃ (address : UInt32) (size : Int64),
      x.code.symbols.globals.get? g.name = some address ∧
      x.program.layout.size g.type = .ok size ∧
      settings.loadBase.toNat + (Image.fileSize x.image.toBytes : Int) ≤ address.toNat ∧
      address.toNat + size.toInt ≤
        settings.loadBase.toNat + (Image.memSize x.image.toBytes : Int)) ∧
    ∀ g ∈ x.program.globals, ∀ g' ∈ x.program.globals, g.name ≠ g'.name →
      ∃ (address address' : UInt32) (size size' : Int64),
        x.code.symbols.globals.get? g.name = some address ∧
        x.code.symbols.globals.get? g'.name = some address' ∧
        x.program.layout.size g.type = .ok size ∧ x.program.layout.size g'.type = .ok size' ∧
        (address.toNat + size.toInt ≤ address'.toNat ∨
          address'.toNat + size'.toInt ≤ address.toNat)
  entry : ∃ address, x.code.symbols.functions.get? Prelude.startName = some address ∧
    x.entry.toNat = address.toNat ∧ Image.entryPoint x.image.toBytes = x.entry.toNat

namespace Laid

variable {settings : Settings} {x : Executable} {sized final : List Piece}
  {globals : List (Bytes × Int64)} {bss : Int64}
  (h : Laid settings x sized final globals bss)

include h

/-- The startup code comes first. -/
theorem start_first : ∃ q rest, final = q :: rest ∧ q.name = Prelude.startName := by
  have hnames := CodeArea.pieces_names h.passes.filling
  cases final with
  | nil => cases hnames
  | cons q rest => exact ⟨q, rest, rfl, (List.cons.inj hnames).1⟩

theorem order_eq : x.code.order = final.map (·.name) := by
  rw [CodeArea.pieces_names h.passes.filling, ← CodeArea.pieces_names h.passes.sizing, h.code]
  rfl

/-- Everything that an executable says about itself fits together. -/
theorem consistent : x.Consistent settings final := by
  -- The start routine is the first piece, so its offset is zero and the code starts at its address.
  obtain ⟨q, rest, hfinal, hq⟩ := h.start_first
  have hlength : lengthOf sized = lengthOf final := CodeArea.SameShape.lengthOf_eq h.passes.shapes
  have hcode : x.code.codeSize = lengthOf final := by
    rw [← hlength, h.code]
    rfl
  obtain ⟨hoffset, _, address, hsymbol, haddress, _⟩ := h.function (show final = [] ++ q :: rest from hfinal)
  rw [hq] at hoffset hsymbol
  have hentry : x.entry.toNat = address.toNat := by
    -- One side is computed in 64 bits, the other in 32; the load base is small enough for both.
    have hbelow := h.below
    rw [h.entry, hoffset, haddress]
    change ((settings.loadBase + UInt64.ofNat Image.headerSize) + 0).toNat = _
    rw [UInt64.toNat_add, UInt64.toNat_add]
    change ((settings.loadBase.toNat + 0x78) % 2 ^ 64 + 0) % 2 ^ 64 = settings.loadBase.toNat + 0x78
    omega
  refine
    { pieces := ?_, order := h.order_eq, distinct := ?_, first := ⟨?_, hoffset⟩,
      tile := ⟨?_, hcode⟩, function := ?_, string := ?_, sizes := ⟨h.fileSize, ?_⟩, aligned := ?_,
      between := ?_, apart := ?_, ranges := ?_, entry := ⟨address, hsymbol, hentry, ?_⟩ }
  · rw [h.code]
    exact h.passes.filling
  · rw [h.code]
    exact h.distinct
  · rw [h.order_eq, hfinal, ← hq]
    rfl
  · rw [hcode, h.code, CodeArea.toBytes_text]
    exact List.take_left
  · intro before q after hq
    obtain ⟨hoffset, _, hsymbol⟩ := h.function hq
    exact ⟨hoffset, hsymbol⟩
  · intro i s hs
    rw [h.fileSize]
    exact h.string hs
  · rw [h.memSize, h.numbers.2.1]
  · intro g hg
    obtain ⟨_, _, _, rows, hrows, hglobals, hplaced⟩ := h.numbers
    obtain ⟨address, _, size, align, _, haddress, hs, ha, hd, _⟩ :=
      h.place hrows hglobals hplaced hg
    exact ⟨address, size, align, haddress, hs, ha, hd⟩
  · intro g hg b hb
    obtain ⟨_, _, _, rows, hrows, hglobals, hplaced⟩ := h.numbers
    obtain ⟨_, start, size, _, _, _, _, _, _, _, h0, hlast, _, hin⟩ :=
      h.place hrows hglobals hplaced hg
    obtain ⟨hle, hlt⟩ := hin b hb
    exact h.room_between (by omega) (by omega)
  · exact fun g hg g' hg' hname b hb hb' => h.apart hg hg' hname hb hb'
  · exact fun hshort => ⟨fun g hg => h.range hshort hg,
      fun g hg g' hg' hname => h.ranges_apart hshort hg hg' hname⟩
  · rw [h.image, Image.entryPoint_splice, h.entry]
    rfl

end Laid

/-- **Addresses and images are consistent** if sizes stay below two gigabytes and the executable
fits into the addresses of 32 bits. -/
theorem executable_consistent {file source : Bytes} {settings : Settings} {x : Executable}
    (h : executable file source settings = .ok x) (ht : settings.limits.typeSize.toInt < 2 ^ 31)
    (ha : settings.limits.arrayLength.toInt < 2 ^ 31)
    (hfit : settings.loadBase.toNat + Image.headerSize + x.code.text.length + x.room ≤ 2 ^ 32) :
    x.code.bssSize.toInt = x.room ∧ ∃ final, x.Consistent settings final := by
  obtain ⟨sized, final, globals, bss, hlaid⟩ := laid_of_executable h ht ha hfit
  exact ⟨hlaid.numbers.2.1, final, hlaid.consistent⟩

/-- A source with variables of all alignments, a replaced variable, and two strings. -/
def shelf : Bytes := "struct book \x7b char c; int pages; \x7d;
char first; struct book last; char *title; int kept; int kept(); int kept;
int put(char *s) \x7b title = s; last.pages += 1; return *s; \x7d
int main() \x7b first = put(\"ab\"); return put(\"c\"); \x7d"

theorem executable_consistent_shelf : ∃ x, executable "shelf.c" shelf {} = .ok x ∧
    x.program.globals.length = 5 ∧ x.program.strings.length = 2 ∧
    x.code.bssSize.toInt = x.room ∧ ∃ final, x.Consistent {} final := by
  have hread : (executable "shelf.c" shelf {}).toOption.any (fun x =>
      x.program.globals.length == 5 && x.program.strings.length == 2 &&
        decide ((({} : Settings).loadBase.toNat : Int) + Image.headerSize + x.code.text.length +
          x.room ≤ 2 ^ 32)) = true := by decide +kernel
  obtain ⟨x, h, hread⟩ := exists_ok_of_any hread
  simp only [Bool.and_eq_true, beq_iff_eq, decide_eq_true_eq] at hread
  obtain ⟨⟨hg, hs⟩, hfit⟩ := hread
  exact ⟨x, h, hg, hs, executable_consistent h (by decide) (by decide) hfit⟩

end Compile

end DirectC
