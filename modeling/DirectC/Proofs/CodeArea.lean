/-
# Laws of the code area

How the two passes of `CodeArea.emit` hang together. `symbolsOf` and `areaOf` name what is
computed between and behind the passes, and `emit_ok` says when a code area comes about. The
symbols of the two passes are alike, so what the first pass accepts the second one does not
refuse.
-/
import DirectC.CodeArea
import DirectC.Proofs.Basic
import DirectC.Proofs.Lowering.Agreement
import DirectC.Proofs.Table
import Mathlib.Data.List.Nodup

namespace DirectC

namespace CodeArea

variable {p : Program} {routines : List Routine} {options : Options}

/-! ## Tables of rows -/

/-- A table filled from rows knows the names of the rows, and those it knew. -/
theorem isSome_foldl_insert {α β : Type} (rows : List β) (key : β → Bytes) (value : β → α)
    (t : Table α) (name : Bytes) :
    ((rows.foldl (fun t row => t.insert (key row) (value row)) t).get? name).isSome =
      (decide (name ∈ rows.map key) || (t.get? name).isSome) := by
  induction rows generalizing t with
  | nil => simp
  | cons row rows ih =>
    rw [List.foldl_cons, ih, Table.get?_insert, List.map_cons]
    by_cases h : key row = name
    · simp [h]
    · have h' : ¬ name = key row := fun h'' => h h''.symm
      simp [h, h']

/-- A table of rows knows the names of its rows. -/
theorem isSome_tableOf {α : Type} (rows : List (Bytes × α)) (name : Bytes) :
    ((tableOf rows).get? name).isSome = decide (name ∈ rows.map (·.1)) := by
  unfold tableOf
  rw [isSome_foldl_insert]
  simp

/-- All listed names have the address zero at first. -/
theorem get?_zeros (names : List Bytes) (name : Bytes) :
    (zeros names).get? name = if name ∈ names then some 0 else none := by
  have h : ∀ t : Table UInt32, (names.foldl (fun t name => t.insert name 0) t).get? name =
      if name ∈ names then some 0 else t.get? name := by
    induction names with
    | nil => simp
    | cons n names ih =>
      intro t
      rw [List.foldl_cons, ih, Table.get?_insert]
      rcases eq_or_ne n name with rfl | hn
      · simp
      · simp [hn, hn.symm]
  exact h ∅

theorem isSome_zeros (names : List Bytes) (name : Bytes) :
    ((zeros names).get? name).isSome = decide (name ∈ names) := by
  rw [get?_zeros]
  split <;> simp_all

/-- What a filled table holds is a row, or was there before. -/
theorem mem_or_get?_of_foldl_insert {α : Type} {rows : List (Bytes × α)} {t : Table α}
    {name : Bytes} {v : α}
    (h : (rows.foldl (fun t row => t.insert row.1 row.2) t).get? name = some v) :
    (name, v) ∈ rows ∨ t.get? name = some v := by
  induction rows generalizing t with
  | nil => exact .inr h
  | cons row rows ih =>
    rcases ih h with h | h
    · exact .inl (List.mem_cons_of_mem _ h)
    · rw [Table.get?_insert] at h
      split at h
      · rename_i hname
        cases h
        exact .inl (by rw [← hname]; exact List.mem_cons_self)
      · exact .inr h

/-- What a table of rows holds is a row. -/
theorem mem_of_get?_tableOf {α : Type} {rows : List (Bytes × α)} {name : Bytes} {v : α}
    (h : (tableOf rows).get? name = some v) : (name, v) ∈ rows := by
  rcases mem_or_get?_of_foldl_insert h with h | h
  · exact h
  · cases h

/-- A row whose name is its own is in the table. -/
theorem get?_tableOf {α : Type} {rows : List (Bytes × α)} {name : Bytes} {v : α}
    (hn : (rows.map (·.1)).Nodup) (h : (name, v) ∈ rows) : (tableOf rows).get? name = some v := by
  have hsome : ((tableOf rows).get? name).isSome := by
    rw [isSome_tableOf, decide_eq_true_eq]
    exact List.mem_map_of_mem h
  obtain ⟨v', hv'⟩ := Option.isSome_iff_exists.mp hsome
  have heq := List.inj_on_of_nodup_map hn (mem_of_get?_tableOf hv') h rfl
  cases heq
  exact hv'

/-! ## What lies between the passes -/

/-- Each piece has a start under its name. -/
theorem starts_names (offset : Nat) (ps : List Piece) :
    (starts offset ps).map (·.1) = ps.map (·.name) := by
  induction ps generalizing offset with
  | nil => rfl
  | cons q ps ih => simp [starts, ih]

/-- Later pieces start behind earlier ones. -/
theorem starts_append (offset : Nat) (ps qs : List Piece) :
    starts offset (ps ++ qs) =
      starts offset ps ++ starts (offset + (ps.flatMap (·.code)).length) qs := by
  induction ps generalizing offset with
  | nil => simp [starts]
  | cons p ps ih => simp [starts, ih, Nat.add_assoc]

theorem length_stringStarts (offset : Nat) (ss : List Bytes) :
    (stringStarts offset ss).length = ss.length := by
  induction ss generalizing offset with
  | nil => rfl
  | cons s ss ih => simp [stringStarts, ih]

/-- Each global variable has a start under its name. -/
theorem globalStarts_names {l : Layout} {offset : Int64} {gs : List GlobalVar}
    {rows : List (Bytes × Int64)} {last : Int64}
    (h : globalStarts l offset gs = .ok (rows, last)) : rows.map (·.1) = gs.map (·.name) := by
  induction gs generalizing offset rows last with
  | nil =>
    cases h
    rfl
  | cons g gs ih =>
    obtain ⟨size, _, h⟩ := except_bind_ok.mp h
    obtain ⟨align, _, h⟩ := except_bind_ok.mp h
    obtain ⟨⟨rest, last'⟩, hr, h⟩ := except_bind_ok.mp h
    cases h
    simp [ih hr]

/-- The number of bytes of pieces. -/
def lengthOf (ps : List Piece) : Nat :=
  (ps.flatMap (·.code)).length

/-- The number of bytes of pieces with the strings behind them. -/
def textSize (p : Program) (ps : List Piece) : Nat :=
  lengthOf ps + (stringData p.strings).length

/-- Where the room for global variables starts, from the start of the text. -/
def bssStart (p : Program) (ps : List Piece) : Int64 :=
  Layout.alignUp (.ofNat (textSize p ps)) 8

/-- The address of an offset. -/
def address (options : Options) (offset : Nat) : UInt32 :=
  options.base + .ofNat offset

/-- The addresses of the final pass, from the pieces of the sizing pass. -/
def symbolsOf (p : Program) (options : Options) (sized : List Piece)
    (globals : List (Bytes × Int64)) : Symbols where
  functions := tableOf ((starts 0 sized).map fun row => (row.1, address options row.2))
  globals := tableOf (globals.map fun row =>
    (row.1, options.base + (bssStart p sized + row.2).toUInt64.toUInt32))
  strings := (stringStarts (lengthOf sized) p.strings).map (address options)

/-- The code area that both passes make up. -/
def areaOf (p : Program) (options : Options) (sized final : List Piece)
    (globals : List (Bytes × Int64)) (bss : Int64) : CodeArea where
  text := .ofBytes (final.flatMap (·.code) ++ stringData p.strings)
  codeSize := lengthOf sized
  bssSize := bssStart p sized - .ofNat (textSize p sized) + bss
  order := sized.map (·.name)
  offsets := tableOf (starts 0 sized)
  symbols := symbolsOf p options sized globals

/-- Both passes, and the room for the variables between them. -/
structure Passes (p : Program) (routines : List Routine) (options : Options)
    (sized final : List Piece) (globals : List (Bytes × Int64)) (bss : Int64) : Prop where
  sizing : pieces p routines options .sizing (provisional p routines) = .ok sized
  room : globalStarts p.layout 0 p.globals = .ok (globals, bss)
  filling : pieces p routines options .final (symbolsOf p options sized globals) = .ok final
  sizes : ∀ q ∈ sized.zip final, q.2.code.length = q.1.code.length

/-- The check passes if both passes made code of the same size. -/
theorem checkSize_ok {a b : Piece} : checkSize a b = .ok () ↔ b.code.length = a.code.length := by
  unfold checkSize
  simp

/-- The loop over the pieces succeeds if every size is the one that was given. -/
theorem checkSizes_ok {ps : List (Piece × Piece)} :
    (forIn ps PUnit.unit fun q _ => do
      checkSize q.1 q.2
      pure (ForInStep.yield PUnit.unit) : Except Diagnostic PUnit) = .ok ⟨⟩ ↔
      ∀ q ∈ ps, q.2.code.length = q.1.code.length := by
  induction ps with
  | nil => simp [pure, Except.pure]
  | cons q ps ih =>
    rw [List.forIn_cons]
    simp only [except_bind_ok, List.forall_mem_cons]
    constructor
    · rintro ⟨step, ⟨_, hq, hs⟩, h⟩
      cases hs
      exact ⟨checkSize_ok.mp hq, ih.mp h⟩
    · rintro ⟨hq, h⟩
      exact ⟨_, ⟨_, checkSize_ok.mpr hq, rfl⟩, ih.mpr h⟩

/-- **When a code area comes about.** -/
theorem emit_ok {area : CodeArea} :
    emit p routines options = .ok area ↔
      ∃ sized final globals bss, Passes p routines options sized final globals bss ∧
        area = areaOf p options sized final globals bss := by
  unfold emit
  simp only [except_bind_ok]
  constructor
  · rintro ⟨sized, hs, ⟨globals, bss⟩, hg, final, hf, _, hz, h⟩
    cases h
    exact ⟨sized, final, globals, bss,
      ⟨hs, except_mapError_ok.mp hg, hf, checkSizes_ok.mp hz⟩, rfl⟩
  · rintro ⟨sized, final, globals, bss, h, rfl⟩
    exact ⟨sized, h.sizing, (globals, bss), except_mapError_ok.mpr h.room, final, h.filling, ⟨⟩,
      checkSizes_ok.mpr h.sizes, rfl⟩

/-! ## Pieces -/

/-- The layout and the limits that a function is lowered under. -/
def rulesFor (layout : Layout) (options : Options) (f : Function) : Layout × Limits :=
  match options.fileLimits.get? f.file with
  | some limits => (layout.withLimits limits, limits)
  | none => (layout, options.limits)

/-- The piece of a function holds the bytes of its code. -/
theorem functionPiece_eq (layout : Layout) (symbols : Symbols) (f : Function) :
    functionPiece layout options symbols f =
      (Lowering.function f (rulesFor layout options f).1 (rulesFor layout options f).2
        symbols).map fun code => ⟨f.name, Code.bytes code⟩ := by
  unfold functionPiece rulesFor
  cases options.fileLimits.get? f.file <;> rfl

/-- The pieces are those of the routines, and then those of the functions. -/
theorem pieces_ok {pass : Pass} {symbols : Symbols} {ps : List Piece} :
    pieces p routines options pass symbols = .ok ps ↔
      ∃ rs fs, routines.mapM (routinePiece pass symbols) = .ok rs ∧
        p.functions.mapM (functionPiece p.layout options symbols) = .ok fs ∧ ps = rs ++ fs := by
  unfold pieces
  simp only [except_bind_ok]
  constructor
  · rintro ⟨rs, hr, fs, hf, h⟩
    cases h
    exact ⟨rs, fs, hr, hf, rfl⟩
  · rintro ⟨rs, fs, hr, hf, rfl⟩
    exact ⟨rs, hr, fs, hf, rfl⟩

/-- A piece has the name of its function. -/
theorem functionPiece_name {layout : Layout} {symbols : Symbols} {f : Function} {q : Piece}
    (h : functionPiece layout options symbols f = .ok q) : q.name = f.name := by
  rw [functionPiece_eq] at h
  cases hf : Lowering.function f (rulesFor layout options f).1 (rulesFor layout options f).2
    symbols with
  | error d =>
    rw [hf] at h
    cases h
  | ok code =>
    rw [hf] at h
    cases h
    rfl

/-- A piece has the name of its routine. -/
theorem routinePiece_name {pass : Pass} {symbols : Symbols} {r : Routine} {q : Piece}
    (h : routinePiece pass symbols r = .ok q) : q.name = r.name := by
  obtain ⟨code, _, h⟩ := except_bind_ok.mp h
  cases h
  rfl

/-- The pieces carry the names of the routines and the functions, in this order. -/
theorem pieces_names {pass : Pass} {symbols : Symbols} {ps : List Piece}
    (h : pieces p routines options pass symbols = .ok ps) :
    ps.map (·.name) = routines.map (·.name) ++ p.functions.map (·.name) := by
  obtain ⟨rs, fs, hr, hf, rfl⟩ := pieces_ok.mp h
  have key : ∀ {α : Type} {as : List α} {qs : List Piece} {g : α → Except Diagnostic Piece}
      {name : α → Bytes}, (∀ a q, g a = .ok q → q.name = name a) →
      List.Forall₂ (fun a q => g a = .ok q) as qs → qs.map (·.name) = as.map name := by
    intro α as qs g name hg h
    induction h with
    | nil => rfl
    | cons h _ ih => simp [hg _ _ h, ih]
  rw [List.map_append, key (fun _ _ => routinePiece_name) (except_mapM_ok.mp hr),
    key (fun _ _ => functionPiece_name) (except_mapM_ok.mp hf)]

/-! ## The passes agree -/

/-- The symbols of the two passes are alike. -/
theorem provisional_alike {sized : List Piece} {globals : List (Bytes × Int64)} {bss : Int64}
    (hs : pieces p routines options .sizing (provisional p routines) = .ok sized)
    (hg : globalStarts p.layout 0 p.globals = .ok (globals, bss)) :
    (provisional p routines).Alike (symbolsOf p options sized globals) := by
  refine ⟨fun name => ?_, fun name => ?_, ?_⟩
  · have hnames : ((starts 0 sized).map fun row => (row.1, address options row.2)).map (·.1) =
        routines.map (·.name) ++ p.functions.map (·.name) := by
      rw [List.map_map, ← pieces_names hs, ← starts_names 0 sized]
      rfl
    simp only [provisional, symbolsOf, isSome_zeros, isSome_tableOf, hnames]
  · have hnames : (globals.map fun row =>
        (row.1, options.base + (bssStart p sized + row.2).toUInt64.toUInt32)).map (·.1) =
        p.globals.map (·.name) := by
      rw [List.map_map, ← globalStarts_names hg]
      rfl
    simp only [provisional, symbolsOf, isSome_zeros, isSome_tableOf, hnames]
  · simp [provisional, symbolsOf, length_stringStarts]

/-- Pieces of the same name and size. -/
def SameShape (a b : Piece) : Prop :=
  a.name = b.name ∧ a.code.length = b.code.length

/-- Pieces of the same shapes start at the same places. -/
theorem SameShape.starts_eq {ps qs : List Piece} (h : List.Forall₂ SameShape ps qs)
    (offset : Nat) : starts offset ps = starts offset qs := by
  induction h generalizing offset with
  | nil => rfl
  | cons h _ ih => rw [starts, starts, h.1, h.2, ih]

/-- Pieces of the same shapes have the same lengths under the same names. -/
theorem SameShape.lengthOf_eq {ps qs : List Piece} (h : List.Forall₂ SameShape ps qs) :
    lengthOf ps = lengthOf qs := by
  induction h with
  | nil => rfl
  | cons h _ ih =>
    unfold lengthOf at ih ⊢
    rw [List.flatMap_cons, List.flatMap_cons, List.length_append, List.length_append, h.2, ih]

/-- The pieces of the two passes have the same shapes. -/
theorem Passes.shapes {sized final : List Piece} {globals : List (Bytes × Int64)} {bss : Int64}
    (h : Passes p routines options sized final globals bss) :
    List.Forall₂ SameShape sized final := by
  have hnames : List.Forall₂ (fun a b : Piece => a.name = b.name) sized final := by
    have heq : List.Forall₂ (· = ·) (sized.map (·.name)) (final.map (·.name)) := by
      rw [List.forall₂_eq_eq_eq, pieces_names h.sizing, pieces_names h.filling]
    exact List.forall₂_map_right_iff.mp (List.forall₂_map_left_iff.mp heq)
  refine List.forall₂_iff_zip.mpr ⟨hnames.length_eq, fun hq => ⟨?_, (h.sizes _ hq).symm⟩⟩
  exact (List.forall₂_iff_zip.mp hnames).2 hq

/-- Under alike symbols a function has pieces of the same shape. -/
theorem functionPiece_alike {layout : Layout} {a b : Symbols} {f : Function} {q : Piece}
    (h : a.Alike b) (hq : functionPiece layout options a f = .ok q) :
    ∃ q', functionPiece layout options b f = .ok q' ∧ SameShape q q' := by
  rw [functionPiece_eq] at hq ⊢
  rcases Lowering.agree_function f (rulesFor layout options f).1 (rulesFor layout options f).2 h
    with ⟨d, hd, _⟩ | ⟨x, y, hx, hy, hxy⟩
  · rw [hd] at hq
    cases hq
  · rw [hx] at hq
    cases hq
    rw [hy]
    refine ⟨_, rfl, rfl, ?_⟩
    rw [Code.length_bytes, Code.length_bytes, hxy.size_eq]

/-- Functions have pieces of the same shapes under alike tables, or none. -/
theorem functionPieces_alike {layout : Layout} {a b : Symbols} (h : a.Alike b)
    {fs : List Function} {qs : List Piece}
    (hq : fs.mapM (functionPiece layout options a) = .ok qs) :
    ∃ qs', fs.mapM (functionPiece layout options b) = .ok qs' ∧ List.Forall₂ SameShape qs qs' := by
  rw [except_mapM_ok] at hq
  induction hq with
  | nil => exact ⟨[], rfl, .nil⟩
  | cons hf _ ih =>
    obtain ⟨q', hq', hs⟩ := functionPiece_alike h hf
    obtain ⟨qs', hqs', hss⟩ := ih
    exact ⟨q' :: qs', except_mapM_ok.mpr (.cons hq' (except_mapM_ok.mp hqs')), .cons hs hss⟩

/-! ## Routines -/

/-- A routine that yields as many bytes in both passes, whatever the addresses of the names that
`symbols` knows are. -/
def Routine.Steady (symbols : Symbols) (r : Routine) : Prop :=
  ∃ n, ∀ pass symbols', symbols.Alike symbols' → ∃ code, r.emit pass symbols' = .ok code ∧
    code.length = n

/-- Routines that are steady have pieces of the same shapes, in whichever pass. -/
theorem routinePieces_alike {symbols a b : Symbols} (ha : symbols.Alike a) (hb : symbols.Alike b)
    {rs : List Routine} (hr : ∀ r ∈ rs, r.Steady symbols) {pass : Pass} (pass' : Pass)
    {qs : List Piece} (hq : rs.mapM (routinePiece pass a) = .ok qs) :
    ∃ qs', rs.mapM (routinePiece pass' b) = .ok qs' ∧ List.Forall₂ SameShape qs qs' := by
  rw [except_mapM_ok] at hq
  induction hq with
  | nil => exact ⟨[], rfl, .nil⟩
  | cons h _ ih =>
    obtain ⟨qs', hqs', hss⟩ := ih fun r hmem => hr r (List.mem_cons_of_mem _ hmem)
    obtain ⟨n, hn⟩ := hr _ List.mem_cons_self
    obtain ⟨code, hcode, h⟩ := except_bind_ok.mp h
    cases h
    obtain ⟨code', hcode', hlength'⟩ := hn pass' b hb
    obtain ⟨_, hagain, hlength⟩ := hn pass a ha
    rw [hcode] at hagain
    cases hagain
    have hpiece : routinePiece pass' b _ = .ok ⟨_, code'⟩ :=
      except_bind_ok.mpr ⟨code', hcode', rfl⟩
    exact ⟨_, except_mapM_ok.mpr (.cons hpiece (except_mapM_ok.mp hqs')),
      .cons ⟨rfl, hlength.trans hlength'.symm⟩ hss⟩

/-! ## The final pass -/

/-- **The second pass does not fail** once the first has succeeded and all variables have places,
and it makes pieces of the same shapes. -/
theorem filling_of_sized {sized : List Piece} {globals : List (Bytes × Int64)} {bss : Int64}
    (hr : ∀ r ∈ routines, r.Steady (provisional p routines))
    (hs : pieces p routines options .sizing (provisional p routines) = .ok sized)
    (hg : globalStarts p.layout 0 p.globals = .ok (globals, bss)) :
    ∃ final, Passes p routines options sized final globals bss := by
  have halike := provisional_alike hs hg
  obtain ⟨rs, fs, hrs, hfs, rfl⟩ := pieces_ok.mp hs
  obtain ⟨rs', hrs', hrshape⟩ := routinePieces_alike (.refl _) halike hr .final hrs
  obtain ⟨fs', hfs', hfshape⟩ := functionPieces_alike halike hfs
  refine ⟨rs' ++ fs', hs, hg, pieces_ok.mpr ⟨rs', fs', hrs', hfs', rfl⟩, fun q hq => ?_⟩
  exact ((List.forall₂_iff_zip.mp (List.rel_append hrshape hfshape)).2 hq).2.symm

/-- **What decides about a code area**: the first pass and the places of the variables. -/
theorem emit_error {d : Diagnostic} (hr : ∀ r ∈ routines, r.Steady (provisional p routines)) :
    emit p routines options = .error d ↔
      pieces p routines options .sizing (provisional p routines) = .error d ∨
        ∃ sized fault, pieces p routines options .sizing (provisional p routines) = .ok sized ∧
          globalStarts p.layout 0 p.globals = .error fault ∧ d = fault.diagnostic := by
  cases hs : pieces p routines options .sizing (provisional p routines) with
  | error d' =>
    have hemit : emit p routines options = .error d' := except_bind_error.mpr (.inl hs)
    simp [hemit]
  | ok sized =>
    cases hg : globalStarts p.layout 0 p.globals with
    | error fault =>
      have hemit : emit p routines options = .error fault.diagnostic := by
        refine except_bind_error.mpr (.inr ⟨sized, hs, except_bind_error.mpr (.inl ?_)⟩)
        rw [hg]
        rfl
      simp [hemit, eq_comm]
    | ok room =>
      obtain ⟨final, hpass⟩ := filling_of_sized hr hs hg
      have hemit := emit_ok.mpr ⟨sized, final, _, _, hpass, rfl⟩
      simp [hemit]

end CodeArea

end DirectC
