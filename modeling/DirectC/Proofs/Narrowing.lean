/-
# Numbers that are cut to 32 bits

Sizes, offsets and addresses are counted in 64 bits and then cut to 32 bits: in the constants that
stand for sizes and offsets in trees, in the offsets of slots and the sizes of frames, and in the
addresses of functions, strings and variables. Nothing checks that they fit. They do as long as the
limits keep sizes and lengths below 2^31, the slots of each function take fewer than 2^31 - 16
bytes, and the program ends before 2^32 (`Compile.executable_exact`); limits that go beyond lose
bits (`Compile.executable_cut`).
-/
import DirectC.Proofs.Consistency
import DirectC.Proofs.ElementArithmetic
import DirectC.Proofs.Grammar.Layouts
import DirectC.Proofs.Lowering.SlotOffsets
import DirectC.Proofs.TypingInvariant
import DirectC.Proofs.WiderLimits

namespace DirectC

open Grammar

/-! ## Layouts -/

namespace Layout

variable {l : Layout} {type : CType} {n : Int64}

/-- Tables that definitions built can be built. -/
theorem Reachable.definable (h : l.Reachable) : Definable l.structs := by
  induction h with
  | start => exact .empty
  | define _ _ _ ih => exact definable_attempt ih
  | withLimits _ _ _ ih => exact ih

/-- Members lie between the start and the end of their struct. -/
theorem Stacked.between {offset last : Int} {members : List Member}
    (h : l.Stacked offset members last) (h0 : ∀ m ∈ members, 0 ≤ l.bytes m.type) :
    offset ≤ last ∧ ∀ m ∈ members, offset ≤ m.offset.toInt ∧ m.offset.toInt ≤ last := by
  induction members generalizing offset with
  | nil =>
    cases h
    exact ⟨Int.le_refl _, by simp⟩
  | cons m members ih =>
    obtain ⟨hleast, hrest⟩ := h
    have hoffset : offset ≤ m.offset.toInt := hleast.1.2
    have hbytes := h0 m List.mem_cons_self
    obtain ⟨hlast, hmembers⟩ := ih hrest fun m' hm' => h0 m' (List.mem_cons_of_mem _ hm')
    refine ⟨by omega, fun m' hm' => ?_⟩
    rcases List.mem_cons.mp hm' with rfl | hm'
    · omega
    · have hm' := hmembers m' hm'
      omega

/-- The offsets of members in a struct that has been defined. -/
theorem Orderly.offsets (hl : l.Orderly) {name : Bytes} {fields : List Field} {d : StructDef}
    (ht : ∀ f ∈ fields, f.type.Bounded l.limits.arrayLength.toInt)
    (h : l.structOf name fields = .ok d) :
    ∀ m ∈ d.members, 0 ≤ m.offset.toInt ∧ m.offset.toInt < 2 ^ 31 := by
  have hlimit := hl.typeSize
  obtain ⟨-, -, -, hlaid⟩ := structOf_laidOut hl ht h
  obtain ⟨last, hstacked, hleast⟩ := hlaid.size
  have hsize : d.size.toInt ≤ l.limits.typeSize.toInt := by
    obtain ⟨p, -, hle, rfl⟩ := structOf_ok.mp h
    exact Int64.le_iff_toInt_le.mp hle
  have hlast : last ≤ d.size.toInt := hleast.1.2
  have hbytes (m : Member) (hm : m ∈ d.members) : 0 ≤ l.bytes m.type := by
    have hf : m.field ∈ fields := hlaid.members ▸ List.mem_map_of_mem hm
    obtain ⟨⟨n, hn⟩, -⟩ := hlaid.known m.field hf
    rw [show l.bytes m.type = n.toInt from bytes_eq hn]
    exact (size_bounds hl.sizes hl.arrayLength hl.typeSize (ht m.field hf) hn).1
  intro m hm
  obtain ⟨hfrom, hupto⟩ := (hstacked.between hbytes).2 m hm
  exact ⟨hfrom, by omega⟩

/-- Offsets of members are numbers of 31 bits. -/
theorem Reachable.offsets (h : l.Reachable) : l.structs.All fun _ d =>
    ∀ m ∈ d.members, 0 ≤ m.offset.toInt ∧ m.offset.toInt < 2 ^ 31 := by
  induction h with
  | start => exact .empty
  | @define l name fields hl ht ih =>
    rcases l.attempt_cases name fields with ⟨d, hd, heq⟩ | heq
    · -- Offsets are bounded by the limits of their time, and stay when the limits change.
      rw [heq]
      exact ih.insert (hl.orderly.offsets ht hd)
    · rwa [heq]
  | withLimits _ _ _ ih => exact ih

end Layout

/-! ## Constants -/

/-- A natural number of 31 bits is not cut. -/
theorem toInt_toInt32_of_lt {n : Int64} (h0 : 0 ≤ n.toInt) (h1 : n.toInt < 2 ^ 31) :
    n.toInt32.toInt = n.toInt := by
  rw [Int64.toInt_toInt32]
  apply Int.bmod_eq_of_le <;> omega

namespace Layout

variable {l : Layout} {type : CType} {n : Int64}

/-- Sizes fit into constants, if array lengths are small. -/
theorem Reachable.size_fits (hl : l.Reachable) (ht : type.Bounded (2 ^ 31 - 1))
    (h : l.size type = .ok n) : n.toInt32.toInt = n.toInt := by
  have hsmall := hl.orderly.typeSize
  obtain ⟨h0, h1⟩ := size_bounds hl.orderly.sizes (by decide) hsmall ht h
  exact toInt_toInt32_of_lt h0 (by omega)

/-- Alignments fit into constants. -/
theorem Reachable.alignment_fits (hl : l.Reachable) (h : l.alignment type = .ok n) :
    n.toInt32.toInt = n.toInt := by
  rcases alignment_aligns hl.orderly.aligns h with rfl | rfl | rfl <;> rfl

/-- Offsets of members fit into constants. -/
theorem Reachable.offset_fits (hl : l.Reachable) {struct : Bytes} {d : StructDef} {m : Member}
    (hd : l.struct? struct = some d) (hm : m ∈ d.members) :
    m.offset.toInt32.toInt = m.offset.toInt := by
  obtain ⟨h0, h1⟩ := hl.offsets struct d hd m hm
  exact toInt_toInt32_of_lt h0 h1

end Layout

/-- **The constants that are placed in a state of reading** are the sizes, alignments and offsets
that they stand for, for types with array lengths below 2^31; and other types cannot be written. -/
structure Grammar.Reading.Faithful (u : Reading) : Prop where
  written : ∀ fuel type t, typeName fuel u = .ok type t → type.Formed (2 ^ 31 - 1)
  sizes : ∀ k pos type e t, type.Bounded (2 ^ 31 - 1) → measure k pos type u = .ok e t →
    ∃ n c, (if k == .keyword .sizeof then u.env.layout.size type
      else u.env.layout.alignment type) = .ok n ∧ c.toInt = n.toInt ∧ e = .int c pos
  factors : ∀ pos elem n e, elem.Bounded (2 ^ 31 - 1) →
    scale u.env.layout pos (.pointer elem) n = .ok e →
    ∃ size, u.env.layout.size elem = .ok size ∧ (size = 1 ∧ e = n ∨
      ∃ c, c.toInt = size.toInt ∧ e = .binary .mul pos (.int c pos) n .int)
  divisors : ∀ pos elem p q e, elem.Bounded (2 ^ 31 - 1) → p.type = .pointer elem →
    q.type = .pointer elem → sub u.env.layout pos p q = .ok e →
    ∃ size, u.env.layout.size elem = .ok size ∧ (size = 1 ∧ e = .binary .sub pos p q .int ∨
      ∃ c, c.toInt = size.toInt ∧
        e = .binary .div pos (.binary .sub pos p q .int) (.int c pos) .int)
  offsets : ∀ pos struct name p e, member u.env.layout pos p struct name = .ok e →
    ∃ d m c, u.env.layout.struct? struct = some d ∧ d.member? name.literal = some m ∧
      c.toInt = m.offset.toInt ∧
      e = .unary .deref pos (.binary .add pos p (.int c pos) (.pointer m.type)) m.type

/-- Constants are right wherever definitions lead to. -/
theorem Grammar.Reading.faithful {u : Reading} (hu : u.env.layout.Reachable) : u.Faithful where
  written fuel type t h := by
    have hlength := hu.orderly.arrayLength
    exact (typeName_formed h).mono (by omega)
  sizes k pos type e t ht h := by
    obtain ⟨l, v, hl, h⟩ := run_bind_ok.mp h
    cases hl
    obtain ⟨n, w, hn, h⟩ := run_bind_ok.mp h
    cases h
    have hn := located_ok.mp (checked_ok hn)
    -- The constant in the tree is the size cut to 32 bits, so the size has to fit.
    refine ⟨n, n.toInt32, hn, ?_, rfl⟩
    split at hn
    · exact hu.size_fits ht hn
    · exact hu.alignment_fits hn
  factors pos elem n e ht h := by
    obtain ⟨size, hsize, rfl⟩ := scale_ok.mp h
    refine ⟨size, hsize, ?_⟩
    unfold scaled
    split
    · next hone => exact .inl ⟨eq_of_beq hone, rfl⟩
    · exact .inr ⟨size.toInt32, hu.size_fits ht hsize, rfl⟩
  divisors pos elem p q e ht hp hq h := by
    obtain ⟨size, hsize, rfl⟩ := (sub_pointer_ok hp hq).mp h
    refine ⟨size, hsize, ?_⟩
    unfold unscaled
    split
    · next hone => exact .inl ⟨eq_of_beq hone, rfl⟩
    · exact .inr ⟨size.toInt32, hu.size_fits ht hsize, rfl⟩
  offsets pos struct name p e h := by
    unfold member at h
    split at h
    · cases h
    · next d hd =>
      split at h
      · cases h
      · next m hm =>
        cases h
        exact ⟨d, m, m.offset.toInt32, hd, hm,
          hu.offset_fits hd (List.mem_of_find?_eq_some hm), rfl⟩

/-! ## Moments of reading -/

namespace Env

variable {env env' : Env} {file source : Bytes}

/-- A function was there before, or it was read from the text. -/
theorem readBetween_of_mem {f : Function} (h : env.readSource file source = (.ok (), env'))
    (hf : f ∈ env'.functions) :
    f ∈ env.functions ∨ ∃ v w, (Reading.start source env).Trail .file v ∧
      ReadBetween (Reading.start source env) f v w := by
  obtain ⟨es, t, htold, rfl, -⟩ := told_readSource h
  change f ∈ t.env.declarations.functions at hf
  rw [htold.logs.2, start_env] at hf
  refine (mem_functions_replay hf).imp_right fun ⟨ps, ls, hdefined⟩ => ?_
  obtain ⟨before, after, hsplit⟩ := List.append_of_mem hdefined
  obtain ⟨v, w, hv, -, hread, -⟩ := htold.bodies before f ps ls after hsplit
  exact ⟨v, w, hv, hread⟩

end Env

namespace Compile

variable {file source : Bytes} {settings : Settings} {u : Reading}

/-- What the library is read into. -/
def builtinEnv : Env :=
  Prelude.builtins.foldl (fun env b => env.declare b.signature) (Env.empty {})

theorem preludeEnv_eq : preludeEnv = builtinEnv.readSource Prelude.fileName Prelude.source := by
  rw [preludeEnv, builtinEnv]

/-- **A moment of compiling**: a state on the way through the library or through the source text,
which is read behind the library and under its own limits. -/
def Moment (source : Bytes) (settings : Settings) (u : Reading) : Prop :=
  (Reading.start Prelude.source builtinEnv).Trail .file u ∨
    (Reading.start source (preludeEnv.2.under settings.limits)).Trail .file u

theorem reachable_builtinEnv : builtinEnv.layout.Reachable :=
  .start (by decide) (by decide)

/-- The structs of the prelude are defined one by one. -/
theorem reachable_preludeEnv : preludeEnv.2.layout.Reachable := by
  rw [preludeEnv_eq, Env.env_afterItems]
  exact (builtinEnv.trail_afterItems _ _).reachable (by rw [start_env]; exact reachable_builtinEnv)

/-- Limits below 2^31. -/
structure Small (settings : Settings) : Prop where
  typeSize : settings.limits.typeSize.toInt < 2 ^ 31
  arrayLength : settings.limits.arrayLength.toInt < 2 ^ 31

/-- **At every moment of reading the layout is one that definitions built.** -/
theorem Moment.reachable (h : Moment source settings u) (hs : Small settings) :
    u.env.layout.Reachable := by
  rcases h with h | h
  · exact h.reachable (by rw [start_env]; exact reachable_builtinEnv)
  · refine h.reachable ?_
    rw [start_env]
    exact reachable_preludeEnv.withLimits hs.typeSize hs.arrayLength

/-- The layout of a program is one that definitions built. -/
theorem reachable_program {p : Program} (h : program file source settings = .ok p)
    (hs : Small settings) : p.layout.Reachable := by
  obtain ⟨-, env, hread, -, rfl⟩ := program_ok.mp h
  have hmoment : Moment source settings
      ((preludeEnv.2.under settings.limits).afterItems file source) :=
    .inr (Env.trail_afterItems _ file source)
  have hreach := hmoment.reachable hs
  rw [← Env.env_afterItems, hread] at hreach
  exact hreach

/-- Every body of a program was read from a text, between two moments. -/
theorem body_read {p : Program} {f : Function} (h : program file source settings = .ok p)
    (hf : f ∈ p.functions) : ∃ text env v w, ReadBetween (Reading.start text env) f v w ∧
      ∀ u, v.Trail .file u → Moment source settings u := by
  obtain ⟨hlibrary, env, hread, -, rfl⟩ := program_ok.mp h
  have hf : f ∈ env.functions := (List.mem_filter.mp hf).1
  rcases Env.readBetween_of_mem hread hf with hf | ⟨v, w, hv, hbetween⟩
  · -- It was there before the source text: it comes from the library, since nothing that is built
    -- in has a body.
    have hpair (read : Except Diagnostic Unit × Env) (h : read.1 = .ok ()) :
        read = (.ok (), read.2) := Prod.ext h rfl
    have hlib := hpair _ hlibrary
    rw [preludeEnv_eq] at hlib hf
    have hunder : ∀ env : Env, (env.under settings.limits).functions = env.functions :=
      fun _ => rfl
    rw [hunder] at hf
    rcases Env.readBetween_of_mem hlib hf with hf | ⟨v, w, hv, hbetween⟩
    · cases hf
    · exact ⟨_, _, v, w, hbetween, fun u hu => .inl (hv.trans hu)⟩
  · exact ⟨_, _, v, w, hbetween, fun u hu => .inr (hv.trans hu)⟩

end Compile

/-! ## Trees -/

/-- **The constants of a node that moves a pointer**: the offset of a member, or the size of what
the pointer points at, which is left out if it is one. -/
def Expr.Faithful (l : Layout) : Expr → Prop
  | .binary op _ left right (.pointer elem) => op.isAdditive →
    (∃ struct d m c pos, left.type = .pointer (.struct struct) ∧ l.struct? struct = some d ∧
      m ∈ d.members ∧ elem = m.type ∧ right = .int c pos ∧ c.toInt = m.offset.toInt) ∨
    ∃ size, l.size elem = .ok size ∧ (size = 1 ∨
      ∃ c pos n, right = .binary .mul pos (.int c pos) n .int ∧ c.toInt = size.toInt)
  | _ => True

/-- What is well typed has the right constants. -/
theorem Expr.WellTyped.faithful {l : Layout} {e : Expr} (h : e.WellTyped l) (hl : l.Reachable)
    (ht : e.type.Formed (2 ^ 31 - 1)) : e.Faithful l := by
  unfold Faithful
  split
  · next op pos left right elem =>
    intro ho
    -- The rules for sums and for differences have one form.
    have hadditive : MemberAddress l op left right (.pointer elem) ∨
        ∃ e', CType.pointer elem = .pointer e' ∧ Scaled l e' right := by
      cases op with
      | add | sub =>
        rcases h with ⟨htype, -⟩ | h | ⟨e', htype, -, -, hscaled⟩
        · cases htype
        · exact .inl h
        · exact .inr ⟨e', htype, hscaled⟩
      | _ => cases ho
    rcases hadditive with ⟨struct, d, m, pos', -, hleft, hd, hm, rfl, htype⟩ | ⟨e', htype, hscaled⟩
    · cases htype
      exact .inl ⟨struct, d, m, _, pos', hleft, hd, hm, rfl, rfl, hl.offset_fits hd hm⟩
    · cases htype
      obtain ⟨size, hsize, ⟨hone, -⟩ | ⟨-, pos', n, rfl, -⟩⟩ := hscaled
      · exact .inr ⟨size, hsize, .inl hone⟩
      · have helem : elem.Formed (2 ^ 31 - 1) := ht
        exact .inr ⟨size, hsize, .inr ⟨_, pos', n, rfl, hl.size_fits helem.bounded hsize⟩⟩
  · trivial

/-- A node of a body was built while the body was read. -/
theorem Grammar.ReadBetween.wellTyped {o v w : Reading} {f : Function} {items : List Stmt} {B : Int}
    {n : Nat} {e : Expr} (h : ReadBetween o f v w) (hb : f.body = some items)
    (ht : Typed B n e) (ho : (Node.expr e).Occurs items) :
    ∃ u, v.Trail .file u ∧ e.WellTyped u.env.layout := by
  obtain ⟨u, hvu, -, hwell⟩ := ht.wellTyped_of_built (h.built Layer.file_bodies hb ho)
  exact ⟨u, hvu, hwell⟩

namespace Compile

variable {file source : Bytes} {settings : Settings} {p : Program}

/-- **Trees have the right constants**, for the layout of the moment at which a node was built. -/
theorem program_faithful (h : program file source settings = .ok p) (hs : Small settings) :
    ∀ f ∈ p.functions, ∃ items, f.body = some items ∧ ∀ e, (Node.expr e).Occurs items →
      ∃ u, Moment source settings u ∧ e.Faithful u.env.layout := by
  intro f hf
  have hlength := hs.arrayLength
  have hsize := hs.typeSize
  obtain ⟨hformed, -⟩ := formed_program (B := 2 ^ 31 - 1) (by decide) (by omega) (by omega) h
  obtain ⟨items, hbody, htyped⟩ := (hformed.functions f hf).body
  refine ⟨items, hbody, fun e ho => ?_⟩
  have htyped : Typed _ p.strings.length e := Node.Typed.of_occurs htyped ho
  obtain ⟨_, _, v, w, hread, hmoment⟩ := body_read h hf
  obtain ⟨u, hvu, hwell⟩ := hread.wellTyped hbody htyped ho
  have hu := hmoment u hvu
  exact ⟨u, hu, hwell.faithful (hu.reachable hs) htyped.formed⟩

/-! ## Frames -/

/-- Every function of an executable has code in the end. -/
theorem function_of_emit {routines : List CodeArea.Routine} {options : CodeArea.Options}
    {area : CodeArea} (h : CodeArea.emit p routines options = .ok area) :
    ∀ f ∈ p.functions, ∃ code, Lowering.function f (CodeArea.rulesFor p.layout options f).1
      (CodeArea.rulesFor p.layout options f).2 area.symbols = .ok code := by
  intro f hf
  obtain ⟨sized, final, globals, bss, hpass, rfl⟩ := CodeArea.emit_ok.mp h
  obtain ⟨_, fs, -, hfs, -⟩ := CodeArea.pieces_ok.mp hpass.filling
  obtain ⟨q, hq⟩ := except_mapM_ok_of_mem hfs hf
  rw [CodeArea.functionPiece_eq] at hq
  change ∃ code, Lowering.function f _ _ (CodeArea.symbolsOf p options sized globals) = .ok code
  cases hc : Lowering.function f (CodeArea.rulesFor p.layout options f).1
    (CodeArea.rulesFor p.layout options f).2 (CodeArea.symbolsOf p options sized globals) with
  | error d =>
    rw [hc] at hq
    cases hq
  | ok code => exact ⟨code, rfl⟩

/-! ## Addresses -/

/-- **The addresses of an executable in numbers**: each is the load address, the headers and an
offset. Strings lie behind the code, in the order of the pool, and variables behind the text, each
at the next multiple of its alignment behind the variables before it. -/
structure Executable.Addressed (settings : Settings) (x : Executable) : Prop where
  functions : ∀ name address, x.code.symbols.functions.get? name = some address →
    ∃ offset, x.code.offsets.get? name = some offset ∧
      address.toNat = settings.loadBase.toNat + Image.headerSize + offset
  strings : ∀ (i : Nat) address, x.code.symbols.strings[i]? = some address →
    address.toNat = settings.loadBase.toNat + Image.headerSize +
      (x.code.codeSize + (CodeArea.stringData (x.program.strings.take i)).length)
  places : ∀ name address, x.code.symbols.globals.get? name = some address →
    ∃ before g after align, x.program.globals = before ++ g :: after ∧ g.name = name ∧
      x.program.layout.alignment g.type = .ok align ∧
      (address.toNat : Int) = settings.loadBase.toNat + Image.headerSize +
        (CodeArea.roundUp x.code.text.length 8 +
          CodeArea.roundUp (CodeArea.roomEnd x.program.layout 0 before) align.toInt)

end Compile

/-- Pieces start within the code. -/
theorem CodeArea.starts_le {offset : Nat} {ps : List Piece} {row : Bytes × Nat}
    (h : row ∈ starts offset ps) : row.2 ≤ offset + lengthOf ps := by
  induction ps generalizing offset with
  | nil => cases h
  | cons q ps ih =>
    have hlength : lengthOf (q :: ps) = q.code.length + lengthOf ps := by simp [lengthOf]
    rcases List.mem_cons.mp h with rfl | h
    · omega
    · have hrest := ih h
      omega

namespace Compile

open CodeArea (Piece textSize lengthOf)

namespace Laid

variable {settings : Settings} {x : Executable} {sized final : List Piece}
  {globals : List (Bytes × Int64)} {bss : Int64}
  (h : Laid settings x sized final globals bss)
  (hfit : settings.loadBase.toNat + Image.headerSize + x.code.text.length + x.room < 2 ^ 32)

include h hfit

/-- An offset up to the end of the text is an address that does not wrap. -/
theorem toNat_address_le {n : Nat} (hn : n ≤ textSize x.program sized) :
    (CodeArea.address (optionsOf settings) n).toNat =
      settings.loadBase.toNat + Image.headerSize + n := by
  have hroom := h.room_nonneg (textSize x.program sized)
  rw [Executable.room, h.length_text] at hfit
  rw [CodeArea.toNat_address (by rw [h.base]; omega), h.base]

/-- The addresses of a laid-out executable are these numbers: nothing wraps around on the way to 32
bits. -/
theorem addressed : x.Addressed settings where
  functions name address hsymbol := by
    rw [h.code] at hsymbol ⊢
    obtain ⟨row, hrow, heq⟩ := List.mem_map.mp (CodeArea.mem_of_get?_tableOf hsymbol)
    obtain ⟨rfl, rfl⟩ := Prod.mk.inj heq
    refine ⟨row.2, CodeArea.get?_tableOf ?_ hrow, ?_⟩
    · rw [CodeArea.starts_names]
      exact h.distinct
    · have hle := CodeArea.starts_le hrow
      have htext : lengthOf sized ≤ textSize x.program sized := Nat.le_add_right _ _
      exact h.toNat_address_le hfit (by omega)
  strings i address hsymbol := by
    rw [h.code] at hsymbol ⊢
    change ((CodeArea.stringStarts (lengthOf sized) x.program.strings).map _)[i]? = _ at hsymbol
    rw [List.getElem?_map, Option.map_eq_some_iff] at hsymbol
    obtain ⟨n, hn, rfl⟩ := hsymbol
    have hi : i < x.program.strings.length := by
      rw [← CodeArea.length_stringStarts (lengthOf sized)]
      exact (List.getElem?_eq_some_iff.mp hn).1
    have hsplit : x.program.strings =
        x.program.strings.take i ++ x.program.strings[i] :: x.program.strings.drop (i + 1) := by
      rw [List.getElem_cons_drop, List.take_append_drop]
    obtain ⟨hstart, -, hle⟩ := h.passes.string hsplit
    rw [List.length_take, Nat.min_eq_left (by omega), hn] at hstart
    cases hstart
    exact h.toNat_address_le hfit (by omega)
  places name address hsymbol := by
    obtain ⟨-, -, hbss, rows, hrows, hglobals, hplaced⟩ := h.numbers
    have hsymbols : x.code.symbols.globals = CodeArea.tableOf
        (globals.map fun row => (row.1, variableAddress settings x sized row.2)) := by
      rw [h.code]
      rfl
    rw [hsymbols] at hsymbol
    obtain ⟨row, hrow, heq⟩ := List.mem_map.mp (CodeArea.mem_of_get?_tableOf hsymbol)
    obtain ⟨rfl, rfl⟩ := Prod.mk.inj heq
    -- The room ends before the addresses of 32 bits do, and the variable lies in it.
    have hend : front settings x sized + bss.toInt < 2 ^ 32 := by
      rw [Executable.room, h.length_text, CodeArea.roomOf, ← hbss] at hfit
      unfold front
      omega
    have hfront : 0 ≤ front settings x sized := by
      have hround := CodeArea.le_roundUp (a := 8) (.inr (.inr rfl)) (textSize x.program sized)
      change (textSize x.program sized : Int) ≤ CodeArea.roundUp _ 8 at hround
      unfold front
      omega
    have hbound : 0 ≤ row.2.toInt ∧ row.2.toInt ≤ bss.toInt := by
      rw [hglobals] at hrow
      obtain ⟨q, hq, rfl⟩ := List.mem_map.mp hrow
      obtain ⟨size, -, hs, -, -, h0, hlast⟩ := hplaced.mem hq
      have hg : q.1 ∈ x.program.globals := hrows ▸ List.mem_map_of_mem hq
      have hsize := (h.formed.layout.size (by decide) (h.formed.globals _ hg).1 hs).1
      exact ⟨h0, by dsimp only; omega⟩
    obtain ⟨before, g, after, align, hsplit, hname, ha, hstart⟩ := CodeArea.globalStarts_mem
      h.formed.layout (by decide) h.formed.globals h.passes.room (Int.le_refl 0)
      (by change CodeArea.roomEnd x.program.layout 0 _ < 2 ^ 62; omega) hrow
    refine ⟨before, g, after, align, hsplit, hname, ha, ?_⟩
    rw [h.toNat_variable hbound.1 hbound.2, Int.emod_eq_of_lt (by omega) (by omega), hstart, front,
      h.length_text, Int.add_assoc]
    rfl

end Laid

/-! ## Executables -/

variable {file source : Bytes} {settings : Settings} {x : Executable}

/-- The layout that a function of an executable is lowered under. -/
def Executable.layoutOf (settings : Settings) (x : Executable) (f : Function) : Layout :=
  (CodeArea.rulesFor x.program.layout (optionsOf settings) f).1

/-- The code of a function of an executable. -/
def Executable.codeOf (settings : Settings) (x : Executable) (f : Function) :
    Except Diagnostic Code :=
  Lowering.function f (x.layoutOf settings f)
    (CodeArea.rulesFor x.program.layout (optionsOf settings) f).2 x.code.symbols

theorem definable_layoutOf (h : Definable x.program.layout.structs) (f : Function) :
    Definable (x.layoutOf settings f).structs := by
  unfold Executable.layoutOf CodeArea.rulesFor
  split <;> exact h

/-- **Nothing is lost in 32 bits** under limits below 2^31. At every moment of reading, the
constants that stand for sizes and offsets are these sizes and offsets, and so are those in the
trees of the program. A function whose slots take fewer than 2^31 - 16 bytes has a frame that covers
them, with each slot at minus the bytes used so far. The addresses of a program that ends before
2^32 are the load address, the headers and an offset. -/
theorem executable_exact (h : executable file source settings = .ok x) (hs : Small settings) :
    (∀ u, Moment source settings u → u.Faithful) ∧
      (∀ f ∈ x.program.functions, ∃ items, f.body = some items ∧
        ∀ e, (Node.expr e).Occurs items →
          ∃ u, Moment source settings u ∧ e.Faithful u.env.layout) ∧
      (∀ f ∈ x.program.functions, ∃ code, x.codeOf settings f = .ok code ∧
        ((x.layoutOf settings f).demand ((f.slots (x.layoutOf settings f)).map Slot.type) <
          2 ^ 31 - 16 →
        Lowering.Framed (x.layoutOf settings f) (f.slots (x.layoutOf settings f)) code)) ∧
      (settings.loadBase.toNat + Image.headerSize + x.code.text.length + x.room < 2 ^ 32 →
        x.Addressed settings) := by
  obtain ⟨-, hp, hc, -⟩ := executable_ok h
  have hreach := reachable_program hp hs
  refine ⟨fun u hu => Reading.faithful (hu.reachable hs), program_faithful hp hs, ?_, ?_⟩
  · intro f hf
    obtain ⟨code, hcode⟩ := function_of_emit hc f hf
    refine ⟨code, hcode, fun hroom => ?_⟩
    exact Lowering.function_frame (definable_layoutOf hreach.definable f) hcode hroom
  · intro hfit
    obtain ⟨sized, final, globals, bss, hlaid⟩ :=
      laid_of_executable h hs.typeSize hs.arrayLength (Int.le_of_lt hfit)
    exact hlaid.addressed hfit

/-- Structs behind pointers, a size, the distance of two places, and slots of several types. -/
def accounts : Bytes := "struct entry \x7b char kind; int amount; \x7d;
struct entry book[3]; char tag;
int main() \x7b
  char line[10];
  struct entry *e = book;
  e += 2;
  line[1] = *\"ab\";
  return e->amount + (e - book) + sizeof(struct entry);
\x7d"

theorem executable_exact_accounts : ∃ x, executable "accounts.c" accounts {} = .ok x ∧
    x.program.functions.length = 3 ∧ x.program.globals.length = 2 ∧
    (∀ u, Moment accounts {} u → u.Faithful) ∧
    (∀ f ∈ x.program.functions, ∃ code, x.codeOf {} f = .ok code ∧
      Lowering.Framed (x.layoutOf {} f) (f.slots (x.layoutOf {} f)) code) ∧
    x.Addressed {} := by
  have hread : (executable "accounts.c" accounts {}).toOption.any (fun x =>
      x.program.functions.length == 3 && x.program.globals.length == 2 &&
        x.program.functions.all (fun f => decide ((x.layoutOf {} f).demand
          ((f.slots (x.layoutOf {} f)).map Slot.type) < 2 ^ 31 - 16)) &&
        decide ((({} : Settings).loadBase.toNat : Int) + Image.headerSize + x.code.text.length +
          x.room < 2 ^ 32)) = true := by decide +kernel
  obtain ⟨x, h, hread⟩ := exists_ok_of_any hread
  simp only [Bool.and_eq_true, beq_iff_eq, List.all_eq_true, decide_eq_true_eq] at hread
  obtain ⟨⟨⟨hf, hg⟩, hroom⟩, hfit⟩ := hread
  obtain ⟨hmoments, -, hframes, haddresses⟩ := executable_exact h ⟨by decide, by decide⟩
  refine ⟨x, h, hf, hg, hmoments, fun f hmem => ?_, haddresses hfit⟩
  obtain ⟨code, hcode, hframed⟩ := hframes f hmem
  exact ⟨code, hcode, hframed (hroom f hmem)⟩

/-- The constant that a function returns right away. -/
def constant? (f : Function) : Option Int32 :=
  match f.body with
  | some [.ret (some (.num value _ _)) _] => some value
  | _ => none

/-- Settings that are valid, with limits beyond 32 bits. -/
def vast : Settings where
  limits := { typeSize := 2 ^ 32, arrayLength := 2 ^ 32 }

/-- An array of 2^32 bytes, and a local one of three billion. -/
def ocean : Bytes := "char big[4294967296]; int g;
int far() \x7b char a[3000000000]; return *a; \x7d
int main() \x7b return sizeof(big); \x7d"

/-- **Bits are lost beyond limits of 32 bits**: a size becomes zero, a slot lies above the frame
pointer in a frame of negative size, and two variables have one address. -/
theorem executable_cut : vast.validate = .ok () ∧ ∃ x, executable "ocean.c" ocean vast = .ok x ∧
    x.program.layout.size (.array .char (2 ^ 32)) = .ok (2 ^ 32) ∧
    (∃ f ∈ x.program.functions, f.name = "main" ∧ constant? f = some 0) ∧
    (∃ f ∈ x.program.functions, ∃ code, x.codeOf vast f = .ok code ∧
      Instr.enter (-1294967296) <+: code ∧ ∃ offset ∈ Code.slotOffsets code, 0 < offset.toInt) ∧
    ∃ address, x.code.symbols.globals.get? "big" = some address ∧
      x.code.symbols.globals.get? "g" = some address := by
  have hread : (executable "ocean.c" ocean vast).toOption.any (fun x =>
      decide (x.program.layout.size (.array .char (2 ^ 32)) = .ok (2 ^ 32)) &&
        x.program.functions.any (fun f => f.name == "main" && constant? f == some 0) &&
        x.program.functions.any (fun f => (x.codeOf vast f).toOption.any fun code =>
          decide (Instr.enter (-1294967296) <+: code) &&
            (Code.slotOffsets code).any fun offset => decide (0 < offset.toInt)) &&
        x.code.symbols.globals.get? "big" == some 4194864 &&
        x.code.symbols.globals.get? "g" == some 4194864) = true := by decide +kernel
  refine ⟨by decide, ?_⟩
  obtain ⟨x, h, hread⟩ := exists_ok_of_any hread
  simp only [Bool.and_eq_true, beq_iff_eq, List.any_eq_true, decide_eq_true_eq] at hread
  obtain ⟨⟨⟨⟨hsize, hmain⟩, far, hfar, hcode⟩, hbig⟩, hg⟩ := hread
  refine ⟨x, h, hsize, hmain, ⟨far, hfar, ?_⟩, 4194864, hbig, hg⟩
  obtain ⟨code, hc, hcode⟩ := exists_ok_of_any hcode
  simp only [Bool.and_eq_true, List.any_eq_true, decide_eq_true_eq] at hcode
  exact ⟨code, hc, hcode⟩

end Compile

end DirectC
