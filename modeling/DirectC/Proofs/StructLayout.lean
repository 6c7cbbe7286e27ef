/-
# How structs are laid out

The rules for structs in numbers that do not wrap: members stand in the order of the fields, each at
the least multiple of its alignment that is not below the end of the one before it, and the size is
the least multiple of the alignment of the struct that is not below the end of the last one
(`Layout.LaidOut`). Under limits below 2^31 a definition keeps to these rules, and succeeds exactly
if the fields fit (`Layout.define_laidOut`).

`Definable` tables of structs are all that definitions can make, whatever the limits are.
-/
import DirectC.Proofs.Limits
import DirectC.Proofs.Room
import Mathlib.Data.List.Nodup

namespace DirectC

open CodeArea (roundUp roundUp_isLeast le_roundUp toInt_alignUp)

/-! ## Tables of structs -/

/-- **The tables of structs that definitions make**, each definition under limits of its own. -/
inductive Definable : Table StructDef → Prop where
  | empty : Definable ∅
  | define {l l' : Layout} {name : Bytes} {fields : List Field} (h : Definable l.structs)
    (hl : l.define name fields = .ok l') : Definable l'.structs

namespace Layout

variable {l l' : Layout} {name : Bytes} {fields : List Field} {d : StructDef}

/-- A struct is what its fields add up to, rounded up to its alignment, if that is within the limit.
-/
theorem structOf_ok : l.structOf name fields = .ok d ↔
    ∃ p, fields.foldlM (l.place name) {} = .ok p ∧ alignUp p.next p.align ≤ l.limits.typeSize ∧
      d = ⟨name, alignUp p.next p.align, p.align, p.members⟩ := by
  unfold structOf
  rw [except_bind_ok]
  refine exists_congr fun p => and_congr_right fun _ => ?_
  by_cases hlt : l.limits.typeSize < alignUp p.next p.align
  · have hle : ¬ alignUp p.next p.align ≤ l.limits.typeSize := Int64.not_le.mpr hlt
    simp [hlt, hle, throw, throwThe, MonadExceptOf.throw, bind, Except.bind]
  · have hle : alignUp p.next p.align ≤ l.limits.typeSize := Int64.not_lt.mp hlt
    simp [hlt, hle, pure, Except.pure, eq_comm]

/-- The alignment stays one of those that machines have. -/
theorem places_aligns {p p' : Placement} (hs : l.structs.All fun _ d => Aligns d.align)
    (hp : Aligns p.align) (h : fields.foldlM (l.place name) p = .ok p') : Aligns p'.align := by
  induction fields generalizing p with
  | nil =>
    cases h
    exact hp
  | cons f fields ih =>
    obtain ⟨q, hq, h⟩ := except_bind_ok.mp h
    obtain ⟨-, -, size, align, -, ha, -, rfl⟩ := place_ok.mp hq
    exact ih (hp.max (alignment_aligns hs ha)) h

end Layout

/-- Structs have one of the three alignments. -/
theorem Definable.aligns {structs : Table StructDef} (h : Definable structs) :
    structs.All fun _ d => Aligns d.align := by
  induction h with
  | empty => exact .empty
  | define _ hl ih =>
    obtain ⟨d, hd, rfl⟩ := Layout.define_ok.mp hl
    obtain ⟨p, hp, -, rfl⟩ := Layout.structOf_ok.mp hd
    exact ih.insert (Layout.places_aligns ih (.inl rfl) hp)

namespace Layout

/-! ## The rules -/

/-- The size of a type as a number, zero if it has none. -/
def bytes (l : Layout) (t : CType) : Int :=
  match l.size t with
  | .ok n => n.toInt
  | .error _ => 0

/-- The alignment of a type as a number, one if it has none. -/
def boundary (l : Layout) (t : CType) : Int :=
  match l.alignment t with
  | .ok a => a.toInt
  | .error _ => 1

/-- The end of values of given types that stand one behind the other from an offset on. -/
def extent (l : Layout) (offset : Int) (types : List CType) : Int :=
  types.foldl (fun e t => roundUp e (l.boundary t) + l.bytes t) offset

/-- The largest alignment of the types, and at least one. -/
def widest (l : Layout) (types : List CType) : Int :=
  types.foldl (fun a t => max a (l.boundary t)) 1

/-- The size of a struct whose members have the given types. -/
def total (l : Layout) (types : List CType) : Int :=
  roundUp (l.extent 0 types) (l.widest types)

/-- **The fields fit**: names are distinct, all types have a size and none is `void`, and no field
ends beyond the limit. -/
structure Fits (l : Layout) (fields : List Field) : Prop where
  distinct : (fields.map Field.name).Nodup
  sized : ∀ f ∈ fields, f.type.isVoid = false ∧ ∃ n, l.size f.type = .ok n
  ends : ∀ before, before <+: fields →
    l.extent 0 (before.map Field.type) ≤ l.limits.typeSize.toInt

/-- Members one behind the other, from an offset to an end: each at the least multiple of its
alignment that is not below the end of the one before it. -/
def Stacked (l : Layout) (offset : Int) (members : List Member) (last : Int) : Prop :=
  match members with
  | [] => last = offset
  | m :: members =>
    IsLeast {x : Int | l.boundary m.type ∣ x ∧ offset ≤ x} m.offset.toInt ∧
      l.Stacked (m.offset.toInt + l.bytes m.type) members last

end Layout

/-- The field behind a member. -/
def Member.field (m : Member) : Field :=
  ⟨m.name, m.type⟩

/-- **A struct that keeps to the rules**, in the layout of its definition. -/
structure Layout.LaidOut (l : Layout) (fields : List Field) (d : StructDef) : Prop where
  members : d.members.map Member.field = fields
  known : ∀ f ∈ fields, (∃ n, l.size f.type = .ok n) ∧ ∃ a, l.alignment f.type = .ok a
  align : d.align.toInt = l.widest (fields.map Field.type)
  size : ∃ last, l.Stacked 0 d.members last ∧
    IsLeast {x : Int | d.align.toInt ∣ x ∧ last ≤ x} d.size.toInt

namespace Layout

variable {l l' : Layout} {name : Bytes} {fields before : List Field} {f : Field} {t : CType}
  {n a : Int64} {p p' : Placement} {d : StructDef}

theorem bytes_eq (h : l.size t = .ok n) : l.bytes t = n.toInt := by
  rw [bytes, h]

theorem boundary_eq (h : l.alignment t = .ok a) : l.boundary t = a.toInt := by
  rw [boundary, h]

/-- One more field begins at its boundary and takes its bytes. -/
theorem extent_append_singleton (l : Layout) (offset : Int) (types : List CType) (t : CType) :
    l.extent offset (types ++ [t]) =
      roundUp (l.extent offset types) (l.boundary t) + l.bytes t := by
  rw [extent, List.foldl_append]
  rfl

/-- One more field may be the one with the widest boundary. -/
theorem widest_append_singleton (l : Layout) (types : List CType) (t : CType) :
    l.widest (types ++ [t]) = max (l.widest types) (l.boundary t) := by
  rw [widest, List.foldl_append]
  rfl

/-- One more member at the end. -/
theorem Stacked.append_singleton {offset last : Int} {members : List Member} {m : Member}
    (h : l.Stacked offset members last)
    (hm : IsLeast {x : Int | l.boundary m.type ∣ x ∧ last ≤ x} m.offset.toInt) :
    l.Stacked offset (members ++ [m]) (m.offset.toInt + l.bytes m.type) := by
  induction members generalizing offset with
  | nil =>
    cases h
    exact ⟨hm, rfl⟩
  | cons m' members ih => exact ⟨h.1, ih h.2⟩

/-! ## Placing fields -/

/-- A layout under small limits, whose structs have natural sizes and are listed in the order of
their first definitions. -/
structure Orderly (l : Layout) : Prop where
  typeSize : l.limits.typeSize.toInt < 2 ^ 31
  arrayLength : l.limits.arrayLength.toInt < 2 ^ 31
  sizes : l.structs.All fun _ d => 0 ≤ d.size.toInt
  aligns : l.structs.All fun _ d => Aligns d.align
  names : l.structs.All fun name d => d.name = name
  order : l.order.Nodup
  listed : ∀ name, name ∈ l.order ↔ (l.struct? name).isSome

/-- A placement of fields in numbers that have not wrapped. -/
structure Exact (l : Layout) (fields : List Field) (p : Placement) : Prop where
  members : p.members.map Member.field = fields
  stacked : l.Stacked 0 p.members p.next.toInt
  next : p.next.toInt = l.extent 0 (fields.map Field.type)
  nonneg : 0 ≤ p.next.toInt
  small : p.next.toInt < 2 ^ 31
  aligns : Aligns p.align
  align : p.align.toInt = l.widest (fields.map Field.type)

/-- Before the first field everything is zero. -/
theorem Exact.start (l : Layout) : l.Exact [] {} :=
  ⟨rfl, rfl, rfl, by decide, by decide, .inl rfl, rfl⟩

theorem toInt_max (a b : Int64) : (max a b).toInt = max a.toInt b.toInt := by
  by_cases h : a ≤ b
  · have hle := Int64.le_iff_toInt_le.mp h
    rw [show max a b = b from if_pos h, Int.max_eq_right hle]
  · have hlt := Int64.lt_iff_toInt_lt.mp (Int64.not_le.mp h)
    rw [show max a b = a from if_neg h, Int.max_eq_left (Int.le_of_lt hlt)]

/-- The end of the next member does not wrap. -/
theorem Exact.end_eq (hl : l.Orderly) (hp : l.Exact before p)
    (ht : t.Bounded l.limits.arrayLength.toInt) (hn : l.size t = .ok n)
    (ha : l.alignment t = .ok a) :
    (alignUp p.next a).toInt = roundUp p.next.toInt (l.boundary t) ∧
      (alignUp p.next a + n).toInt = roundUp p.next.toInt (l.boundary t) + l.bytes t ∧
      0 ≤ (alignUp p.next a + n).toInt := by
  have haligns := alignment_aligns hl.aligns ha
  obtain ⟨h0, h1⟩ := size_bounds hl.sizes hl.arrayLength hl.typeSize ht hn
  have hsmall := hp.small
  have hnonneg := hp.nonneg
  have hlimit := hl.typeSize
  obtain ⟨hle, hlt, -⟩ := alignUp_spec haligns hnonneg (by omega)
  have h8 := haligns.le
  rw [Int64.toInt_add, word_eq (by omega) (by omega), boundary_eq ha, bytes_eq hn,
    ← toInt_alignUp haligns hnonneg (by omega)]
  exact ⟨rfl, rfl, by omega⟩

/-- **One field is placed** if its name is new and it has a size, it is not `void`, and it does not
end beyond the limit. -/
theorem Exact.place_iff (hl : l.Orderly) (hp : l.Exact before p)
    (ht : f.type.Bounded l.limits.arrayLength.toInt) :
    (∃ p', l.place name p f = .ok p') ↔
      f.name ∉ before.map Field.name ∧ (f.type.isVoid = false ∧ ∃ n, l.size f.type = .ok n) ∧
        l.extent 0 ((before ++ [f]).map Field.type) ≤ l.limits.typeSize.toInt := by
  have hname : (p.members.any fun m => m.name == f.name) = false ↔
      f.name ∉ before.map Field.name := by
    rw [← hp.members, List.map_map, List.any_eq_false]
    simp [Member.field]
  have hextent : l.extent 0 ((before ++ [f]).map Field.type) =
      roundUp p.next.toInt (l.boundary f.type) + l.bytes f.type := by
    rw [List.map_append, List.map_singleton, extent_append_singleton, ← hp.next]
  rw [hextent]
  constructor
  · rintro ⟨p', h⟩
    obtain ⟨hany, hvoid, size, align, hsize, halign, hle, -⟩ := place_ok.mp h
    refine ⟨hname.mp hany, ⟨hvoid, size, hsize⟩, ?_⟩
    rw [Int64.le_iff_toInt_le, (hp.end_eq hl ht hsize halign).2.1] at hle
    exact hle
  · rintro ⟨hnew, ⟨hvoid, size, hsize⟩, hle⟩
    obtain ⟨align, halign⟩ := alignment_of_size hsize
    rw [← (hp.end_eq hl ht hsize halign).2.1, ← Int64.le_iff_toInt_le] at hle
    exact ⟨_, place_ok.mpr ⟨hname.mpr hnew, hvoid, size, align, hsize, halign, hle, rfl⟩⟩

/-- **One field is placed exactly**: at the first boundary of its own type behind the fields before
it. -/
theorem Exact.place (hl : l.Orderly) (hp : l.Exact before p)
    (ht : f.type.Bounded l.limits.arrayLength.toInt) (h : l.place name p f = .ok p') :
    l.Exact (before ++ [f]) p' := by
  obtain ⟨-, -, size, align, hsize, halign, hle, rfl⟩ := place_ok.mp h
  have haligns := alignment_aligns hl.aligns halign
  obtain ⟨hoffset, hend, h0⟩ := hp.end_eq hl ht hsize halign
  have hsmall := Int.lt_of_le_of_lt (Int64.le_iff_toInt_le.mp hle) hl.typeSize
  refine ⟨?_, ?_, ?_, h0, hsmall, hp.aligns.max haligns, ?_⟩
  · rw [List.map_append, hp.members]
    rfl
  · have hleast := roundUp_isLeast haligns.pos p.next.toInt
    rw [← boundary_eq halign, ← hoffset] at hleast
    have hstacked :=
      hp.stacked.append_singleton (m := ⟨f.name, f.type, alignUp p.next align⟩) hleast
    rw [hend, ← hoffset]
    exact hstacked
  · rw [hend, List.map_append, List.map_singleton, extent_append_singleton, ← hp.next]
  · rw [List.map_append, List.map_singleton, widest_append_singleton, ← hp.align,
      boundary_eq halign, toInt_max]

/-- **All fields are placed exactly**, one after the other. -/
theorem Exact.places (hl : l.Orderly) (hp : l.Exact before p)
    (ht : ∀ f ∈ fields, f.type.Bounded l.limits.arrayLength.toInt)
    (h : fields.foldlM (l.place name) p = .ok p') : l.Exact (before ++ fields) p' := by
  induction fields generalizing before p with
  | nil =>
    cases h
    rw [List.append_nil]
    exact hp
  | cons f fields ih =>
    obtain ⟨q, hq, h⟩ := except_bind_ok.mp h
    rw [← List.singleton_append, ← List.append_assoc]
    exact ih (hp.place hl (ht f List.mem_cons_self) hq)
      (fun g hg => ht g (List.mem_cons_of_mem _ hg)) h

/-- The first of some fields that fit together fit. -/
theorem Fits.of_prefix (h : l.Fits fields) (hp : before <+: fields) : l.Fits before :=
  ⟨h.distinct.sublist (hp.sublist.map _), fun f hf => h.sized f (hp.subset hf),
    fun some hs => h.ends some (hs.trans hp)⟩

/-- One more field fits if its name is new, its type has a size, and the limit is kept. -/
theorem fits_append_singleton : l.Fits (before ++ [f]) ↔ l.Fits before ∧
    f.name ∉ before.map Field.name ∧ (f.type.isVoid = false ∧ ∃ n, l.size f.type = .ok n) ∧
      l.extent 0 ((before ++ [f]).map Field.type) ≤ l.limits.typeSize.toInt := by
  constructor
  · intro h
    refine ⟨h.of_prefix (List.prefix_append ..), ?_, h.sized f (by simp), h.ends _ List.prefix_rfl⟩
    have hnodup := h.distinct
    rw [List.map_append, List.map_singleton, ← List.concat_eq_append, List.nodup_concat] at hnodup
    exact hnodup.1
  · rintro ⟨h, hnew, hsized, hend⟩
    constructor
    · rw [List.map_append, List.map_singleton, ← List.concat_eq_append, List.nodup_concat]
      exact ⟨hnew, h.distinct⟩
    · intro g hg
      rcases List.mem_append.mp hg with hg | hg
      · exact h.sized g hg
      · rwa [List.mem_singleton.mp hg]
    · intro some hs
      rcases List.prefix_concat_iff.mp hs with rfl | hs
      · exact hend
      · exact h.ends some hs

/-- **All fields are placed** if they fit behind those placed before them. -/
theorem Exact.places_iff (hl : l.Orderly) (hp : l.Exact before p) (hb : l.Fits before)
    (ht : ∀ f ∈ fields, f.type.Bounded l.limits.arrayLength.toInt) :
    (∃ p', fields.foldlM (l.place name) p = .ok p') ↔ l.Fits (before ++ fields) := by
  induction fields generalizing before p with
  | nil =>
    rw [List.append_nil]
    exact ⟨fun _ => hb, fun _ => ⟨p, rfl⟩⟩
  | cons f fields ih =>
    have hf := ht f List.mem_cons_self
    have hfields : ∀ g ∈ fields, g.type.Bounded l.limits.arrayLength.toInt :=
      fun g hg => ht g (List.mem_cons_of_mem _ hg)
    have hsplit : before ++ f :: fields = (before ++ [f]) ++ fields := by simp
    rw [hsplit]
    constructor
    · rintro ⟨p', h⟩
      obtain ⟨q, hq, h⟩ := except_bind_ok.mp h
      have hfits := fits_append_singleton.mpr ⟨hb, (hp.place_iff hl hf).mp ⟨q, hq⟩⟩
      exact (ih (hp.place hl hf hq) hfits hfields).mp ⟨p', h⟩
    · intro hall
      have hfits := hall.of_prefix (List.prefix_append (before ++ [f]) fields)
      obtain ⟨q, hq⟩ := (hp.place_iff hl hf).mpr (fits_append_singleton.mp hfits).2
      obtain ⟨p', h⟩ := (ih (hp.place hl hf hq) hfits hfields).mpr hall
      exact ⟨p', except_bind_ok.mpr ⟨q, hq, h⟩⟩

/-- The size of the struct does not wrap. -/
theorem Exact.size_eq (hp : l.Exact fields p) :
    (alignUp p.next p.align).toInt = l.total (fields.map Field.type) := by
  have hsmall := hp.small
  rw [toInt_alignUp hp.aligns hp.nonneg (by omega), hp.next, hp.align]
  rfl

/-- Structs take no negative room. -/
theorem Exact.nonneg_total (hp : l.Exact fields p) : 0 ≤ l.total (fields.map Field.type) := by
  have hle := le_roundUp hp.aligns p.next.toInt
  rw [hp.align, hp.next] at hle
  exact Int.le_trans (hp.next ▸ hp.nonneg) hle

/-! ## Definitions -/

/-- **The definition of a struct succeeds** exactly if its fields fit, and so does the struct. -/
theorem structOf_iff (hl : l.Orderly)
    (ht : ∀ f ∈ fields, f.type.Bounded l.limits.arrayLength.toInt) :
    (∃ d, l.structOf name fields = .ok d) ↔
      l.Fits fields ∧ l.total (fields.map Field.type) ≤ l.limits.typeSize.toInt := by
  -- A struct within the limit shows that the limit is not negative, so that no fields fit.
  have hnone (h : 0 ≤ l.limits.typeSize.toInt) : l.Fits [] :=
    ⟨.nil, by simp, fun before hb => by rwa [List.prefix_nil.mp hb]⟩
  constructor
  · rintro ⟨d, h⟩
    obtain ⟨p, hp, hle, -⟩ := structOf_ok.mp h
    have hexact := (Exact.start l).places hl ht hp
    rw [Int64.le_iff_toInt_le, hexact.size_eq] at hle
    have hlimit := Int.le_trans hexact.nonneg_total hle
    exact ⟨((Exact.start l).places_iff hl (hnone hlimit) ht).mp ⟨p, hp⟩, hle⟩
  · rintro ⟨hfits, hle⟩
    have hempty := hfits.of_prefix List.nil_prefix
    obtain ⟨p, hp⟩ := ((Exact.start l).places_iff hl hempty ht).mpr hfits
    have hexact := (Exact.start l).places hl ht hp
    rw [← List.nil_append fields, ← hexact.size_eq, ← Int64.le_iff_toInt_le] at hle
    exact ⟨_, structOf_ok.mpr ⟨p, hp, hle, rfl⟩⟩

/-- **A struct keeps to the rules.** -/
theorem structOf_laidOut (hl : l.Orderly)
    (ht : ∀ f ∈ fields, f.type.Bounded l.limits.arrayLength.toInt)
    (h : l.structOf name fields = .ok d) :
    d.name = name ∧ 0 ≤ d.size.toInt ∧ Aligns d.align ∧ l.LaidOut fields d := by
  have hfits := ((structOf_iff hl ht).mp ⟨d, h⟩).1
  obtain ⟨p, hp, -, rfl⟩ := structOf_ok.mp h
  have hexact : l.Exact fields p := (Exact.start l).places hl ht hp
  have hleast := roundUp_isLeast hexact.aligns.pos p.next.toInt
  rw [← toInt_alignUp hexact.aligns hexact.nonneg (by have := hexact.small; omega)] at hleast
  refine ⟨rfl, Int.le_trans hexact.nonneg hleast.1.2, hexact.aligns, hexact.members, ?_,
    hexact.align, p.next.toInt, hexact.stacked, hleast⟩
  intro f hf
  obtain ⟨n, hn⟩ := (hfits.sized f hf).2
  exact ⟨⟨n, hn⟩, alignment_of_size hn⟩

/-- The layout that a definition leaves, whether it succeeds or fails. -/
def attempt (l : Layout) (name : Bytes) (fields : List Field) : Layout :=
  match enter name fields l with
  | .ok _ l' => l'
  | .error _ l' => l'

/-- A definition that succeeds adds its struct. -/
theorem attempt_of_structOf (h : l.structOf name fields = .ok d) :
    l.attempt name fields = l.add d := by
  rw [attempt, enter_eq, h]

theorem attempt_of_define (h : l.define name fields = .ok l') : l.attempt name fields = l' := by
  obtain ⟨d, hd, rfl⟩ := define_ok.mp h
  exact attempt_of_structOf hd

/-- A definition that fails leaves the layout as it is. -/
theorem attempt_of_fault {fault : Fault} (h : l.structOf name fields = .error fault) :
    l.attempt name fields = l := by
  rw [attempt, enter_eq, h]

/-- What a definition leaves: the layout with the struct, or the layout as it was. -/
theorem attempt_cases (l : Layout) (name : Bytes) (fields : List Field) :
    (∃ d, l.structOf name fields = .ok d ∧ l.attempt name fields = l.add d) ∨
      l.attempt name fields = l := by
  cases hd : l.structOf name fields with
  | error fault => exact .inr (attempt_of_fault hd)
  | ok d => exact .inl ⟨d, rfl, attempt_of_structOf hd⟩

/-- Whether or not it succeeds, a definition leaves structs that definitions can build. -/
theorem definable_attempt (h : Definable l.structs) :
    Definable (l.attempt name fields).structs := by
  rcases l.attempt_cases name fields with ⟨d, hd, heq⟩ | heq
  · rw [heq]
    exact .define h (define_ok.mpr ⟨d, hd, rfl⟩)
  · rwa [heq]

/-- **The layouts that definitions reach** under limits below 2^31, with array lengths within the
limits. It is `Layout.array` that checks these lengths; `define` takes the types as they are. A
layout with other limits goes on in place of the one that it was made from, whose structs it shares
(`Layout.Reachable.shared`). -/
inductive Reachable : Layout → Prop where
  | start {limits : Limits} (hs : limits.typeSize.toInt < 2 ^ 31)
    (ha : limits.arrayLength.toInt < 2 ^ 31) : Reachable { limits }
  | define {l : Layout} (name : Bytes) {fields : List Field} (hl : Reachable l)
    (ht : ∀ f ∈ fields, f.type.Bounded l.limits.arrayLength.toInt) :
    Reachable (l.attempt name fields)
  | withLimits {l : Layout} {limits : Limits} (hl : Reachable l)
    (hs : limits.typeSize.toInt < 2 ^ 31) (ha : limits.arrayLength.toInt < 2 ^ 31) :
    Reachable (l.withLimits limits)

/-- A struct is found under its own name, and others are found as before. -/
theorem struct?_add (l : Layout) (d : StructDef) (name : Bytes) :
    (l.add d).struct? name = if d.name = name then some d else l.struct? name :=
  Table.get?_insert ..

/-- A new struct comes last. -/
theorem order_add (l : Layout) (d : StructDef) :
    (l.add d).order = if (l.struct? d.name).isSome then l.order else l.order ++ [d.name] := by
  rw [struct?, ← Table.contains_eq]
  rfl

/-- A struct with a size and an alignment keeps the tables orderly. -/
theorem Orderly.add (hl : l.Orderly) (h0 : 0 ≤ d.size.toInt) (ha : Aligns d.align) :
    (l.add d).Orderly := by
  refine ⟨hl.typeSize, hl.arrayLength, hl.sizes.insert h0, hl.aligns.insert ha,
    hl.names.insert rfl, ?_, ?_⟩
  · rw [order_add]
    by_cases hd : (l.struct? d.name).isSome
    · rw [if_pos hd]
      exact hl.order
    · rw [if_neg hd, ← List.concat_eq_append, List.nodup_concat]
      exact ⟨fun hmem => hd ((hl.listed d.name).mp hmem), hl.order⟩
  · -- A name is listed once, however often its struct is defined.
    intro name
    rw [order_add, struct?_add]
    by_cases hd : (l.struct? d.name).isSome
    · rw [if_pos hd, hl.listed]
      by_cases heq : d.name = name
      · rw [if_pos heq, ← heq]
        exact ⟨fun _ => rfl, fun _ => hd⟩
      · rw [if_neg heq]
    · rw [if_neg hd, List.mem_append, List.mem_singleton, hl.listed]
      by_cases heq : d.name = name
      · rw [if_pos heq]
        exact ⟨fun _ => rfl, fun _ => .inr heq.symm⟩
      · rw [if_neg heq]
        exact or_iff_left (Ne.symm heq)

/-- **The tables that definitions can build are orderly.** -/
theorem Reachable.orderly (h : l.Reachable) : l.Orderly := by
  induction h with
  | start hs ha => exact ⟨hs, ha, .empty, .empty, .empty, .nil, by simp [struct?]⟩
  | @define l name fields hl ht ih =>
    rcases l.attempt_cases name fields with ⟨d, hd, heq⟩ | heq
    · rw [heq]
      obtain ⟨-, h0, ha, -⟩ := structOf_laidOut ih ht hd
      exact ih.add h0 ha
    · rwa [heq]
  | withLimits hl hs ha ih =>
    exact ⟨hs, ha, ih.sizes, ih.aligns, ih.names, ih.order, ih.listed⟩

/-- The definitions stand in the order of their names. -/
theorem Orderly.names_definitions (hl : l.Orderly) :
    l.definitions.map StructDef.name = l.order := by
  rw [definitions, List.map_filterMap]
  conv_rhs => rw [← List.filterMap_some (l := l.order)]
  refine List.filterMap_congr fun name hname => ?_
  obtain ⟨d, hd⟩ := Option.isSome_iff_exists.mp ((hl.listed name).mp hname)
  rw [hd, Option.map_some, hl.names name d hd]

/-- **What a definition changes**: its name stands for it and is listed once, where it was defined
first, and all other names stand for what they stood for. -/
structure Adds (l : Layout) (d : StructDef) (l' : Layout) : Prop where
  limits : l'.limits = l.limits
  known : l'.struct? d.name = some d
  others : ∀ other, other ≠ d.name → l'.struct? other = l.struct? other
  names : l'.definitions.map StructDef.name =
    if (l.struct? d.name).isSome then l.definitions.map StructDef.name
    else l.definitions.map StructDef.name ++ [d.name]
  once : (l'.definitions.map StructDef.name).count d.name = 1
  entries : ∀ e ∈ l'.definitions, l'.struct? e.name = some e

/-- A definition adds its struct and leaves the others alone. -/
theorem Orderly.adds (hl : l.Orderly) (hd : (l.add d).Orderly) : l.Adds d (l.add d) := by
  have hknown : (l.add d).struct? d.name = some d := by rw [struct?_add, if_pos rfl]
  refine ⟨rfl, hknown, ?_, ?_, ?_, ?_⟩
  · intro other hne
    rw [struct?_add, if_neg (Ne.symm hne)]
  · rw [hl.names_definitions, hd.names_definitions, order_add]
  · rw [hd.names_definitions]
    exact List.count_eq_one_of_mem hd.order ((hd.listed d.name).mpr (by rw [hknown]; rfl))
  · intro e he
    obtain ⟨name, -, hname⟩ := List.mem_filterMap.mp he
    rwa [hd.names name e hname]

/-- **Structs are laid out by the rules.** A definition succeeds exactly if the fields fit and the
size is within the limit. The struct then keeps to the rules and takes its place in the layout;
otherwise the layout stays as it is. -/
theorem define_laidOut (hl : l.Reachable) (name : Bytes)
    (ht : ∀ f ∈ fields, f.type.Bounded l.limits.arrayLength.toInt) :
    ((∃ l', l.define name fields = .ok l') ↔
      l.Fits fields ∧ l.total (fields.map Field.type) ≤ l.limits.typeSize.toInt) ∧
    (∀ l', l.define name fields = .ok l' →
      ∃ d, d.name = name ∧ l.LaidOut fields d ∧ l.Adds d l') ∧
    ∀ fault, l.define name fields = .error fault → l.attempt name fields = l := by
  have horderly := hl.orderly
  refine ⟨?_, ?_, ?_⟩
  · have hiff : (∃ d, l.structOf name fields = .ok d) ↔ _ := structOf_iff horderly ht
    rw [← hiff]
    constructor
    · rintro ⟨l', h⟩
      obtain ⟨d, hd, -⟩ := define_ok.mp h
      exact ⟨d, hd⟩
    · rintro ⟨d, hd⟩
      exact ⟨l.add d, define_ok.mpr ⟨d, hd, rfl⟩⟩
  · intro l' h
    obtain ⟨d, hd, rfl⟩ := define_ok.mp h
    obtain ⟨hname, h0, ha, hlaid⟩ := structOf_laidOut horderly ht hd
    exact ⟨d, hname, hlaid, horderly.adds (horderly.add h0 ha)⟩
  · intro fault h
    exact attempt_of_fault (define_error.mp h)

/-- A layout with one struct, of eight bytes. -/
def pairs : Layout :=
  attempt {} "pair" [⟨"tag", .char⟩, ⟨"value", .int⟩]

/-- Fields with gaps between them, among them an array of structs. -/
def gapped : List Field :=
  [⟨"first", .char⟩, ⟨"pairs", .array (.struct "pair") 3⟩, ⟨"next", .pointer (.struct "node")⟩,
    ⟨"last", .char⟩]

/-- Their struct. -/
def node : StructDef :=
  ⟨"node", 48, 8, [⟨"first", .char, 0⟩, ⟨"pairs", .array (.struct "pair") 3, 4⟩,
    ⟨"next", .pointer (.struct "node"), 32⟩, ⟨"last", .char, 40⟩]⟩

theorem define_laidOut_gapped :
    pairs.Reachable ∧ (∀ f ∈ gapped, f.type.Bounded pairs.limits.arrayLength.toInt) ∧
      pairs.Fits gapped ∧ pairs.define "node" gapped = .ok (pairs.add node) ∧
      pairs.LaidOut gapped node ∧ pairs.Adds node (pairs.add node) := by
  have hl : pairs.Reachable :=
    .define _ (.start (by decide) (by decide)) (by simp [CType.Bounded])
  have ht : ∀ f ∈ gapped, f.type.Bounded pairs.limits.arrayLength.toInt := by
    simp [gapped, CType.Bounded]
    decide
  have hstruct : pairs.structOf "node" gapped = .ok node := by decide +kernel
  have hdefine : pairs.define "node" gapped = .ok (pairs.add node) :=
    define_ok.mpr ⟨node, hstruct, rfl⟩
  obtain ⟨hiff, hok, -⟩ := define_laidOut hl "node" ht
  obtain ⟨d, hname, hlaid, hadds⟩ := hok _ hdefine
  have hsame : node.name = d.name := hname.symm
  have hd : some node = some d := by
    rw [← hadds.known, struct?_add, if_pos hsame]
  obtain rfl : node = d := Option.some.inj hd
  exact ⟨hl, ht, (hiff.mp ⟨_, hdefine⟩).1, hdefine, hlaid, hadds⟩

end Layout

end DirectC
