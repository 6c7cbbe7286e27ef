/-
# Sizes that do not wrap

The size of a type as a number without bounds (`CType.footprint`), from the numbers of the structs
that were defined before it. `Layout.size` computes with words. If an array of the longest length
whose elements have the largest size has fewer than 2^63 bytes, no word wraps on the way: a type has
a size exactly if its number is within the limit, and its size is this number (`Layout.size_exact`).
Under longer lengths products wrap, and a product that has wrapped can pass the check against the
limit.
-/
import DirectC.Proofs.StructLayout
import DirectC.Settings

namespace DirectC

open CodeArea (roundUp roundUp_isLeast toInt_alignUp)

/-! ## Numbers of bytes -/

/-- The bytes that a value takes, and the boundary that it stands at. -/
structure Footprint where
  size : Int
  align : Int
  deriving DecidableEq, Repr, Inhabited

namespace Footprint

/-- The bytes up to the end of one more member. -/
def push (e f : Footprint) : Footprint :=
  ⟨roundUp e.size f.align + f.size, max e.align f.align⟩

/-- The bytes up to where the next struct of the same type can start. -/
def close (e : Footprint) : Footprint :=
  ⟨roundUp e.size e.align, e.align⟩

end Footprint

/-- The numbers of a struct as it was defined. -/
def StructDef.footprint (d : StructDef) : Footprint :=
  ⟨d.size.toInt, d.align.toInt⟩

namespace CType

variable (g : Table Footprint)

/-- **The size of a type as a number**, from those of the structs. -/
def footprint : CType → Footprint
  | .int => ⟨4, 4⟩
  | .char | .void => ⟨1, 1⟩
  | .pointer _ => ⟨8, 8⟩
  | .array elem length => ⟨(footprint elem).size * length.toInt, (footprint elem).align⟩
  | .struct name => (g.get? name).getD ⟨0, 1⟩
  | .unknown => ⟨0, 1⟩

/-- The structs of a type are defined, and neither the type nor an element of it has more than `T`
bytes. -/
def FitsIn (T : Int) : CType → Prop
  | .array elem length => elem.FitsIn T ∧ ((elem.array length).footprint g).size ≤ T
  | .struct name => ∃ f, g.get? name = some f ∧ f.size ≤ T
  | .unknown => False
  | t => (t.footprint g).size ≤ T

end CType

/-- The bytes of a struct with the given fields. -/
def structFootprint (g : Table Footprint) (fields : List Field) : Footprint :=
  ((fields.map fun f => f.type.footprint g).foldl Footprint.push ⟨0, 1⟩).close

/-- **Definitions with their numbers**, under limits that stay the same. Array lengths are those
that `Layout.array` lets pass. -/
inductive Layout.Gauged (limits : Limits) : Layout → Table Footprint → Prop where
  | start : Gauged limits { limits } ∅
  | define {l l' : Layout} {g : Table Footprint} {name : Bytes} {fields : List Field}
    (h : Gauged limits l g) (ht : ∀ f ∈ fields, f.type.Bounded limits.arrayLength.toInt)
    (hl : l.define name fields = .ok l') :
    Gauged limits l' (g.insert name (structFootprint g fields))

/-- **Limits under which no size wraps**: the largest type can be followed by another one, and the
longest array of such types is counted by a word. -/
structure Limits.Countable (limits : Limits) : Prop where
  typeSize : limits.typeSize.toInt < 2 ^ 62
  arrays : limits.typeSize.toInt * limits.arrayLength.toInt < 2 ^ 63

namespace Layout

variable {limits : Limits} {l l' : Layout} {g : Table Footprint} {name : Bytes}
  {fields : List Field} {f : Field} {t : CType} {n a : Int64} {p p' : Placement} {e : Footprint}

/-! ## Types -/

/-- The words of a layout stand for the numbers in a table. -/
structure Counts (limits : Limits) (l : Layout) (g : Table Footprint) : Prop where
  limits : l.limits = limits
  structs : ∀ name, g.get? name = (l.struct? name).map StructDef.footprint
  sizes : l.structs.All fun _ d => 0 ≤ d.size.toInt
  aligns : l.structs.All fun _ d => Aligns d.align

theorem bounded_iff {size : Int64} {x T : Int} (hT : l.limits.typeSize.toInt = T)
    (hx : size.toInt = x) (h0 : 0 ≤ x) :
    ((∃ n, l.bounded t size = .ok n) ↔ x ≤ T) ∧
      ∀ n, l.bounded t size = .ok n → n.toInt = x ∧ 0 ≤ n.toInt ∧ n.toInt ≤ T := by
  subst hT hx
  refine ⟨⟨?_, fun h => ⟨size, bounded_ok.mpr ⟨h, rfl⟩⟩⟩, ?_⟩
  · rintro ⟨n, h⟩
    exact (bounded_ok.mp h).1
  · intro n h
    obtain ⟨hle, rfl⟩ := bounded_ok.mp h
    exact ⟨rfl, h0, hle⟩

/-- **Words count types.** -/
theorem Counts.size (hg : l.Counts limits g) (hc : limits.Countable)
    (ht : t.Bounded limits.arrayLength.toInt) :
    ((∃ n, l.size t = .ok n) ↔ t.FitsIn g limits.typeSize.toInt) ∧
      ∀ n, l.size t = .ok n → n.toInt = (t.footprint g).size ∧ 0 ≤ n.toInt ∧
        n.toInt ≤ limits.typeSize.toInt := by
  have hT : l.limits.typeSize.toInt = limits.typeSize.toInt := by rw [hg.limits]
  induction t with
  | int | char | void | pointer elem => exact bounded_iff hT rfl (by simp [CType.footprint])
  | unknown =>
    constructor
    · constructor
      · rintro ⟨n, h⟩
        cases h
      · exact False.elim
    · intro n h
      cases h
  | struct name =>
    have hname := hg.structs name
    unfold Layout.size CType.FitsIn CType.footprint
    cases hd : l.struct? name with
    | none =>
      rw [hd, Option.map_none] at hname
      simp [hname]
    | some d =>
      rw [hd, Option.map_some] at hname
      have hbounded := bounded_iff (t := .struct name) hT rfl (hg.sizes name d hd)
      simpa [hname, StructDef.footprint] using hbounded
  | array elem length ih =>
    obtain ⟨hte, h0, h1⟩ := ht
    obtain ⟨hfits, hexact⟩ := ih hte
    -- the product of the words is that of the numbers, as long as the elements have a size
    have hmul {m : Int64} (hm : l.size elem = .ok m) :
        (m * length).toInt = (elem.footprint g).size * length.toInt ∧
          0 ≤ (elem.footprint g).size * length.toInt := by
      obtain ⟨hx, hm0, hm1⟩ := hexact m hm
      have hle : m.toInt * length.toInt ≤ limits.typeSize.toInt * limits.arrayLength.toInt :=
        Int.mul_le_mul hm1 h1 h0 (by omega)
      have hnonneg := Int.mul_nonneg hm0 h0
      have hlt := hc.arrays
      rw [← hx, Int64.toInt_mul]
      exact ⟨word_eq (by omega) (by omega), hnonneg⟩
    constructor
    · constructor
      · rintro ⟨n, h⟩
        obtain ⟨m, hm, h⟩ := except_bind_ok.mp h
        obtain ⟨hx, hnonneg⟩ := hmul hm
        exact ⟨hfits.mp ⟨m, hm⟩, (bounded_iff hT hx hnonneg).1.mp ⟨n, h⟩⟩
      · rintro ⟨he, hle⟩
        obtain ⟨m, hm⟩ := hfits.mpr he
        obtain ⟨hx, hnonneg⟩ := hmul hm
        obtain ⟨n, h⟩ := (bounded_iff (t := .array elem length) hT hx hnonneg).1.mpr hle
        exact ⟨n, except_bind_ok.mpr ⟨m, hm, h⟩⟩
    · intro n h
      obtain ⟨m, hm, h⟩ := except_bind_ok.mp h
      obtain ⟨hx, hnonneg⟩ := hmul hm
      exact (bounded_iff hT hx hnonneg).2 n h

theorem Counts.alignment (hg : l.Counts limits g) (h : l.alignment t = .ok a) :
    a.toInt = (t.footprint g).align := by
  induction t with
  | int | char | void | pointer =>
    cases h
    rfl
  | unknown => cases h
  | array elem length ih => exact ih h
  | struct name =>
    have hname := hg.structs name
    unfold Layout.alignment at h
    unfold CType.footprint
    cases hd : l.struct? name with
    | none => simp [hd] at h
    | some d =>
      rw [hd] at h hname
      cases h
      rw [hname]
      rfl

/-! ## Structs -/

/-- Words that count the members placed so far. -/
structure Placement.Counts (limits : Limits) (p : Placement) (e : Footprint) : Prop where
  next : p.next.toInt = e.size
  align : p.align.toInt = e.align
  aligns : Aligns p.align
  nonneg : 0 ≤ p.next.toInt
  small : p.next.toInt < 2 ^ 62

/-- Rounding up does not go beyond a power of two that is above, since alignments divide it. -/
theorem roundUp_le {x : Int} (ha : Aligns a) (hx : x < 2 ^ 62) : roundUp x a.toInt ≤ 2 ^ 62 := by
  have hdvd : a.toInt ∣ 2 ^ 62 := by rcases ha with rfl | rfl | rfl <;> decide
  exact (roundUp_isLeast ha.pos x).2 ⟨hdvd, Int.le_of_lt hx⟩

theorem Placement.Counts.place (hg : l.Counts limits g) (hc : limits.Countable)
    (hp : p.Counts limits e) (ht : f.type.Bounded limits.arrayLength.toInt)
    (h : l.place name p f = .ok p') : p'.Counts limits (e.push (f.type.footprint g)) := by
  obtain ⟨-, -, size, align, hsize, halign, hle, rfl⟩ := place_ok.mp h
  have haligns := alignment_aligns hg.aligns halign
  obtain ⟨hx, h0, h1⟩ := (hg.size hc ht).2 size hsize
  have hlimit := hc.typeSize
  have hup := toInt_alignUp haligns hp.nonneg hp.small
  have hge := CodeArea.le_roundUp haligns p.next.toInt
  have hround := roundUp_le haligns hp.small
  have hnonneg := hp.nonneg
  -- The end of the member is within the limit, so words add up as numbers do.
  have hend : (alignUp p.next align + size).toInt =
      roundUp p.next.toInt align.toInt + size.toInt := by
    rw [Int64.toInt_add, hup, word_eq (by omega) (by omega)]
  rw [Int64.le_iff_toInt_le, hend, hg.limits] at hle
  constructor
  · rw [hend, hp.next, hg.alignment halign, hx]
    rfl
  · rw [toInt_max, hp.align, hg.alignment halign]
    rfl
  · exact hp.aligns.max haligns
  · rw [hend]
    omega
  · rw [hend]
    omega

theorem Placement.Counts.places (hg : l.Counts limits g) (hc : limits.Countable)
    (hp : p.Counts limits e) (ht : ∀ f ∈ fields, f.type.Bounded limits.arrayLength.toInt)
    (h : fields.foldlM (l.place name) p = .ok p') :
    p'.Counts limits ((fields.map fun f => f.type.footprint g).foldl Footprint.push e) := by
  induction fields generalizing p e with
  | nil =>
    cases h
    exact hp
  | cons f fields ih =>
    obtain ⟨q, hq, h⟩ := except_bind_ok.mp h
    exact ih (hp.place hg hc (ht f List.mem_cons_self) hq)
      (fun f' hf' => ht f' (List.mem_cons_of_mem _ hf')) h

/-- A definition adds the number of its struct. -/
theorem Counts.define (hg : l.Counts limits g) (hc : limits.Countable)
    (ht : ∀ f ∈ fields, f.type.Bounded limits.arrayLength.toInt)
    (h : l.define name fields = .ok l') :
    l'.Counts limits (g.insert name (structFootprint g fields)) := by
  obtain ⟨d, hd, rfl⟩ := define_ok.mp h
  obtain ⟨p, hp, -, rfl⟩ := structOf_ok.mp hd
  have hstart : Placement.Counts limits {} ⟨0, 1⟩ :=
    ⟨rfl, rfl, .inl rfl, by decide, by decide⟩
  have hcounts := hstart.places hg hc ht hp
  have hup := toInt_alignUp hcounts.aligns hcounts.nonneg hcounts.small
  have hge := CodeArea.le_roundUp hcounts.aligns p.next.toInt
  have hnonneg := hcounts.nonneg
  refine ⟨hg.limits, ?_, hg.sizes.insert ?_, hg.aligns.insert hcounts.aligns⟩
  · intro other
    rw [Table.get?_insert, struct?_add]
    by_cases hname : name = other
    · rw [if_pos hname, if_pos hname, Option.map_some, StructDef.footprint, hup, hcounts.next,
        hcounts.align]
      rfl
    · rw [if_neg hname, if_neg hname]
      exact hg.structs other
  · rw [hup]
    omega

/-- The words of every layout that definitions reach stand for the numbers beside it. -/
theorem Gauged.counts (hg : Gauged limits l g) (hc : limits.Countable) : l.Counts limits g := by
  induction hg with
  | start => exact ⟨rfl, fun _ => rfl, .empty, .empty⟩
  | define _ ht hl ih => exact ih.define hc ht hl

/-! ## Sizes -/

/-- **Sizes do not wrap.** Under limits that a word can count, a type has a size exactly if it fits,
and its size is its number of bytes, a natural number within the limit. -/
theorem size_exact (hc : limits.Countable) (hg : Gauged limits l g)
    (ht : t.Bounded limits.arrayLength.toInt) :
    ((∃ n, l.size t = .ok n) ↔ t.FitsIn g limits.typeSize.toInt) ∧
      ∀ n, l.size t = .ok n → n.toInt = (t.footprint g).size ∧ 0 ≤ n.toInt ∧
        n.toInt ≤ limits.typeSize.toInt :=
  (hg.counts hc).size hc ht

/-- The numbers of the structs in `pairs`. -/
def pairNumbers : Table Footprint :=
  (∅ : Table Footprint).insert "pair" ⟨8, 4⟩

theorem size_exact_pairs :
    Limits.Countable {} ∧ Gauged {} pairs pairNumbers ∧
      (CType.array (.struct "pair") 31).Bounded 255 ∧
      (∃ n, pairs.size (.array (.struct "pair") 31) = .ok n ∧ n.toInt = 248) ∧
      ¬ ∃ n, pairs.size (.array (.struct "pair") 32) = .ok n := by
  have hc : Limits.Countable {} := ⟨by decide, by decide⟩
  have hdefine : Layout.define {} "pair" [⟨"tag", .char⟩, ⟨"value", .int⟩] = .ok pairs := rfl
  have hg : Gauged {} pairs pairNumbers := .define .start (by simp [CType.Bounded]) hdefine
  have ht (length : Int64) (h : 0 ≤ length.toInt ∧ length.toInt ≤ 255) :
      (CType.array (.struct "pair") length).Bounded (255 : Int64).toInt := ⟨trivial, h⟩
  obtain ⟨hfits, hexact⟩ := size_exact hc hg (ht 31 (by decide))
  obtain ⟨hfits', -⟩ := size_exact hc hg (ht 32 (by decide))
  obtain ⟨n, hn⟩ := hfits.mpr ⟨⟨⟨8, 4⟩, rfl, by decide⟩, by decide⟩
  refine ⟨hc, hg, ht 31 (by decide), ⟨n, hn, (hexact n hn).1.trans (by decide)⟩, ?_⟩
  intro h
  exact absurd (hfits'.mp h).2 (by decide)

/-- Limits that settings may have, with arrays of up to 2^62 elements. -/
def longArrays : Limits :=
  { arrayLength := 2 ^ 62 }

/-- **A size can wrap.** An array of 2^62 numbers of four bytes each is let pass and has the size
zero. -/
theorem size_wraps :
    Settings.validate { limits := longArrays } = .ok () ∧
      Gauged longArrays { limits := longArrays } ∅ ∧
      Layout.array { limits := longArrays } .int (2 ^ 62) = .ok (.array .int (2 ^ 62)) ∧
      Layout.size { limits := longArrays } (.array .int (2 ^ 62)) = .ok 0 ∧
      ((CType.array .int (2 ^ 62)).footprint ∅).size = 2 ^ 64 :=
  ⟨by decide +kernel, .start, by decide +kernel, by decide +kernel, by decide +kernel⟩

end Layout

end DirectC
