/-
# Alignments divide sizes

The alignment of a type divides its size, so that in an array at an aligned address every element is
aligned (`SharedLayout.alignment_dvd`). Nothing is asked of the limits and of array lengths. Sizes
are words and may wrap, but what is lost then is a multiple of 2^64, and so of every alignment.

Structs are defined by calls on a family of layouts over one table. A definition may fail, it may
take the place of another one whose size is in use, and limits may change between definitions.
-/
import DirectC.Proofs.StructLayout
import DirectC.SharedLayout

namespace DirectC

/-! ## Words -/

namespace Aligns

variable {a n k : Int64}

/-- Wrapping does not change what an alignment divides. -/
theorem dvd_bmod (ha : Aligns a) {x : Int} : a.toInt ∣ x.bmod (2 ^ 64) ↔ a.toInt ∣ x := by
  have hword : a.toInt ∣ ((2 ^ 64 : Nat) : Int) := by
    rcases ha with rfl | rfl | rfl <;> decide
  exact (Int.dvd_iff_dvd_of_dvd_sub (Int.dvd_trans hword Int.dvd_self_sub_bmod)).symm

/-- Sums of multiples are multiples, also when they wrap around: alignments divide 2^64. -/
theorem dvd_add (ha : Aligns a) (hn : a.toInt ∣ n.toInt) (hk : a.toInt ∣ k.toInt) :
    a.toInt ∣ (n + k).toInt := by
  rw [Int64.toInt_add, ha.dvd_bmod]
  exact Int.dvd_add hn hk

/-- Multiples of an alignment have multiples of it as products, also when they wrap around. -/
theorem dvd_mul_left (ha : Aligns a) (k : Int64) (hn : a.toInt ∣ n.toInt) :
    a.toInt ∣ (k * n).toInt := by
  rw [Int64.toInt_mul, ha.dvd_bmod]
  exact Int.dvd_mul_of_dvd_right hn

/-- Rounding up gives a multiple, even if it wraps. -/
theorem dvd_alignUp (ha : Aligns a) (n : Int64) : a.toInt ∣ (Layout.alignUp n a).toInt := by
  unfold Layout.alignUp
  split
  · next hle =>
    -- only the alignment of one byte asks for nothing
    have hle' : a.toInt ≤ 1 := Int64.le_iff_toInt_le.mp hle
    have ha1 : a.toInt = 1 := Int.le_antisymm hle' ha.pos
    rw [ha1]
    exact Int.one_dvd _
  · exact ha.dvd_mul_left _ (Int.dvd_refl _)

end Aligns

/-! ## Types over a table of structs -/

/-- The alignment of a struct divides its size, which was rounded up to it. -/
theorem Definable.dvd_size {structs : Table StructDef} (h : Definable structs) :
    structs.All fun _ d => d.align.toInt ∣ d.size.toInt := by
  induction h with
  | empty => exact .empty
  | define h hl ih =>
    obtain ⟨d, hd, rfl⟩ := Layout.define_ok.mp hl
    obtain ⟨p, hp, -, rfl⟩ := Layout.structOf_ok.mp hd
    exact ih.insert ((Layout.places_aligns h.aligns (.inl rfl) hp).dvd_alignUp p.next)

namespace Layout

variable {l : Layout} {t : CType} {n a : Int64}

/-- The alignment of a type divides its size. A product of words stays a multiple if it wraps. -/
theorem dvd_size (hl : Definable l.structs) (hn : l.size t = .ok n) (ha : l.alignment t = .ok a) :
    a.toInt ∣ n.toInt := by
  induction t generalizing n with
  | int | char | void | pointer elem =>
    obtain ⟨-, rfl⟩ := bounded_ok.mp hn
    cases ha
    decide
  | unknown => cases hn
  | struct name =>
    unfold Layout.size at hn
    unfold Layout.alignment at ha
    cases hd : l.struct? name with
    | none => simp [hd] at hn
    | some d =>
      rw [hd] at hn ha
      obtain ⟨-, rfl⟩ := bounded_ok.mp hn
      cases ha
      exact hl.dvd_size name d hd
  | array elem length ih =>
    obtain ⟨k, hk, hn⟩ := except_bind_ok.mp hn
    obtain ⟨-, rfl⟩ := bounded_ok.mp hn
    rw [Int64.mul_comm]
    exact (alignment_aligns hl.aligns ha).dvd_mul_left length (ih hk ha)

/-- An address that a value of a type may stand at. -/
def Aligned (l : Layout) (t : CType) (address : Int64) : Prop :=
  ∃ a, l.alignment t = .ok a ∧ a.toInt ∣ address.toInt

/-- **Elements are aligned** where their array is. An element that is reached by wrapping around is
aligned, too. -/
theorem Aligned.element (hl : Definable l.structs) (hn : l.size t = .ok n) {length base : Int64}
    (h : l.Aligned (.array t length) base) (index : Int64) : l.Aligned t (base + index * n) := by
  obtain ⟨a, ha, hbase⟩ := h
  have helem : l.alignment t = .ok a := ha
  have haligns := alignment_aligns hl.aligns helem
  exact ⟨a, helem, haligns.dvd_add hbase (haligns.dvd_mul_left index (dvd_size hl hn helem))⟩

end Layout

/-! ## Families of layouts -/

namespace SharedLayout

/-- What can be asked of the layout with number `i` that changes its family. -/
inductive Call where
  | define (i : Nat) (name : Bytes) (fields : List Field)
  | setLimits (i : Nat) (limits : Limits)
  | derive (i : Nat) (limits : Limits)

/-- The family after a call. A definition that fails leaves it as it is. -/
def call (s : SharedLayout) : Call → SharedLayout
  | .define i name fields =>
    match s.layout? i with
    | none => s
    | some l =>
      match l.structOf name fields with
      | .ok d => s.add i d
      | .error _ => s
  | .setLimits i limits => s.setLimits i limits
  | .derive i limits => (s.derive i limits).2

/-- The family after calls one after the other, from a layout without structs on. -/
def run (limits : Limits) (calls : List Call) (grow : Nat → Nat := Page.twice) : SharedLayout :=
  calls.foldl call (start limits grow)

variable {s : SharedLayout} {i : Nat} {l : Layout} {limits : Limits} {grow : Nat → Nat}

/-- All layouts of a family share their structs. -/
theorem structs_layout? (hl : s.layout? i = some l) : l.structs = s.structs := by
  obtain ⟨v, -, rfl⟩ := Option.map_eq_some_iff.mp hl
  rfl

/-- A struct that is added to one layout of a family is added to all. -/
theorem structs_add (hl : s.layout? i = some l) (d : StructDef) :
    (s.add i d).structs = (l.add d).structs := by
  have hstructs := structs_layout? hl
  obtain ⟨v, hv, -⟩ := Option.map_eq_some_iff.mp hl
  rw [add, hv, Layout.add, hstructs]

/-- A definition does to the table of a family what it does to that of a layout. -/
theorem structs_define (hl : s.layout? i = some l) (name : Bytes) (fields : List Field) :
    (s.call (.define i name fields)).structs = (l.attempt name fields).structs := by
  rw [call, hl]
  dsimp only
  cases hd : l.structOf name fields with
  | error fault =>
    rw [Layout.attempt_of_fault hd]
    exact (structs_layout? hl).symm
  | ok d =>
    rw [Layout.attempt_of_structOf hd]
    exact structs_add hl d

/-- A call leaves the structs as definitions can build them. -/
theorem definable_call (h : Definable s.structs) (c : Call) : Definable (s.call c).structs := by
  cases c with
  | setLimits i limits => exact h
  | derive i limits => exact h
  | define i name fields =>
    cases hl : s.layout? i with
    | none =>
      rw [call, hl]
      exact h
    | some l =>
      rw [structs_define hl]
      exact Layout.definable_attempt (structs_layout? hl ▸ h)

/-- Any number of calls leaves structs that definitions can build. -/
theorem definable_calls (h : Definable s.structs) (calls : List Call) :
    Definable (calls.foldl call s).structs := by
  induction calls generalizing s with
  | nil => exact h
  | cons c calls ih => exact ih (definable_call h c)

/-- All layouts of a family see a table that definitions make. -/
theorem definable_run {calls : List Call} (hl : (run limits calls grow).layout? i = some l) :
    Definable l.structs := by
  rw [structs_layout? hl]
  exact definable_calls .empty calls

/-- **Alignments divide sizes.** Whatever was defined, a type that has a size has an alignment of
one, four or eight bytes that divides it, and every element of an aligned array is aligned. -/
theorem alignment_dvd {calls : List Call} (hl : (run limits calls grow).layout? i = some l)
    {t : CType} {n : Int64} (hn : l.size t = .ok n) :
    (∃ a, l.alignment t = .ok a ∧ (a = 1 ∨ a = 4 ∨ a = 8) ∧ a.toInt ∣ n.toInt) ∧
      ∀ length base index : Int64, l.Aligned (.array t length) base →
        l.Aligned t (base + index * n) := by
  have hdefinable := definable_run hl
  obtain ⟨a, ha⟩ := Layout.alignment_of_size hn
  refine ⟨⟨a, ha, Layout.alignment_aligns hdefinable.aligns ha,
    Layout.dvd_size hdefinable hn ha⟩, ?_⟩
  intro length base index hbase
  exact hbase.element hdefinable hn index

/-! ## The newest layout of a family -/

/-- The number of the layout that was made last. -/
def newest (s : SharedLayout) : Nat :=
  s.views.length - 1

/-- The newest layout of a family is `l`, which it sees through `v`, and no other layout has recorded
a name behind those that it reads. -/
structure Leads (s : SharedLayout) (v : LayoutView) (l : Layout) : Prop where
  seen : s.views[s.newest]? = some v
  paged : v.page < s.pages.length
  limits : v.limits = l.limits
  structs : s.structs = l.structs
  names : (s.page v.page).names = l.order
  count : v.count = l.order.length

variable {v : LayoutView}

theorem Leads.layout? (h : s.Leads v l) : s.layout? s.newest = some l := by
  rw [SharedLayout.layout?, h.seen, Option.map_some, h.limits, h.structs, order, h.names, h.count,
    List.take_length]

theorem Leads.start (limits : Limits) (grow : Nat → Nat) :
    (start limits grow).Leads { limits } { limits } :=
  ⟨rfl, Nat.one_pos, rfl, rfl, rfl, rfl⟩

/-- A layout made from the newest one takes its place. -/
theorem Leads.derive (h : s.Leads v l) (limits : Limits) :
    (s.derive s.newest limits).2.Leads { v with limits } (l.withLimits limits) := by
  refine ⟨?_, h.paged, rfl, h.structs, h.names, h.count⟩
  simp [SharedLayout.derive, newest, show s.views[s.views.length - 1]? = some v from h.seen]

/-- The newest layout records a name behind its others, on its page or on a larger one. -/
theorem Leads.record (h : s.Leads v l) (name : Bytes) :
    ∃ v', (s.record s.newest v name).Leads v' { l with order := l.order ++ [name] } := by
  have hlt : s.newest < s.views.length := (List.getElem?_eq_some_iff.mp h.seen).1
  have hseen (w : LayoutView) :
      (s.views.set s.newest w)[(s.views.set s.newest w).length - 1]? = some w := by
    rw [List.length_set]
    exact List.getElem?_set_self hlt
  have hcount : v.count + 1 = (l.order ++ [name]).length := by rw [h.count]; simp
  have hput {names : List Bytes} {room : Nat} (hnames : names = l.order) :
      (Page.put ⟨names, room⟩ v.count name).names = l.order ++ [name] := by
    subst hnames
    rw [h.count, Page.put]
    simp
  unfold SharedLayout.record
  dsimp only
  -- A name is written into the page if there is room for it, and else to a new one.
  split
  · refine ⟨{ v with count := v.count + 1 }, ?_, ?_, h.limits, h.structs, ?_, hcount⟩
    · exact hseen _
    · rw [List.length_set]
      exact h.paged
    · rw [SharedLayout.page, List.getElem?_set_self h.paged]
      exact hput h.names
  · refine ⟨{ v with page := s.pages.length, count := v.count + 1 }, ?_, ?_, h.limits, h.structs, ?_,
      hcount⟩
    · exact hseen _
    · simp
    · rw [SharedLayout.page, List.getElem?_concat_length]
      exact hput (by rw [h.names, h.count, List.take_length])

/-- A definition through the newest layout does to it what it does to a layout of its own. -/
theorem Leads.add (h : s.Leads v l) (d : StructDef) : ∃ v', (s.add s.newest d).Leads v' (l.add d) := by
  unfold SharedLayout.add Layout.add
  rw [h.seen, h.structs]
  dsimp only
  split
  · exact ⟨v, h.seen, h.paged, h.limits, rfl, h.names, h.count⟩
  · obtain ⟨v', hv⟩ := h.record d.name
    exact ⟨v', hv.seen, hv.paged, hv.limits, rfl, hv.names, hv.count⟩

/-- Behind a definition in the newest layout, its outcome is the newest one. -/
theorem Leads.define (h : s.Leads v l) (name : Bytes) (fields : List Field) :
    ∃ v', (s.call (.define s.newest name fields)).Leads v' (l.attempt name fields) := by
  rw [call, h.layout?]
  dsimp only
  cases hd : l.structOf name fields with
  | error fault =>
    rw [Layout.attempt_of_fault hd]
    exact ⟨v, h⟩
  | ok d =>
    rw [Layout.attempt_of_structOf hd]
    exact h.add d

theorem run_append (limits : Limits) (calls more : List Call) (grow : Nat → Nat) :
    run limits (calls ++ more) grow = more.foldl call (run limits calls grow) :=
  List.foldl_append

/-- Calls with a definition that fails, and one that takes the place of another. The struct `row`
keeps the size that it got from the first `pair`. -/
def remade : List Call :=
  [.define 0 "pair" [⟨"tag", .char⟩, ⟨"value", .int⟩],
    .derive 0 { typeSize := 1000 },
    .define 0 "pair" [⟨"value", .pointer .void⟩, ⟨"rest", .void⟩],
    .define 1 "row" [⟨"tag", .char⟩, ⟨"pairs", .array (.struct "pair") 3⟩],
    .define 0 "pair" [⟨"value", .pointer .void⟩, ⟨"tag", .char⟩],
    .define 1 "table" [⟨"rows", .array (.struct "row") 3⟩, ⟨"last", .struct "pair"⟩]]

/-- The layout with the wider limits. -/
def wider : Layout :=
  ((run {} remade).layout? 1).getD {}

/-- More than 2^62 tables. Their size wraps. -/
def tables : CType :=
  .array (.struct "table") 4611686018427387909

theorem alignment_dvd_remade :
    (run {} remade).layout? 1 = some wider ∧ wider.size tables = .ok 520 ∧
      wider.alignment tables = .ok 8 ∧ (8 : Int) ∣ 520 ∧ wider.Aligned tables (4096 + 3 * 520) := by
  have hl : (run {} remade).layout? 1 = some wider := rfl
  have hn : wider.size tables = .ok 520 := by decide +kernel
  have ha : wider.alignment tables = .ok 8 := by decide +kernel
  obtain ⟨⟨a, ha', -, hdvd⟩, helement⟩ := alignment_dvd hl hn
  obtain rfl : 8 = a := Except.ok.inj (ha.symm.trans ha')
  exact ⟨hl, hn, ha, hdvd, helement 10 4096 3 ⟨8, ha, by decide⟩⟩

end SharedLayout

/-- **Layouts that definitions reach are newest layouts of families**: making a layout with other
limits and going on with that one is what `Layout.withLimits` stands for. -/
theorem Layout.Reachable.shared {l : Layout} (h : l.Reachable) (grow : Nat → Nat) :
    ∃ limits calls, (SharedLayout.run limits calls grow).layout?
      (SharedLayout.run limits calls grow).newest = some l := by
  have hleads : ∃ limits calls v, (SharedLayout.run limits calls grow).Leads v l := by
    induction h with
    | @start limits hs ha => exact ⟨limits, [], { limits }, .start limits grow⟩
    | @define l name fields hl ht ih =>
      obtain ⟨limits, calls, v, hv⟩ := ih
      obtain ⟨v', hv'⟩ := hv.define name fields
      exact ⟨limits, calls ++ [.define _ name fields], v', by rw [SharedLayout.run_append]; exact hv'⟩
    | @withLimits l wider hl hs ha ih =>
      obtain ⟨limits, calls, v, hv⟩ := ih
      exact ⟨limits, calls ++ [.derive _ wider], _, by rw [SharedLayout.run_append]; exact hv.derive wider⟩
  obtain ⟨limits, calls, v, hv⟩ := hleads
  exact ⟨limits, calls, hv.layout?⟩

end DirectC
