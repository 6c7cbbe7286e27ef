/-
# Laws of layouts

When limits keep below 2^31 no size wraps: `alignUp` rounds to the least multiple that is not
below, sizes are natural numbers within the size limit, and a struct gets a size of the same sort
when it is defined. Alignments are one, four or eight bytes whatever the limits are.
-/
import DirectC.Frame
import DirectC.Proofs.Basic
import DirectC.Proofs.Table
import DirectC.Proofs.Typed

namespace DirectC

/-! ## Rounding -/

/-- The alignments that a type can have. -/
def Aligns (a : Int64) : Prop :=
  a = 1 ∨ a = 4 ∨ a = 8

/-- The wider of two alignments is one. -/
theorem Aligns.max {a b : Int64} (ha : Aligns a) (hb : Aligns b) : Aligns (max a b) := by
  rcases ha with rfl | rfl | rfl <;> rcases hb with rfl | rfl | rfl <;> unfold Aligns <;> decide

theorem Aligns.pos {a : Int64} (ha : Aligns a) : 0 < a.toInt := by
  rcases ha with rfl | rfl | rfl <;> decide

/-- No alignment is wider than a word. -/
theorem Aligns.le {a : Int64} (ha : Aligns a) : a.toInt ≤ 8 := by
  rcases ha with rfl | rfl | rfl <;> decide

namespace Layout

/-- Rounding up words is rounding up, if nothing wraps. -/
theorem alignUp_eq {n a : Int64} (ha : 0 < a.toInt) (ha' : a.toInt < 2 ^ 62) (h0 : 0 ≤ n.toInt)
    (h1 : n.toInt < 2 ^ 62) :
    (alignUp n a).toInt = (n.toInt + a.toInt - 1) / a.toInt * a.toInt := by
  have hone : (1 : Int64).toInt = 1 := rfl
  by_cases hle : a ≤ 1
  · have ha1 : a.toInt = 1 := by
      rw [Int64.le_iff_toInt_le, hone] at hle
      omega
    rw [alignUp, if_pos hle, ha1]
    omega
  · have hq0 := Int.ediv_nonneg (a := n.toInt + a.toInt - 1) (b := a.toInt) (by omega) (by omega)
    have hq1 := Int.ediv_le_self (a := n.toInt + a.toInt - 1) a.toInt (by omega)
    have hm0 := Int.mul_nonneg hq0 (Int.le_of_lt ha)
    have hm1 := Int.ediv_mul_le (n.toInt + a.toInt - 1) (Int.ne_of_gt ha)
    rw [alignUp, if_neg hle, Int64.toInt_mul, Int64.toInt_div, Int64.toInt_sub, Int64.toInt_add,
      hone, word_eq (x := n.toInt + a.toInt) (by omega) (by omega),
      word_eq (x := n.toInt + a.toInt - 1) (by omega) (by omega),
      Int.tdiv_eq_ediv_of_nonneg (by omega),
      word_eq (x := (n.toInt + a.toInt - 1) / a.toInt) (by omega) (by omega),
      word_eq (by omega) (by omega)]

/-- **Rounding up** gives the least multiple that is not below, if nothing wraps. -/
theorem alignUp_spec {n a : Int64} (ha : Aligns a) (h0 : 0 ≤ n.toInt) (h1 : n.toInt < 2 ^ 62) :
    n.toInt ≤ (alignUp n a).toInt ∧ (alignUp n a).toInt < n.toInt + a.toInt ∧
      a.toInt ∣ (alignUp n a).toInt := by
  have hle := ha.le
  have hmod := Int.emod_nonneg (n.toInt + a.toInt - 1) (Int.ne_of_gt ha.pos)
  have hlt := Int.emod_lt_of_pos (n.toInt + a.toInt - 1) ha.pos
  have hdiv := Int.ediv_mul_add_emod (n.toInt + a.toInt - 1) a.toInt
  rw [alignUp_eq ha.pos (by omega) h0 h1]
  exact ⟨by omega, by omega, Int.dvd_mul_left ..⟩

end Layout

/-! ## Formed layouts -/

/-- A type whose arrays have lengths between zero and `B`. What is behind a pointer does not bear
on its size. -/
def CType.Bounded (B : Int) : CType → Prop
  | .array elem length => elem.Bounded B ∧ 0 ≤ length.toInt ∧ length.toInt ≤ B
  | _ => True

/-- Formed types have bounded lengths. -/
theorem CType.Formed.bounded {B : Int} {t : CType} (h : t.Formed B) : t.Bounded B := by
  induction t with
  | array elem length ih => exact ⟨ih h.1, h.2⟩
  | _ => exact trivial

/-- A struct as a definition makes it: its members have formed types, its alignment is one of the
three, and its size has not wrapped if sizes are small. -/
structure StructDef.Formed (B : Int) (d : StructDef) : Prop where
  members : ∀ m ∈ d.members, m.type.Formed B ∧ m.type.isVoid = false
  align : Aligns d.align
  size : B < 2 ^ 31 → 0 ≤ d.size.toInt

/-- A layout whose limits are at most `B` and whose structs are formed. -/
structure Layout.Formed (B : Int) (l : Layout) : Prop where
  arrayLength : l.limits.arrayLength.toInt ≤ B
  typeSize : l.limits.typeSize.toInt ≤ B
  structs : l.structs.All fun _ d => d.Formed B

namespace Layout

variable {B : Int} {l l' : Layout} {t : CType} {n a : Int64} {name : Bytes}

/-- A size passes if it is within the limit, and is not changed. -/
theorem bounded_ok {size : Int64} :
    l.bounded t size = .ok n ↔ size.toInt ≤ l.limits.typeSize.toInt ∧ size = n := by
  unfold bounded
  split <;> rename_i h <;> rw [Int64.lt_iff_toInt_lt] at h
  · simp only [false_iff, reduceCtorEq]
    omega
  · simp only [Except.ok.injEq, iff_and_self]
    omega

/-- A formed type lacks a size because it is too large or a struct is not defined. -/
theorem size_error {fault : Fault} (ht : t.Formed B) (h : l.size t = .error fault) :
    (∃ type size limit, fault = .typeSize type size limit) ∨ ∃ name, fault = .undefinedStruct name := by
  have hbounded : ∀ {type size}, l.bounded type size = .error fault →
      ∃ type size limit, fault = .typeSize type size limit := by
    intro type size h
    unfold bounded at h
    split at h <;> cases h
    exact ⟨_, _, _, rfl⟩
  induction t with
  | int | char | void | pointer => exact .inl (hbounded h)
  | struct name =>
    unfold Layout.size at h
    split at h
    · exact .inl (hbounded h)
    · cases h
      exact .inr ⟨name, rfl⟩
  | array elem length ih =>
    rcases except_bind_error.mp h with h | ⟨_, _, h⟩
    · exact ih ht.1 h
    · exact .inl (hbounded h)
  | unknown => cases ht

/-- A formed type lacks an alignment because a struct is not defined. -/
theorem alignment_error {fault : Fault} (ht : t.Formed B) (h : l.alignment t = .error fault) :
    ∃ name, fault = .undefinedStruct name := by
  induction t with
  | int | char | void | pointer => cases h
  | struct name =>
    unfold Layout.alignment at h
    split at h
    · cases h
    · cases h
      exact ⟨name, rfl⟩
  | array elem length ih => exact ih ht.1 h
  | unknown => cases ht

/-- The size of a type is a natural number within the limit, if the sizes of structs are natural
numbers, and sizes and array lengths are small. -/
theorem size_bounds (hs : l.structs.All fun _ d => 0 ≤ d.size.toInt) (hB : B < 2 ^ 31)
    (hts : l.limits.typeSize.toInt < 2 ^ 31) (ht : t.Bounded B) (h : l.size t = .ok n) :
    0 ≤ n.toInt ∧ n.toInt ≤ l.limits.typeSize.toInt := by
  induction t generalizing n with
  | int | char | void | pointer =>
    obtain ⟨hle, rfl⟩ := bounded_ok.mp h
    exact ⟨by decide, hle⟩
  | struct name =>
    unfold Layout.size at h
    cases hd : l.struct? name with
    | none => simp [hd] at h
    | some d =>
      rw [hd] at h
      obtain ⟨hle, rfl⟩ := bounded_ok.mp h
      exact ⟨hs name d hd, hle⟩
  | array elem length ih =>
    obtain ⟨hte, h0, h1⟩ := ht
    obtain ⟨m, hm, h⟩ := except_bind_ok.mp h
    obtain ⟨hle, rfl⟩ := bounded_ok.mp h
    obtain ⟨hm0, hm1⟩ := ih hte hm
    have hnn := Int.mul_nonneg hm0 h0
    -- Both factors are below 2^31, so the product of words is that of numbers.
    have hlt : m.toInt * length.toInt ≤ 2 ^ 31 * 2 ^ 31 :=
      Int.mul_le_mul (by omega) (by omega) h0 (by omega)
    refine ⟨?_, hle⟩
    rw [Int64.toInt_mul, word_eq (by omega) (by omega)]
    exact hnn
  | unknown => cases h

/-- Sizes of formed types are within the limit. -/
theorem Formed.size (hl : l.Formed B) (hB : B < 2 ^ 31) (ht : t.Formed B) (h : l.size t = .ok n) :
    0 ≤ n.toInt ∧ n.toInt ≤ l.limits.typeSize.toInt :=
  size_bounds (fun name d hd => (hl.structs name d hd).size hB) hB
    (Int.lt_of_le_of_lt hl.typeSize hB) ht.bounded h

/-- The alignment of a type is one of the three, if those of structs are. -/
theorem alignment_aligns (hs : l.structs.All fun _ d => Aligns d.align)
    (h : l.alignment t = .ok a) : Aligns a := by
  induction t with
  | int | char | void | pointer =>
    cases h
    simp [Aligns]
  | struct name =>
    unfold Layout.alignment at h
    cases hd : l.struct? name with
    | none => simp [hd] at h
    | some d =>
      rw [hd] at h
      cases h
      exact hs name d hd
  | array elem length ih => exact ih h
  | unknown => cases h

/-- Alignments are those of machines. -/
theorem Formed.alignment (hl : l.Formed B) (h : l.alignment t = .ok a) : Aligns a :=
  alignment_aligns (fun name d hd => (hl.structs name d hd).align) h

/-- A type with a size has an alignment. -/
theorem alignment_of_size (h : l.size t = .ok n) : ∃ a, l.alignment t = .ok a := by
  induction t generalizing n with
  | int | char | void | pointer elem => exact ⟨_, rfl⟩
  | unknown => cases h
  | array elem length ih =>
    obtain ⟨k, hk, -⟩ := except_bind_ok.mp h
    exact ih hk
  | struct name =>
    unfold Layout.size at h
    unfold Layout.alignment
    cases hd : l.struct? name with
    | none => simp [hd] at h
    | some d => exact ⟨d.align, rfl⟩

/-- Arrays that are allowed have lengths within the limit. -/
theorem array_formed {length : Int64} (hl : l.limits.arrayLength.toInt ≤ B) (ht : t.Formed B)
    {t' : CType} (h : l.array t length = .ok t') : t' = .array t length ∧ t'.Formed B := by
  unfold Layout.array at h
  split at h
  · cases h
  · rename_i hlen
    cases h
    simp only [Bool.or_eq_true, decide_eq_true_eq, Int64.lt_iff_toInt_lt, Int64.toInt_zero,
      not_or] at hlen
    exact ⟨rfl, ht, by omega, by omega⟩

/-- An array of a formed type is formed. -/
theorem Formed.array {length : Int64} (hl : l.Formed B) (ht : t.Formed B) {t' : CType}
    (h : l.array t length = .ok t') : t' = .array t length ∧ t'.Formed B :=
  array_formed hl.arrayLength ht h

/-! ## Defining structs -/

/-- A field is placed if its name is new, it has a size and the struct stays small enough. -/
theorem place_ok {p p' : Placement} {f : Field} :
    l.place name p f = .ok p' ↔
      (p.members.any fun m => m.name == f.name) = false ∧ f.type.isVoid = false ∧
        ∃ size align, l.size f.type = .ok size ∧ l.alignment f.type = .ok align ∧
          alignUp p.next align + size ≤ l.limits.typeSize ∧
          p' = ⟨p.members ++ [⟨f.name, f.type, alignUp p.next align⟩],
            alignUp p.next align + size, max p.align align⟩ := by
  unfold place
  cases p.members.any fun m => m.name == f.name with
  | true => simp [throw, throwThe, MonadExceptOf.throw, bind, Except.bind]
  | false =>
    cases f.type.isVoid with
    | true => simp [throw, throwThe, MonadExceptOf.throw, bind, Except.bind]
    | false =>
      cases l.size f.type with
      | error e => simp [bind, Except.bind]
      | ok size =>
        cases l.alignment f.type with
        | error e => simp [bind, Except.bind]
        | ok align =>
          by_cases hlt : l.limits.typeSize < alignUp p.next align + size
          · have hle : ¬ alignUp p.next align + size ≤ l.limits.typeSize := Int64.not_le.mpr hlt
            simp [hlt, hle, throw, throwThe, MonadExceptOf.throw, bind, Except.bind]
          · have hle : alignUp p.next align + size ≤ l.limits.typeSize := Int64.not_lt.mp hlt
            simp [hlt, hle, bind, Except.bind, pure, Except.pure, eq_comm]

/-- A struct with some of its members placed, all of them formed. -/
structure Placement.Formed (B : Int) (l : Layout) (p : Placement) : Prop where
  members : ∀ m ∈ p.members, m.type.Formed B ∧ m.type.isVoid = false
  align : Aligns p.align
  next : B < 2 ^ 31 → 0 ≤ p.next.toInt ∧ p.next.toInt < 2 ^ 31

/-- One more member is of a formed type, and it ends below 2^31. -/
theorem Placement.Formed.place {p p' : Placement} {f : Field} (hl : l.Formed B)
    (hp : p.Formed B l) (hf : f.type.Formed B) (h : l.place name p f = .ok p') :
    p'.Formed B l := by
  obtain ⟨-, hv, size, align, hsize, halign, hnext, rfl⟩ := place_ok.mp h
  have ha := hl.alignment halign
  refine ⟨?_, hp.align.max ha, fun hB => ?_⟩
  · intro m hm
    rcases List.mem_append.mp hm with hm | hm
    · exact hp.members m hm
    · rw [List.mem_singleton.mp hm]
      exact ⟨hf, hv⟩
  · obtain ⟨hs0, hs1⟩ := hl.size hB hf hsize
    obtain ⟨hn0, hn1⟩ := hp.next hB
    obtain ⟨h0, h1, _⟩ := alignUp_spec ha hn0 (by omega)
    have hts := hl.typeSize
    -- The end of the new member does not wrap before it is compared with the limit.
    rw [Int64.le_iff_toInt_le] at hnext
    have ha8 : align.toInt ≤ 8 := by
      rcases ha with rfl | rfl | rfl <;> decide
    have hadd : (alignUp p.next align + size).toInt =
        (alignUp p.next align).toInt + size.toInt := by
      rw [Int64.toInt_add, word_eq (by omega) (by omega)]
    rw [hadd] at hnext
    dsimp only
    rw [hadd]
    omega

/-- Members of formed types leave a formed placement. -/
theorem Placement.Formed.places {fields : List Field} {p p' : Placement} (hl : l.Formed B)
    (hp : p.Formed B l) (hf : ∀ f ∈ fields, f.type.Formed B)
    (h : fields.foldlM (l.place name) p = .ok p') : p'.Formed B l := by
  induction fields generalizing p with
  | nil =>
    cases h
    exact hp
  | cons f fields ih =>
    obtain ⟨q, hq, h⟩ := except_bind_ok.mp h
    exact ih (hp.place hl (hf f (by simp)) hq) (fun g hg => hf g (by simp [hg])) h

/-- **What a definition does**: it stores the struct, or leaves the layout as it is. -/
theorem enter_eq (l : Layout) (name : Bytes) (fields : List Field) :
    enter name fields l =
      match l.structOf name fields with
      | .ok d => .ok d (l.add d)
      | .error fault => .error fault l := by
  change (ofExcept (l.structOf name fields) >>= _ : EStateM Fault Layout StructDef) l = _
  cases l.structOf name fields <;> rfl

/-- A definition succeeds if its struct can be laid out, and adds it. -/
theorem define_ok {fields : List Field} : l.define name fields = .ok l' ↔
    ∃ d, l.structOf name fields = .ok d ∧ l' = l.add d := by
  rw [define, enter_eq]
  cases l.structOf name fields <;> simp [eq_comm]

/-- A definition fails as the layout of its struct does. -/
theorem define_error {fields : List Field} {fault : Fault} :
    l.define name fields = .error fault ↔ l.structOf name fields = .error fault := by
  rw [define, enter_eq]
  cases l.structOf name fields <;> simp

/-- A definition of formed fields keeps a layout formed. -/
theorem Formed.define {fields : List Field} (hl : l.Formed B) (hf : ∀ f ∈ fields, f.type.Formed B)
    (h : l.define name fields = .ok l') : l'.Formed B := by
  obtain ⟨d, hd, rfl⟩ := define_ok.mp h
  obtain ⟨p, hp, hd⟩ := except_bind_ok.mp hd
  have hpl : p.Formed B l :=
    .places hl ⟨by simp, .inl rfl, fun _ => by decide⟩ hf hp
  refine ⟨hl.arrayLength, hl.typeSize, hl.structs.insert ?_⟩
  simp only at hd
  split at hd
  · cases hd
  · cases hd
    refine ⟨hpl.members, hpl.align, fun hB => ?_⟩
    obtain ⟨h0, h1⟩ := hpl.next hB
    obtain ⟨hle, _⟩ := alignUp_spec hpl.align h0 (by omega)
    exact Int.le_trans h0 hle

/-! ## Faults of formed types -/

/-- A fault that says something about the types asked for, and not that one of them is missing. -/
abbrev Fault.Sensible (fault : Fault) : Prop :=
  fault.kind ≠ .internal

/-- A formed type without a size has a sensible reason for it. -/
theorem size_sensible {fault : Fault} (ht : t.Formed B) (h : l.size t = .error fault) :
    fault.Sensible := by
  rcases size_error ht h with ⟨_, _, _, rfl⟩ | ⟨_, rfl⟩ <;> exact fun h => by cases h

/-- A formed type without an alignment has a sensible reason for it. -/
theorem alignment_sensible {fault : Fault} (ht : t.Formed B) (h : l.alignment t = .error fault) :
    fault.Sensible := by
  obtain ⟨_, rfl⟩ := alignment_error ht h
  exact fun h => by cases h

/-- An array is refused for its length. -/
theorem array_sensible {fault : Fault} {length : Int64} (h : l.array t length = .error fault) :
    fault.Sensible := by
  unfold Layout.array at h
  split at h <;> cases h
  exact fun h => by cases h

/-- A field is refused for its name, its type or the size. -/
theorem place_sensible {fault : Fault} {p : Placement} {f : Field} (hf : f.type.Formed B)
    (h : l.place name p f = .error fault) : fault.Sensible := by
  unfold Layout.place at h
  cases hm : p.members.any fun m => m.name == f.name with
  | true =>
    rw [hm] at h
    cases h
    exact fun h => by cases h
  | false =>
    cases hv : f.type.isVoid with
    | true =>
      simp only [hm, hv, Bool.false_eq_true, if_false, if_true] at h
      cases h
      exact fun h => by cases h
    | false =>
      simp only [hm, hv, Bool.false_eq_true, if_false] at h
      rcases except_bind_error.mp h with h | ⟨_, _, h⟩
      · exact size_sensible hf h
      rcases except_bind_error.mp h with h | ⟨_, _, h⟩
      · exact alignment_sensible hf h
      split at h <;> cases h
      exact fun h => by cases h

/-- Fields are refused for the sensible reasons of one of them. -/
theorem places_sensible {fault : Fault} {fields : List Field} {p : Placement}
    (hf : ∀ f ∈ fields, f.type.Formed B) (h : fields.foldlM (l.place name) p = .error fault) :
    fault.Sensible := by
  induction fields generalizing p with
  | nil => cases h
  | cons f fields ih =>
    rcases except_bind_error.mp h with h | ⟨_, _, h⟩
    · exact place_sensible (hf f (by simp)) h
    · exact ih (fun g hg => hf g (by simp [hg])) h

/-- **A definition of a struct of formed types is refused for a sensible reason.** -/
theorem define_sensible {fault : Fault} {fields : List Field} (hf : ∀ f ∈ fields, f.type.Formed B)
    (h : l.define name fields = .error fault) : fault.Sensible := by
  rcases except_bind_error.mp (define_error.mp h) with h | ⟨_, _, h⟩
  · exact places_sensible hf h
  · simp only at h
    split at h <;> cases h
    exact fun h => by cases h

end Layout

/-! ## Slots -/

/-- **What asking for a slot does.** A variable that has a slot keeps it; another one gets its slot
below those that are there, unless its type has no size or alignment, and then nothing changes. -/
theorem Frame.assign_eq (f : Frame) (l : Layout) (id : Int) (type : CType) :
    assign l id type f =
      match f.offset? id, l.size type, l.alignment type with
      | some offset, _, _ => .ok offset f
      | none, .ok size, .ok align =>
        let used := Layout.alignUp (f.used + max size minSlot) align
        .ok (-used).toInt32 ⟨f.slots ++ [(id, (-used).toInt32)], used⟩
      | none, .error fault, _ => .error fault f
      | none, .ok _, .error fault => .error fault f := by
  change Option.elim (f.offset? id) (allot l id type) pure f = _
  unfold allot
  cases f.offset? id with
  | some offset => rfl
  | none =>
    cases l.size type with
    | error fault => rfl
    | ok size => cases l.alignment type <;> rfl

/-- A variable has its slot, or gets the next one below those in use. -/
theorem Frame.slot_ok {f g : Frame} {l : Layout} {id : Int} {type : CType} {offset : Int32} :
    f.slot l id type = .ok (offset, g) ↔
      (f.offset? id = some offset ∧ g = f) ∨
      (f.offset? id = none ∧ ∃ size align, l.size type = .ok size ∧ l.alignment type = .ok align ∧
        offset = (-Layout.alignUp (f.used + max size minSlot) align).toInt32 ∧
        g = ⟨f.slots ++ [(id, offset)], Layout.alignUp (f.used + max size minSlot) align⟩) := by
  rw [slot, assign_eq]
  cases f.offset? id with
  | some offset' => simp [eq_comm]
  | none =>
    cases l.size type with
    | error fault => simp
    | ok size =>
      cases l.alignment type with
      | error fault => simp
      | ok align =>
        constructor
        · rintro ⟨⟩
          exact .inr ⟨rfl, size, align, rfl, rfl, rfl, rfl⟩
        · rintro (⟨⟨⟩, -⟩ | ⟨-, _, _, ⟨⟩, ⟨⟩, rfl, rfl⟩)
          rfl

/-- The fixed part of a frame is a multiple of sixteen bytes, even if its size wraps. -/
theorem Frame.size_aligned (f : Frame) : (16 : Int) ∣ f.size.toInt := by
  have h : Layout.alignUp f.used 16 = (f.used + 16 - 1) / 16 * 16 := by
    simp [Layout.alignUp]
  have h16 : (16 : Int64).toInt = 16 := rfl
  rw [Frame.size, h, Int64.toInt_toInt32, Int64.toInt_mul, h16]
  simp only [Int.bmod_def]
  omega

/-! ## The structs in a type -/

/-- The structs that a type holds by value. -/
def CType.structs : CType → List Bytes
  | .struct name => [name]
  | .array elem _ => elem.structs
  | _ => []

namespace Layout

variable {l l' : Layout} {type : CType}

/-- The structs that a type holds are defined. -/
def Knows (l : Layout) (type : CType) : Prop :=
  ∀ n ∈ type.structs, ∃ d, l.struct? n = some d

/-- Size and alignment of a type depend on the structs that it holds. -/
theorem size_alignment_congr (hl : l'.limits = l.limits)
    (hs : ∀ n ∈ type.structs, l'.struct? n = l.struct? n) :
    l'.size type = l.size type ∧ l'.alignment type = l.alignment type := by
  have hb : ∀ type size, l'.bounded type size = l.bounded type size := fun _ _ => by
    simp only [bounded, hl]
  induction type with
  | struct name => simp only [size, alignment, hs name (by simp [CType.structs]), hb, and_self]
  | array elem length ih =>
    obtain ⟨hz, ha⟩ := ih hs
    simp only [size, alignment, hz, ha, hb, and_self]
  | int | char | void | unknown => simp only [size, alignment, hb, and_self]
  | pointer elem => simp only [size, alignment, hb, and_self]

/-- What has a size is known. -/
theorem knows_of_size {n : Int64} (h : l.size type = .ok n) : l.Knows type := by
  induction type generalizing n with
  | struct name =>
    intro m hm
    obtain rfl := List.mem_singleton.mp hm
    unfold size at h
    cases hd : l.struct? m with
    | none => simp [hd] at h
    | some d => exact ⟨d, rfl⟩
  | array elem length ih =>
    obtain ⟨k, hk, -⟩ := except_bind_ok.mp h
    exact ih hk
  | int | char | void | unknown | pointer elem => simp [Knows, CType.structs]

end Layout

end DirectC
