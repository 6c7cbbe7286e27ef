/-
# Room for variables

Where global variables lie in their room. `roomEnd` counts the room in numbers that do not wrap;
as long as it stays small, the words of `CodeArea.globalStarts` are those numbers, every variable
starts at a multiple of its alignment, and no two variables share a byte.
-/
import DirectC.CodeArea
import DirectC.Proofs.Environment
import DirectC.Proofs.Layout
import Mathlib.Order.Bounds.Defs

namespace DirectC

namespace CodeArea

/-! ## Counting room -/

/-- The least multiple of `a` that is not below `n`. -/
def roundUp (n a : Int) : Int :=
  (n + a - 1) / a * a

/-- Rounding up gives the least multiple that is not below. -/
theorem roundUp_isLeast {a : Int} (ha : 0 < a) (n : Int) :
    IsLeast {x : Int | a ∣ x ∧ n ≤ x} (roundUp n a) := by
  have hdiv := Int.mul_ediv_add_emod (n + a - 1) a
  have hlt := Int.emod_lt_of_pos (n + a - 1) ha
  have hround : roundUp n a = a * ((n + a - 1) / a) := Int.mul_comm ..
  refine ⟨⟨Int.dvd_mul_left .., by omega⟩, ?_⟩
  rintro x ⟨⟨k, rfl⟩, hn⟩
  rw [hround]
  refine Int.mul_le_mul_of_nonneg_left ?_ (by omega)
  refine Int.le_of_lt_add_one (Int.ediv_lt_of_lt_mul ha ?_)
  rw [Int.add_mul, Int.mul_comm k]
  omega

theorem le_roundUp {a : Int64} (ha : Aligns a) (n : Int) : n ≤ roundUp n a.toInt :=
  (roundUp_isLeast ha.pos n).1.2

/-- Rounding words is rounding, if nothing wraps. -/
theorem toInt_alignUp {n a : Int64} (ha : Aligns a) (h0 : 0 ≤ n.toInt) (h1 : n.toInt < 2 ^ 62) :
    (Layout.alignUp n a).toInt = roundUp n.toInt a.toInt :=
  Layout.alignUp_eq ha.pos (Int.lt_of_le_of_lt ha.le (by decide)) h0 h1

/-- Where the room of variables ends whose first one may start at `offset`. -/
def roomEnd (l : Layout) (offset : Int) : List GlobalVar → Int
  | [] => offset
  | g :: gs =>
    match l.size g.type, l.alignment g.type with
    | .ok size, .ok align => roomEnd l (roundUp offset align.toInt + size.toInt) gs
    | _, _ => offset

theorem roomEnd_cons {l : Layout} {offset : Int} {g : GlobalVar} {gs : List GlobalVar}
    {size align : Int64} (hs : l.size g.type = .ok size) (ha : l.alignment g.type = .ok align) :
    roomEnd l offset (g :: gs) = roomEnd l (roundUp offset align.toInt + size.toInt) gs := by
  rw [roomEnd, hs, ha]

theorem le_roomEnd {B : Int} {l : Layout} (hl : l.Formed B) (hB : B < 2 ^ 31)
    {gs : List GlobalVar} (hg : ∀ g ∈ gs, g.type.Stored B) (offset : Int) :
    offset ≤ roomEnd l offset gs := by
  induction gs generalizing offset with
  | nil => exact Int.le_refl _
  | cons g gs ih =>
    unfold roomEnd
    split
    · rename_i size align hs ha
      have hround := le_roundUp (hl.alignment ha) offset
      have hsize := (hl.size hB (hg g List.mem_cons_self).1 hs).1
      have hrest := ih (fun g' hg' => hg g' (List.mem_cons_of_mem _ hg'))
        (roundUp offset align.toInt + size.toInt)
      omega
    · exact Int.le_refl _

/-! ## Variables in place -/

/-- **Variables in place.** Each starts at a multiple of its alignment, not before the one before
it ends. -/
inductive Placed (l : Layout) : Int → List (GlobalVar × Int64) → Int → Prop where
  | nil {offset} : Placed l offset [] offset
  | cons {offset g size align start rows last} (hs : l.size g.type = .ok size)
      (ha : l.alignment g.type = .ok align) (h0 : 0 ≤ size.toInt) (hd : align.toInt ∣ start.toInt)
      (hle : offset ≤ start.toInt) (h : Placed l (start.toInt + size.toInt) rows last) :
      Placed l offset ((g, start) :: rows) last

variable {l : Layout} {offset last : Int} {rows : List (GlobalVar × Int64)}

theorem Placed.le (h : Placed l offset rows last) : offset ≤ last := by
  induction h with
  | nil => exact Int.le_refl _
  | cons _ _ h0 _ hle _ ih => omega

/-- Where a variable lies in the room. -/
theorem Placed.mem {q : GlobalVar × Int64} (h : Placed l offset rows last) (hq : q ∈ rows) :
    ∃ size align, l.size q.1.type = .ok size ∧ l.alignment q.1.type = .ok align ∧
      align.toInt ∣ q.2.toInt ∧ offset ≤ q.2.toInt ∧ q.2.toInt + size.toInt ≤ last := by
  induction h with
  | nil => cases hq
  | cons hs ha h0 hd hle h ih =>
    rcases List.mem_cons.mp hq with rfl | hq
    · exact ⟨_, _, hs, ha, hd, hle, h.le⟩
    · obtain ⟨size, align, hs', ha', hd', hle', hlast⟩ := ih hq
      exact ⟨size, align, hs', ha', hd', by omega, hlast⟩

/-- One variable ends before the other one starts. -/
def Apart (l : Layout) (q r : GlobalVar × Int64) : Prop :=
  (∀ size, l.size q.1.type = .ok size → q.2.toInt + size.toInt ≤ r.2.toInt) ∨
    ∀ size, l.size r.1.type = .ok size → r.2.toInt + size.toInt ≤ q.2.toInt

theorem Placed.apart (h : Placed l offset rows last) : rows.Pairwise (Apart l) := by
  induction h with
  | nil => exact .nil
  | cons hs _ _ _ _ h ih =>
    refine .cons (fun r hr => .inl fun size hs' => ?_) ih
    rw [hs] at hs'
    cases hs'
    obtain ⟨_, _, _, _, _, hle, _⟩ := h.mem hr
    exact hle

/-! ## The words of the room -/

/-- The next variable starts and ends where it does in numbers, since its end is not beyond the
room's. -/
theorem roomEnd_words {B : Int} (hl : l.Formed B) (hB : B < 2 ^ 31) {g : GlobalVar}
    {gs : List GlobalVar} (hg : ∀ g' ∈ g :: gs, g'.type.Stored B) {start size align : Int64}
    (hs : l.size g.type = .ok size) (ha : l.alignment g.type = .ok align) (h0 : 0 ≤ start.toInt)
    (hend : roomEnd l start.toInt (g :: gs) < 2 ^ 62) :
    0 ≤ size.toInt ∧ start.toInt < 2 ^ 62 ∧
      (Layout.alignUp start align).toInt = roundUp start.toInt align.toInt ∧
      (Layout.alignUp start align + size).toInt = roundUp start.toInt align.toInt + size.toInt := by
  have hsize := (hl.size hB (hg g List.mem_cons_self).1 hs).1
  rw [roomEnd_cons hs ha] at hend
  have hround := le_roundUp (hl.alignment ha) start.toInt
  have hrest := le_roomEnd hl hB (fun g' h => hg g' (List.mem_cons_of_mem _ h))
    (roundUp start.toInt align.toInt + size.toInt)
  have hsmall : start.toInt < 2 ^ 62 := by omega
  have hstart := toInt_alignUp (hl.alignment ha) h0 hsmall
  refine ⟨hsize, hsmall, hstart, ?_⟩
  rw [Int64.toInt_add, hstart, word_eq (by omega) (by omega)]

/-- **Variables are put in place** as long as the room stays small. -/
theorem globalStarts_placed {B : Int} (hl : l.Formed B) (hB : B < 2 ^ 31) {gs : List GlobalVar}
    (hg : ∀ g ∈ gs, g.type.Stored B) {start stop : Int64} {names : List (Bytes × Int64)}
    (h : globalStarts l start gs = .ok (names, stop)) (h0 : 0 ≤ start.toInt)
    (hend : roomEnd l start.toInt gs < 2 ^ 62) :
    stop.toInt = roomEnd l start.toInt gs ∧ ∃ rows, rows.map (·.1) = gs ∧
      names = rows.map (fun q => (q.1.name, q.2)) ∧ Placed l start.toInt rows stop.toInt := by
  induction gs generalizing start names with
  | nil =>
    cases h
    exact ⟨rfl, [], rfl, rfl, .nil⟩
  | cons g gs ih =>
    obtain ⟨size, hs, h⟩ := except_bind_ok.mp h
    obtain ⟨align, ha, h⟩ := except_bind_ok.mp h
    obtain ⟨⟨rest, last'⟩, hr, h⟩ := except_bind_ok.mp h
    cases h
    have hg' : ∀ g' ∈ gs, g'.type.Stored B := fun g' h => hg g' (List.mem_cons_of_mem _ h)
    -- Below 2^62 neither rounding up nor adding a size wraps around.
    obtain ⟨hsize, hsmall, hstart, hnext⟩ := roomEnd_words hl hB hg hs ha h0 hend
    have hround := le_roundUp (hl.alignment ha) start.toInt
    rw [roomEnd_cons hs ha, ← hnext] at hend ⊢
    obtain ⟨hlast, rows, hgs, hnames, hplaced⟩ := ih hg' hr (by omega) hend
    refine ⟨hlast, (g, Layout.alignUp start align) :: rows, by rw [List.map_cons, hgs],
      by rw [List.map_cons, hnames], ?_⟩
    obtain ⟨hle, _, hdvd⟩ := Layout.alignUp_spec (hl.alignment ha) h0 hsmall
    rw [hnext, ← hstart] at hplaced
    exact .cons hs ha hsize hdvd hle hplaced

/-- **Where a variable starts**, as long as the room stays small: at the next multiple of its
alignment behind the variables before it. -/
theorem globalStarts_mem {B : Int} (hl : l.Formed B) (hB : B < 2 ^ 31) {gs : List GlobalVar}
    (hg : ∀ g ∈ gs, g.type.Stored B) {start stop : Int64} {names : List (Bytes × Int64)}
    (h : globalStarts l start gs = .ok (names, stop)) (h0 : 0 ≤ start.toInt)
    (hend : roomEnd l start.toInt gs < 2 ^ 62) {row : Bytes × Int64} (hrow : row ∈ names) :
    ∃ before g after align, gs = before ++ g :: after ∧ g.name = row.1 ∧
      l.alignment g.type = .ok align ∧
      row.2.toInt = roundUp (roomEnd l start.toInt before) align.toInt := by
  induction gs generalizing start names with
  | nil =>
    cases h
    cases hrow
  | cons g gs ih =>
    obtain ⟨size, hs, h⟩ := except_bind_ok.mp h
    obtain ⟨align, ha, h⟩ := except_bind_ok.mp h
    obtain ⟨⟨rest, last'⟩, hr, h⟩ := except_bind_ok.mp h
    cases h
    obtain ⟨hsize, -, hstart, hnext⟩ := roomEnd_words hl hB hg hs ha h0 hend
    rcases List.mem_cons.mp hrow with rfl | hrow
    · exact ⟨[], g, gs, align, rfl, rfl, ha, hstart⟩
    · have hround := le_roundUp (hl.alignment ha) start.toInt
      rw [roomEnd_cons hs ha, ← hnext] at hend
      obtain ⟨before, g', after, align', rfl, hname, ha', hword⟩ :=
        ih (fun g' h => hg g' (List.mem_cons_of_mem _ h)) hr (by omega) hend hrow
      refine ⟨g :: before, g', after, align', rfl, hname, ha', ?_⟩
      rw [hword, roomEnd_cons hs ha, hnext]

end CodeArea

end DirectC
