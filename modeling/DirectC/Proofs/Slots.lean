/-
# Slots of a frame

What a function's variables get when they ask for slots, in any order and as often as they like.
The frame counts the bytes of its slots in words; `Layout.demand` counts them in numbers that do not
wrap. As long as that number stays small, no two slots share a byte, and a variable that asks again
gets the slot it has (`Frame.slots_apart`).
-/
import DirectC.Proofs.StructLayout

namespace DirectC

open CodeArea (roundUp roundUp_isLeast le_roundUp toInt_alignUp)

/-- A slot that a frame has given to a variable. -/
structure Slot where
  id : Int
  type : CType
  offset : Int32
  deriving DecidableEq, Repr

namespace Slot

/-- The number of bytes of a slot. -/
def width (s : Slot) (l : Layout) : Int :=
  max (l.bytes s.type) 4

/-- The slot holds the byte at `x` from the frame pointer. -/
def Holds (s : Slot) (l : Layout) (x : Int) : Prop :=
  s.offset.toInt ≤ x ∧ x < s.offset.toInt + s.width l

/-- Slots of two variables that share no byte. -/
def Apart (l : Layout) (s t : Slot) : Prop :=
  s.id ≠ t.id ∧ ∀ x, s.Holds l x → ¬ t.Holds l x

/-- A slot that lies within the `size` bytes below the frame pointer, aligned as its type asks. -/
structure Lies (s : Slot) (l : Layout) (size : Int) : Prop where
  sized : ∃ n, l.size s.type = .ok n
  within : ∀ x, s.Holds l x → -size ≤ x ∧ x < 0
  aligned : ∃ a, l.alignment s.type = .ok a ∧ a.toInt ∣ s.offset.toInt

/-- A slot lies within a larger frame. -/
theorem Lies.mono {s : Slot} {l : Layout} {size size' : Int} (h : s.Lies l size)
    (hle : size ≤ size') : s.Lies l size' := by
  refine ⟨h.sized, fun x hx => ?_, h.aligned⟩
  have hwithin := h.within x hx
  omega

end Slot

/-! ## Asking for slots -/

namespace Frame

/-- The frame that a variable leaves when it has asked for its slot, whether it got one or not. -/
def ask (l : Layout) (f : Frame) (call : Int × CType) : Frame :=
  match assign l call.1 call.2 f with
  | .ok _ g => g
  | .error _ g => g

/-- The frame after a sequence of calls. -/
def run (l : Layout) (f : Frame) (calls : List (Int × CType)) : Frame :=
  calls.foldl (ask l) f

/-- The slot that a call adds, if the variable had none before and gets one. -/
def grant (l : Layout) (f : Frame) (call : Int × CType) : List Slot :=
  match f.offset? call.1, f.slot l call.1 call.2 with
  | none, .ok (offset, _) => [⟨call.1, call.2, offset⟩]
  | _, _ => []

/-- The slots that a sequence of calls adds. -/
def grants (l : Layout) (f : Frame) : List (Int × CType) → List Slot
  | [] => []
  | call :: calls => f.grant l call ++ (f.ask l call).grants l calls

end Frame

/-- The bytes that slots for variables of the given types take. -/
def Layout.demand (l : Layout) (types : List CType) : Int :=
  types.foldl (fun used t => roundUp (used + max (l.bytes t) 4) (l.boundary t)) 0

variable {l : Layout} {f g : Frame} {call : Int × CType} {calls : List (Int × CType)}
  {slots : List Slot} {s : Slot} {offset : Int32}

/-- One more variable takes four bytes at least, and ends at its boundary. -/
theorem Layout.demand_append_singleton (l : Layout) (types : List CType) (t : CType) :
    l.demand (types ++ [t]) = roundUp (l.demand types + max (l.bytes t) 4) (l.boundary t) := by
  rw [demand, List.foldl_append]
  rfl

/-- Every boundary is positive. -/
theorem Definable.boundary_pos (hl : Definable l.structs) (t : CType) : 0 < l.boundary t := by
  unfold Layout.boundary
  split
  · next a ha => exact (Layout.alignment_aligns hl.aligns ha).pos
  · decide

/-- More slots take more bytes. -/
theorem Definable.demand_le (hl : Definable l.structs) (types more : List CType) :
    l.demand types ≤ l.demand (types ++ more) := by
  induction more generalizing types with
  | nil => exact Int.le_of_eq (by rw [List.append_nil])
  | cons t more ih =>
    have hstep : l.demand types ≤ l.demand (types ++ [t]) := by
      have hle := (roundUp_isLeast (hl.boundary_pos t) (l.demand types + max (l.bytes t) 4)).1.2
      rw [Layout.demand_append_singleton]
      omega
    have hrest := ih (types ++ [t])
    rw [List.append_assoc, List.singleton_append] at hrest
    exact Int.le_trans hstep hrest

namespace Frame

/-- **What a call does.** -/
theorem ask_cases (l : Layout) (f : Frame) (call : Int × CType) :
    (∃ offset, f.offset? call.1 = some offset ∧ f.slot l call.1 call.2 = .ok (offset, f) ∧
      f.ask l call = f ∧ f.grant l call = []) ∨
    (∃ offset g, f.offset? call.1 = none ∧ f.slot l call.1 call.2 = .ok (offset, g) ∧
      f.ask l call = g ∧ f.grant l call = [⟨call.1, call.2, offset⟩]) ∨
    ∃ fault, f.slot l call.1 call.2 = .error fault ∧ f.ask l call = f ∧ f.grant l call = [] := by
  unfold ask grant slot
  rw [assign_eq]
  cases f.offset? call.1 with
  | some offset => exact .inl ⟨offset, rfl, rfl, rfl, rfl⟩
  | none =>
    cases l.size call.2 with
    | error fault => exact .inr (.inr ⟨fault, rfl, rfl, rfl⟩)
    | ok size =>
      cases l.alignment call.2 with
      | error fault => exact .inr (.inr ⟨fault, rfl, rfl, rfl⟩)
      | ok align => exact .inr (.inl ⟨_, _, rfl, rfl, rfl, rfl⟩)

/-- Asking gives the frame that the slot is in. -/
theorem ask_of_slot {id : Int} {type : CType} (h : f.slot l id type = .ok (offset, g)) :
    f.ask l (id, type) = g := by
  rcases ask_cases l f (id, type) with ⟨_, _, hs, hask, _⟩ | ⟨_, _, _, hs, hask, _⟩ | ⟨_, hs, _⟩
  · rw [hask]
    exact (Prod.mk.inj (Except.ok.inj (hs.symm.trans h))).2
  · rw [hask]
    exact (Prod.mk.inj (Except.ok.inj (hs.symm.trans h))).2
  · exact nomatch h.symm.trans hs

/-- A call that fails leaves the frame as it is. -/
theorem ask_of_fault {fault : Layout.Fault} (h : f.slot l call.1 call.2 = .error fault) :
    f.ask l call = f := by
  rcases ask_cases l f call with ⟨_, _, hs, _⟩ | ⟨_, _, _, hs, _⟩ | ⟨_, _, hask, _⟩
  · exact nomatch h.symm.trans hs
  · exact nomatch h.symm.trans hs
  · exact hask

/-- Slots may be asked for in two parts. -/
theorem run_append (l : Layout) (f : Frame) (before after : List (Int × CType)) :
    f.run l (before ++ after) = (f.run l before).run l after :=
  List.foldl_append

/-- Slots that are asked for in two parts are granted in two parts. -/
theorem grants_append (l : Layout) (f : Frame) (before after : List (Int × CType)) :
    f.grants l (before ++ after) = f.grants l before ++ (f.run l before).grants l after := by
  induction before generalizing f with
  | nil => rfl
  | cons call before ih =>
    rw [List.cons_append, grants, grants, ih, List.append_assoc]
    rfl

/-- **The frame carries the slots**, and counts their bytes without wrapping. -/
structure Carries (l : Layout) (f : Frame) (slots : List Slot) : Prop where
  held : f.slots = slots.map fun s => (s.id, s.offset)
  used : f.used.toInt = l.demand (slots.map Slot.type)
  nonneg : 0 ≤ f.used.toInt
  small : f.used.toInt < 2 ^ 31 - 16
  lies : ∀ s ∈ slots, s.Lies l f.used.toInt
  apart : slots.Pairwise (Slot.Apart l)

theorem Carries.start (l : Layout) : Carries l {} [] :=
  ⟨rfl, rfl, by decide, by decide, by simp, .nil⟩

/-- A variable is found in its slot. -/
theorem Carries.offset?_eq (h : f.Carries l slots) (id : Int) :
    f.offset? id = (slots.find? fun s => s.id == id).map Slot.offset := by
  rw [offset?, h.held, List.find?_map, Option.map_map]
  rfl

/-- What is found is a slot that was granted. -/
theorem Carries.mem_of_offset? {id : Int} (h : f.Carries l slots)
    (ho : f.offset? id = some offset) : ∃ s ∈ slots, s.id = id ∧ s.offset = offset := by
  rw [h.offset?_eq] at ho
  obtain ⟨s, hs, rfl⟩ := Option.map_eq_some_iff.mp ho
  have hid := List.find?_some hs
  exact ⟨s, List.mem_of_find?_eq_some hs, eq_of_beq hid, rfl⟩

/-- A variable that has a slot finds it. -/
theorem Carries.offset?_of_mem (h : f.Carries l slots) (hs : s ∈ slots) :
    f.offset? s.id = some s.offset := by
  have hids : (slots.map Slot.id).Nodup := List.pairwise_map.mpr (h.apart.imp And.left)
  cases ho : f.offset? s.id with
  | none =>
    rw [h.offset?_eq, Option.map_eq_none_iff, List.find?_eq_none] at ho
    exact absurd (beq_self_eq_true s.id) (ho s hs)
  | some offset =>
    obtain ⟨t, ht, hid, rfl⟩ := h.mem_of_offset? ho
    rw [List.inj_on_of_nodup_map hids ht hs hid]

/-- The words of a new slot are the numbers that they stand for. -/
theorem Carries.slot_exact (hl : Definable l.structs) (h : f.Carries l slots)
    (hroom : l.demand (slots.map Slot.type ++ [call.2]) < 2 ^ 31 - 16)
    (hnone : f.offset? call.1 = none) (hs : f.slot l call.1 call.2 = .ok (offset, g)) :
    g.slots = f.slots ++ [(call.1, offset)] ∧
      g.used.toInt = l.demand (slots.map Slot.type ++ [call.2]) ∧
      offset.toInt = -g.used.toInt ∧
      f.used.toInt + max (l.bytes call.2) 4 ≤ g.used.toInt ∧
      (∃ n, l.size call.2 = .ok n) ∧ ∃ a, l.alignment call.2 = .ok a ∧ a.toInt ∣ g.used.toInt := by
  rcases slot_ok.mp hs with ⟨hsome, -⟩ | ⟨-, n, a, hn, ha, hoffset, rfl⟩
  · rw [hnone] at hsome
    cases hsome
  have haligns := Layout.alignment_aligns hl.aligns ha
  have hwidth : (max n minSlot).toInt = max (l.bytes call.2) 4 := by
    rw [Layout.toInt_max, Layout.bytes_eq hn]
    rfl
  have hfour : 4 ≤ (max n minSlot).toInt := by omega
  obtain ⟨⟨hdvd, hle⟩, -⟩ :=
    roundUp_isLeast haligns.pos (f.used.toInt + (max n minSlot).toInt)
  rw [Layout.demand_append_singleton, ← h.used, Layout.boundary_eq ha, ← hwidth] at hroom ⊢
  have hnonneg := h.nonneg
  -- Neither the sum nor its rounding wraps around, as the demand is below 2^31.
  have hsum : (f.used + max n minSlot).toInt = f.used.toInt + (max n minSlot).toInt := by
    rw [Int64.toInt_add, word_eq (by omega) (by omega)]
  have hused : (Layout.alignUp (f.used + max n minSlot) a).toInt =
      roundUp (f.used.toInt + (max n minSlot).toInt) a.toInt := by
    rw [toInt_alignUp haligns (by omega) (by omega), hsum]
  refine ⟨rfl, hused, ?_, by rw [hused]; exact hle, ⟨n, hn⟩, a, ha, by rw [hused]; exact hdvd⟩
  rw [hoffset, Int64.toInt_toInt32, Int64.toInt_neg, word_eq (by omega) (by omega), hused]
  exact Int.bmod_eq_of_le (by omega) (by omega)

/-- **One more slot** below the others. -/
theorem Carries.grant (hl : Definable l.structs) (h : f.Carries l slots)
    (hroom : l.demand (slots.map Slot.type ++ [call.2]) < 2 ^ 31 - 16)
    (hnone : f.offset? call.1 = none) (hs : f.slot l call.1 call.2 = .ok (offset, g)) :
    g.Carries l (slots ++ [⟨call.1, call.2, offset⟩]) := by
  obtain ⟨hslots, hused, hoffset, hle, hsized, a, ha, hdvd⟩ := h.slot_exact hl hroom hnone hs
  have hnonneg := h.nonneg
  constructor
  · rw [hslots, h.held, List.map_append]
    rfl
  · rw [hused, List.map_append]
    rfl
  · omega
  · rwa [hused]
  · intro s hs
    rcases List.mem_append.mp hs with hs | hs
    · exact (h.lies s hs).mono (by omega)
    · rw [List.mem_singleton.mp hs]
      refine ⟨hsized, fun x hx => ?_, a, ha, ?_⟩
      · obtain ⟨hx0, hx1⟩ := hx
        simp only [Slot.width] at hx0 hx1
        omega
      · rw [hoffset]
        exact Int.dvd_neg.mpr hdvd
  · refine List.pairwise_append.mpr ⟨h.apart, List.pairwise_singleton .., ?_⟩
    intro s hs t ht
    rw [List.mem_singleton.mp ht]
    refine ⟨fun hid => ?_, fun x hx hx' => ?_⟩
    · rw [← show s.id = call.1 from hid, h.offset?_of_mem hs] at hnone
      cases hnone
    · -- The new slot ends where the bytes begin that were in use.
      have habove := ((h.lies s hs).within x hx).1
      have hbelow := hx'.2
      simp only [Slot.width] at hbelow
      omega

/-- **What a call preserves.** -/
theorem Carries.ask (hl : Definable l.structs) (h : f.Carries l slots)
    (hroom : l.demand ((slots ++ f.grant l call).map Slot.type) < 2 ^ 31 - 16) :
    (f.ask l call).Carries l (slots ++ f.grant l call) := by
  rcases ask_cases l f call with ⟨_, _, _, hask, hgrant⟩ | ⟨_, _, hnone, hs, hask, hgrant⟩ |
    ⟨_, _, hask, hgrant⟩
  · rwa [hask, hgrant, List.append_nil]
  · rw [hgrant, List.map_append] at hroom
    rw [hask, hgrant]
    exact h.grant hl hroom hnone hs
  · rwa [hask, hgrant, List.append_nil]

/-- **What any sequence of calls preserves.** -/
theorem Carries.run (hl : Definable l.structs) (h : f.Carries l slots)
    (hroom : l.demand ((slots ++ f.grants l calls).map Slot.type) < 2 ^ 31 - 16) :
    (f.run l calls).Carries l (slots ++ f.grants l calls) := by
  induction calls generalizing f slots with
  | nil =>
    rw [grants, List.append_nil]
    exact h
  | cons call calls ih =>
    rw [grants, ← List.append_assoc] at hroom ⊢
    refine ih (h.ask hl ?_) hroom
    -- What the first slots take is no more than what all of them take.
    rw [List.map_append] at hroom
    exact Int.lt_of_le_of_lt (hl.demand_le _ _) hroom

/-- The size of a frame is the number of its bytes, rounded up. -/
theorem Carries.used_le_size (h : f.Carries l slots) : f.used.toInt ≤ f.size.toInt := by
  have hnonneg := h.nonneg
  have hsmall := h.small
  have hsixteen : (16 : Int64).toInt = 16 := rfl
  have hround : (Layout.alignUp f.used 16).toInt = _ :=
    Layout.alignUp_eq (by decide) (by decide) hnonneg (by omega)
  rw [hsixteen] at hround
  rw [size, Int64.toInt_toInt32, hround, Int.bmod_eq_of_le (by omega) (by omega)]
  omega

/-- **Slots share no byte.** Whatever the calls are, the slots that they add lie apart from each
other within the frame, whose size is a multiple of sixteen. A call that succeeds gives the slot of
its variable, the one it got first if it asks again, and a call that fails leaves the frame as it
is. -/
theorem slots_apart (hl : Definable l.structs) (calls : List (Int × CType))
    (hroom : l.demand ((grants l {} calls).map Slot.type) < 2 ^ 31 - 16) :
    (grants l {} calls).Pairwise (Slot.Apart l) ∧
    (∀ s ∈ grants l {} calls, s.Lies l (run l {} calls).size.toInt) ∧
    (16 : Int) ∣ (run l {} calls).size.toInt ∧
    ∀ before call after, calls = before ++ call :: after →
      (∀ offset g, (run l {} before).slot l call.1 call.2 = .ok (offset, g) →
        ∃ s ∈ grants l {} (before ++ [call]), s.id = call.1 ∧ s.offset = offset) ∧
      (∀ s ∈ grants l {} before, s.id = call.1 →
        (run l {} before).slot l call.1 call.2 = .ok (s.offset, run l {} before)) ∧
      ∀ fault, (run l {} before).slot l call.1 call.2 = .error fault →
        run l {} (before ++ [call]) = run l {} before := by
  have hrun := (Carries.start l).run hl hroom
  rw [List.nil_append] at hrun
  refine ⟨hrun.apart, fun s hs => (hrun.lies s hs).mono hrun.used_le_size, size_aligned _, ?_⟩
  rintro before call after rfl
  -- Fewer slots need less room, so the first part of a frame is sound by itself.
  have hbefore : (run l {} before).Carries l (grants l {} before) := by
    refine (Carries.start l).run hl ?_
    rw [grants_append, List.map_append] at hroom
    exact Int.lt_of_le_of_lt (hl.demand_le _ _) hroom
  refine ⟨?_, ?_, ?_⟩
  · intro offset g hs
    rw [grants_append]
    rcases slot_ok.mp hs with ⟨hsome, -⟩ | ⟨hnone, -⟩
    · obtain ⟨s, hmem, hid, ho⟩ := hbefore.mem_of_offset? hsome
      exact ⟨s, List.mem_append_left _ hmem, hid, ho⟩
    · refine ⟨⟨call.1, call.2, offset⟩, List.mem_append_right _ ?_, rfl, rfl⟩
      simp [grants, grant, hnone, hs]
  · intro s hs hid
    rw [← hid]
    exact slot_ok.mpr (.inl ⟨hbefore.offset?_of_mem hs, rfl⟩)
  · intro fault hs
    rw [run_append]
    exact ask_of_fault hs

/-- Four variables, of which one asks twice and one has a type that is not defined. -/
def fourCalls : List (Int × CType) :=
  [(0, .char), (1, .pointer .int), (2, .struct "missing"), (0, .int),
    (3, .array (.struct "pair") 2)]

theorem slots_apart_fourCalls :
    grants .pairs {} fourCalls =
      [⟨0, .char, -4⟩, ⟨1, .pointer .int, -16⟩, ⟨3, .array (.struct "pair") 2, -32⟩] ∧
    Definable Layout.pairs.structs ∧
    Layout.pairs.demand ((grants .pairs {} fourCalls).map Slot.type) < 2 ^ 31 - 16 ∧
    (grants .pairs {} fourCalls).Pairwise (Slot.Apart .pairs) ∧
    (∀ s ∈ grants .pairs {} fourCalls, s.Lies .pairs 32) ∧
    (run .pairs {} (fourCalls.take 3)).slot .pairs 0 .int =
      .ok (-4, run .pairs {} (fourCalls.take 3)) := by
  have hl : Definable Layout.pairs.structs := Layout.definable_attempt .empty
  have hgrants : grants .pairs {} fourCalls =
      [⟨0, .char, -4⟩, ⟨1, .pointer .int, -16⟩, ⟨3, .array (.struct "pair") 2, -32⟩] := by
    decide +kernel
  have hroom : Layout.pairs.demand ((grants .pairs {} fourCalls).map Slot.type) < 2 ^ 31 - 16 := by
    decide +kernel
  have hsize : (run .pairs {} fourCalls).size.toInt = 32 := by decide +kernel
  obtain ⟨hapart, hlies, -, hcalls⟩ := slots_apart hl fourCalls hroom
  rw [hsize] at hlies
  refine ⟨hgrants, hl, hroom, hapart, hlies, ?_⟩
  exact (hcalls (fourCalls.take 3) (0, .int) _ rfl).2.1 ⟨0, .char, -4⟩ (by decide +kernel) rfl

end Frame

end DirectC
