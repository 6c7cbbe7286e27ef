/-
# Wider limits

`Limits.Within c d` says that every budget of `d` is at least that of `c`. What a layout allows it
also allows under wider limits, with the same sizes and offsets: limits refuse, and do nothing
else.
-/
import DirectC.Env
import DirectC.Proofs.Layout

namespace DirectC

/-- Every budget of `d` is at least that of `c`. -/
structure Limits.Within (c d : Limits) : Prop where
  typeSize : c.typeSize ≤ d.typeSize
  arrayLength : c.arrayLength ≤ d.arrayLength
  branch : c.branch ≤ d.branch
  registerArgs : c.registerArgs ≤ d.registerArgs

namespace Layout

variable {l : Layout} {d : Limits}

@[simp] theorem limits_withLimits : (l.withLimits d).limits = d := rfl

/-- Limits have no part in which structs are defined. -/
@[simp] theorem struct?_withLimits (name : Bytes) :
    (l.withLimits d).struct? name = l.struct? name :=
  rfl

/-! ## Sizes and alignments -/

/-- What is within some limits is within wider ones. -/
theorem bounded_within {t : CType} {n m : Int64} (h : l.bounded t n = .ok m)
    (hd : l.limits.Within d) : (l.withLimits d).bounded t n = .ok m := by
  unfold bounded at h ⊢
  split at h
  · cases h
  · rename_i hn
    exact (if_neg fun hlt => hn (Int64.lt_of_le_of_lt hd.typeSize hlt)).trans h

/-- **A type that has a size under some limits has it under wider ones.** -/
theorem size_within {t : CType} {n : Int64} (h : l.size t = .ok n) (hd : l.limits.Within d) :
    (l.withLimits d).size t = .ok n := by
  induction t generalizing n with
  | int | char | void | pointer =>
    rw [size] at h ⊢
    exact bounded_within h hd
  | array elem length ih =>
    rw [size, except_bind_ok] at h ⊢
    obtain ⟨m, hm, h⟩ := h
    exact ⟨m, ih hm, bounded_within h hd⟩
  | struct name =>
    rw [size] at h ⊢
    rw [struct?_withLimits]
    cases hs : l.struct? name with
    | none => simp [hs] at h
    | some s =>
      rw [hs] at h
      exact bounded_within h hd
  | unknown => cases h

/-- Alignments have no limits. -/
@[simp] theorem alignment_withLimits (t : CType) :
    (l.withLimits d).alignment t = l.alignment t := by
  induction t with
  | array elem length ih => exact ih
  | _ => rfl

/-- An array that is short enough is so under wider limits. -/
theorem array_within {elem : CType} {length : Int64} {t : CType}
    (h : l.array elem length = .ok t) (hd : l.limits.Within d) :
    (l.withLimits d).array elem length = .ok t := by
  unfold array at h ⊢
  split at h
  · cases h
  · rename_i hn
    refine (if_neg fun hlt => hn ?_).trans h
    simp only [Bool.or_eq_true, decide_eq_true_eq] at hlt ⊢
    exact hlt.imp_right (Int64.lt_of_le_of_lt hd.arrayLength)

/-! ## Structs -/

/-- A field is placed in the same way. -/
theorem place_within {name : Bytes} {p p' : Placement} {f : Field}
    (h : l.place name p f = .ok p') (hd : l.limits.Within d) :
    (l.withLimits d).place name p f = .ok p' := by
  obtain ⟨hany, hvoid, size, align, hs, ha, hle, rfl⟩ := place_ok.mp h
  exact place_ok.mpr ⟨hany, hvoid, size, align, size_within hs hd,
    (alignment_withLimits _).trans ha, Int64.le_trans hle hd.typeSize, rfl⟩

/-- All fields are placed in the same way under wider limits. -/
theorem places_within {name : Bytes} {fields : List Field} {p p' : Placement}
    (h : fields.foldlM (l.place name) p = .ok p') (hd : l.limits.Within d) :
    fields.foldlM ((l.withLimits d).place name) p = .ok p' := by
  induction fields generalizing p with
  | nil =>
    rw [List.foldlM_nil] at h ⊢
    exact h
  | cons f fields ih =>
    rw [List.foldlM_cons, except_bind_ok] at h ⊢
    obtain ⟨q, hq, h⟩ := h
    exact ⟨q, place_within hq hd, ih h⟩

/-- A struct is laid out in the same way under wider limits. -/
theorem structOf_within {name : Bytes} {fields : List Field} {s : StructDef}
    (h : l.structOf name fields = .ok s) (hd : l.limits.Within d) :
    (l.withLimits d).structOf name fields = .ok s := by
  unfold structOf at h ⊢
  rw [except_bind_ok] at h ⊢
  obtain ⟨p, hp, h⟩ := h
  refine ⟨p, places_within hp hd, ?_⟩
  dsimp only at h ⊢
  split at h
  · cases h
  · rename_i hn
    exact (if_neg fun hlt => hn (Int64.lt_of_le_of_lt hd.typeSize hlt)).trans h

/-- **A struct that can be defined under some limits can be defined under wider ones.** -/
theorem define_within {name : Bytes} {fields : List Field} {l' : Layout}
    (h : l.define name fields = .ok l') (hd : l.limits.Within d) :
    (l.withLimits d).define name fields = .ok (l'.withLimits d) := by
  obtain ⟨s, hs, rfl⟩ := define_ok.mp h
  exact define_ok.mpr ⟨s, structOf_within hs hd, rfl⟩

end Layout

/-! ## Environments -/

/-- The same declarations under other limits. -/
def Env.under (env : Env) (d : Limits) : Env :=
  { env with layout := env.layout.withLimits d }

end DirectC
