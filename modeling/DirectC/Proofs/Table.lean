/-
# Laws of tables

What a table holds after a name is set or forgotten.
-/
import DirectC.Table

namespace DirectC

namespace Table

variable {α : Type} {t : Table α} {name key : Bytes} {value : α}

/-- A name that is put into a list is found with its value, and others are found as before. -/
theorem find?_put (entries : List (Bytes × α)) :
    ((put name value entries).find? fun e => e.1 == key).map (·.2) =
      if name = key then some value else (entries.find? fun e => e.1 == key).map (·.2) := by
  induction entries with
  | nil =>
    by_cases h : name = key
    · simp [put, h]
    · simp [put, h]
  | cons e es ih =>
    by_cases he : e.1 = name
    · by_cases h : name = key
      · simp [put, he, h]
      · simp [put, he, h]
    · by_cases h : name = key
      · have hk : e.1 ≠ key := fun hk => he (hk.trans h.symm)
        rw [if_pos h] at ih ⊢
        simpa [put, he, hk] using ih
      · rw [if_neg h] at ih ⊢
        by_cases hk : e.1 = key
        · simp [put, hk, Ne.symm h]
        · simpa [put, he, hk] using ih

/-- A table after a name is set. -/
theorem get?_insert : (t.insert name value).get? key =
    if name = key then some value else t.get? key :=
  find?_put t.entries

/-- A table after a name is forgotten. -/
theorem get?_erase : (t.erase name).get? key = if name = key then none else t.get? key := by
  unfold erase get?
  rw [List.find?_filter]
  by_cases h : name = key
  · subst h
    simp
  · rw [if_neg h]
    congr 2
    funext e
    by_cases hk : e.1 = key
    · simp [hk, Ne.symm h]
    · simp [hk]

@[simp] theorem get?_empty : (∅ : Table α).get? key = none := rfl

/-- A table contains the names that have values. -/
theorem contains_iff : t.contains key ↔ ∃ value, t.get? key = some value := by
  unfold contains get?
  rw [List.any_eq_true]
  constructor
  · rintro ⟨e, he, hk⟩
    cases hf : t.entries.find? fun e => e.1 == key with
    | none => exact absurd hk (by simpa using List.find?_eq_none.mp hf e he)
    | some e' => exact ⟨e'.2, rfl⟩
  · rintro ⟨value, h⟩
    obtain ⟨e, he, -⟩ := Option.map_eq_some_iff.mp h
    have hk := List.find?_some he
    exact ⟨e, List.mem_of_find?_eq_some he, hk⟩

theorem contains_eq : t.contains key = (t.get? key).isSome := by
  rw [Bool.eq_iff_iff, contains_iff, Option.isSome_iff_exists]

/-- What holds of every value in a table. -/
def All (P : Bytes → α → Prop) (t : Table α) : Prop :=
  ∀ key value, t.get? key = some value → P key value

variable {P : Bytes → α → Prop}

theorem All.empty : All P ∅ := by
  intro key value h
  cases h

/-- One more entry may be inserted if it is as all others are. -/
theorem All.insert (ht : All P t) (hv : P name value) : All P (t.insert name value) := by
  intro key v h
  rw [get?_insert] at h
  split at h
  · rename_i hk
    cases h
    exact hk ▸ hv
  · exact ht key v h

/-- Entries may be erased. -/
theorem All.erase (ht : All P t) : All P (t.erase name) := by
  intro key v h
  rw [get?_erase] at h
  split at h
  · cases h
  · exact ht key v h

end Table

end DirectC
