/-
# Typing rules keep their promises

Each function that checks operands and puts a node together yields a typed tree if its operands
are typed, and if it refuses them, the cause lies in them. One lemma each for each of them, in the
order in which they are defined. Without knowing that operands are typed, the type of the result
still is a scalar.
-/
import DirectC.Grammar.Expression
import DirectC.Proofs.Layout

namespace DirectC

namespace Grammar

variable {B : Int} {n : Nat} {pos : Int} {l : Layout} {e left right : Expr} {result : Expr}

theorem located_ok {α : Type} {x : Except Layout.Fault α} {a : α} :
    located pos x = .ok a ↔ x = .ok a := by
  cases x <;> simp [located]

/-! ## Values and places -/

/-- The value of a typed expression is typed and a scalar: arrays have become pointers. -/
theorem rvalue_typed (h : rvalue e = .ok result) (ht : Typed B n e) :
    Typed B n result ∧ result.type.isScalar := by
  have hf := ht.formed
  unfold rvalue at h
  cases hte : e.type <;> simp only [hte] at h <;> cases h
  case array => exact ⟨.decay ht hte, rfl⟩
  case unknown => simp [hte, CType.Formed] at hf
  all_goals exact ⟨ht, by rw [hte]; rfl⟩

/-- What a pointer points at is typed. -/
theorem deref_typed (h : deref pos e = .ok result) (ht : Typed B n e) (hs : e.type.isScalar) :
    Typed B n result := by
  unfold deref at h
  cases hte : e.type <;> simp only [hte, CType.deref?] at h <;> try cases h
  case pointer elem =>
    have hv : elem.isVoid = false := by
      cases elem <;> simp_all [CType.isVoid]
    have hr : result = .unary .deref pos e elem := by
      cases elem <;> simp_all
    rw [hr]
    exact .deref ht hte hv
  case array => simp [hte, CType.isScalar, CType.isInteger, CType.isPointer] at hs

/-- The address of a typed place is typed. -/
theorem addressOf_typed (h : addressOf pos e = .ok result) (ht : Typed B n e) :
    Typed B n result := by
  unfold addressOf at h
  split at h
  · cases h
    exact .addr ht ‹_›
  · cases h

/-- A member of a struct is typed: its offset is a constant, and its type is formed as the layout
is. -/
theorem member_typed {struct : Bytes} {name : Token} (h : member l pos e struct name = .ok result)
    (hl : l.Formed B) (ht : Typed B n e)
    (hp : e.type.isPointer) : Typed B n result := by
  unfold member at h
  cases hd : l.struct? struct with
  | none => simp [hd] at h
  | some d =>
    cases hm : d.member? name.literal with
    | none => simp [hd, hm] at h
    | some m =>
      simp only [hd, hm, Except.ok.injEq] at h
      have hmem : m ∈ d.members := List.mem_of_find?_eq_some hm
      obtain ⟨hf, hv⟩ := (hl.structs struct d hd).members m hmem
      rw [← h]
      exact .deref (.offset rfl ht .num hp rfl hf) rfl hv

/-! ## Conversions -/

/-- Null pointers are scalars. -/
theorem isScalar_of_isNull (h : e.isNull) (ht : Typed B n e) : e.type.isScalar := by
  cases ht with
  | num => rfl
  | _ => cases h

/-- What can be compared are scalars. -/
theorem isScalar_of_comparable (h : comparable left right) (hl : Typed B n left)
    (hr : Typed B n right) : left.type.isScalar ∧ right.type.isScalar := by
  unfold comparable at h
  simp only [Bool.and_eq_true] at h
  split at h
  · rename_i hi
    exact ⟨CType.isScalar_of_isInteger hi.1, CType.isScalar_of_isInteger hi.2⟩
  · split at h
    · rename_i hp
      exact ⟨CType.isScalar_of_isPointer hp.1, CType.isScalar_of_isPointer hp.2⟩
    · split at h
      · exact ⟨CType.isScalar_of_isPointer ‹_›, isScalar_of_isNull h hr⟩
      · split at h
        · exact ⟨isScalar_of_isNull h hl, CType.isScalar_of_isPointer ‹_›⟩
        · cases h

/-- A scalar that something is read through is a pointer. -/
theorem isPointer_of_deref? {t elem : CType} (hs : t.isScalar) (h : t.deref? = some elem) :
    t.isPointer := by
  cases t with
  | pointer => rfl
  | array => cases hs
  | _ => cases h

/-- A scalar is a value. -/
theorem isVoid_of_isScalar {t : CType} (hs : t.isScalar) : t.isVoid = false := by
  cases t with
  | void => cases hs
  | _ => rfl

/-- What a value decays to has no holes either. -/
theorem formed_decay {t : CType} (ht : t.Formed B) : t.decay.Formed B := by
  cases t with
  | array => exact ht.1
  | _ => exact ht

/-- What is neither void nor a struct after decay is a scalar. -/
theorem isScalar_decay {t : CType} (ht : t.Formed B) (hv : t.decay ≠ .void)
    (hs : ∀ name, t.decay ≠ .struct name) : t.decay.isScalar := by
  have hd := formed_decay ht
  cases htd : t.decay with
  | void => exact absurd htd hv
  | struct name => exact absurd htd (hs name)
  | array elem length => cases t <;> cases htd
  | unknown =>
    rw [htd] at hd
    cases hd
  | _ => rfl

/-- What a function may return. -/
theorem returns_scalar {ret : CType} (hr : ret.Formed B) (hs : ∀ name, ret ≠ .struct name)
    (ha : ∀ elem length, ret ≠ .array elem length) : ret.isVoid ∨ ret.isScalar := by
  cases ret with
  | struct name => exact absurd rfl (hs name)
  | array elem length => exact absurd rfl (ha elem length)
  | unknown => cases hr
  | void => exact .inl rfl
  | _ => exact .inr rfl

/-! ## Operators -/

/-- A scaled index is a typed integer. -/
theorem scale_typed {pointer : CType} (h : scale l pos pointer e = .ok result)
    (ht : Typed B n e) (hi : e.type.isInteger) : Typed B n result ∧ result.type.isInteger := by
  unfold scale at h
  obtain ⟨size, _, h⟩ := except_bind_ok.mp h
  split at h
  · cases h
    exact ⟨ht, hi⟩
  · cases h
    exact ⟨.integers rfl .num ht rfl hi, rfl⟩

/-- A sum is a scalar, whatever its operands are. -/
theorem add_isScalar (h : add l pos left right = .ok result) : result.type.isScalar := by
  unfold add at h
  simp only [Bool.and_eq_true] at h
  split at h
  · cases h
    rfl
  · split at h
    · rename_i hi
      obtain ⟨_, _, h⟩ := except_bind_ok.mp h
      cases h
      exact CType.isScalar_of_isPointer hi.2
    · split at h
      · rename_i hi
        obtain ⟨_, _, h⟩ := except_bind_ok.mp h
        cases h
        exact CType.isScalar_of_isPointer hi.1
      · cases h

/-- A difference is a scalar, whatever its operands are. -/
theorem sub_isScalar (h : sub l pos left right = .ok result) : result.type.isScalar := by
  unfold sub at h
  simp only [Bool.and_eq_true] at h
  split at h
  · cases h
    rfl
  · split at h
    · rename_i hi
      obtain ⟨_, _, h⟩ := except_bind_ok.mp h
      cases h
      exact CType.isScalar_of_isPointer hi.1
    · split at h
      · obtain ⟨_, _, h⟩ := except_bind_ok.mp h
        split at h <;> cases h <;> rfl
      · cases h

/-- The result of an operator is a scalar, whatever its operands are. -/
theorem binary_isScalar {op : BinaryOp} (h : binary l op pos left right = .ok result) :
    result.type.isScalar := by
  unfold binary at h
  cases op with
  | add => exact add_isScalar h
  | sub => exact sub_isScalar h
  | _ =>
    dsimp only at h
    split at h <;> cases h
    rfl

/-- Sums are typed, of integers as of a pointer and an integer. -/
theorem add_typed (h : add l pos left right = .ok result) (hl : Typed B n left)
    (hr : Typed B n right) : Typed B n result := by
  unfold add at h
  simp only [Bool.and_eq_true] at h
  split at h
  · rename_i hi
    cases h
    exact .integers rfl hl hr hi.1 hi.2
  · split at h
    · rename_i hi
      obtain ⟨scaled, hs, h⟩ := except_bind_ok.mp h
      obtain ⟨hs, hsi⟩ := scale_typed hs hl hi.1
      cases h
      obtain ⟨elem, helem⟩ := CType.isPointer_iff.mp hi.2
      have hf := hr.formed
      rw [helem] at hf ⊢
      exact .offset rfl hr hs hi.2 hsi hf
    · split at h
      · rename_i hi
        obtain ⟨scaled, hs, h⟩ := except_bind_ok.mp h
        obtain ⟨hs, hsi⟩ := scale_typed hs hr hi.2
        cases h
        obtain ⟨elem, helem⟩ := CType.isPointer_iff.mp hi.1
        have hf := hl.formed
        rw [helem] at hf ⊢
        exact .offset rfl hl hs hi.1 hsi hf
      · cases h

/-- Differences are typed, also the one of two pointers. -/
theorem sub_typed (h : sub l pos left right = .ok result) (hl : Typed B n left)
    (hr : Typed B n right) : Typed B n result := by
  unfold sub at h
  simp only [Bool.and_eq_true, beq_iff_eq] at h
  split at h
  · rename_i hi
    cases h
    exact .integers rfl hl hr hi.1 hi.2
  · split at h
    · rename_i hi
      obtain ⟨scaled, hs, h⟩ := except_bind_ok.mp h
      obtain ⟨hs, hsi⟩ := scale_typed hs hr hi.2
      cases h
      obtain ⟨elem, helem⟩ := CType.isPointer_iff.mp hi.1
      have hf := hl.formed
      rw [helem] at hf ⊢
      exact .offset rfl hl hs hi.1 hsi hf
    · split at h
      · rename_i hp
        obtain ⟨size, _, h⟩ := except_bind_ok.mp h
        have hd : Typed B n (.binary .sub pos left right .int) :=
          .difference hl hr hp.1 (hp.2 ▸ hp.1)
        split at h
        · cases h
          exact hd
        · cases h
          exact .integers rfl hd .num rfl rfl
      · cases h

/-- **Every binary operator gives a typed expression.** -/
theorem binary_typed {op : BinaryOp} (h : binary l op pos left right = .ok result)
    (hl : Typed B n left) (hr : Typed B n right) : Typed B n result := by
  unfold binary at h
  cases op <;> simp only at h
  case add => exact add_typed h hl hr
  case sub => exact sub_typed h hl hr
  case mul | div | rem =>
    split at h
    · rename_i hi
      rw [Bool.and_eq_true] at hi
      cases h
      exact .integers rfl hl hr hi.1 hi.2
    · cases h
  case lt | le | eq | ne =>
    split at h
    · rename_i hc
      obtain ⟨tl, tr⟩ := isScalar_of_comparable hc hl hr
      cases h
      exact .comparison rfl hl hr tl tr
    · cases h
  case and | or =>
    split at h
    · rename_i hs
      rw [Bool.and_eq_true] at hs
      cases h
      exact .logical rfl hl hr hs.1 hs.2
    · cases h
  all_goals cases h

/-- What a place holds after an assignment is a scalar. -/
theorem assign_isScalar {op : BinaryOp} (h : assign l op pos left right = .ok result) :
    result.type.isScalar := by
  unfold assign at h
  cases hp : left.isPlace with
  | false =>
    rw [hp] at h
    cases h
  | true =>
    cases hs : left.type.isScalar with
    | false =>
      simp only [hp, hs, Bool.not_true, Bool.not_false, Bool.false_eq_true, if_false, if_true] at h
      cases h
    | true =>
      simp only [hp, hs, Bool.not_true, Bool.false_eq_true, if_false] at h
      obtain ⟨value, _, h⟩ := except_bind_ok.mp h
      split at h
      · split at h <;> cases h
        exact hs
      · split at h
        · cases h
          exact hs
        · split at h
          · obtain ⟨_, _, h⟩ := except_bind_ok.mp h
            cases h
            exact hs
          · cases h

/-- **Every assignment is typed.** -/
theorem assign_typed {op : BinaryOp} (h : assign l op pos left right = .ok result)
    (ho : op.isAssign) (hl : Typed B n left) (hr : Typed B n right) :
    Typed B n result := by
  unfold assign at h
  cases hp : left.isPlace with
  | false =>
    rw [hp] at h
    cases h
  | true =>
    cases hs : left.type.isScalar with
    | false =>
      simp only [hp, hs, Bool.not_true, Bool.not_false, Bool.false_eq_true, if_false, if_true] at h
      cases h
    | true =>
      simp only [hp, hs, Bool.not_true, Bool.false_eq_true, if_false] at h
      obtain ⟨value, hv, h⟩ := except_bind_ok.mp h
      obtain ⟨hv, tv⟩ := rvalue_typed hv hr
      split at h
      · split at h
        · cases h
          exact .assign ho hl hv hp hs tv
        · cases h
      · split at h
        · cases h
          exact .assign ho hl hv hp hs tv
        · split at h
          · rename_i hi
            rw [Bool.and_eq_true] at hi
            obtain ⟨scaled, hsc, h⟩ := except_bind_ok.mp h
            obtain ⟨hsc, tsc⟩ := scale_typed hsc hv hi.2
            cases h
            exact .assign ho hl hsc hp hs (CType.isScalar_of_isInteger tsc)
          · cases h

/-! ## Arrays -/

/-- Array types are formed: each length is checked against the limit. -/
theorem arrayOf_formed {elem : CType} (hl : l.limits.arrayLength.toInt ≤ B) (he : elem.Formed B)
    {lengths : List (Int64 × Int)} {type : CType} (h : arrayOf l elem lengths = .ok type) :
    type.Formed B := by
  induction lengths generalizing type with
  | nil =>
    cases h
    exact he
  | cons d rest ih =>
    obtain ⟨inner, hi, h⟩ := except_bind_ok.mp h
    cases hv : inner.isVoid with
    | true =>
      simp only [hv, if_true] at h
      cases h
    | false =>
      simp only [hv, Bool.false_eq_true, if_false] at h
      exact (Layout.array_formed hl (ih hi) (located_ok.mp h)).2

/-! ## Arguments -/

/-- Arguments that are accepted can be assigned to the parameters one by one. -/
theorem checkArguments_ok {function : Bytes} {index : Nat} {args : List (Expr × Int)}
    {types : List CType} (hlen : args.length = types.length)
    (h : checkArguments function index args types = .ok ()) :
    List.Forall₂ (fun t a => assignable t a = true) types (args.map (·.1)) := by
  induction args generalizing index types with
  | nil =>
    rw [List.eq_nil_of_length_eq_zero hlen.symm]
    exact .nil
  | cons arg args ih =>
    cases types with
    | nil => cases hlen
    | cons type types =>
      rw [checkArguments] at h
      split at h
      · rename_i ha
        exact .cons ha (ih (Nat.succ.inj hlen) h)
      · cases h

/-! ## Refusals -/

/-- A check that refuses its operands for a cause that lies in them, if they are typed. It never
complains that the bound on the depth is used up. -/
def Fair {α : Type} (typed : Prop) (r : Checked α) : Prop :=
  ∀ c, r = .error c → c.fault ≠ .exhausted ∧ (typed → c.fault.kind ≠ .internal)

section Refusals

variable {α β : Type} {typed : Prop}

theorem Fair.ok {a : α} : Fair typed (.ok a : Checked α) :=
  fun _ h => by cases h

/-- A cause that is not in the reader. -/
theorem Fair.error {fault : Fault} (h : (fault.kind == .internal) = false) :
    Fair typed (.error ⟨fault, pos⟩ : Checked α) := by
  intro c heq
  cases heq
  have hkind := beq_eq_false_iff_ne.mp h
  exact ⟨fun hfault => hkind (congrArg Fault.kind hfault), fun _ => hkind⟩

/-- A fair rule may be followed by a fair one, which has the result of the first. -/
theorem Fair.bind {r : Checked α} {f : α → Checked β} (hr : Fair typed r)
    (hf : ∀ a, r = .ok a → Fair typed (f a)) : Fair typed (r >>= f) := by
  intro c h
  rcases except_bind_error.mp h with h | ⟨a, ha, h⟩
  · exact hr c h
  · exact hf a ha c h

/-- What a layout refuses is never the bound on the depth. -/
theorem Fair.located {x : Except Layout.Fault α}
    (h : typed → ∀ fault, x = .error fault → fault.Sensible) :
    Fair typed (Grammar.located pos x) := by
  cases x with
  | ok a => exact .ok
  | error fault =>
    intro c heq
    cases heq
    exact ⟨fun h => (nomatch h), fun htyped => h htyped fault rfl⟩

/-- Taking a value complains fairly. -/
theorem rvalue_fair : Fair typed (rvalue e) := by
  unfold rvalue
  split
  · exact .ok
  · exact .error rfl
  · exact .error rfl
  · exact .ok

/-- Looking at what a pointer points at complains fairly. -/
theorem deref_fair : Fair typed (deref pos e) := by
  unfold deref
  split
  · exact .error rfl
  · exact .error rfl
  · exact .ok

/-- Taking an address complains fairly. -/
theorem addressOf_fair : Fair typed (addressOf pos e) := by
  unfold addressOf
  split
  · exact .ok
  · exact .error rfl

/-- Selecting a member complains fairly. -/
theorem member_fair {struct : Bytes} {name : Token} :
    Fair typed (member l pos e struct name) := by
  unfold member
  split
  · exact .error rfl
  · split
    · exact .error rfl
    · exact .ok

/-- What a pointer points at is formed if the pointer is. -/
theorem deref_formed {t : CType} (ht : t.Formed B) (hp : t.isPointer) :
    (t.deref?.getD .unknown).Formed B := by
  obtain ⟨elem, rfl⟩ := CType.isPointer_iff.mp hp
  exact ht

/-- The size of what a pointer points at is asked for, and a formed type has one or the complaint is
fair. -/
theorem scale_fair {pointer : CType} (ht : typed → pointer.Formed B) (hp : pointer.isPointer) :
    Fair typed (scale l pos pointer e) := by
  refine .bind (.located fun htyped _ h => ?_) fun _ _ => ?_
  · exact Layout.size_sensible (deref_formed (ht htyped) hp) h
  · split <;> exact .ok

/-- Sums complain fairly. -/
theorem add_fair (hl : typed → Typed B n left) (hr : typed → Typed B n right) :
    Fair typed (add l pos left right) := by
  unfold add
  simp only [Bool.and_eq_true]
  split
  · exact .ok
  · split
    · rename_i hi
      exact .bind (scale_fair (fun h => (hr h).formed) hi.2) fun _ _ => .ok
    · split
      · rename_i hi
        exact .bind (scale_fair (fun h => (hl h).formed) hi.1) fun _ _ => .ok
      · exact .error rfl

/-- Differences complain fairly. -/
theorem sub_fair (hl : typed → Typed B n left) : Fair typed (sub l pos left right) := by
  unfold sub
  simp only [Bool.and_eq_true]
  split
  · exact .ok
  · split
    · rename_i hi
      exact .bind (scale_fair (fun h => (hl h).formed) hi.1) fun _ _ => .ok
    · split
      · rename_i hp
        refine .bind (.located fun htyped _ h => ?_) fun _ _ => ?_
        · exact Layout.size_sensible (deref_formed (hl htyped).formed hp.1) h
        · split <;> exact .ok
      · exact .error rfl

/-- **Every binary operator complains fairly.** -/
theorem binary_fair {op : BinaryOp} (hl : typed → Typed B n left) (hr : typed → Typed B n right) :
    Fair typed (binary l op pos left right) := by
  have node (ok : Bool) : Fair typed (if ok then .ok (.binary op pos left right .int)
      else .error ⟨.operands op left.type right.type, pos⟩ : Checked Expr) := by
    split
    · exact .ok
    · exact .error rfl
  cases op with
  | add => exact add_fair hl hr
  | sub => exact sub_fair hl
  | assign | addAssign | subAssign | unknown => exact node false
  | _ => exact node _

/-- **Every assignment complains fairly.** -/
theorem assign_fair {op : BinaryOp} (hl : typed → Typed B n left) :
    Fair typed (assign l op pos left right) := by
  have stop {α β : Type} {fault : Fault} (h : (fault.kind == .internal) = false)
      {f : α → Checked β} :
      Fair typed ((throw ⟨fault, pos⟩ : Checked α) >>= f) :=
    .bind (.error h) fun _ h => by cases h
  unfold assign
  simp only [Bool.and_eq_true]
  split
  · exact stop rfl
  · split
    · exact stop rfl
    · refine .bind rvalue_fair fun _ _ => ?_
      split
      · split
        · exact .ok
        · exact .error rfl
      · split
        · exact .ok
        · split
          · rename_i hi
            exact .bind (scale_fair (fun h => (hl h).formed) hi.1) fun _ _ => .ok
          · exact .error rfl

/-- Array types complain about their lengths. -/
theorem arrayOf_fair {elem : CType} (lengths : List (Int64 × Int)) :
    Fair typed (arrayOf l elem lengths) := by
  induction lengths with
  | nil => exact .ok
  | cons d rest ih =>
    refine .bind ih fun inner _ => ?_
    dsimp only
    split
    · exact .bind (.error rfl) fun _ h => by cases h
    · exact .located fun _ _ => Layout.array_sensible

/-- Calls complain about their arguments. -/
theorem checkArguments_fair {function : Bytes} {index : Nat} {args : List (Expr × Int)}
    {types : List CType} : Fair typed (checkArguments function index args types) := by
  induction args generalizing index types with
  | nil =>
    unfold checkArguments
    exact .ok
  | cons arg args ih =>
    cases types with
    | nil => exact .ok
    | cons type types =>
      unfold checkArguments
      split
      · exact ih
      · exact .error rfl

end Refusals

end Grammar

end DirectC
