/-
# Contexts that answer more

A function is lowered against a context, which it asks for sizes, slots, addresses and limits. What
comes about in one context comes about in every context that gives the same answers to the
questions that were answered there, and has limits that are no narrower.
-/
import DirectC.Proofs.Limits
import DirectC.Proofs.Lowering.Derivation

namespace DirectC

/-- A layout that gives every answer of another one. -/
structure Layout.Covers (l' l : Layout) : Prop where
  size : ∀ {type n}, l.size type = .ok n → l'.size type = .ok n
  alignment : ∀ {type n}, l.alignment type = .ok n → l'.alignment type = .ok n

/-- A slot is the same under a layout that covers. -/
theorem Layout.Covers.slot {l l' : Layout} (hl : l'.Covers l) {f : Frame} {id : Int}
    {type : CType} {r : Int32 × Frame} (h : f.slot l id type = .ok r) :
    f.slot l' id type = .ok r := by
  rcases Frame.slot_ok.mp h with hsome | ⟨hnone, size, align, hs, ha, hr⟩
  · exact Frame.slot_ok.mpr (.inl hsome)
  · exact Frame.slot_ok.mpr (.inr ⟨hnone, size, align, hl.size hs, hl.alignment ha, hr⟩)

/-- A layout under wider limits. -/
theorem Layout.covers_withLimits {l : Layout} {d : Limits} (hd : l.limits.Within d) :
    (l.withLimits d).Covers l where
  size h := size_within h hd
  alignment h := by
    rw [alignment_withLimits]
    exact h

/-- Without structs, the limits are all that a layout knows. -/
theorem Layout.covers_of_no_structs {l l' : Layout} (hl : l'.limits = l.limits)
    (hnone : ∀ name, l.struct? name = none) : l'.Covers l := by
  have hb : ∀ type size, l'.bounded type size = l.bounded type size := fun _ _ => by
    simp only [bounded, hl]
  refine ⟨fun {type n} h => ?_, fun {type n} h => ?_⟩
  · induction type generalizing n with
    | struct name => simp [Layout.size, hnone] at h
    | array elem length ih =>
      obtain ⟨k, hk, h⟩ := except_bind_ok.mp h
      exact except_bind_ok.mpr ⟨k, ih hk, (hb _ _).trans h⟩
    | unknown => cases h
    | int | char | void | pointer elem => exact (hb _ _).trans h
  · induction type generalizing n with
    | struct name => simp [Layout.alignment, hnone] at h
    | array elem length ih => exact ih h
    | unknown => cases h
    | int | char | void | pointer elem => exact h

namespace Lowering

/-- A context that gives every answer of another one. -/
structure Context.Covers (c' c : Context) : Prop where
  layout : c'.layout.Covers c.layout
  branch : c.limits.branch ≤ c'.limits.branch
  registerArgs : c.limits.registerArgs ≤ c'.limits.registerArgs
  functions : ∀ {name a}, c.symbols.functions.get? name = some a →
    c'.symbols.functions.get? name = some a
  globals : ∀ {name a}, c.symbols.globals.get? name = some a →
    c'.symbols.globals.get? name = some a
  strings : ∀ {index a}, stringAt? c.symbols.strings index = some a →
    stringAt? c'.symbols.strings index = some a

variable {c c' : Context}

/-- What is within reach stays so. -/
theorem Context.Covers.reach {disp : Int} (hc : c'.Covers c) (h : Reach c disp) :
    Reach c' disp := by
  have hle := Int64.le_iff_toInt_le.mp hc.branch
  unfold Reach at h ⊢
  omega

theorem Context.Covers.count {count : Nat} (hc : c'.Covers c)
    (h : count ≤ c.limits.registerArgs.toInt) : count ≤ c'.limits.registerArgs.toInt :=
  Int.le_trans h (Int64.le_iff_toInt_le.mp hc.registerArgs)

/-- What is returned is taken in the same way. -/
theorem Context.Covers.takes {type : CType} {code : Code} (hc : c'.Covers c)
    (h : Takes c type code) : Takes c' type code := by
  unfold Takes at h ⊢
  split at h
  · rw [if_pos ‹_›]
    exact h
  · rw [if_neg ‹_›]
    obtain ⟨n, hn, rfl⟩ := h
    exact ⟨n, hc.layout.size hn, rfl⟩

/-- **Code that comes about in a context** comes about in every context that covers it. -/
theorem Emits.covers {job : Job} {st st' : State} {code : Code} (h : Emits c job st code st')
    (hc : c'.Covers c) : Emits c' job st code st' := by
  -- The context matters to sizes, slots, addresses, jumps and the number of arguments; other rules
  -- hold as they are.
  induction h with
  | num ht => exact .num ht
  | localAddress hs => exact .localAddress (hc.layout.slot hs)
  | globalAddress hg => exact .globalAddress (hc.globals hg)
  | str hs => exact .str (hc.strings hs)
  | derefAddress _ ih => exact .derefAddress ih
  | array hp ht _ ih => exact .array hp ht ih
  | load hp ht _ hn hw ih => exact .load hp ht ih (hc.layout.size hn) hw
  | decay ht _ ih => exact .decay ht ih
  | addr ht _ ih => exact .addr ht ih
  | assign ho ht _ _ hn hw ihl ihr => exact .assign ho ht ihl ihr (hc.layout.size hn) hw
  | logical ho ht _ _ hs hg ihl ihr =>
    exact .logical ho ht ihl ihr (hc.reach hs) (hc.reach hg)
  | arithmetic ho ht _ _ ihl ihr => exact .arithmetic ho ht ihl ihr
  | call ht hk hk' hf _ hr ih =>
    exact .call ht (hc.count hk) hk' (hc.functions hf) ih (hc.takes hr)
  | argsNil => exact .argsNil
  | argsCons _ _ ihr iha => exact .argsCons ihr iha
  | eval _ ih => exact .eval ih
  | retNone => exact .retNone
  | retSome _ ih => exact .retSome ih
  | exit _ ih => exact .exit ih
  | ifThen _ _ hg ihc ihy => exact .ifThen ihc ihy (hc.reach hg)
  | ifElse _ _ _ hs hg ihc ihy ihn => exact .ifElse ihc ihy ihn (hc.reach hs) (hc.reach hg)
  | loop _ _ hg hk ihc ihb => exact .loop ihc ihb (hc.reach hg) (hc.reach hk)
  | block _ ih => exact .block ih
  | stmtsNil => exact .stmtsNil
  | stmtsCons _ _ ihs ihr => exact .stmtsCons ihs ihr

/-- Parameters are stored in the same way. -/
theorem storeParams_covers {ps : List (Param × Register)} {st : State} {r : Code × State}
    (h : storeParams c ps st = .ok r) (hl : c'.layout.Covers c.layout) :
    storeParams c' ps st = .ok r := by
  induction ps generalizing st r with
  | nil => exact h
  | cons p ps ih =>
    obtain ⟨offset, frame, n, w, later, st1, hs, hn, hw, hlater, rfl⟩ := storeParams_cons_ok.mp h
    exact storeParams_cons_ok.mpr ⟨offset, frame, n, w, later, st1, hl.slot hs, hl.size hn, hw,
      ih hlater, rfl⟩

/-- A function that has code in a context has it in every context that covers it. -/
theorem function_covers {f : Function} {layout layout' : Layout} {limits limits' : Limits}
    {symbols symbols' : Symbols} {code : Code} (h : function f layout limits symbols = .ok code)
    (hc : Context.Covers ⟨layout', limits', symbols', f.pos⟩ ⟨layout, limits, symbols, f.pos⟩) :
    function f layout' limits' symbols' = .ok code := by
  obtain ⟨inner, st, hb, rfl⟩ := function_ok.mp h
  obtain ⟨params, st0, body, st1, hk, hk', hp, hs, heq⟩ := body_ok.mp hb
  have hbody : Emits _ (.stmts (f.body.getD [])) st0 body st1 := emits_iff.mpr hs
  exact function_ok.mpr ⟨inner, st, body_ok.mpr ⟨params, st0, body, st1, hc.count hk, hk',
    storeParams_covers hp hc.layout, (hbody.covers hc).lower_eq, heq⟩, rfl⟩

end Lowering

end DirectC
