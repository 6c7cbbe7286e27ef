/-
# Scopes are left as they were found

A statement may declare variables in blocks and loops of its own, to any depth, and may break off
anywhere in them. Behind it the scopes are what they were before it, whether it was read or not; a
declaration changes the innermost scope only, by names that are new there; and every variable gets a
number that none has had before (`Grammar.statement_restores_scopes`).

`Scope.Gains` says what happens to the scopes: which variables are declared, and which of them in
the scope that was the innermost one to begin with. It adds up over steps (`Gains.trans`), and what
is declared in a scope of its own is gone behind it, except that it is numbered (`Gains.leave`).
`Grammar.Binds` lifts this to readers, and there is one lemma for each reader of statements.
-/
import DirectC.Proofs.LexicalScoping

namespace DirectC

/-! ## Declared names -/

/-- The local names with variables declared among them, one after the other. -/
def Table.declareAll (level : Table Local) (vs : List LocalVar) : Table Local :=
  vs.foldl (fun level v => level.insert v.name ⟨v.id, v.type⟩) level

namespace Table

variable {level : Table Local} {vs ws : List LocalVar}

/-- Names may be declared in two parts. -/
theorem declareAll_append :
    level.declareAll (vs ++ ws) = (level.declareAll vs).declareAll ws :=
  List.foldl_append

/-- A name is missing if it was missing and is not declared. -/
theorem declareAll_get?_eq_none {name : Bytes} :
    (level.declareAll vs).get? name = none ↔ level.get? name = none ∧ ∀ v ∈ vs, v.name ≠ name := by
  induction vs generalizing level with
  | nil => simp [declareAll]
  | cons v vs ih =>
    change ((level.insert v.name ⟨v.id, v.type⟩).declareAll vs).get? name = none ↔ _
    rw [ih, get?_insert, List.forall_mem_cons]
    by_cases hv : v.name = name
    · simp [hv]
    · simp [hv]

/-- What holds of the old names and of the new ones holds of all. -/
theorem All.declareAll {P : Bytes → Local → Prop} (h : level.All P)
    (hvs : ∀ v ∈ vs, P v.name ⟨v.id, v.type⟩) : (level.declareAll vs).All P := by
  induction vs generalizing level with
  | nil => exact h
  | cons v vs ih =>
    obtain ⟨hv, hvs⟩ := List.forall_mem_cons.mp hvs
    exact ih (h.insert hv) hvs

end Table

namespace Scope

/-- Variables are numbered on, from the next number, and listed. -/
structure NumbersOn (sc : Scope) (vs : List LocalVar) (sc' : Scope) : Prop where
  locals : sc'.locals = sc.locals ++ vs
  ids : vs.map (·.id) = (List.range' sc.nextId vs.length).map Int.ofNat
  nextId : sc'.nextId = sc.nextId + vs.length

/-- **What is declared**: the variables `vs`, and of them `ws` in the innermost scope, where their
names are new. The scopes around it stay. -/
structure Gains (sc : Scope) (ws vs : List LocalVar) (sc' : Scope) : Prop where
  levels : ∃ inner outer, sc.levels = inner :: outer ∧ sc'.levels = inner.declareAll ws :: outer ∧
    ∀ w ∈ ws, inner.get? w.name = none
  names : (ws.map (·.name)).Nodup
  among : ws.Sublist vs
  numbers : sc.NumbersOn vs sc'

/-- **No number is given twice**: all numbers in use are below the next one, and there is a scope to
declare in. -/
structure Numbered (sc : Scope) : Prop where
  opened : sc.levels ≠ []
  bindings : ∀ level ∈ sc.levels, level.All fun _ v => v.id < (sc.nextId : Int)
  locals : ∀ v ∈ sc.locals, v.id < (sc.nextId : Int)
  distinct : (sc.locals.map (·.id)).Nodup

variable {sc sc' sc'' : Scope} {vs ws vs' ws' : List LocalVar}

theorem NumbersOn.refl (sc : Scope) : sc.NumbersOn [] sc :=
  ⟨(List.append_nil _).symm, rfl, rfl⟩

/-- Numbers go on where the ones before ended. -/
theorem NumbersOn.trans (h : sc.NumbersOn vs sc') (h' : sc'.NumbersOn vs' sc'') :
    sc.NumbersOn (vs ++ vs') sc'' where
  locals := by rw [h'.locals, h.locals, List.append_assoc]
  ids := by
    rw [List.map_append, h.ids, h'.ids, h.nextId, ← List.map_append, List.range'_append_1,
      List.length_append]
  nextId := by rw [h'.nextId, h.nextId, List.length_append, Nat.add_assoc]

/-- New numbers are those between the next number before and the next number behind. -/
theorem NumbersOn.bounds (h : sc.NumbersOn vs sc') {v : LocalVar} (hv : v ∈ vs) :
    sc.nextId ≤ v.id ∧ v.id < sc'.nextId := by
  have hid : v.id ∈ vs.map (·.id) := List.mem_map_of_mem hv
  rw [h.ids] at hid
  obtain ⟨n, hn, hid⟩ := List.mem_map.mp hid
  obtain ⟨hle, hlt⟩ := List.mem_range'_1.mp hn
  rw [← hid, h.nextId]
  exact ⟨Int.ofNat_le.mpr hle, Int.ofNat_lt.mpr hlt⟩

/-- Numbers only grow. -/
theorem NumbersOn.nextId_le (h : sc.NumbersOn vs sc') : sc.nextId ≤ sc'.nextId := by
  rw [h.nextId]
  exact Nat.le_add_right _ _

theorem Gains.refl (h : sc.levels ≠ []) : sc.Gains [] [] sc := by
  obtain ⟨inner, outer, hlevels⟩ := List.exists_cons_of_ne_nil h
  exact ⟨⟨inner, outer, hlevels, hlevels, by simp⟩, List.nodup_nil, List.Sublist.slnil, .refl sc⟩

/-- A scope stays open behind its declarations. -/
theorem Gains.opened (h : sc.Gains ws vs sc') : sc'.levels ≠ [] := by
  obtain ⟨inner, outer, -, hlevels, -⟩ := h.levels
  rw [hlevels]
  simp

/-- Declarations may follow each other. -/
theorem Gains.trans (h : sc.Gains ws vs sc') (h' : sc'.Gains ws' vs' sc'') :
    sc.Gains (ws ++ ws') (vs ++ vs') sc'' := by
  obtain ⟨inner, outer, hsc, hsc', hnew⟩ := h.levels
  obtain ⟨_, _, hsame, hsc'', hnew'⟩ := h'.levels
  obtain ⟨rfl, rfl⟩ := List.cons.inj (hsc'.symm.trans hsame)
  have hfresh (w : LocalVar) (hw : w ∈ ws') := Table.declareAll_get?_eq_none.mp (hnew' w hw)
  refine ⟨⟨inner, outer, hsc, by rw [hsc'', Table.declareAll_append], ?_⟩, ?_,
    h.among.append h'.among, h.numbers.trans h'.numbers⟩
  · exact List.forall_mem_append.mpr ⟨hnew, fun w hw => (hfresh w hw).1⟩
  · rw [List.map_append]
    refine List.nodup_append.mpr ⟨h.names, h'.names, ?_⟩
    intro name hname name' hname'
    obtain ⟨v, hv, rfl⟩ := List.mem_map.mp hname
    obtain ⟨w, hw, rfl⟩ := List.mem_map.mp hname'
    exact (hfresh w hw).2 v hv

/-- What is declared in a scope of its own is gone behind it. -/
theorem Gains.leave (h : sc.push.Gains ws vs sc') (hsc : sc.levels ≠ []) :
    sc.Gains [] vs sc'.pop := by
  obtain ⟨inner, outer, hlevels⟩ := List.exists_cons_of_ne_nil hsc
  obtain ⟨_, _, hpush, hsc', -⟩ := h.levels
  obtain ⟨-, rfl⟩ := List.cons.inj hpush
  have hpop : sc'.pop = { sc' with levels := sc.levels } := by
    rw [hlevels] at hsc' ⊢
    rw [pop, hsc']
  rw [hpop]
  exact ⟨⟨inner, outer, hlevels, hlevels, by simp⟩, List.nodup_nil, List.nil_sublist vs,
    h.numbers.locals, h.numbers.ids, h.numbers.nextId⟩

/-- A declaration succeeds if the name is new in the inner scope: it gets the next number there. -/
theorem declare?_eq_some {name : Bytes} {type : CType} {id : Int}
    (h : sc.declare? name type = some (id, sc')) :
    ∃ inner outer, sc.levels = inner :: outer ∧ inner.get? name = none ∧ id = sc.nextId ∧
      sc' = { sc with
        levels := inner.insert name ⟨id, type⟩ :: outer
        nextId := sc.nextId + 1 } := by
  unfold declare? at h
  cases hlevels : sc.levels with
  | nil =>
    rw [hlevels] at h
    cases h
  | cons inner outer =>
    rw [hlevels] at h
    dsimp only at h
    split at h
    · cases h
    · rename_i hnew
      cases h
      rw [Table.contains_eq, Option.not_isSome_iff_eq_none] at hnew
      exact ⟨inner, outer, rfl, hnew, rfl, rfl⟩

/-- A new name in the innermost scope. -/
theorem gains_declare {name : Bytes} {type : CType} {id pos : Int}
    (h : sc.declare? name type = some (id, sc')) :
    sc.Gains [⟨name, type, id, pos⟩] [⟨name, type, id, pos⟩]
      { sc' with locals := sc'.locals ++ [⟨name, type, id, pos⟩] } := by
  obtain ⟨inner, outer, hlevels, hnew, rfl, rfl⟩ := declare?_eq_some h
  exact ⟨⟨inner, outer, hlevels, rfl, by simpa using hnew⟩, by simp, List.Sublist.refl _,
    rfl, rfl, rfl⟩

/-- Variables that are numbered on get numbers that were not in use. -/
theorem Numbered.gains (hsc : sc.Numbered) (h : sc.Gains ws vs sc') : sc'.Numbered := by
  have hle := h.numbers.nextId_le
  have hnew (v : LocalVar) (hv : v ∈ vs) := h.numbers.bounds hv
  obtain ⟨inner, outer, hlevels, hlevels', -⟩ := h.levels
  have hold (level : Table Local) (hlevel : level ∈ sc.levels) :
      level.All fun _ v => v.id < (sc'.nextId : Int) := fun key v hv => by
    have := hsc.bindings level hlevel key v hv
    omega
  rw [hlevels] at hold
  refine ⟨h.opened, ?_, ?_, ?_⟩
  · rw [hlevels']
    intro level hlevel
    rcases List.mem_cons.mp hlevel with rfl | hlevel
    · exact (hold inner List.mem_cons_self).declareAll fun w hw => (hnew w (h.among.subset hw)).2
    · exact hold level (List.mem_cons_of_mem inner hlevel)
  · rw [h.numbers.locals]
    refine List.forall_mem_append.mpr ⟨fun v hv => ?_, fun v hv => (hnew v hv).2⟩
    have := hsc.locals v hv
    omega
  · rw [h.numbers.locals, List.map_append]
    refine List.nodup_append.mpr ⟨hsc.distinct, ?_, ?_⟩
    · rw [h.numbers.ids]
      exact List.Pairwise.map _ (fun _ _ => mt Int.ofNat.inj) (List.nodup_range' 1)
    · -- The old numbers are below the next one, and the new ones are not.
      intro id hid id' hid'
      obtain ⟨v, hv, rfl⟩ := List.mem_map.mp hid
      obtain ⟨w, hw, rfl⟩ := List.mem_map.mp hid'
      have := hsc.locals v hv
      have := hnew w hw
      omega

end Scope

namespace Grammar

/-! ## Readers that declare -/

/-- Where a reader may declare variables. -/
inductive Extent where
  /-- In scopes of its own only. -/
  | inside
  /-- In the innermost scope only. -/
  | here
  | anywhere

/-- Of the variables `vs`, the variables `ws` are declared in the innermost scope. -/
def Extent.Admits (ws vs : List LocalVar) : Extent → Prop
  | .inside => ws = []
  | .here => ws = vs
  | .anywhere => True

variable {e : Extent} {α β : Type} {x : Read α} {f : α → Read β}

theorem Extent.admits_nil : e.Admits [] [] := by
  cases e with
  | inside | here => rfl
  | anywhere => trivial

/-- What is admitted in two parts is admitted in a row. -/
theorem Extent.Admits.append {ws vs ws' vs' : List LocalVar} (h : e.Admits ws vs)
    (h' : e.Admits ws' vs') : e.Admits (ws ++ ws') (vs ++ vs') := by
  cases e with
  | inside =>
    obtain rfl : ws = [] := h
    exact h'
  | here =>
    obtain rfl : ws = vs := h
    obtain rfl : ws' = vs' := h'
    rfl
  | anywhere => trivial

/-- **A reader declares variables** where it may, whether it succeeds or fails. -/
def Binds (e : Extent) (x : Read α) : Prop :=
  ∀ s : Reading, s.scope.levels ≠ [] →
    ∃ ws vs, e.Admits ws vs ∧ s.scope.Gains ws vs (behind (x s)).scope

/-- Types and expressions declare nothing. -/
theorem Binds.of_keeps (h : Keeps .expression x) : Binds e x := by
  intro s hs
  have hscope : (behind (x s)).scope = s.scope := Reading.Trail.scopes (h s)
  rw [hscope]
  exact ⟨[], [], Extent.admits_nil, .refl hs⟩

/-- Readers that declare may follow each other. -/
theorem Binds.bind (hx : Binds e x) (hf : ∀ a, Binds e (f a)) : Binds e (x >>= f) := by
  intro s hs
  obtain ⟨ws, vs, hadmits, hgains⟩ := hx s hs
  cases hxs : x s with
  | error c t =>
    rw [hxs] at hgains
    rw [run_bind_of_error hxs]
    exact ⟨ws, vs, hadmits, hgains⟩
  | ok a t =>
    rw [hxs] at hgains
    obtain ⟨ws', vs', hadmits', hgains'⟩ := hf a t hgains.opened
    rw [run_bind_of_ok hxs]
    exact ⟨_, _, hadmits.append hadmits', hgains.trans hgains'⟩

/-- A reader of expressions in front declares nothing. -/
theorem Binds.step (hx : Keeps .expression x) (hf : ∀ a, Binds e (f a)) : Binds e (x >>= f) :=
  .bind (.of_keeps hx) hf

theorem Binds.pure {a : α} : Binds e (Pure.pure a) :=
  .of_keeps .pure

/-- Declaring in the scope around, or in scopes inside, is declaring somewhere. -/
theorem Binds.anywhere (hx : Binds e x) : Binds .anywhere x := by
  intro s hs
  obtain ⟨ws, vs, -, hgains⟩ := hx s hs
  exact ⟨ws, vs, trivial, hgains⟩

/-- **Whatever is declared in a scope of its own is gone behind it.** -/
theorem inScope_binds (hx : Binds .anywhere x) : Binds .inside (inScope x) := by
  intro s hs
  obtain ⟨ws, vs, -, hgains⟩ := hx { s with scope := s.scope.push } (by simp [Scope.push])
  refine ⟨[], vs, rfl, ?_⟩
  unfold inScope
  cases hr : x { s with scope := s.scope.push } with
  | error c t | ok a t =>
    rw [hr] at hgains
    exact hgains.leave hs

/-! ## Declarations -/

/-- A local variable is declared in the scope around. -/
theorem declareLocal_binds {type : CType} {name : Token} :
    Binds .here (declareLocal type name) := by
  intro s hs
  obtain ⟨c, hc⟩ | ⟨_, id, sc, _, _, hd, hok⟩ := declareLocal_cases type name s
  · rw [hc]
    exact ⟨[], [], rfl, .refl hs⟩
  · rw [hok]
    exact ⟨_, _, rfl, Scope.gains_declare hd⟩

/-- The variables of a row of declarators are declared in the scope around. -/
theorem declarators_binds {base : CType} {fuel : Nat} : Binds .here (declarators base fuel) := by
  induction fuel with
  | zero => exact .of_keeps exhausted_keeps
  | succ fuel ih =>
    refine .step declarator_keeps fun d => .bind declareLocal_binds fun _ =>
      .step initializer_keeps fun _ => .step accept_keeps fun _ => ?_
    split
    · exact .bind ih fun _ => .pure
    · exact .step expect_keeps fun _ => .pure

/-- The variables of a declaration are declared in the scope around. -/
theorem declaration_binds (fuel : Nat) : Binds .here (declaration fuel) := by
  refine .step baseType_keeps fun _ => .step accept_keeps fun _ => ?_
  split
  · exact .pure
  · exact declarators_binds

/-! ## Statements -/

/-- The beginning of a loop declares in the scope around it, which is that of the loop. -/
theorem forStart_binds {fuel : Nat} : Binds .here (forStart fuel) := by
  refine .step .look fun _ => ?_
  split
  · exact declaration_binds fuel
  · refine .step accept_keeps fun _ => ?_
    split
    · exact .pure
    · exact .step effectStatement_keeps fun _ => .pure

/-- Both readers go by one induction on the fuel. A statement opens a scope for whatever declares
something in it, so it declares nothing in the scope that it stands in. -/
theorem statement_blockItems_binds (ret : CType) (fuel : Nat) :
    Binds .inside (statement ret fuel) ∧ Binds .anywhere (blockItems ret fuel) := by
  induction fuel with
  | zero =>
    rw [statement, blockItems]
    exact ⟨.of_keeps exhausted_keeps, .of_keeps exhausted_keeps⟩
  | succ fuel ih =>
    -- Statements only declare inside scopes of their own, and blocks are what opens them.
    obtain ⟨ihs, ihb⟩ := ih
    constructor
    · rw [statement]
      refine .step .look fun _ => ?_
      split
      · exact .step next_keeps fun _ => .bind (inScope_binds ihb) fun _ => .pure
      · exact .step next_keeps fun _ => .pure
      · exact .step next_keeps fun _ => .of_keeps returnStatement_keeps
      · exact .step next_keeps fun _ => .of_keeps exitStatement_keeps
      · refine .step next_keeps fun _ => .step condition_keeps fun _ => .bind ihs fun _ =>
          .step .look fun _ => ?_
        split
        · exact .step next_keeps fun _ => .bind ihs fun _ => .pure
        · exact .pure
      · exact .step next_keeps fun _ => .step condition_keeps fun _ => .bind ihs fun _ => .pure
      · refine .step next_keeps fun _ => .step expect_keeps fun _ => inScope_binds ?_
        exact .bind forStart_binds.anywhere fun _ => .step forCondition_keeps fun _ =>
          .step forUpdate_keeps fun _ => .bind ihs.anywhere fun _ => .pure
      · exact .of_keeps effectStatement_keeps
    · rw [blockItems]
      refine .step .look fun _ => ?_
      split
      · exact .step next_keeps fun _ => .pure
      · exact .of_keeps unexpected_keeps
      · dsimp only
        split
        · exact .bind (declaration_binds _).anywhere fun _ => .bind ihb fun _ => .pure
        · exact .bind ihs.anywhere fun _ => .step .pure fun _ => .bind ihb fun _ => .pure

/-- Behind the parameters of a function, all of them are numbered. -/
theorem Enrolled.numbered {ps : List Param} {sc : Scope} (h : Enrolled ⟨[], []⟩ {} ps sc) :
    sc.Numbered := by
  have hlocals : sc.locals = [] := h.locals
  obtain ⟨level, hlevel, hlevels⟩ : ∃ level, Bindings.Held (ps.map (·.toStackVar)) level ∧
      sc.levels = [level] := by
    have hagrees := h.agrees
    unfold Bindings.Agrees at hagrees
    obtain ⟨level, outer, hheld, houter, hlevels⟩ := List.forall₂_cons_left_iff.mp hagrees
    rw [List.forall₂_nil_left_iff.mp houter] at hlevels
    exact ⟨level, hheld, hlevels⟩
  refine ⟨by simp [hlevels], ?_, by simp [hlocals], by simp [hlocals]⟩
  intro l hl name v hv
  rw [hlevels, List.mem_singleton] at hl
  obtain ⟨p, hp, hpv⟩ := List.mem_map.mp ((hlevel name v).mp (hl ▸ hv))
  have hid : v.id ∈ ps.map (·.id) := by
    rw [show v.id = p.id from (congrArg StackVar.id hpv).symm]
    exact List.mem_map_of_mem hp
  rw [h.ids] at hid
  obtain ⟨n, hn, hnid⟩ := List.mem_map.mp hid
  rw [← hnid, h.nextId]
  exact Int.ofNat_lt.mpr (List.mem_range'_1.mp hn).2

/-- **Reading leaves the scopes as they were.** Inside a function a statement, read or broken off at
any point, leaves the scopes that are open and what is in them. A declaration, read or broken off,
changes the innermost scope only, by variables with different names that were not in it. Either
way variables get the next numbers one by one, and none that has been given in the function, to a
variable or to a parameter. -/
theorem statement_restores_scopes :
    (∀ ret fuel (s : Reading), s.scope.levels ≠ [] →
      (behind (statement ret fuel s)).scope.levels = s.scope.levels ∧
        ∃ vs, s.scope.NumbersOn vs (behind (statement ret fuel s)).scope) ∧
    (∀ fuel (s : Reading) inner outer, s.scope.levels = inner :: outer →
      ∃ vs, (behind (declaration fuel s)).scope.levels = inner.declareAll vs :: outer ∧
        (∀ v ∈ vs, inner.get? v.name = none) ∧ (vs.map (·.name)).Nodup ∧
        s.scope.NumbersOn vs (behind (declaration fuel s)).scope) ∧
    (∀ s : Reading, s.scope.Numbered →
      (∀ ret fuel, (behind (statement ret fuel s)).scope.Numbered) ∧
        ∀ fuel, (behind (declaration fuel s)).scope.Numbered) ∧
    ∀ fuel (s : Reading) ps t, s.scope = {} → parameters fuel true s = .ok ps t →
      t.scope.Numbered := by
  refine ⟨fun ret fuel s hs => ?_, fun fuel s inner outer hs => ?_, fun s hs => ⟨fun ret fuel => ?_,
    fun fuel => ?_⟩, fun fuel s ps t hs h => ?_⟩
  · -- A statement admits no variable in the scope around, so its level is the same behind.
    obtain ⟨_, vs, rfl, hgains⟩ := (statement_blockItems_binds ret fuel).1 s hs
    obtain ⟨inner, outer, hlevels, hlevels', -⟩ := hgains.levels
    exact ⟨hlevels'.trans hlevels.symm, vs, hgains.numbers⟩
  · obtain ⟨_, vs, rfl, hgains⟩ := declaration_binds fuel s (by simp [hs])
    obtain ⟨_, _, hlevels, hlevels', hnew⟩ := hgains.levels
    obtain ⟨rfl, rfl⟩ := List.cons.inj (hs.symm.trans hlevels)
    exact ⟨_, hlevels', hnew, hgains.names, hgains.numbers⟩
  · obtain ⟨_, _, -, hgains⟩ := (statement_blockItems_binds ret fuel).1 s hs.opened
    exact hs.gains hgains
  · obtain ⟨_, _, -, hgains⟩ := declaration_binds fuel s hs.opened
    exact hs.gains hgains
  · have hempty : Bindings.Agrees ⟨[], []⟩ s.scope := by
      rw [hs]
      exact .cons (by simp [Bindings.Held]) .nil
    have henrolled := (parameters_declared h).enrolled hempty
    rw [hs] at henrolled
    exact henrolled.numbered

/-- A loop with a variable of its own, and a block in it that breaks off behind a second one. -/
def brokenLoop : Reading :=
  { Reading.start "for (int i = 0;;) \x7b char i; \x7b int k = 1; k = ; \x7d \x7d" (.empty {}) with
    scope := { levels := [(∅ : Table Local).insert "i" ⟨0, .int⟩], nextId := 1 } }

theorem statement_restores_scopes_brokenLoop :
    ((statement .int brokenLoop.budget).run' brokenLoop).isNone ∧
      (behind (statement .int brokenLoop.budget brokenLoop)).scope.levels =
        brokenLoop.scope.levels ∧
      (behind (statement .int brokenLoop.budget brokenLoop)).scope.locals.map (·.id) =
        [1, 2, 3] :=
  ⟨by decide +kernel, (statement_restores_scopes.1 .int brokenLoop.budget brokenLoop (by decide)).1,
    by decide +kernel⟩

end Grammar

end DirectC
