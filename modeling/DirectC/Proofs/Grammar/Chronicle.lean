/-
# Layouts and variables

A variable is declared under the layout of a moment, which the log keeps. `Reading.Stood` says that
a layout stood at some moment between two states, when a type was known. The variables that a body
declares and the layouts that it logs go in step (`Reading.Trail.notes`), and so do parameters
(`Declared.notes`), so that every layout in an event stood while the text was read
(`Event.Stands`). What holds behind some events was there before or comes from one of them
(`replay_origin`).
-/
import DirectC.Proofs.Grammar.Keeping

namespace DirectC

namespace Grammar

/-! ## Layouts that stood -/

namespace Reading

variable {k : Layer} {s t u : Reading} {type : CType} {l : Layout}

/-- The layout that a variable was declared under, somewhere between two states. -/
def Stood (s s' : Reading) (type : CType) (l : Layout) : Prop :=
  ∃ t, s.Trail .file t ∧ t.Trail .file s' ∧ t.env.layout = l ∧ l.Knows type

/-- A layout that stood on a part of the way stood on the whole way. -/
theorem Stood.before (h : Stood t u type l) (hs : s.Trail .file t) : Stood s u type l := by
  obtain ⟨m, hm, hu, hl, hk⟩ := h
  exact ⟨m, hs.trans hm, hu, hl, hk⟩

/-- A layout that stood on a part of the way stood when the way goes on. -/
theorem Stood.after (h : Stood s t type l) (hu : t.Trail .file u) : Stood s u type l := by
  obtain ⟨m, hm, ht, hl, hk⟩ := h
  exact ⟨m, hm, ht.trans hu, hl, hk⟩

/-- **A layout agrees with a later one** on a type whose structs have no two bodies. -/
theorem Stood.size_alignment (h : Stood s u type l) (hnone : ∀ n, s.env.layout.struct? n = none)
    (honce : ∀ n ∈ type.structs, s.bodies.count n ≤ 1) :
    u.env.layout.size type = l.size type ∧ u.env.layout.alignment type = l.alignment type := by
  obtain ⟨t, hst, htu, rfl, hk⟩ := h
  obtain ⟨first, ht⟩ := hst.reaches
  obtain ⟨second, hu⟩ := htu.reaches
  refine Layout.size_alignment_congr hu.limits fun n hn => hu.others n fun hsecond => ?_
  -- The struct is known by now, so a body has been read already; another one would be the second.
  have hfirst : n ∈ first := by
    by_contra hfirst
    obtain ⟨d, hd⟩ := hk n hn
    rw [ht.others n hfirst, hnone n] at hd
    cases hd
  have hcount := honce n hn
  rw [ht.ahead, hu.ahead, List.count_append, List.count_append] at hcount
  have := List.count_pos_iff.mpr hfirst
  have := List.count_pos_iff.mpr hsecond
  omega

/-! ## Local variables -/

/-- Local variables and layouts in the log go in step from one state to another. -/
def Notes (s t : Reading) : Prop :=
  ∃ vs ls, t.scope.locals = s.scope.locals ++ vs ∧ t.log.locals = s.log.locals ++ ls ∧
    List.Forall₂ (fun (v : LocalVar) l => Stood s t v.type l) vs ls

/-- Nothing is declared. -/
theorem Notes.quiet (hlocals : t.scope.locals = s.scope.locals)
    (hlog : t.log.locals = s.log.locals) : s.Notes t :=
  ⟨[], [], by rw [hlocals, List.append_nil], by rw [hlog, List.append_nil], .nil⟩

/-- Local variables may be noted in two parts. -/
theorem Notes.trans (h : s.Notes t) (h' : t.Notes u) (hst : s.Trail .file t)
    (htu : t.Trail .file u) : s.Notes u := by
  obtain ⟨vs, ls, hlocals, hlog, hstood⟩ := h
  obtain ⟨vs', ls', hlocals', hlog', hstood'⟩ := h'
  refine ⟨vs ++ vs', ls ++ ls', ?_, ?_, ?_⟩
  · rw [hlocals', hlocals, List.append_assoc]
  · rw [hlog', hlog, List.append_assoc]
  · exact List.rel_append (hstood.imp fun _ _ h => h.after htu)
      (hstood'.imp fun _ _ h => h.before hst)

/-- A variable is declared under the layout of the moment. -/
theorem Notes.inner {sc : Scope} {v : LocalVar} (hlocals : sc.locals = t.scope.locals)
    (hknown : t.env.layout.Knows v.type) : t.Notes (t.withLocal sc v) := by
  have htrail : t.Trail .file (t.withLocal sc v) :=
    .inner Layer.file_bodies (.refl t) hlocals hknown
  refine ⟨[v], [t.env.layout], congrArg (· ++ [v]) hlocals, rfl, .cons ?_ .nil⟩
  exact ⟨t, .refl t, htrail, rfl, hknown⟩

/-- **What a body logs** are the layouts that its variables were declared under. -/
theorem Trail.notes (hk : k ≠ .file) (h : s.Trail k t) : s.Notes t := by
  induction h with
  | refl s => exact .quiet rfl rfl
  | next h ih =>
    exact ih.trans (.quiet (by rw [rest_scope]) (by rw [rest_log])) h.inFile (.next (.refl _))
  | intern h value ih => exact ih.trans (.quiet rfl rfl) h.inFile (.intern (.refl _) value)
  | @struct _ t u _ _ _ h hkeyword hname hbrace hbody hfields hl ih =>
    -- The members of a struct declare no variables.
    have hquiet : t.rest.rest.rest.Trail .expression u := members_keeps.trail hfields
    have hdefine := Trail.struct (.refl _) hkeyword hname hbrace hbody.inFile hfields hl
    exact ih.trans (.quiet (by simp [hquiet.scopes]) (by simp [hquiet.logs])) h.inFile hdefine
  | scope hk' h hlocals ih =>
    exact ih.trans (.quiet hlocals rfl) h.inFile (.scope Layer.file_bodies (.refl _) hlocals)
  | inner hk' h hlocals hknown ih =>
    exact ih.trans (.inner hlocals hknown) h.inFile
      (.inner Layer.file_bodies (.refl _) hlocals hknown)
  | param hk' h hlocals ih =>
    exact ih.trans (.quiet hlocals rfl) h.inFile (.param Layer.file_heads (.refl _) hlocals)
  | enter hfile => exact absurd hfile hk
  | declare hfile => exact absurd hfile hk

/-- A body declares no parameters. -/
theorem Trail.params (hk : ¬ k.Heads) (h : s.Trail k t) : t.log.params = s.log.params := by
  induction h with
  | refl s => rfl
  | next _ ih => rw [rest_log, ih]
  | intern _ _ ih | scope _ _ _ ih | inner _ _ _ _ ih => exact ih
  | struct _ _ _ _ _ _ _ ih ihbody =>
    rw [rest_log, rest_log, rest_log] at ihbody
    exact ihbody.trans ih
  | param hheads => exact absurd hheads hk
  | enter hfile => exact absurd (.inr hfile) hk
  | declare hfile => exact absurd (.inr hfile) hk

/-- A heading declares no local variables. -/
theorem Trail.locals (hk : ¬ k.Bodies) (h : s.Trail k t) :
    t.scope.locals = s.scope.locals ∧ t.log.locals = s.log.locals := by
  induction h with
  | refl s => exact ⟨rfl, rfl⟩
  | next _ ih => rwa [rest_scope, rest_log]
  | intern _ _ ih => exact ih
  | struct _ _ _ _ _ _ _ ih ihbody =>
    simp only [rest_scope, rest_log] at ihbody
    exact ⟨ihbody.1.trans ih.1, ihbody.2.trans ih.2⟩
  | param _ _ hlocals ih => exact ⟨hlocals.trans ih.1, ih.2⟩
  | scope hbodies => exact absurd hbodies hk
  | inner hbodies => exact absurd hbodies hk
  | enter hfile => exact absurd (.inr hfile) hk
  | declare hfile => exact absurd (.inr hfile) hk

end Reading

open Reading

/-! ## Parameters -/

section Parameters

variable {fuel : Nat} {s t : Reading}

/-- A parameter is a scalar whose name is new. -/
theorem parameter_ok {p : Param} (h : parameter fuel s = .ok p t) :
    ∃ u sc, s.Trail .expression u ∧ u.scope.declare? p.name p.type = some (p.id, sc) ∧
      t = u.withParam sc ∧ p.type.structs = [] := by
  obtain ⟨k, _, hk, h⟩ := run_bind_ok.mp h
  cases hk
  dsimp only at h
  split at h
  · exact absurd h unexpected_bind_ne
  · obtain ⟨base, v, hb, h⟩ := run_bind_ok.mp h
    obtain ⟨⟨type, name⟩, u, hd, h⟩ := run_bind_ok.mp h
    have hsu : s.Trail .expression u := (baseType_keeps.trail hb).trans (declarator_keeps.trail hd)
    have hdecay : ∀ elem length, type.decay ≠ .array elem length := by
      cases type <;> simp [CType.decay]
    dsimp only at h
    -- All types that are left after decay go the same way, but the reader tells them apart.
    have hadd : ∀ scalar : CType, addParameter scalar name u = .ok p t → scalar.structs = [] →
        ∃ u sc, s.Trail .expression u ∧ u.scope.declare? p.name p.type = some (p.id, sc) ∧
          t = u.withParam sc ∧ p.type.structs = [] := by
      intro scalar h hscalar
      cases hdeclare : u.scope.declare? name.literal scalar with
      | none => cases (run_addParameter_none hdeclare).symm.trans h
      | some r =>
        cases (run_addParameter_some hdeclare).symm.trans h
        exact ⟨u, r.2, hsu, hdeclare, rfl, hscalar⟩
    generalize type.decay = scalar at h hdecay
    cases scalar with
    | void | struct n => cases h
    | array elem length => exact absurd rfl (hdecay elem length)
    | int | char | unknown | pointer elem => exact hadd _ h rfl

/-- **Parameters one by one**, each declared behind tokens that declare nothing. -/
inductive Declared : Reading → List Param → Reading → Prop where
  | nil {s t : Reading} (h : s.Trail .expression t) : Declared s [] t
  | cons {s u t : Reading} {p : Param} {ps : List Param} {sc : Scope} (hsu : s.Trail .expression u)
    (hd : u.scope.declare? p.name p.type = some (p.id, sc)) (hscalar : p.type.structs = [])
    (h : Declared (u.withParam sc) ps t) : Declared s (p :: ps) t

/-- Parameters are declared in their order. -/
theorem parameters_declared {first : Bool} {ps : List Param}
    (h : parameters fuel first s = .ok ps t) : Declared s ps t := by
  induction fuel generalizing first ps s with
  | zero => cases h
  | succ fuel ih =>
    have hcons : ∀ {u : Reading}, s.Trail .expression u →
        (do let p ← parameter fuel; return p :: (← parameters fuel false)) u = .ok ps t →
        Declared s ps t := by
      intro u hsu h
      obtain ⟨p, v, hp, h⟩ := run_bind_ok.mp h
      obtain ⟨ps, w, hps, h⟩ := run_bind_ok.mp h
      cases h
      obtain ⟨u', sc, huu', hd, rfl, hscalar⟩ := parameter_ok hp
      exact .cons (hsu.trans huu') hd hscalar (ih hps)
    obtain ⟨close, u, ha, h⟩ := run_bind_ok.mp h
    have hsu : s.Trail .expression u := accept_keeps.trail ha
    split at h
    · cases h
      exact .nil hsu
    · dsimp only at h
      split at h
      · obtain ⟨_, v, hv, h⟩ := run_bind_ok.mp h
        exact hcons (hsu.trans (expect_keeps.trail hv)) h
      · exact hcons hsu h

/-- Declaring parameters is a trail. -/
theorem Declared.trail {ps : List Param} (h : Declared s ps t) : s.Trail .file t := by
  induction h with
  | nil h => exact h.inFile
  | cons hsu hd _ _ ih =>
    exact .trans (.param Layer.file_heads hsu.inFile (Scope.locals_declare? hd)) ih

/-- **Parameters and layouts in the log go in step.** -/
theorem Declared.notes {ps : List Param} (h : Declared s ps t) :
    ∃ ls, t.log.params = s.log.params ++ ls ∧
      List.Forall₂ (fun (p : Param) l => Stood s t p.type l) ps ls := by
  induction h with
  | nil h => exact ⟨[], by rw [h.logs, List.append_nil], .nil⟩
  | @cons s u t p ps sc hsu hd hscalar h ih =>
    obtain ⟨ls, hlogs, hstood⟩ := ih
    have hparam : u.Trail .file (u.withParam sc) :=
      .param Layer.file_heads (.refl u) (Scope.locals_declare? hd)
    refine ⟨u.env.layout :: ls, ?_, .cons ?_ ?_⟩
    · rw [hlogs, ← hsu.logs]
      exact List.append_assoc _ [u.env.layout] ls
    · exact ⟨u, hsu.inFile, hparam.trans h.trail, rfl, by simp [Layout.Knows, hscalar]⟩
    · exact hstood.imp fun _ _ h => h.before (hsu.inFile.trans hparam)

end Parameters

/-! ## Events -/

namespace Event

variable {s t u : Reading} {e : Event}

/-- The layouts in an event stood between two states, and a global variable has a size under its
own. -/
def Stands (s s' : Reading) : Event → Prop
  | .global g l => Stood s s' g.type l ∧ ∃ n, l.size g.type = .ok n
  | .declared _ => True
  | .defined f ps ls =>
    List.Forall₂ (fun p l => Stood s s' p.type l) f.params ps ∧
      List.Forall₂ (fun v l => Stood s s' v.type l) f.locals ls

/-- What an event stands for stands on a longer way. -/
theorem Stands.before (h : e.Stands t u) (hs : s.Trail .file t) : e.Stands s u := by
  cases e with
  | global g l => exact ⟨h.1.before hs, h.2⟩
  | declared _ => trivial
  | defined f ps ls =>
    exact ⟨h.1.imp fun _ _ h => h.before hs, h.2.imp fun _ _ h => h.before hs⟩

/-- What an event stands for stands when the way goes on. -/
theorem Stands.after (h : e.Stands s t) (hu : t.Trail .file u) : e.Stands s u := by
  cases e with
  | global g l => exact ⟨h.1.after hu, h.2⟩
  | declared _ => trivial
  | defined f ps ls => exact ⟨h.1.imp fun _ _ h => h.after hu, h.2.imp fun _ _ h => h.after hu⟩

end Event

/-! ## Replaying events -/

section Replay

variable {env : Env} {es : List Event}

/-- What holds after some events and not before them comes from one of them. -/
theorem replay_origin {P : Env → Prop} {Q : Event → Prop} (h : P (replay env es))
    (hstep : ∀ env e, P (e.apply env) → P env ∨ Q e) : P env ∨ ∃ e ∈ es, Q e := by
  induction es generalizing env with
  | nil => exact .inl h
  | cons e es ih =>
    rcases ih h with h | ⟨e', he, hq⟩
    · exact (hstep env e h).imp_right fun hq => ⟨e, List.mem_cons_self, hq⟩
    · exact .inr ⟨e', List.mem_cons_of_mem _ he, hq⟩

/-- A function was there before, or an event defined it. -/
theorem mem_functions_replay {f : Function} (h : f ∈ (replay env es).functions) :
    f ∈ env.functions ∨ ∃ ps ls, .defined f ps ls ∈ es := by
  have horigin := replay_origin (P := (f ∈ ·.functions)) (Q := (∃ ps ls, · = .defined f ps ls)) h
    fun env e h => by
      cases e with
      | global g l => exact .inl h
      | declared s => exact .inl h
      | defined g ps ls =>
        rcases Env.mem_putFunction h with rfl | h
        · exact .inr ⟨ps, ls, rfl⟩
        · exact .inl h
  refine horigin.imp_right ?_
  rintro ⟨e, he, ps, ls, rfl⟩
  exact ⟨ps, ls, he⟩

/-- A global variable was there before, or an event declared it. -/
theorem get?_globals_replay {name : Bytes} {g : GlobalVar}
    (h : (replay env es).globals.get? name = some g) :
    env.globals.get? name = some g ∨ ∃ l, .global g l ∈ es := by
  have horigin := replay_origin (P := (·.globals.get? name = some g))
    (Q := (∃ l, · = .global g l)) h fun env e h => by
      cases e with
      | defined f ps ls => exact .inl h
      | declared s =>
        rw [Event.apply, Env.declare, Table.get?_erase] at h
        split at h
        · cases h
        · exact .inl h
      | global g' l =>
        rw [Event.apply, Env.declareGlobal, Table.get?_insert] at h
        split at h
        · cases h
          exact .inr ⟨l, rfl⟩
        · exact .inl h
  refine horigin.imp_right ?_
  rintro ⟨e, he, l, rfl⟩
  exact ⟨l, he⟩

/-- A function was known before, or an event declared it under its name. -/
theorem get?_signatures_replay {name : Bytes} {s : Signature}
    (h : (replay env es).signatures.get? name = some s) :
    env.signatures.get? name = some s ∨ s.name = name ∧ .declared s ∈ es := by
  have horigin := replay_origin (P := (·.signatures.get? name = some s))
    (Q := fun e => s.name = name ∧ e = .declared s) h fun env e h => by
      cases e with
      | defined f ps ls => exact .inl h
      | global g l =>
        rw [Event.apply, Env.declareGlobal, Table.get?_erase] at h
        split at h
        · cases h
        · exact .inl h
      | declared s' =>
        rw [Event.apply, Env.declare, Table.get?_insert] at h
        split at h
        · rename_i hname
          cases h
          exact .inr ⟨hname, rfl⟩
        · exact .inl h
  refine horigin.imp_right ?_
  rintro ⟨e, he, hname, rfl⟩
  exact ⟨hname, he⟩

end Replay

end Grammar

end DirectC
