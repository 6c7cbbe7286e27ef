/-
# Every reader is alike

What is alike in all steps and rules is alike in every reader, for any likeness: one lemma for each
reader, by induction on its bound. The trees that are built are alike, a reader that reads something
has moved, and one that reads up to a token that it knows has not looked at the next one.
-/
import DirectC.Proofs.Grammar.Likeness
import DirectC.Proofs.Grammar.Rules

namespace DirectC

namespace Grammar

open Pairing

variable {L : Likeness} {w u v : L.World} {n m : Nat}

/-! ## Layouts and rules -/

section Rules

variable {α β : Type} {r r' : Checked α} {P : α → α → Prop} {f g : α → Read β}
  {Q : L.World → α → α → Prop} {S : L.World → β → β → Prop}

/-- A step that looks at the layout comes first. -/
theorem layout_alike {f g : Layout → Read β}
    (h : ∀ l l', L.Lay w l l' → L.Alike w (f l) (g l') S) :
    L.Alike w (layout >>= f) (layout >>= g) S :=
  fun s s' hs => h _ _ (L.lay hs) s s' hs

/-- What a rule answers is what it answers in the first reading. -/
theorem answers_self (hr : L.Answers w P r r') :
    L.Answers w (fun a a' => r = .ok a ∧ P a a') r r' := by
  cases r with
  | ok a =>
    obtain ⟨a', ha', hP⟩ := hr
    exact ⟨a', ha', rfl, hP⟩
  | error c => exact hr

/-- A rule is a step that does not change the state. -/
theorem checked_alike (hr : L.Answers w P r r') (h : ∀ a a', P a a' → Q w a a') :
    L.Alike w (checked r) (checked r') Q := by
  intro s s' hs
  cases r with
  | ok a =>
    obtain ⟨a', rfl, hP⟩ := hr
    exact ⟨w, a', s', L.refl w, hs, h a a' hP, .inr rfl⟩
  | error c =>
    rcases hr with hc | ⟨c', rfl, hfails⟩
    · exact .inl hc
    · exact .inr ⟨c', s', rfl, hfails s s' hs⟩

/-- A rule comes first. -/
theorem checked_bind_alike (hr : L.Answers w P r r')
    (h : ∀ a a', P a a' → L.Alike w (f a) (g a') S) :
    L.Alike w (checked r >>= f) (checked r' >>= g) S := by
  intro s s' hs
  cases r with
  | ok a =>
    obtain ⟨a', rfl, hP⟩ := hr
    exact h a a' hP s s' hs
  | error c =>
    rcases hr with hc | ⟨c', rfl, hfails⟩
    · exact .inl hc
    · exact .inr ⟨c', s', rfl, hfails s s' hs⟩

/-- A rule that yields an expression. -/
theorem rule_alike {r r' : Checked Expr} (hr : L.Answers w (L.Exp w) r r') :
    L.Alike w (checked r) (checked r') L.Exp :=
  checked_alike hr fun _ _ h => h

end Rules

/-! ## Types -/

/-- Pointers take no tokens but stars, so types stay the same. -/
theorem pointers_alike {type : CType} (h : L.Enough 0 w n m) (ht : L.Typ type) :
    L.Alike w (pointers n type) (pointers m type) L.Types := by
  induction n generalizing w m type with
  | zero => exact .exhausted h (by rintro rfl; rfl)
  | succ n ih =>
    obtain ⟨m, rfl⟩ := L.enough_succ h
    refine .accept (fun v hmoved _ => ?_) fun v _ => .pure ⟨rfl, ht⟩
    exact ih (L.enough_le (by omega) (L.enough_again h hmoved)) (L.typ_pointer ht)

/-- A length that is no literal, or too large a one, is complained of alike. -/
theorem dimension_alike :
    L.Alike w dimension dimension fun v d d' => d'.1 = d.1 ∧ L.Pos v d.2 d'.2 := by
  refine .bind (.expect (by simp) (by simp)) fun v t t' _ ⟨_, _, ht, _⟩ => ?_
  rw [L.taken_literal ht]
  dsimp only
  split
  · exact .stop (.fail rfl rfl (L.taken_pos ht))
  · exact .bind .expectPunct fun u _ _ hle _ => .pure ⟨rfl, L.taken_pos (L.taken hle ht)⟩

/-- Lengths are read by induction on the bound; each takes a token at least. -/
theorem dimensions_alike (h : L.Enough 0 w n m) :
    L.Alike w (dimensions n) (dimensions m) L.Lengths := by
  induction n generalizing w m with
  | zero => exact .exhausted h (by rintro rfl; rfl)
  | succ n ih =>
    obtain ⟨m, rfl⟩ := L.enough_succ h
    refine .accept (fun v1 hmoved _ => ?_) fun v _ => .pure .nil
    refine .bind dimension_alike fun v2 d d' h2 hd => ?_
    have henough := L.enough_mono h2 (L.enough_again h hmoved)
    refine .bind (ih (L.enough_le (by omega) henough)) fun v3 ds ds' h3 hds => ?_
    exact .pure (.cons ⟨hd.1, L.pos h3 hd.2⟩ hds)

/-- The array that lengths make of an element. -/
theorem arraySuffix_alike {elem : CType} (h : L.Enough 0 w n m) (ht : L.Typ elem) :
    L.Alike w (arraySuffix n elem) (arraySuffix m elem) L.Types :=
  .bind (dimensions_alike h) fun _ _ _ _ hds => layout_alike fun _ _ hl =>
    checked_alike (L.arrayOf hl ht hds) fun _ _ h => h

/-- A declarator yields a name with its type. -/
theorem declarator_alike {base : CType} (h : L.Enough 0 w n m) (hb : L.Typ base) :
    L.Alike w (declarator n base) (declarator m base) (L.Beyond w L.Declared) := by
  refine .bind (pointers_alike h hb) fun v1 t t' h1 ⟨ht, htyp⟩ => ?_
  subst ht
  refine .bind (.expect (by simp) (by simp)) fun v2 name name' h2 ⟨hmoved, _, hname, hkind⟩ => ?_
  have henough := L.enough_mono (L.trans h1 h2) h
  refine .bind (arraySuffix_alike henough htyp) fun v3 t t' h3 ⟨ht, htyp⟩ => ?_
  exact .pure ⟨L.moved h1 (L.moved_le hmoved h3), ht, htyp, L.taken h3 hname, hkind⟩

/-- The members of one type. -/
theorem memberDeclarators_alike {struct : Bytes} {base : CType} (h : L.Enough 1 w n m)
    (hb : L.Typ base) :
    L.Alike w (memberDeclarators struct base n) (memberDeclarators struct base m) L.Fields := by
  induction n generalizing w m with
  | zero => exact .exhausted h (by rintro rfl; rfl)
  | succ n ih =>
    obtain ⟨m, rfl⟩ := L.enough_succ h
    refine .bind (declarator_alike (L.enough_down h) hb)
      fun v1 d d' h1 ⟨hmoved, ht, htyp, hname⟩ => ?_
    obtain ⟨type, name⟩ := d
    obtain ⟨type', name'⟩ := d'
    obtain rfl : type' = type := ht
    dsimp only
    rw [L.taken_literal hname.1]
    split
    · exact .stop (.fail rfl rfl (L.taken_pos hname.1))
    · refine .accept (fun v2 h2 _ => ?_) fun v2 _ => .pure ⟨rfl, by simpa using htyp⟩
      have henough := L.enough_again h (L.moved_le hmoved (L.le h2))
      refine .bind (ih (L.enough_le (by omega) henough)) fun v3 fs fs' h3 ⟨hfs, htyps⟩ => ?_
      exact .pure ⟨by rw [hfs], List.forall_mem_cons.mpr ⟨htyp, htyps⟩⟩

/-- One level of a type: it needs the members of a struct, behind the tokens that open its body. -/
theorem baseType_step
    (hmembers : ∀ {v struct}, L.Enough 1 v n m →
      L.Alike v (members struct n) (members struct m) L.Fields)
    (h : L.Enough 0 w (n + 1) (m + 1)) :
    L.Alike w (baseType (n + 1)) (baseType (m + 1)) (L.Beyond w L.Types) := by
  have hword : ∀ {v t t'} {type : CType}, L.Le w v → L.Current v t t' →
      t.kind ≠ .endOfFile → t.kind ≠ .illegal → L.Typ type →
      L.Alike v (do next; return type) (do next; return type) (L.Beyond w L.Types) :=
    fun h1 ht hend hlegal htyp => .bind (.take ht hend hlegal) fun _ _ _ _ hmoved =>
      .pure ⟨L.moved h1 hmoved.1, rfl, htyp⟩
  rw [baseType, baseType]
  refine .kind fun v t t' h1 ht => ?_
  split
  · rename_i hk
    exact hword h1 ht (by simp [hk]) (by simp [hk]) L.typ_int
  · rename_i hk
    exact hword h1 ht (by simp [hk]) (by simp [hk]) L.typ_char
  · rename_i hk
    exact hword h1 ht (by simp [hk]) (by simp [hk]) L.typ_void
  · rename_i hk
    refine (L.struct ht hk fun u name hmoved => ?_).mono fun _ _ _ _ hq =>
      ⟨L.moved h1 hq.1, hq.2⟩
    exact hmembers (L.enough_again h (L.moved h1 hmoved))
  · exact .unexpected

/-- One round of members: a type, the members of it, and the other members. -/
theorem members_step {struct : Bytes}
    (hbase : ∀ {v}, L.Enough 0 v n m → L.Alike v (baseType n) (baseType m) (L.Beyond v L.Types))
    (hmembers : ∀ {v}, L.Enough 1 v n m →
      L.Alike v (members struct n) (members struct m) L.Fields)
    (h : L.Enough 1 w (n + 1) (m + 1)) :
    L.Alike w (members struct (n + 1)) (members struct (m + 1)) L.Fields := by
  rw [members, members]
  refine .accept (fun v _ _ => .pure ⟨rfl, by simp⟩) fun v1 h1 => ?_
  refine .kind fun v2 t t' h2 ht => ?_
  dsimp only
  split
  · exact .stop .unexpected
  · have h2 := L.trans h1 h2
    refine .bind (hbase (L.enough_mono h2 (L.enough_down h)))
      fun v3 b b' h3 ⟨hmoved, hb, htyp⟩ => ?_
    subst hb
    have h := L.enough_mono h2 h
    have henough := L.enough_again h hmoved
    refine .bind (memberDeclarators_alike (L.enough_le (by omega) henough) htyp)
      fun v4 fs fs' h4 ⟨hfs, htyps⟩ => .bind .expectPunct fun v5 _ _ h5 _ => ?_
    have henough := L.enough_mono (L.trans h4 h5) henough
    refine .bind (hmembers (L.enough_le (by omega) henough)) fun v6 gs gs' h6 ⟨hgs, htyps'⟩ => ?_
    exact .pure ⟨by rw [hfs, hgs], List.forall_mem_append.mpr ⟨htyps, htyps'⟩⟩

/-- Types and the members of structs call each other, so both go by one induction on the levels. -/
theorem baseType_members_alike (n : Nat) :
    (∀ {w m}, L.Enough 0 w n m → L.Alike w (baseType n) (baseType m) (L.Beyond w L.Types)) ∧
      ∀ {w m struct}, L.Enough 1 w n m →
        L.Alike w (members struct n) (members struct m) L.Fields := by
  induction n with
  | zero =>
    refine ⟨fun h => ?_, fun h => ?_⟩
    · rw [baseType]
      exact .exhausted h (by rintro rfl; rw [baseType])
    · rw [members]
      exact .exhausted h (by rintro rfl; rw [members])
  | succ n ih =>
    refine ⟨fun h => ?_, fun h => ?_⟩
    · obtain ⟨m, rfl⟩ := L.enough_succ h
      exact baseType_step ih.2 h
    · obtain ⟨m, rfl⟩ := L.enough_succ h
      exact members_step ih.1 ih.2 h

/-- A type, which may define a struct. -/
theorem baseType_alike (h : L.Enough 0 w n m) :
    L.Alike w (baseType n) (baseType m) (L.Beyond w L.Types) :=
  (baseType_members_alike n).1 h

/-- All members of a struct. -/
theorem members_alike {struct : Bytes} (h : L.Enough 1 w n m) :
    L.Alike w (members struct n) (members struct m) L.Fields :=
  (baseType_members_alike n).2 h

/-- A type without a name. -/
theorem typeName_alike (h : L.Enough 0 w n m) :
    L.Alike w (typeName n) (typeName m) (L.Beyond w L.Types) := by
  refine .bind (baseType_alike h) fun v1 b b' h1 ⟨hmoved, hb, htyp⟩ => ?_
  subst hb
  refine .bind (pointers_alike (L.enough_mono h1 h) htyp) fun v2 t t' h2 ⟨ht, htyp⟩ => ?_
  subst ht
  have henough := L.enough_mono (L.trans h1 h2) h
  refine (arraySuffix_alike henough htyp).mono fun v3 t t' h3 ht => ?_
  exact ⟨L.moved_le hmoved (L.trans h2 h3), ht⟩

/-! ## Binary operators -/

/-- Two operands are joined alike, whichever side they are on. -/
theorem join_alike {op : LevelOp} {p p' : Int} {a a' b b' : Expr} (hp : L.Pos w p p')
    (ha : L.Exp w a a') (hb : L.Exp w b b') :
    L.Alike w (join op p a b) (join op p' a' b') L.Exp := by
  refine checked_bind_alike (L.rvalue ha) fun a a' ha => checked_bind_alike (L.rvalue hb)
    fun b b' hb => layout_alike fun l l' hl => ?_
  split
  · exact checked_alike (L.binary hl hp hb ha) fun _ _ => L.exp_of_val
  · exact checked_alike (L.binary hl hp ha hb) fun _ _ => L.exp_of_val

/-- An operator is found by its own token. -/
theorem kind_of_findOp {level : List LevelOp} {k : Token.Kind} {op : LevelOp}
    (h : findOp level k = some op) : k = .punct op.punct := by
  have hop := List.find?_some h
  exact eq_of_beq hop

/-- A row of operands on one level. Each operator takes a token, which pays for the next round. -/
theorem chain_alike {operand operand' : Read Expr} {level : List LevelOp} {a a' : Expr}
    (ho : ∀ v, L.Moved w v → L.Alike v operand operand' (L.Beyond v L.Exp))
    (h : L.Enough 0 w n m) (ha : L.Exp w a a') :
    L.Alike w (chain operand level n a) (chain operand' level m a') L.Exp := by
  induction n generalizing w m a a' with
  | zero => exact .exhausted h (by rintro rfl; rfl)
  | succ n ih =>
    obtain ⟨m, rfl⟩ := L.enough_succ h
    refine .token fun v1 t t' h1 ht => ?_
    rw [L.kind ht]
    split
    · exact .pure (L.exp h1 ha)
    · rename_i op hop
      have hk := kind_of_findOp hop
      refine .bind (.take ht (by simp [hk]) (by simp [hk])) fun v2 _ _ _ ⟨hmoved, _, ht⟩ => ?_
      have h2 := L.moved h1 hmoved
      refine .bind (ho v2 h2) fun v3 b b' h23 ⟨_, hb⟩ => ?_
      have h3 := L.moved_le h2 h23
      have hp := L.taken_pos (L.taken h23 ht)
      refine .bind (join_alike hp (L.exp (L.le h3) ha) hb) fun v4 e e' h34 he => ?_
      have h4 := L.moved_le h3 h34
      refine ih (fun v hv => ho v (L.moved (L.le h4) hv)) ?_ he
      exact L.enough_le (by omega) (L.enough_again h h4)

/-- All levels of operators, from the tightest on. -/
theorem cascade_alike {operand operand' : Read Expr}
    (ho : ∀ v, L.Le w v → L.Alike v operand operand' (L.Beyond v L.Exp))
    (h : L.Enough 0 w n m) (levels : List (List LevelOp)) :
    ∀ v, L.Le w v →
      L.Alike v (cascade operand n levels) (cascade operand' m levels) (L.Beyond v L.Exp) := by
  induction levels with
  | nil => exact ho
  | cons level tighter ih =>
    intro v1 h1
    refine .bind (ih v1 h1) fun v2 a a' h12 ⟨hmoved, ha⟩ => ?_
    have h2 := L.trans h1 h12
    refine (chain_alike (fun v hv => ih v (L.trans h2 (L.le hv))) (L.enough_mono h2 h) ha).mono ?_
    exact fun v3 e e' h23 he => ⟨L.moved_le hmoved h23, he⟩

/-! ## Primary expressions -/

/-- An argument is used for its value. -/
theorem argument_alike {expr expr' : Read Expr}
    (he : ∀ v, L.Le w v → L.Alike v expr expr' (L.Beyond v L.Exp)) :
    L.Alike w (argument expr) (argument expr')
      (L.Beyond w fun v a a' => L.Val v a.1 a'.1 ∧ L.Pos v a.2 a'.2) := by
  refine .position fun v1 p p' h1 hp => .bind (he v1 h1) fun v2 e e' h12 ⟨hmoved, he⟩ => ?_
  refine checked_bind_alike (L.rvalue he) fun e e' he => .pure ?_
  exact ⟨L.moved h1 hmoved, he, L.pos h12 hp⟩

/-- The arguments up to the closing parenthesis. -/
theorem arguments_alike {expr expr' : Read Expr} {first : Bool}
    (he : ∀ v, L.Le w v → L.Alike v expr expr' (L.Beyond v L.Exp)) (h : L.Enough 0 w n m) :
    L.Alike w (arguments expr n first) (arguments expr' m first) L.Args := by
  induction n generalizing w m first with
  | zero => exact .exhausted h (by rintro rfl; rfl)
  | succ n ih =>
    obtain ⟨m, rfl⟩ := L.enough_succ h
    refine .accept (fun v _ _ => .pure .nil) fun v1 h1 => .optional .expectPunct fun v2 h12 => ?_
    have h2 := L.trans h1 h12
    have harg := argument_alike fun v hv => he v (L.trans h2 hv)
    refine .bind harg fun v3 a a' _ ⟨hmoved, ha⟩ => ?_
    have h3 := L.moved h2 hmoved
    have henough : L.Enough 0 v3 n m := L.enough_le (by omega) (L.enough_again h h3)
    refine .bind (ih (fun v hv => he v (L.trans (L.le h3) hv)) henough) fun v4 as as' h34 has => ?_
    exact .pure (.cons ⟨L.val h34 ha.1, L.pos h34 ha.2⟩ has)

/-- A call looks up its function before its arguments are read, and checks them behind it. -/
theorem call_alike {expr expr' : Read Expr} {name name' : Token}
    (he : ∀ v, L.Moved w v → L.Alike v expr expr' (L.Beyond v L.Exp)) (h : L.Enough 0 w n m)
    (hn : L.Names w) (ht : L.Current w name name') (hk : name.kind = .identifier) :
    L.Alike w (call name expr n) (call name' expr' m) (L.Beyond w L.Exp) := by
  refine .bind (.take ht (by simp [hk]) (by simp [hk])) fun v1 _ _ _ ⟨h1, _, hname⟩ =>
    .bind .next fun v2 _ _ h12 _ => ?_
  have h2 := L.moved_le h1 h12
  have hname : L.Name v2 name name' := ⟨L.taken h12 hname, hk⟩
  refine .bind (L.callee (L.names (L.le h2) hn) hname) fun v3 sig sig' h23 hsig => ?_
  have h3 := L.moved_le h2 h23
  have hargs : L.Alike v3 (arguments expr n true) (arguments expr' m true) L.Args :=
    arguments_alike (fun v hv => he v (L.moved_le h3 hv)) (L.enough_mono (L.le h3) h)
  refine .bind hargs fun v4 args args' h34 hargs => ?_
  have hname := L.name (L.trans h23 h34) hname
  rw [L.taken_literal hname.1, L.params hsig, L.ret hsig, ← hargs.length_eq]
  split
  · exact .stop (.fail rfl rfl (L.taken_pos hname.1))
  · rename_i hlength
    refine checked_bind_alike (answers_self (L.arguments hargs)) fun _ _ hfits => .pure ?_
    exact ⟨L.moved_le h3 h34, L.call (L.sig h34 hsig) hname hargs (by simpa using hlength) hfits.1⟩

/-- Strings in a row are joined into one. -/
theorem adjacentStrings_alike (h : L.Enough 0 w n m) :
    L.Alike w (adjacentStrings n) (adjacentStrings m) fun _ b b' => b' = b := by
  induction n generalizing w m with
  | zero => exact .exhausted h (by rintro rfl; rfl)
  | succ n ih =>
    obtain ⟨m, rfl⟩ := L.enough_succ h
    refine .token fun v1 t t' h1 ht => ?_
    rw [L.kind ht, L.literal ht]
    split
    · rename_i hk
      have hk := eq_of_beq hk
      refine .bind (.take ht (by simp [hk]) (by simp [hk])) fun v2 _ _ _ ⟨hmoved, _⟩ => ?_
      have henough := L.enough_again h (L.moved h1 hmoved)
      exact .bind (ih (L.enough_le (by omega) henough)) fun _ b b' _ hb => .pure (by rw [hb])
    · exact .pure rfl

/-- A string literal is as long as all of its strings, and goes into the pool. -/
theorem stringLiteral_alike {t t' : Token} (h : L.Enough 0 w n m) (ht : L.Current w t t')
    (hk : t.kind = .string) :
    L.Alike w (stringLiteral t n) (stringLiteral t' m) (L.Beyond w L.Exp) := by
  refine .bind (.take ht (by simp [hk]) (by simp [hk])) fun v1 _ _ _ ⟨h1, _, ht⟩ => ?_
  refine .bind (adjacentStrings_alike (L.enough_mono (L.le h1) h)) fun v2 b b' h12 hb => ?_
  subst hb
  have ht := L.taken h12 ht
  rw [L.taken_literal ht]
  refine layout_alike fun l l' hl => ?_
  refine checked_bind_alike (L.characters hl (L.taken_pos ht)) fun type type' htype => ?_
  obtain ⟨rfl, rfl, htyp⟩ := htype
  refine (L.pooled (L.taken_pos ht) htyp).mono fun v3 e e' h23 he => ?_
  exact ⟨L.moved_le h1 (L.trans h12 h23), he⟩

/-- A primary expression. A name is followed by a parenthesis or not, which takes a look at the
token behind it. -/
theorem primary_alike {expr expr' : Read Expr}
    (he : ∀ v, L.Moved w v → L.Alike v expr expr' (L.Beyond v L.Exp)) (h : L.Enough 0 w n m)
    (hn : L.Names w) :
    L.Alike w (primary expr n) (primary expr' m) (L.Beyond w L.Exp) := by
  refine .token fun v1 t t' h1 ht => ?_
  rw [L.kind ht, L.literal ht]
  have hbeyond : ∀ {x y : Read Expr}, L.Alike v1 x y (L.Beyond v1 L.Exp) →
      L.Alike v1 x y (L.Beyond w L.Exp) :=
    fun hx => hx.mono fun _ _ _ _ hQ => ⟨L.moved h1 hQ.1, hQ.2⟩
  split
  · rename_i hk
    refine .bind (.take ht (by simp [hk]) (by simp [hk])) fun v2 _ _ _ ⟨hmoved, _, ht⟩ => ?_
    dsimp only
    split
    · exact .fail rfl rfl (L.taken_pos ht)
    · exact .pure ⟨L.moved h1 hmoved, L.exp_of_val (L.int (L.taken_pos ht))⟩
  · rename_i hk
    refine .bind (.take ht (by simp [hk]) (by simp [hk])) fun v2 _ _ _ ⟨hmoved, _, ht⟩ => ?_
    exact .pure ⟨L.moved h1 hmoved, L.exp_of_val (L.int (L.taken_pos ht))⟩
  · rename_i hk
    exact hbeyond (stringLiteral_alike (L.enough_mono h1 h) ht hk)
  · rename_i hk
    -- A name is a call or a variable, and the token behind it decides.
    refine .peekKind (fun v v' e e' hle hQ => L.beyond_exp hle hQ) fun k => ?_
    have hbeyond : ∀ {x y : Read Expr}, L.Alike v1 x y (L.Beyond v1 L.Exp) →
        L.Alike v1 x y (L.Beyond v1 (L.Beyond w L.Exp)) :=
      fun hx => hx.mono fun _ _ _ _ hQ => ⟨hQ.1, L.moved h1 hQ.1, hQ.2⟩
    split
    · exact hbeyond (call_alike (fun v hv => he v (L.moved h1 hv)) (L.enough_mono h1 h)
        (L.names h1 hn) ht hk)
    · refine hbeyond ?_
      refine .bind (.take ht (by simp [hk]) (by simp [hk])) fun v2 _ _ h12 ⟨hmoved, _, ht⟩ => ?_
      have hn := L.names (L.trans h1 h12) hn
      exact (L.resolve hn ⟨ht, hk⟩).mono fun _ _ _ h23 he => ⟨L.moved_le hmoved h23, he⟩
  · rename_i hk
    refine .bind (.take ht (by simp [hk]) (by simp [hk])) fun v2 _ _ _ ⟨hmoved, _⟩ => ?_
    have hmoved := L.moved h1 hmoved
    refine .bind (he v2 hmoved) fun v3 e e' h23 ⟨_, he⟩ => .bind .expectPunct
      fun v4 _ _ h34 _ => .pure ?_
    exact ⟨L.moved_le hmoved (L.trans h23 h34), L.exp h34 he⟩
  · exact .unexpected

/-! ## Postfix operators -/

/-- An index is added to a pointer, which is read through. -/
theorem indexed_alike {expr expr' : Read Expr} {p p' : Int} {a a' : Expr}
    (he : L.Alike w expr expr' (L.Beyond w L.Exp)) (hp : L.Pos w p p') (ha : L.Exp w a a') :
    L.Alike w (indexed expr p a) (indexed expr' p' a') L.Exp := by
  refine .bind he fun v1 i i' h1 ⟨_, hi⟩ => checked_bind_alike (L.rvalue hi) fun i i' hi => ?_
  refine .bind .expectPunct fun v2 _ _ h12 _ => ?_
  have h2 := L.trans h1 h12
  refine checked_bind_alike (L.rvalue (L.exp h2 ha)) fun a a' ha => layout_alike fun l l' hl => ?_
  refine checked_bind_alike (L.binary hl (L.pos h2 hp) ha (L.val h12 hi)) fun e e' he => ?_
  exact rule_alike (L.deref (L.pos h2 hp) he)

/-- A member of a struct in place. -/
theorem dotMember_alike {p p' : Int} {e e' : Expr} (hp : L.Pos w p p') (he : L.Exp w e e') :
    L.Alike w (dotMember p e) (dotMember p' e') L.Exp := by
  refine .bind (.expect (by simp) (by simp)) fun v name name' h1 ⟨_, _, hname, hk⟩ => ?_
  rw [L.type he, L.isPlace he]
  split
  · rename_i struct htype hplace
    refine layout_alike fun l l' hl => rule_alike ?_
    exact L.dot hl (L.pos h1 hp) (L.exp h1 he) htype hplace ⟨hname, hk⟩
  · exact .fail rfl rfl (L.pos h1 hp)

/-- A member of a struct behind a pointer. -/
theorem arrowMember_alike {p p' : Int} {e e' : Expr} (hp : L.Pos w p p') (he : L.Exp w e e') :
    L.Alike w (arrowMember p e) (arrowMember p' e') L.Exp := by
  refine .bind (.expect (by simp) (by simp)) fun v name name' h1 ⟨_, _, hname, hk⟩ => ?_
  refine checked_bind_alike (L.rvalue (L.exp h1 he)) fun e e' he => ?_
  rw [L.type (L.exp_of_val he)]
  split
  · rename_i struct htype
    refine layout_alike fun l l' hl => rule_alike ?_
    exact L.arrow hl (L.pos h1 hp) he htype ⟨hname, hk⟩
  · exact .fail rfl rfl (L.pos h1 hp)

/-- A step is an assignment that is undone in its value. -/
theorem stepped_alike {op undo : BinaryOp} {p p' : Int} {e e' : Expr} (hop : op.isAssign)
    (hp : L.Pos w p p') (he : L.Exp w e e') :
    L.Alike w (stepped op undo p e) (stepped op undo p' e') L.Exp := by
  have hone := L.int (n := 1) hp
  refine layout_alike fun l l' hl => ?_
  refine checked_bind_alike (L.assign hop hl hp he (L.exp_of_val hone)) fun a a' ha => ?_
  exact checked_alike (L.binary hl hp ha hone) fun _ _ => L.exp_of_val

/-- Postfix operators in a row. -/
theorem postfixes_alike {expr expr' : Read Expr} {a a' : Expr}
    (he : ∀ v, L.Moved w v → L.Alike v expr expr' (L.Beyond v L.Exp)) (h : L.Enough 0 w n m)
    (ha : L.Exp w a a') :
    L.Alike w (postfixes expr n a) (postfixes expr' m a') L.Exp := by
  induction n generalizing w m a a' with
  | zero => exact .exhausted h (by rintro rfl; rfl)
  | succ n ih =>
    obtain ⟨m, rfl⟩ := L.enough_succ h
    refine .token fun v1 t t' h1 ht => ?_
    rw [L.kind ht]
    -- Each operator is read, and then the operators behind it.
    have hagain : ∀ {x y : Read Expr}, t.kind ≠ .endOfFile → t.kind ≠ .illegal →
        (∀ v, L.Moved w v → L.Le v1 v → L.Pos v t.pos t'.pos → L.Exp v a a' →
          L.Alike v x y L.Exp) →
        L.Alike v1 (next >>= fun _ => x >>= postfixes expr n)
          (next >>= fun _ => y >>= postfixes expr' m) L.Exp := by
      intro x y hend hlegal hx
      refine .bind (.take ht hend hlegal) fun v2 _ _ h12 ⟨hmoved, _, ht⟩ => ?_
      have h2 := L.moved h1 hmoved
      refine .bind (hx v2 h2 h12 (L.taken_pos ht) (L.exp (L.le h2) ha)) fun v3 b b' h23 hb => ?_
      have h3 := L.moved_le h2 h23
      exact ih (fun v hv => he v (L.moved (L.le h3) hv))
        (L.enough_le (by omega) (L.enough_again h h3)) hb
    split
    · rename_i hk
      exact hagain (by simp [hk]) (by simp [hk]) fun v hv _ hp ha => indexed_alike (he v hv) hp ha
    · rename_i hk
      exact hagain (by simp [hk]) (by simp [hk]) fun _ _ _ hp ha => dotMember_alike hp ha
    · rename_i hk
      exact hagain (by simp [hk]) (by simp [hk]) fun _ _ _ hp ha => arrowMember_alike hp ha
    · rename_i hk
      exact hagain (by simp [hk]) (by simp [hk]) fun _ _ _ hp ha => stepped_alike rfl hp ha
    · rename_i hk
      exact hagain (by simp [hk]) (by simp [hk]) fun _ _ _ hp ha => stepped_alike rfl hp ha
    · exact .pure (L.exp h1 ha)

/-! ## Operands and assignments -/

/-- The operators of assignments assign. -/
theorem isAssign_of_assignOp {k : Token.Kind} {op : BinaryOp} (h : assignOp? k = some op) :
    op.isAssign := by
  unfold assignOp? at h
  split at h <;> cases h <;> rfl

/-- An assignment operator is a token of the text. -/
theorem ne_of_assignOp {k : Token.Kind} {op : BinaryOp} (h : assignOp? k = some op) :
    k ≠ .endOfFile ∧ k ≠ .illegal := by
  constructor
  · rintro rfl
    cases h
  · rintro rfl
    cases h

/-- A sign is a token of the text. -/
theorem ne_of_signOp {k : Token.Kind} {op : BinaryOp} (h : signOp? k = some op) :
    k ≠ .endOfFile ∧ k ≠ .illegal := by
  constructor
  · rintro rfl
    cases h
  · rintro rfl
    cases h

section Unary

variable {operand operand' : Read Expr} {t t' : Token}
  (ho : ∀ v, L.Moved w v → L.Alike v operand operand' (L.Beyond v L.Exp))
  (ht : L.Current w t t') (hend : t.kind ≠ .endOfFile) (hlegal : t.kind ≠ .illegal)

include ho ht hend hlegal

/-- A sign is an operator with zero on its left. -/
theorem signed_alike {op : BinaryOp} :
    L.Alike w (signed operand op t.pos) (signed operand' op t'.pos) (L.Beyond w L.Exp) := by
  refine .bind (.take ht hend hlegal) fun v1 _ _ _ ⟨h1, _, ht⟩ => .bind (ho v1 h1)
    fun v2 e e' h12 ⟨_, he⟩ => ?_
  have hp := L.taken_pos (L.taken h12 ht)
  refine checked_bind_alike (L.rvalue he) fun e e' he => layout_alike fun l l' hl => ?_
  exact checked_alike (L.binary hl hp (L.int hp) he) fun _ _ h =>
    ⟨L.moved_le h1 h12, L.exp_of_val h⟩

/-- A pointer is read through. -/
theorem indirection_alike :
    L.Alike w (indirection operand t.pos) (indirection operand' t'.pos) (L.Beyond w L.Exp) := by
  refine .bind (.take ht hend hlegal) fun v1 _ _ _ ⟨h1, _, ht⟩ => .bind (ho v1 h1)
    fun v2 e e' h12 ⟨_, he⟩ => checked_bind_alike (L.rvalue he) fun e e' he => ?_
  exact checked_alike (L.deref (L.taken_pos (L.taken h12 ht)) he) fun _ _ h =>
    ⟨L.moved_le h1 h12, h⟩

/-- The address of a place is taken. -/
theorem address_alike :
    L.Alike w (address operand t.pos) (address operand' t'.pos) (L.Beyond w L.Exp) := by
  refine .bind (.take ht hend hlegal) fun v1 _ _ _ ⟨h1, _, ht⟩ => .bind (ho v1 h1)
    fun v2 e e' h12 ⟨_, he⟩ => ?_
  exact checked_alike (L.addressOf (L.taken_pos (L.taken h12 ht)) he) fun _ _ h =>
    ⟨L.moved_le h1 h12, h⟩

/-- A step before its place is an assignment. -/
theorem preStepped_alike {op : BinaryOp} (hop : op.isAssign) :
    L.Alike w (preStepped operand op t.pos) (preStepped operand' op t'.pos)
      (L.Beyond w L.Exp) := by
  refine .bind (.take ht hend hlegal) fun v1 _ _ _ ⟨h1, _, ht⟩ => .bind (ho v1 h1)
    fun v2 e e' h12 ⟨_, he⟩ => layout_alike fun l l' hl => ?_
  have hp := L.taken_pos (L.taken h12 ht)
  exact checked_alike (L.assign hop hl hp he (L.exp_of_val (L.int hp))) fun _ _ h =>
    ⟨L.moved_le h1 h12, L.exp_of_val h⟩

end Unary

/-- A size or an alignment is a constant. -/
theorem measure_alike {k : Token.Kind} {p p' : Int} {type : CType} (hp : L.Pos w p p')
    (ht : L.Sized type) : L.Alike w (measure k p type) (measure k p' type) L.Exp := by
  refine layout_alike fun l l' hl => ?_
  split
  · refine checked_bind_alike (L.size hl hp ht) fun n n' hn => .pure ?_
    rw [hn]
    exact L.exp_of_val (L.int hp)
  · refine checked_bind_alike (L.alignment hl hp ht) fun n n' hn => .pure ?_
    rw [hn]
    exact L.exp_of_val (L.int hp)

/-- The operand of `sizeof` is a type in parentheses or an expression, which are told apart by the
token behind the parenthesis. -/
theorem measured_alike {operand operand' : Read Expr} {type type' : Read CType} {t t' : Token}
    (htype : ∀ v, L.Moved w v → L.Alike v type type' (L.Beyond v L.Types))
    (ho : ∀ v, L.Moved w v → L.Alike v operand operand' (L.Beyond v L.Exp))
    (ht : L.Current w t t') (hend : t.kind ≠ .endOfFile) (hlegal : t.kind ≠ .illegal) :
    L.Alike w (measured type operand t.kind t.pos) (measured type' operand' t'.kind t'.pos)
      (L.Beyond w L.Exp) := by
  rw [L.kind ht]
  refine .bind (.take ht hend hlegal) fun v1 _ _ _ ⟨h1, _, ht⟩ => .isAt fun v2 s s' h12 hs => ?_
  have h2 := L.moved_le h1 h12
  refine .peekKind (fun v v' e e' hle hQ => L.beyond_exp hle hQ) fun k => ?_
  split
  · rename_i hk
    obtain ⟨hk, -⟩ := Bool.and_eq_true_iff.mp hk
    have hk := eq_of_beq hk
    refine .bind (.take hs (by simp [hk]) (by simp [hk])) fun v3 _ _ h23 ⟨hmoved, _⟩ => ?_
    refine .bind (htype v3 (L.moved_le h2 h23)) fun v4 T T' h34 ⟨_, hT, htyp⟩ => ?_
    subst hT
    refine .bind .expectPunct fun v5 _ _ h45 _ => ?_
    have h35 := L.trans h34 h45
    have ht := L.taken (L.trans h12 (L.trans h23 h35)) ht
    refine (measure_alike (L.taken_pos ht) (L.sized htyp)).mono fun v6 e e' h56 he => ?_
    exact ⟨L.moved_le hmoved (L.trans h35 h56), L.moved_le h2 (L.trans h23 (L.trans h35 h56)), he⟩
  · refine .bind (ho v2 h2) fun v3 e e' h23 ⟨hmoved, he⟩ => ?_
    rw [L.type he]
    have ht := L.taken (L.trans h12 h23) ht
    refine (measure_alike (L.taken_pos ht) (L.sized_type he)).mono fun v4 e e' h34 he => ?_
    exact ⟨L.moved_le hmoved h34, L.moved_le h2 (L.trans h23 h34), he⟩

/-- One level of an expression: operands at one level less, and behind the operator of an
assignment an expression again. -/
theorem assignment_step
    (hexpr : ∀ {v}, L.Enough 2 v n m → L.Names v →
      L.Alike v (assignment n) (assignment m) (L.Beyond v L.Exp))
    (hoperand : ∀ {v}, L.Enough 1 v n m → L.Names v →
      L.Alike v (unary n) (unary m) (L.Beyond v L.Exp))
    (h : L.Enough 2 w (n + 1) (m + 1)) (hn : L.Names w) :
    L.Alike w (assignment (n + 1)) (assignment (m + 1)) (L.Beyond w L.Exp) := by
  rw [assignment, assignment]
  have hdown := L.enough_down h
  have hunary : ∀ v, L.Le w v → L.Alike v (unary n) (unary m) (L.Beyond v L.Exp) :=
    fun v hv => hoperand (L.enough_mono hv hdown) (L.names hv hn)
  have hcascade := cascade_alike hunary (L.enough_le (by omega) hdown) levels w (L.refl w)
  refine .bind hcascade fun v1 a a' h1 ⟨hmoved, ha⟩ => .token fun v2 t t' h12 ht => ?_
  rw [L.kind ht]
  split
  · exact .pure ⟨L.moved_le hmoved h12, L.exp h12 ha⟩
  · rename_i op hop
    obtain ⟨hend, hlegal⟩ := ne_of_assignOp hop
    refine .bind (.take ht hend hlegal) fun v3 _ _ h23 ⟨_, _, ht⟩ => ?_
    -- The operator was taken, so the fuel is enough for a whole expression again.
    have h3 := L.moved_le hmoved (L.trans h12 h23)
    have henough : L.Enough 2 v3 n m := L.enough_le (by omega) (L.enough_again h h3)
    refine .bind (hexpr henough (L.names (L.le h3) hn)) fun v4 b b' h34 ⟨_, hb⟩ => ?_
    refine layout_alike fun l l' hl => ?_
    have ha := L.exp (L.trans h12 (L.trans h23 h34)) ha
    have hassign := L.assign (isAssign_of_assignOp hop) hl (L.taken_pos (L.taken h34 ht)) ha hb
    exact checked_alike hassign fun _ _ h => ⟨L.moved_le h3 h34, L.exp_of_val h⟩

/-- One level of an operand: it calls itself and expressions behind a token only. -/
theorem unary_step
    (hexpr : ∀ {v}, L.Enough 2 v n m → L.Names v →
      L.Alike v (assignment n) (assignment m) (L.Beyond v L.Exp))
    (hunary : ∀ {v}, L.Enough 1 v n m → L.Names v →
      L.Alike v (unary n) (unary m) (L.Beyond v L.Exp))
    (h : L.Enough 1 w (n + 1) (m + 1)) (hn : L.Names w) :
    L.Alike w (unary (n + 1)) (unary (m + 1)) (L.Beyond w L.Exp) := by
  rw [unary, unary]
  refine .token fun v1 t t' h1 ht => ?_
  have hexpr : ∀ v, L.Moved w v → L.Alike v (assignment n) (assignment m) (L.Beyond v L.Exp) :=
    fun v hv => hexpr (L.enough_again h hv) (L.names (L.le hv) hn)
  have hoperand : ∀ v, L.Moved v1 v → L.Alike v (unary n) (unary m) (L.Beyond v L.Exp) :=
    fun v hv => hunary (L.enough_le (by omega) (L.enough_again h (L.moved h1 hv)))
      (L.names (L.trans h1 (L.le hv)) hn)
  -- All prefix operators move from the state where the token was looked at.
  have hbeyond : ∀ {x y : Read Expr}, L.Alike v1 x y (L.Beyond v1 L.Exp) →
      L.Alike v1 x y (L.Beyond w L.Exp) :=
    fun hx => hx.mono fun _ _ _ _ hQ => ⟨L.moved h1 hQ.1, hQ.2⟩
  have hmeasured : t.kind ≠ .endOfFile → t.kind ≠ .illegal →
      L.Alike v1 (measured (typeName n) (unary n) t.kind t.pos)
        (measured (typeName m) (unary m) t'.kind t'.pos) (L.Beyond v1 L.Exp) :=
    measured_alike (fun v hv => typeName_alike (L.enough_le (by omega)
      (L.enough_again h (L.moved h1 hv)))) hoperand ht
  rw [L.kind ht] at hmeasured ⊢
  split
  · rename_i op hop
    obtain ⟨hend, hlegal⟩ := ne_of_signOp hop
    exact hbeyond (signed_alike hoperand ht hend hlegal)
  · split
    · rename_i hk
      exact hbeyond (indirection_alike hoperand ht (by simp [hk]) (by simp [hk]))
    · rename_i hk
      exact hbeyond (address_alike hoperand ht (by simp [hk]) (by simp [hk]))
    · rename_i hk
      exact hbeyond (preStepped_alike hoperand ht (by simp [hk]) (by simp [hk]) rfl)
    · rename_i hk
      exact hbeyond (preStepped_alike hoperand ht (by simp [hk]) (by simp [hk]) rfl)
    · rename_i hk
      exact hbeyond (hmeasured (by simp [hk]) (by simp [hk]))
    · rename_i hk
      exact hbeyond (hmeasured (by simp [hk]) (by simp [hk]))
    · have henough := L.enough_mono h1 (L.enough_down h)
      refine .bind (primary_alike (fun v hv => hexpr v (L.moved h1 hv)) henough
        (L.names h1 hn)) fun v2 a a' h12 ⟨hmoved, ha⟩ => ?_
      have h2 := L.moved h1 hmoved
      refine (postfixes_alike (fun v hv => hexpr v (L.moved (L.le h2) hv))
        (L.enough_mono h12 henough) ha).mono fun v3 e e' h23 he => ⟨L.moved_le h2 h23, he⟩

/-- Expressions and operands call each other, so both go by one induction on the levels. -/
theorem assignment_unary_alike (n : Nat) :
    (∀ {w m}, L.Enough 2 w n m → L.Names w →
        L.Alike w (assignment n) (assignment m) (L.Beyond w L.Exp)) ∧
      ∀ {w m}, L.Enough 1 w n m → L.Names w →
        L.Alike w (unary n) (unary m) (L.Beyond w L.Exp) := by
  induction n with
  | zero =>
    refine ⟨fun h _ => ?_, fun h _ => ?_⟩
    · rw [assignment]
      exact .exhausted h (by rintro rfl; rw [assignment])
    · rw [unary]
      exact .exhausted h (by rintro rfl; rw [unary])
  | succ n ih =>
    refine ⟨fun h hn => ?_, fun h hn => ?_⟩
    · obtain ⟨m, rfl⟩ := L.enough_succ h
      exact assignment_step ih.1 ih.2 h hn
    · obtain ⟨m, rfl⟩ := L.enough_succ h
      exact unary_step ih.1 ih.2 h hn

/-- **Expressions are read alike.** -/
theorem assignment_alike (h : L.Enough 2 w n m) (hn : L.Names w) :
    L.Alike w (assignment n) (assignment m) (L.Beyond w L.Exp) :=
  (assignment_unary_alike n).1 h hn

/-- Operands are read alike, by the same induction. -/
theorem unary_alike (h : L.Enough 1 w n m) (hn : L.Names w) :
    L.Alike w (unary n) (unary m) (L.Beyond w L.Exp) :=
  (assignment_unary_alike n).2 h hn

/-- An expression that is used for its value. -/
theorem value_alike (h : L.Enough 2 w n m) (hn : L.Names w) :
    L.Alike w (value n) (value m) (L.Beyond w L.Val) :=
  .bind (assignment_alike h hn) fun _ _ _ _ ⟨hmoved, he⟩ =>
    checked_alike (L.rvalue he) fun _ _ h => ⟨hmoved, h⟩

/-- An expression whose value is dropped. -/
theorem effect_alike (h : L.Enough 2 w n m) (hn : L.Names w) :
    L.Alike w (effect n) (effect m) (L.Beyond w L.Eff) := by
  refine .bind (assignment_alike h hn) fun v e e' _ ⟨hmoved, he⟩ => ?_
  rw [L.type he]
  split
  · rename_i hvoid
    exact .pure ⟨hmoved, he, .inl hvoid⟩
  · exact checked_alike (L.rvalue he) fun _ _ h => ⟨hmoved, L.exp_of_val h, .inr h⟩

/-! ## Declarations of local variables -/

/-- A step in a scope of its own. -/
theorem inScope_alike {α : Type} {x y : Read α} {Q : L.World → α → α → Prop}
    (hb : L.layer.Bodies) (hx : ∀ v, L.Le w v → L.Alike v x y Q)
    (hQ : ∀ v v' a a', L.Le v v' → Q v a a' → Q v' a a') :
    L.Alike w (inScope x) (inScope y) Q := by
  intro s s' hs
  obtain ⟨v, hv, hpush⟩ := L.push hb hs
  have hx := hx v hv _ _ hpush
  unfold Outcome at hx ⊢
  cases hrun : x { s with scope := s.scope.push } with
  | ok a t =>
    rw [hrun] at hx
    rw [run_inScope_of_ok hrun]
    obtain ⟨u, a', t', hu, ht, hQa, hy⟩ := hx
    obtain ⟨u', hu', hpop⟩ := L.pop hb ht
    refine ⟨u', a', _, L.trans hv (L.trans hu hu'), hpop, hQ _ _ _ _ hu' hQa, ?_⟩
    exact hy.imp (L.lost hu') run_inScope_of_ok
  | error c t =>
    rw [hrun] at hx
    rw [run_inScope_of_error hrun]
    refine hx.imp_right fun ⟨c', t', hy, hfails⟩ => ?_
    exact ⟨c', _, run_inScope_of_error hy, L.fails_pop hb (L.fails hv hfails)⟩

/-- A local variable has a type with a size. -/
theorem declareLocal_alike {type : CType} {name name' : Token} (hb : L.layer.Bodies)
    (hn : L.Names w) (ht : L.Typ type) (hname : L.Name w name name') :
    L.Alike w (declareLocal type name) (declareLocal type name') L.Exp := by
  have hp := L.taken_pos hname.1
  unfold declareLocal
  rw [L.taken_literal hname.1]
  split
  · exact .stop (.fail rfl rfl hp)
  · rename_i hvoid
    refine layout_alike fun l l' hl => checked_bind_alike (answers_self (L.size hl hp (L.sized ht)))
      fun _ _ hsize => ?_
    exact L.addLocal hb hn hname ht (by simpa using hvoid) hl (located_ok.mp hsize.1)

/-- An initial value is assigned by a statement of its own. -/
theorem initializer_alike {type : CType} {name name' : Token} {e e' : Expr}
    (h : L.Enough 0 w n m) (hn : L.Names w) (hname : L.Taken w name name') (he : L.Exp w e e') :
    L.Alike w (initializer n type name e) (initializer m type name' e') L.Stms := by
  refine .position fun v1 p p' h1 hp => .accept (fun v2 h12 _ => ?_) fun v2 _ => .pure .nil
  have h2 := L.moved h1 h12
  have hp := L.pos (L.le h12) hp
  rw [L.taken_literal hname, if_pos rfl, if_pos rfl]
  split
  · exact .stop (.fail rfl rfl hp)
  · refine .bind (assignment_alike (L.enough_moved h2 h) (L.names (L.le h2) hn))
      fun v3 a a' h23 ⟨_, ha⟩ => layout_alike fun l l' hl => ?_
    have hplain : BinaryOp.assign.isAssign := rfl
    have hassign := L.assign hplain hl (L.pos h23 hp) (L.exp (L.trans (L.le h2) h23) he) ha
    refine checked_bind_alike hassign fun b b' hb => .pure (.cons ?_ .nil)
    exact L.eval ⟨L.exp_of_val hb, .inr hb⟩

/-- The variables of one declaration, each with its initial value. -/
theorem declarators_alike {base : CType} (hb : L.layer.Bodies) (h : L.Enough 1 w n m)
    (hn : L.Names w) (ht : L.Typ base) :
    L.Alike w (declarators base n) (declarators base m)
      fun v ss ss' => L.Fresh v ∧ L.Stms v ss ss' := by
  induction n generalizing w m with
  | zero => exact .exhausted h (by rintro rfl; rfl)
  | succ n ih =>
    obtain ⟨m, rfl⟩ := L.enough_succ h
    refine .bind (declarator_alike (L.enough_down h) ht)
      fun v1 d d' h1 ⟨hmoved, htype, htyp, hname⟩ => ?_
    obtain ⟨type, name⟩ := d
    obtain ⟨type', name'⟩ := d'
    obtain rfl : type' = type := htype
    refine .bind (declareLocal_alike hb (L.names h1 hn) htyp hname) fun v2 e e' h12 he => ?_
    have h2 := L.trans h1 h12
    refine .bind (initializer_alike (L.enough_mono h2 (L.enough_down h)) (L.names h2 hn)
      (L.taken h12 hname.1) he) fun v3 ss ss' h23 hss => ?_
    refine .accept (fun v4 h34 _ => ?_) fun v4 h34 => ?_
    · have h4 := L.moved_le hmoved (L.trans h12 (L.trans h23 (L.le h34)))
      have henough := L.enough_again h h4
      refine .bind (ih (L.enough_le (by omega) henough) (L.names (L.le h4) hn))
        fun v5 ts ts' h45 ⟨hfresh, hts⟩ => .pure ⟨hfresh, ?_⟩
      exact List.rel_append (L.stms (L.trans (L.le h34) h45) hss) hts
    · refine .bind .expectPunct fun v5 _ _ h45 ⟨_, hfresh⟩ => .pure ⟨hfresh, ?_⟩
      exact L.stms (L.trans h34 h45) hss

/-- A declaration of local variables. -/
theorem declaration_alike (hb : L.layer.Bodies) (h : L.Enough 0 w n m) (hn : L.Names w) :
    L.Alike w (declaration n) (declaration m)
      (L.Beyond w fun v ss ss' => L.Fresh v ∧ L.Stms v ss ss') := by
  refine .bind (baseType_alike h) fun v1 b b' h1 ⟨hmoved, htype, htyp⟩ => ?_
  subst htype
  refine .accept (fun v2 h12 hfresh => .pure ⟨L.moved_le hmoved (L.le h12), hfresh, .nil⟩)
    fun v2 h12 => ?_
  have h2 := L.moved_le hmoved h12
  have henough := L.enough_moved h2 h
  refine (declarators_alike hb (L.enough_le (by omega) henough) (L.names (L.le h2) hn) htyp).mono ?_
  exact fun v3 ss ss' h23 hss => ⟨L.moved_le h2 h23, hss⟩

/-! ## Simple statements -/

/-- A value is returned if and only if the function has one. -/
theorem returnStatement_alike {ret : CType} {p p' : Int} (h : L.Enough 2 w n m) (hn : L.Names w)
    (hp : L.Pos w p p') :
    L.Alike w (returnStatement ret p n) (returnStatement ret p' m) L.Stm := by
  refine .accept (fun v1 h1 _ => ?_) fun v1 h1 => .position fun v2 q q' h12 hq => ?_
  · have hp := L.pos (L.le h1) hp
    rw [if_pos rfl, if_pos rfl]
    split
    · exact .pure (L.retNone hp)
    · exact .fail rfl rfl hp
  · have h2 := L.trans h1 h12
    split
    · exact .stop (.fail rfl rfl hq)
    · refine .bind (value_alike (L.enough_mono h2 h) (L.names h2 hn))
        fun v3 e e' h23 ⟨_, he⟩ => ?_
      rw [L.assignable he, L.type (L.exp_of_val he)]
      split
      · exact .stop (.fail rfl rfl (L.pos h23 hq))
      · refine .bind .expectPunct fun v4 _ _ h34 _ => .pure ?_
        exact L.retSome (L.pos (L.trans h2 (L.trans h23 h34)) hp) (L.val h34 he)

/-- The status of an exit is an integer. -/
theorem exitStatement_alike {p p' : Int} (h : L.Enough 2 w n m) (hn : L.Names w)
    (hp : L.Pos w p p') : L.Alike w (exitStatement p n) (exitStatement p' m) L.Stm := by
  refine .position fun v1 q q' h1 hq => .bind (value_alike (L.enough_mono h1 h) (L.names h1 hn))
    fun v2 e e' h12 ⟨_, he⟩ => ?_
  rw [L.type (L.exp_of_val he)]
  split
  · exact .stop (.fail rfl rfl (L.pos h12 hq))
  · rename_i hint
    refine .bind .expectPunct fun v3 _ _ h23 _ => .pure ?_
    have h3 := L.trans h1 (L.trans h12 h23)
    exact L.exit (L.pos h3 hp) (L.val h23 he) (by simpa using hint)

/-- An expression as a statement. -/
theorem effectStatement_alike (h : L.Enough 2 w n m) (hn : L.Names w) :
    L.Alike w (effectStatement n) (effectStatement m) (L.Beyond w L.Stm) := by
  refine .bind (effect_alike h hn) fun v1 e e' _ ⟨hmoved, he⟩ => .bind .expectPunct
    fun v2 _ _ h12 _ => .pure ?_
  exact ⟨L.moved_le hmoved h12, L.stm h12 (L.eval he)⟩

/-- A condition in parentheses. -/
theorem condition_alike (h : L.Enough 2 w n m) (hn : L.Names w) :
    L.Alike w (condition n) (condition m) L.Val := by
  refine .bind .expectPunct fun v1 _ _ h1 _ => .bind (value_alike (L.enough_mono h1 h)
    (L.names h1 hn)) fun v2 e e' _ ⟨_, he⟩ => .bind .expectPunct fun v3 _ _ h23 _ => ?_
  exact .pure (L.val h23 he)

/-! ## The parts of a `for` loop -/

/-- What a loop begins with: a declaration, an expression or nothing. -/
theorem forStart_alike (hb : L.layer.Bodies) (h : L.Enough 2 w n m) (hn : L.Names w) :
    L.Alike w (forStart n) (forStart m) L.Stms := by
  refine .kind fun v1 t t' h1 _ => ?_
  have h := L.enough_mono h1 h
  have hn := L.names h1 hn
  split
  · exact (declaration_alike hb (L.enough_le (by omega) h) hn).mono fun _ _ _ _ hQ => hQ.2.2
  · refine .accept (fun v2 _ _ => .pure .nil) fun v2 h12 => ?_
    refine .bind (effectStatement_alike (L.enough_mono h12 h) (L.names h12 hn))
      fun _ _ _ _ hs => .pure (.cons hs.2 .nil)

/-- A condition that is left out is true. -/
theorem forCondition_alike {p p' : Int} (h : L.Enough 2 w n m) (hn : L.Names w)
    (hp : L.Pos w p p') : L.Alike w (forCondition p n) (forCondition p' m) L.Val := by
  refine .isAt fun v1 t t' h1 _ => ?_
  have hend : ∀ {v} {e e' : Expr}, L.Val v e e' → L.Alike v
      (do let _ ← expectPunct .semicolon; pure e) (do let _ ← expectPunct .semicolon; pure e')
      L.Val :=
    fun he => .bind .expectPunct fun _ _ _ hle _ => .pure (L.val hle he)
  split
  · exact hend (L.int (L.pos h1 hp))
  · exact .bind (value_alike (L.enough_mono h1 h) (L.names h1 hn)) fun _ _ _ _ he => hend he.2

/-- What a loop does after each round. -/
theorem forUpdate_alike (h : L.Enough 2 w n m) (hn : L.Names w) :
    L.Alike w (forUpdate n) (forUpdate m) L.Stms := by
  refine .isAt fun v1 t t' h1 _ => ?_
  have hend : ∀ {v} {ss ss' : List Stmt}, L.Stms v ss ss' → L.Alike v
      (do let _ ← expectPunct .rightParen; pure ss) (do let _ ← expectPunct .rightParen; pure ss')
      L.Stms :=
    fun hss => .bind .expectPunct fun _ _ _ hle _ => .pure (L.stms hle hss)
  split
  · exact hend .nil
  · exact .bind (effect_alike (L.enough_mono h1 h) (L.names h1 hn)) fun _ _ _ _ he =>
      hend (.cons (L.eval he.2) .nil)

/-! ## Statements -/

section Statements

variable {statement statement' : Read Stmt} {t t' : Token}

/-- A block has a scope of its own. -/
theorem block_alike {items items' : Read (List Stmt)} (hb : L.layer.Bodies)
    (ht : L.Current w t t') (hend : t.kind ≠ .endOfFile) (hlegal : t.kind ≠ .illegal)
    (hitems : ∀ v, L.Moved w v → L.Alike v items items' L.Stms) :
    L.Alike w (block items) (block items') (L.Beyond w L.Stm) := by
  refine .bind (.take ht hend hlegal) fun v1 _ _ _ ⟨h1, _⟩ => ?_
  refine .bind (inScope_alike hb (fun v hv => hitems v (L.moved_le h1 hv))
    fun _ _ _ _ => L.stms) fun v2 ss ss' h12 hss => .pure ?_
  exact ⟨L.moved_le h1 h12, L.block hss⟩

variable (hs : ∀ v, L.Moved w v → L.Alike v statement statement' (L.Beyond v L.Stm))
  (h : L.Enough 0 w n m) (hn : L.Names w) (ht : L.Current w t t') (hend : t.kind ≠ .endOfFile)
  (hlegal : t.kind ≠ .illegal)

include hs h hn ht hend hlegal

/-- A branch with or without an alternative. -/
theorem conditional_alike :
    L.Alike w (conditional statement n) (conditional statement' m) (L.Beyond w L.Stm) := by
  refine .bind (.take ht hend hlegal) fun v1 _ _ _ ⟨h1, _⟩ => ?_
  refine .bind (condition_alike (L.enough_moved h1 h) (L.names (L.le h1) hn))
    fun v2 e e' h12 he => ?_
  have h2 := L.moved_le h1 h12
  refine .bind (hs v2 h2) fun v3 a a' h23 ⟨_, ha⟩ => .kind fun v4 t t' h34 ht => ?_
  have h24 := L.trans h23 h34
  split
  · rename_i hk
    have hk := eq_of_beq hk
    refine .bind (.take ht (by simp [hk]) (by simp [hk])) fun v5 _ _ h45 _ => ?_
    have h25 := L.trans h24 h45
    refine .bind (hs v5 (L.moved_le h2 h25)) fun v6 b b' h56 ⟨_, hb⟩ => .pure ?_
    have h46 := L.trans h45 h56
    exact ⟨L.moved_le h2 (L.trans h24 h46), L.ifElse (L.val (L.trans h24 h46) he)
      (L.stm (L.trans h34 h46) ha) hb⟩
  · exact .pure ⟨L.moved_le h2 h24, L.ifThen (L.val h24 he) (L.stm h34 ha)⟩

/-- A loop with its condition before the body. -/
theorem whileLoop_alike :
    L.Alike w (whileLoop statement n) (whileLoop statement' m) (L.Beyond w L.Stm) := by
  refine .bind (.take ht hend hlegal) fun v1 _ _ _ ⟨h1, _⟩ => ?_
  refine .bind (condition_alike (L.enough_moved h1 h) (L.names (L.le h1) hn))
    fun v2 e e' h12 he => ?_
  have h2 := L.moved_le h1 h12
  refine .bind (hs v2 h2) fun v3 a a' h23 ⟨_, ha⟩ => .pure ?_
  exact ⟨L.moved_le h2 h23, L.loop (L.val h23 he) ha⟩

omit h ht hend hlegal in
/-- The head of a `for` loop and its body. -/
theorem forParts_alike {p p' : Int} (hb : L.layer.Bodies) (hv : L.Moved w v)
    (h : L.Enough 2 v n m) (hp : L.Pos v p p') :
    L.Alike v (forParts statement p n) (forParts statement' p' m) L.Stm := by
  have hn := L.names (L.le hv) hn
  refine .bind (forStart_alike hb h hn) fun v1 ss ss' h1 hss => ?_
  refine .bind (forCondition_alike (L.enough_mono h1 h) (L.names h1 hn) (L.pos h1 hp))
    fun v2 e e' h12 he => ?_
  have h2 := L.trans h1 h12
  refine .bind (forUpdate_alike (L.enough_mono h2 h) (L.names h2 hn)) fun v3 us us' h23 hus => ?_
  have h3 := L.trans h2 h23
  refine .bind (hs v3 (L.moved_le hv h3)) fun v4 a a' h34 ⟨_, ha⟩ => .pure ?_
  have h24 := L.trans h23 h34
  have hbody := L.block (.cons ha (L.stms h34 hus))
  exact L.block (List.rel_append (L.stms (L.trans h12 h24) hss)
    (.cons (L.loop (L.val h24 he) hbody) .nil))

/-- A `for` loop has a scope of its own. -/
theorem forLoop_alike (hb : L.layer.Bodies) :
    L.Alike w (forLoop statement t.pos n) (forLoop statement' t'.pos m) (L.Beyond w L.Stm) := by
  refine .bind (.take ht hend hlegal) fun v1 _ _ _ ⟨h1, _, ht⟩ => .bind .expectPunct
    fun v2 _ _ h12 _ => ?_
  have h2 := L.moved_le h1 h12
  have hparts : ∀ v, L.Le v2 v →
      L.Alike v (forParts statement t.pos n) (forParts statement' t'.pos m) L.Stm := by
    intro v hv
    have hmoved := L.moved_le h2 hv
    exact forParts_alike hs hn hb hmoved (L.enough_moved hmoved h)
      (L.taken_pos (L.taken (L.trans h12 hv) ht))
  refine (inScope_alike hb hparts fun _ _ _ _ => L.stm).mono fun v3 a a' h23 ha => ?_
  exact ⟨L.moved_le h2 h23, ha⟩

end Statements

/-- Statements and the items of blocks call each other: both go by one induction on the levels. -/
theorem statement_blockItems_alike {ret : CType} (hb : L.layer.Bodies) (n : Nat) :
    (∀ {w m}, L.Enough 3 w n m → L.Names w →
        L.Alike w (statement ret n) (statement ret m) (L.Beyond w L.Stm)) ∧
      ∀ {w m}, L.Enough 4 w n m → L.Names w →
        L.Alike w (blockItems ret n) (blockItems ret m)
          fun v ss ss' => L.Fresh v ∧ L.Stms v ss ss' := by
  induction n with
  | zero =>
    refine ⟨fun h _ => ?_, fun h _ => ?_⟩
    · rw [statement]
      exact .exhausted h (by rintro rfl; rw [statement])
    · rw [blockItems]
      exact .exhausted h (by rintro rfl; rw [blockItems])
  | succ n ih =>
    refine ⟨fun {w m} h hn => ?_, fun {w m} h hn => ?_⟩
    · obtain ⟨m, rfl⟩ := L.enough_succ h
      rw [statement, statement]
      refine .token fun v1 t t' h1 ht => ?_
      rw [L.kind ht]
      have hdown := L.enough_mono h1 (L.enough_down h)
      have hdeep : L.Enough 0 v1 n m := L.enough_le (by omega) hdown
      have hn1 := L.names h1 hn
      have hbeyond : ∀ {x y : Read Stmt}, L.Alike v1 x y (L.Beyond v1 L.Stm) →
          L.Alike v1 x y (L.Beyond w L.Stm) :=
        fun hx => hx.mono fun _ _ _ _ hQ => ⟨L.moved h1 hQ.1, hQ.2⟩
      have hstatement : ∀ v, L.Moved v1 v →
          L.Alike v (statement ret n) (statement ret m) (L.Beyond v L.Stm) :=
        fun v hv => ih.1 (L.enough_le (by omega) (L.enough_again h (L.moved h1 hv)))
          (L.names (L.le hv) hn1)
      split
      · rename_i hk
        refine hbeyond (block_alike hb ht (by simp [hk]) (by simp [hk]) fun v hv => ?_)
        exact (ih.2 (L.enough_again h (L.moved h1 hv)) (L.names (L.le hv) hn1)).mono
          fun _ _ _ _ hQ => hQ.2
      · rename_i hk
        refine .bind (.take ht (by simp [hk]) (by simp [hk])) fun v2 _ _ _ ⟨hmoved, _⟩ => .pure ?_
        exact ⟨L.moved h1 hmoved, L.block .nil⟩
      · rename_i hk
        refine .bind (.take ht (by simp [hk]) (by simp [hk])) fun v2 _ _ h12 ⟨hmoved, _, ht⟩ => ?_
        refine (returnStatement_alike (L.enough_mono h12 hdown) (L.names h12 hn1)
          (L.taken_pos ht)).mono fun v3 a a' h23 ha => ⟨L.moved_le (L.moved h1 hmoved) h23, ha⟩
      · rename_i hk
        refine .bind (.take ht (by simp [hk]) (by simp [hk])) fun v2 _ _ h12 ⟨hmoved, _, ht⟩ => ?_
        refine (exitStatement_alike (L.enough_mono h12 hdown) (L.names h12 hn1)
          (L.taken_pos ht)).mono fun v3 a a' h23 ha => ⟨L.moved_le (L.moved h1 hmoved) h23, ha⟩
      · rename_i hk
        exact hbeyond (conditional_alike hstatement hdeep hn1 ht (by simp [hk]) (by simp [hk]))
      · rename_i hk
        exact hbeyond (whileLoop_alike hstatement hdeep hn1 ht (by simp [hk]) (by simp [hk]))
      · rename_i hk
        exact hbeyond (forLoop_alike hstatement hdeep hn1 ht (by simp [hk]) (by simp [hk]) hb)
      · exact hbeyond (effectStatement_alike hdown hn1)
    · obtain ⟨m, rfl⟩ := L.enough_succ h
      rw [blockItems, blockItems]
      refine .kind fun v1 t t' h1 ht => ?_
      -- An item is read, and then the items behind it.
      have hagain : ∀ {v ss ss'}, L.Moved v1 v → L.Stms v ss ss' →
          L.Alike v (do return ss ++ (← blockItems ret n)) (do return ss' ++ (← blockItems ret m))
            fun v ss ss' => L.Fresh v ∧ L.Stms v ss ss' := by
        intro v ss ss' hv hss
        have hmoved := L.moved h1 hv
        refine .bind (ih.2 (L.enough_le (by omega) (L.enough_again h hmoved))
          (L.names (L.le hmoved) hn)) fun u ts ts' hle ⟨hfresh, hts⟩ => .pure ⟨hfresh, ?_⟩
        exact List.rel_append (L.stms hle hss) hts
      have hdown := L.enough_mono h1 (L.enough_down h)
      have hn1 := L.names h1 hn
      split
      · rename_i hk
        refine .bind (.take ht (by simp [hk]) (by simp [hk])) fun v2 _ _ _ ⟨_, hfresh, _⟩ => ?_
        exact .pure ⟨hfresh, .nil⟩
      · exact .unexpected
      · split
        · exact .bind (declaration_alike hb (L.enough_le (by omega) hdown) hn1)
            fun v2 ss ss' _ ⟨hmoved, _, hss⟩ => hagain hmoved hss
        · exact .bind (ih.1 hdown hn1) fun v2 a a' _ ⟨hmoved, ha⟩ =>
            hagain hmoved (.cons ha .nil)

/-- **Statements are read alike.** -/
theorem statement_alike {ret : CType} (hb : L.layer.Bodies) (h : L.Enough 3 w n m)
    (hn : L.Names w) :
    L.Alike w (statement ret n) (statement ret m) (L.Beyond w L.Stm) :=
  (statement_blockItems_alike hb n).1 h hn

/-- The items of a block up to its closing brace. -/
theorem blockItems_alike {ret : CType} (hb : L.layer.Bodies) (h : L.Enough 4 w n m)
    (hn : L.Names w) :
    L.Alike w (blockItems ret n) (blockItems ret m)
      fun v ss ss' => L.Fresh v ∧ L.Stms v ss ss' :=
  (statement_blockItems_alike hb n).2 h hn

/-- A declaration or a statement. -/
theorem blockItem_alike {ret : CType} (hb : L.layer.Bodies) (h : L.Enough 3 w n m)
    (hn : L.Names w) :
    L.Alike w (blockItem ret n) (blockItem ret m) (L.Beyond w L.Stms) := by
  refine .kind fun v1 t t' h1 ht => ?_
  have h := L.enough_mono h1 h
  have hn := L.names h1 hn
  split
  · exact (declaration_alike hb (L.enough_le (by omega) h) hn).mono fun _ _ _ _ hQ =>
      ⟨L.moved h1 hQ.1, hQ.2.2⟩
  · exact .bind (statement_alike hb h hn) fun _ _ _ _ ha =>
      .pure ⟨L.moved h1 ha.1, .cons ha.2 .nil⟩

/-- A statement up to the end of the text. -/
theorem loneStatement_alike (hb : L.layer.Bodies) (h : L.Enough 3 w n m) (hn : L.Names w) :
    L.Alike w (loneStatement n) (loneStatement m) L.Stm := by
  refine .bind (blockItem_alike hb h hn) fun v1 ss ss' h1 ⟨_, hss⟩ => .isAt fun v2 t t' h12 _ => ?_
  refine .optional (Q := L.Any) .unexpected fun v3 h23 => ?_
  have hss := L.stms (L.trans h12 h23) hss
  cases hss with
  | nil => exact .pure (L.block .nil)
  | cons ha has =>
    cases has with
    | nil => exact .pure ha
    | cons hb hbs => exact .pure (L.block (.cons ha (.cons hb hbs)))

/-! ## Global variables -/

/-- A global variable has a type with a size and no initial value. -/
theorem declareGlobal_alike {type : CType} {name name' : Token} (hf : L.layer = .file)
    (ht : L.Typ type) (hname : L.Name w name name') :
    L.Alike w (declareGlobal type name) (declareGlobal type name') L.Any := by
  have hp := L.taken_pos hname.1
  unfold declareGlobal
  rw [L.taken_literal hname.1]
  split
  · exact .stop (.fail rfl rfl hp)
  · rename_i hvoid
    refine layout_alike fun l l' hl => ?_
    refine checked_bind_alike (L.size hl hp (L.sized ht)) fun _ _ _ => ?_
    refine .isAt fun v1 t t' h1 _ => ?_
    split
    · exact .position fun v2 p p' _ hp => .stop (.fail rfl rfl hp)
    · exact L.addGlobal hf (L.name h1 hname) ht (by simpa using hvoid)

/-- The variables of one declaration. -/
theorem globals_alike {base type : CType} {name name' : Token} (hf : L.layer = .file)
    (h : L.Enough 0 w n m) (hb : L.Typ base) (ht : L.Typ type) (hname : L.Name w name name') :
    L.Alike w (globals base n type name) (globals base m type name')
      (L.Beyond w fun v _ _ => L.Fresh v) := by
  induction n generalizing w m type name name' with
  | zero => exact .exhausted h (by rintro rfl; rfl)
  | succ n ih =>
    obtain ⟨m, rfl⟩ := L.enough_succ h
    refine .bind (declareGlobal_alike hf ht hname) fun v1 _ _ h1 _ => ?_
    refine .accept (fun v2 h12 _ => ?_) fun v2 h12 => ?_
    · have h2 := L.moved h1 h12
      have henough := L.enough_again h h2
      refine .bind (declarator_alike (L.enough_le (by omega) henough) hb)
        fun v3 d d' h23 ⟨_, htype, htyp, hname⟩ => ?_
      obtain ⟨type, name⟩ := d
      obtain ⟨type', name'⟩ := d'
      obtain rfl : type' = type := htype
      have henough := L.enough_mono h23 henough
      refine (ih (L.enough_le (by omega) henough) htyp hname).mono fun v4 _ _ h34 hQ => ?_
      exact ⟨L.moved_le h2 (L.trans h23 h34), hQ.2⟩
    · refine .bind .expectPunct fun v3 _ _ h23 ⟨hmoved, hfresh⟩ => .pure ?_
      exact ⟨L.moved (L.trans h1 h12) hmoved, hfresh⟩

/-! ## Functions -/

/-- A parameter is of scalar type once it has decayed. -/
theorem parameter_alike (hh : L.layer.Heads) (h : L.Enough 0 w n m) (hn : L.Names w) :
    L.Alike w (parameter n) (parameter m) (L.Beyond w L.Prm) := by
  refine .kind fun v1 t t' h1 _ => .optional (Q := L.Any) .unexpected fun v2 h12 => ?_
  have h2 := L.trans h1 h12
  have h := L.enough_mono h2 h
  refine .bind (baseType_alike h) fun v3 b b' h23 ⟨hmoved, htype, htyp⟩ => ?_
  subst htype
  refine .bind (declarator_alike (L.enough_mono h23 h) htyp)
    fun v4 d d' h34 ⟨_, htype, htyp, hname⟩ => ?_
  obtain ⟨type, name⟩ := d
  obtain ⟨type', name'⟩ := d'
  obtain rfl : type' = type := htype
  dsimp only
  rw [L.taken_literal hname.1]
  split
  · exact .fail rfl rfl (L.taken_pos hname.1)
  · exact .fail rfl rfl (L.taken_pos hname.1)
  · rename_i hvoid hstruct
    have hn := L.names (L.trans h2 (L.trans h23 h34)) hn
    refine (L.addParameter hh hn hname htyp hvoid hstruct).mono fun v5 p p' h45 hp => ?_
    exact ⟨L.moved h2 (L.moved_le hmoved (L.trans h34 h45)), hp⟩

/-- The parameters up to the closing parenthesis. -/
theorem parameters_alike {first : Bool} (hh : L.layer.Heads) (h : L.Enough 1 w n m)
    (hn : L.Names w) :
    L.Alike w (parameters n first) (parameters m first)
      (L.Beyond w fun v ps ps' => L.Fresh v ∧ List.Forall₂ (L.Prm v) ps ps') := by
  induction n generalizing w m first with
  | zero => exact .exhausted h (by rintro rfl; rfl)
  | succ n ih =>
    obtain ⟨m, rfl⟩ := L.enough_succ h
    refine .accept (fun v1 h1 hfresh => .pure ⟨h1, hfresh, .nil⟩) fun v1 h1 => ?_
    refine .optional .expectPunct fun v2 h12 => ?_
    have h2 := L.trans h1 h12
    refine .bind (parameter_alike hh (L.enough_mono h2 (L.enough_down h)) (L.names h2 hn))
      fun v3 p p' _ ⟨hmoved, hp⟩ => ?_
    have h3 := L.moved h2 hmoved
    refine .bind (ih (L.enough_le (by omega) (L.enough_again h h3)) (L.names (L.le h3) hn))
      fun v4 ps ps' h34 ⟨_, hfresh, hps⟩ => .pure ?_
    exact ⟨L.moved_le h3 h34, hfresh, .cons (L.prm h34 hp) hps⟩

/-- No function returns a struct or an array. -/
theorem checkReturn_alike {ret : CType} {name name' : Token} (hname : L.Name w name name') :
    L.Alike w (checkReturn ret name) (checkReturn ret name') fun _ _ _ =>
      (∀ struct, ret ≠ .struct struct) ∧ ∀ elem length, ret ≠ .array elem length := by
  unfold checkReturn
  rw [L.taken_literal hname.1]
  split
  · exact .fail rfl rfl (L.taken_pos hname.1)
  · exact .fail rfl rfl (L.taken_pos hname.1)
  · rename_i hstruct harray
    exact .pure ⟨hstruct, harray⟩

/-- A function ends with a semicolon or has a body. -/
theorem functionBody_alike {file source file' source' : Bytes} {ret : CType} {name name' : Token}
    {params params' : List Param} (hf : L.layer = .file) (h : L.Enough 4 w n m)
    (hn : L.Names w) (hsource : L.Source file source file' source') (hname : L.Name w name name')
    (hps : List.Forall₂ (L.Prm w) params params') :
    L.Alike w (functionBody file source ret name params n)
      (functionBody file' source' ret name' params' m) (L.Beyond w fun v _ _ => L.Fresh v) := by
  refine .accept (fun v1 h1 hfresh => .pure ⟨h1, hfresh⟩) fun v1 h1 => ?_
  refine .accept (fun v2 h12 _ => ?_) fun v2 _ => .unexpected
  have h2 := L.moved h1 h12
  have hb : L.layer.Bodies := .inr hf
  refine .bind (blockItems_alike hb (L.enough_mono (L.le h2) h) (L.names (L.le h2) hn))
    fun v3 ss ss' h23 ⟨hfresh, hss⟩ => ?_
  have h3 := L.moved_le h2 h23
  refine (L.defineFunction hf (L.names (L.le h3) hn) hsource (L.name (L.le h3) hname)
    (L.prms (L.le h3) hps) hss).mono fun v4 _ _ h34 hQ => ?_
  exact ⟨L.moved_le h3 h34, hQ hfresh⟩

/-- The list of parameters comes first. One more token is read behind it. -/
theorem parameterList_alike {β : Type} {f g : List Param → Read β} {S : L.World → β → β → Prop}
    (hh : L.layer.Heads) (h : L.Enough 1 w n m) (hn : L.Names w)
    (hf : ∀ v ps ps', L.Moved w v → List.Forall₂ (L.Prm v) ps ps' →
      L.Alike v (f ps) (g ps') (L.Beyond v S)) :
    L.Alike w (parameterList n >>= f) (parameterList m >>= g) S := by
  unfold parameterList
  simp only [bind_assoc]
  refine .isAt fun v1 t t' h1 _ => .peekKind_twice fun k => ?_
  have hps : L.Alike v1
      (if (t.kind == .keyword .void && k == .punct .rightParen) = true then
        next >>= fun _ => parameters n true else parameters n true)
      (if (t.kind == .keyword .void && k == .punct .rightParen) = true then
        next >>= fun _ => parameters m true else parameters m true)
      (L.Beyond v1 fun v => List.Forall₂ (L.Prm v)) := by
    refine .optional .next fun v2 h12 => ?_
    have h2 := L.trans h1 h12
    refine (parameters_alike hh (L.enough_mono h2 h) (L.names h2 hn)).mono fun v3 _ _ _ hQ => ?_
    exact ⟨L.moved h12 hQ.1, hQ.2.2⟩
  refine .bind hps fun v2 ps ps' _ ⟨hmoved, hps⟩ => ?_
  refine (hf v2 ps ps' (L.moved h1 hmoved) hps).mono fun v3 _ _ _ hQ => ?_
  exact ⟨⟨v2, hmoved, hQ.1⟩, hQ.2⟩

/-- A function is declared before its body is read, so that it can call itself. -/
theorem function_alike {file source file' source' : Bytes} {ret : CType} {name name' : Token}
    (hf : L.layer = .file) (h : L.Enough 4 w n m)
    (hsource : L.Source file source file' source') (ht : L.Typ ret)
    (hname : L.Name w name name') :
    L.Alike w (function file source ret name n) (function file' source' ret name' m)
      fun v _ _ => L.Fresh v := by
  refine .bind (checkReturn_alike hname) fun v1 _ _ h1 ⟨hstruct, harray⟩ => .bind .next
    fun v2 _ _ h12 _ => .bind (L.enter hf) fun v3 _ _ h23 hn => ?_
  have h3 := L.trans h1 (L.trans h12 h23)
  have h := L.enough_mono h3 h
  refine parameterList_alike (.inr hf) (L.enough_le (by omega) h) hn fun v4 ps ps' h34 hps => ?_
  have hname := L.name (L.trans h3 (L.le h34)) hname
  refine .bind (L.declareFunction hf hname ht hstruct harray hps) fun v5 _ _ h45 _ => ?_
  have h35 := L.trans (L.le h34) h45
  refine (functionBody_alike hf (L.enough_mono h35 h) (L.names h35 hn) hsource
    (L.name h45 hname) (L.prms h45 hps)).mono fun v6 _ _ _ hQ => ?_
  exact ⟨L.moved h45 hQ.1, hQ.2⟩

/-! ## Files -/

/-- A declaration or definition at file level. It knows where it ends. -/
theorem item_alike {file source file' source' : Bytes} (hf : L.layer = .file)
    (h : L.Enough 4 w n m) (hsource : L.Source file source file' source') :
    L.Alike w (item file source n) (item file' source' m)
      (L.Beyond w fun v _ _ => L.Fresh v) := by
  refine .kind fun v1 t t' h1 _ => .optional (Q := L.Any) .unexpected fun v2 h12 => ?_
  have h2 := L.trans h1 h12
  have h := L.enough_mono h2 h
  have hdeep : L.Enough 0 v2 n m := L.enough_le (by omega) h
  refine .bind (baseType_alike hdeep) fun v3 b b' h23 ⟨hmoved, htype, hbase⟩ => ?_
  subst htype
  have h3 := L.moved h2 hmoved
  refine .accept (fun v4 h34 hfresh => .pure ⟨L.moved_le h3 (L.le h34), hfresh⟩) fun v4 h34 => ?_
  have h24 := L.trans h23 h34
  refine .bind (declarator_alike (L.enough_mono h24 hdeep) hbase)
    fun v5 d d' h45 ⟨_, htype, htyp, hname⟩ => .isAt fun v6 t t' h56 _ => ?_
  obtain ⟨type, name⟩ := d
  obtain ⟨type', name'⟩ := d'
  obtain rfl : type' = type := htype
  have hname := L.name h56 hname
  have h46 := L.trans h45 h56
  have h6 := L.moved_le h3 (L.trans h34 h46)
  split
  · exact (function_alike hf (L.enough_mono (L.trans h24 h46) h) hsource htyp hname).mono
      fun v7 _ _ h67 hfresh => ⟨L.moved_le h6 h67, hfresh⟩
  · exact (globals_alike hf (L.enough_mono (L.trans h24 h46) hdeep) hbase htyp hname).mono
      fun v7 _ _ h67 hQ => ⟨L.moved_le h6 h67, hQ.2⟩

/-- **All items of a file are read alike**, each with what is left of the bound. -/
theorem items_alike {file source file' source' : Bytes} (hf : L.layer = .file)
    (h : L.Enough 5 w n m) (hsource : L.Source file source file' source') :
    L.Alike w (items file source n) (items file' source' m) L.Any := by
  induction n generalizing w m with
  | zero => exact .exhausted h (by rintro rfl; rfl)
  | succ n ih =>
    obtain ⟨m, rfl⟩ := L.enough_succ h
    refine .isAt fun v1 t t' h1 _ => ?_
    split
    · exact .pure trivial
    · refine .bind (item_alike hf (L.enough_mono h1 (L.enough_down h)) hsource)
        fun v2 _ _ _ ⟨hmoved, _⟩ => ?_
      exact ih (L.enough_le (by omega) (L.enough_again h (L.moved h1 hmoved)))

end Grammar

end DirectC
