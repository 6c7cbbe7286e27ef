/-
# The course of reading

All that a reader does to the state is made up of few moves: it goes on to the next token, takes a
string into the pool, defines a struct behind its closed body, and, if it reads more than
expressions, changes the scopes and makes declarations. `Reading.Trail k s t` says that such moves
lead from `s` to `t`. What reading does or does not do to the state is proved of the moves
(`Trail.induct`), and then holds of every reader that keeps to a trail.
-/
import DirectC.Grammar.SourceFile
import DirectC.Proofs.Environment
import DirectC.Proofs.Grammar.Running
import DirectC.Proofs.Scanner

namespace DirectC

namespace Grammar

namespace Reading

/-- **The moves of reading** lead from one state to another. -/
inductive Trail (k : Layer) : Reading → Reading → Prop where
  | refl (s : Reading) : Trail k s s
  | next {s t : Reading} (h : Trail k s t) : Trail k s t.rest
  | intern {s t : Reading} (h : Trail k s t) (value : Bytes) :
    Trail k s { t with env := (t.env.intern value).2 }
  /-- A struct is defined behind its name and its body, with the fields that the body holds. -/
  | struct {s t u : Reading} {fuel : Nat} {fields : List Field} {l : Layout} (h : Trail k s t)
    (hkeyword : t.current.kind = .keyword .struct) (hname : t.rest.current.kind = .identifier)
    (hbrace : t.rest.rest.current.kind = .punct .leftBrace) (hbody : Trail k t.rest.rest.rest u)
    (hfields : members t.rest.current.literal fuel t.rest.rest.rest = .ok fields u)
    (hl : u.env.layout.define t.rest.current.literal fields = .ok l) :
    Trail k s { u with env := { u.env with layout := l } }
  /-- A scope is opened or closed. -/
  | scope {s t : Reading} (hk : k.Bodies) (h : Trail k s t) {sc : Scope}
    (hlocals : sc.locals = t.scope.locals) : Trail k s { t with scope := sc }
  /-- A local variable is declared, of a type that is known. -/
  | inner {s t : Reading} (hk : k.Bodies) (h : Trail k s t) {sc : Scope} {v : LocalVar}
    (hlocals : sc.locals = t.scope.locals) (hknown : t.env.layout.Knows v.type) :
    Trail k s (t.withLocal sc v)
  | param {s t : Reading} (hk : k.Heads) (h : Trail k s t) {sc : Scope}
    (hlocals : sc.locals = t.scope.locals) : Trail k s (t.withParam sc)
  /-- A function begins. -/
  | enter {s t : Reading} (hk : k = .file) (h : Trail k s t) : Trail k s t.entered
  | declare {s t : Reading} (hk : k = .file) (h : Trail k s t) (e : Event) : Trail k s (t.made e)

variable {k : Layer} {s t u : Reading}

/-- Trails may follow each other. -/
theorem Trail.trans (h : Trail k s t) (h' : Trail k t u) : Trail k s u := by
  induction h' with
  | refl => exact h
  | next _ ih => exact .next (ih h)
  | intern _ value ih => exact .intern (ih h) value
  | struct _ hkeyword hname hbrace hbody hfields hl ih =>
    exact .struct (ih h) hkeyword hname hbrace hbody hfields hl
  | scope hk _ hlocals ih => exact .scope hk (ih h) hlocals
  | inner hk _ hlocals hknown ih => exact .inner hk (ih h) hlocals hknown
  | param hk _ hlocals ih => exact .param hk (ih h) hlocals
  | enter hk _ ih => exact .enter hk (ih h)
  | declare hk _ e ih => exact .declare hk (ih h) e

/-- **What every move does, a trail does**, if it is something that adds up. Scopes change together
with the part of the log that is about the function being read. -/
theorem Trail.induct {R : Reading → Reading → Prop} (hrefl : ∀ s, R s s)
    (htrans : ∀ {s t u}, R s t → R t u → R s u) (hnext : ∀ s, R s s.rest)
    (hintern : ∀ s value, R s { s with env := (s.env.intern value).2 })
    (hstruct : ∀ s name fields l, s.env.layout.define name fields = .ok l →
      R s { s with env := { s.env with layout := l } })
    (hscope : k ≠ .expression → ∀ s sc log, log.events = s.log.events →
      R s { s with scope := sc, log := log })
    (hdeclare : k = .file → ∀ s e, R s (s.made e)) (h : Trail k s t) : R s t := by
  induction h with
  | refl s => exact hrefl s
  | next _ ih => exact htrans ih (hnext _)
  | intern _ value ih => exact htrans ih (hintern _ value)
  | @struct s t u _ _ _ _ _ _ _ _ _ hl ih ihbody =>
    have hhead : R t t.rest.rest.rest := htrans (htrans (hnext _) (hnext _)) (hnext _)
    exact htrans ih (htrans (htrans hhead ihbody) (hstruct u _ _ _ hl))
  | scope hk _ _ ih => exact htrans ih (hscope hk.ne_expression _ _ _ rfl)
  | inner hk _ _ _ ih => exact htrans ih (hscope hk.ne_expression _ _ _ rfl)
  | param hk _ _ ih => exact htrans ih (hscope hk.ne_expression _ _ _ rfl)
  | enter hk _ ih => exact htrans ih (hscope (by simp [hk]) _ _ _ rfl)
  | declare hk _ e ih => exact htrans ih (hdeclare hk _ e)

/-! ## Tokens -/

/-- Going on only takes a token away. -/
theorem text_rest (s : Reading) : s.rest.text <:+ s.text := by
  unfold rest
  split
  · exact List.suffix_rfl
  · rename_i tok ts ha
    rw [text, text, ha]
    exact List.suffix_cons _ _

/-- Reading uses up tokens from the front. -/
theorem Trail.text (h : Trail k s t) : t.text <:+ s.text := by
  refine h.induct (R := fun s t => t.text <:+ s.text) ?_ ?_ text_rest ?_ ?_ ?_ ?_
  · exact fun _ => List.suffix_rfl
  · exact fun h h' => h'.trans h
  · exact fun _ _ => List.suffix_rfl
  · exact fun _ _ _ _ _ => List.suffix_rfl
  · exact fun _ _ _ _ _ => List.suffix_rfl
  · exact fun _ _ _ => List.suffix_rfl

/-- The number of tokens behind the next one. -/
def left (s : Reading) : Nat :=
  s.ahead.length

/-- The end of file is the last token. -/
def Ended (s : Reading) : Prop :=
  (s.text.getLast (List.cons_ne_nil _ _)).kind = .endOfFile

/-- At first all tokens of the source are ahead. -/
theorem start_text (source : Bytes) (env : Env) : (start source env).text = Token.scan source := by
  obtain ⟨ts, t, hscan, -⟩ := Token.scan_ended source
  unfold start
  split
  · rename_i h
    rw [h] at hscan
    simp at hscan
  · rename_i h
    exact h.symm

/-- Every text ends with the end of file. -/
theorem start_ended (source : Bytes) (env : Env) : (start source env).Ended := by
  obtain ⟨ts, t, hscan, ht⟩ := Token.scan_ended source
  unfold Ended
  simp only [start_text, hscan, List.getLast_append_singleton]
  exact ht

/-- A text that goes on to its end still has it ahead. -/
theorem Ended.of_suffix (hs : s.Ended) (h : t.text <:+ s.text) : t.Ended := by
  rw [Ended, h.getLast (List.cons_ne_nil _ _)]
  exact hs

/-- The last token stays the end of the file. -/
theorem Trail.ended (h : Trail k s t) (hs : s.Ended) : t.Ended :=
  hs.of_suffix h.text

theorem rest_ended (hs : s.Ended) : s.rest.Ended :=
  hs.of_suffix s.text_rest

/-- The fewer tokens are ahead, the fewer are left. -/
theorem left_le_of_suffix (h : t.text <:+ s.text) : t.left ≤ s.left := by
  have := h.length_le
  simpa [Reading.text, left] using this

/-- No token comes back. -/
theorem Trail.left_le (h : Trail k s t) : t.left ≤ s.left :=
  left_le_of_suffix h.text

/-- Only the last token is at the end of file. -/
theorem text_eq_of_ne (hs : s.Ended) (h : s.current.kind ≠ .endOfFile) :
    s.text = s.current :: s.rest.text := by
  unfold rest text
  split
  · rename_i ha
    unfold Ended at hs
    simp only [text, ha, List.getLast_singleton] at hs
    exact absurd hs h
  · rename_i ha
    rw [ha]

/-- **Going on from any other token uses it up.** -/
theorem left_rest (hs : s.Ended) (h : s.current.kind ≠ .endOfFile) : s.rest.left < s.left := by
  have := congrArg List.length (text_eq_of_ne hs h)
  simp only [text, List.length_cons] at this
  unfold left
  omega

/-! ## What the layers leave alone -/

/-- Only the items of a file declare something. -/
theorem Trail.declarations (hk : k ≠ .file) (h : Trail k s t) :
    t.env.declarations = s.env.declarations := by
  refine h.induct (R := fun s t => t.env.declarations = s.env.declarations) ?_ ?_ ?_ ?_ ?_ ?_ ?_
  · exact fun _ => rfl
  · exact fun h h' => h'.trans h
  · exact fun s => by rw [rest_env]
  · exact fun s value => s.env.declarations_intern value
  · exact fun _ _ _ _ _ => rfl
  · exact fun _ _ _ _ _ => rfl
  · exact fun h => absurd h hk

/-- An expression leaves the scopes alone. -/
theorem Trail.scopes (h : Trail .expression s t) : t.scope = s.scope := by
  refine h.induct (R := fun s t => t.scope = s.scope) ?_ ?_ ?_ ?_ ?_ ?_ ?_
  · exact fun _ => rfl
  · exact fun h h' => h'.trans h
  · exact fun s => rest_scope
  · exact fun _ _ => rfl
  · exact fun _ _ _ _ _ => rfl
  · exact fun hk => absurd rfl hk
  · exact fun hk => absurd hk Layer.expression_ne_file

/-- An expression leaves the log alone. -/
theorem Trail.logs (h : Trail .expression s t) : t.log = s.log := by
  refine h.induct (R := fun s t => t.log = s.log) ?_ ?_ ?_ ?_ ?_ ?_ ?_
  · exact fun _ => rfl
  · exact fun h h' => h'.trans h
  · exact fun s => rest_log
  · exact fun _ _ => rfl
  · exact fun _ _ _ _ _ => rfl
  · exact fun hk => absurd rfl hk
  · exact fun hk => absurd hk Layer.expression_ne_file

/-- The items of a file may do all that their parts do. -/
theorem Trail.inFile (h : Trail k s t) : Trail .file s t := by
  induction h with
  | refl s => exact .refl s
  | next _ ih => exact .next ih
  | intern _ value ih => exact .intern ih value
  | struct _ hkeyword hname hbrace _ hfields hl ih ihbody =>
    exact .struct ih hkeyword hname hbrace ihbody hfields hl
  | scope _ _ hlocals ih => exact .scope Layer.file_bodies ih hlocals
  | inner _ _ hlocals hknown ih => exact .inner Layer.file_bodies ih hlocals hknown
  | param _ _ hlocals ih => exact .param Layer.file_heads ih hlocals
  | enter _ _ ih => exact .enter rfl ih
  | declare _ _ e ih => exact .declare rfl ih e

/-! ## Strings -/

/-- The pool of strings only grows. -/
theorem Trail.pool (h : Trail k s t) : s.env.strings <+: t.env.strings := by
  refine h.induct (R := fun s t => s.env.strings <+: t.env.strings) ?_ ?_ ?_ ?_ ?_ ?_ ?_
  · exact fun _ => List.prefix_rfl
  · exact fun h h' => h.trans h'
  · exact fun s => rest_env (s := s) ▸ List.prefix_rfl
  · exact fun s value => s.env.strings_isPrefix_intern value
  · exact fun _ _ _ _ _ => List.prefix_rfl
  · exact fun _ _ _ _ _ => List.prefix_rfl
  · rintro - s (_ | _ | _) <;> exact List.prefix_rfl

/-- No string is taken into the pool twice. -/
theorem Trail.distinct (h : Trail k s t) (hs : s.env.strings.Nodup) : t.env.strings.Nodup := by
  refine h.induct (R := fun s t => s.env.strings.Nodup → t.env.strings.Nodup)
    ?_ ?_ ?_ ?_ ?_ ?_ ?_ hs
  · exact fun _ => id
  · exact fun h h' hs => h' (h hs)
  · exact fun s => by rw [rest_env]; exact id
  · exact fun _ value => Env.nodup_strings_intern value
  · exact fun _ _ _ _ _ => id
  · exact fun _ _ _ _ _ => id
  · rintro - s (_ | _ | _) <;> exact id

end Reading

/-! ## Declarations -/

/-- The environment after some events. -/
def replay (env : Env) (events : List Event) : Env :=
  events.foldl Event.apply env

/-- Events may be replayed in two parts. -/
theorem replay_append (env : Env) (es es' : List Event) :
    replay env (es ++ es') = replay (replay env es) es' :=
  List.foldl_append

/-- An event has nothing to do with layouts and strings. -/
theorem Event.declarations_apply (env : Env) (e : Event) :
    (e.apply env).declarations = e.apply env.declarations := by
  cases e <;> rfl

namespace Reading

variable {k : Layer} {s t u : Reading}

/-- The log grew by events that account for the declarations. -/
def Logs (s t : Reading) (es : List Event) : Prop :=
  t.log.events = s.log.events ++ es ∧ t.env.declarations = replay s.env.declarations es

/-- What is logged in two parts is logged in a row. -/
theorem Logs.trans {es es' : List Event} (h : s.Logs t es) (h' : t.Logs u es') :
    s.Logs u (es ++ es') :=
  ⟨by rw [h'.1, h.1, List.append_assoc], by rw [h'.2, h.2, replay_append]⟩

/-- **The log tells what was declared**, whatever happened. -/
theorem Trail.logged (h : Trail k s t) : ∃ es, s.Logs t es := by
  have hquiet : ∀ {s t : Reading}, t.log.events = s.log.events →
      t.env.declarations = s.env.declarations → ∃ es, s.Logs t es :=
    fun hlog henv => ⟨[], by rw [hlog, List.append_nil], henv⟩
  refine h.induct (R := fun s t => ∃ es, s.Logs t es) ?_ ?_ ?_ ?_ ?_ ?_ ?_
  · exact fun _ => hquiet rfl rfl
  · exact fun ⟨_, h⟩ ⟨_, h'⟩ => ⟨_, h.trans h'⟩
  · exact fun s => hquiet (by rw [rest_log]) (by rw [rest_env])
  · exact fun s value => hquiet rfl (s.env.declarations_intern value)
  · exact fun _ _ _ _ _ => hquiet rfl rfl
  · exact fun _ _ _ _ hlog => hquiet hlog rfl
  · exact fun _ s e => ⟨[e], rfl, e.declarations_apply s.env⟩

/-- Bodies declare nothing. -/
theorem Trail.events (hk : k ≠ .file) (h : Trail k s t) : t.log.events = s.log.events := by
  refine h.induct (R := fun s t => t.log.events = s.log.events) ?_ ?_ ?_ ?_ ?_ ?_ ?_
  · exact fun _ => rfl
  · exact fun h h' => h'.trans h
  · exact fun s => by rw [rest_log]
  · exact fun _ _ => rfl
  · exact fun _ _ _ _ _ => rfl
  · exact fun _ _ _ _ hlog => hlog
  · exact fun h => absurd h hk

end Reading

/-! ## Struct bodies -/

/-- The names of the structs that tokens give bodies to, in their order. -/
def bodies : List Token → List Bytes
  | a :: b :: c :: rest =>
    if a.kind == .keyword .struct && b.kind == .identifier && c.kind == .punct .leftBrace then
      b.literal :: bodies (b :: c :: rest)
    else bodies (b :: c :: rest)
  | _ => []

/-- One more token in front may open one more body. -/
theorem bodies_cons (t : Token) (ts : List Token) :
    ∃ names, bodies (t :: ts) = names ++ bodies ts := by
  match ts with
  | [] | [_] => exact ⟨[], rfl⟩
  | b :: c :: rest =>
    rw [bodies]
    split
    · exact ⟨[b.literal], rfl⟩
    · exact ⟨[], rfl⟩

namespace Reading

variable {k : Layer} {s t u : Reading}

/-- The names of the structs that get bodies from here on. -/
def bodies (s : Reading) : List Bytes :=
  Grammar.bodies (s.current :: s.ahead)

/-- **What reading from `s` to `s'` can do to the layout.** Between the two states stand bodies of
the structs `names`, and the others are what they were. -/
structure Opens (names : List Bytes) (s s' : Reading) : Prop where
  ahead : s.bodies = names ++ s'.bodies
  limits : s'.env.layout.limits = s.env.layout.limits
  others : ∀ n, n ∉ names → s'.env.layout.struct? n = s.env.layout.struct? n

theorem Opens.refl (s : Reading) : Opens [] s s :=
  ⟨rfl, rfl, fun _ _ => rfl⟩

/-- Bodies that are opened in two parts are opened in a row. -/
theorem Opens.trans {names names' : List Bytes} (h : Opens names s t) (h' : Opens names' t u) :
    Opens (names ++ names') s u where
  ahead := by rw [h.ahead, h'.ahead, List.append_assoc]
  limits := h'.limits.trans h.limits
  others n hn := by
    simp only [List.mem_append, not_or] at hn
    exact (h'.others n hn.2).trans (h.others n hn.1)

/-- A struct whose body stands between two states may be defined there. -/
theorem Opens.define {names : List Bytes} {name : Bytes} {fields : List Field} {l : Layout}
    (h : Opens names s t) (hmem : name ∈ names) (hl : t.env.layout.define name fields = .ok l) :
    Opens names s { t with env := { t.env with layout := l } } := by
  obtain ⟨d, hd, rfl⟩ := Layout.define_ok.mp hl
  have hname : d.name = name := by
    obtain ⟨p, _, hd⟩ := except_bind_ok.mp hd
    dsimp only at hd
    split at hd <;> cases hd
    rfl
  refine ⟨h.ahead, h.limits, fun n hn => ?_⟩
  rw [← h.others n hn]
  have hne : d.name ≠ n := by
    rw [hname]
    rintro rfl
    exact hn hmem
  change (t.env.layout.structs.insert d.name d).get? n = _
  rw [Table.get?_insert, if_neg hne]
  rfl

/-- Reading can lead from one state to another, as far as layouts are concerned. -/
def Reaches (s s' : Reading) : Prop :=
  ∃ names, s.Opens names s'

theorem Reaches.refl (s : Reading) : s.Reaches s :=
  ⟨[], .refl s⟩

/-- What can be reached in two parts can be reached in a row. -/
theorem Reaches.trans (h : s.Reaches t) (h' : t.Reaches u) : s.Reaches u := by
  obtain ⟨_, ho⟩ := h
  obtain ⟨_, ho'⟩ := h'
  exact ⟨_, ho.trans ho'⟩

/-- A move that leaves tokens and layout alone. -/
theorem Reaches.of_eq (hcurrent : t.current = s.current) (hahead : t.ahead = s.ahead)
    (hlayout : t.env.layout = s.env.layout) : s.Reaches t :=
  ⟨[], by rw [bodies, bodies, hcurrent, hahead]; rfl, by rw [hlayout], fun _ _ => by rw [hlayout]⟩

theorem reaches_rest (s : Reading) : s.Reaches s.rest := by
  unfold rest
  split
  · exact .refl s
  · rename_i tok ts ha
    obtain ⟨names, hnames⟩ := bodies_cons s.current (tok :: ts)
    exact ⟨names, by rw [bodies, ha]; exact hnames, rfl, fun _ _ => rfl⟩

/-- Behind `struct`, a name and an opening brace, the body of that struct has begun. -/
theorem rest_opens (hkeyword : s.current.kind = .keyword .struct)
    (hname : s.rest.current.kind = .identifier)
    (hbrace : s.rest.rest.current.kind = .punct .leftBrace) :
    s.Opens [s.rest.current.literal] s.rest := by
  -- The tokens cannot run out here, since the last one would be met again.
  unfold rest at hname hbrace ⊢
  cases ha : s.ahead with
  | nil =>
    simp only [ha] at hname
    rw [hkeyword] at hname
    cases hname
  | cons name ts =>
    simp only [ha] at hname hbrace ⊢
    cases ts with
    | nil =>
      simp only at hbrace
      rw [hname] at hbrace
      cases hbrace
    | cons brace more =>
      refine ⟨?_, rfl, fun _ _ => rfl⟩
      simp only at hbrace
      simp [bodies, Grammar.bodies, ha, hkeyword, hname, hbrace]

/-- A trail changes only structs whose bodies it passes. -/
theorem Trail.reaches (h : Trail k s t) : s.Reaches t := by
  induction h with
  | refl s => exact .refl s
  | next _ ih => exact ih.trans (reaches_rest _)
  | intern _ value ih => exact ih.trans (.of_eq rfl rfl (Env.layout_intern _ value))
  | struct _ hkeyword hname hbrace _ _ hl ih ihbody =>
    have hopens := rest_opens hkeyword hname hbrace
    obtain ⟨_, hbody⟩ := ((reaches_rest _).trans (reaches_rest _)).trans ihbody
    exact ih.trans ⟨_, (hopens.trans hbody).define (List.mem_append_left _ (by simp)) hl⟩
  | scope _ _ _ ih => exact ih.trans (.of_eq rfl rfl rfl)
  | inner _ _ _ _ ih => exact ih.trans (.of_eq rfl rfl rfl)
  | param _ _ _ ih => exact ih.trans (.of_eq rfl rfl rfl)
  | enter _ _ ih => exact ih.trans (.of_eq rfl rfl rfl)
  | declare _ _ e ih => exact ih.trans (.of_eq rfl rfl (by cases e <;> rfl))

/-- Limits stay what they are. -/
theorem Trail.limits (h : Trail k s t) : t.env.layout.limits = s.env.layout.limits := by
  obtain ⟨_, hopens⟩ := h.reaches
  exact hopens.limits

end Reading

end Grammar

end DirectC
