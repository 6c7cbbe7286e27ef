/-
# How definitions are read

The events in the log of a text that can be read, each with the moment that it was made at. A
function with a body is read in three steps: its parameters are declared in a fresh scope, its
signature is declared, and then its body is read, in that scope (`ReadBetween`). For every such
function there are the states before and behind its body, with the declarations that were in force,
and the body stands right behind the heading of the function in the text. Every layout in an event
stood while the text was read (`Env.told_readSource`).
-/
import DirectC.Proofs.Grammar.Chronicle
import DirectC.Proofs.Grammar.Record
import DirectC.Proofs.Grammar.Segments

namespace DirectC

namespace Grammar

/-- The heading of a function with a body: its name, which may have lengths behind it, its
parameters in parentheses, and the opening brace. -/
def Heading (f : Function) (ts : List Token) : Prop :=
  ∃ name dims opening params brace, ts = name :: dims ++ opening :: params ++ [brace] ∧
    name.kind = .identifier ∧ name.literal = f.name ∧ name.pos = f.pos ∧ Dimensions dims ∧
    opening.kind = .punct .leftParen ∧ Closing (.punct .rightParen) params ∧
    brace.kind = .punct .leftBrace

/-- A function in the text from `o` on, whose body was read from `v` to `w`, behind its heading and
its parameters. -/
structure ReadBetween (o : Reading) (f : Function) (v w : Reading) : Prop where
  heading : ∃ ts, Heading f ts ∧ ts ++ v.text <:+ o.text
  params : ∃ fuel a b, a.scope = {} ∧ parameters fuel true a = .ok f.params b ∧
    v.scope = b.scope
  body : ∃ fuel items, blockItems f.ret fuel v = .ok items w ∧ f.body = some items
  locals : w.scope.locals = f.locals

/-- What occurs in a body was built while it was read. -/
theorem ReadBetween.built {k : Layer} {o v w : Reading} {f : Function} {items : List Stmt}
    {node : Node} (hk : k.Bodies) (h : ReadBetween o f v w) (hbody : f.body = some items)
    (ho : node.Occurs items) : Built k v w node := by
  obtain ⟨fuel, items', hitems, hbody'⟩ := h.body
  obtain rfl := Option.some.inj (hbody.symm.trans hbody')
  exact Node.All.of_occurs (blockItems_builds hk hitems) ho

/-- **The events between two states** of reading the text from `o` on, and for each body among them
the part of the text that it was read from. -/
structure Told (o s : Reading) (es : List Event) (t : Reading) : Prop where
  trail : s.Trail .file t
  logs : s.Logs t es
  stands : ∀ e ∈ es, e.Stands s t
  bodies : ∀ before f ps ls after, es = before ++ .defined f ps ls :: after →
    ∃ v w, s.Trail .file v ∧ w.Trail .file t ∧ ReadBetween o f v w ∧
      v.env.declarations = replay s.env.declarations before

namespace Told

variable {o s t u : Reading} {es es' : List Event} {e : Event}

/-- Moves that make no event. -/
theorem silent (h : s.Trail .file t) (hlog : t.log.events = s.log.events)
    (hdeclarations : t.env.declarations = s.env.declarations) : Told o s [] t where
  trail := h
  logs := ⟨by rw [hlog, List.append_nil], hdeclarations⟩
  stands := by simp
  bodies before f ps ls after h := by simp at h

/-- Readers below the items of a file make no event. -/
theorem quiet {k : Layer} (hk : k ≠ .file) (h : s.Trail k t) : Told o s [] t :=
  .silent h.inFile (h.events hk) (h.declarations hk)

/-- What is told in two parts is told in a row. -/
theorem trans (h : Told o s es t) (h' : Told o t es' u) : Told o s (es ++ es') u where
  trail := h.trail.trans h'.trail
  logs := h.logs.trans h'.logs
  stands e he := by
    rcases List.mem_append.mp he with he | he
    · exact (h.stands e he).after h'.trail
    · exact (h'.stands e he).before h.trail
  bodies before f ps ls after hsplit := by
    rcases List.append_eq_append_iff.mp hsplit with ⟨more, rfl, hmore⟩ | ⟨more, rfl, hmore⟩
    · obtain ⟨v, w, hv, hw, hf, hd⟩ := h'.bodies more f ps ls after hmore
      refine ⟨v, w, h.trail.trans hv, hw, hf, ?_⟩
      rw [hd, h.logs.2, replay_append]
    · cases more with
      | nil =>
        obtain ⟨v, w, hv, hw, hf, hd⟩ := h'.bodies [] f ps ls after hmore.symm
        refine ⟨v, w, h.trail.trans hv, hw, hf, ?_⟩
        rw [hd, h.logs.2, List.append_nil]
        rfl
      | cons d more =>
        cases hmore
        obtain ⟨v, w, hv, hw, hf, hd⟩ := h.bodies before f ps ls more rfl
        exact ⟨v, w, hv, hw.trans h'.trail, hf, hd⟩

/-- Below file level nothing is told. -/
theorem quietly {k : Layer} (h : Told o s es t) (hk : k ≠ .file) (ht : t.Trail k u) :
    Told o s es u :=
  es.append_nil ▸ h.trans (.quiet hk ht)

/-- One more event. If it defines a function, the body is read right before it. -/
theorem event (h : Told o s es t) (htu : t.Trail .body u) (hstands : e.Stands s (u.made e))
    (hbody : ∀ f ps ls, e = .defined f ps ls → ReadBetween o f t u) :
    Told o s (es ++ [e]) (u.made e) where
  trail := .declare rfl (h.trail.trans htu.inFile) e
  logs := by
    refine h.logs.trans ⟨congrArg (· ++ [e]) (htu.events Layer.body_ne_file), ?_⟩
    refine (e.declarations_apply u.env).trans ?_
    rw [htu.declarations Layer.body_ne_file]
    rfl
  stands e' he := by
    have hmade : t.Trail .file (u.made e) := .declare rfl htu.inFile e
    rcases List.mem_append.mp he with he | he
    · exact (h.stands e' he).after hmade
    · exact List.mem_singleton.mp he ▸ hstands
  bodies before f ps ls after hsplit := by
    rcases List.eq_nil_or_concat after with rfl | ⟨after, e', rfl⟩
    · obtain ⟨rfl, hlast⟩ := List.append_inj' hsplit rfl
      have he : e = .defined f ps ls := (List.cons.inj hlast).1
      exact ⟨t, u, h.trail, .declare rfl (.refl u) e, hbody f ps ls he, h.logs.2⟩
    · rw [List.concat_eq_append, ← List.cons_append, ← List.append_assoc] at hsplit
      obtain ⟨rfl, _⟩ := List.append_inj' hsplit rfl
      obtain ⟨v, w, hv, hw, hf, hd⟩ := h.bodies before f ps ls after rfl
      exact ⟨v, w, hv, hw.trans (.declare rfl htu.inFile e), hf, hd⟩

/-- A body among declarations. -/
theorem body {f : Function} {before after : List Declaration} (h : Told o s es t)
    (hsplit : es.map Event.declaration = before ++ .body f :: after) :
    ∃ v w, s.Trail .file v ∧ w.Trail .file t ∧ ReadBetween o f v w ∧
      v.env.declarations = s.env.declarations.declareAll before := by
  obtain ⟨es₁, es₂, rfl, rfl, hmore⟩ := List.map_eq_append_iff.mp hsplit
  obtain ⟨e, es₃, rfl, he, -⟩ := List.map_eq_cons_iff.mp hmore
  obtain ⟨ps, ls, rfl⟩ := Event.defined_of_declaration he
  rw [Env.declareAll_declaration]
  exact h.bodies es₁ f ps ls es₃ rfl

end Told

/-! ## Readers that tell -/

/-- **A reader tells what it declares** when it succeeds. -/
def Tells {α : Type} (x : Read α) : Prop :=
  ∀ o s a t, o.Ended → o.Trail .file s → x s = .ok a t → ∃ es, Told o s es t

section Tells

variable {α β : Type} {x : Read α} {f : α → Read β}

/-- Readers that tell may follow each other. -/
theorem Tells.bind (hx : Tells x) (hf : ∀ a, Tells (f a)) : Tells (x >>= f) := by
  intro o s b u ho hos h
  obtain ⟨a, t, hxs, h⟩ := run_bind_ok.mp h
  obtain ⟨es, hst⟩ := hx o s a t ho hos hxs
  obtain ⟨es', htu⟩ := hf a o t b u ho (hos.trans hst.trail) h
  exact ⟨es ++ es', hst.trans htu⟩

/-- A reader below file level tells nothing. -/
theorem Tells.quietly (hx : Keeps .body x) : Tells x :=
  fun _ _ _ _ _ _ h => ⟨[], .quiet Layer.body_ne_file (hx.trail h)⟩

end Tells

/-! ## Global variables -/

/-- A global variable is told with its name. -/
theorem declareGlobal_tells {type : CType} {name : Token} : Tells (declareGlobal type name) := by
  intro o s a t _ _ h
  obtain ⟨c, hc⟩ | ⟨n, _, hsize, hok⟩ := declareGlobal_cases type name s
  · cases hc.symm.trans h
  · cases hok.symm.trans h
    have hknown : s.env.layout.Knows type := Layout.knows_of_size hsize
    refine ⟨_, (Told.quiet Layer.body_ne_file (.refl s)).event (.refl s) ⟨?_, n, hsize⟩
      fun _ _ _ h => nomatch h⟩
    exact ⟨s, .refl s, .declare rfl (.refl s) _, rfl, hknown⟩

/-- All global variables of a row are told with their names. -/
theorem globals_tells {base : CType} {fuel : Nat} {type : CType} {name : Token} :
    Tells (globals base fuel type name) := by
  induction fuel generalizing type name with
  | zero => exact .quietly exhausted_keeps
  | succ fuel ih =>
    refine .bind declareGlobal_tells fun _ => .bind (.quietly accept_keeps) fun more => ?_
    cases more with
    | true => exact .bind (.quietly declarator_keeps) fun _ => ih
    | false => exact .bind (.quietly expect_keeps) fun _ => .quietly .pure

/-! ## Functions -/

theorem addParameter_quiet {type : CType} {name : Token} : Quiet (addParameter type name) := by
  intro s _ p t h
  cases hd : s.scope.declare? name.literal type with
  | none => cases (run_addParameter_none hd).symm.trans h
  | some r =>
    cases (run_addParameter_some hd).symm.trans h
    exact ⟨[], rfl, rfl⟩

/-- A parameter is enclosed by the parentheses. -/
theorem parameter_covers {fuel : Nat} : Covers (Enclosed true) (parameter fuel) := by
  refine .step look_quiet fun _ => ?_
  dsimp only
  split
  · exact unexpected_bind_spans
  · refine .append (baseType_covers.mono fun _ => BaseType.enclosed) fun _ =>
      declarator_covers.last fun _ => ?_
    split
    · exact fail_spans
    · exact fail_spans
    · exact addParameter_quiet

/-- Parameters go up to the closing parenthesis. -/
theorem parameters_covers {fuel : Nat} {first : Bool} :
    Covers (Closing (.punct .rightParen)) (parameters fuel first) := by
  induction fuel generalizing first with
  | zero => exact exhausted_spans
  | succ fuel ih =>
    exact accept_closing (.pure rfl) (.separated rfl (.closing parameter_covers fun _ =>
      ih.last fun _ => .pure rfl))

/-- A list of parameters, behind the word `void` if that stands for none. -/
theorem parameterList_ok {fuel : Nat} {s t : Reading} {params : List Param}
    (h : parameterList fuel s = .ok params t) :
    ∃ u, (∀ k, s.Trail k u) ∧ parameters fuel true u = .ok params t ∧
      (s.Ended → ∃ void, Enclosed true void ∧ s.text = void ++ u.text) := by
  obtain ⟨_, _, hat, h⟩ := run_bind_ok.mp h
  cases hat
  obtain ⟨_, _, hpeek, h⟩ := run_bind_ok.mp h
  cases hpeek
  dsimp only at h
  split at h
  · rename_i hvoid
    have hvoid : s.current.kind = .keyword .void := eq_of_beq (Bool.and_eq_true_iff.mp hvoid).1
    rw [run_bind_of_ok (run_next s)] at h
    refine ⟨s.rest, fun _ => .next (.refl s), h, fun hs => ⟨[s.current], ?_, ?_⟩⟩
    · exact .ordinary (by rw [hvoid]; rfl) .nil
    · exact Reading.text_eq_of_ne hs (by simp [hvoid])
  · exact ⟨s, fun _ => .refl s, h, fun _ => ⟨[], .nil, rfl⟩⟩

/-- **The heading of a function** up to the state `t`. Its parameters were declared from the state
`s` on, in which it begins, and its name stands in front of them in the text from `o` on. -/
structure Headed (o s : Reading) (name : Token) (params : List Param) (t : Reading) : Prop where
  trail : s.Trail .heading t
  scope : s.scope = {}
  log : s.log.params = [] ∧ s.log.locals = []
  params : ∃ fuel u, u.scope = {} ∧ s.Trail .expression u ∧ parameters fuel true u = .ok params t
  text : name.kind = .identifier ∧ ∃ dims opening inner,
    name :: dims ++ opening :: inner ++ t.text <:+ o.text ∧ Dimensions dims ∧
      opening.kind = .punct .leftParen ∧ Closing (.punct .rightParen) inner

section Functions

variable {file source : Bytes} {ret : CType} {name opening : Token} {fuel : Nat}
  {o s t u v w : Reading} {a : Unit} {params : List Param} {body : List Stmt} {dims : List Token}

/-- A list of parameters is the head of a function. -/
theorem parameterList_headed (ho : o.Ended) (hos : o.Trail .file s) (hscope : s.scope = {})
    (hlog : s.log.params = [] ∧ s.log.locals = []) (hname : name.kind = .identifier)
    (hdims : Dimensions dims) (hopening : opening.kind = .punct .leftParen)
    (htext : name :: dims ++ opening :: s.text <:+ o.text)
    (h : parameterList fuel s = .ok params t) : Headed o s name params t := by
  obtain ⟨u, hsu, hparams, hvoid⟩ := parameterList_ok h
  obtain ⟨void, hvoid, hbehind⟩ := hvoid (hos.ended ho)
  obtain ⟨inner, hinner, hrest⟩ :=
    parameters_covers u ((hos.trans (hsu .file)).ended ho) _ _ hparams
  refine ⟨(hsu .heading).trans ((parameters_keeps Layer.heading_heads).trail hparams), hscope, hlog,
    ⟨fuel, u, (hsu .expression).scopes.trans hscope, hsu .expression, hparams⟩,
    hname, dims, opening, void ++ inner, ?_, hdims, hopening, .append hvoid hinner⟩
  rw [hbehind, hrest] at htext
  simpa using htext

/-- The parameters of a function are logged with the layouts that they were declared under. -/
theorem Headed.notes (h : Headed o s name params t) :
    List.Forall₂ (fun p l => s.Stood t p.type l) params t.log.params := by
  obtain ⟨_, u, _, hsu, hparams⟩ := h.params
  obtain ⟨ls, hlog, hstood⟩ := (parameters_declared hparams).notes
  rw [hsu.logs, h.log.1, List.nil_append] at hlog
  rw [hlog]
  exact hstood.imp fun _ _ h => h.before hsu.inFile

/-- A heading declares no local variables. -/
theorem Headed.locals (h : Headed o s name params t) :
    t.scope.locals = [] ∧ t.log.locals = [] := by
  have hquiet := h.trail.locals (by simp [Layer.Bodies])
  exact ⟨by rw [hquiet.1, h.scope], hquiet.2.trans h.log.2⟩

/-- The signature of a function is declared behind its heading. -/
theorem Headed.declared (h : Headed o s name params t) (sig : Signature) :
    Told o s [.declared sig] (t.made (.declared sig)) :=
  (Told.quiet Layer.heading_ne_file h.trail).event (.refl t) trivial fun _ _ _ h => nomatch h

/-- A body behind the heading and its opening brace. -/
theorem Headed.read {sig : Signature} {f : Function} (ho : o.Ended) (hos : o.Trail .file s)
    (h : Headed o s name params t)
    (hbrace : (t.made (.declared sig)).current.kind = .punct .leftBrace)
    (hbody : blockItems f.ret fuel (t.made (.declared sig)).rest = .ok body w)
    (hname : name.literal = f.name ∧ name.pos = f.pos) (hparams : f.params = params)
    (hitems : f.body = some body) (hlocals : w.scope.locals = f.locals) :
    ReadBetween o f (t.made (.declared sig)).rest w where
  heading := by
    obtain ⟨hkind, dims, opening, inner, htext, hdims, hopening, hinner⟩ := h.text
    have hended := (hos.trans (h.declared sig).trail).ended ho
    have hbehind := Reading.text_eq_of_ne hended (by simp [hbrace])
    refine ⟨_, ⟨name, dims, opening, inner, (t.made (.declared sig)).current, rfl, hkind, hname.1,
      hname.2, hdims, hopening, hinner, hbrace⟩, ?_⟩
    have htext : name :: dims ++ opening :: inner ++ (t.made (.declared sig)).text <:+ o.text :=
      htext
    rw [hbehind] at htext
    simpa using htext
  params := by
    obtain ⟨fuel, u, hscope, _, hp⟩ := h.params
    exact ⟨fuel, u, t, hscope, hparams ▸ hp, by rw [Reading.rest_scope]; rfl⟩
  body := ⟨fuel, body, hbody, hitems⟩
  locals := hlocals

/-- The layouts in the definition of a function stood while it was read. -/
theorem Headed.stands {sig : Signature} {f : Function} (h : Headed o s name params t)
    (htrail : (t.made (.declared sig)).rest.Trail .body w) (hparams : f.params = params)
    (hlocals : w.scope.locals = f.locals) :
    (Event.defined f w.log.params w.log.locals).Stands s w := by
  have hsignature : t.Trail .file (t.made (.declared sig)).rest := .next (.declare rfl (.refl t) _)
  have hsv := h.trail.inFile.trans hsignature
  have htw := hsignature.trans htrail.inFile
  constructor
  · have hlog : w.log.params = t.log.params := by
      rw [htrail.params (by simp [Layer.Heads]), Reading.rest_log]
      rfl
    rw [hlog, hparams]
    exact h.notes.imp fun _ _ h => h.after htw
  · obtain ⟨vs, ls, hvs, hls, hstood⟩ := htrail.notes Layer.body_ne_file
    have hscope : (t.made (.declared sig)).rest.scope.locals = [] := by
      rw [Reading.rest_scope]
      exact h.locals.1
    have hlog : (t.made (.declared sig)).rest.log.locals = [] := by
      rw [Reading.rest_log]
      exact h.locals.2
    rw [hscope, List.nil_append] at hvs
    rw [hlog, List.nil_append] at hls
    rw [← hlocals, hvs, hls]
    exact hstood.imp fun _ _ h => h.before hsv

/-- Behind a head, the body or its absence is told. -/
theorem functionBody_tells {sig : Signature} (ho : o.Ended) (hos : o.Trail .file s)
    (hheaded : Headed o s name params t)
    (h : functionBody file source ret name params fuel (t.made (.declared sig)) = .ok a u) :
    ∃ es, Told o s es u := by
  have hdeclared := hheaded.declared sig
  obtain ⟨closed, v, hclosed, h⟩ := run_bind_ok.mp h
  -- A semicolon ends a declaration, and a brace begins a body.
  cases closed with
  | true =>
    cases h
    exact ⟨_, hdeclared.quietly Layer.body_ne_file (accept_keeps.trail hclosed)⟩
  | false =>
    obtain rfl := accept_ok_false hclosed
    obtain ⟨opened, v, hopened, h⟩ := run_bind_ok.mp h
    cases opened with
    | false => exact absurd h unexpected_ne
    | true =>
      obtain ⟨hbrace, rfl⟩ := accept_ok_true hopened
      obtain ⟨body, w, hbody, h⟩ := run_bind_ok.mp h
      have htrail : (t.made (.declared sig)).rest.Trail .body w :=
        (blockItems_keeps Layer.body_bodies).trail hbody
      cases h
      have hbehind := hdeclared.quietly Layer.body_ne_file (.next (.refl _))
      refine ⟨_, hbehind.event htrail ?_ fun f ps ls hf => ?_⟩
      · exact (hheaded.stands htrail rfl rfl).after (.declare rfl (.refl w) _)
      · cases hf
        exact hheaded.read ho hos hbrace hbody ⟨rfl, rfl⟩ rfl rfl rfl

/-- **A function is told with its name, its head and its body.** -/
theorem function_tells (ho : o.Ended) (hos : o.Trail .file s) (hname : name.kind = .identifier)
    (hdims : Dimensions dims) (hopening : s.current.kind = .punct .leftParen)
    (htext : name :: dims ++ s.text <:+ o.text)
    (h : function file source ret name fuel s = .ok a t) : ∃ es, Told o s es t := by
  obtain ⟨_, s', hcheck, h'⟩ := run_bind_ok.mp h
  obtain rfl : s = s' := by
    unfold checkReturn at hcheck
    split at hcheck <;> cases hcheck
    rfl
  clear h
  rw [run_bind_of_ok (run_next s)] at h'
  obtain ⟨_, u, hu, h'⟩ := run_bind_ok.mp h'
  cases hu
  obtain ⟨params, u, hparams, h'⟩ := run_bind_ok.mp h'
  obtain ⟨_, v, hv, h'⟩ := run_bind_ok.mp h'
  cases hv
  have henter : s.Trail .file s.rest.entered := .enter rfl (.next (.refl s))
  have hsilent : Told o s [] s.rest.entered :=
    .silent henter (by rw [Reading.entered, Reading.rest_log]) (by
      rw [Reading.entered, Reading.rest_env])
  rw [Reading.text_eq_of_ne (hos.ended ho) (by simp [hopening])] at htext
  have hheaded : Headed o s.rest.entered name params u :=
    parameterList_headed ho (hos.trans henter) rfl ⟨rfl, rfl⟩ hname hdims hopening htext hparams
  obtain ⟨es, htold⟩ := functionBody_tells ho (hos.trans henter) hheaded h'
  exact ⟨es, hsilent.trans htold⟩

end Functions

/-! ## Items -/

/-- Every item tells what it declares. -/
theorem item_tells {file source : Bytes} {fuel : Nat} : Tells (item file source fuel) := by
  refine .bind (.quietly .look) fun kind => ?_
  dsimp only
  cases startsType kind with
  | false => exact fun _ _ _ _ _ _ h => absurd h unexpected_bind_ne
  | true =>
    refine .bind (.quietly baseType_keeps) fun _ => .bind (.quietly accept_keeps) fun alone => ?_
    cases alone with
    | true => exact .quietly .pure
    | false =>
      intro o s a t ho hos h
      obtain ⟨⟨type, name⟩, u, hu, h⟩ := run_bind_ok.mp h
      have hsu : s.Trail .body u := declarator_keeps.trail hu
      have hou := hos.trans hsu.inFile
      obtain ⟨ts, ⟨stars, dims, rfl, -, hname, hdims⟩, htext⟩ :=
        declarator_spans s (hos.ended ho) _ _ hu
      obtain ⟨callable, v, hv, h⟩ := run_bind_ok.mp h
      cases hv
      have hquiet : Told o s [] u := .quiet Layer.body_ne_file hsu
      dsimp only at h
      split at h
      · rename_i hopening
        have hsuffix : name :: dims ++ u.text <:+ o.text := by
          refine List.IsSuffix.trans ⟨stars, ?_⟩ hos.text
          rw [htext]
          simp
        obtain ⟨es, htold⟩ := function_tells ho hou hname hdims (eq_of_beq hopening) hsuffix h
        exact ⟨es, hquiet.trans htold⟩
      · obtain ⟨es, htold⟩ := globals_tells o u a t ho hou h
        exact ⟨es, hquiet.trans htold⟩

/-- **The items of a file tell what they declare.** -/
theorem items_tells {file source : Bytes} {fuel : Nat} : Tells (items file source fuel) := by
  induction fuel with
  | zero => exact .quietly exhausted_keeps
  | succ fuel ih =>
    refine .bind (.quietly .look) fun done => ?_
    cases done with
    | true => exact .quietly .pure
    | false => exact .bind item_tells fun _ => ih

/-! ## Texts -/

/-- The journal of a source text; empty if it cannot be read. -/
def journal (file source : Bytes) (limits : Limits) : List Event :=
  let start := Reading.start source (Env.empty limits)
  match items file source start.budget start with
  | .ok _ s => s.log.events
  | .error _ _ => []

/-- The struct bodies ahead at the start are those of the text. -/
theorem start_bodies (source : Bytes) (env : Env) :
    (Reading.start source env).bodies = bodies (Token.scan source) := by
  unfold Reading.start
  cases Token.scan source <;> rfl

/-- The log behind a text that can be read tells what it declares. -/
theorem items_told {env : Env} {file source : Bytes} {t : Reading}
    (h : items file source (Reading.start source env).budget (Reading.start source env) =
      .ok () t) :
    Told (Reading.start source env) (Reading.start source env) t.log.events t := by
  obtain ⟨es, htold⟩ := items_tells _ _ () t (Reading.start_ended source env) (.refl _) h
  have hlog := htold.logs.1
  rw [start_log] at hlog
  rw [hlog]
  exact htold

end Grammar

open Grammar

/-- **The declarations of a text that can be read**, from its first token to its last. -/
theorem Env.told_readSource {env env' : Env} {file source : Bytes}
    (h : env.readSource file source = (.ok (), env')) :
    ∃ es t, Told (Reading.start source env) (Reading.start source env) es t ∧ t.env = env' ∧
      env.declared file source = es.map Event.declaration := by
  obtain ⟨t, ht, rfl⟩ := readSource_ok.mp h
  refine ⟨t.log.events, t, items_told ht, rfl, ?_⟩
  rw [declared, afterItems, ht]
  rfl

namespace Program

variable {file source : Bytes} {limits : Limits} {p : Program}

/-- **The journal of a text that can be read** tells what it declares. -/
theorem told_ofSource (h : ofSource file source limits = .ok p) :
    ∃ t, Told (Reading.start source (Env.empty limits)) (Reading.start source (Env.empty limits))
        (journal file source limits) t ∧ t.env.program = p ∧
      (Env.empty limits).declared file source =
        (journal file source limits).map Event.declaration := by
  unfold ofSource at h
  split at h
  · rename_i env hr
    cases h
    obtain ⟨t, ht, rfl⟩ := readSource_ok.mp hr
    have hjournal : journal file source limits = t.log.events := by
      unfold journal
      dsimp only
      rw [ht]
    refine ⟨t, hjournal ▸ items_told ht, rfl, ?_⟩
    rw [Env.declared, Env.afterItems, ht, hjournal]
    rfl
  · cases h

/-- Every function of a program is defined in its journal. -/
theorem defined_of_mem {f : Function} (h : ofSource file source limits = .ok p)
    (hf : f ∈ p.functions) : ∃ ps ls, .defined f ps ls ∈ journal file source limits := by
  obtain ⟨t, htold, rfl, -⟩ := told_ofSource h
  have hf : f ∈ t.env.declarations.functions := (List.mem_filter.mp hf).1
  rw [htold.logs.2, start_env] at hf
  exact (mem_functions_replay hf).resolve_left List.not_mem_nil

/-- Every global variable of a program is declared in its journal. -/
theorem global_of_mem {g : GlobalVar} (h : ofSource file source limits = .ok p)
    (hg : g ∈ p.globals) : ∃ l, .global g l ∈ journal file source limits := by
  obtain ⟨t, htold, rfl, -⟩ := told_ofSource h
  obtain ⟨name, -, hg⟩ := List.mem_filterMap.mp hg
  change t.env.declarations.globals.get? name = some g at hg
  rw [htold.logs.2, start_env] at hg
  exact (get?_globals_replay hg).resolve_left nofun

/-- Every function of a program was read from its text. -/
theorem body_of_mem {f : Function} (h : ofSource file source limits = .ok p)
    (hf : f ∈ p.functions) : .body f ∈ (Env.empty limits).declared file source := by
  obtain ⟨ps, ls, hdefined⟩ := defined_of_mem h hf
  obtain ⟨_, -, -, hdeclared⟩ := told_ofSource h
  rw [hdeclared]
  exact List.mem_map.mpr ⟨_, hdefined, rfl⟩

end Program

end DirectC
