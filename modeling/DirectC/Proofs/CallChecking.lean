/-
# Calls and the signatures in force

A call is checked against the signature that its name has when the body around it is read
(`Program.calls_fit_in_force`). A later declaration of the name takes the place of that signature
without a second look at the call, so a call fits the function it ends up at as long as the
declarations before it agree with that function; one that does not agree leaves a misfit
(`Program.call_misfits_forward`).
-/
import DirectC.Proofs.Grammar.Definitions

namespace DirectC

open Grammar

/-! ## Signatures in force -/

/-- What a name stands for after an event, if it stood for `s` before. -/
def Grammar.Event.signature (name : Bytes) (s : Option Signature) : Event → Option Signature
  | .declared s' => if s'.name = name then some s' else s
  | .global g _ => if g.name = name then none else s
  | .defined _ _ _ => s

/-- The signature that a name has after some events: that of its last declaration, unless it has
become a variable since. -/
def inForce (name : Bytes) (events : List Event) : Option Signature :=
  events.foldl (fun s e => e.signature name s) none

/-- The table of signatures holds the signatures in force. -/
theorem signatures_replay_eq (name : Bytes) (env : Env) (es : List Event) :
    (replay env es).signatures.get? name =
      es.foldl (fun s e => e.signature name s) (env.signatures.get? name) := by
  induction es generalizing env with
  | nil => rfl
  | cons e es ih =>
    have he : (e.apply env).signatures.get? name =
        e.signature name (env.signatures.get? name) := by
      cases e with
      | global g l => exact Table.get?_erase
      | declared s => exact Table.get?_insert
      | defined f ps ls => rfl
    rw [List.foldl_cons, ← he]
    exact ih _

/-- A signature in force was declared for its name. -/
theorem declared_of_inForce {name : Bytes} {events : List Event} {s : Signature}
    (h : inForce name events = some s) : s.name = name ∧ .declared s ∈ events := by
  have h : (replay {} events).signatures.get? name = some s :=
    (signatures_replay_eq name {} events).trans h
  exact (get?_signatures_replay h).resolve_left nofun

/-- The signature that an event declares. -/
def Grammar.Event.declaration? : Event → Option Signature
  | .declared s => some s
  | _ => none

/-- The signatures that some events declare; a definition declares one as a prototype does. -/
def declarationsIn (events : List Event) : List Signature :=
  events.filterMap Event.declaration?

theorem mem_declarationsIn {events : List Event} {s : Signature} :
    s ∈ declarationsIn events ↔ .declared s ∈ events := by
  rw [declarationsIn, List.mem_filterMap]
  constructor
  · rintro ⟨e, he, hs⟩
    cases e with
    | declared s' =>
      cases hs
      exact he
    | global g l => cases hs
    | defined f ps ls => cases hs
  · exact fun h => ⟨_, h, rfl⟩

/-! ## Calls -/

/-- What is built in a body fits the signatures that are in force all along it. -/
theorem Grammar.Built.fits {s t : Reading} {node : Node} (h : Built .body s t node) :
    Fits s.env.signatures node := by
  cases h with
  | name _ _ _ => trivial
  | stmt => trivial
  | node hou _ hallows =>
    have hdeclarations := hou.declarations Layer.body_ne_file
    have hsignatures := congrArg Env.signatures hdeclarations
    cases hallows with
    | call hfits => exact hsignatures ▸ hfits
    | _ => trivial

/-- A body fits the signatures that the events before its definition build. -/
theorem Grammar.ReadBetween.fits {o v w : Reading} {f : Function} {node : Node}
    (h : ReadBetween o f v w) (ho : node.Occurs (f.body.getD [])) :
    Fits v.env.signatures node := by
  obtain ⟨_, items, _, hbody⟩ := h.body
  rw [hbody] at ho
  exact (h.built Layer.body_bodies hbody ho).fits

/-- The arguments and the type of a call are those that a list of parameter types and a return
type ask for. -/
structure CallFits (params : List CType) (ret : CType) (args : List Expr) (type : CType) :
    Prop where
  length : args.length = params.length
  assignable : List.Forall₂ (fun t a => assignable t a = true) params args
  type : type = ret

namespace Program

variable {file source : Bytes} {limits : Limits} {p : Program} {f : Function} {name : Bytes}
  {pos : Int} {args : List Expr} {type : CType}

/-- **Calls fit the signatures in force.** A call in a body fits the signature that its name has
when the body is defined. If all declarations of the name up to there have the parameter types and
the return type of the function that bears the name in the end, the call fits that function. -/
theorem calls_fit_in_force (h : ofSource file source limits = .ok p) (hf : f ∈ p.functions)
    (hc : (Node.expr (.call name pos args type)).Occurs (f.body.getD [])) :
    ∃ before after ps ls, journal file source limits = before ++ .defined f ps ls :: after ∧
      (∃ s, inForce name before = some s ∧ CallFits s.params s.ret args type) ∧
      ∀ g ∈ p.functions, g.name = name →
        (∀ s ∈ declarationsIn before, s.name = name →
          s.params = g.params.map (·.type) ∧ s.ret = g.ret) →
        CallFits (g.params.map (·.type)) g.ret args type := by
  obtain ⟨ps, ls, hd⟩ := defined_of_mem h hf
  obtain ⟨before, after, hsplit⟩ := List.append_of_mem hd
  obtain ⟨t, htold, -⟩ := told_ofSource h
  obtain ⟨v, w, _, _, hread, hbefore⟩ := htold.bodies before f ps ls after hsplit
  -- The body fits the table that the events before its definition build.
  obtain ⟨s, hs, hargs, htype⟩ := hread.fits hc
  have hs : v.env.declarations.signatures.get? name = some s := hs
  rw [hbefore, signatures_replay_eq, start_env] at hs
  have hforce : inForce name before = some s := hs
  have hfit : CallFits s.params s.ret args type := ⟨hargs.length_eq.symm, hargs, htype⟩
  refine ⟨before, after, ps, ls, hsplit, ⟨s, hforce, hfit⟩, fun g _ _ hagree => ?_⟩
  obtain ⟨hname, hmem⟩ := declared_of_inForce hforce
  obtain ⟨hparams, hret⟩ := hagree s (mem_declarationsIn.mpr hmem) hname
  exact hparams ▸ hret ▸ hfit

/-- A statement that returns what a call of `name` with `n` arguments yields. -/
def returnsCall (name : Bytes) (n : Nat) : Stmt → Bool
  | .ret (some (.call name' _ args _)) _ => name' == name && args.length == n
  | _ => false

theorem occurs_of_returnsCall {n : Nat} {items : List Stmt}
    (h : items.any (returnsCall name n) = true) :
    ∃ pos args type, args.length = n ∧ (Node.expr (.call name pos args type)).Occurs items := by
  obtain ⟨s, hs, h⟩ := List.any_eq_true.mp h
  unfold returnsCall at h
  split at h
  · rename_i name' pos args type _
    simp only [Bool.and_eq_true, beq_iff_eq] at h
    obtain ⟨rfl, hn⟩ := h
    exact ⟨pos, args, type, hn, _, hs, .single (by simp [Node.children])⟩
  · cases h

/-- A call between a prototype and the definition that it announces. -/
def announced : Bytes := "int pick(char *s, int n);
int main() \x7b return pick(\"ab\", 1); \x7d
int pick(char *s, int n) \x7b return s[n]; \x7d"

theorem calls_fit_in_force_announced :
    ∃ p f g pos args type, ofSource "pick.c" announced {} = .ok p ∧ f ∈ p.functions ∧
      g ∈ p.functions ∧ (Node.expr (.call g.name pos args type)).Occurs (f.body.getD []) ∧
      CallFits (g.params.map (·.type)) g.ret args type := by
  have hread : ((ofSource "pick.c" announced {}).toOption.any fun p =>
      p.functions.any (fun f => (f.body.getD []).any (returnsCall "pick" 2)) ∧
        ∃ g ∈ p.functions, g.name = ("pick" : Bytes) ∧
          ∀ s ∈ declarationsIn (journal "pick.c" announced {}), s.name = ("pick" : Bytes) →
            s.params = g.params.map (·.type) ∧ s.ret = g.ret) = true := by
    decide +kernel
  obtain ⟨p, h, hread⟩ := exists_ok_of_any hread
  rw [decide_eq_true_eq] at hread
  obtain ⟨hcall, g, hg, hname, hagree⟩ := hread
  obtain ⟨f, hf, hcall⟩ := List.any_eq_true.mp hcall
  obtain ⟨pos, args, type, -, hoccurs⟩ := occurs_of_returnsCall hcall
  obtain ⟨before, after, ps, ls, hsplit, -, hfit⟩ := calls_fit_in_force h hf hoccurs
  refine ⟨p, f, g, pos, args, type, h, hf, hg, hname ▸ hoccurs,
    hfit g hg hname fun s hs => hagree s ?_⟩
  rw [hsplit, mem_declarationsIn]
  exact List.mem_append_left _ (mem_declarationsIn.mp hs)

/-- A call between a prototype and a definition with one parameter more. -/
def forward : Bytes :=
  "int f(int a); int main() \x7b return f(1); \x7d int f(int a, int b) \x7b return b; \x7d"

/-- The call has one argument, and the function two parameters. -/
theorem call_misfits_forward :
    ∃ p f g pos args type, ofSource "t.c" forward {} = .ok p ∧ f ∈ p.functions ∧
      g ∈ p.functions ∧ (Node.expr (.call g.name pos args type)).Occurs (f.body.getD []) ∧
      args.length = 1 ∧ g.params.length = 2 := by
  have hread : ((ofSource "t.c" forward {}).toOption.any fun p =>
      p.functions.any (fun f => (f.body.getD []).any (returnsCall "f" 1)) ∧
        ∃ g ∈ p.functions, g.name = ("f" : Bytes) ∧ g.params.length = 2) = true := by
    decide +kernel
  obtain ⟨p, h, hread⟩ := exists_ok_of_any hread
  rw [decide_eq_true_eq] at hread
  obtain ⟨hcall, g, hg, hname, hparams⟩ := hread
  obtain ⟨f, hf, hcall⟩ := List.any_eq_true.mp hcall
  obtain ⟨pos, args, type, hargs, hoccurs⟩ := occurs_of_returnsCall hcall
  exact ⟨p, f, g, pos, args, type, h, hf, hg, hname ▸ hoccurs, hargs, hparams⟩

end Program

end DirectC
