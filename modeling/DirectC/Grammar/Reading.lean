/-
# Reading tokens

The state in which a source text is read, and the steps on it. A step that fails keeps the state
it has reached, so whatever was declared before the failure stays declared. Declarations go into
the environment and into a log, which tells in which order they were made and what the layout was
then; no step looks at the log to decide anything.
-/
import DirectC.Env
import DirectC.Grammar.Typing
import DirectC.Scanner
import DirectC.Scope

namespace DirectC

namespace Grammar

/-! ## Logs -/

/-- A declaration at file level. -/
inductive Event where
  /-- A global variable, and the layout at its declaration. -/
  | global (g : GlobalVar) (layout : Layout)
  | declared (s : Signature)
  /-- A function with its body, and the layouts at its parameters and its local variables. -/
  | defined (f : Function) (params locals : List Layout)
  deriving Repr

/-- What an event does to an environment. -/
def Event.apply (env : Env) : Event → Env
  | .global g _ => env.declareGlobal g
  | .declared s => env.declare s
  | .defined f _ _ => env.define f

/-- The declarations of a text so far. -/
structure Log where
  events : List Event := []
  /-- The layouts at the parameters of the function that is being read. -/
  params : List Layout := []
  /-- The layouts at its local variables. -/
  locals : List Layout := []
  deriving Repr, Inhabited

/-! ## States -/

/-- A place in a list of tokens, what has been declared so far, and the local names in scope. -/
structure Reading where
  current : Token
  ahead : List Token
  env : Env
  scope : Scope := {}
  log : Log := {}
  deriving Repr, Inhabited

/-- A step of reading. -/
abbrev Read := EStateM Complaint Reading

/-- The state before a source text is read. -/
def Reading.start (source : Bytes) (env : Env) : Reading :=
  match Token.scan source with
  | [] => { current := ⟨.endOfFile, [], 0, 1, 1⟩, ahead := [], env }
  | t :: ts => { current := t, ahead := ts, env }

/-- A bound on the depth of reading: each level uses up a token, and takes few steps. -/
def Reading.budget (s : Reading) : Nat :=
  4 * s.ahead.length + 16

/-! ## Tokens -/

/-- The token to be read next. -/
def token : Read Token :=
  fun s => .ok s.current s

/-- The kind of the token to be read next. -/
def kind : Read Token.Kind :=
  fun s => .ok s.current.kind s

/-- The position of the token to be read next. -/
def position : Read Int :=
  fun s => .ok s.current.pos s

/-- The kind of the token behind it. -/
def peekKind : Read Token.Kind :=
  fun s => .ok (s.ahead.headD s.current).kind s

/-- Moves to the next token. Nothing is behind the end of file. -/
def next : Read Unit := fun s =>
  match s.ahead with
  | [] => .ok () s
  | t :: ts => .ok () { s with current := t, ahead := ts }

/-- Fails with a cause at a position. -/
def fail {α : Type} (fault : Fault) (pos : Int) : Read α :=
  fun s => .error ⟨fault, pos⟩ s

/-- Fails because something else was wanted. A token that is no token is a cause of its own. -/
def unexpected {α : Type} (wanted : Wanted) : Read α := do
  let t ← token
  if t.kind == .illegal then
    if t.literal == Bytes.ofString "/*" then fail .unterminatedComment t.pos
    else fail (.invalidToken t.literal) t.pos
  else fail (.unexpected wanted t) t.pos

/-- Whether the token to be read next has a kind. -/
def isAt (k : Token.Kind) : Read Bool :=
  return (← kind) == k

/-- Whether the token to be read next is an operator or delimiter. -/
def isAtPunct (p : Punct) : Read Bool :=
  isAt (.punct p)

/-- Reads a token of a kind. -/
def expect (k : Token.Kind) : Read Token := do
  let t ← token
  if t.kind == k then
    next
    return t
  unexpected (.token k)

/-- Reads an operator or delimiter. -/
def expectPunct (p : Punct) : Read Token :=
  expect (.punct p)

/-- Reads an operator or delimiter if it is there. -/
def accept (p : Punct) : Read Bool := do
  if ← isAtPunct p then
    next
    return true
  return false

/-! ## Declarations -/

/-- The result of a typing rule. -/
def checked {α : Type} : Checked α → Read α
  | .ok a => pure a
  | .error c => fun s => .error c s

/-- The layout as it is now. -/
def layout : Read Layout :=
  fun s => .ok s.env.layout s

/-- The environment as it is now. -/
def environment : Read Env :=
  fun s => .ok s.env s

/-- Changes the environment. -/
def modifyEnv (f : Env → Env) : Read Unit :=
  fun s => .ok () { s with env := f s.env }

/-- The local names in scope. -/
def scope : Read Scope :=
  fun s => .ok s.scope s

/-- Sets the local names in scope. -/
def setScope (scope : Scope) : Read Unit :=
  fun s => .ok () { s with scope }

/-- The log as it is now. -/
def log : Read Log :=
  fun s => .ok s.log s

/-- Sets the log. -/
def setLog (log : Log) : Read Unit :=
  fun s => .ok () { s with log }

/-- Makes a declaration. -/
def make (e : Event) : Read Unit := fun s =>
  .ok () { s with
    env := e.apply s.env
    log := { s.log with events := s.log.events ++ [e] } }

/-- Runs a step in a scope of its own, which is closed again whatever happens. -/
def inScope {α : Type} (step : Read α) : Read α := fun s =>
  match step { s with scope := s.scope.push } with
  | .ok a s' => .ok a { s' with scope := s'.scope.pop }
  | .error c s' => .error c { s' with scope := s'.scope.pop }

/-- What a step reports when the bound on the depth is used up. -/
def exhausted {α : Type} : Read α := do
  fail .exhausted (← position)

end Grammar

end DirectC
