/-
# Environments

The environment that all declarations of a compilation go into: signatures, global variables,
struct layouts, function bodies and the pool of strings. It only grows. A later declaration of a
name takes the place of an earlier one; a name is never both a function and a variable.
-/
import DirectC.Tree

namespace DirectC

/-- What has been declared so far. -/
structure Env where
  layout : Layout := {}
  signatures : Table Signature := ∅
  globals : Table GlobalVar := ∅
  /-- The names of global variables in the order in which they became variables. -/
  globalOrder : List Bytes := []
  /-- The function bodies in the order of their first definitions. -/
  functions : List Function := []
  /-- The pool of string literals. -/
  strings : List Bytes := []
  deriving Repr, Inhabited

namespace Env

/-- An environment without declarations. -/
def empty (limits : Limits) : Env :=
  { layout := { limits } }

/-- Declares a function. -/
def declare (env : Env) (s : Signature) : Env :=
  { env with
    globals := env.globals.erase s.name
    signatures := env.signatures.insert s.name s }

/-- Declares a global variable. -/
def declareGlobal (env : Env) (g : GlobalVar) : Env :=
  { env with
    signatures := env.signatures.erase g.name
    globals := env.globals.insert g.name g
    globalOrder :=
      if env.globals.contains g.name then env.globalOrder else env.globalOrder ++ [g.name] }

/-- The function list with a body put in the place of the one with the same name, or at the
end. -/
def putFunction (f : Function) : List Function → List Function
  | [] => [f]
  | g :: gs => if g.name == f.name then f :: gs else g :: putFunction f gs

/-- Adds the body of a function. -/
def define (env : Env) (f : Function) : Env :=
  { env with functions := putFunction f env.functions }

/-- The number of a string in the pool, which takes it in if it is new. -/
def intern (env : Env) (s : Bytes) : Nat × Env :=
  match env.strings.idxOf? s with
  | some i => (i, env)
  | none => (env.strings.length, { env with strings := env.strings ++ [s] })

/-- The program that the declarations make up: the bodies of names that are functions now, and
the variables of names that are variables now. -/
def program (env : Env) : Program where
  functions := env.functions.filter fun f => env.signatures.contains f.name
  signatures := env.signatures
  globals := env.globalOrder.filterMap env.globals.get?
  strings := env.strings
  layout := env.layout

end Env

end DirectC
