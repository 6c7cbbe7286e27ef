/-
# Scopes

The local names of a function while it is being read. Scopes are nested; a name means what the
innermost scope that declares it says. Every local variable and parameter gets a number of its
own, so that two variables of one name stay apart.
-/
import DirectC.Tree

namespace DirectC

/-- What a local name stands for. -/
structure Local where
  id : Int
  type : CType
  deriving DecidableEq, Repr, Inhabited

/-- The nested scopes of a function. -/
structure Scope where
  /-- The scopes, the innermost first. -/
  levels : List (Table Local) := [∅]
  /-- The local variables declared so far. Parameters are not among them. -/
  locals : List LocalVar := []
  /-- The number that the next local name gets. -/
  nextId : Nat := 0
  deriving Repr, Inhabited

namespace Scope

/-- Opens a scope. -/
def push (s : Scope) : Scope :=
  { s with levels := ∅ :: s.levels }

/-- Closes the innermost scope, unless it is the only one. -/
def pop (s : Scope) : Scope :=
  match s.levels with
  | _ :: outer :: rest => { s with levels := outer :: rest }
  | _ => s

/-- Declares a name in the innermost scope, which must not have it yet. -/
def declare? (s : Scope) (name : Bytes) (type : CType) : Option (Int × Scope) :=
  match s.levels with
  | [] => none
  | inner :: outer =>
    if inner.contains name then none
    else
      some (s.nextId,
        { s with levels := inner.insert name ⟨s.nextId, type⟩ :: outer, nextId := s.nextId + 1 })

/-- What a name stands for, if any scope declares it. -/
def lookup? (s : Scope) (name : Bytes) : Option Local :=
  s.levels.findSome? fun level => level.get? name

end Scope

end DirectC
