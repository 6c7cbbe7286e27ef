/-
# Diagnostics

A diagnostic says what went wrong and where. It is anchored at a byte offset of a source text;
with a negative offset it has no place. Its line and column, the source line it points at and
the rendered form with a caret below the offending byte are all computed from the offset.
-/
import DirectC.Bytes

namespace DirectC

/-! ## Kinds -/

namespace Diagnostic

/-- What sort of failure a diagnostic reports. -/
inductive Kind where
  | syntactic
  | naming
  | typing
  | capacity
  | redeclaration
  | internal
  | other
  deriving DecidableEq, Repr, Inhabited

namespace Kind

/-- The kinds that failures of a compilation have. -/
def all : List Kind :=
  [.syntactic, .naming, .typing, .capacity, .redeclaration, .internal]

/-- The kind with a given number. Numbers beyond the list have no kind of their own. -/
def ofNumber (n : Nat) : Kind :=
  all.getD n .other

/-- The words a kind is shown with. -/
def text : Kind → Bytes
  | .syntactic => "syntax error"
  | .naming => "name resolution error"
  | .typing => "type error"
  | .capacity => "capacity error"
  | .redeclaration => "redeclaration error"
  | .internal => "internal error"
  | .other => "error"

end Kind

end Diagnostic

/-! ## Positions -/

/-- A failure with its message and the place it points at. -/
structure Diagnostic where
  kind : Diagnostic.Kind
  /-- The name of the source file. -/
  file : Bytes := []
  /-- The text of the source file. -/
  source : Bytes := []
  /-- The byte offset in the source text, negative without a place. -/
  pos : Int := -1
  message : Bytes
  deriving DecidableEq, Repr, Inhabited

namespace Diagnostic

/-- The offset moved to the nearest one inside the source text. -/
def offset (d : Diagnostic) : Nat :=
  min d.pos.toNat d.source.length

/-- The line and column after one more byte. -/
def advance (place : Nat × Nat) (b : UInt8) : Nat × Nat :=
  if b == 10 then (place.1 + 1, 1) else (place.1, place.2 + 1)

/-- Line and column of the offset, both counted from one. -/
def lineColumn (d : Diagnostic) : Nat × Nat :=
  (d.source.take d.offset).foldl advance (1, 1)

/-- The source line that holds the offset, without its newline. -/
def sourceLine (d : Diagnostic) : Bytes :=
  ((d.source.take d.offset).reverse.takeWhile (· != 10)).reverse ++
    (d.source.drop d.offset).takeWhile (· != 10)

/-- Gives a place to a diagnostic that has none. -/
def anchor (d : Diagnostic) (file source : Bytes) (pos : Int) : Diagnostic :=
  if d.pos < 0 then { d with file, source, pos } else d

/-! ## Text -/

/-- How the decorated parts of a rendered diagnostic look. -/
structure Style where
  kind : Bytes → Bytes := id
  caret : Bytes → Bytes := id

/-- The first line of a diagnostic, with its kind decorated. -/
def header (d : Diagnostic) (decorate : Bytes → Bytes) : Bytes :=
  let (line, column) := d.lineColumn
  let place :=
    if d.pos < 0 then []
    else Bytes.say [d.file, ":", .ofNat line, ":", .ofNat column, ": "]
  Bytes.say [place, decorate d.kind.text, ": ", d.message]

/-- The diagnostic on one line. -/
def text (d : Diagnostic) : Bytes :=
  d.header id

/-- The header and, for an anchored diagnostic, the source line with a caret under the offset. -/
def render (d : Diagnostic) (style : Style := {}) : Bytes :=
  let excerpt :=
    if d.pos < 0 then []
    else
      Bytes.say [d.sourceLine, "\n", List.replicate (d.lineColumn.2 - 1) 32, style.caret "^", "\n"]
  Bytes.say [d.header style.kind, "\n", excerpt]

end Diagnostic

/-! ## Failures of any sort -/

/-- A failure that either is a diagnostic or has nothing but a message. -/
inductive Failure where
  | diagnostic (d : Diagnostic)
  | plain (message : Bytes)
  deriving DecidableEq, Repr, Inhabited

namespace Failure

/-- The message of a failure. -/
def message : Failure → Bytes
  | .diagnostic d => d.text
  | .plain m => m

/-- Puts a failure in the context of another step. A diagnostic stays what it is. -/
def within (context : Bytes) : Failure → Failure
  | .diagnostic d => .diagnostic d
  | .plain m => .plain (Bytes.say [context, ": ", m])

/-- The diagnostic of a failure seen from a place: an anchored diagnostic stays, one without a
place takes this one, and a failure with nothing but a message becomes an internal error. -/
def anchor (f : Failure) (file source : Bytes) (pos : Int) : Diagnostic :=
  match f with
  | .diagnostic d => d.anchor file source pos
  | .plain message => { kind := .internal, file, source, pos, message }

end Failure

end DirectC
