/-
# Reading settings files

The tree of a settings file, built from its tokens entry by entry. A table has one header, a key
one value; a dotted key reaches into tables and makes those that are missing.
-/
import DirectC.Toml.Node
import DirectC.Toml.Scalar

namespace DirectC

namespace Toml

/-! ## Keys -/

/-- The rest of a written key behind a dot, where another part has to start. -/
def afterDot? (cs : List Char) : Option (List Char) :=
  match cs with
  | [] => none
  | c :: _ => if isBare c || c == single || c == double || c == ' ' then some cs else none

/-- The parts of a written key. Every round takes at least one character, so the fuel is the
length of the key. -/
def parts (fuel : Nat) (cs : List Char) : Option (List (List Char)) :=
  match fuel, cs.dropWhile isBlank with
  | _, [] => some []
  | 0, _ => none
  | fuel + 1, c :: rest =>
    if isBare c then
      let part := (c :: rest).takeWhile isBare
      let behind := (c :: rest).drop part.length
      let next := behind.dropWhile isBlank
      if next.isEmpty || next.head? == some '.' then
        (parts fuel next).map (part :: ·)
      else none
    else if c == single || c == double then do
      let (part, rest) ← upTo? [c] rest
      return part :: (← parts fuel rest)
    else if c == '.' then (afterDot? rest).bind (parts fuel)
    else none

/-- The parts of a written key, of which there is at least one. -/
def keys? (written : List Char) : Option (List Bytes) :=
  match parts written.length written with
  | some (p :: ps) => some ((p :: ps).map bytes)
  | _ => none

/-! ## Values -/

/-- A date with the time and the offset that follow it. Answers with the tokens that are left. -/
def moment? (date : List Char) : List Token → Option (List Token)
  | .time clock :: .offset zone :: rest =>
    if isDate date && isTime clock && isOffset zone then some rest else none
  | .time clock :: rest => if isDate date && isTime clock then some rest else none
  | rest => if isDate date then some rest else none

/-- An array of inline tables is an array of tables; any other array is a value. -/
def arrayOf (items : List Node) : Node :=
  if !items.isEmpty && items.all (fun n => n matches .table ..) then .tables items
  else .value .other

/-- What came last in an inline table. -/
inductive Last where
  | nothing
  | field
  | comma
  deriving DecidableEq, Repr

mutual

/-- Reads a value. -/
def value (fuel : Nat) (ts : List Token) : Option (Node × List Token) :=
  match fuel with
  | 0 => none
  | fuel + 1 =>
    match ts with
    | .text content :: rest => some (.value (.text (bytes content)), rest)
    | .integer written :: rest => (integer? written).map fun n => (.value (.integer n), rest)
    | .float written :: rest => if isFloat written then some (.value .other, rest) else none
    | .constant :: rest => some (.value .other, rest)
    | .time clock :: rest => if isTime clock then some (.value .other, rest) else none
    | .date date :: rest => (moment? date rest).map fun rest => (.value .other, rest)
    | .openSquare :: rest => (array fuel rest).map fun (items, rest) => (arrayOf items, rest)
    | .openCurly :: rest => inlineTable fuel .nothing .empty rest
    | _ => none

/-- Reads the rest of an array. -/
def array (fuel : Nat) (ts : List Token) : Option (List Node × List Token) :=
  match fuel with
  | 0 => none
  | fuel + 1 =>
    match ts with
    | .closeSquare :: rest => some ([], rest)
    | ts => do
      let (item, rest) ← value fuel ts
      match rest with
      | .closeSquare :: rest => return ([item], rest)
      | .comma :: rest =>
        let (items, rest) ← array fuel rest
        return (item :: items, rest)
      | _ => none

/-- Reads the rest of an inline table. -/
def inlineTable (fuel : Nat) (last : Last) (table : Node) (ts : List Token) :
    Option (Node × List Token) :=
  match fuel with
  | 0 => none
  | fuel + 1 =>
    match ts with
    | .closeCurly :: rest =>
      match last, table with
      | .comma, _ => none
      | _, .table _ entries => some (.table true entries, rest)
      | _, _ => none
    | .comma :: rest => if last == .comma then none else inlineTable fuel .comma table rest
    | .key written :: .equals :: rest =>
      if last == .field then none
      else do
        let keys ← keys? written
        let (entry, rest) ← value fuel rest
        inlineTable fuel .field (table.put entry keys) rest
    | _ => none

end

/-! ## Entries -/

/-- What has been read of a file. -/
structure Reader where
  root : Node := .empty
  /-- The table that keys belong to. -/
  path : List Bytes := []
  /-- The headers so far, as written. -/
  headers : List (List Char) := []
  deriving Repr, Inhabited

namespace Reader

/-- Goes to the table of a header. -/
def enter (r : Reader) (written : List Char) : Option Reader := do
  if r.headers.contains written then none
  let keys ← keys? written
  let root ← r.root.create keys
  match root.get? keys with
  | some (.table true _) => none
  | _ => return ⟨root, keys, r.headers ++ [written]⟩

/-- Goes to a new last table of an array. Headers below it may be written again. -/
def enterNext (r : Reader) (written : List Char) : Option Reader := do
  let keys ← keys? written
  let root := (r.root.create keys.dropLast).getD r.root
  let items ← match root.get? keys with
    | none => some []
    | some (.tables items) => some items
    | some _ => none
  let kept := r.headers.filter fun h => !(written ++ ['.']).isPrefixOf h
  return ⟨root.put (.tables (items ++ [.empty])) keys, keys, kept ++ [written]⟩

/-- Gives a key of the current table a value. -/
def assign (r : Reader) (written : List Char) (entry : Node) : Option Reader := do
  let keys ← keys? written
  let path := r.path ++ keys.dropLast
  let key := keys.getLastD []
  let root ← r.root.create path
  let target ← root.get? path
  if target.isInline || (target.child? key).isSome then none
  return { r with root := root.assign path key entry }

/-- Reads the entries of a file. Every round takes at least one token, so the fuel is the number
of tokens. -/
def entries (fuel : Nat) (r : Reader) (ts : List Token) : Option Reader :=
  match fuel, ts with
  | _, [] => some r
  | 0, _ => none
  | fuel + 1, .header written :: rest => (r.enter written).bind fun r => r.entries fuel rest
  | fuel + 1, .listHeader written :: rest =>
    (r.enterNext written).bind fun r => r.entries fuel rest
  | fuel + 1, .key written :: .equals :: rest => do
    let (entry, rest) ← value (2 * rest.length + 1) rest
    (← r.assign written entry).entries fuel rest
  | _, _ => none

end Reader

/-- The tree of a settings file. -/
def document? (source : Bytes) : Option Node :=
  (scan (chars source)).bind fun ts => (Reader.entries ts.length {} ts).map (·.root)

end Toml

end DirectC
