/-
# Reading types

Base types, struct bodies, and declarators: stars before a name, lengths behind it. A struct body
is laid out and defined as soon as it is closed.
-/
import DirectC.Grammar.Reading

namespace DirectC

namespace Grammar

/-- Keywords that start a type. -/
def startsType : Token.Kind → Bool
  | .keyword .int | .keyword .char | .keyword .void | .keyword .struct => true
  | _ => false

/-! ## Declarators -/

/-- A round with one more star. -/
def pointersRound (again : CType → Read CType) (type : CType) : Read CType := do
  if ← accept .star then again (.pointer type) else return type

/-- Stars in front of a name. -/
def pointers (fuel : Nat) (type : CType) : Read CType :=
  match fuel with
  | 0 => exhausted
  | fuel + 1 => pointersRound (pointers fuel) type

/-- A length behind its opening bracket, with its position. -/
def dimension : Read (Int64 × Int) := do
  let t ← expect .number
  let length := Bytes.toNat t.literal
  if 0x8000000000000000 ≤ length then
    fail (.arrayTooLong t.literal) t.pos
  let _ ← expectPunct .rightBracket
  return (Int64.ofNat length, (t.pos : Int))

/-- A round with one more length. -/
def dimensionsRound (again : Read (List (Int64 × Int))) : Read (List (Int64 × Int)) := do
  if ← accept .leftBracket then
    let d ← dimension
    return d :: (← again)
  else
    return []

/-- Lengths in brackets, each with its position. -/
def dimensions (fuel : Nat) : Read (List (Int64 × Int)) :=
  match fuel with
  | 0 => exhausted
  | fuel + 1 => dimensionsRound (dimensions fuel)

/-- An array type. The last length binds tightest: two times three elements are two arrays of
three. -/
def arrayOf (l : Layout) (elem : CType) : List (Int64 × Int) → Checked CType
  | [] => .ok elem
  | (length, pos) :: rest => do
    let inner ← arrayOf l elem rest
    if inner.isVoid then
      throw ⟨.arrayOfVoid, pos⟩
    located pos (l.array inner length)

/-- Lengths behind a name. -/
def arraySuffix (fuel : Nat) (elem : CType) : Read CType := do
  let lengths ← dimensions fuel
  checked (arrayOf (← layout) elem lengths)

/-- A name with its stars and lengths. -/
def declarator (fuel : Nat) (base : CType) : Read (CType × Token) := do
  let type ← pointers fuel base
  let name ← expect .identifier
  return (← arraySuffix fuel type, name)

/-! ## Base types -/

/-- A round with one more member of a line in the struct `struct`. -/
def memberDeclaratorsRound (struct : Bytes) (base : CType) (fuel : Nat)
    (again : Read (List Field)) : Read (List Field) := do
  let (type, name) ← declarator fuel base
  if type == .struct struct then
    fail (.containsItself struct) name.pos
  let field : Field := ⟨name.literal, type⟩
  if ← accept .comma then
    return field :: (← again)
  else
    return [field]

/-- The declarators of one line of members in the struct `struct`. -/
def memberDeclarators (struct : Bytes) (base : CType) (fuel : Nat) : Read (List Field) :=
  match fuel with
  | 0 => exhausted
  | fuel + 1 => memberDeclaratorsRound struct base fuel (memberDeclarators struct base fuel)

/-- Lays out the struct `name` and defines it. -/
def defineStruct (name : Token) (fields : List Field) : Read Unit := do
  let l ← checked (located name.pos ((← layout).define name.literal fields))
  modifyEnv fun env => { env with layout := l }

/-- The body of the struct `name` behind its opening brace. -/
def structBody (name : Token) (members : Read (List Field)) : Read Unit := do
  defineStruct name (← members)

/-- A struct with or without its body, whose members are read by `members`. -/
def structType (members : Bytes → Read (List Field)) : Read CType := do
  next
  let name ← expect .identifier
  if ← accept .leftBrace then
    structBody name (members name.literal)
  return .struct name.literal

/-- A round with one more line of members in the struct `struct`, of a type that `baseType`
reads. -/
def membersRound (struct : Bytes) (baseType : Read CType) (fuel : Nat)
    (again : Read (List Field)) : Read (List Field) := do
  if ← accept .rightBrace then
    return []
  if !startsType (← kind) then
    unexpected .member
  let base ← baseType
  let fields ← memberDeclarators struct base fuel
  let _ ← expectPunct .semicolon
  return fields ++ (← again)

mutual

/-- A base type: a keyword, or a struct with or without its body. -/
def baseType (fuel : Nat) : Read CType :=
  match fuel with
  | 0 => exhausted
  | fuel + 1 => do
    match ← kind with
    | .keyword .int => next; return .int
    | .keyword .char => next; return .char
    | .keyword .void => next; return .void
    | .keyword .struct => structType fun struct => members struct fuel
    | _ => unexpected .typeName

/-- The fields of the struct `struct` up to its closing brace. -/
def members (struct : Bytes) (fuel : Nat) : Read (List Field) :=
  match fuel with
  | 0 => exhausted
  | fuel + 1 => membersRound struct (baseType fuel) fuel (members struct fuel)

end

/-- A type without a name, as in `sizeof`. -/
def typeName (fuel : Nat) : Read CType := do
  let base ← baseType fuel
  arraySuffix fuel (← pointers fuel base)

end Grammar

end DirectC
