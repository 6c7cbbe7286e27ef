/-
# Flags

Reading arguments: `--name value`, `--name=value`, and for flags with a letter `-x value`,
`-xvalue`, `-x=value`. Switches take no value unless it is written with an equals sign; their
letters may stand together. Flags and other arguments may be mixed, `--` ends the flags, and a
single dash is no flag. The last value of a flag counts.
-/
import DirectC.Numeral
import DirectC.Table

namespace DirectC

namespace Flags

/-- What a flag takes. -/
inductive Kind where
  | text
  | signed
  | word
  | switch
  deriving DecidableEq, Repr, Inhabited

/-- A flag. -/
structure Flag where
  name : Bytes
  letter : Option UInt8 := none
  kind : Kind
  deriving DecidableEq, Repr, Inhabited

/-- The value given to a flag. -/
inductive Value where
  | text (s : Bytes)
  | signed (n : Int64)
  | word (n : UInt64)
  | switch (on : Bool)
  deriving DecidableEq, Repr, Inhabited

/-- The value that an argument stands for. -/
def Kind.value? (k : Kind) (s : Bytes) : Option Value :=
  match k with
  | .text => some (.text s)
  | .signed => (Numeral.signed? s).map .signed
  | .word => (Numeral.word? s).map .word
  | .switch => (Numeral.truth? s).map .switch

/-- What arguments say. -/
structure Parsed where
  values : Table Value := ∅
  /-- The arguments that are no flags and no values of flags. -/
  args : List Bytes := []
  deriving Repr, Inhabited

namespace Parsed

/-- Gives a flag a value. -/
def set? (p : Parsed) (f : Flag) (s : Bytes) : Option Parsed :=
  (f.kind.value? s).map fun v => { p with values := p.values.insert f.name v }

/-- The text given to a flag. -/
def text? (p : Parsed) (name : Bytes) : Option Bytes :=
  match p.values.get? name with
  | some (.text s) => some s
  | _ => none

/-- The signed number given to a flag. -/
def signed? (p : Parsed) (name : Bytes) : Option Int64 :=
  match p.values.get? name with
  | some (.signed n) => some n
  | _ => none

/-- The unsigned number given to a flag. -/
def word? (p : Parsed) (name : Bytes) : Option UInt64 :=
  match p.values.get? name with
  | some (.word n) => some n
  | _ => none

/-- Whether a switch is on. -/
def isOn (p : Parsed) (name : Bytes) : Bool :=
  p.values.get? name == some (.switch true)

end Parsed

/-! ## Reading -/

/-- What a switch without a value is set to. -/
def on : Bytes := "true"

/-- Reads what stands behind two dashes. Answers with the arguments that are left. -/
def long (flags : List Flag) (word : Bytes) (rest : List Bytes) (p : Parsed) :
    Option (Parsed × List Bytes) :=
  let name := word.takeWhile (· != 61)
  let value := (word.dropWhile (· != 61)).drop 1
  match flags.find? (fun f => f.name == name), rest with
  | none, _ => none
  | some f, rest =>
    if word.contains 61 then (p.set? f value).map (·, rest)
    else if f.kind == .switch then (p.set? f on).map (·, rest)
    else
      match rest with
      | [] => none
      | next :: rest => (p.set? f next).map (·, rest)

/-- Letters that belong to a test run and are passed over. -/
def isIgnored (letters : Bytes) : Bool :=
  (Bytes.ofString "test.").isPrefixOf letters

/-- Reads the letters behind one dash. Answers with the arguments that are left. -/
def short (flags : List Flag) (rest : List Bytes) (letters : Bytes) (p : Parsed) :
    Option (Parsed × List Bytes) :=
  match letters with
  | [] => some (p, rest)
  | letter :: more =>
    if isIgnored letters then some (p, rest)
    else
      match flags.find? (fun f => f.letter == some letter) with
      | none => none
      | some f =>
        if more.head? == some 61 && 1 < more.length then (p.set? f (more.drop 1)).map (·, rest)
        else if f.kind == .switch then (p.set? f on).bind (short flags rest more)
        else if !more.isEmpty then (p.set? f more).map (·, rest)
        else
          match rest with
          | [] => none
          | next :: rest => (p.set? f next).map (·, rest)

/-- Reads arguments; every one is looked at at most once. -/
def readFrom (flags : List Flag) (fuel : Nat) (args : List Bytes) (p : Parsed) : Option Parsed :=
  match fuel, args with
  | _, [] => some p
  | 0, _ => none
  | fuel + 1, arg :: rest =>
    match arg with
    | dash :: next :: word =>
      if dash != 45 then readFrom flags fuel rest { p with args := p.args ++ [arg] }
      else if next != 45 then
        (short flags rest (next :: word) p).bind fun (p, rest) => readFrom flags fuel rest p
      else if word.isEmpty then some { p with args := p.args ++ rest }
      else (long flags word rest p).bind fun (p, rest) => readFrom flags fuel rest p
    | _ => readFrom flags fuel rest { p with args := p.args ++ [arg] }

/-- Reads arguments against a list of flags. -/
def read? (flags : List Flag) (args : List Bytes) : Option Parsed :=
  readFrom flags args.length args {}

end Flags

end DirectC
