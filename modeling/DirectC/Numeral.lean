/-
# Numerals

Numbers as they are written in option values: decimal, or hexadecimal, octal and binary behind
`0x`, `0o` and `0b`; a leading zero alone means octal. Single underscores may stand between
digits and behind the mark of the base.
-/
import DirectC.Bytes

namespace DirectC

namespace Numeral

/-- The value of a digit, of letters beyond nine. -/
def digit? (b : UInt8) : Option Nat :=
  if Bytes.isDigit b then some (b.toNat - 48)
  else if 97 ≤ b && b ≤ 122 then some (b.toNat - 87)
  else if 65 ≤ b && b ≤ 90 then some (b.toNat - 55)
  else none

/-- The number that digits of a base stand for. -/
def digits? (base : Nat) (ds : Bytes) : Option Nat :=
  ds.foldlM (fun n b => (digit? b).bind fun d => if d < base then some (base * n + d) else none) 0

/-- Underscores that all stand between digits; `afterDigit` says whether a digit came before. -/
def spaced (afterDigit : Bool) : Bytes → Bool
  | [] => true
  | b :: bs =>
    if b == 95 then afterDigit && !bs.isEmpty && spaced false bs else spaced true bs

/-- The base that a numeral is in, the rest behind its mark, and whether there is a mark that an
underscore may follow. -/
def base (s : Bytes) : Nat × Bytes × Bool :=
  match s with
  | zero :: mark :: rest =>
    if zero != 48 then (10, s, false)
    else if rest.isEmpty then (8, mark :: rest, true)
    else if mark == 98 || mark == 66 then (2, rest, true)
    else if mark == 111 || mark == 79 then (8, rest, true)
    else if mark == 120 || mark == 88 then (16, rest, true)
    else (8, mark :: rest, true)
  | _ => (10, s, false)

/-- The natural number a numeral stands for. -/
def natural? (s : Bytes) : Option Nat :=
  let (base, ds, marked) := base s
  if ds.isEmpty || !spaced marked ds then none else digits? base (ds.filter (· != 95))

/-- The unsigned word a numeral stands for. -/
def word? (s : Bytes) : Option UInt64 :=
  (natural? s).bind fun n => if n < 0x10000000000000000 then some (.ofNat n) else none

/-- The signed word a numeral with an optional sign stands for. -/
def signed? (s : Bytes) : Option Int64 :=
  let negative := s.head? == some 45
  let magnitude := if negative || s.head? == some 43 then s.drop 1 else s
  (natural? magnitude).bind fun n =>
    if negative then if n ≤ 0x8000000000000000 then some (.ofInt (-n)) else none
    else if n < 0x8000000000000000 then some (.ofNat n) else none

/-- The truth value of a word. -/
def truth? (s : Bytes) : Option Bool :=
  if (["1", "t", "T", "TRUE", "true", "True"] : List Bytes).contains s then some true
  else if (["0", "f", "F", "FALSE", "false", "False"] : List Bytes).contains s then some false
  else none

end Numeral

end DirectC
