/-
# Numbers and dates of settings files

What written numbers and dates stand for, or that they stand for nothing. Underscores must follow
a digit and must not end a number. Only integers have a value that a setting can take; of floats
and dates it is only asked whether they are valid.
-/
import DirectC.Toml.Token

namespace DirectC

namespace Toml

/-! ## Digits -/

/-- Every underscore follows a character of a class, and none is last. -/
def spaced (isDigit : Char → Bool) (afterDigit : Bool) : List Char → Bool
  | [] => true
  | c :: cs =>
    (c != '_' || (afterDigit && !cs.isEmpty)) && spaced isDigit (isDigit c) cs

/-- The number that digits of a base stand for. -/
def digits (base : Nat) (cs : List Char) : Nat :=
  cs.foldl (fun n c => base * n + hexDigit c) 0

/-- The number of a base that a string of digits stands for, if it has digits and no others. -/
def digits? (base : Nat) (cs : List Char) : Option Nat :=
  if !cs.isEmpty && cs.all (fun c => isHex c && hexDigit c < base) then some (digits base cs)
  else none

/-! ## Integers -/

/-- The number of the base marked in front of a string of digits. -/
def marked? (written cleaned : List Char) : Option Nat :=
  match cleaned with
  | '0' :: mark :: ds =>
    if mark == 'x' then if spaced isHex false written then digits? 16 ds else none
    else if !spaced Char.isDigit false written then none
    else if mark == 'o' then digits? 8 ds
    else if mark == 'b' then digits? 2 ds
    else none
  | _ => none

/-- The integer that a written one stands for: a signed word, or without a sign an unsigned one. -/
def integer? (written : List Char) : Option Int :=
  let cleaned := written.filter (· != '_')
  if cleaned.head? == some '0' && 3 ≤ cleaned.length then
    (marked? written cleaned).bind fun n => if n < 0x10000000000000000 then some (n : Int) else none
  else if !spaced Char.isDigit false written then none
  else if cleaned.head? == some '-' then
    (digits? 10 (cleaned.drop 1)).bind fun n => if n ≤ 0x8000000000000000 then some (-n : Int) else none
  else if cleaned.head? == some '+' then
    (digits? 10 (cleaned.drop 1)).bind fun n => if n < 0x8000000000000000 then some (n : Int) else none
  else (digits? 10 cleaned).bind fun n => if n < 0x10000000000000000 then some (n : Int) else none

/-! ## Floats -/

/-- The least number that is rounded beyond the largest float of 64 bits. -/
def floatBound : Nat := Nat.pow 2 1024 - Nat.pow 2 970

/-- Whether `m · 10 ^ e` is rounded to a float of 64 bits. Far from the bound the number of digits
decides. -/
def isFinite (m : Nat) (e : Int) : Bool :=
  let size := (Nat.toDigits 10 m).length + e
  if m == 0 || size < 300 then true
  else if 320 < size then false
  else if 0 ≤ e then m * Nat.pow 10 e.toNat < floatBound
  else m < floatBound * Nat.pow 10 (-e).toNat

/-- The exponent behind a mantissa. -/
def exponent? (cs : List Char) : Option Int :=
  match cs with
  | [] => some 0
  | mark :: rest =>
    if mark != 'e' && mark != 'E' then none
    else if rest.head? == some '-' then (digits? 10 (rest.drop 1)).map fun n => (-n : Int)
    else if rest.head? == some '+' then (digits? 10 (rest.drop 1)).map fun n => (n : Int)
    else (digits? 10 rest).map fun n => (n : Int)

/-- A written float that stands for a finite number. -/
def isFloat (written : List Char) : Bool :=
  let cleaned := written.filter (· != '_')
  let body := if cleaned.head?.any (fun c => c == '+' || c == '-') then cleaned.drop 1 else cleaned
  let whole := body.takeWhile Char.isDigit
  let rest := body.drop whole.length
  let pointed := rest.head? == some '.'
  let fraction := if pointed then (rest.drop 1).takeWhile Char.isDigit else []
  let tail := if pointed then rest.drop (1 + fraction.length) else rest
  spaced Char.isDigit false written && !(whole.isEmpty && fraction.isEmpty) &&
    match exponent? tail with
    | none => false
    | some e => isFinite (digits 10 (whole ++ fraction)) (e - fraction.length)

/-! ## Dates -/

/-- The number of days of a month. -/
def daysIn (year month : Nat) : Nat :=
  if month == 2 then
    if year % 4 == 0 && (year % 100 != 0 || year % 400 == 0) then 29 else 28
  else if month == 4 || month == 6 || month == 9 || month == 11 then 30
  else 31

/-- The number that the digits from one place to another stand for. -/
def slice (cs : List Char) (start count : Nat) : Nat :=
  digits 10 ((cs.drop start).take count)

/-- A written date that is in the calendar. -/
def isDate (cs : List Char) : Bool :=
  let month := slice cs 5 2
  let day := slice cs 8 2
  1 ≤ month && month ≤ 12 && 1 ≤ day && day ≤ daysIn (slice cs 0 4) month

/-- A written time that is on the clock. -/
def isTime (cs : List Char) : Bool :=
  slice cs 0 2 < 24 && slice cs 3 2 < 60 && slice cs 6 2 < 60

/-- A written offset within a day. -/
def isOffset (cs : List Char) : Bool :=
  cs == ['Z'] || (slice cs 1 2 ≤ 24 && slice cs 4 2 ≤ 60)

end Toml

end DirectC
