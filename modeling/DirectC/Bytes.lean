/-
# Byte strings

Source text, file names, identifiers and messages are byte strings: none of them has to be valid
UTF-8. This module names the type and writes numbers as text: decimal, and hexadecimal in the
three forms the compiler shows.
-/

namespace DirectC

/-- A string of bytes. -/
abbrev Bytes := List UInt8

namespace Bytes

/-! ## Text -/

/-- The UTF-8 bytes of a string. -/
def ofString (s : String) : Bytes :=
  s.toUTF8.data.toList

instance : Coe String Bytes := ⟨ofString⟩

/-- The pieces of a message put together. -/
def say (parts : List Bytes) : Bytes :=
  parts.flatten

/-- Strings in the order of their bytes, a string before its extensions. -/
def before : Bytes → Bytes → Bool
  | _, [] => false
  | [], _ :: _ => true
  | a :: s, b :: t => a < b || (a == b && before s t)

/-- The strings between the bytes that separate them. -/
def split (separator : UInt8) : Bytes → List Bytes
  | [] => [[]]
  | b :: bs =>
    if b == separator then [] :: split separator bs
    else
      match split separator bs with
      | part :: parts => (b :: part) :: parts
      | [] => [[b]]

/-! ## Decimal numbers -/

/-- A natural number in decimal digits. -/
def ofNat (n : Nat) : Bytes :=
  (Nat.toDigits 10 n).map fun c => c.toNat.toUInt8

/-- An integer in decimal digits, with a minus sign when it is negative. -/
def ofInt (n : Int) : Bytes :=
  if n < 0 then 45 :: ofNat n.natAbs else ofNat n.natAbs

/-- A decimal digit. -/
def isDigit (b : UInt8) : Bool :=
  48 ≤ b && b ≤ 57

/-- The number a string of decimal digits stands for. -/
def toNat (digits : Bytes) : Nat :=
  digits.foldl (fun n d => 10 * n + (d.toNat - 48)) 0

/-! ## Hexadecimal numbers -/

/-- The lower-case digit of a number below sixteen. -/
def hexDigit (n : Nat) : UInt8 :=
  (if n < 10 then 48 + n else 87 + n).toUInt8

/-- The two digits of a byte. -/
def hexByte (b : UInt8) : Bytes :=
  [hexDigit (b.toNat / 16), hexDigit (b.toNat % 16)]

/-- Two digits a byte, nothing between them. -/
def hex (bs : Bytes) : Bytes :=
  bs.flatMap hexByte

/-- Two digits a byte, a blank between the bytes. -/
def hexSpaced (bs : Bytes) : Bytes :=
  List.intercalate [32] (bs.map hexByte)

/-- The last `count` hexadecimal digits of a number. -/
def hexDigits (count n : Nat) : Bytes :=
  match count with
  | 0 => []
  | count + 1 => hexDigits count (n / 16) ++ [hexDigit (n % 16)]

/-- A number with as many hexadecimal digits as it needs, behind `0x`. -/
def hexNumber (n : Nat) : Bytes :=
  "0x" ++ (Nat.toDigits 16 n).map fun c => c.toNat.toUInt8

/-- The value of a hexadecimal digit of either case. -/
def hexValue? (b : UInt8) : Option Nat :=
  if 48 ≤ b && b ≤ 57 then some (b.toNat - 48)
  else if 97 ≤ b && b ≤ 102 then some (b.toNat - 87)
  else if 65 ≤ b && b ≤ 70 then some (b.toNat - 55)
  else none

/-- The bytes written as pairs of hexadecimal digits. -/
def ofHex? : Bytes → Option Bytes
  | [] => some []
  | [_] => none
  | a :: b :: rest =>
    match hexValue? a, hexValue? b, ofHex? rest with
    | some high, some low, some bs => some ((16 * high + low).toUInt8 :: bs)
    | _, _, _ => none

/-! ## Words -/

/-- The lowest `count` bytes of a number, the least significant first. -/
def littleEndian (count n : Nat) : Bytes :=
  match count with
  | 0 => []
  | count + 1 => (n % 256).toUInt8 :: littleEndian count (n / 256)

end Bytes

end DirectC
