/-
# Code points in UTF-8

Reading and writing one code point. Reading refuses what UTF-8 refuses: a stray continuation
byte, a form longer than needed, a surrogate, a number above `0x10ffff`.
-/
import DirectC.Bytes

namespace DirectC

namespace Utf8

/-- The bytes of a code point. -/
def encode (c : Nat) : Bytes :=
  if c < 0x80 then [c.toUInt8]
  else if c < 0x800 then [(0xc0 + c / 64).toUInt8, (0x80 + c % 64).toUInt8]
  else if c < 0x10000 then
    [(0xe0 + c / 4096).toUInt8, (0x80 + c / 64 % 64).toUInt8, (0x80 + c % 64).toUInt8]
  else
    [(0xf0 + c / 262144).toUInt8, (0x80 + c / 4096 % 64).toUInt8, (0x80 + c / 64 % 64).toUInt8,
      (0x80 + c % 64).toUInt8]

/-- A continuation byte. -/
def isTail (b : UInt8) : Bool :=
  0x80 ≤ b && b ≤ 0xbf

/-- The six bits that a continuation byte carries. -/
def tailBits (b : UInt8) : Nat :=
  b.toNat % 64

/-- The code point that the bytes start with, and the number of bytes it takes. -/
def decode? : Bytes → Option (Nat × Nat)
  | [] => none
  | a :: rest =>
    if a < 0x80 then some (a.toNat, 1)
    else if 0xc2 ≤ a && a ≤ 0xdf then
      match rest with
      | b :: _ =>
        if isTail b then some (a.toNat % 32 * 64 + tailBits b, 2) else none
      | _ => none
    else if 0xe0 ≤ a && a ≤ 0xef then
      match rest with
      | b :: c :: _ =>
        if isTail b && isTail c && (a != 0xe0 || 0xa0 ≤ b) && (a != 0xed || b ≤ 0x9f) then
          some (a.toNat % 16 * 4096 + tailBits b * 64 + tailBits c, 3)
        else none
      | _ => none
    else if 0xf0 ≤ a && a ≤ 0xf4 then
      match rest with
      | b :: c :: d :: _ =>
        if isTail b && isTail c && isTail d && (a != 0xf0 || 0x90 ≤ b) && (a != 0xf4 || b ≤ 0x8f)
        then some (a.toNat % 8 * 262144 + tailBits b * 4096 + tailBits c * 64 + tailBits d, 4)
        else none
      | _ => none
    else none

end Utf8

end DirectC
