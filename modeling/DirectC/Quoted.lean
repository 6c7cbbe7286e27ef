/-
# Quoted text

How a byte string is shown between double quotes: printable code points as they are, the usual
one-letter escapes, and numeric escapes for everything else. A byte that starts no code point is
written as `\x` and its two digits, so the quoted form shows every byte.
-/
import DirectC.Utf8
import DirectC.Printable

namespace DirectC

namespace Quoted

/-- A code point inside the quotes. -/
def point (c : Nat) : Bytes :=
  if c == 34 || c == 92 then [92, c.toUInt8]
  else if isPrintable c then Utf8.encode c
  else if c == 7 then "\\a"
  else if c == 8 then "\\b"
  else if c == 12 then "\\f"
  else if c == 10 then "\\n"
  else if c == 13 then "\\r"
  else if c == 9 then "\\t"
  else if c == 11 then "\\v"
  else if c < 0x20 || c == 0x7f then "\\x" ++ Bytes.hexDigits 2 c
  else if c < 0x10000 then "\\u" ++ Bytes.hexDigits 4 c
  else "\\U" ++ Bytes.hexDigits 8 c

/-- The text inside the quotes. The number counts bytes that belong to a code point already
written. -/
def body : Nat → Bytes → Bytes
  | _, [] => []
  | skip + 1, _ :: rest => body skip rest
  | 0, b :: rest =>
    match Utf8.decode? (b :: rest) with
    | some (c, width) => point c ++ body (width - 1) rest
    | none => "\\x" ++ Bytes.hexByte b ++ body 0 rest

end Quoted

/-- A byte string between double quotes. -/
def Bytes.quoted (s : Bytes) : Bytes :=
  34 :: Quoted.body 0 s ++ [34]

end DirectC
