/-
# Markup

A message may carry markup for the terminal: tags such as `<red>`, with `</>` where a style ends,
and colour codes, which start with an escape byte, with `[0m` where colours are reset. A plain
terminal gets the message without them. A text in which nothing ends has no tags, and one in which
nothing is reset has no codes.

Leaving out a tag or a code can bring the parts of another one together; `dropTags` and
`dropCodes` do not look again.
-/
import DirectC.Bytes

namespace DirectC

namespace Markup

/-! ## Leaving out stretches -/

/-- A text without the stretches that `find?` measures at their first bytes, the leftmost ones
first. The next `skip` bytes belong to a stretch that has been found. -/
def without (find? : Bytes → Option Nat) (skip : Nat) : Bytes → Bytes
  | [] => []
  | b :: bs =>
    match skip with
    | skip + 1 => without find? skip bs
    | 0 =>
      match find? (b :: bs) with
      | some length => without find? (length - 1) bs
      | none => b :: without find? 0 bs

/-- Whether a text stands somewhere in another one. -/
def occurs (part : Bytes) : Bytes → Bool
  | [] => part.isEmpty
  | b :: bs => part.isPrefixOf (b :: bs) || occurs part bs

/-! ## Tags -/

/-- The bytes that the name and the attributes of a tag are made of. -/
def isTagByte (b : UInt8) : Bool :=
  Bytes.isDigit b || (65 ≤ b && b ≤ 90) || (97 ≤ b && b ≤ 122) ||
    b == 95 || b == 61 || b == 44 || b == 59

/-- The length of the tag that a text starts with: angle brackets around a slash, which may be
missing, and any number of tag bytes. -/
def tagLength? (text : Bytes) : Option Nat :=
  if text.head? != some 60 then none
  else
    let slash := if (text.drop 1).head? == some 47 then 1 else 0
    let name := ((text.drop (1 + slash)).takeWhile isTagByte).length
    if (text.drop (1 + slash + name)).head? == some 62 then some (slash + name + 2) else none

/-- The tag that ends a style. -/
def closingTag : Bytes := "</>"

/-- A text without its tags. -/
def dropTags (text : Bytes) : Bytes :=
  if occurs closingTag text then without tagLength? 0 text else text

/-! ## Colour codes -/

/-- The bytes that the numbers of a colour code are made of. -/
def isCodeByte (b : UInt8) : Bool :=
  Bytes.isDigit b || b == 59 || b == 63

/-- The length of the colour code that a text starts with: an escape byte, a bracket, numbers and
the letter `m`. -/
def codeLength? (text : Bytes) : Option Nat :=
  if text.take 2 != [27, 91] then none
  else
    let numbers := ((text.drop 2).takeWhile isCodeByte).length
    if numbers != 0 && (text.drop (2 + numbers)).head? == some 109 then some (numbers + 3)
    else none

/-- What a code that resets colours ends in. -/
def reset : Bytes := "[0m"

/-- A text without its colour codes. -/
def dropCodes (text : Bytes) : Bytes :=
  if occurs reset text then without codeLength? 0 text else text

end Markup

end DirectC
