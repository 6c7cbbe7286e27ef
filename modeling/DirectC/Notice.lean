/-
# Notices

Messages on the error stream behind a label that says what sort they are. The further lines of a
message are indented as far as its first one, and its markup is left out.

Markup is left out several times over. Tags go from the whole message, then colour codes from
each of its lines, so that a line without a reset keeps its codes whatever the other lines hold,
then again tags from the whole message. After that codes and tags go from each line by itself, and
tags from the whole notice. So a tag or a code that comes about when another one goes is left out
as well, unless they are nested deeper than that.
-/
import DirectC.Markup

namespace DirectC

/-- The sorts of notices. -/
inductive Notice where
  | info
  | success
  | error
  deriving DecidableEq, Repr

namespace Notice

/-- The label of a sort of notice. -/
def label : Notice → Bytes
  | .info => " INFO  "
  | .success => " SUCCESS  "
  | .error => "  ERROR   "

/-- A message without the colour codes of its lines, and without the tags it has then. -/
def plain (message : Bytes) : Bytes :=
  Markup.dropTags (List.intercalate [10] ((Bytes.split 10 message).map Markup.dropCodes))

/-- A message without the newlines at its end. -/
def trimmed (message : Bytes) : Bytes :=
  (message.reverse.dropWhile (· == 10)).reverse

/-- A message behind its label. Newlines at its end count as one. -/
def labelled (n : Notice) (message : Bytes) : Bytes :=
  let message := plain (Markup.dropTags message)
  let lines := (Bytes.split 10 (trimmed message)).map plain
  let indentation := List.replicate n.label.length 32
  Bytes.say [n.label, List.intercalate (10 :: indentation) lines,
    if message.getLast? == some 10 then "\n" else []]

/-- What a plain terminal shows of a notice. -/
def shown (notice : Bytes) : Bytes :=
  Nat.repeat Markup.dropTags 4 notice

/-- A notice put together from parts, and a newline behind it. -/
def text (n : Notice) (parts : List Bytes) : Bytes :=
  shown (n.labelled (Markup.dropTags (Bytes.say parts)) ++ [10])

/-- A message as a notice of its own, which ends in one newline. -/
def line (n : Notice) (message : Bytes) : Bytes :=
  shown (n.labelled (message ++ [10]))

end Notice

end DirectC
