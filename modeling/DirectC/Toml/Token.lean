/-
# Tokens of settings files

A settings file is scanned in one of two places: where an entry may start, and where a value
may. A line break leads from a value back to the entries, except inside square brackets. Quoted
text is unescaped here; keys, numbers and dates are kept as they are written.
-/
import DirectC.Utf8

namespace DirectC

namespace Toml

/-- The tokens. -/
inductive Token where
  /-- A key in front of an equals sign, with the quotes of its quoted parts. -/
  | key (written : List Char)
  /-- A table header. -/
  | header (written : List Char)
  /-- A header of an array of tables. -/
  | listHeader (written : List Char)
  | equals
  | comma
  | openSquare
  | closeSquare
  | openCurly
  | closeCurly
  | text (content : List Char)
  | integer (written : List Char)
  | float (written : List Char)
  | date (written : List Char)
  | time (written : List Char)
  | offset (written : List Char)
  /-- A truth value, an infinity, or what is not a number. -/
  | constant
  deriving DecidableEq, Repr, Inhabited

/-! ## Characters -/

/-- The replacement character. -/
def replacement : Char := '\ufffd'

/-- The characters of a byte string; a byte that is not valid is replaced. The fuel is the number
of bytes. -/
def charsFrom (fuel : Nat) (bytes : Bytes) : List Char :=
  match fuel, bytes with
  | _, [] => []
  | 0, _ => []
  | fuel + 1, b :: rest =>
    match Utf8.decode? (b :: rest) with
    | some (c, width) => Char.ofNat c :: charsFrom fuel ((b :: rest).drop width)
    | none => replacement :: charsFrom fuel rest

/-- The byte order marks that may stand in front of a text, the longer ones first. -/
def marks : List Bytes :=
  [[0, 0, 0xfe, 0xff], [0xff, 0xfe, 0, 0], [0xef, 0xbb, 0xbf], [0xfe, 0xff], [0xff, 0xfe]]

/-- The characters of a text behind its byte order mark. -/
def chars (bytes : Bytes) : List Char :=
  let body := match marks.find? (·.isPrefixOf bytes) with
    | some mark => bytes.drop mark.length
    | none => bytes
  charsFrom body.length body

/-- The bytes of characters. -/
def bytes (cs : List Char) : Bytes :=
  cs.flatMap fun c => Utf8.encode c.toNat

/-- The character with a number; numbers that are none are replaced. -/
def charOf (n : Nat) : Char :=
  if n.isValidChar then Char.ofNat n else replacement

/-- A blank within a line. -/
def isBlank (c : Char) : Bool :=
  c == ' ' || c == '\t'

/-- A character of a key that needs no quotes. -/
def isBare (c : Char) : Bool :=
  c.isAlpha || c.isDigit || c == '_' || c == '-'

/-- A hexadecimal digit. -/
def isHex (c : Char) : Bool :=
  c.isDigit || ('a' ≤ c && c ≤ 'f') || ('A' ≤ c && c ≤ 'F')

/-- The value of a hexadecimal digit. -/
def hexDigit (c : Char) : Nat :=
  if c.isDigit then c.toNat - 48 else if 'a' ≤ c then c.toNat - 87 else c.toNat - 55

/-- The double quote. -/
def double : Char := '\x22'

/-- The single quote. -/
def single : Char := '\x27'

/-! ## Quoted text -/

/-- The characters before a mark and those behind it. -/
def upTo? (mark : List Char) : List Char → Option (List Char × List Char)
  | [] => none
  | c :: cs =>
    if mark.isPrefixOf (c :: cs) then some ([], (c :: cs).drop mark.length)
    else (upTo? mark cs).map fun (body, rest) => (c :: body, rest)

/-- The character that a letter behind a backslash stands for. -/
def escape? (c : Char) : Option Char :=
  if c == double then some double
  else if c == 'n' then some '\n'
  else if c == 'b' then some '\x08'
  else if c == 'f' then some '\x0c'
  else if c == '/' then some '/'
  else if c == 't' then some '\t'
  else if c == 'r' then some '\r'
  else if c == '\\' then some '\\'
  else none

/-- The number of hexadecimal digits behind a letter that starts a code point. -/
def codeWidth? (c : Char) : Option Nat :=
  if c == 'u' then some 4 else if c == 'U' then some 8 else none

/-- The code point that so many hexadecimal digits stand for. -/
def code? (width : Nat) (cs : List Char) : Option Char :=
  let ds := cs.take width
  if ds.length == width && ds.all isHex then
    some (charOf (ds.foldl (fun n c => 16 * n + hexDigit c) 0))
  else none

/-- Text with escapes, up to a mark. Line breaks are part of it only if they may be. -/
def escaped (mark : List Char) (lines : Bool) (fuel : Nat) (cs : List Char) :
    Option (List Char × List Char) :=
  match fuel with
  | 0 => none
  | fuel + 1 =>
    if mark.isPrefixOf cs then some ([], cs.drop mark.length)
    else
      match cs with
      | [] => none
      | '\\' :: c :: rest =>
        if isBlank c || c == '\n' || c == '\r' then
          escaped mark lines fuel (rest.dropWhile fun c => isBlank c || c == '\n' || c == '\r')
        else
          match codeWidth? c with
          | some width => do
            let code ← code? width rest
            let (body, rest) ← escaped mark lines fuel (rest.drop width)
            return (code :: body, rest)
          | none => do
            let c ← escape? c
            let (body, rest) ← escaped mark lines fuel rest
            return (c :: body, rest)
      | c :: rest =>
        if c.toNat < 32 && c != '\t' && !(lines && (c == '\n' || c == '\r')) then none
        else (escaped mark lines fuel rest).map fun (body, rest) => (c :: body, rest)

/-- Drops a line break in front. -/
def dropBreak : List Char → List Char
  | '\r' :: '\n' :: rest => rest
  | '\n' :: rest => rest
  | cs => cs

/-- The text behind an opening double quote. -/
def basicText (cs : List Char) : Option (List Char × List Char) :=
  if [double, double].isPrefixOf cs then
    escaped [double, double, double] true (cs.length + 1) (dropBreak (cs.drop 2))
  else escaped [double] false (cs.length + 1) cs

/-- The text behind an opening single quote. -/
def literalText (cs : List Char) : Option (List Char × List Char) :=
  if [single, single].isPrefixOf cs then upTo? [single, single, single] (dropBreak (cs.drop 2))
  else upTo? [single] cs

/-! ## Keys and headers -/

/-- A key: bare characters and quoted parts, with dots between them. Blanks end it unless a dot
follows; around a dot they are part of it, the first one as a space. -/
def keyText (fuel : Nat) (cs : List Char) : Option (List Char × List Char) :=
  match fuel, cs with
  | _, [] => some ([], [])
  | 0, _ => none
  | fuel + 1, c :: rest =>
    if c == '=' then some ([], cs)
    else if c == double then do
      let (part, rest) ← escaped [double] true (rest.length + 1) rest
      let (more, rest) ← keyText fuel rest
      return (double :: part ++ double :: more, rest)
    else if c == single then do
      let (part, rest) ← upTo? [single] rest
      let (more, rest) ← keyText fuel rest
      return (single :: part ++ single :: more, rest)
    else if isBlank c then
      let before := rest.takeWhile isBlank
      let next := rest.drop before.length
      if next.head? == some '.' then do
        let behind := (next.drop 1).takeWhile isBlank
        let (more, rest) ← keyText fuel (next.drop (1 + behind.length))
        return (' ' :: before ++ '.' :: behind ++ more, rest)
      else some ([], next)
    else if c == '.' || isBare c then
      (keyText fuel rest).map fun (more, rest) => (c :: more, rest)
    else none

/-- What stands between the brackets of a header, and the rest from the closing bracket on. -/
def headerText (cs : List Char) : Option (List Char × List Char) :=
  let written := cs.takeWhile fun c => c != ']' && c != '['
  let rest := cs.drop written.length
  if rest.head? == some ']' then some (written, rest) else none

/-! ## Numbers and dates -/

/-- Takes a character if it is of a class. -/
def one? (p : Char → Bool) : List Char → Option (List Char)
  | c :: rest => if p c then some rest else none
  | [] => none

/-- Takes characters that are of given classes one after the other. -/
def shape? : List (Char → Bool) → List Char → Option (List Char)
  | [], cs => some cs
  | p :: ps, cs => (one? p cs).bind (shape? ps)

/-- The characters taken from the front to get to a rest. -/
def taken (cs rest : List Char) : List Char :=
  cs.take (cs.length - rest.length)

/-- The rest behind the fraction of a second, if there is one. -/
def afterFraction? : List Char → Option (List Char)
  | '.' :: rest => (one? Char.isDigit rest).map (·.dropWhile Char.isDigit)
  | cs => some cs

/-- The rest behind a time of day. -/
def afterTime? (cs : List Char) : Option (List Char) :=
  (shape? [Char.isDigit, Char.isDigit, (· == ':'), Char.isDigit, Char.isDigit, (· == ':'),
    Char.isDigit, Char.isDigit] cs).bind afterFraction?

/-- The rest behind a date. -/
def afterDate? (cs : List Char) : Option (List Char) :=
  shape? [Char.isDigit, Char.isDigit, Char.isDigit, Char.isDigit, (· == '-'), Char.isDigit,
    Char.isDigit, (· == '-'), Char.isDigit, Char.isDigit] cs

/-- An offset from universal time, if there is one. -/
def offsetToken (cs : List Char) : Option (List Token × List Char) :=
  match cs with
  | 'Z' :: rest => some ([.offset ['Z']], rest)
  | sign :: more =>
    if sign == '+' || sign == '-' then
      (shape? [Char.isDigit, Char.isDigit, (· == ':'), Char.isDigit, Char.isDigit] more).map
        fun rest => ([.offset (taken cs rest)], rest)
    else some ([], cs)
  | [] => some ([], cs)

/-- A date, with the time of day and the offset behind it. -/
def dateTokens (cs : List Char) : Option (List Token × List Char) := do
  let rest ← afterDate? cs
  let date := Token.date (taken cs rest)
  let joined ← match rest with
    | [] => some false
    | ' ' :: a :: b :: _ => some (a.isDigit && b.isDigit)
    | ' ' :: _ => some false
    | 'T' :: _ => some true
    | _ => none
  if joined then
    let clock := rest.drop 1
    let behind ← afterTime? clock
    let (offset, rest) ← offsetToken behind
    return (date :: .time (taken clock behind) :: offset, rest)
  else return ([date], rest)

/-- The digits that may follow the mark of a base. -/
def baseDigit? (mark : Char) : Option (Char → Bool) :=
  if mark == 'x' then some fun c => isHex c || c == '_'
  else if mark == 'o' then some fun c => ('0' ≤ c && c ≤ '7') || c == '_'
  else if mark == 'b' then some fun c => c == '0' || c == '1' || c == '_'
  else none

/-- What a decimal number has shown so far. -/
structure Shown where
  point : Bool := false
  exponent : Bool := false
  digit : Bool := false
  deriving DecidableEq, Repr

/-- The rest behind a decimal number, and what the number has shown. -/
def afterDecimal? (s : Shown) : List Char → Option (Shown × List Char)
  | [] => some (s, [])
  | c :: rest =>
    if c == '.' then
      if s.point || !s.digit || !(rest.head?.any Char.isDigit) then none
      else afterDecimal? { s with point := true } rest
    else if c == 'e' || c == 'E' then
      match rest with
      | sign :: more =>
        if sign == '+' || sign == '-' then afterDecimal? { s with exponent := true } more
        else afterDecimal? { s with exponent := true } (sign :: more)
      | [] => some ({ s with exponent := true }, [])
    else if c.isDigit then afterDecimal? { s with digit := true } rest
    else if c == '_' then afterDecimal? s rest
    else some (s, c :: rest)

/-- A decimal number with an optional sign, or a signed constant. -/
def decimalToken (cs : List Char) : Option (Token × List Char) :=
  let signed := cs.head?.any fun c => c == '+' || c == '-'
  let body := if signed then cs.drop 1 else cs
  if signed && (['i', 'n', 'f'].isPrefixOf body || ['n', 'a', 'n'].isPrefixOf body) then
    some (.constant, body.drop 3)
  else
    match afterDecimal? {} body with
    | none => none
    | some (s, rest) =>
      if !s.digit then none
      else if s.point || s.exponent then some (.float (taken cs rest), rest)
      else some (.integer (taken cs rest), rest)

/-- A number. -/
def numberToken (cs : List Char) : Option (Token × List Char) :=
  match cs with
  | '0' :: mark :: rest =>
    match baseDigit? mark with
    | some isDigit =>
      let after := rest.dropWhile isDigit
      if after.length == rest.length then none else some (.integer (taken cs after), after)
    | none => if mark.isAlpha then none else decimalToken cs
  | cs => decimalToken cs

/-- A date, a time of day or a number, by where the first mark between digits stands. -/
def numericTokens (cs : List Char) : Option (List Token × List Char) :=
  let lead := (cs.takeWhile Char.isDigit).length
  let mark := (cs.drop lead).head?
  if lead == 2 && mark == some ':' then
    (afterTime? cs).map fun rest => ([.time (taken cs rest)], rest)
  else if lead == 4 && mark == some '-' then dateTokens cs
  else (numberToken cs).map fun (t, rest) => ([t], rest)

/-! ## Scanning -/

/-- Where a scan stands. -/
inductive Place where
  | entry
  | value
  deriving DecidableEq, Repr

/-- The brackets that can be open. -/
inductive Bracket where
  | square
  | curly
  deriving DecidableEq, Repr

/-- The words for constants. -/
def constants : List (List Char) :=
  [['t', 'r', 'u', 'e'], ['f', 'a', 'l', 's', 'e'], ['i', 'n', 'f'], ['n', 'a', 'n']]

/-- One step of a scan: the tokens it finds, where it stands then, the open brackets and the rest
of the text. -/
abbrev Step := List Token × Place × List Bracket × List Char

/-- The rest of a text behind a comment. -/
def afterComment : List Char → List Char
  | [] => []
  | '\n' :: rest => '\n' :: rest
  | '\r' :: '\n' :: rest => '\r' :: '\n' :: rest
  | _ :: rest => afterComment rest

/-- Closes a curly bracket. -/
def closeCurly (brackets : List Bracket) (rest : List Char) : Option Step :=
  match brackets with
  | .curly :: outer => some ([.closeCurly], .value, outer, rest)
  | _ => none

/-- A step where an entry may start. -/
def entryStep (brackets : List Bracket) (c : Char) (rest : List Char) : Option Step :=
  if c == '\x7d' then closeCurly brackets rest
  else if c == '[' then
    if rest.head? == some '[' then do
      let (written, rest) ← headerText (rest.drop 1)
      let rest ← shape? [(· == ']'), (· == ']')] rest
      return ([.listHeader written], .entry, brackets, rest)
    else do
      let (written, rest) ← headerText rest
      let tokens : List Token :=
        if written.isEmpty then [.openSquare, .closeSquare] else [.header written]
      return (tokens, .entry, brackets, rest.drop 1)
  else if c == '#' then some ([], .entry, brackets, afterComment rest)
  else if c == '=' then some ([.equals], .value, brackets, rest)
  else if c == '\n' || c == '\r' || isBlank c then some ([], .entry, brackets, rest)
  else do
    let (written, rest) ← keyText (rest.length + 1) (c :: rest)
    return ([.key written], .entry, brackets, rest)

/-- A step where a value may start. -/
def valueStep (brackets : List Bracket) (c : Char) (rest : List Char) : Option Step :=
  if c == '=' then some ([.equals], .value, brackets, rest)
  else if c == '[' then some ([.openSquare], .value, .square :: brackets, rest)
  else if c == ']' then
    some ([.closeSquare], .value, if brackets.head? == some .square then brackets.drop 1 else brackets, rest)
  else if c == '\x7b' then some ([.openCurly], .entry, .curly :: brackets, rest)
  else if c == '\x7d' then closeCurly brackets rest
  else if c == '#' then some ([], .value, brackets, afterComment rest)
  else if c == double then
    (basicText rest).map fun (content, rest) => ([.text content], .value, brackets, rest)
  else if c == single then
    (literalText rest).map fun (content, rest) => ([.text content], .value, brackets, rest)
  else if c == ',' then
    some ([.comma], if brackets.head? == some .curly then .entry else .value, brackets, rest)
  else if c == '\n' || c == '\r' then
    some ([], if brackets.head? == some .square then .value else .entry, brackets, rest)
  else if isBlank c then some ([], .value, brackets, rest)
  else
    match constants.find? (·.isPrefixOf (c :: rest)) with
    | some word => some ([.constant], .value, brackets, (c :: rest).drop word.length)
    | none =>
      if c == '+' || c == '-' then
        (numberToken (c :: rest)).map fun (t, rest) => ([t], .value, brackets, rest)
      else if c.isDigit then
        (numericTokens (c :: rest)).map fun (ts, rest) => (ts, .value, brackets, rest)
      else none

/-- Scans a text. Every step takes at least one character, so the fuel is the length of the
text. -/
def scanFrom (fuel : Nat) (place : Place) (brackets : List Bracket) (cs : List Char) :
    Option (List Token) :=
  match fuel, cs with
  | _, [] => some []
  | 0, _ => none
  | fuel + 1, c :: rest => do
    let (tokens, place, brackets, rest) ← match place with
      | .entry => entryStep brackets c rest
      | .value => valueStep brackets c rest
    return tokens ++ (← scanFrom fuel place brackets rest)

/-- The tokens of a text. -/
def scan (cs : List Char) : Option (List Token) :=
  scanFrom cs.length .entry [] cs

end Toml

end DirectC
