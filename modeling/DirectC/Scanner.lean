/-
# Scanning

From source text to tokens. What the scanner passes over and what it takes for one token are
functions of the text alone (`Scan.trivia`, `Scan.lexeme`), and both answer with a number of
bytes; a `Cursor` moves over that many bytes and keeps the offset, line and column.

The scan never stops early: a byte that starts no token, a literal that is not closed and a
comment that is not closed become illegal tokens.
-/
import DirectC.Token
import DirectC.Utf8

namespace DirectC

namespace Scan

/-! ## Blanks and comments -/

/-- A blank: space, tab, line feed or carriage return. -/
def isBlank (b : UInt8) : Bool :=
  b == 32 || b == 9 || b == 10 || b == 13

/-- What stands before a token. -/
inductive Trivia where
  /-- Blanks and complete comments, of so many bytes. -/
  | clear (length : Nat)
  /-- After so many bytes, a block comment that is not closed. -/
  | unclosed (length : Nat)
  deriving DecidableEq, Repr

mutual

/-- The blanks and comments that the text starts with, after `n` bytes of them. -/
def triviaFrom (n : Nat) : Bytes → Trivia
  | [] => .clear n
  | b :: rest =>
    if isBlank b then triviaFrom (n + 1) rest
    else if b == 47 then
      match rest with
      | [] => .clear n
      | c :: inner =>
        if c == 47 then lineComment (n + 2) inner
        else if c == 42 then blockComment n (n + 2) false inner
        else .clear n
    else .clear n

/-- The rest of a line comment, which ends before a newline or at the end of the text. -/
def lineComment (n : Nat) : Bytes → Trivia
  | [] => .clear n
  | b :: rest => if b == 10 then triviaFrom (n + 1) rest else lineComment (n + 1) rest

/-- The rest of a block comment that started after `opened` bytes; `starred` says that the last
byte was a star. -/
def blockComment (opened n : Nat) (starred : Bool) : Bytes → Trivia
  | [] => .unclosed opened
  | b :: rest =>
    if starred && b == 47 then triviaFrom (n + 1) rest
    else blockComment opened (n + 1) (b == 42) rest

end

/-- The blanks and comments that the text starts with. -/
def trivia (text : Bytes) : Trivia :=
  triviaFrom 0 text

/-! ## Words, numbers and literals -/

/-- A letter or an underscore. -/
def isLetter (b : UInt8) : Bool :=
  97 ≤ b && b ≤ 122 || 65 ≤ b && b ≤ 90 || b == 95

/-- A byte that continues a word. -/
def isWordByte (b : UInt8) : Bool :=
  isLetter b || Bytes.isDigit b

/-- The byte that an escape letter denotes. -/
def unescape? (b : UInt8) : Option UInt8 :=
  if b == 110 then some 10
  else if b == 116 then some 9
  else if b == 114 then some 13
  else if b == 48 then some 0
  else if b == 92 || b == 39 || b == 34 then some b
  else none

/-- A quoted literal read as far as it goes. -/
structure Literal where
  /-- The bytes it denotes. -/
  value : Bytes
  /-- The bytes of text it takes behind its opening quote. -/
  length : Nat
  /-- Whether it ends with its closing quote. -/
  closed : Bool
  deriving DecidableEq, Repr

/-- Puts a byte, written with `width` bytes of text, in front of a literal. -/
def Literal.push (b : UInt8) (width : Nat) (l : Literal) : Literal :=
  ⟨b :: l.value, width + l.length, l.closed⟩

/-- The literal behind an opening quote. It breaks off before a newline, at the end of the text
and behind the backslash of an unknown escape. -/
def literal (quote : UInt8) : Bytes → Literal
  | [] => ⟨[], 0, false⟩
  | b :: rest =>
    if b == quote then ⟨[], 1, true⟩
    else if b == 10 then ⟨[], 0, false⟩
    else if b == 92 then
      match rest with
      | [] => ⟨[], 1, false⟩
      | e :: inner =>
        match unescape? e with
        | some v => (literal quote inner).push v 2
        | none => ⟨[], 1, false⟩
    else (literal quote rest).push b 1

/-! ## Lexemes -/

/-- The text of one token: its kind, its literal and its number of bytes. -/
structure Lexeme where
  kind : Token.Kind
  literal : Bytes
  length : Nat
  deriving DecidableEq, Repr

/-- A string literal behind its opening quote. -/
def stringLexeme (rest : Bytes) : Lexeme :=
  let l := literal 34 rest
  ⟨if l.closed then .string else .illegal, l.value, l.length + 1⟩

/-- A character literal behind its opening quote; it denotes exactly one byte. -/
def characterLexeme (rest : Bytes) : Lexeme :=
  let l := literal 39 rest
  ⟨if l.closed && l.value.length == 1 then .character else .illegal, l.value, l.length + 1⟩

/-- A word: the longest run of letters and digits. -/
def wordLexeme (text : Bytes) : Lexeme :=
  let word := text.takeWhile isWordByte
  ⟨.ofWord word, word, word.length⟩

/-- A number: the longest run of digits. -/
def numberLexeme (text : Bytes) : Lexeme :=
  let digits := text.takeWhile Bytes.isDigit
  ⟨.number, digits, digits.length⟩

/-- The operator or delimiter that the text starts with, two bytes long if there is one. -/
def punct? (b : UInt8) (rest : Bytes) : Option Lexeme :=
  match rest.head?.bind fun c => Punct.ofText? [b, c] with
  | some p => some ⟨.punct p, p.spelling, 2⟩
  | none => (Punct.ofText? [b]).map fun p => ⟨.punct p, p.spelling, 1⟩

/-- The lexeme that a text of `b` and `rest` starts with. A byte that starts no token is an
illegal one, shown as the code point of that number. -/
def lexeme (b : UInt8) (rest : Bytes) : Lexeme :=
  if b == 34 then stringLexeme rest
  else if b == 39 then characterLexeme rest
  else if isLetter b then wordLexeme (b :: rest)
  else if Bytes.isDigit b then numberLexeme (b :: rest)
  else (punct? b rest).getD ⟨.illegal, Utf8.encode b.toNat, 1⟩

end Scan

/-! ## The cursor -/

/-- A place in a source text: what is still ahead, and the offset, line and column of it. -/
structure Cursor where
  rest : Bytes
  pos : Nat := 0
  line : Nat := 1
  column : Nat := 1
  deriving DecidableEq, Repr, Inhabited

namespace Cursor

/-- Moves over one byte. -/
def step (c : Cursor) : Cursor :=
  match c.rest with
  | [] => c
  | b :: rest =>
    if b == 10 then ⟨rest, c.pos + 1, c.line + 1, 1⟩ else ⟨rest, c.pos + 1, c.line, c.column + 1⟩

/-- Moves over `n` bytes. -/
def advance (n : Nat) (c : Cursor) : Cursor :=
  match n with
  | 0 => c
  | n + 1 => advance n c.step

/-- A token of given kind and literal that starts here. -/
def token (c : Cursor) (kind : Token.Kind) (literal : Bytes) : Token :=
  ⟨kind, literal, c.pos, c.line, c.column⟩

/-- The next token and the place behind it. At the end of the text that is the end of file, as
often as one asks. An unclosed comment takes all the text there is. -/
def next (c : Cursor) : Token × Cursor :=
  match Scan.trivia c.rest with
  | .unclosed n =>
    let start := c.advance n
    (start.token .illegal "/*", start.advance start.rest.length)
  | .clear n =>
    let start := c.advance n
    match start.rest with
    | [] => (start.token .endOfFile [], start)
    | b :: rest =>
      let l := Scan.lexeme b rest
      (start.token l.kind l.literal, start.advance l.length)

/-- The tokens up to the end of file and the place behind them; `fuel` bounds the number of
tokens before it. -/
def tokens (fuel : Nat) (c : Cursor) : List Token × Cursor :=
  let (t, c') := c.next
  match fuel with
  | 0 => ([t], c')
  | fuel + 1 =>
    if t.kind = .endOfFile then ([t], c')
    else
      let (ts, last) := c'.tokens fuel
      (t :: ts, last)

/-- The next `n` tokens, whatever they are. -/
def take (n : Nat) (c : Cursor) : List Token :=
  match n with
  | 0 => []
  | n + 1 =>
    let (t, c') := c.next
    t :: c'.take n

end Cursor

namespace Token

/-- The tokens of a source text, the end of file last. Every token before it takes at least one
byte, so there are at most as many as there are bytes. -/
def scan (source : Bytes) : List Token :=
  (Cursor.tokens source.length ⟨source, 0, 1, 1⟩).1

/-- The tokens of a source text and `n` more that the scanner yields behind the end of file. -/
def scanBeyond (source : Bytes) (n : Nat) : List Token :=
  let (ts, last) := Cursor.tokens source.length ⟨source, 0, 1, 1⟩
  ts ++ last.take n

end Token

end DirectC
