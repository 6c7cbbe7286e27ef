/-
# Tokens

The token alphabet of the language: keywords, operators and delimiters, and the classes of
identifiers and literals. Every kind of token has a spelling, which is how messages name it, and
a number, its place in the alphabet.
-/
import DirectC.Bytes

namespace DirectC

/-! ## Keywords -/

/-- The reserved words. -/
inductive Keyword where
  | int
  | char
  | void
  | struct
  | returnKw
  | ifKw
  | elseKw
  | whileKw
  | forKw
  | sizeof
  | alignof
  | throwKw
  deriving DecidableEq, Repr, Inhabited

namespace Keyword

/-- The reserved words in the order of their numbers. -/
def all : List Keyword :=
  [.int, .char, .void, .struct, .returnKw, .ifKw, .elseKw, .whileKw, .forKw, .sizeof, .alignof, .throwKw]

/-- How a reserved word is written. -/
def spelling : Keyword → Bytes
  | .int => "int"
  | .char => "char"
  | .void => "void"
  | .struct => "struct"
  | .returnKw => "return"
  | .ifKw => "if"
  | .elseKw => "else"
  | .whileKw => "while"
  | .forKw => "for"
  | .sizeof => "sizeof"
  | .alignof => "_Alignof"
  | .throwKw => "__throw"

/-- The reserved word that a text spells. -/
def ofText? (text : Bytes) : Option Keyword :=
  all.find? fun k => k.spelling == text

end Keyword

/-! ## Operators and delimiters -/

/-- The operators and delimiters. -/
inductive Punct where
  | plus
  | minus
  | star
  | slash
  | percent
  | assign
  | eq
  | ne
  | lt
  | le
  | gt
  | ge
  | and
  | or
  | not
  | ampersand
  | plusAssign
  | minusAssign
  | increment
  | decrement
  | leftParen
  | rightParen
  | leftBrace
  | rightBrace
  | leftBracket
  | rightBracket
  | semicolon
  | comma
  | dot
  | arrow
  deriving DecidableEq, Repr, Inhabited

namespace Punct

/-- The operators and delimiters in the order of their numbers. -/
def all : List Punct :=
  [.plus, .minus, .star, .slash, .percent, .assign, .eq, .ne, .lt, .le, .gt, .ge, .and, .or, .not,
    .ampersand, .plusAssign, .minusAssign, .increment, .decrement, .leftParen, .rightParen,
    .leftBrace, .rightBrace, .leftBracket, .rightBracket, .semicolon, .comma, .dot, .arrow]

/-- How an operator or delimiter is written. -/
def spelling : Punct → Bytes
  | .plus => "+"
  | .minus => "-"
  | .star => "*"
  | .slash => "/"
  | .percent => "%"
  | .assign => "="
  | .eq => "=="
  | .ne => "!="
  | .lt => "<"
  | .le => "<="
  | .gt => ">"
  | .ge => ">="
  | .and => "&&"
  | .or => "||"
  | .not => "!"
  | .ampersand => "&"
  | .plusAssign => "+="
  | .minusAssign => "-="
  | .increment => "++"
  | .decrement => "--"
  | .leftParen => "("
  | .rightParen => ")"
  | .leftBrace => "\x7b"
  | .rightBrace => "\x7d"
  | .leftBracket => "["
  | .rightBracket => "]"
  | .semicolon => ";"
  | .comma => ","
  | .dot => "."
  | .arrow => "->"

/-- The operator or delimiter that a text spells. -/
def ofText? (text : Bytes) : Option Punct :=
  all.find? fun p => p.spelling == text

end Punct

/-! ## Kinds of tokens -/

namespace Token

/-- The kinds of tokens. -/
inductive Kind where
  | endOfFile
  | illegal
  | identifier
  | number
  | character
  | string
  | keyword (k : Keyword)
  | punct (p : Punct)
  deriving DecidableEq, Repr, Inhabited

namespace Kind

/-- The kinds in the order of their numbers. -/
def all : List Kind :=
  [.endOfFile, .illegal, .identifier, .number, .character, .string] ++
    Keyword.all.map .keyword ++ Punct.all.map .punct

/-- How messages name a kind. -/
def spelling : Kind → Bytes
  | .endOfFile => "EOF"
  | .illegal => "ILLEGAL"
  | .identifier => "IDENT"
  | .number => "INT"
  | .character => "CHAR"
  | .string => "STRING"
  | .keyword k => k.spelling
  | .punct p => p.spelling

/-- The number of a kind. -/
def toNumber (k : Kind) : Nat :=
  all.idxOf k

/-- The spelling of the kind with a given number. -/
def spellingOfNumber (n : Int) : Bytes :=
  if n < 0 then "UNKNOWN" else ((all[n.toNat]?).map spelling).getD "UNKNOWN"

/-- The kind of a word: a keyword if it is reserved, an identifier otherwise. -/
def ofWord (text : Bytes) : Kind :=
  match Keyword.ofText? text with
  | some k => .keyword k
  | none => .identifier

end Kind

end Token

/-! ## Tokens -/

/-- A token with its place in the source text. -/
structure Token where
  kind : Token.Kind
  /-- The text of the token. For character and string literals, the bytes they denote. -/
  literal : Bytes
  /-- The offset of the first byte. -/
  pos : Nat
  line : Nat
  column : Nat
  deriving DecidableEq, Repr, Inhabited

end DirectC
