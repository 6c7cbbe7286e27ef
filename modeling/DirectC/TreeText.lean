/-
# Program trees as text

A tree written out in the manner of its source: expressions with all their parentheses, every
expression statement followed by its type, structs with sizes and offsets, locals with their
numbers.
-/
import DirectC.Tree

namespace DirectC

/-! ## Expressions -/

mutual

/-- An expression with all its parentheses. -/
def Expr.text : Expr → Bytes
  | .num value _ _ => .ofInt value.toInt
  | .str _ value _ _ => value.quoted
  | .ident name _ _ _ => name
  | .unary op _ operand _ => op.text ++ operand.text
  | .binary op _ left right _ => Bytes.say ["(", left.text, " ", op.text, " ", right.text, ")"]
  | .decay inner _ => Bytes.say ["&", inner.text, "[0]"]
  | .call name _ args _ => Bytes.say [name, "(", List.intercalate ", " (Expr.texts args), ")"]
  | .missing => "/* unknown expr <nil> */"

/-- Each of the expressions with all its parentheses. -/
def Expr.texts : List Expr → List Bytes
  | [] => []
  | e :: es => e.text :: Expr.texts es

end

/-! ## Statements -/

/-- Two blanks for each level of nesting. -/
def indentation (depth : Nat) : Bytes :=
  List.replicate (2 * depth) 32

mutual

/-- A statement on lines of its own. -/
def Stmt.text (depth : Nat) : Stmt → Bytes
  | .ret none _ => Bytes.say [indentation depth, "return;\n"]
  | .ret (some e) _ => Bytes.say [indentation depth, "return ", e.text, ";\n"]
  | .exit e _ => Bytes.say [indentation depth, "__throw ", e.text, ";\n"]
  | .eval e => Bytes.say [indentation depth, e.text, "; /* ", e.type.text, " */\n"]
  | .ifThen cond yes =>
    Bytes.say [indentation depth, "if (", cond.text, ")\n", yes.text (depth + 1)]
  | .ifElse cond yes no =>
    Bytes.say [indentation depth, "if (", cond.text, ")\n", yes.text (depth + 1),
      indentation depth, "else\n", no.text (depth + 1)]
  | .loop cond body =>
    Bytes.say [indentation depth, "while (", cond.text, ")\n", body.text (depth + 1)]
  | .block items =>
    Bytes.say [indentation depth, "\x7b\n", Stmt.texts (depth + 1) items, indentation depth,
      "\x7d\n"]
  | .missing => Bytes.say [indentation depth, "/* unknown stmt <nil> */;\n"]

/-- Statements one after the other. -/
def Stmt.texts (depth : Nat) : List Stmt → Bytes
  | [] => []
  | s :: ss => s.text depth ++ Stmt.texts depth ss

end

/-! ## Programs -/

/-- A function definition. -/
def Function.text (f : Function) : Bytes :=
  Bytes.say [
    f.ret.text, " ", f.name, "(",
    List.intercalate ", " (f.params.map fun p => Bytes.say [p.type.text, " ", p.name]), ")\n\x7b\n",
    f.locals.flatMap fun v =>
      Bytes.say [indentation 1, v.type.text, " ", v.name, "; /* #", .ofInt v.id, " */\n"],
    Stmt.texts 1 (f.body.getD []), "\x7d\n"]

/-- A struct definition over several lines. -/
def StructDef.lines (d : StructDef) : Bytes :=
  Bytes.say [
    "struct ", d.name, " \x7b /* size ", .ofInt d.size.toInt, ", align ", .ofInt d.align.toInt,
    " */\n",
    d.members.flatMap fun m =>
      Bytes.say [indentation 1, m.type.text, " ", m.name, "; /* offset ", .ofInt m.offset.toInt,
        " */\n"],
    "\x7d;\n\n"]

/-- The pool of strings, one a line, from number `n` on. -/
def stringLines (n : Nat) : List Bytes → Bytes
  | [] => []
  | s :: ss => Bytes.say ["/* string ", .ofNat n, " */ ", s.quoted, "\n"] ++ stringLines (n + 1) ss

/-- A whole program: structs, strings, globals and functions. -/
def Program.text (p : Program) : Bytes :=
  Bytes.say [
    p.layout.definitions.flatMap StructDef.lines,
    stringLines 0 p.strings,
    p.globals.flatMap fun g => Bytes.say [g.type.text, " ", g.name, ";\n"],
    if p.strings.isEmpty && p.globals.isEmpty then [] else "\n",
    p.functions.flatMap fun f => f.text ++ "\n"]

end DirectC
