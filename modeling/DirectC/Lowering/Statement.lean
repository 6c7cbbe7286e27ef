/-
# Lowering statements and functions

Statements are put together from the inside out, so that the size of what a jump skips is known
when the jump is made. A function is a frame, the stores of its parameters, its body, and a
return of zero for bodies that run to their end.
-/
import DirectC.Lowering.Expression

namespace DirectC

namespace Lowering

/-- The number of the system call that ends a process. -/
def exitCall : UInt32 := 60

/-- A statement that runs if a condition holds. -/
def ifThen (c : Context) (pos : Int) (cond yes : Lower Code) : Lower Code := do
  let cond ← cond
  let yes ← yes
  let guard ← jumpIf c .equal (Code.size yes) pos
  return List.flatten [cond, guard, yes]

/-- One of two statements, by a condition. -/
def ifElse (c : Context) (pos : Int) (cond yes no : Lower Code) : Lower Code := do
  let cond ← cond
  let yes ← yes
  let no ← no
  let skip ← jump c (Code.size no) pos
  let guard ← jumpIf c .equal (Code.size yes + Code.size skip) pos
  return List.flatten [cond, guard, yes, skip, no]

/-- A statement that runs as long as a condition holds. -/
def loop (c : Context) (pos : Int) (cond body : Lower Code) : Lower Code := do
  let cond ← cond
  let body ← body
  let exit ← jumpIf c .equal (Code.size body + Instr.jumpSize) pos
  let length : Int := Code.size cond + Code.size exit + Code.size body + Instr.jumpSize
  let back ← jump c (-length) pos
  return List.flatten [cond, exit, body, back]

mutual

/-- The code of a statement. -/
def statement (c : Context) (s : Stmt) : Lower Code :=
  match s with
  | .eval e => value c e
  | .ret none _ => return Instr.returnZero
  | .ret (some e) _ => return (← value c e) ++ [.mov .rax .rdi, .leave, .ret]
  | .exit e _ => return (← value c e) ++ [.movAddr .rax exitCall, .syscall]
  | .ifThen cond yes => ifThen c cond.pos (condition c cond) (statement c yes)
  | .ifElse cond yes no =>
    ifElse c cond.pos (condition c cond) (statement c yes) (statement c no)
  | .loop cond body => loop c cond.pos (condition c cond) (statement c body)
  | .block items => statements c items
  | .missing => fail .statement c.pos

/-- The code of statements one after the other. -/
def statements (c : Context) (items : List Stmt) : Lower Code :=
  match items with
  | [] => return []
  | s :: rest => return (← statement c s) ++ (← statements c rest)

end

/-! ## Functions -/

/-- Stores parameters from their registers into their slots. -/
def storeParams (c : Context) : List (Param × Register) → Lower Code
  | [] => return []
  | (p, r) :: rest => do
    let (offset, frame) ← located c.pos ((← get).frame.slot c.layout p.id p.type)
    modify fun s => { s with frame }
    let size ← located c.pos (c.layout.size p.type)
    match Width.ofSize? size with
    | none => fail (.store size) c.pos
    | some w => return .storeSlot r offset w :: (← storeParams c rest)

/-- The code of a function between its frame and its last return. -/
def body (c : Context) (f : Function) : Lower Code := do
  let count := f.params.length
  if c.limits.registerArgs.toInt < count || Register.arguments.length < count then
    fail (.parameters f.name count (min c.limits.registerArgs.toInt Register.arguments.length)) c.pos
  let params ← storeParams c (f.params.zip Register.arguments)
  return params ++ (← statements c (f.body.getD []))

/-- The code of a function. The size of the frame is known once the body has claimed its
slots. -/
def function (f : Function) (layout : Layout) (limits : Limits) (symbols : Symbols) :
    Except Diagnostic Code :=
  match (body ⟨layout, limits, symbols, f.pos⟩ f).run {} with
  | .ok (code, state) => .ok (List.flatten [Instr.enter state.frame.size, code, Instr.returnZero])
  | .error c => .error (c.diagnostic f.file f.source)

end Lowering

end DirectC
