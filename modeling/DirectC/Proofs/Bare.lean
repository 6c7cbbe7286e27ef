/-
# Programs without positions

What a source text declares, without where it stands: `bare` sets every position to zero, and takes
the file and its text from a function. Two environments that are equal when bare hold the same
declarations. Positions are there to be reported; no question that a reader or a typing rule asks
is answered differently without them.
-/
import DirectC.Grammar.Fault
import DirectC.Scope
import DirectC.Env

namespace DirectC

/-! ## Trees -/

mutual

/-- An expression without positions. -/
def Expr.bare : Expr → Expr
  | .num value _ type => .num value 0 type
  | .ident name _ storage type => .ident name 0 storage type
  | .binary op _ left right type => .binary op 0 left.bare right.bare type
  | .unary op _ operand type => .unary op 0 operand.bare type
  | .call name _ args type => .call name 0 (Expr.bares args) type
  | .decay inner type => .decay inner.bare type
  | .str index value _ type => .str index value 0 type
  | .missing => .missing

/-- Expressions without positions. -/
def Expr.bares : List Expr → List Expr
  | [] => []
  | e :: es => e.bare :: Expr.bares es

end

mutual

/-- A statement without positions. -/
def Stmt.bare : Stmt → Stmt
  | .eval e => .eval e.bare
  | .exit status _ => .exit status.bare 0
  | .ret value _ => .ret (value.map Expr.bare) 0
  | .ifThen cond yes => .ifThen cond.bare yes.bare
  | .ifElse cond yes no => .ifElse cond.bare yes.bare no.bare
  | .loop cond body => .loop cond.bare body.bare
  | .block items => .block (Stmt.bares items)
  | .missing => .missing

/-- Statements without positions. -/
def Stmt.bares : List Stmt → List Stmt
  | [] => []
  | s :: ss => s.bare :: Stmt.bares ss

end

namespace Expr

/-- Every expression of a list loses its positions. -/
@[simp] theorem bares_eq_map (es : List Expr) : bares es = es.map bare := by
  induction es with
  | nil => rfl
  | cons e es ih => rw [bares, ih, List.map_cons]

/-- Types have no positions. -/
@[simp] theorem type_bare (e : Expr) : e.bare.type = e.type := by
  cases e <;> rfl

/-- All positions are gone, also behind conversions. -/
theorem pos_bare : ∀ e : Expr, e.bare.pos = 0
  | .decay inner _ => pos_bare inner
  | .num .. | .ident .. | .binary .. | .unary .. | .call .. | .str .. | .missing => rfl

/-- A place is one without positions. -/
@[simp] theorem isPlace_bare (e : Expr) : e.bare.isPlace = e.isPlace := by
  cases e with
  | unary op => cases op <;> rfl
  | _ => rfl

/-- A null pointer is one without positions. -/
@[simp] theorem isNull_bare (e : Expr) : e.bare.isNull = e.isNull := by
  cases e <;> rfl

@[simp] theorem int_bare (value : Int32) (pos : Int) : (int value pos).bare = int value 0 := rfl

end Expr

mutual

/-- Positions are not written. -/
theorem Expr.text_bare : ∀ e : Expr, e.bare.text = e.text
  | .binary op pos left right type => by
    simp only [bare, text, text_bare left, text_bare right]
  | .unary op pos operand type => by simp only [bare, text, text_bare operand]
  | .call name pos args type => by simp only [bare, text, texts_bares args]
  | .decay inner type => by simp only [bare, text, text_bare inner]
  | .num .. | .ident .. | .str .. | .missing => rfl

/-- The texts of arguments do not show positions. -/
theorem Expr.texts_bares : ∀ es : List Expr, texts (bares es) = texts es
  | [] => rfl
  | e :: es => by simp only [bares, texts, text_bare e, texts_bares es]

end

/-- Every statement of a list loses its positions. -/
@[simp] theorem Stmt.bares_eq_map (ss : List Stmt) : bares ss = ss.map bare := by
  induction ss with
  | nil => rfl
  | cons s ss ih => rw [bares, ih, List.map_cons]

/-! ## Tokens and complaints -/

/-- A token without its place. -/
def Token.bare (t : Token) : Token :=
  { t with pos := 0, line := 0, column := 0 }

@[simp] theorem Token.kind_bare (t : Token) : t.bare.kind = t.kind := rfl

@[simp] theorem Token.literal_bare (t : Token) : t.bare.literal = t.literal := rfl

@[simp] theorem Token.pos_bare (t : Token) : t.bare.pos = 0 := rfl

namespace Grammar

/-- A cause without the positions in it. -/
def Fault.bare : Fault → Fault
  | .unexpected wanted got => .unexpected wanted got.bare
  | .address e => .address e.bare
  | .assignTarget target => .assignTarget target.bare
  | fault => fault

/-- A complaint without its position. -/
def Complaint.bare (c : Complaint) : Complaint :=
  ⟨c.fault.bare, 0⟩

/-- What kind of cause it is has nothing to do with positions. -/
theorem Fault.kind_bare (fault : Fault) : fault.bare.kind = fault.kind := by
  cases fault <;> rfl

/-- **Messages do not show the positions in them.** -/
theorem Fault.message_bare (fault : Fault) : fault.bare.message = fault.message := by
  cases fault with
  | address e => simp only [bare, message, Expr.text_bare]
  | assignTarget e => simp only [bare, message, Expr.text_bare, Expr.type_bare]
  | _ => rfl

end Grammar

/-! ## Tables -/

namespace Table

variable {α β : Type} {f : α → β} {t : Table α} {name : Bytes} {value : α}

/-- A table with every value changed. -/
def map (f : α → β) (t : Table α) : Table β :=
  ⟨t.entries.map fun e => (e.1, f e.2)⟩

/-- Looking up and changing values can be done in either order. -/
theorem get?_map : (t.map f).get? name = (t.get? name).map f := by
  unfold get? map
  rw [List.find?_map, Option.map_map, Option.map_map]
  rfl

/-- Changing values changes no names. -/
theorem contains_map : (t.map f).contains name = t.contains name := by
  unfold contains map
  rw [List.any_map]
  rfl

/-- A value may be changed before it is put into the list or behind. -/
theorem put_map (entries : List (Bytes × α)) :
    put name (f value) (entries.map fun e => (e.1, f e.2)) =
      (put name value entries).map fun e => (e.1, f e.2) := by
  induction entries with
  | nil => rfl
  | cons e es ih =>
    simp only [List.map_cons, put]
    split
    · rfl
    · rw [List.map_cons, ih]

/-- A value may be changed before it is inserted into a table or behind. -/
theorem map_insert : (t.insert name value).map f = (t.map f).insert name (f value) :=
  congrArg mk (put_map t.entries).symm

/-- A name that is erased takes its value along. -/
theorem map_erase : (t.erase name).map f = (t.map f).erase name := by
  unfold erase map
  rw [List.filter_map]
  rfl

end Table

/-! ## Environments -/

/-- A local variable without its position. -/
def LocalVar.bare (v : LocalVar) : LocalVar :=
  { v with pos := 0 }

/-- A signature without its position. -/
def Signature.bare (s : Signature) : Signature :=
  { s with pos := 0 }

/-- A global variable without its position. -/
def GlobalVar.bare (g : GlobalVar) : GlobalVar :=
  { g with pos := 0 }

/-- A function without positions, its file and its text. -/
def Function.bare (f : Function) : Function :=
  { f with
    pos := 0
    body := f.body.map fun items => items.map Stmt.bare
    locals := f.locals.map LocalVar.bare
    file := []
    source := [] }

/-- Scopes without positions. -/
def Scope.bare (s : Scope) : Scope :=
  { s with locals := s.locals.map LocalVar.bare }

/-- An environment without positions, files and texts. -/
def Env.bare (env : Env) : Env :=
  { env with
    signatures := env.signatures.map Signature.bare
    globals := env.globals.map GlobalVar.bare
    functions := env.functions.map Function.bare }

namespace Scope

variable {s : Scope}

theorem bare_push : s.push.bare = s.bare.push := rfl

/-- Scopes are closed in the same way without positions. -/
theorem bare_pop : s.pop.bare = s.bare.pop := by
  unfold pop bare
  dsimp only
  split <;> rfl

/-- A name is new without positions if it is new with them, and gets the same number. -/
theorem bare_declare? {name : Bytes} {type : CType} :
    s.bare.declare? name type = (s.declare? name type).map fun r => (r.1, r.2.bare) := by
  unfold declare? bare
  dsimp only
  split
  · rfl
  · split <;> rfl

end Scope

namespace Env

variable {env : Env} {name : Bytes}

/-- A global variable is found without positions. -/
theorem get?_globals_bare :
    env.bare.globals.get? name = (env.globals.get? name).map GlobalVar.bare :=
  Table.get?_map

/-- A function is found without positions. -/
theorem get?_signatures_bare :
    env.bare.signatures.get? name = (env.signatures.get? name).map Signature.bare :=
  Table.get?_map

/-- The same global variables are known. -/
theorem contains_globals_bare : env.bare.globals.contains name = env.globals.contains name :=
  Table.contains_map

/-- The same functions are known. -/
theorem contains_signatures_bare :
    env.bare.signatures.contains name = env.signatures.contains name :=
  Table.contains_map

/-- A function is declared without its position. -/
theorem bare_declare (s : Signature) : (env.declare s).bare = env.bare.declare s.bare := by
  unfold declare bare
  rw [Table.map_erase, Table.map_insert]
  rfl

/-- A global variable is declared without its position. -/
theorem bare_declareGlobal (g : GlobalVar) :
    (env.declareGlobal g).bare = env.bare.declareGlobal g.bare := by
  unfold declareGlobal bare
  rw [Table.map_erase, Table.map_insert]
  simp only [Table.contains_map, GlobalVar.bare]

/-- A function replaces the one of its name, with positions or without. -/
theorem bare_putFunction (f : Function) (fs : List Function) :
    (putFunction f fs).map Function.bare = putFunction f.bare (fs.map Function.bare) := by
  induction fs with
  | nil => rfl
  | cons g gs ih =>
    have hname : (g.bare.name == f.bare.name) = (g.name == f.name) := rfl
    simp only [putFunction, List.map_cons, hname]
    split
    · rfl
    · rw [List.map_cons, ih]

/-- A function is defined without positions, its file and its text. -/
theorem bare_define (f : Function) : (env.define f).bare = env.bare.define f.bare := by
  unfold define bare
  rw [bare_putFunction]

/-- Strings have no positions, so they get the same numbers. -/
theorem bare_intern (value : Bytes) :
    env.bare.intern value = ((env.intern value).1, (env.intern value).2.bare) := by
  unfold intern bare
  dsimp only
  split <;> rfl

end Env

end DirectC
