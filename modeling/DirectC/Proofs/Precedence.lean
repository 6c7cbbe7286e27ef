/-
# The table of precedences

Between the operands of an expression stand operators, and a table says how tightly each of them
binds. A sequence of operands and operators can be grouped in many ways, but only one of them goes
by the table: an operator has operators in its left operand that bind at least as tightly, and
operators in its right operand that bind more tightly (`Grouping.Ordered`). This grouping can be
found by taking one operator after the other into it (`Grouping.push`), which shows that there is
one and that there is no other (`Grouping.ofLinks_unique`).

The readers of the six levels take turns at the operators instead. Each level reads a sequence as
far as its own operators and tighter ones go, and hands the rest to the level above. All of them
together find the grouping by the table (`cascade_precedence`).
-/
import DirectC.Proofs.Grammar.Keeping
import DirectC.Proofs.RoundTrip

namespace DirectC

namespace Grammar

/-! ## The table -/

/-- The operators between two values. -/
inductive Operator where
  | or | and
  | eq | ne
  | lt | le | gt | ge
  | plus | minus
  | star | slash | percent
  deriving DecidableEq, Repr

namespace Operator

/-- How an operator is written. -/
def punct : Operator → Punct
  | or => .or
  | and => .and
  | eq => .eq
  | ne => .ne
  | lt => .lt
  | le => .le
  | gt => .gt
  | ge => .ge
  | plus => .plus
  | minus => .minus
  | star => .star
  | slash => .slash
  | percent => .percent

/-- **How tightly an operator binds.** -/
def precedence : Operator → Nat
  | or => 0
  | and => 1
  | eq | ne => 2
  | lt | le | gt | ge => 3
  | plus | minus => 4
  | star | slash | percent => 5

/-- The operation that an operator stands for: what is greater has the other below it. -/
def operation : Operator → BinaryOp
  | or => .or
  | and => .and
  | eq => .eq
  | ne => .ne
  | lt | gt => .lt
  | le | ge => .le
  | plus => .add
  | minus => .sub
  | star => .mul
  | slash => .div
  | percent => .rem

/-- Operators whose operands change places. -/
def swapped : Operator → Bool
  | gt | ge => true
  | _ => false

/-- The value of an operator and its operands. -/
def node (op : Operator) (pos : Int) (left right : Expr) : Expr :=
  if op.swapped then .binary op.operation pos right left .int
  else .binary op.operation pos left right .int

/-- All operators, the loosest first. -/
def all : List Operator :=
  [or, and, eq, ne, lt, le, gt, ge, plus, minus, star, slash, percent]

/-- The operator as it stands on the ladder of readers. -/
def entry (op : Operator) : LevelOp :=
  ⟨op.punct, op.operation, op.swapped⟩

/-- **The ladder follows the table**: its levels hold the operators by their precedence. -/
theorem levels_eq :
    levels = (List.range 6).map fun k => (all.filter (·.precedence == k)).map entry := by
  decide

/-- Every operator of a level has its precedence. -/
theorem mem_level {k : Nat} {level : List LevelOp} (h : levels[k]? = some level) {o : LevelOp}
    (ho : o ∈ level) : ∃ op : Operator, op.precedence = k ∧ o = op.entry := by
  rw [levels_eq, List.getElem?_map] at h
  obtain ⟨j, hj, rfl⟩ := Option.map_eq_some_iff.mp h
  obtain ⟨hk, rfl⟩ := List.getElem?_eq_some_iff.mp hj
  obtain ⟨op, hop, rfl⟩ := List.mem_map.mp ho
  exact ⟨op, by simpa using (List.mem_filter.mp hop).2, rfl⟩

/-- There are six levels. -/
theorem precedence_lt (op : Operator) : op.precedence < 6 := by
  cases op <;> decide

/-- Operators are told apart by how they are written. -/
theorem punct_injective {op op' : Operator} (h : op.punct = op'.punct) : op = op' := by
  revert h
  cases op <;> cases op' <;> simp [punct]

/-- An operator stands on the level of its precedence. -/
theorem findOp_level (op : Operator) {level : List LevelOp}
    (h : levels[op.precedence]? = some level) : findOp level (.punct op.punct) = some op.entry := by
  cases op <;> (cases h; rfl)

/-- What is no operator of a level is not found there. -/
theorem findOp_eq_none {k : Nat} {level : List LevelOp} (h : levels[k]? = some level)
    {kind : Token.Kind} (hne : ∀ op : Operator, op.precedence = k → kind ≠ .punct op.punct) :
    findOp level kind = none := by
  refine List.find?_eq_none.mpr fun o ho => ?_
  obtain ⟨op, hop, rfl⟩ := mem_level h ho
  rw [beq_iff_eq]
  exact hne op hop

/-- An operator stands on no other level. -/
theorem findOp_of_ne (op : Operator) {k : Nat} {level : List LevelOp} (h : levels[k]? = some level)
    (hne : op.precedence ≠ k) : findOp level (.punct op.punct) = none := by
  refine findOp_eq_none h fun op' hop' hpunct => hne ?_
  rw [punct_injective (Token.Kind.punct.inj hpunct), hop']

end Operator

/-! ## Groupings -/

/-- An operator at a position, and the operand behind it. -/
structure Link where
  op : Operator
  pos : Int
  operand : Expr

/-- Operands and operators, grouped. -/
inductive Grouping where
  | operand (e : Expr)
  | node (op : Operator) (pos : Int) (left right : Grouping)

namespace Grouping

/-- The operand that comes first. -/
def first : Grouping → Expr
  | operand e => e
  | node _ _ left _ => left.first

/-- The operators and the operands behind them, from left to right. -/
def links : Grouping → List Link
  | operand _ => []
  | node op pos left right => left.links ++ ⟨op, pos, right.first⟩ :: right.links

/-- The expression that a grouping stands for. -/
def expr : Grouping → Expr
  | operand e => e
  | node op pos left right => op.node pos left.expr right.expr

/-- The outermost operator, if there is one, binds as tightly as `k` at least. -/
def AtLeast (k : Nat) : Grouping → Prop
  | operand _ => True
  | node op _ _ _ => k ≤ op.precedence

/-- **Grouped by the table**: an operator is applied behind the tighter ones, and operators of one
level from left to right. -/
inductive Ordered : Grouping → Prop where
  | operand {e : Expr} : Ordered (operand e)
  | node {op : Operator} {pos : Int} {left right : Grouping} (hleft : left.Ordered)
    (hright : right.Ordered) (hl : left.AtLeast op.precedence)
    (hr : right.AtLeast (op.precedence + 1)) : Ordered (node op pos left right)

/-- One more operator with its operand: it takes the last operand from all operators that bind
more loosely. -/
def push (l : Link) : Grouping → Grouping
  | operand e => node l.op l.pos (operand e) (operand l.operand)
  | node op pos left right =>
    if op.precedence < l.op.precedence then node op pos left (right.push l)
    else node l.op l.pos (node op pos left right) (operand l.operand)

/-- The grouping of a sequence by the table. -/
def ofLinks (first : Expr) (links : List Link) : Grouping :=
  links.foldl (fun g l => g.push l) (operand first)

variable {g left right : Grouping} {l : Link} {ls : List Link} {k : Nat}

/-- What binds tightly binds at least as tightly as less. -/
theorem AtLeast.mono {j : Nat} (h : g.AtLeast k) (hj : j ≤ k) : g.AtLeast j := by
  cases g with
  | operand e => trivial
  | node op pos left right => exact Nat.le_trans hj h

/-- One more operator at the end leaves the first operand alone. -/
theorem first_push (l : Link) (g : Grouping) : (g.push l).first = g.first := by
  induction g with
  | operand e => rfl
  | node op pos left right _ _ =>
    rw [push]
    split <;> rfl

/-- One more operator at the end adds the last link. -/
theorem links_push (l : Link) (g : Grouping) : (g.push l).links = g.links ++ [l] := by
  induction g with
  | operand e => rfl
  | node op pos left right _ ihr =>
    rw [push]
    split
    · rw [links, ihr, first_push, links, List.append_assoc, List.cons_append]
    · rfl

/-- If it binds tightly enough, so does the whole. -/
theorem AtLeast.push (h : g.AtLeast k) (hl : k ≤ l.op.precedence) : (g.push l).AtLeast k := by
  cases g with
  | operand e => exact hl
  | node op pos left right =>
    rw [Grouping.push]
    split
    · exact h
    · exact hl

/-- **A grouping stays ordered**: a new operator goes below all that bind more loosely, and above
the others. -/
theorem Ordered.push (h : g.Ordered) (l : Link) : (g.push l).Ordered := by
  induction h with
  | operand => exact .node .operand .operand trivial trivial
  | node hleft hright hl hr _ ihr =>
    rw [Grouping.push]
    split
    · rename_i hlt
      exact .node hleft ihr hl (hr.push hlt)
    · rename_i hge
      exact .node (.node hleft hright hl hr) .operand (Nat.le_of_not_lt hge) trivial

/-- Links that are pushed one after the other come behind those that are there. -/
theorem foldl_push (ls : List Link) (h : g.Ordered) :
    (ls.foldl (fun g l => g.push l) g).Ordered ∧
      (ls.foldl (fun g l => g.push l) g).first = g.first ∧
      (ls.foldl (fun g l => g.push l) g).links = g.links ++ ls := by
  induction ls generalizing g with
  | nil => exact ⟨h, rfl, (List.append_nil _).symm⟩
  | cons l ls ih =>
    obtain ⟨hordered, hfirst, hlinks⟩ := ih (h.push l)
    refine ⟨hordered, hfirst.trans (first_push l g), ?_⟩
    rw [List.foldl_cons, hlinks, links_push, List.append_assoc]
    rfl

/-- Behind an ordered grouping that binds tightly enough, an operator takes all of it. -/
theorem push_of_atLeast (h : g.AtLeast l.op.precedence) :
    g.push l = node l.op l.pos g (operand l.operand) := by
  cases g with
  | operand e => rfl
  | node op pos left right => rw [push, if_neg (Nat.not_lt.mpr h)]

/-- Tighter operators go into the right operand. -/
theorem foldl_push_node {op : Operator} {pos : Int}
    (h : ∀ l ∈ ls, op.precedence < l.op.precedence) :
    ls.foldl (fun g l => g.push l) (node op pos left right) =
      node op pos left (ls.foldl (fun g l => g.push l) right) := by
  induction ls generalizing right with
  | nil => rfl
  | cons l ls ih =>
    obtain ⟨hl, hls⟩ := List.forall_mem_cons.mp h
    rw [List.foldl_cons, push, if_pos hl, ih hls, List.foldl_cons]

/-- No operator of an ordered grouping binds less tightly than its top. -/
theorem Ordered.precedence_le (h : g.Ordered) (hk : g.AtLeast k) :
    ∀ l ∈ g.links, k ≤ l.op.precedence := by
  induction h generalizing k with
  | operand => simp [links]
  | @node op pos left right hleft hright hl hr ihl ihr =>
    have hk : k ≤ op.precedence := hk
    refine List.forall_mem_append.mpr ⟨ihl (hl.mono hk), List.forall_mem_cons.mpr ⟨hk, ?_⟩⟩
    exact ihr (hr.mono (by omega))

/-- **There is one grouping by the table**: it is found by pushing. -/
theorem Ordered.eq_ofLinks (h : g.Ordered) : g = ofLinks g.first g.links := by
  unfold ofLinks
  induction h with
  | operand => rfl
  | @node op pos left right hleft hright hl hr ihl ihr =>
    have htighter : ∀ l ∈ right.links, op.precedence < l.op.precedence :=
      hright.precedence_le hr
    rw [first, links, List.foldl_append, ← ihl, List.foldl_cons,
      push_of_atLeast (l := ⟨op, pos, right.first⟩) hl, foldl_push_node htighter, ← ihr]

/-- There is an ordered grouping for every sequence. -/
theorem ofLinks_ordered (first : Expr) (links : List Link) :
    (ofLinks first links).Ordered ∧ (ofLinks first links).first = first ∧
      (ofLinks first links).links = links :=
  foldl_push links .operand

/-- **There is only one**: precedence and order decide how a sequence is grouped. -/
theorem ofLinks_unique (first : Expr) (links : List Link) :
    ∃! g : Grouping, g.Ordered ∧ g.first = first ∧ g.links = links := by
  refine ⟨ofLinks first links, ofLinks_ordered first links, ?_⟩
  rintro g ⟨hg, rfl, rfl⟩
  exact hg.eq_ofLinks

end Grouping

/-! ## Sequences -/

/-- Operators with operands behind them, from one state to another. What an operand is, is left
open: `R` relates the state in front of it and the state behind it. -/
inductive Links (R : Reading → Expr → Reading → Prop) : Reading → List Link → Reading → Prop where
  | nil {s : Reading} : Links R s [] s
  | cons {s t u : Reading} {op : Operator} {e : Expr} {links : List Link}
    (hop : s.current.kind = .punct op.punct) (he : R s.rest e t) (h : Links R t links u) :
    Links R s (⟨op, s.current.pos, e⟩ :: links) u

/-- An operand of integer type that a reader reads. -/
def ReadsInteger (operand : Read Expr) (s : Reading) (e : Expr) (t : Reading) : Prop :=
  operand s = .ok e t ∧ e.type.isInteger

variable {operand : Read Expr} {s t u v : Reading} {e first : Expr} {links rest : List Link}
  {g : Grouping} {n k : Nat}

/-- Operators on integers give integers. -/
theorem Operator.integer_node (op : Operator) (pos : Int) (left right : Expr) :
    (op.node pos left right).type.isInteger := by
  unfold Operator.node
  split <;> rfl

theorem Operator.operation_mem (op : Operator) : op.operation ∈ Expr.operations := by
  cases op <;> decide

/-- An operator joins two integers to its node. -/
theorem join_operator {op : Operator} {pos : Int} {left right : Expr} (hl : left.type.isInteger)
    (hr : right.type.isInteger) :
    join op.entry pos left right s = .ok (op.node pos left right) s :=
  join_integer op.operation_mem hl hr

/-- **How far levels have read**: they have grouped links by the table, with operators that bind as
tightly as `low` at least, and those that are left begin with an operator that binds more loosely
than `high`, if any are left. -/
structure Grouped (operand : Read Expr) (low high : Nat) (links : List Link) (u : Reading)
    (g : Grouping) (rest : List Link) (v : Reading) : Prop where
  ordered : g.Ordered
  atLeast : g.AtLeast low
  integer : g.expr.type.isInteger
  links : g.links ++ rest = links
  ahead : Links (ReadsInteger operand) v rest u
  looser : ∀ l ∈ rest.head?, l.op.precedence < high

/-- A reader groups every sequence up to `u`, as far as its operators go. -/
def Groups (operand x : Read Expr) (n k : Nat) (u : Reading) : Prop :=
  ∀ ⦃s t first links⦄, ReadsInteger operand s first t → Links (ReadsInteger operand) t links u →
    links.length < n → ∃ g rest v, x s = .ok g.expr v ∧ g.first = first ∧
      Grouped operand k k links u g rest v

/-- One more operator of a level and its right operand. -/
theorem Grouped.node {op : Operator} {more : List Link} {right : Grouping} {pos : Int}
    (h : Grouped operand op.precedence (op.precedence + 1) links u g
      (⟨op, pos, right.first⟩ :: more) t)
    (hr : Grouped operand (op.precedence + 1) (op.precedence + 1) more u right rest v) :
    Grouped operand op.precedence (op.precedence + 1) links u (.node op pos g right) rest v where
  ordered := .node h.ordered hr.ordered h.atLeast hr.atLeast
  atLeast := Nat.le_refl _
  integer := op.integer_node pos g.expr right.expr
  links := by rw [← h.links, ← hr.links, Grouping.links, List.append_assoc, List.cons_append]
  ahead := hr.ahead
  looser := hr.looser

/-- A level goes on with its own operators, if the tighter levels group their right operands. -/
theorem chain_grouped {x : Read Expr} {level : List LevelOp} {fuel : Nat}
    (hlevel : levels[k]? = some level) (hx : Groups operand x n (k + 1) u)
    (hend : ∀ op : Operator, u.current.kind ≠ .punct op.punct)
    (h : Grouped operand k (k + 1) links u g rest v) (hfuel : rest.length < fuel)
    (hn : rest.length ≤ n) :
    ∃ g' rest' v', chain x level fuel g.expr v = .ok g'.expr v' ∧ g'.first = g.first ∧
      Grouped operand k k links u g' rest' v' := by
  induction fuel generalizing g rest v with
  | zero => omega
  | succ fuel ih =>
    cases h.ahead with
    | nil =>
      have hnone := Operator.findOp_eq_none hlevel fun op _ => hend op
      exact ⟨g, [], _, chain_none hnone, rfl, { h with looser := by simp }⟩
    | @cons _ t _ op e more hop he htail =>
      have hle : op.precedence < k + 1 := h.looser _ rfl
      by_cases hk : op.precedence = k
      · -- The operator is one of this level: the tighter levels read its right operand.
        subst hk
        rw [List.length_cons] at hfuel hn
        obtain ⟨right, rest', v', hright, rfl, hgrouped⟩ := hx he htail hn
        have hjoin := @join_operator v' op v.current.pos g.expr right.expr h.integer
          hgrouped.integer
        have hlength : rest'.length ≤ more.length := by
          rw [← hgrouped.links, List.length_append]
          omega
        rw [chain_some (by rw [hop]; exact op.findOp_level hlevel) hright hjoin]
        exact ih (h.node hgrouped) (by omega) (by omega)
      · -- A looser operator is left to the levels around this one.
        have hnone : findOp level v.current.kind = none := by
          rw [hop]
          exact op.findOp_of_ne hlevel hk
        refine ⟨g, _, v, chain_none hnone, rfl, { h with looser := ?_ }⟩
        intro l hl
        cases hl
        dsimp only
        omega

/-- The levels from `k` on group sequences, by induction from the tightest level to the loosest. -/
theorem cascade_groups {tiers : List (List LevelOp)} (htiers : levels.drop k = tiers)
    (hend : ∀ op : Operator, u.current.kind ≠ .punct op.punct) :
    Groups operand (cascade operand n tiers) n k u := by
  -- By induction on the tighter levels: each hands on what it could not group.
  induction tiers generalizing k with
  | nil =>
    intro s t first links hfirst hlinks _
    refine ⟨.operand first, links, t, hfirst.1, rfl, .operand, trivial, hfirst.2, rfl, hlinks, ?_⟩
    intro l _
    have hk : 6 ≤ k := List.drop_eq_nil_iff.mp htiers
    exact Nat.lt_of_lt_of_le l.op.precedence_lt hk
  | cons level tighter ih =>
    intro s t first links hfirst hlinks hn
    have hlevel : levels[k]? = some level := by
      rw [← List.head?_drop, htiers]
      rfl
    have htighter : levels.drop (k + 1) = tighter := by
      rw [← List.tail_drop, htiers]
      rfl
    obtain ⟨g, rest, v, hg, rfl, hgrouped⟩ := ih htighter hfirst hlinks hn
    have hlength : rest.length ≤ links.length := by
      rw [← hgrouped.links, List.length_append]
      omega
    have hlow : Grouped operand k (k + 1) links u g rest v :=
      { hgrouped with atLeast := hgrouped.atLeast.mono (Nat.le_succ k) }
    rw [cascade, run_bind_of_ok hg]
    exact chain_grouped hlevel (ih htighter) hend hlow (by omega) (by omega)

/-- All levels together group the whole sequence. -/
theorem cascade_ofLinks (hfirst : ReadsInteger operand s first t)
    (hlinks : Links (ReadsInteger operand) t links u)
    (hend : ∀ op : Operator, u.current.kind ≠ .punct op.punct) (hn : links.length < n) :
    cascade operand n levels s = .ok (Grouping.ofLinks first links).expr u ∧
      (Grouping.ofLinks first links).expr.type.isInteger := by
  obtain ⟨g, rest, v, hg, rfl, hgrouped⟩ :=
    cascade_groups (k := 0) (n := n) rfl hend hfirst hlinks hn
  cases hgrouped.ahead with
  | nil =>
    rw [← hgrouped.links, List.append_nil, ← hgrouped.ordered.eq_ofLinks]
    exact ⟨hg, hgrouped.integer⟩
  | cons => exact absurd (hgrouped.looser _ rfl) (Nat.not_lt_zero _)

/-! ## Operands -/

/-- A bound that lasts does as well as any other. -/
theorem assignment_of_bound {m : Nat} (hs : s.Ended) (hn : 2 * s.left + 2 < n)
    (h : assignment m s = .ok e t) : assignment n s = .ok e t := by
  have hlarge : assignment (max m n) s = .ok e t :=
    (assignment_deepens hs (Nat.le_max_left m n)).ok e t h
  have hdeepens := assignment_deepens hs (Nat.le_max_right m n)
  cases hr : assignment n s with
  | ok e' t' => exact (hdeepens.ok e' t' hr).symm.trans hlarge
  | error c t' =>
    have hlasts := assignment_lasts hn s hs (Nat.le_refl _) c t' hr
    exact absurd ((hdeepens.error c t' hr hlasts).symm.trans hlarge) error_ne_ok

/-- **The operands of a sequence**: an integer literal, a name that stands for an integer variable
and is not called, or an expression of integer type in parentheses, whatever it is. -/
inductive Atom : Reading → Expr → Reading → Prop where
  | literal {s : Reading} (hk : s.current.kind = .number)
    (hv : Bytes.toNat s.current.literal < 0x80000000) :
    Atom s (.int (Int32.ofNat (Bytes.toNat s.current.literal)) s.current.pos) s.rest
  | name {s : Reading} {storage : Storage} {type : CType} (hk : s.current.kind = .identifier)
    (hnext : s.rest.current.kind ≠ .punct .leftParen)
    (hfinds : s.Finds s.current.literal storage type) (htype : type.isInteger) :
    Atom s (.ident s.current.literal s.current.pos storage type) s.rest
  | parens {s t : Reading} {e : Expr} {m : Nat} (hopen : s.current.kind = .punct .leftParen)
    (he : assignment m s.rest = .ok e t) (hclose : t.current.kind = .punct .rightParen)
    (htype : e.type.isInteger) : Atom s e t.rest

/-- The token behind the next one is the next one after going on. -/
theorem Reading.headD_ahead (s : Reading) : s.ahead.headD s.current = s.rest.current := by
  unfold Reading.rest
  cases s.ahead <;> rfl

/-- What is found is found after going on. -/
theorem Reading.Finds.behind {name : Bytes} {storage : Storage} {type : CType}
    (h : s.Finds name storage type) : s.rest.Finds name storage type := by
  cases h with
  | stack hv => exact .stack (by rwa [rest_scope])
  | static hfree hg => exact .static (by rwa [rest_scope]) (by rwa [rest_env])

/-- Every operand is read as such, if nothing follows that goes on with it. -/
theorem Atom.reads (h : Atom s e t) (hs : s.Ended) (hn : 2 * s.left + 1 < n)
    (hend : isPostfix t.current.kind = false) : ReadsInteger (unary n) s e t := by
  obtain ⟨n, rfl⟩ : ∃ k, n = k + 2 := ⟨n - 2, by omega⟩
  cases h with
  | literal hk hv => exact ⟨unary_operand (by rw [hk]; rfl) (primary_number hk hv) hend, rfl⟩
  | name hk hnext hfinds htype =>
    refine ⟨unary_operand (by rw [hk]; rfl) ?_ hend, htype⟩
    rw [primary_name hk (by rwa [Reading.headD_ahead])]
    exact resolve_finds hfinds.behind
  | parens hopen he hclose htype =>
    have hlt := Reading.left_rest hs (ne_of_eq_of_ne hopen (by simp))
    have he := assignment_of_bound (n := n + 1) (Reading.rest_ended hs) (by omega) he
    exact ⟨unary_paren hopen he hclose hend, htype⟩

/-- No binary operator is a postfix operator. -/
theorem Operator.isPostfix_punct (op : Operator) : isPostfix (.punct op.punct) = false := by
  cases op <;> rfl

/-- No operand of a sequence is gone on with. -/
theorem Links.not_continued {R : Reading → Expr → Reading → Prop} (h : Links R s links u)
    (hu : isPostfix u.current.kind = false) : isPostfix s.current.kind = false := by
  cases h with
  | nil => exact hu
  | @cons _ _ _ op _ _ hop =>
    rw [hop]
    exact op.isPostfix_punct

/-- An atom has tokens. -/
theorem Atom.left_le (h : Atom s e t) (hs : s.Ended) (hend : isPostfix t.current.kind = false) :
    t.Ended ∧ t.left ≤ s.left := by
  have hread := h.reads hs (Nat.lt_succ_self _) hend
  have htrail : s.Trail .file t := unary_keeps.trail hread.1
  exact ⟨htrail.ended hs, htrail.left_le⟩

/-- The operands of a sequence are read, and each operator in it takes a token. -/
theorem Links.reads (h : Links Atom s links u) (hs : s.Ended) (hn : 2 * s.left + 1 < n)
    (hu : isPostfix u.current.kind = false) :
    Links (ReadsInteger (unary n)) s links u ∧ links.length ≤ s.left := by
  induction h with
  | nil => exact ⟨.nil, Nat.zero_le _⟩
  | @cons s t u op e links hop he htail ih =>
    have hlt := Reading.left_rest hs (ne_of_eq_of_ne hop (by simp))
    have hrest := Reading.rest_ended hs
    have hcont := htail.not_continued hu
    obtain ⟨ht, hle⟩ := he.left_le hrest hcont
    obtain ⟨htail, hlength⟩ := ih ht (by omega) hu
    refine ⟨.cons hop (he.reads hrest (by omega) hcont) htail, ?_⟩
    rw [List.length_cons]
    omega

/-- A sequence is read as a whole, with a bound that lasts. -/
theorem cascade_sequence (hs : s.Ended) (hfirst : Atom s first t) (hlinks : Links Atom t links u)
    (hend : ∀ op : Operator, u.current.kind ≠ .punct op.punct)
    (hu : isPostfix u.current.kind = false) (hn : 2 * s.left + 1 < n) :
    cascade (unary n) n levels s = .ok (Grouping.ofLinks first links).expr u ∧
      (Grouping.ofLinks first links).expr.type.isInteger := by
  have hcont := hlinks.not_continued hu
  obtain ⟨ht, hle⟩ := hfirst.left_le hs hcont
  obtain ⟨hreads, hlength⟩ := hlinks.reads (n := n) ht (by omega) hu
  exact cascade_ofLinks (hfirst.reads hs hn hcont) hreads hend (by omega)

/-- A sequence in parentheses is an operand, which is grouped by the table in its turn. -/
theorem Atom.group (hs : s.Ended) (hopen : s.current.kind = .punct .leftParen)
    (hfirst : Atom s.rest first t) (hlinks : Links Atom t links u)
    (hclose : u.current.kind = .punct .rightParen) :
    Atom s (Grouping.ofLinks first links).expr u.rest := by
  have hend (op : Operator) : u.current.kind ≠ .punct op.punct := by
    rw [hclose]
    cases op <;> simp [Operator.punct]
  obtain ⟨hread, hinteger⟩ := cascade_sequence (Reading.rest_ended hs) hfirst hlinks hend
    (by rw [hclose]; rfl) (Nat.lt_succ_self _)
  exact .parens hopen (assignment_value hread (by rw [hclose]; rfl)) hclose hinteger

/-- **The levels implement the table.** Take any sequence of integer operands with operators between
them, with no operator behind it, neither between values nor behind one. There is one way to group
it by the table; and with a bound that lasts, the reader of all levels takes the whole sequence and
returns the expression that this grouping stands for. -/
theorem cascade_precedence (hs : s.Ended) (hfirst : Atom s first t) (hlinks : Links Atom t links u)
    (hend : ∀ op : Operator, u.current.kind ≠ .punct op.punct)
    (hu : isPostfix u.current.kind = false) (hn : 2 * s.left + 1 < n) :
    (∃! g : Grouping, g.Ordered ∧ g.first = first ∧ g.links = links) ∧
      ∀ g : Grouping, g.Ordered → g.first = first → g.links = links →
        cascade (unary n) n levels s = .ok g.expr u := by
  refine ⟨Grouping.ofLinks_unique first links, ?_⟩
  rintro g hg rfl rfl
  rw [hg.eq_ofLinks]
  exact (cascade_sequence hs hfirst hlinks hend hu hn).1

/-- The tokens of `x-g-(g>1||3)*2>=4;` where `x` and `g` are variables. -/
def medley : Reading where
  current := ⟨.identifier, [120], 0, 1, 1⟩
  ahead := [⟨.punct .minus, [45], 1, 1, 2⟩, ⟨.identifier, [103], 2, 1, 3⟩,
    ⟨.punct .minus, [45], 3, 1, 4⟩, ⟨.punct .leftParen, [40], 4, 1, 5⟩,
    ⟨.identifier, [103], 5, 1, 6⟩, ⟨.punct .gt, [62], 6, 1, 7⟩, ⟨.number, [49], 7, 1, 8⟩,
    ⟨.punct .or, [124, 124], 8, 1, 9⟩, ⟨.number, [51], 10, 1, 11⟩,
    ⟨.punct .rightParen, [41], 11, 1, 12⟩, ⟨.punct .star, [42], 12, 1, 13⟩,
    ⟨.number, [50], 13, 1, 14⟩, ⟨.punct .ge, [62, 61], 14, 1, 15⟩,
    ⟨.number, [52], 16, 1, 17⟩, ⟨.punct .semicolon, [59], 17, 1, 18⟩,
    ⟨.endOfFile, [], 18, 1, 19⟩]
  env := known
  scope := inside

/-- Two differences, a product behind them, a comparison the other way round, and a sequence in
parentheses. -/
theorem cascade_precedence_medley :
    medley.text = Token.scan "x-g-(g>1||3)*2>=4;" ∧
      ∃ u, u.current.kind = .punct .semicolon ∧
        cascade (unary medley.budget) medley.budget levels medley =
          .ok (.binary .le 14 (.int 4 16)
            (.binary .sub 3
              (.binary .sub 1 (.ident [120] 0 (.stack 0) .int) (.ident [103] 2 .static .char) .int)
              (.binary .mul 12
                (.binary .or 8 (.binary .lt 6 (.int 1 7) (.ident [103] 5 .static .char) .int)
                  (.int 3 10) .int)
                (.int 2 13) .int) .int) .int) u := by
  have hx : medley.Finds [120] (.stack 0) .int := .stack (v := ⟨0, .int⟩) (by decide +kernel)
  have hg : medley.Finds [103] .static .char :=
    .static (g := ⟨[103], .char, 5⟩) (by decide +kernel) (by decide +kernel)
  have hfirst : Atom medley (.ident [120] 0 (.stack 0) .int) medley.rest :=
    .name rfl (by simp [medley, Reading.rest]) hx rfl
  have hsecond : Atom medley.rest.rest (.ident [103] 2 .static .char) medley.rest.rest.rest :=
    .name rfl (by simp [medley, Reading.rest]) hg.behind.behind rfl
  have hinner : Atom medley.rest.rest.rest.rest.rest (.ident [103] 5 .static .char)
      medley.rest.rest.rest.rest.rest.rest :=
    .name rfl (by simp [medley, Reading.rest]) hg.behind.behind.behind.behind.behind rfl
  have hparens : Atom medley.rest.rest.rest.rest _ _ :=
    .group rfl rfl hinner
      (@Links.cons _ _ _ _ .gt _ _ rfl (.literal rfl (by decide))
        (@Links.cons _ _ _ _ .or _ _ rfl (.literal rfl (by decide)) .nil)) rfl
  have hlinks : Links Atom medley.rest _ _ :=
    @Links.cons _ _ _ _ .minus _ _ rfl hsecond
      (@Links.cons _ _ _ _ .minus _ _ rfl hparens
        (@Links.cons _ _ _ _ .star _ _ rfl (.literal rfl (by decide))
          (@Links.cons _ _ _ _ .ge _ _ rfl (.literal rfl (by decide)) .nil)))
  have hended : medley.Ended := rfl
  have hend (op : Operator) : Token.Kind.punct .semicolon ≠ .punct op.punct := by
    cases op <;> simp [Operator.punct]
  obtain ⟨hordered, hfirst', hlinks'⟩ := Grouping.ofLinks_ordered _ _
  exact ⟨by decide +kernel, _, rfl,
    (cascade_precedence hended hfirst hlinks hend rfl (by decide)).2 _ hordered hfirst' hlinks'⟩

end Grammar

end DirectC
