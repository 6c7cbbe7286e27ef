/-
# Nodes

The expressions and statements that a body is made of. Every node has a list of nodes right below
it; a node occurs in a body if it lies below one of its statements. The nodes of a typed body are
typed.
-/
import DirectC.Proofs.Typed
import Mathlib.Logic.Relation

namespace DirectC

/-- An expression or a statement. -/
inductive Node where
  | expr (e : Expr)
  | stmt (s : Stmt)

namespace Node

/-- The nodes right below a node. -/
def children : Node → List Node
  | .expr (.decay inner _) => [.expr inner]
  | .expr (.unary _ _ operand _) => [.expr operand]
  | .expr (.binary _ _ left right _) => [.expr left, .expr right]
  | .expr (.call _ _ args _) => args.map .expr
  | .expr _ => []
  | .stmt (.eval e) => [.expr e]
  | .stmt (.exit e _) => [.expr e]
  | .stmt (.ret value _) => value.toList.map .expr
  | .stmt (.ifThen cond yes) => [.expr cond, .stmt yes]
  | .stmt (.ifElse cond yes no) => [.expr cond, .stmt yes, .stmt no]
  | .stmt (.loop cond body) => [.expr cond, .stmt body]
  | .stmt (.block items) => items.map .stmt
  | .stmt .missing => []

/-- A node occurs in the statements of a body. -/
def Occurs (node : Node) (items : List Stmt) : Prop :=
  ∃ s ∈ items, Relation.ReflTransGen (fun a b => b ∈ a.children) (.stmt s) node

/-- A property of a node and of all nodes below it. -/
def All (P : Node → Prop) (node : Node) : Prop :=
  ∀ below, Relation.ReflTransGen (fun a b => b ∈ a.children) node below → P below

variable {P : Node → Prop} {node : Node} {items : List Stmt}

/-- What holds of a tree holds of its root and of the trees below. -/
theorem all_iff : node.All P ↔ P node ∧ ∀ child ∈ node.children, child.All P := by
  constructor
  · exact fun h => ⟨h node .refl, fun child hc below hb => h below (.head hc hb)⟩
  · rintro ⟨hn, hc⟩ below hb
    rcases Relation.ReflTransGen.cases_head hb with rfl | ⟨child, hm, hb⟩
    · exact hn
    · exact hc child hm below hb

/-- What holds of all trees holds of every node in them. -/
theorem All.of_occurs (h : ∀ s ∈ items, (Node.stmt s).All P) (ho : node.Occurs items) : P node := by
  obtain ⟨s, hs, hr⟩ := ho
  exact h s hs node hr

/-! ## Typed nodes -/

/-- The typing rules. -/
def Typed (B : Int) (n : Nat) : Node → Prop
  | .expr e => DirectC.Typed B n e
  | .stmt s => TypedStmt B n s

variable {B : Int} {n : Nat} {child : Node}

/-- The rules type the nodes below a node. -/
theorem Typed.of_mem_children (h : node.Typed B n) (hc : child ∈ node.children) :
    child.Typed B n := by
  cases node with
  | expr e =>
    cases h with
    | num | ident | str => cases hc
    | decay h | deref h | addr h =>
      rw [List.mem_singleton.mp hc]
      exact h
    | integers _ hl hr | offset _ hl hr | difference hl hr | comparison _ hl hr
    | logical _ hl hr | assign _ hl hr =>
      simp only [children, List.mem_cons, List.not_mem_nil, or_false] at hc
      rcases hc with rfl | rfl
      · exact hl
      · exact hr
    | call ha =>
      obtain ⟨a, hm, rfl⟩ := List.mem_map.mp hc
      exact ha a hm
  | stmt s =>
    cases h with
    | retNone => cases hc
    | eval h | exit h | retSome h =>
      rw [List.mem_singleton.mp hc]
      exact h
    | ifThen h _ hy | loop h _ hy =>
      simp only [children, List.mem_cons, List.not_mem_nil, or_false] at hc
      rcases hc with rfl | rfl
      · exact h
      · exact hy
    | ifElse h _ hy hn =>
      simp only [children, List.mem_cons, List.not_mem_nil, or_false] at hc
      rcases hc with rfl | rfl | rfl
      · exact h
      · exact hy
      · exact hn
    | block h =>
      obtain ⟨s, hm, rfl⟩ := List.mem_map.mp hc
      exact h s hm

/-- Every node in a typed tree is typed. -/
theorem Typed.of_occurs (h : ∀ s ∈ items, TypedStmt B n s) (ho : node.Occurs items) :
    node.Typed B n := by
  obtain ⟨s, hs, hr⟩ := ho
  induction hr with
  | refl => exact h s hs
  | tail _ hc ih => exact ih.of_mem_children hc

end Node

end DirectC
