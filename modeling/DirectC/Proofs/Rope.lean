/-
# Laws of ropes

All that can be seen of a rope are its runs from left to right, `Rope.runs`: a traversal with a
stack meets the runs of the trees on the stack in this order (`gather_eq`, `walk_eq`). The number
that a rope keeps is that of their bytes, as a word (`size_eq`); so a rope of fewer than 2^64 bytes
that keeps a zero is empty, and leaving it out of a join changes nothing (`runs_join`). Below 2^63
bytes, building ropes is building lists of runs, and a rope behaves as the byte string that was put
in (`rope_as_bytes`). A rope of 2^64 bytes passes for an empty one (`rope_as_bytes_doubled`).
-/
import DirectC.Rope
import Mathlib.Algebra.Group.Nat.Defs
import Mathlib.Algebra.GroupWithZero.Nat

namespace DirectC

namespace Rope

/-! ## Runs -/

/-- The runs of a tree from left to right, without empty ones. -/
def Tree.runs : Tree → List Bytes
  | .leaf bytes => if bytes.isEmpty then [] else [bytes]
  | .node _ left right => left.runs ++ right.runs

/-- The runs of a rope from left to right. -/
def runs (r : Rope) : List Bytes :=
  r.tree.runs

/-- A leaf has its bytes as its only run, or none. -/
theorem Tree.flatten_runs_leaf (bytes : Bytes) : (Tree.leaf bytes).runs.flatten = bytes := by
  cases bytes <;> simp [Tree.runs]

/-- No run is empty. -/
theorem Tree.ne_nil_of_mem_runs {t : Tree} {run : Bytes} (h : run ∈ t.runs) : run ≠ [] := by
  induction t with
  | leaf bytes =>
    cases bytes with
    | nil => cases h
    | cons b bs =>
      rw [List.mem_singleton.mp h]
      exact List.cons_ne_nil b bs
  | node size left right ihl ihr => exact (List.mem_append.mp h).elim ihl ihr

/-- The number that a tree keeps is that of its bytes, as a word. -/
theorem Tree.Sized.size_eq {t : Tree} (h : t.Sized) :
    t.size = Int64.ofNat t.runs.flatten.length := by
  induction t with
  | leaf bytes => rw [flatten_runs_leaf, Tree.size]
  | node size left right ihl ihr =>
    obtain ⟨hsize, hl, hr⟩ := h
    rw [Tree.size, hsize, ihl hl, ihr hr, Tree.runs, List.flatten_append, List.length_append,
      Int64.ofNat_add]

/-- What a stack of trees gathers: the bytes of their runs, the top one first. -/
theorem gather_eq (stack : List Tree) (out : Bytes) :
    gather stack out = (stack.flatMap Tree.runs).flatten.reverse ++ out := by
  fun_induction gather stack out with
  | case1 out => rfl
  | case2 bytes stack out ih =>
    rw [ih, List.flatMap_cons, List.flatten_append, Tree.flatten_runs_leaf, List.reverse_append,
      List.reverseAux_eq, List.append_assoc]
  | case3 size left right stack out ih =>
    rw [ih, List.flatMap_cons, List.flatMap_cons, List.flatMap_cons, Tree.runs, List.append_assoc]

/-- The bytes of a rope are those of its runs. -/
theorem toBytes_eq (r : Rope) : r.toBytes = r.runs.flatten := by
  rw [toBytes, gather_eq, List.append_nil, List.reverse_reverse, List.flatMap_singleton, runs]

/-- A rope keeps the number of its bytes, as a word. -/
theorem size_eq (r : Rope) : r.size = Int64.ofNat r.length := by
  rw [length, toBytes_eq]
  exact r.sized.size_eq

/-- Only the rope without runs is empty. -/
theorem length_eq_zero {r : Rope} : r.length = 0 ↔ r.runs = [] := by
  rw [length, List.length_eq_zero_iff, toBytes_eq, List.flatten_eq_nil_iff]
  constructor
  · intro h
    refine List.eq_nil_iff_forall_not_mem.mpr fun run hrun => ?_
    exact Tree.ne_nil_of_mem_runs hrun (h run hrun)
  · intro h run hrun
    rw [h] at hrun
    cases hrun

/-- A rope whose bytes can be counted in a word keeps a zero only if it is empty. -/
theorem runs_of_size_zero {r : Rope} (hr : r.length < 2 ^ 64) (h : r.size = 0) : r.runs = [] := by
  rw [size_eq] at h
  have hword : (UInt64.ofNat r.length).toNat = 0 :=
    congrArg (fun n : Int64 => n.toUInt64.toNat) h
  rw [UInt64.toNat_ofNat', Nat.mod_eq_of_lt hr] at hword
  exact length_eq_zero.mp hword

/-! ## Building -/

@[simp] theorem runs_empty : empty.runs = [] := rfl

/-- A rope of bytes has these bytes. -/
@[simp] theorem toBytes_ofBytes (bytes : Bytes) : (ofBytes bytes).toBytes = bytes := by
  rw [toBytes_eq]
  exact Tree.flatten_runs_leaf bytes

/-- A rope of bytes knows their number. -/
@[simp] theorem length_ofBytes (bytes : Bytes) : (ofBytes bytes).length = bytes.length := by
  rw [length, toBytes_ofBytes]

@[simp] theorem length_empty : empty.length = 0 :=
  length_ofBytes []

/-- **A join has the runs of both ropes**, if the bytes of each can be counted in a word. -/
theorem runs_join {l r : Rope} (hl : l.length < 2 ^ 64) (hr : r.length < 2 ^ 64) :
    (l.join r).runs = l.runs ++ r.runs := by
  unfold join
  split
  · rename_i hzero
    rw [runs_of_size_zero hl (eq_of_beq hzero), List.nil_append]
  · split
    · rename_i hzero
      rw [runs_of_size_zero hr (eq_of_beq hzero), List.append_nil]
    · rfl

/-- **Joining is appending**, as long as lengths can be told. -/
theorem toBytes_join {l r : Rope} (hl : l.length < 2 ^ 64) (hr : r.length < 2 ^ 64) :
    (l.join r).toBytes = l.toBytes ++ r.toBytes := by
  rw [toBytes_eq, runs_join hl hr, List.flatten_append, toBytes_eq, toBytes_eq]

/-- Lengths add up. -/
theorem length_join {l r : Rope} (hl : l.length < 2 ^ 64) (hr : r.length < 2 ^ 64) :
    (l.join r).length = l.length + r.length := by
  rw [length, toBytes_join hl hr, List.length_append, length, length]

/-- Joins of ropes that go together in a word may be regrouped. -/
theorem runs_join_join {a b c : Rope} (h : a.length + b.length + c.length < 2 ^ 63) :
    ((a.join b).join c).runs = (a.join (b.join c)).runs := by
  have ha : a.length < 2 ^ 64 := by omega
  have hb : b.length < 2 ^ 64 := by omega
  have hc : c.length < 2 ^ 64 := by omega
  have hab : (a.join b).length < 2 ^ 64 := by rw [length_join ha hb]; omega
  have hbc : (b.join c).length < 2 ^ 64 := by rw [length_join hb hc]; omega
  rw [runs_join hab hc, runs_join ha hb, runs_join ha hbc, runs_join hb hc, List.append_assoc]

theorem empty_join (r : Rope) : empty.join r = r := rfl

/-- The empty rope adds no run. -/
theorem runs_join_empty {r : Rope} (h : r.length < 2 ^ 64) : (r.join empty).runs = r.runs := by
  rw [runs_join h (by simp), runs_empty, List.append_nil]

/-- What a fold of joins adds to a rope: the runs of the others in turn. -/
theorem runs_foldl_join {ropes : List Rope} {start : Rope}
    (h : start.length + (ropes.map length).sum < 2 ^ 64) :
    (ropes.foldl join start).runs = start.runs ++ ropes.flatMap runs := by
  induction ropes generalizing start with
  | nil => simp
  | cons r ropes ih =>
    rw [List.map_cons, List.sum_cons] at h
    have hstart : start.length < 2 ^ 64 := by omega
    have hr : r.length < 2 ^ 64 := by omega
    rw [List.foldl_cons, ih (by rw [length_join hstart hr]; omega), runs_join hstart hr,
      List.flatMap_cons, List.append_assoc]

/-- A list of ropes is joined in its order. -/
theorem runs_concat {ropes : List Rope} (h : (ropes.map length).sum < 2 ^ 64) :
    (concat ropes).runs = ropes.flatMap runs := by
  rw [concat, runs_foldl_join (by simpa using h), runs_empty, List.nil_append]

/-- Runs that are put together in turn. -/
theorem toBytes_concat_ofBytes {α : Type} (f : α → Bytes) (xs : List α)
    (h : (xs.flatMap f).length < 2 ^ 64) :
    (concat (xs.map fun x => ofBytes (f x))).toBytes = xs.flatMap f := by
  have hlength : ((xs.map fun x => ofBytes (f x)).map length).sum = (xs.flatMap f).length := by
    simp [List.length_flatMap, Function.comp_def]
  have hruns : (xs.map fun x => ofBytes (f x)).flatMap (fun r => r.runs.flatten) = xs.flatMap f := by
    simp [List.flatMap_map, ← toBytes_eq]
  rw [toBytes_eq, runs_concat (by rwa [hlength]), ← hruns]
  simp [List.flatMap, List.flatten_flatten, Function.comp_def]

/-! ## Recipes -/

/-- A way to build a rope. -/
inductive Recipe where
  | new (bytes : Bytes)
  | join (front back : Recipe)
  | concat (parts : List Recipe)
  | append (front : Recipe) (bytes : Bytes)

namespace Recipe

mutual

/-- The rope that a recipe builds. -/
def rope : Recipe → Rope
  | .new bytes => .ofBytes bytes
  | .join front back => front.rope.join back.rope
  | .concat parts => .concat (ropes parts)
  | .append front bytes => front.rope.append bytes

/-- The ropes that recipes build. -/
def ropes : List Recipe → List Rope
  | [] => []
  | part :: parts => part.rope :: ropes parts

end

mutual

/-- The byte strings that go into a recipe, in their order. -/
def pieces : Recipe → List Bytes
  | .new bytes => [bytes]
  | .join front back => front.pieces ++ back.pieces
  | .concat parts => piecesOf parts
  | .append front bytes => front.pieces ++ [bytes]

/-- The byte strings that go into recipes, in their order. -/
def piecesOf : List Recipe → List Bytes
  | [] => []
  | part :: parts => part.pieces ++ piecesOf parts

end

/-- The byte strings that make runs. -/
def filled (pieces : List Bytes) : List Bytes :=
  pieces.filter fun bytes => !bytes.isEmpty

/-- Empty pieces are dropped one by one. -/
theorem filled_append (ps qs : List Bytes) : filled (ps ++ qs) = filled ps ++ filled qs :=
  List.filter_append ..

/-- A piece is a run if it is not empty. -/
theorem filled_singleton (bytes : Bytes) : filled [bytes] = (ofBytes bytes).runs := by
  cases bytes <;> rfl

/-- Dropping empty pieces drops no bytes. -/
theorem flatten_filled (ps : List Bytes) : (filled ps).flatten = ps.flatten := by
  induction ps with
  | nil => rfl
  | cons p ps ih =>
    cases p with
    | nil => exact ih
    | cons b bs => exact congrArg ((b :: bs) ++ ·) ih

/-- A rope with the runs of byte strings has as many bytes as they. -/
theorem length_of_runs {r : Rope} {ps : List Bytes} (h : r.runs = filled ps) :
    r.length = ps.flatten.length := by
  rw [length, toBytes_eq, h, flatten_filled]

mutual

/-- **The runs of a rope are the byte strings that were put in**, but for empty ones. -/
theorem runs_rope : ∀ r : Recipe, r.pieces.flatten.length < 2 ^ 64 → r.rope.runs = filled r.pieces
  | .new bytes, _ => by rw [rope, pieces, filled_singleton]
  | .join front back, h => by
    rw [pieces, List.flatten_append, List.length_append] at h
    have hfront := runs_rope front (by omega)
    have hback := runs_rope back (by omega)
    rw [rope, runs_join (by rw [length_of_runs hfront]; omega) (by rw [length_of_runs hback]; omega),
      hfront, hback, pieces, filled_append]
  | .concat parts, h => by
    rw [pieces] at h
    obtain ⟨hruns, hlength⟩ := runs_ropes parts h
    rw [rope, runs_concat (by rw [hlength]; exact h), hruns, pieces]
  | .append front bytes, h => by
    rw [pieces, List.flatten_append, List.length_append, List.flatten_singleton] at h
    have hfront := runs_rope front (by omega)
    rw [rope, Rope.append, runs_join (by rw [length_of_runs hfront]; omega)
      (by rw [length_ofBytes]; omega), hfront, pieces, filled_append, filled_singleton]

/-- The parts of a recipe have its pieces as their runs, and their lengths add up to its length. -/
theorem runs_ropes : ∀ parts : List Recipe, (piecesOf parts).flatten.length < 2 ^ 64 →
    (ropes parts).flatMap runs = filled (piecesOf parts) ∧
      ((ropes parts).map length).sum = (piecesOf parts).flatten.length
  | [], _ => ⟨rfl, rfl⟩
  | part :: parts, h => by
    rw [piecesOf, List.flatten_append, List.length_append] at h
    have hpart := runs_rope part (by omega)
    obtain ⟨hruns, hlength⟩ := runs_ropes parts (by omega)
    rw [ropes, piecesOf, List.flatMap_cons, hpart, hruns, filled_append, List.map_cons,
      List.sum_cons, hlength, length_of_runs hpart, List.flatten_append, List.length_append]
    exact ⟨rfl, rfl⟩

end

end Recipe

/-! ## Writing -/

section

variable {σ : Type}

/-- Offers byte strings to a writer one after the other, up to the first one that it fails at. -/
def offer (w : Writer σ) : List Bytes → σ → Receipt × σ
  | [], s => (⟨0, false⟩, s)
  | run :: runs, s =>
    let answer := w run s
    if answer.1.failed then answer
    else
      let rest := offer w runs answer.2
      (⟨answer.1.count + rest.1.count, rest.1.failed⟩, rest.2)

/-- Nothing is offered behind a run that fails. -/
theorem offer_of_failed {w : Writer σ} {run : Bytes} {s : σ} (h : (w run s).1.failed = true)
    (runs : List Bytes) : offer w (run :: runs) s = w run s := by
  simp only [offer, h, if_true]

/-- Behind a run that is taken the next ones are offered, and the counts add up. -/
theorem offer_of_taken {w : Writer σ} {run : Bytes} {s : σ} (h : (w run s).1.failed = false)
    (runs : List Bytes) : offer w (run :: runs) s =
      (⟨(w run s).1.count + (offer w runs (w run s).2).1.count,
        (offer w runs (w run s).2).1.failed⟩, (offer w runs (w run s).2).2) := by
  simp only [offer, h, Bool.false_eq_true, if_false]

/-- What a walk over a stack of trees does with a writer: it offers their runs. -/
theorem walk_eq (w : Writer σ) (stack : List Tree) (s : Int64 × σ) :
    walk w.visit stack s =
      ((offer w (stack.flatMap Tree.runs) s.2).1.failed,
        s.1 + (offer w (stack.flatMap Tree.runs) s.2).1.count,
        (offer w (stack.flatMap Tree.runs) s.2).2) := by
  fun_induction walk w.visit stack s with
  | case1 s =>
    rw [List.flatMap_nil, offer, Int64.add_zero]
  | case2 bytes stack s hempty ih =>
    rw [ih, List.flatMap_cons, Tree.runs, if_pos hempty, List.nil_append]
  | case3 bytes stack s hempty visited hfailed =>
    have hfailed : (w bytes s.2).1.failed = true := hfailed
    rw [List.flatMap_cons, Tree.runs, if_neg hempty, List.singleton_append, offer_of_failed hfailed]
    rfl
  | case4 bytes stack s hempty visited hfailed ih =>
    have htaken : (w bytes s.2).1.failed = false := eq_false_of_ne_true hfailed
    rw [ih, List.flatMap_cons, Tree.runs, if_neg hempty, List.singleton_append,
      offer_of_taken htaken]
    simp only [visited, Writer.visit, Int64.add_assoc]
  | case5 size left right stack s ih =>
    rw [ih, List.flatMap_cons, List.flatMap_cons, List.flatMap_cons, Tree.runs, List.append_assoc]

/-- **A writer is given the runs of a rope**, and nothing else about it. -/
theorem writeTo_eq (r : Rope) (w : Writer σ) (s : σ) : r.writeTo w s = offer w r.runs s := by
  unfold writeTo
  rw [walk_eq, List.flatMap_singleton, Int64.zero_add]
  rfl

end

/-- What a receiver takes of byte strings: as many bytes from the front as it has room for. -/
theorem offer_take (room : Nat) (taken runs : List Bytes) :
    (offer Receiver.take runs ⟨room, taken⟩).2.taken.reverse.flatten =
        taken.reverse.flatten ++ runs.flatten.take room ∧
      (offer Receiver.take runs ⟨room, taken⟩).1.count =
        Int64.ofNat (min room runs.flatten.length) ∧
      (offer Receiver.take runs ⟨room, taken⟩).1.failed = decide (room < runs.flatten.length) := by
  induction runs generalizing room taken with
  | nil => simp [offer]
  | cons run runs ih =>
    rw [List.flatten_cons, List.length_append, List.take_append]
    by_cases hroom : room < run.length
    · -- The run does not fit: what fits of it fills the room, and nothing more is offered.
      rw [offer_of_failed (by simpa [Receiver.take] using hroom)]
      have hfull : room - run.length = 0 := by omega
      have hcount : min room (run.length + runs.flatten.length) = min room run.length := by omega
      refine ⟨by simp [Receiver.take, hfull], by rw [hcount]; simp [Receiver.take], ?_⟩
      simp only [Receiver.take, decide_eq_decide]
      omega
    · have hfit : run.take room = run := List.take_of_length_le (by omega)
      obtain ⟨hbytes, hcount, hfailed⟩ := ih (room - run.length) (run :: taken)
      have hsum : min room (run.length + runs.flatten.length) =
          run.length + min (room - run.length) runs.flatten.length := by omega
      rw [offer_of_taken (by simpa [Receiver.take] using hroom)]
      simp only [Receiver.take, hfit, hbytes, hcount, hfailed, decide_eq_decide]
      exact ⟨by simp, by rw [hsum, Int64.ofNat_add], by omega⟩

/-- What a receiver gets of a rope whose number of bytes is not negative as a word. -/
theorem deliver_eq {r : Rope} (h : r.length < 2 ^ 63) (room : Nat) :
    (r.deliver room).chunks.flatten = r.toBytes.take room ∧
      (r.deliver room).written = min room r.length ∧
      (r.deliver room).failed = decide (room < r.length) := by
  obtain ⟨hchunks, hcount, hfailed⟩ := offer_take room [] r.runs
  rw [← writeTo_eq, ← toBytes_eq] at hchunks hcount hfailed
  refine ⟨hchunks, ?_, hfailed⟩
  rw [deliver, hcount]
  exact Int64.toNatClampNeg_ofNat_of_lt (Nat.lt_of_le_of_lt (Nat.min_le_right ..) h)

/-! ## Ropes as byte strings -/

/-- **A rope behaves as the byte string that was put into it**, if that has fewer than 2^63 bytes.
Its runs are the byte strings of its recipe that are not empty, and they are all that its bytes, the
number that it keeps and the answers of any writer depend on; so joins can be regrouped, and the
empty rope can be left out. A receiver with little room gets the front of the bytes, says how many it
took, and fails exactly if these are not all. -/
theorem rope_as_bytes (recipe : Recipe) (h : recipe.pieces.flatten.length < 2 ^ 63) :
    (recipe.rope.toBytes = recipe.pieces.flatten ∧
      recipe.rope.size.toInt = recipe.rope.toBytes.length ∧
      ∀ (σ : Type) (w : Writer σ) (s : σ),
        recipe.rope.writeTo w s = offer w (recipe.pieces.filter fun bytes => !bytes.isEmpty) s) ∧
    (∀ a b c : Rope, a.length + b.length + c.length < 2 ^ 63 →
      ((a.join b).join c).toBytes = (a.join (b.join c)).toBytes ∧
      (empty.join a).toBytes = a.toBytes ∧ (a.join empty).toBytes = a.toBytes ∧
      ∀ (σ : Type) (w : Writer σ) (s : σ),
        ((a.join b).join c).writeTo w s = (a.join (b.join c)).writeTo w s ∧
        (empty.join a).writeTo w s = a.writeTo w s ∧ (a.join empty).writeTo w s = a.writeTo w s) ∧
    ∀ room : Nat,
      (recipe.rope.deliver room).chunks.flatten =
        recipe.rope.toBytes.take (min room recipe.rope.length) ∧
      (recipe.rope.deliver room).written = min room recipe.rope.length ∧
      ((recipe.rope.deliver room).failed ↔ room < recipe.rope.length) := by
  -- Everything is read off the runs, which are the pieces that are not empty.
  have hruns : recipe.rope.runs = Recipe.filled recipe.pieces := recipe.runs_rope (by omega)
  have hbytes : recipe.rope.toBytes = recipe.pieces.flatten := by
    rw [toBytes_eq, hruns, Recipe.flatten_filled]
  have hlength : recipe.rope.length < 2 ^ 63 := by rwa [length, hbytes]
  refine ⟨⟨hbytes, ?_, fun σ w s => ?_⟩, fun a b c habc => ?_, fun room => ?_⟩
  · rw [size_eq, Int64.toInt_ofNat_of_lt hlength, length]
  · rw [writeTo_eq, hruns, Recipe.filled]
  · have hjoin := runs_join_join habc
    have hempty : (a.join empty).runs = a.runs := runs_join_empty (by omega)
    simp only [toBytes_eq, writeTo_eq, hjoin, hempty, empty_join, implies_true, and_self]
  · obtain ⟨hchunks, hwritten, hfailed⟩ := deliver_eq hlength room
    refine ⟨?_, hwritten, by rw [hfailed, decide_eq_true_eq]⟩
    rw [hchunks, length, ← List.take_take, List.take_length]

/-- Three bytes in a nest of all four ways to build ropes, for a receiver with room for two. -/
theorem rope_as_bytes_nested :
    let recipe : Recipe := .join (.concat [.new [0x55], .new []]) (.append (.new []) [0x89, 0xe5])
    recipe.pieces.flatten.length < 2 ^ 63 ∧ recipe.rope.toBytes = [0x55, 0x89, 0xe5] ∧
      recipe.rope.size.toInt = 3 ∧ (recipe.rope.deliver 2).chunks.flatten = [0x55, 0x89] ∧
      (recipe.rope.deliver 2).written = 2 ∧ (recipe.rope.deliver 2).failed := by
  intro recipe
  have hfew : recipe.pieces.flatten.length < 2 ^ 63 := by decide
  obtain ⟨⟨hbytes, hsize, -⟩, -, hdeliver⟩ := rope_as_bytes recipe hfew
  have hthree : recipe.rope.toBytes = [0x55, 0x89, 0xe5] := hbytes.trans (by decide)
  obtain ⟨hchunks, hwritten, hfailed⟩ := hdeliver 2
  rw [length, hthree] at hchunks hwritten hfailed
  rw [hthree] at hsize
  exact ⟨hfew, hthree, hsize, hchunks, hwritten, hfailed.mpr (by decide)⟩

/-- A rope that is joined to itself so many times. -/
def Recipe.doubled (recipe : Recipe) : Nat → Recipe
  | 0 => recipe
  | times + 1 => .join (recipe.doubled times) (recipe.doubled times)

/-- Doubling a recipe again and again makes it exponentially long. -/
theorem Recipe.length_pieces_doubled (recipe : Recipe) (times : Nat) :
    (recipe.doubled times).pieces.flatten.length = 2 ^ times * recipe.pieces.flatten.length := by
  induction times with
  | zero => rw [doubled, Nat.pow_zero, Nat.one_mul]
  | succ times ih =>
    rw [doubled, pieces, List.flatten_append, List.length_append, ih, Nat.pow_succ',
      Nat.mul_assoc, Nat.two_mul]

/-- **One byte that is doubled 64 times makes a rope that passes for an empty one**: it keeps the
number zero, and vanishes in the next join with all its bytes. -/
theorem rope_as_bytes_doubled :
    let x : Recipe := (Recipe.new [1]).doubled 64
    x.pieces.flatten.length = 2 ^ 64 ∧ x.rope.toBytes.length = 2 ^ 64 ∧ x.rope.size = 0 ∧
      (Recipe.join x (.new [7])).pieces.flatten.length = 2 ^ 64 + 1 ∧
      (Recipe.join x (.new [7])).rope.toBytes = [7] := by
  intro x
  have hpieces : x.pieces.flatten.length = 2 ^ 64 := Recipe.length_pieces_doubled _ _
  -- Half of the rope can be counted in a word, so the last doubling still joins.
  have hhalf : ((Recipe.new [1]).doubled 63).rope.length = 2 ^ 63 := by
    have hlength := Recipe.length_pieces_doubled (.new [1]) 63
    rw [Recipe.length_of_runs (Recipe.runs_rope _ (by rw [hlength]; decide)), hlength]
    rfl
  have hlength : x.rope.length = 2 ^ 64 := by
    have hjoin : x.rope.length = _ := length_join (by rw [hhalf]; decide) (by rw [hhalf]; decide)
    rw [hhalf] at hjoin
    omega
  have hsize : x.rope.size = 0 := by
    rw [size_eq, hlength]
    rfl
  refine ⟨hpieces, hlength, hsize, ?_, ?_⟩
  · rw [Recipe.pieces, List.flatten_append, List.length_append, hpieces]
    rfl
  · have hjoin : x.rope.join (.ofBytes [7]) = .ofBytes [7] := by
      rw [join, if_pos (beq_iff_eq.mpr hsize)]
    change (x.rope.join (.ofBytes [7])).toBytes = _
    rw [hjoin, toBytes_ofBytes]

end Rope

end DirectC
