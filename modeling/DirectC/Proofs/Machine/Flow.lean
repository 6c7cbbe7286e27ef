/-
# Control flow and the height of the stack

How control moves through code by byte positions, and how far the stack pointer is below a fixed
mark on the way. `Sound` is the static condition on a piece of code under which the height at a
position does not depend on the path that leads there; `At.path` is what follows for paths.
-/
import DirectC.Machine.Instr
import Mathlib.Logic.Relation

namespace DirectC

namespace Instr

/-! ## What an instruction does to the stack pointer and to control -/

/-- The number of bytes by which an instruction lowers the stack pointer. A call comes back with
the pointer where it was; behind `leave` there is no frame that a height could be measured from. -/
def rise : Instr → Int
  | .push _ => 8
  | .pop _ => -8
  | .subRsp n => n.toInt
  | .addRsp n => -n.toInt
  | _ => 0

/-- The displacement of a jump. -/
def displacement? : Instr → Option Int8
  | .jump disp | .jumpIf _ disp => some disp
  | _ => none

/-- Neither a jump nor a call. -/
def isPlain (i : Instr) : Bool :=
  i != .callRax && i.displacement?.isNone

/-- Whether control may go on to the next instruction within the frame. -/
def continues : Instr → Bool
  | .jump _ | .leave | .ret => false
  | _ => true

/-- No instruction is empty. -/
theorem size_pos (i : Instr) : 0 < i.size := by
  cases i with
  | loadRdi w | storeRdi w | storeSlot _ _ w | extendRdi w | extendRax w =>
    cases w <;> simp only [size, encode, List.length_append, List.length_cons] <;> omega
  | subRsp n | addRsp n =>
    simp only [size, encode, adjustRsp]
    split <;> simp
  | movImm r v | movAddr r v =>
    simp only [size, encode, List.length_append, List.length_cons]
    omega
  | _ => simp [size, encode]

/-- There is one prefix at most. -/
theorem length_rex_le (wide : Bool) (reg rm : Register) (force : Bool) :
    (rex wide reg rm force).length ≤ 1 := by
  unfold rex
  extract_lets bits
  split <;> simp

/-- A slot is addressed by five bytes at most. -/
theorem length_slot_le (reg : Register) (offset : Int32) : (slot reg offset).length ≤ 5 := by
  unfold slot
  split <;> simp [signedWord, word, Bytes.littleEndian]

/-- No instruction is longer than the processor allows. -/
theorem size_le (i : Instr) : i.size ≤ 15 := by
  have hrex := length_rex_le
  have hslot := length_slot_le
  cases i with
  | loadRdi w | storeRdi w | extendRdi w | extendRax w => cases w <;> simp [size, encode]
  | storeSlot r offset w =>
    cases w <;> simp only [size, encode, List.length_append, List.length_cons, List.length_nil] <;>
      grind
  | subRsp n | addRsp n =>
    simp only [size, encode, adjustRsp]
    split <;> simp [signedWord, word, Bytes.littleEndian]
  | push | pop | movImm | movAddr | clear | storeAtRax | mov | mov32 | leaRdi =>
    simp only [size, encode, signedWord, word, Bytes.littleEndian, List.length_append,
      List.length_cons, List.length_nil]
    grind
  | _ => simp [size, encode]

/-- All instructions with a displacement are short jumps. -/
theorem size_of_displacement {i : Instr} {disp : Int8} (h : i.displacement? = some disp) :
    i.size = jumpSize := by
  cases i <;> simp [displacement?] at h <;> rfl

/-- Jumps leave the stack alone. -/
theorem rise_of_displacement {i : Instr} {disp : Int8} (h : i.displacement? = some disp) :
    i.rise = 0 := by
  cases i <;> simp [displacement?] at h <;> rfl

end Instr

namespace Code

/-! ## Sizes and heights of code -/

@[simp] theorem size_nil : size [] = 0 := rfl

@[simp] theorem size_cons (i : Instr) (c : Code) : size (i :: c) = i.size + size c := rfl

/-- Code in a row takes the bytes of both parts. -/
@[simp] theorem size_append (a b : Code) : size (a ++ b) = size a + size b := by
  induction a with
  | nil => simp
  | cons i a ih => simp [ih, Nat.add_assoc]

/-- Code in a row has the bytes of both parts. -/
theorem bytes_append (a b : Code) : bytes (a ++ b) = bytes a ++ bytes b :=
  List.flatMap_append

/-- Code takes as many bytes as it is encoded in. -/
theorem length_bytes (c : Code) : (bytes c).length = size c := by
  induction c with
  | nil => rfl
  | cons i c ih => simpa [bytes, size, Instr.size] using ih

/-- The number of bytes by which code lowers the stack pointer if it runs straight through. -/
def rise : Code → Int
  | [] => 0
  | i :: is => i.rise + rise is

@[simp] theorem rise_nil : rise [] = 0 := rfl

@[simp] theorem rise_cons (i : Instr) (c : Code) : rise (i :: c) = i.rise + rise c := rfl

/-- The stack rises by what both parts push. -/
@[simp] theorem rise_append (a b : Code) : rise (a ++ b) = rise a + rise b := by
  induction a with
  | nil => simp
  | cons i a ih => simp [ih, Int.add_assoc]

/-- Only the empty code takes no bytes. -/
theorem eq_nil_of_size {c : Code} (h : size c = 0) : c = [] := by
  cases c with
  | nil => rfl
  | cons i c =>
    have := i.size_pos
    simp only [size_cons] at h
    omega

/-- A position in code belongs to one prefix of it. -/
theorem prefix_unique {a b a' b' : Code} (h : a ++ b = a' ++ b') (hs : size a = size a') :
    a = a' := by
  rcases List.append_eq_append_iff.mp h with ⟨m, rfl, _⟩ | ⟨m, rfl, _⟩ <;>
  · have hm : size m = 0 := by
      simp only [size_append] at hs
      omega
    simp [eq_nil_of_size hm]

/-- A position inside a piece of code splits the piece. -/
theorem split_between {pre piece post a b : Code} (h : a ++ b = pre ++ piece ++ post)
    (h1 : size pre ≤ size a) (h2 : size a ≤ size pre + size piece) :
    ∃ p q, piece = p ++ q ∧ a = pre ++ p := by
  rcases List.append_eq_append_iff.mp h with ⟨m, hm, _⟩ | ⟨m, rfl, _⟩
  · rcases List.append_eq_append_iff.mp hm with ⟨m', rfl, hp⟩ | ⟨m', rfl, _⟩
    · exact ⟨m', m, hp, rfl⟩
    · have hm' : size m' = 0 := by
        simp only [size_append] at h1
        omega
      exact ⟨[], piece, rfl, by simp [eq_nil_of_size hm']⟩
  · have hm : size m = 0 := by
      simp only [size_append] at h2
      omega
    exact ⟨piece, [], by simp, by simp [eq_nil_of_size hm]⟩

/-! ## Paths -/

/-- Where control is, as a number of bytes, and how many bytes the stack pointer is below a fixed
mark. -/
structure Place where
  pos : Int
  height : Int

/-- One step of control through code. -/
inductive Step (code : Code) : Place → Place → Prop where
  | next {pre : Code} {i : Instr} {post : Code} {height : Int} (hc : code = pre ++ i :: post)
      (hi : i.continues) :
      Step code ⟨pre.size, height⟩ ⟨pre.size + i.size, height + i.rise⟩
  | jump {pre : Code} {i : Instr} {post : Code} {height : Int} {disp : Int8}
      (hc : code = pre ++ i :: post) (hd : i.displacement? = some disp) :
      Step code ⟨pre.size, height⟩ ⟨pre.size + i.size + disp.toInt, height + i.rise⟩

/-- The paths of control through code. -/
abbrev Path (code : Code) : Place → Place → Prop :=
  Relation.ReflTransGen (Step code)

/-- The place is at an instruction or at the end, and the height is the one of the code in front of
it when the code is entered at the height `h`. -/
def At (code : Code) (h : Int) (p : Place) : Prop :=
  ∃ pre post, code = pre ++ post ∧ p.pos = pre.size ∧ p.height = h + rise pre

/-- A jump behind `pre` leads to an instruction, and the height there is the same. -/
def Lands (code pre : Code) (disp : Int8) : Prop :=
  ∃ front post, code = front ++ post ∧
    (front.size : Int) = pre.size + Instr.jumpSize + disp.toInt ∧ rise front = rise pre

/-- Every jump of the code leads to an instruction at the same height. -/
def JumpsLand (code : Code) : Prop :=
  ∀ pre i post disp, code = pre ++ i :: post → i.displacement? = some disp → Lands code pre disp

/-- Code starts at its first byte. -/
theorem At.start (code : Code) (h : Int) : At code h ⟨0, h⟩ :=
  ⟨[], code, rfl, rfl, by simp⟩

/-- **Step.** A step leads from an instruction to an instruction or the end. -/
theorem At.step {code : Code} {h : Int} {p q : Place} (hj : JumpsLand code) (hp : At code h p)
    (hs : Step code p q) : At code h q := by
  obtain ⟨pre, post, hc, hpos, hheight⟩ := hp
  cases hs with
  | @next pre' i post' height hc' hi =>
    obtain rfl : pre' = pre := prefix_unique (hc'.symm.trans hc) (Int.ofNat.inj hpos)
    refine ⟨pre' ++ [i], post', by simpa using hc', by simp, ?_⟩
    simp only at hheight
    simp [hheight, Int.add_assoc]
  | @jump pre' i post' height disp hc' hd =>
    obtain rfl : pre' = pre := prefix_unique (hc'.symm.trans hc) (Int.ofNat.inj hpos)
    obtain ⟨front, post1, hfront, hsize, hrise⟩ := hj _ _ _ _ hc' hd
    refine ⟨front, post1, hfront, ?_, ?_⟩
    · simp [hsize, Instr.size_of_displacement hd]
    · simp only at hheight
      simp [hheight, hrise, Instr.rise_of_displacement hd]

/-- **Path.** A path leads from an instruction to an instruction or the end, and the height there
depends on the position only. -/
theorem At.path {code : Code} {h : Int} {p q : Place} (hj : JumpsLand code) (hp : At code h p)
    (hs : Path code p q) : At code h q := by
  induction hs with
  | refl => exact hp
  | tail _ hs ih => exact ih.step hj hs

/-- The height at a known position. -/
theorem At.height_eq {code pre post : Code} {h : Int} {p : Place} (hp : At code h p)
    (hc : code = pre ++ post) (hpos : p.pos = pre.size) : p.height = h + rise pre := by
  obtain ⟨pre', post', hc', hpos', hheight⟩ := hp
  obtain rfl : pre' = pre := prefix_unique (hc'.symm.trans hc) (by omega)
  exact hheight

/-! ## Sound code -/

/-- What an instruction of `code` behind `pre` has to obey when the code is entered at the height
`h`: it stays at or above the height `floor`, a call finds the stack aligned, and a jump lands. -/
structure Fits (code : Code) (floor h : Int) (pre : Code) (i : Instr) : Prop where
  before : floor ≤ h + rise pre
  after : floor ≤ h + rise pre + i.rise
  aligned : i = .callRax → 16 ∣ h + rise pre
  lands : ∀ disp, i.displacement? = some disp → Lands code pre disp

/-- All instructions of a piece of `code` behind `pre` fit. -/
def Sound (code : Code) (floor h : Int) : Code → Code → Prop
  | _, [] => True
  | pre, i :: rest => Fits code floor h pre i ∧ Sound code floor h (pre ++ [i]) rest

variable {code : Code} {floor h : Int} {pre : Code}

@[simp] theorem sound_nil : Sound code floor h pre [] := trivial

/-- Code is sound if its first instruction fits where it stands and the others do. -/
@[simp] theorem sound_cons {i : Instr} {rest : Code} :
    Sound code floor h pre (i :: rest) ↔
      Fits code floor h pre i ∧ Sound code floor h (pre ++ [i]) rest :=
  Iff.rfl

/-- Code is sound if both of its parts are, each where it stands. -/
@[simp] theorem sound_append {a b : Code} :
    Sound code floor h pre (a ++ b) ↔
      Sound code floor h pre a ∧ Sound code floor h (pre ++ a) b := by
  induction a generalizing pre with
  | nil => simp
  | cons i a ih => simp [ih, and_assoc]

/-- Every instruction of sound code fits where it stands. -/
theorem Sound.fits {piece a b : Code} {i : Instr} (hs : Sound code floor h pre piece)
    (hp : piece = a ++ i :: b) : Fits code floor h (pre ++ a) i := by
  subst hp
  exact (sound_append.mp hs).2.1

/-- No prefix of sound code ends under the floor. -/
theorem Sound.floor_le {piece a b : Code} (hs : Sound code floor h pre piece)
    (h0 : floor ≤ h + rise pre) (hp : piece = a ++ b) : floor ≤ h + rise pre + rise a := by
  rcases List.eq_nil_or_concat a with rfl | ⟨a, i, rfl⟩
  · simpa using h0
  · have := (hs.fits (a := a) (i := i) (b := b) (by simpa using hp)).after
    simpa [Int.add_assoc] using this

/-- A jump lands at the same place if more code stands around it. -/
theorem Lands.embed {disp : Int8} (l r : Code) (hl : Lands code pre disp) :
    Lands (l ++ code ++ r) (l ++ pre) disp := by
  obtain ⟨front, post, rfl, hsize, hrise⟩ := hl
  refine ⟨l ++ front, post ++ r, by simp, ?_, by simp [hrise]⟩
  simp only [size_append, Int.natCast_add]
  omega

/-- Sound code stays sound inside other code, above any lower floor. -/
theorem Sound.embed {piece : Code} (hs : Sound code floor h pre piece) (l r : Code)
    {floor' h' : Int} (hf : floor' ≤ floor) (hh : h = h' + rise l) :
    Sound (l ++ code ++ r) floor' h' (l ++ pre) piece := by
  induction piece generalizing pre with
  | nil => trivial
  | cons i piece ih =>
    obtain ⟨hi, hs⟩ := hs
    have hr : h' + rise (l ++ pre) = h + rise pre := by
      rw [hh, rise_append, Int.add_assoc]
    refine ⟨⟨?_, ?_, ?_, fun disp hd => (hi.lands disp hd).embed l r⟩, ?_⟩
    · rw [hr]
      exact Int.le_trans hf hi.before
    · rw [hr]
      exact Int.le_trans hf hi.after
    · rw [hr]
      exact hi.aligned
    · simpa using ih hs

/-- An instruction that neither jumps nor calls fits where the heights around it do. -/
theorem Fits.plain {i : Instr} (hi : i.isPlain) (hb : floor ≤ h + rise pre)
    (ha : floor ≤ h + rise pre + i.rise) : Fits code floor h pre i := by
  refine ⟨hb, ha, ?_, fun disp hd => ?_⟩
  · rintro rfl
    cases hi
  · simp [Instr.isPlain, hd] at hi

/-- A jump fits where it lands. -/
theorem Fits.jump {i : Instr} {disp : Int8} (hb : floor ≤ h + rise pre)
    (hd : i.displacement? = some disp) (hl : Lands code pre disp) : Fits code floor h pre i := by
  refine ⟨hb, by rw [Instr.rise_of_displacement hd]; omega, ?_, fun disp' h => ?_⟩
  · rintro rfl
    cases hd
  · rw [hd] at h
    cases h
    exact hl

/-! ## Code from one height to another -/

/-- Code that takes the stack from the height `a` to the height `b` and never under `floor`. -/
structure Lifts (floor a b : Int) (code : Code) : Prop where
  floor_le : floor ≤ a
  rise_eq : a + rise code = b
  sound : Sound code floor a [] code

variable {a b d : Int}

/-- What lifts is sound wherever it stands. -/
theorem Lifts.within {piece : Code} (hl : Lifts floor a b piece) (pre post : Code)
    (hc : code = pre ++ piece ++ post) {floor' : Int} (hf : floor' ≤ floor)
    (hh : h + rise pre = a) : Sound code floor' h pre piece := by
  subst hc
  simpa using hl.sound.embed pre post hf hh.symm

/-- A lower floor is no less safe. -/
theorem Lifts.lower {floor' : Int} (hl : Lifts floor a b code) (hf : floor' ≤ floor) :
    Lifts floor' a b code :=
  ⟨Int.le_trans hf hl.floor_le, hl.rise_eq, hl.within [] [] (by simp) hf (by simp)⟩

/-- No code lifts nothing. -/
theorem Lifts.nil (hf : floor ≤ a) : Lifts floor a a [] :=
  ⟨hf, by simp, trivial⟩

/-- Code after code. -/
theorem Lifts.append {x y : Code} (hx : Lifts floor a b x) (hy : Lifts floor b d y) :
    Lifts floor a d (x ++ y) := by
  have hr := hx.rise_eq
  have hr' := hy.rise_eq
  refine ⟨hx.floor_le, by rw [rise_append]; omega, sound_append.mpr ⟨?_, ?_⟩⟩
  · exact hx.within [] y (by simp) (Int.le_refl _) (by simp)
  · exact hy.within x [] (by simp) (Int.le_refl _) (by simpa using hr)

/-- An instruction that neither jumps nor calls. -/
theorem Lifts.plain {i : Instr} (hi : i.isPlain) (ha : floor ≤ a) (hb : floor ≤ b)
    (hr : a + i.rise = b) : Lifts floor a b [i] :=
  ⟨ha, by simpa using hr, .plain hi (by simpa using ha) (by simpa [hr] using hb), trivial⟩

/-- A push lifts the stack by a word. -/
theorem Lifts.push {r : Register} (ha : floor ≤ a) (hb : a + 8 = b) :
    Lifts floor a b [.push r] :=
  .plain rfl ha (by omega) hb

/-- A pop lowers it by a word. -/
theorem Lifts.pop {r : Register} (hf : floor ≤ b) (hb : b + 8 = a) : Lifts floor a b [.pop r] :=
  .plain rfl (by omega) hf (by simp only [Instr.rise]; omega)

/-- A call with the stack aligned. -/
theorem Lifts.call (hf : floor ≤ a) (h16 : 16 ∣ a) : Lifts floor a a [.callRax] :=
  ⟨hf, by simp [Instr.rise], ⟨by simpa using hf, by simpa [Instr.rise] using hf,
    fun _ => by simpa using h16, fun _ hd => by cases hd⟩, trivial⟩

/-- Code that leaves the stack alone and runs straight through. -/
def quiet (c : Code) : Bool :=
  c.all fun i => i.isPlain && i.rise == 0

/-- Code without pushes, pops and jumps stays where it is. -/
theorem Lifts.quiet {x : Code} (hq : quiet x) (hf : floor ≤ a) : Lifts floor a a x := by
  induction x with
  | nil => exact .nil hf
  | cons i x ih =>
    simp only [Code.quiet, List.all_cons, Bool.and_eq_true, beq_iff_eq] at hq
    obtain ⟨⟨hp, h0⟩, hq⟩ := hq
    exact .append (x := [i]) (.plain hp hf hf (by omega)) (ih hq)

/-! ## Jumps -/

@[simp] theorem size_jumpIf (cond : Condition) (disp : Int8) :
    (Instr.jumpIf cond disp).size = Instr.jumpSize :=
  rfl

@[simp] theorem size_jump (disp : Int8) : (Instr.jump disp).size = Instr.jumpSize :=
  rfl

@[simp] theorem rise_jumpIf (cond : Condition) (disp : Int8) : (Instr.jumpIf cond disp).rise = 0 :=
  rfl

@[simp] theorem rise_jump (disp : Int8) : (Instr.jump disp).rise = 0 :=
  rfl

/-- A jump over code. -/
theorem Lifts.skip {cond : Condition} {disp : Int8} {x : Code} (hx : Lifts floor a a x)
    (hd : disp.toInt = size x) : Lifts floor a a ([.jumpIf cond disp] ++ x) := by
  have hr : rise x = 0 := by have := hx.rise_eq; omega
  have hf := hx.floor_le
  refine ⟨hf, by simp [hr], sound_append.mpr ⟨⟨?_, trivial⟩, ?_⟩⟩
  · exact .jump (by simpa using hf) rfl
      ⟨[.jumpIf cond disp] ++ x, [], by simp, by simp [hd], by simp [hr]⟩
  · exact hx.within _ [] (by simp) (Int.le_refl _) (by simp)

/-- One of two pieces of code, by a jump. -/
theorem Lifts.branch (cond : Condition) {disp disp' : Int8} {x y : Code}
    (hx : Lifts floor a a x) (hy : Lifts floor a a y)
    (hd : disp.toInt = size x + Instr.jumpSize) (hd' : disp'.toInt = size y) :
    Lifts floor a a ([.jumpIf cond disp] ++ x ++ [.jump disp'] ++ y) := by
  have hr : rise x = 0 := by have := hx.rise_eq; omega
  have hr' : rise y = 0 := by have := hy.rise_eq; omega
  have hf := hx.floor_le
  refine ⟨hf, by simp [hr, hr'], ?_⟩
  simp only [sound_append, List.nil_append]
  refine ⟨⟨⟨⟨?_, trivial⟩, ?_⟩, ⟨?_, trivial⟩⟩, ?_⟩
  · -- over the first piece and the jump behind it, to the second piece
    refine .jump (by simpa using hf) rfl
      ⟨[.jumpIf cond disp] ++ x ++ [.jump disp'], y, rfl, ?_, by simp [hr]⟩
    simp [hd]
  · exact hx.within _ ([.jump disp'] ++ y) (by simp) (Int.le_refl _) (by simp)
  · refine .jump (by simpa [hr] using hf) rfl
      ⟨[.jumpIf cond disp] ++ x ++ [.jump disp'] ++ y, [], by simp, ?_, by simp [hr, hr']⟩
    simp [hd', Int.add_assoc]
  · exact hy.within _ [] (by simp) (Int.le_refl _) (by simp [hr])

/-- Code that runs again and again, behind a condition. -/
theorem Lifts.loop (cond : Condition) {disp disp' : Int8} {x y : Code}
    (hx : Lifts floor a a x) (hy : Lifts floor a a y)
    (hd : disp.toInt = size y + Instr.jumpSize)
    (hd' : disp'.toInt = -(size x + Instr.jumpSize + size y + Instr.jumpSize)) :
    Lifts floor a a (x ++ [.jumpIf cond disp] ++ y ++ [.jump disp']) := by
  have hr : rise x = 0 := by have := hx.rise_eq; omega
  have hr' : rise y = 0 := by have := hy.rise_eq; omega
  have hf := hx.floor_le
  refine ⟨hf, by simp [hr, hr'], ?_⟩
  simp only [sound_append, List.nil_append]
  refine ⟨⟨⟨?_, ⟨?_, trivial⟩⟩, ?_⟩, ⟨?_, trivial⟩⟩
  · exact hx.within [] ([.jumpIf cond disp] ++ y ++ [.jump disp']) (by simp) (Int.le_refl _)
      (by simp)
  · -- out of the loop
    refine .jump (by simpa [hr] using hf) rfl
      ⟨x ++ [.jumpIf cond disp] ++ y ++ [.jump disp'], [], by simp, ?_, by simp [hr, hr']⟩
    simp [hd, Int.add_assoc]
  · exact hy.within _ [.jump disp'] (by simp) (Int.le_refl _) (by simp [hr])
  · -- back to the condition
    refine .jump (by simpa [hr, hr'] using hf) rfl
      ⟨[], x ++ [.jumpIf cond disp] ++ y ++ [.jump disp'], rfl, ?_, by simp [hr, hr']⟩
    simp [hd']
    omega

end Code

end DirectC
