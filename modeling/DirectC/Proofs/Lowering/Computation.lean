/-
# Code that computes

What it means that a piece of code computes a value, and how such pieces are put together.
`Computes σ k code m v m'` says: wherever the code lies in memory, if memory looks like `m` to the
program, the code runs to its end with `v` in `rdi`, and memory then looks like `m'`. On the way it
changes only bytes that the program may write, and up to `k` words right below the stack pointer.

The lemmas follow the shapes of lowered code: a value that is changed by straight code, a value
that is saved on the stack while another one is computed, and code behind a test.
-/
import DirectC.Proofs.Lowering.Steps
import DirectC.Proofs.Machine.Arithmetic
import DirectC.Proofs.Semantics

namespace DirectC

namespace Lowering

open Machine (Word Memory Span Below Loaded Runs through)

/-! ## Runs of code -/

/-- Where code runs: the bytes that the program may touch, the bytes where the code lies, which are
not written, and the frame pointer. -/
structure Scene where
  access : Access
  text : Word → Prop
  rbp : Word
  fixed : ∀ x, text x → ¬ access.writes x

/-- The machine is about to run code. Memory looks like `m` to the program, and the `k` words below
the stack pointer are free. -/
structure Ready (σ : Scene) (k : Nat) (code : Code) (m : Memory) (s : Machine.State) : Prop where
  rbp : s.regs .rbp = σ.rbp
  loaded : Loaded σ.text s.mem s.rip code
  sees : ∀ x, σ.access.reads x → s.mem x = m x
  room : ∀ x, Below (s.regs .rsp) (8 * k) x →
    ¬ σ.access.reads x ∧ ¬ σ.access.writes x ∧ ¬ σ.text x

/-- A run that changes what may be written and the `k` words below the stack pointer. -/
structure Keeps (σ : Scene) (k : Nat) (s s' : Machine.State) : Prop where
  runs : Runs s s'
  mem : ∀ x, ¬ σ.access.writes x → ¬ Below (s.regs .rsp) (8 * k) x → s'.mem x = s.mem x

/-- A run to a place `n` bytes ahead. The stack pointer has moved by `d`, there is a value in `rdi`,
and memory looks like `m'` to the program. -/
structure Reaches (σ : Scene) (k : Nat) (d : Word) (n : Nat) (v : Int) (m' : Memory)
    (s s' : Machine.State) : Prop extends Keeps σ k s s' where
  rbp : s'.regs .rbp = s.regs .rbp
  rsp : s'.regs .rsp = s.regs .rsp + d
  rip : s'.rip = s.rip + .ofNat 64 n
  value : (s'.regs .rdi).toInt = v
  sees : ∀ x, σ.access.reads x → s'.mem x = m' x

/-- **Code that computes a value.** -/
def Computes (σ : Scene) (k : Nat) (code : Code) (m : Memory) (v : Int) (m' : Memory) : Prop :=
  ∀ s, Ready σ k code m s → ∃ s', Reaches σ k 0 code.size v m' s s'

variable {σ : Scene} {k k' : Nat} {x y : Code} {m m1 m2 m' : Memory} {v v' : Int}
  {s s1 s2 s' : Machine.State} {n n' : Nat} {d : Word}

/-! ## Runs after runs -/

theorem Keeps.mono (h : Keeps σ k s s') (hk : k ≤ k') : Keeps σ k' s s' :=
  ⟨h.runs, fun z hw hb => h.mem z hw fun hb' => hb (hb'.mono (by omega))⟩

/-- A run after a run, when the words that the second one uses belong to those of the first. -/
theorem Keeps.trans (h : Keeps σ k s s1) (h' : Keeps σ k' s1 s2)
    (hb : ∀ z, Below (s1.regs .rsp) (8 * k') z → Below (s.regs .rsp) (8 * k) z) :
    Keeps σ k s s2 :=
  ⟨h.runs.trans h'.runs, fun z hw hz =>
    (h'.mem z hw fun hz' => hz (hb z hz')).trans (h.mem z hw hz)⟩

theorem Reaches.mono (h : Reaches σ k d n v m' s s') (hk : k ≤ k') :
    Reaches σ k' d n v m' s s' :=
  { h with toKeeps := h.toKeeps.mono hk }

/-- One run may follow another. -/
theorem Reaches.append (h : Reaches σ k 0 n v m1 s s1) (h' : Reaches σ k d n' v' m2 s1 s2) :
    Reaches σ k d (n + n') v' m2 s s2 where
  toKeeps := h.toKeeps.trans h'.toKeeps (by simp [h.rsp])
  rbp := h'.rbp.trans h.rbp
  rsp := by simp [h'.rsp, h.rsp]
  rip := by rw [h'.rip, h.rip, BitVec.ofNat_add, BitVec.add_assoc]
  value := h'.value
  sees := h'.sees

/-- More code that pushes nothing. -/
theorem Reaches.extend (h : Reaches σ k d n v m1 s s1) (h' : Reaches σ 0 0 n' v' m2 s1 s2) :
    Reaches σ k d (n + n') v' m2 s s2 where
  toKeeps := h.toKeeps.trans h'.toKeeps fun _ hz => (Span.zero hz).elim
  rbp := h'.rbp.trans h.rbp
  rsp := by simp [h'.rsp, h.rsp]
  rip := by rw [h'.rip, h.rip, BitVec.ofNat_add, BitVec.add_assoc]
  value := h'.value
  sees := h'.sees

/-! ## Being ready -/

theorem Ready.mono (h : Ready σ k x m s) (hk : k' ≤ k) : Ready σ k' x m s :=
  { h with room := fun z hz => h.room z (hz.mono (by omega)) }

/-- A machine that is ready for two parts is ready for the first. -/
theorem Ready.left (h : Ready σ k (x ++ y) m s) : Ready σ k x m s :=
  { h with loaded := h.loaded.left }

/-- Code stays in memory during a run. -/
theorem Ready.loaded_of_keeps (h : Ready σ k x m s) (h' : Keeps σ k s s') :
    Loaded σ.text s'.mem s.rip x :=
  h.loaded.congr fun z hz => h'.mem z (σ.fixed z hz) fun hb => (h.room z hb).2.2 hz

/-- A run over a piece of code makes ready for the next one. -/
theorem Ready.next (h : Ready σ k (x ++ y) m s) (h' : Reaches σ k 0 x.size v m1 s s1) :
    Ready σ k y m1 s1 where
  rbp := h'.rbp.trans h.rbp
  loaded := by
    rw [h'.rip]
    exact (h.loaded_of_keeps h'.toKeeps).right
  sees := h'.sees
  room := by
    rw [h'.rsp]
    simpa using h.room

/-- Where the stack pointer has moved, no word below it is known to be free. -/
theorem Ready.after (h : Ready σ k (x ++ y) m s) (h' : Reaches σ k d x.size v m1 s s1) :
    Ready σ 0 y m1 s1 where
  rbp := h'.rbp.trans h.rbp
  loaded := by
    rw [h'.rip]
    exact (h.loaded_of_keeps h'.toKeeps).right
  sees := h'.sees
  room := fun _ hz => (Span.zero hz).elim

/-- The free words are fewer than the addresses, since code lies elsewhere. -/
theorem Ready.words_lt {i : Instr} (h : Ready σ k ([i] ++ x) m s) : 8 * k < 2 ^ 64 :=
  Machine.lt_of_not_below fun hb => (h.room _ hb).2.2 h.loaded.text_start

/-! ## Straight code -/

/-- Straight code reaches what running through it gives. -/
theorem Reaches.of_straight (h : Ready σ k x m s) (hx : Machine.isStraight x)
    (hrun : through x s = some s') (hrbp : s'.regs .rbp = s.regs .rbp)
    (hrsp : s'.regs .rsp = s.regs .rsp + d) (hv : (s'.regs .rdi).toInt = v) :
    Reaches σ k d x.size v m s s' := by
  obtain ⟨hruns, hmem, hrip⟩ := Machine.runs_straight hx h.loaded hrun
  exact ⟨⟨hruns, fun z _ _ => by rw [hmem]⟩, hrbp, hrsp, hrip, hv, by rw [hmem]; exact h.sees⟩

/-- Straight code that turns the value in `rdi` into another one, where memory looks like `m`. -/
structure Turns (κ : Access) (m : Memory) (v : Int) (code : Code) (v' : Int) : Prop where
  straight : Machine.isStraight code
  turns : ∀ s, (∀ x, κ.reads x → s.mem x = m x) → (s.regs .rdi).toInt = v →
    ∃ s', through code s = some s' ∧ s'.regs .rbp = s.regs .rbp ∧
      s'.regs .rsp = s.regs .rsp ∧ (s'.regs .rdi).toInt = v'

/-- Code that turns one value into another reaches it. -/
theorem Turns.reaches (h : Turns σ.access m v x v') (hs : Ready σ k x m s)
    (hv : (s.regs .rdi).toInt = v) : ∃ s', Reaches σ k 0 x.size v' m s s' := by
  obtain ⟨s', hrun, hrbp, hrsp, hv'⟩ := h.turns s hs.sees hv
  exact ⟨s', .of_straight hs h.straight hrun hrbp (by simpa using hrsp) hv'⟩

/-- A run, and straight code that turns its value into another one. -/
theorem Reaches.turn (h : Reaches σ k d x.size v m1 s s1) (hs : Ready σ k (x ++ y) m s)
    (ht : Turns σ.access m1 v y v') : ∃ s2, Reaches σ k d (Code.size (x ++ y)) v' m1 s s2 := by
  obtain ⟨s2, h2⟩ := ht.reaches (hs.after h) h.value
  refine ⟨s2, ?_⟩
  rw [Code.size_append]
  exact h.extend h2

/-- Straight code that needs no value. -/
theorem Computes.of_straight (hx : Machine.isStraight x)
    (h : ∀ s, s.regs .rbp = σ.rbp → ∃ s', through x s = some s' ∧ s'.regs .rbp = s.regs .rbp ∧
      s'.regs .rsp = s.regs .rsp ∧ (s'.regs .rdi).toInt = v) : Computes σ k x m v m := by
  intro s hs
  obtain ⟨s', hrun, hrbp, hrsp, hv⟩ := h s hs.rbp
  exact ⟨s', .of_straight hs hx hrun hrbp (by simpa using hrsp) hv⟩

/-- A value, and straight code that turns it into another one. -/
theorem Computes.turn (h : Computes σ k x m v m1) (ht : Turns σ.access m1 v y v') :
    Computes σ k (x ++ y) m v' m1 := by
  intro s hs
  obtain ⟨s1, h1⟩ := h s hs.left
  exact h1.turn hs ht

theorem Computes.mono (h : Computes σ k x m v m') (hk : k ≤ k') : Computes σ k' x m v m' := by
  intro s hs
  obtain ⟨s', hs'⟩ := h s (hs.mono hk)
  exact ⟨s', hs'.mono hk⟩

/-! ## Saved values -/

/-- The state after a push. -/
def pushed (r : Register) (s : Machine.State) : Machine.State :=
  (s.advance (Instr.push r).size).push (s.regs r)

theorem regs_pushed (r q : Register) (s : Machine.State) :
    (pushed r s).regs q = if q = .rsp then s.regs .rsp - 8 else s.regs q := rfl

theorem mem_pushed (r : Register) (s : Machine.State) :
    (pushed r s).mem = s.mem.store .qword (s.regs .rsp - 8) (s.regs r) := rfl

/-- The bytes of a pushed word are right below the stack pointer. -/
theorem below_of_span {a z : Word} (hz : Span (a - 8) Width.qword.size z) (hk : 1 ≤ k) :
    Below a (8 * k) z :=
  Below.mono (k := 8) hz (by omega)

theorem below_of_below {a z : Word} (hz : Below (a - 8) (8 * k) z) : Below a (8 * (k + 1)) z :=
  Below.deeper (k := 8) hz

/-- A push leaves one free word less. -/
theorem Ready.push {r : Register} (h : Ready σ (k + 1) ([.push r] ++ x) m s) :
    Keeps σ 1 s (pushed r s) ∧ Ready σ k x m (pushed r s) := by
  have hstep : Machine.step s = some (pushed r s) := Machine.step_of_loaded rfl h.loaded
  have hmem : ∀ z, ¬ Below (s.regs .rsp) (8 * 1) z → (pushed r s).mem z = s.mem z :=
    fun z hz => Memory.store_of_not fun hz' => hz (below_of_span hz' (Nat.le_refl 1))
  have hfree : ∀ z, Below (s.regs .rsp) (8 * 1) z → Below (s.regs .rsp) (8 * (k + 1)) z :=
    fun z hz => hz.mono (by omega)
  refine ⟨⟨.single hstep, fun z _ hz => hmem z hz⟩, h.rbp, ?_, fun z hz => ?_, fun z hz => ?_⟩
  · refine h.loaded.right.congr fun z hz => hmem z fun hb => ?_
    exact (h.room z (hfree z hb)).2.2 hz
  · rw [hmem z fun hb => (h.room z (hfree z hb)).1 hz]
    exact h.sees z hz
  · rw [regs_pushed, if_pos rfl] at hz
    exact h.room z (below_of_below hz)

/-- A run that starts with a push. -/
theorem Reaches.push {r : Register} (h : Reaches σ k (d + 8) n v m' (pushed r s) s')
    (hpush : Keeps σ 1 s (pushed r s)) :
    Reaches σ (k + 1) d (Code.size [.push r] + n) v m' s s' where
  toKeeps := by
    refine (hpush.mono (by omega)).trans h.toKeeps fun z hz => ?_
    rw [regs_pushed, if_pos rfl] at hz
    exact below_of_below hz
  rbp := h.rbp
  rsp := by
    rw [h.rsp, regs_pushed, if_pos rfl, BitVec.add_comm d, ← BitVec.add_assoc,
      BitVec.sub_add_cancel]
  rip := by
    have hrip : (pushed r s).rip = s.rip + .ofNat 64 (Code.size [.push r]) := rfl
    rw [h.rip, hrip, BitVec.ofNat_add, BitVec.add_assoc]
  value := h.value
  sees := h.sees

/-- The word on top of the stack. -/
def top (s : Machine.State) : Word :=
  s.mem.load .qword (s.regs .rsp)

/-- What was pushed is on the top. -/
theorem top_pushed (r : Register) (s : Machine.State) : top (pushed r s) = s.regs r := by
  rw [top, regs_pushed, if_pos rfl, mem_pushed, Memory.load_store]

/-- A run that writes only below the top of the stack leaves the top as it is. -/
theorem Reaches.top_eq (h : Reaches σ k 0 n v m' s s') (hk : 8 * k + 8 ≤ 2 ^ 64)
    (hw : ∀ z, Span (s.regs .rsp) 8 z → ¬ σ.access.writes z) : top s' = top s := by
  have hrsp : s'.regs .rsp = s.regs .rsp := by simpa using h.rsp
  rw [top, top, hrsp]
  exact Memory.load_congr fun z hz => h.mem z (hw z hz) (hz.not_below hk)

/-- A value that is pushed while the next one is computed. -/
theorem Computes.save {rest : Code} (hx : Computes σ (k + 1) x m v m1)
    (hy : Computes σ k y m1 v' m2)
    (hs : Ready σ (k + 1) (x ++ ([.push .rdi] ++ (y ++ rest))) m s) :
    ∃ s', Reaches σ (k + 1) (-8) (Code.size (x ++ ([.push .rdi] ++ y))) v' m2 s s' ∧
      Ready σ k rest m2 s' ∧ (top s').toInt = v := by
  obtain ⟨s1, h1⟩ := hx s hs.left
  have hs1 := hs.next h1
  obtain ⟨hpush, hs2⟩ := hs1.push
  obtain ⟨s2, h2⟩ := hy _ hs2.left
  have hsize := hs1.words_lt
  -- the pushed word is free for this code, so the program does not write there
  have htop : top s2 = top (pushed .rdi s1) := by
    refine h2.top_eq (by omega) fun z hz => (hs1.room z (below_of_span ?_ (by omega))).2.1
    rwa [regs_pushed, if_pos rfl] at hz
  have h2' : Reaches σ k (-8 + 8) y.size v' m2 (pushed .rdi s1) s2 := h2
  refine ⟨s2, ?_, hs2.next h2, ?_⟩
  · rw [Code.size_append, Code.size_append]
    exact h1.append (h2'.push hpush)
  · rw [htop, top_pushed, h1.value]

/-- Code that takes a saved value off the stack and combines it with the one in `rdi`. -/
def Combines (σ : Scene) (k : Nat) (code : Code) (m : Memory) (saved v r : Int) (m' : Memory) :
    Prop :=
  ∀ s, Ready σ k code m s → (top s).toInt = saved → (s.regs .rdi).toInt = v →
    ∃ s', Reaches σ k 8 code.size r m' s s'

/-- **Two values and their combination.** -/
theorem Computes.combine {rest : Code} {r : Int} (hx : Computes σ (k + 1) x m v m1)
    (hy : Computes σ k y m1 v' m2) (hr : Combines σ k rest m2 v v' r m') :
    Computes σ (k + 1) (x ++ ([.push .rdi] ++ (y ++ rest))) m r m' := by
  intro s hs
  obtain ⟨s1, h1, hs1, htop⟩ := hx.save hy hs
  obtain ⟨s2, h2⟩ := hr s1 hs1 htop h1.value
  have hrsp : s1.regs .rsp = s.regs .rsp - 8 := by
    rw [h1.rsp, BitVec.sub_eq_add_neg]
  refine ⟨s2, h1.toKeeps.trans h2.toKeeps fun z hz => ?_, h2.rbp.trans h1.rbp, ?_, ?_, h2.value,
    h2.sees⟩
  · rw [hrsp] at hz
    exact below_of_below hz
  · rw [h2.rsp, hrsp, BitVec.sub_add_cancel]
    simp
  · have hsize : Code.size (x ++ ([.push .rdi] ++ (y ++ rest))) =
        Code.size (x ++ ([.push .rdi] ++ y)) + rest.size := by
      simp only [Code.size_append]
      omega
    rw [h2.rip, h1.rip, BitVec.add_assoc, ← BitVec.ofNat_add, hsize]

/-! ## Tests and jumps -/

/-- A run that changes neither registers nor memory. -/
theorem Reaches.of_moved (h : Ready σ k x m s) (hruns : Runs s s') (hregs : s'.regs = s.regs)
    (hmem : s'.mem = s.mem) (hrip : s'.rip = s.rip + .ofNat 64 n) :
    Reaches σ k 0 n (s.regs .rdi).toInt m s s' :=
  ⟨⟨hruns, fun z _ _ => by rw [hmem]⟩, by rw [hregs], by simp [hregs], hrip, by rw [hregs],
    by rw [hmem]; exact h.sees⟩

/-- A distance ahead as a number of bytes. -/
theorem near_eq {disp : Int8} (hd : disp.toInt = n) : Instr.near disp = .ofNat 64 n := by
  change BitVec.ofInt 64 disp.toInt = _
  rw [hd, BitVec.ofInt_natCast]

/-- A jump ahead. -/
theorem Ready.jump {disp : Int8} (h : Ready σ k ([.jump disp] ++ x) m s) (hd : disp.toInt = n) :
    ∃ s', Reaches σ k 0 (Instr.jumpSize + n) (s.regs .rdi).toInt m s s' := by
  have hstep := Machine.step_of_loaded rfl h.loaded
  refine ⟨_, .of_moved h (.single hstep) rfl rfl ?_⟩
  change s.rip + .ofNat 64 Instr.jumpSize + Instr.near disp = _
  rw [near_eq hd, BitVec.add_assoc, ← BitVec.ofNat_add]

/-- The size of a test and a jump behind it. -/
def testSize : Nat :=
  Instr.testRdi.size + Instr.jumpSize

/-- The two conditions that are tested, and when they hold of a value. -/
def Decides (c : Condition) (v : Int) (b : Bool) : Prop :=
  c = .equal ∧ b = decide (v = 0) ∨ c = .notEqual ∧ b = decide (v ≠ 0)

/-- A test of a value decides its condition. -/
theorem Decides.test {c : Condition} {b : Bool} (h : Decides c (s.regs .rdi).toInt b)
    {s' : Machine.State} (hs : s'.flags = some (.ofResult (s.regs .rdi))) : s'.test c = some b := by
  rw [Machine.State.test, hs]
  rcases h with ⟨rfl, rfl⟩ | ⟨rfl, rfl⟩
  · change some _ = _
    rw [Machine.Flags.ofResult, Machine.beq_zero_eq]
  · change some _ = _
    rw [Machine.Flags.ofResult, Machine.beq_zero_eq]
    simp

/-- A test, and a jump ahead if its condition holds. -/
theorem Ready.test {c : Condition} {disp : Int8} {b : Bool}
    (h : Ready σ k ([.testRdi, .jumpIf c disp] ++ x) m s) (hv : (s.regs .rdi).toInt = v)
    (hb : Decides c v b) (hd : disp.toInt = n) :
    ∃ s', Reaches σ k 0 (testSize + if b then n else 0) v m s s' := by
  subst hv
  -- Two steps: the test sets the flags, and the jump reads them.
  let s1 : Machine.State :=
    { s.advance Instr.testRdi.size with flags := some (.ofResult (s.regs .rdi)) }
  have hstep : Machine.step s = some s1 := by
    rw [Machine.step_of_loaded rfl h.loaded]
    simp [Instr.action, Machine.exec, Machine.State.arith, Machine.State.read,
      Machine.State.value, Instr.reading, s1, Width.size]
  have hc : (Instr.jumpIf c disp).isEncodable := by
    rcases hb with ⟨rfl, _⟩ | ⟨rfl, _⟩ <;> rfl
  have hl : Loaded σ.text s1.mem s1.rip (.jumpIf c disp :: x) :=
    Loaded.right (x := [.testRdi]) h.loaded
  have htest : (s1.advance Instr.jumpSize).test c = some b := hb.test rfl
  let s2 := s1.advance Instr.jumpSize
  have hstep' : Machine.step s1 =
      some (if b then { s2 with rip := s2.rip + Instr.near disp } else s2) := by
    rw [Machine.step_of_loaded hc hl]
    change ((s1.advance Instr.jumpSize).test c).map _ = _
    rw [htest]
    rfl
  refine ⟨_, .of_moved h (.tail (.single hstep) hstep') ?_ ?_ ?_⟩
  · cases b <;> rfl
  · cases b <;> rfl
  · have hrip : s2.rip = s.rip + .ofNat 64 testSize := by
      change s.rip + BitVec.ofNat 64 _ + BitVec.ofNat 64 _ = _
      rw [BitVec.add_assoc, ← BitVec.ofNat_add]
      rfl
    cases b with
    | false => exact hrip
    | true =>
      change s2.rip + Instr.near disp = s.rip + BitVec.ofNat 64 (testSize + n)
      rw [hrip, near_eq hd, BitVec.ofNat_add, BitVec.add_assoc]

/-- A test that leads over code. -/
theorem Ready.taken {c : Condition} {disp : Int8}
    (h : Ready σ k ([.testRdi, .jumpIf c disp] ++ (x ++ y)) m s) (hv : (s.regs .rdi).toInt = v)
    (hb : Decides c v true) (hd : disp.toInt = x.size) :
    ∃ s', Reaches σ k 0 (Code.size ([.testRdi, .jumpIf c disp] ++ x)) v m s s' ∧
      Ready σ k y m s' := by
  obtain ⟨s', hs'⟩ := h.test hv hb hd
  have hsize : testSize + x.size = Code.size ([.testRdi, .jumpIf c disp] ++ x) := by
    rw [Code.size_append]
    rfl
  rw [if_pos rfl, hsize] at hs'
  rw [← List.append_assoc] at h
  exact ⟨s', hs', h.next hs'⟩

/-- A test that leads on to the next instruction. -/
theorem Ready.untaken {c : Condition} {disp : Int8}
    (h : Ready σ k ([.testRdi, .jumpIf c disp] ++ x) m s) (hv : (s.regs .rdi).toInt = v)
    (hb : Decides c v false) (hd : disp.toInt = n) :
    ∃ s', Reaches σ k 0 (Code.size [.testRdi, .jumpIf c disp]) v m s s' ∧ Ready σ k x m s' := by
  obtain ⟨s', hs'⟩ := h.test hv hb hd
  exact ⟨s', hs', h.next hs'⟩

/-- A distance over code that ends with a jump. -/
theorem Reach.over {c : Context} (h : Reach c (x.size + Instr.jumpSize)) (disp : Int8) :
    (Int8.ofInt (x.size + Instr.jumpSize)).toInt = Code.size (x ++ [.jump disp]) := by
  rw [h.toInt, Code.size_append]
  rfl

/-- A jump over code. -/
theorem Ready.over {disp : Int8} (h : Ready σ k ([.jump disp] ++ x) m s)
    (hv : (s.regs .rdi).toInt = v) (hd : disp.toInt = x.size) :
    ∃ s', Reaches σ k 0 (Code.size ([.jump disp] ++ x)) v m s s' := by
  subst hv
  obtain ⟨s', hs'⟩ := h.jump hd
  refine ⟨s', ?_⟩
  rw [Code.size_append]
  exact hs'

end Lowering

end DirectC
