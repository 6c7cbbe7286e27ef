/-
# Slots in the code of a function

Lowering asks for the slots of variables as it meets them (`Function.asks`), and its code names a
slot by the offset that it got. So the code of a function uses offsets of its own frame only, whose
size the function begins with. As long as the slots take fewer than 2^31 - 16 bytes, each offset is
the number of bytes taken up to its slot, below the frame pointer, and the size covers all slots
(`function_frame`).
-/
import DirectC.Proofs.Lowering.InstructionStream
import DirectC.Proofs.Slots

namespace DirectC

/-! ## What asks for slots -/

mutual

/-- The local variables of an expression, in the order in which they ask for their slots. -/
def Expr.asks : Expr → List (Int × CType)
  | .ident _ _ (.stack id) type => [(id, type)]
  | .binary _ _ left right _ => left.asks ++ right.asks
  | .unary _ _ operand _ => operand.asks
  | .call _ _ args _ => Expr.argumentsAsk args
  | .decay inner _ => inner.asks
  | _ => []

/-- The last argument comes first. -/
def Expr.argumentsAsk : List Expr → List (Int × CType)
  | [] => []
  | arg :: rest => Expr.argumentsAsk rest ++ arg.asks

end

mutual

/-- The local variables of a statement, in the order in which they ask for their slots. -/
def Stmt.asks : Stmt → List (Int × CType)
  | .eval e => e.asks
  | .exit status _ => status.asks
  | .ret (some e) _ => e.asks
  | .ifThen cond yes => cond.asks ++ yes.asks
  | .ifElse cond yes no => cond.asks ++ yes.asks ++ no.asks
  | .loop cond body => cond.asks ++ body.asks
  | .block items => Stmt.listAsks items
  | _ => []

/-- The same for statements one after the other. -/
def Stmt.listAsks : List Stmt → List (Int × CType)
  | [] => []
  | s :: rest => s.asks ++ Stmt.listAsks rest

end

namespace Function

/-- The variables of a function, in the order in which they ask for their slots: the parameters that
come in registers are first. -/
def asks (f : Function) : List (Int × CType) :=
  (f.params.zip Register.arguments).map (fun p => (p.1.id, p.1.type)) ++
    Stmt.listAsks (f.body.getD [])

/-- The slots that a function gives to its variables. -/
def slots (f : Function) (l : Layout) : List Slot :=
  Frame.grants l {} f.asks

end Function

/-! ## Offsets of frames and of code -/

/-- The offset from the frame pointer that an instruction has for an operand. -/
def Instr.slotOffset? : Instr → Option Int32
  | .leaRdi offset => some offset
  | .storeSlot _ offset _ => some offset
  | _ => none

/-- The offsets from the frame pointer in a piece of code. -/
def Code.slotOffsets (code : Code) : List Int32 :=
  code.filterMap Instr.slotOffset?

theorem Code.slotOffsets_append (a b : Code) :
    Code.slotOffsets (a ++ b) = Code.slotOffsets a ++ Code.slotOffsets b :=
  List.filterMap_append

namespace Frame

variable {l : Layout} {f g : Frame} {id : Int} {type : CType} {offset : Int32}

/-- The offsets that a frame has given away. -/
def offsets (f : Frame) : List Int32 :=
  f.slots.map (·.2)

/-- A slot that is given is in the frame. -/
theorem mem_offsets_of_slot (h : f.slot l id type = .ok (offset, g)) : offset ∈ g.offsets := by
  rcases slot_ok.mp h with ⟨hsome, rfl⟩ | ⟨-, _, _, -, -, -, rfl⟩
  · obtain ⟨s, hs, rfl⟩ := Option.map_eq_some_iff.mp hsome
    exact List.mem_map_of_mem (List.mem_of_find?_eq_some hs)
  · simp [offsets]

/-- What was given away stays given away. -/
theorem offsets_ask (l : Layout) (f : Frame) (call : Int × CType) :
    f.offsets ⊆ (f.ask l call).offsets := by
  rcases ask_cases l f call with ⟨_, _, _, hask, _⟩ | ⟨_, _, hnone, hs, hask, _⟩ | ⟨_, _, hask, _⟩
  · rw [hask]
    exact List.Subset.refl _
  · rw [hask]
    rcases slot_ok.mp hs with ⟨hsome, -⟩ | ⟨-, _, _, -, -, -, rfl⟩
    · exact nomatch hnone.symm.trans hsome
    · simp [offsets]
  · rw [hask]
    exact List.Subset.refl _

/-- Slots that are in the frame stay there. -/
theorem offsets_run (l : Layout) (f : Frame) (calls : List (Int × CType)) :
    f.offsets ⊆ (f.run l calls).offsets := by
  induction calls generalizing f with
  | nil => exact List.Subset.refl _
  | cons call calls ih => exact List.Subset.trans (offsets_ask l f call) (ih _)

end Frame

/-! ## Code and the frame behind it -/

namespace Lowering

/-- What a job asks for. -/
def Job.asks : Job → List (Int × CType)
  | .expr _ e => e.asks
  | .args es => Expr.argumentsAsk es
  | .stmt s => s.asks
  | .stmts ss => Stmt.listAsks ss

/-- **Code that uses slots of the frame behind it**, which has come about by calls for slots. -/
structure Slotted (l : Layout) (f : Frame) (calls : List (Int × CType)) (code : Code) (g : Frame) :
    Prop where
  run : g = f.run l calls
  offsets : code.slotOffsets ⊆ g.offsets

namespace Slotted

variable {l : Layout} {f g h : Frame} {before after : List (Int × CType)} {a b : Code}

/-- Code without slots, and no calls. -/
theorem refl (f : Frame) (ha : Code.slotOffsets a = []) : Slotted l f [] a f :=
  ⟨rfl, by simp [ha]⟩

/-- One part of the code may follow another. -/
theorem append (ha : Slotted l f before a g) (hb : Slotted l g after b h) :
    Slotted l f (before ++ after) (a ++ b) h := by
  obtain ⟨rfl, ha⟩ := ha
  obtain ⟨rfl, hb⟩ := hb
  refine ⟨(Frame.run_append ..).symm, ?_⟩
  rw [Code.slotOffsets_append]
  exact List.append_subset.mpr ⟨List.Subset.trans ha (Frame.offsets_run ..), hb⟩

/-- Code without slots behind it. -/
theorem followed (ha : Slotted l f before a g) (hb : Code.slotOffsets b = []) :
    Slotted l f before (a ++ b) g := by
  refine ⟨ha.run, ?_⟩
  rw [Code.slotOffsets_append, hb, List.append_nil]
  exact ha.offsets

/-- Other code with the same slots. -/
theorem congr (ha : Slotted l f before a g) (h : Code.slotOffsets b = Code.slotOffsets a) :
    Slotted l f before b g :=
  ⟨ha.run, h ▸ ha.offsets⟩

/-- A call for a slot, and code that uses it. -/
theorem slot {id : Int} {type : CType} {offset : Int32}
    (hs : f.slot l id type = .ok (offset, g)) (ha : Code.slotOffsets a = [offset]) :
    Slotted l f [(id, type)] a g := by
  constructor
  · exact (Frame.ask_of_slot hs).symm
  · rw [ha]
    simpa using Frame.mem_offsets_of_slot hs

end Slotted

/-! ## Constructs -/

section Constructs

variable {c : Context} {op : BinaryOp} {type : CType} {w : Width} {l r n : Code}

theorem slotOffsets_cutTo (type : CType) : Code.slotOffsets (cutTo type) = [] := by
  cases type <;> rfl

/-- An assignment touches the slots that its two sides do. -/
theorem slotOffsets_assignCode : Code.slotOffsets (assignCode op type w l r) =
    Code.slotOffsets (l ++ r) := by
  have hcut := slotOffsets_cutTo type
  have hupdate : Code.slotOffsets (if op == .assign then [] else update op w) = [] := by
    unfold update
    split
    · rfl
    · split <;> rfl
  simp only [assignCode, List.flatten_cons, List.flatten_nil, Code.slotOffsets_append, hcut,
    hupdate]
  simp [Code.slotOffsets, List.filterMap_cons, Instr.slotOffset?]

/-- Arithmetic touches the slots that its operands do. -/
theorem slotOffsets_arithmeticCode {o : Operation} (ho : operation? op = some o) :
    Code.slotOffsets (arithmeticCode o type l r) = Code.slotOffsets (l ++ r) := by
  have hcode : Code.slotOffsets o.code = [] := by cases op <;> cases ho <;> rfl
  have hcut : Code.slotOffsets (if o.cut then cutTo type else []) = [] := by
    split
    · exact slotOffsets_cutTo type
    · rfl
  simp only [arithmeticCode, List.flatten_cons, List.flatten_nil, Code.slotOffsets_append, hcode,
    hcut]
  simp [Code.slotOffsets, List.filterMap_cons, Instr.slotOffset?]

/-- A logical operator touches the slots that its two sides do. -/
theorem slotOffsets_logicalCode : Code.slotOffsets (logicalCode op l r) =
    Code.slotOffsets (l ++ r) := by
  have hshort : Code.slotOffsets (shortcut op) = [] := by
    unfold shortcut
    split <;> rfl
  simp only [logicalCode, List.flatten_cons, List.flatten_nil, Code.slotOffsets_append, hshort]
  simp [Code.slotOffsets, List.filterMap_cons, Instr.slotOffset?, truth]

/-- A call touches the slots that its arguments do. -/
theorem slotOffsets_callCode {depth count : Nat} {target : UInt32} (hr : Takes c type r) :
    Code.slotOffsets (callCode depth target count l r) = Code.slotOffsets l := by
  have hresult : Code.slotOffsets r = [] := by
    unfold Takes at hr
    split at hr
    · rw [hr]
      rfl
    · obtain ⟨n, -, rfl⟩ := hr
      unfold Instr.takeResult
      split
      · rfl
      · split <;> rfl
  have hpops : Code.slotOffsets ((Register.arguments.take count).map .pop) = [] := by
    rw [Code.slotOffsets, List.filterMap_map]
    exact List.filterMap_eq_nil_iff.mpr fun _ _ => rfl
  have hdown : Code.slotOffsets (if depth % 2 == 1 then [.subRsp 8] else []) = [] := by
    split <;> rfl
  have hup : Code.slotOffsets (if depth % 2 == 1 then [.addRsp 8] else []) = [] := by
    split <;> rfl
  simp only [callCode, List.flatten_cons, List.flatten_nil, Code.slotOffsets_append, hresult, hpops,
    hdown, hup]
  simp [Code.slotOffsets, List.filterMap_cons, Instr.slotOffset?]

theorem slotOffsets_ifThenCode : Code.slotOffsets (ifThenCode l r) = Code.slotOffsets (l ++ r) := by
  simp [ifThenCode, Code.slotOffsets, List.filterMap_cons, Instr.slotOffset?]

theorem slotOffsets_ifElseCode :
    Code.slotOffsets (ifElseCode l r n) = Code.slotOffsets (l ++ r ++ n) := by
  simp [ifElseCode, Code.slotOffsets, List.filterMap_cons, Instr.slotOffset?]

theorem slotOffsets_loopCode : Code.slotOffsets (loopCode l r) = Code.slotOffsets (l ++ r) := by
  simp [loopCode, Code.slotOffsets, List.filterMap_cons, Instr.slotOffset?]

end Constructs

/-! ## Functions -/

/-- Calls leave the frame to their arguments. -/
theorem State.frame_padded (st : State) : st.padded.frame = st.frame := by
  unfold padded
  split <;> rfl

theorem State.frame_afterCall (st st1 : State) (count : Nat) :
    (st.afterCall st1 count).frame = st1.frame := by
  unfold afterCall
  split <;> rfl

variable {c : Context} {job : Job} {st st' : State} {code : Code}

/-- **Lowered code uses slots of the frame behind it.** -/
theorem Emits.slotted (h : Emits c job st code st') :
    Slotted c.layout st.frame job.asks code st'.frame := by
  induction h with
  | num _ | globalAddress _ | str _ | retNone | argsNil | stmtsNil => exact .refl _ rfl
  | localAddress hs => exact .slot hs rfl
  | derefAddress _ ih | array _ _ _ ih | decay _ _ ih | addr _ _ ih | eval _ ih | block _ ih =>
    exact ih
  | load _ _ _ _ _ ih | retSome _ ih | exit _ ih => exact ih.followed rfl
  | assign _ _ _ _ _ _ ihl ihr => exact (ihl.append ihr).congr slotOffsets_assignCode
  | arithmetic ho _ _ _ ihl ihr => exact (ihl.append ihr).congr (slotOffsets_arithmeticCode ho)
  | logical _ _ _ _ _ _ ihl ihr => exact (ihl.append ihr).congr slotOffsets_logicalCode
  | call _ _ _ _ _ hr ih =>
    -- Padding and popping move the stack pointer only.
    rw [State.frame_padded] at ih
    rw [State.frame_afterCall]
    exact ih.congr (slotOffsets_callCode hr)
  | argsCons _ _ ihr iha =>
    refine (ihr.append iha).congr ?_
    simp [Code.slotOffsets, List.filterMap_cons, Instr.slotOffset?]
  | ifThen _ _ _ ihc ihy => exact (ihc.append ihy).congr slotOffsets_ifThenCode
  | ifElse _ _ _ _ _ ihc ihy ihn =>
    exact ((ihc.append ihy).append ihn).congr slotOffsets_ifElseCode
  | loop _ _ _ _ ihc ihb => exact (ihc.append ihb).congr slotOffsets_loopCode
  | stmtsCons _ _ ihs ihr => exact ihs.append ihr

/-- Each parameter is stored in its own slot. -/
theorem storeParams_slotted {ps : List (Param × Register)}
    (h : storeParams c ps st = .ok (code, st')) :
    Slotted c.layout st.frame (ps.map fun p => (p.1.id, p.1.type)) code st'.frame := by
  induction ps generalizing st code with
  | nil =>
    simp only [storeParams, pure_ok] at h
    cases h
    exact .refl _ rfl
  | cons p ps ih =>
    obtain ⟨offset, frame, n, w, later, st2, hs, _, _, hl, heq⟩ := storeParams_cons_ok.mp h
    cases heq
    exact .append (a := [_]) (.slot hs rfl) (ih hl)

end Lowering

/-! ## Offsets as numbers -/

/-- **Each slot begins where the bytes taken so far end**, counted down from the frame pointer and
with its own bytes among them. -/
def Slot.Descend (l : Layout) (slots : List Slot) : Prop :=
  ∀ before s after, slots = before ++ s :: after →
    s.offset.toInt = -l.demand ((before ++ [s]).map Slot.type)

namespace Frame

variable {l : Layout} {f : Frame} {slots : List Slot} {call : Int × CType}
  {calls : List (Int × CType)}

/-- A new slot lies below all others, as long as the frame does not wrap around. -/
theorem Carries.descend_ask (hl : Definable l.structs) (h : f.Carries l slots)
    (hd : Slot.Descend l slots)
    (hroom : l.demand ((slots ++ f.grant l call).map Slot.type) < 2 ^ 31 - 16) :
    Slot.Descend l (slots ++ f.grant l call) := by
  rcases ask_cases l f call with ⟨_, _, _, _, hgrant⟩ | ⟨offset, g, hnone, hs, _, hgrant⟩ |
    ⟨_, _, _, hgrant⟩
  · rwa [hgrant, List.append_nil]
  · rw [hgrant, List.map_append] at hroom
    obtain ⟨-, hused, hoffset, -⟩ := h.slot_exact hl hroom hnone hs
    rw [hgrant]
    intro before s after heq
    -- The slot is the new one, or it was there before.
    rcases List.eq_nil_or_concat after with rfl | ⟨after, last, rfl⟩
    · obtain ⟨rfl, hnew⟩ := List.append_inj' heq rfl
      cases hnew
      rw [hoffset, hused, List.map_append]
      rfl
    · rw [List.concat_eq_append, ← List.cons_append, ← List.append_assoc] at heq
      exact hd before s after (List.append_inj' heq rfl).1
  · rwa [hgrant, List.append_nil]

/-- All new slots lie below those before them, as long as the frame does not wrap around. -/
theorem Carries.descend_run (hl : Definable l.structs) (h : f.Carries l slots)
    (hd : Slot.Descend l slots)
    (hroom : l.demand ((slots ++ f.grants l calls).map Slot.type) < 2 ^ 31 - 16) :
    Slot.Descend l (slots ++ f.grants l calls) := by
  induction calls generalizing f slots with
  | nil =>
    rw [grants, List.append_nil]
    exact hd
  | cons call calls ih =>
    rw [grants, ← List.append_assoc] at hroom ⊢
    have hfirst : l.demand ((slots ++ f.grant l call).map Slot.type) < 2 ^ 31 - 16 := by
      rw [List.map_append] at hroom
      exact Int.lt_of_le_of_lt (hl.demand_le _ _) hroom
    exact ih (h.ask hl hfirst) (h.descend_ask hl hd hfirst) hroom

end Frame

namespace Lowering

/-- **The frame of a function in numbers**: the code begins with the size of the frame, which covers
all slots, the code uses no other slots, and their offsets are the bytes taken so far, below the
frame pointer. -/
structure Framed (l : Layout) (slots : List Slot) (code : Code) : Prop where
  prologue : ∃ size rest, code = Instr.enter size ++ rest ∧
    l.demand (slots.map Slot.type) ≤ size.toInt ∧ ∀ s ∈ slots, s.Lies l size.toInt
  used : ∀ offset ∈ code.slotOffsets, ∃ s ∈ slots, s.offset = offset
  descend : Slot.Descend l slots
  below : ∀ s ∈ slots, s.offset.toInt < 0

/-- **Functions have frames in numbers**, as long as their slots are small. -/
theorem function_frame {f : Function} {l : Layout} {limits : Limits} {symbols : Symbols}
    {code : Code} (hl : Definable l.structs) (h : function f l limits symbols = .ok code)
    (hroom : l.demand ((f.slots l).map Slot.type) < 2 ^ 31 - 16) : Framed l (f.slots l) code := by
  obtain ⟨params, body, st0, st1, hparams, hbody, rfl⟩ := function_parts rfl h
  obtain ⟨hrun, hoffsets⟩ := (storeParams_slotted hparams).append hbody.slotted
  -- The frame is the one that the slots of the function are asked for in, in this order.
  have hcarries : st1.frame.Carries l (f.slots l) := by
    rw [hrun]
    exact (Frame.Carries.start l).run hl hroom
  have hlies (s : Slot) (hs : s ∈ f.slots l) : s.Lies l st1.frame.size.toInt :=
    (hcarries.lies s hs).mono hcarries.used_le_size
  constructor
  · refine ⟨st1.frame.size, params ++ (body ++ Instr.returnZero), by simp, ?_, hlies⟩
    rw [← hcarries.used]
    exact hcarries.used_le_size
  · intro offset hmem
    have hframe : offset ∈ st1.frame.offsets := by
      apply hoffsets
      simpa [Code.slotOffsets, List.filterMap_cons, Instr.slotOffset?, Instr.enter,
        Instr.returnZero] using hmem
    rw [Frame.offsets, hcarries.held, List.map_map] at hframe
    exact List.mem_map.mp hframe
  · have hstart : Slot.Descend l [] := by
      intro before s after heq
      simp at heq
    exact (Frame.Carries.start l).descend_run hl hstart hroom
  · intro s hs
    have hfirst : s.Holds l s.offset.toInt := ⟨Int.le_refl _, by unfold Slot.width; omega⟩
    exact ((hlies s hs).within _ hfirst).2

end Lowering

end DirectC
