/-
# The library in a program

The library is read first and lowered under the default limits. It asks little of its surroundings:
one of its functions calls a helper, and that has to be there. As long as the helper is a function,
all of the library has code, whatever else a program declares (`library_function`). A program can
take the helper away by a variable of its name.
-/
import DirectC.Proofs.CodeArea
import DirectC.Proofs.Compile
import DirectC.Proofs.Lowering.Inclusion
import DirectC.Proofs.Replacement

namespace DirectC

namespace Lowering

/-! ## Calls of undefined functions -/

/-- The name and the place of the call that a function returns first of all. -/
def firstCall? (f : Function) : Option (Bytes × Int) :=
  match f.body with
  | some (.ret (some (.call name pos _ _)) _ :: _) => some (name, pos)
  | _ => none

/-- A call of a name without a definition is refused before its arguments are looked at. -/
theorem call_undefined {c : Context} {name : Bytes} {pos : Int} {count : Nat} {type : CType}
    {arguments : Lower Code} (hk : count ≤ c.limits.registerArgs.toInt) (hk' : count ≤ 6)
    (hnone : c.symbols.functions.get? name = none) (st : State) :
    call c name pos count type arguments st = .error ⟨.undefinedFunction name, pos⟩ := by
  have hcount : (decide (c.limits.registerArgs.toInt < count) ||
      decide (Register.arguments.length < count)) = false := by
    simpa [Register.arguments] using ⟨hk, hk'⟩
  unfold call
  simp only [hcount, Bool.false_eq_true, if_false, hnone]
  rfl

/-- A function that returns a value without code first of all is refused for the value. -/
theorem body_refused {c : Context} {f : Function} {params : Code} {st : State} {e : Expr} {pos : Int}
    {rest : List Stmt} {complaint : Complaint} (hk : f.params.length ≤ c.limits.registerArgs.toInt)
    (hk' : f.params.length ≤ 6)
    (hparams : storeParams c (f.params.zip Register.arguments) {} = .ok (params, st))
    (hbody : f.body = some (.ret (some e) pos :: rest))
    (hvalue : value c e st = .error complaint) : body c f {} = .error complaint := by
  have hcount : (decide (c.limits.registerArgs.toInt < f.params.length) ||
      decide (Register.arguments.length < f.params.length)) = false := by
    simpa [Register.arguments] using ⟨hk, hk'⟩
  unfold body
  simp only [hcount, Bool.false_eq_true, if_false, hbody, Option.getD_some, statements, statement]
  rw [bind_of_ok hparams]
  exact bind_of_error (bind_of_error (bind_of_error hvalue))

/-- **A function that has code where the name it calls is defined** is refused for that name where
it is not. -/
theorem function_lacks {f : Function} {layout layout' : Layout} {limits : Limits}
    {symbols symbols' : Symbols} {code : Code} {name : Bytes} {pos : Int}
    (h : function f layout limits symbols = .ok code) (hl : layout'.Covers layout)
    (hcall : firstCall? f = some (name, pos)) (hnone : symbols'.functions.get? name = none) :
    function f layout' limits symbols' =
      .error (Complaint.diagnostic ⟨.undefinedFunction name, pos⟩ f.file f.source) := by
  obtain ⟨_, _, hb, -⟩ := function_ok.mp h
  obtain ⟨params, st0, _, _, hk, hk', hp, hs, -⟩ := body_ok.mp hb
  have hp' : storeParams ⟨layout', limits, symbols', f.pos⟩ _ _ = .ok (params, st0) :=
    storeParams_covers hp hl
  unfold firstCall? at hcall
  split at hcall
  · rename_i args type _ rest hbody
    cases hcall
    rw [hbody] at hs
    have hemits : Emits _ (.stmts (.ret (some (.call name pos args type)) _ :: rest)) st0 _ _ :=
      emits_iff.mpr hs
    -- The call has code in the first context, so the number of its arguments is within the limits.
    cases hemits with
    | stmtsCons hret _ =>
      cases hret with
      | retSome hcall =>
        cases hcall with
        | array hplace | load hplace => cases hplace
        | call ht hka hka' _ _ _ =>
          have hv := Want.value_of (.call name pos args type) ht
          have hvalue : value ⟨layout', limits, symbols', f.pos⟩ (.call name pos args type) st0 =
              .error ⟨.undefinedFunction name, pos⟩ := by
            simp only [value, lower, hv]
            exact call_undefined (c := ⟨layout', limits, symbols', f.pos⟩) hka hka' hnone st0
          have hrefused := body_refused (c := ⟨layout', limits, symbols', f.pos⟩) hk hk' hp' hbody
            hvalue
          unfold function StateT.run
          rw [hrefused]
  · cases hcall

end Lowering

namespace Env

/-! ## Functions whose name has become a variable -/

/-- A name that is no function any more was declared a variable last. -/
theorem getLast?_kinds_of_lost {env : Env} {ds : List Declaration} {name : Bytes}
    (hbefore : env.signatures.contains name = true)
    (hafter : (env.declareAll ds).signatures.contains name = false) :
    (kinds name ds).getLast? = some .global := by
  rw [(contains_declareAll env ds name).2] at hafter
  cases hk : (kinds name ds).getLast? with
  | none =>
    rw [hk] at hafter
    exact absurd (hbefore.symm.trans hafter) (by simp)
  | some k =>
    rw [hk] at hafter
    cases k with
    | function => cases hafter
    | global => rfl

/-- A function that is missing from a program has been replaced by a variable. -/
theorem exists_global_of_missing {env env' : Env} {ds : List Declaration} {name : Bytes}
    (henv : env.Orderly) (hd : env'.declarations = env.declarations.declareAll ds)
    (hsignature : env.signatures.contains name = true)
    (hbody : (env.functions.find? (·.name == name)).isSome = true)
    (hmissing : name ∉ env'.program.functions.map (·.name)) :
    ∃ g ∈ env'.program.globals, g.name = name := by
  have hstart : env.declarations.Orderly := ⟨henv.named, henv.apart, henv.distinct⟩
  have hend : env'.declarations.Orderly := hd ▸ hstart.declareAll ds
  -- The body is still there, so it is the signature that is missing.
  have hnone : env'.declarations.signatures.contains name = false := by
    rw [Bool.eq_false_iff]
    intro hcontains
    have hfind : (env'.declarations.functions.find? (·.name == name)).isSome = true := by
      rw [hd, find?_functions_declareAll, Option.isSome_or, Bool.or_eq_true]
      exact .inr hbody
    obtain ⟨f, hf⟩ := Option.isSome_iff_exists.mp hfind
    obtain ⟨hmem, rfl⟩ := (find?_name hend.distinct).mp hf
    exact hmissing (List.mem_map_of_mem (List.mem_filter.mpr ⟨hmem, hcontains⟩))
  have hfirst : env.declarations.signatures.contains name = true := hsignature
  have hkind := getLast?_kinds_of_lost hfirst (hd ▸ hnone)
  have hglobal : env'.declarations.globals.contains name = true := by
    rw [hd, (contains_declareAll _ _ name).1, hkind]
    rfl
  obtain ⟨g, hg⟩ := Table.contains_iff.mp hglobal
  -- It was no variable at first, so it has been listed since.
  have hlisted : name ∈ env'.declarations.globalOrder := by
    have hbefore : env.declarations.globals.contains name = false := by
      obtain ⟨_, hs⟩ := Table.contains_iff.mp hsignature
      rcases henv.apart name with h | h
      · exact nomatch hs.symm.trans h
      · rw [Table.contains_eq]
        exact congrArg Option.isSome h
    have harrives := arrivals_false_pos.mpr (List.mem_of_getLast? hkind)
    rw [← List.count_pos_iff, hd, count_globalOrder_declareAll, hbefore]
    omega
  exact ⟨g, List.mem_filterMap.mpr ⟨name, hlisted, hg⟩, hend.named name g hg⟩

end Env

namespace Compile

open Lowering (firstCall?)

/-! ## What the library is -/

/-- The function that the library calls. -/
def helper : Bytes := "__atoi_from"

/-- The addresses that the library asks for. -/
def librarySymbols : Symbols where
  functions := CodeArea.zeros [helper]

theorem library_reads : preludeEnv.1 = .ok () := by
  have hread : preludeEnv.1.toOption.any (fun _ => true) = true := by decide +kernel
  obtain ⟨_, h, -⟩ := exists_ok_of_any hread
  exact h

/-- The library defines no structs and no variables. -/
theorem library_plain :
    preludeEnv.2.layout.structs.entries = [] ∧ preludeEnv.2.globals.entries = [] ∧
      preludeEnv.2.globalOrder = [] := by
  decide +kernel

theorem library_structs (name : Bytes) : preludeEnv.2.layout.struct? name = none := by
  unfold Layout.struct? Table.get?
  rw [library_plain.1]
  rfl

theorem library_globals (name : Bytes) : preludeEnv.2.globals.get? name = none := by
  unfold Table.get?
  rw [library_plain.2.1]
  rfl

theorem library_helper :
    (preludeEnv.2.functions.find? (·.name == helper)).isSome = true ∧
      preludeEnv.2.signatures.contains helper = true := by
  decide +kernel

/-- The functions of the library have code next to the helper, and all but the helper call it. -/
theorem library_functions : ∀ f ∈ preludeEnv.2.functions,
    f.file = Prelude.fileName ∧ f.source = Prelude.source ∧ f.name ∉ Prelude.reserved ∧
      (Lowering.function f {} {} librarySymbols).toOption.any (fun _ => true) = true ∧
      (f.name = helper ∨ firstCall? f = some (helper, 153)) := by
  decide +kernel

theorem library_orderly : preludeEnv.2.Orderly where
  named name g h := by
    rw [library_globals] at h
    cases h
  apart name := .inr (library_globals name)
  distinct := (formed_preludeEnv (Int.le_refl 255)).distinct

/-! ## The library in a program -/

/-- What is reported when the helper is missing. -/
def helperMissing : Diagnostic :=
  Lowering.Complaint.diagnostic ⟨.undefinedFunction helper, 153⟩ Prelude.fileName Prelude.source

variable {file source : Bytes} {settings : Settings} {p : Program}

/-- With the helper in place, a program has all that the library asks for. -/
theorem covers_library (hhelper : helper ∈ routines.map (·.name) ++ p.functions.map (·.name))
    (pos : Int) :
    Lowering.Context.Covers ⟨p.layout.withLimits {}, {}, CodeArea.provisional p routines, pos⟩
      ⟨{}, {}, librarySymbols, pos⟩ := by
  refine ⟨Layout.covers_of_no_structs rfl fun _ => rfl, Int64.le_refl _, Int64.le_refl _,
    fun {name a} ha => ?_, fun {name a} ha => ?_, fun {index a} ha => ?_⟩
  · rw [librarySymbols, CodeArea.get?_zeros] at ha
    rw [CodeArea.provisional, CodeArea.get?_zeros]
    split at ha
    · rename_i hname
      rw [List.mem_singleton.mp hname, if_pos hhelper]
      exact ha
    · cases ha
  · cases ha
  · simp [librarySymbols, Lowering.stringAt?] at ha

/-- **The functions of the library have code** in every program, unless the helper is missing. -/
theorem library_function {f : Function} {d : Diagnostic} (hlib : f ∈ preludeEnv.2.functions)
    (hf : f ∈ p.functions)
    (h : CodeArea.functionPiece p.layout (optionsOf settings) (CodeArea.provisional p routines) f =
      .error d) :
    d = helperMissing ∧ helper ∉ p.functions.map (·.name) := by
  obtain ⟨hfile, hsource, -, hcode, hcall⟩ := library_functions f hlib
  have hrules : CodeArea.rulesFor p.layout (optionsOf settings) f =
      (p.layout.withLimits {}, {}) := by
    simp [CodeArea.rulesFor, optionsOf, hfile, Table.get?_insert]
  rw [CodeArea.functionPiece_eq, hrules] at h
  have hlayout : (p.layout.withLimits {}).Covers {} :=
    Layout.covers_of_no_structs rfl fun _ => rfl
  obtain ⟨code, h0, -⟩ := exists_ok_of_any hcode
  by_cases hhelper : helper ∈ routines.map (·.name) ++ p.functions.map (·.name)
  · rw [Lowering.function_covers h0 (covers_library hhelper f.pos)] at h
    cases h
  · have hmissing : helper ∉ p.functions.map (·.name) :=
      fun hmem => hhelper (List.mem_append_right _ hmem)
    have hcall := hcall.resolve_left fun hname => hmissing (hname ▸ List.mem_map_of_mem hf)
    have hnone : (CodeArea.provisional p routines).functions.get? helper = none := by
      rw [CodeArea.provisional, CodeArea.get?_zeros, if_neg hhelper]
    rw [Lowering.function_lacks h0 hlayout hcall hnone, hfile, hsource] at h
    cases h
    exact ⟨rfl, hmissing⟩

end Compile

end DirectC
