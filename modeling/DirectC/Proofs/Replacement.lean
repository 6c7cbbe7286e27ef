/-
# Declarations that take each other's place

What a program holds under a name, told from the history of its environment. A name is what it was
declared as last. Two traces of what it was before remain: a name that is a variable once more is
listed once more (`Env.program_globals`), and a name that is a function once more has the body that
it had before it was a variable (`Env.program_functions`).
-/
import DirectC.Proofs.Sessions
import Mathlib.Data.List.Nodup

namespace DirectC

/-! ## The declarations of one name -/

/-- What a name can be declared as. -/
inductive Declaration.Kind where
  | function
  | global
  deriving DecidableEq

/-- What a declaration makes of a name. A body makes nothing of it. -/
def Declaration.kind? (name : Bytes) : Declaration → Option Kind
  | .function s => if s.name = name then some .function else none
  | .global g => if g.name = name then some .global else none
  | .body _ => none

open Declaration (Kind)

/-- What a name is declared as, one after the other. -/
def kinds (name : Bytes) (ds : List Declaration) : List Kind :=
  ds.filterMap (Declaration.kind? name)

/-- How often a name becomes a variable that is none, when it is one at first or not. -/
def arrivals (isVariable : Bool) : List Kind → Nat
  | [] => 0
  | .function :: ks => arrivals false ks
  | .global :: ks => (if isVariable then 0 else 1) + arrivals true ks

/-- The last body of a name. -/
def lastBody (name : Bytes) (ds : List Declaration) : Option Function :=
  ((ds.filterMap Declaration.body?).filter (·.name == name)).getLast?

/-! ## Becoming a variable -/

theorem kinds_cons (name : Bytes) (d : Declaration) (ds : List Declaration) :
    kinds name (d :: ds) = (d.kind? name).toList ++ kinds name ds := by
  unfold kinds
  rw [List.filterMap_cons]
  cases d.kind? name <;> rfl

/-- The first declaration of a name decides what it is when the next one comes. -/
theorem arrivals_append (isVariable : Bool) (k : Option Kind) (ks : List Kind) :
    arrivals isVariable (k.toList ++ ks) =
      arrivals isVariable k.toList + arrivals ((k.map (· == .global)).getD isVariable) ks := by
  cases k with
  | none => simp [arrivals]
  | some k =>
    cases k with
    | function =>
      change arrivals false ks = 0 + arrivals false ks
      rw [Nat.zero_add]
    | global => simp [arrivals]

theorem arrivals_false_pos {ks : List Kind} : 0 < arrivals false ks ↔ .global ∈ ks := by
  induction ks with
  | nil => simp [arrivals]
  | cons k ks ih =>
    cases k with
    | function => simpa [arrivals] using ih
    | global =>
      refine iff_of_true ?_ List.mem_cons_self
      change 0 < 1 + arrivals true ks
      omega

theorem arrivals_true_pos {ks : List Kind} :
    0 < arrivals true ks ↔ List.Sublist [.function, .global] ks := by
  induction ks with
  | nil => simp [arrivals]
  | cons k ks ih =>
    cases k with
    | function => simp [arrivals, arrivals_false_pos]
    | global => simp [arrivals, ih, List.sublist_cons_iff]

/-- A name that becomes a variable twice is a function in between. -/
theorem one_lt_arrivals {ks : List Kind} :
    1 < arrivals false ks ↔ List.Sublist [.global, .function, .global] ks := by
  induction ks with
  | nil => simp [arrivals]
  | cons k ks ih =>
    cases k with
    | function => simp [arrivals, ih, List.sublist_cons_iff]
    | global =>
      rw [List.cons_sublist_cons, ← arrivals_true_pos]
      simp [arrivals]

namespace Env

variable {env : Env} {ds : List Declaration} {name : Bytes}

/-! ## What a name is -/

/-- What a name is behind one declaration. -/
theorem contains_apply (env : Env) (d : Declaration) (name : Bytes) :
    (d.apply env).globals.contains name =
        ((d.kind? name).map (· == .global)).getD (env.globals.contains name) ∧
      (d.apply env).signatures.contains name =
        ((d.kind? name).map (· == .function)).getD (env.signatures.contains name) := by
  simp only [Table.contains_eq]
  cases d with
  | function s =>
    simp only [Declaration.apply, Env.declare, Table.get?_erase, Table.get?_insert,
      Declaration.kind?]
    split <;> simp
  | global g =>
    simp only [Declaration.apply, Env.declareGlobal, Table.get?_erase, Table.get?_insert,
      Declaration.kind?]
    split <;> simp
  | body f => exact ⟨rfl, rfl⟩

/-- A name is what it was declared as last. -/
theorem contains_declareAll (env : Env) (ds : List Declaration) (name : Bytes) :
    (env.declareAll ds).globals.contains name =
        ((kinds name ds).getLast?.map (· == .global)).getD (env.globals.contains name) ∧
      (env.declareAll ds).signatures.contains name =
        ((kinds name ds).getLast?.map (· == .function)).getD (env.signatures.contains name) := by
  induction ds generalizing env with
  | nil => exact ⟨rfl, rfl⟩
  | cons d ds ih =>
    obtain ⟨hg, hs⟩ := env.contains_apply d name
    have ih := ih (d.apply env)
    rw [hg, hs] at ih
    rw [kinds_cons]
    change ((d.apply env).declareAll ds).globals.contains name = _ ∧
      ((d.apply env).declareAll ds).signatures.contains name = _
    rw [ih.1, ih.2, List.getLast?_append]
    cases (kinds name ds).getLast? with
    | some k => exact ⟨rfl, rfl⟩
    | none => cases d.kind? name <;> exact ⟨rfl, rfl⟩

/-! ## Variables -/

theorem count_globalOrder_apply (env : Env) (d : Declaration) (name : Bytes) :
    (d.apply env).globalOrder.count name =
      env.globalOrder.count name + arrivals (env.globals.contains name) (d.kind? name).toList := by
  cases d with
  | body f => rfl
  | function s =>
    simp only [Declaration.kind?, Declaration.apply, Env.declare]
    split <;> rfl
  | global g =>
    simp only [Declaration.kind?, Declaration.apply, Env.declareGlobal]
    by_cases hname : g.name = name
    · subst hname
      cases env.globals.contains g.name <;> simp [arrivals]
    · cases env.globals.contains g.name <;> simp [arrivals, hname]

/-- A name is listed anew whenever it becomes a variable. -/
theorem count_globalOrder_declareAll (env : Env) (ds : List Declaration) (name : Bytes) :
    (env.declareAll ds).globalOrder.count name =
      env.globalOrder.count name + arrivals (env.globals.contains name) (kinds name ds) := by
  induction ds generalizing env with
  | nil => rfl
  | cons d ds ih =>
    change ((d.apply env).declareAll ds).globalOrder.count name = _
    rw [ih, count_globalOrder_apply, (env.contains_apply d name).1, kinds_cons, arrivals_append,
      Nat.add_assoc]

/-- A program lists the variables of a name as often as the name is listed. -/
theorem filter_filterMap_get? {t : Table GlobalVar} (h : t.All fun name g => g.name = name)
    {g : GlobalVar} (hg : t.get? name = some g) (order : List Bytes) :
    (order.filterMap t.get?).filter (·.name == name) = List.replicate (order.count name) g := by
  induction order with
  | nil => rfl
  | cons n order ih =>
    rw [List.filterMap_cons, List.count_cons]
    by_cases hn : n = name
    · subst hn
      have hname : g.name = n := h n g hg
      simp [hg, hname, ih, List.replicate_succ]
    · have hcount : (n == name) = false := beq_false_of_ne hn
      cases hget : t.get? n with
      | none => simp [ih, hcount]
      | some g' =>
        have hname : g'.name = n := h n g' hget
        simp [ih, hname, hcount]

/-! ## Functions -/

theorem find?_putFunction (f : Function) (fs : List Function) (name : Bytes) :
    (putFunction f fs).find? (·.name == name) =
      if f.name = name then some f else fs.find? (·.name == name) := by
  induction fs with
  | nil => by_cases h : f.name = name <;> simp [putFunction, h]
  | cons g gs ih =>
    by_cases hg : g.name = f.name
    · by_cases h : f.name = name <;> simp [putFunction, hg, h]
    · by_cases h : f.name = name
      · have hg' : g.name ≠ name := fun h' => hg (h'.trans h.symm)
        simp [putFunction, hg', ih, h]
      · simp only [putFunction, beq_iff_eq, if_neg hg, List.find?_cons, ih, if_neg h]

/-- A name finds its function in a list of distinct names. -/
theorem find?_name {fs : List Function} (hd : (fs.map (·.name)).Nodup) {f : Function} :
    fs.find? (·.name == name) = some f ↔ f ∈ fs ∧ f.name = name := by
  refine ⟨fun h => ⟨List.mem_of_find?_eq_some h, by simpa using List.find?_some h⟩, ?_⟩
  rintro ⟨hf, rfl⟩
  cases h : fs.find? (·.name == f.name) with
  | none => exact absurd (beq_self_eq_true f.name) (List.find?_eq_none.mp h f hf)
  | some g =>
    have hname : g.name = f.name := by simpa using List.find?_some h
    rw [List.inj_on_of_nodup_map hd (List.mem_of_find?_eq_some h) hf hname]

/-- The last body of a name takes the place of all earlier ones. -/
theorem find?_functions_declareAll (env : Env) (ds : List Declaration) (name : Bytes) :
    (env.declareAll ds).functions.find? (·.name == name) =
      (lastBody name ds).or (env.functions.find? (·.name == name)) := by
  induction ds generalizing env with
  | nil => rfl
  | cons d ds ih =>
    change ((d.apply env).declareAll ds).functions.find? _ = _
    rw [ih]
    cases d with
    | function s | global g => rfl
    | body f =>
      change (lastBody name ds).or ((putFunction f env.functions).find? _) = _
      rw [find?_putFunction]
      unfold lastBody
      by_cases h : f.name = name
      · simp [Declaration.body?, h, List.getLast?_cons]
      · simp [Declaration.body?, h]

/-! ## Programs -/

/-- **The variables of a program** after any session. Every entry is the variable of its name, and
a name that is a variable has one entry for each time it became one: more than one if and only if
it was a function in between. -/
theorem program_globals (limits : Limits) (ops : List Op) :
    let env := (Env.empty limits).run ops
    (∀ g ∈ env.program.globals, env.globals.get? g.name = some g) ∧
      ∀ name g, env.globals.get? name = some g →
        let ks := kinds name ((Env.empty limits).history ops)
        env.program.globals.filter (·.name == name) = List.replicate (arrivals false ks) g ∧
        0 < arrivals false ks ∧
        (1 < arrivals false ks ↔ List.Sublist [.global, .function, .global] ks) := by
  intro env
  have hnamed := (orderly_run (.empty limits) ops).named
  have hd : env.declarations = (Env.empty limits).declarations.declareAll _ :=
    (Env.empty limits).declarations_run ops
  refine ⟨fun g hg => ?_, fun name g hg => ⟨?_, arrivals_false_pos.mpr ?_, one_lt_arrivals⟩⟩
  · obtain ⟨name, -, hg⟩ := List.mem_filterMap.mp hg
    rw [hnamed name g hg]
    exact hg
  · -- The order of declarations repeats a name for every time it arrived as a variable.
    have hcount := count_globalOrder_declareAll (Env.empty limits).declarations
      ((Env.empty limits).history ops) name
    rw [← hd] at hcount
    rw [program, filter_filterMap_get? hnamed hg]
    congr 1
    exact hcount.trans (Nat.zero_add _)
  · -- A variable that is there was the last thing declared under its name.
    have hc : env.declarations.globals.contains name := Table.contains_iff.mpr ⟨g, hg⟩
    rw [hd, (contains_declareAll _ _ name).1] at hc
    cases hk : (kinds name ((Env.empty limits).history ops)).getLast? with
    | none =>
      rw [hk] at hc
      cases hc
    | some k =>
      rw [hk] at hc
      exact (eq_of_beq hc : k = .global) ▸ List.mem_of_getLast? hk

/-- Two variables, each declared twice. The second one is a function for a while. -/
def shuffled : List Op :=
  [.source "x.c" "int y; int x; int x(); int y;", .declareGlobal ⟨"x", .int, 0⟩]

theorem program_globals_shuffled :
    ∃ x y, ((Env.empty {}).run shuffled).program.globals.filter (·.name == ("x" : Bytes)) = [x, x] ∧
      ((Env.empty {}).run shuffled).program.globals.filter (·.name == ("y" : Bytes)) = [y] := by
  have hread : (((Env.empty {}).run shuffled).globals.get? "x").isSome ∧
      (((Env.empty {}).run shuffled).globals.get? "y").isSome ∧
      arrivals false (kinds "x" ((Env.empty {}).history shuffled)) = 2 ∧
      arrivals false (kinds "y" ((Env.empty {}).history shuffled)) = 1 := by
    decide +kernel
  obtain ⟨hx, hy, hcx, hcy⟩ := hread
  obtain ⟨x, hx⟩ := Option.isSome_iff_exists.mp hx
  obtain ⟨y, hy⟩ := Option.isSome_iff_exists.mp hy
  refine ⟨x, y, ?_, ?_⟩
  · rw [((program_globals {} shuffled).2 _ x hx).1, hcx]
    rfl
  · rw [((program_globals {} shuffled).2 _ y hy).1, hcy]
    rfl

/-- A variable that becomes a function and a variable again is listed twice. -/
theorem variable_listed_twice :
    let env := (Env.empty {}).run [.source "x.c" "int x; int x(); int x;"]
    env.globals.contains "x" ∧ env.program.globals.map (·.name) = ["x", "x"] := by
  decide +kernel

/-- A function is in the program if its name is a function now, with its last body. -/
theorem mem_program_functions (limits : Limits) (ops : List Op) (f : Function) :
    f ∈ ((Env.empty limits).run ops).program.functions ∧ f.name = name ↔
      lastBody name ((Env.empty limits).history ops) = some f ∧
        (kinds name ((Env.empty limits).history ops)).getLast? = some .function := by
  have hd := (Env.empty limits).declarations_run ops
  -- The body that the name finds is its last one.
  have hbody : f ∈ ((Env.empty limits).run ops).functions ∧ f.name = name ↔
      lastBody name ((Env.empty limits).history ops) = some f := by
    rw [← find?_name (orderly_run (.empty limits) ops).distinct]
    change ((Env.empty limits).run ops).declarations.functions.find? _ = _ ↔ _
    rw [hd, find?_functions_declareAll]
    simp [Env.declarations, Env.empty]
  -- The name is a function if it was declared one last.
  have hkind : ((Env.empty limits).run ops).signatures.contains name ↔
      (kinds name ((Env.empty limits).history ops)).getLast? = some .function := by
    change ((Env.empty limits).run ops).declarations.signatures.contains name ↔ _
    rw [hd, (contains_declareAll _ _ name).2]
    cases (kinds name ((Env.empty limits).history ops)).getLast? with
    | none => exact iff_of_false Bool.false_ne_true (Option.some_ne_none _).symm
    | some k => simp
  rw [← hbody, ← hkind, program, List.mem_filter]
  constructor
  · rintro ⟨⟨hf, hs⟩, rfl⟩
    exact ⟨⟨hf, rfl⟩, hs⟩
  · rintro ⟨⟨hf, rfl⟩, hs⟩
    exact ⟨⟨hf, hs⟩, rfl⟩

/-- **The functions of a program** after any session. A name that becomes a variable takes the
place of its function for as long as it is not declared a function again. If it is, the body that it
had before is in the program again. -/
theorem program_functions (limits : Limits) (ops : List Op) {before after : List Declaration}
    {g : GlobalVar} (hsplit : (Env.empty limits).history ops = before ++ .global g :: after)
    (hlast : ∀ f, .body f ∈ after → f.name ≠ g.name) (f : Function) :
    f ∈ ((Env.empty limits).run ops).program.functions ∧ f.name = g.name ↔
      lastBody g.name before = some f ∧ (kinds g.name after).getLast? = some .function := by
  have hbody : lastBody g.name (before ++ .global g :: after) = lastBody g.name before := by
    have hnone : (after.filterMap Declaration.body?).filter (·.name == g.name) = [] := by
      simpa [List.filter_eq_nil_iff, List.mem_filterMap] using hlast
    simp [lastBody, List.filterMap_cons, Declaration.body?, hnone]
  have hkind : (kinds g.name (before ++ .global g :: after)).getLast? =
      some ((kinds g.name after).getLast?.getD .global) := by
    simp [kinds, Declaration.kind?, List.getLast?_append, List.getLast?_cons]
  rw [mem_program_functions, hsplit, hbody, hkind]
  cases (kinds g.name after).getLast? with
  | none => simp
  | some k => simp

/-- A function that returns one. -/
def returnsOne : Function :=
  ⟨"f", [], .int, 4, some [.ret (some (.int 1 17)) 10], [], "f.c", "int f() \x7b return 1; \x7d"⟩

/-- A variable takes the place of a function. -/
def replaced : List Op :=
  [.define returnsOne, .declare ⟨"f", [], .int, 4⟩, .declareGlobal ⟨"f", .int, 4⟩]

theorem program_functions_replaced :
    (Env.empty {}).history replaced =
        [.body returnsOne, .function ⟨"f", [], .int, 4⟩] ++ .global ⟨"f", .int, 4⟩ :: [] ∧
      ¬ ∃ f ∈ ((Env.empty {}).run replaced).program.functions, f.name = "f" := by
  have hsplit : (Env.empty {}).history replaced =
      [.body returnsOne, .function ⟨"f", [], .int, 4⟩] ++ .global ⟨"f", .int, 4⟩ :: [] := rfl
  refine ⟨hsplit, fun ⟨f, hf, hname⟩ => ?_⟩
  have h := (program_functions {} replaced hsplit (by simp) f).mp ⟨hf, hname⟩
  cases h.2

/-- The function is back as soon as its name is declared a function again. -/
theorem replaced_function_returns :
    ((Env.empty {}).run (replaced ++ [.declare ⟨"f", [], .int, 4⟩])).program.functions =
      [returnsOne] :=
  rfl

end Env

end DirectC
