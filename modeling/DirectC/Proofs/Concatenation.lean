/-
# Files in sequence

Reading files one after the other is reading them as one file, with a newline between them
(`Env.readSource_append`). The tokens of the whole are the tokens of the parts
(`Token.scan_append`). The items of the first part are read from the longer text as they are from
the shorter one (`Grammar.items_goes`), and leave the reader where the second part begins. From
there on the two readers have the same tokens before them, at other positions, and positions do not
matter (`Grammar.items_erases`).
-/
import DirectC.Proofs.Grammar.Erasure
import DirectC.Proofs.Grammar.Extension
import DirectC.Proofs.Spelling
import DirectC.Proofs.Termination

namespace DirectC

namespace Grammar

/-! ## States without positions -/

namespace Reading

variable {s t : Reading} {ts : List Token}

/-- A state without positions. -/
def bare (s : Reading) : Reading where
  current := s.current.bare
  ahead := s.ahead.map Token.bare
  env := s.env.bare
  scope := s.scope.bare

/-- A state and the one without positions belong together. -/
theorem bares_bare (s : Reading) {strict : Bool} : s.Bares strict s.bare :=
  ⟨rfl, rfl, rfl, fun _ => rfl⟩

@[simp] theorem text_bare (s : Reading) : s.bare.text = s.text.map Token.bare := rfl

@[simp] theorem left_bare (s : Reading) : s.bare.left = s.left :=
  List.length_map _

theorem length_text (s : Reading) : s.text.length = s.left + 1 := rfl

/-- The last token stays the end of the file. -/
theorem Ended.bare (h : s.Ended) : s.bare.Ended := by
  unfold Ended
  simp only [text_bare, List.getLast_map, Token.kind_bare]
  exact h

theorem scope_start (source : Bytes) (env : Env) : (start source env).scope = {} := by
  unfold start
  split <;> rfl

/-- A state at the end of file has no tokens ahead. -/
theorem ahead_eq_nil {source : Bytes} {env : Env} (h : t.text <:+ (start source env).bare.text)
    (hend : t.current.kind = .endOfFile) : t.ahead = [] := by
  obtain ⟨us, hus⟩ := h
  rw [text_bare, start_text] at hus
  have hspells := Token.scan_spells source
  rw [← hus] at hspells
  exact hspells.eq_nil_of_end hend

/-- Two texts with a newline between them are read from the tokens of one and then the other. -/
theorem start_append {first second : Bytes} {env : Env}
    (h : ∀ ts t u, (Token.scan first).map Token.bare = ts ++ [t, u] → t.kind ≠ .illegal) :
    (start (first ++ 10 :: second) env).bare =
      (start first env).bare.followed ((Token.scan second).map Token.bare) := by
  refine eq_of_text ?_ ?_ ?_ rfl
  · rw [text_followed (Token.scan_spells second).ne_nil, text_bare, text_bare, start_text,
      start_text]
    exact Token.scan_append h
  · change (start (first ++ 10 :: second) env).env.bare = (start first env).env.bare
    rw [start_env, start_env]
  · change (start (first ++ 10 :: second) env).scope.bare = (start first env).scope.bare
    rw [scope_start, scope_start]

end Reading

/-! ## Items without positions -/

variable {s t u : Reading} {n : Nat}

/-- **Items can be read without positions.** -/
theorem items_bare {file source : Bytes} (h : items file source n s = .ok () t) :
    ∃ u, t.Bares true u ∧ items [] [] n s.bare = .ok () u := by
  have hecho : Echoes true (items file source n s) (items [] [] n s.bare) :=
    items_erases s.bares_bare
  rw [h] at hecho
  generalize items [] [] n s.bare = r at hecho
  cases hecho with
  | ok ht => exact ⟨_, ht, rfl⟩

/-- A file that is read to its end does not break off inside a comment. -/
theorem items_end {first : Bytes} {env : Env}
    (h : items [] [] n (Reading.start first env).bare = .ok () u) :
    u.ahead = [] ∧
      ∀ ts t v, (Token.scan first).map Token.bare = ts ++ [t, v] → t.kind ≠ .illegal := by
  have hended := (Reading.start_ended first env).bare
  obtain ⟨hend, htook, -⟩ := items_goes (List.cons_ne_nil u.current []) hended (Nat.le_refl n) h
  have htext : (Reading.start first env).bare.text = (Token.scan first).map Token.bare := by
    rw [Reading.text_bare, Reading.start_text]
  rcases htook with rfl | htook
  · have hnil := Reading.ahead_eq_nil List.suffix_rfl hend
    refine ⟨hnil, fun ts t v hts => ?_⟩
    have hlength := congrArg List.length (htext.trans hts)
    simp [Reading.text, hnil] at hlength
  · have hnil := Reading.ahead_eq_nil htook.suffix hend
    refine ⟨hnil, fun ts t v hts => ?_⟩
    obtain ⟨us, last, hus, hlast⟩ := htook
    have hlasts : ts ++ [t, v] = us ++ [last, u.current] := by
      rw [← hts, ← htext, hus, Reading.text, hnil]
    have htail := (List.append_inj' hlasts rfl).2
    rwa [(List.cons.inj htail).1]

/-- The state in which a second file begins, with what the first one has left. -/
theorem start_bares {second : Bytes} (h : t.Bares true u) (hnil : u.ahead = []) :
    (Reading.start second t.env).Bares false
      (u.followed ((Token.scan second).map Token.bare)) := by
  have htext : (u.followed ((Token.scan second).map Token.bare)).text =
      (Reading.start second t.env).bare.text := by
    rw [Reading.text_followed (Token.scan_spells second).ne_nil, Reading.text, hnil,
      Reading.text_bare, Reading.start_text]
    rfl
  obtain ⟨hcurrent, hahead⟩ := List.cons.inj htext
  refine ⟨hcurrent, hahead, ?_, fun h => by cases h⟩
  rw [start_env]
  exact h.env

/-- A larger bound makes no difference where the smaller one lasts. -/
theorem items_eq_of_le {file source : Bytes} {m : Nat} (h : n ≤ m) (hs : s.Ended)
    (hn : 2 * s.left + 5 < n) : items file source m s = items file source n s := by
  have hdeepens : Deepens (items file source n) (items file source m) s := items_deepens hs h
  cases hrun : items file source n s with
  | ok a t => exact hdeepens.ok a t hrun
  | error c t => exact hdeepens.error c t hrun (items_lasts hn s hs (Nat.le_refl _) c t hrun)

end Grammar

/-! ## Two files -/

namespace Grammar

/-- Without positions, the items of two files are read like those of the second one, once the first
one is read to its end. -/
theorem items_append {first second : Bytes} {env env' : Env} {u : Reading}
    (h : items [] [] (Reading.start first env).budget (Reading.start first env).bare = .ok () u)
    (hu : (Reading.start second env').Bares false
      (u.followed ((Token.scan second).map Token.bare))) :
    items [] [] (Reading.start (first ++ 10 :: second) env).budget
        (Reading.start (first ++ 10 :: second) env).bare =
      items [] [] (Reading.start second env').budget
        (u.followed ((Token.scan second).map Token.bare)) := by
  let tokens := (Token.scan second).map Token.bare
  have htokens : tokens ≠ [] := (Token.scan_spells second).ne_nil
  -- Behind the first text, the line break is skipped: the tokens of both follow each other.
  have hjoined : (Reading.start (first ++ 10 :: second) env).bare =
      (Reading.start first env).bare.followed tokens :=
    Reading.start_append (items_end h).2
  have htext : (u.followed tokens).text = (Reading.start second env').bare.text :=
    congrArg₂ List.cons hu.current hu.ahead
  have hended : (u.followed tokens).Ended :=
    (Reading.start_ended second env').bare.of_suffix (htext ▸ List.suffix_rfl)
  have hleft : (u.followed tokens).left = (Reading.start second env').left := by
    rw [← Reading.left_bare (Reading.start second env')]
    exact Nat.succ.inj (congrArg List.length htext)
  have hsum : (Reading.start (first ++ 10 :: second) env).left =
      (Reading.start first env).left + (Reading.start second env').left := by
    have hlength := congrArg (fun s => s.text.length) hjoined
    rw [Reading.text_followed htokens, List.length_append, List.length_dropLast,
      List.length_map, Env.length_scan env', Reading.length_text,
      Reading.length_text, Reading.left_bare, Reading.left_bare] at hlength
    omega
  have hbudget (s : Reading) : s.budget = 4 * s.left + 16 := rfl
  obtain ⟨-, -, k, hk, hgoes⟩ := items_goes
    (m := (Reading.start (first ++ 10 :: second) env).budget) htokens
    (Reading.start_ended first env).bare (by rw [hbudget, hbudget]; omega) h
  -- What fuel is left still suffices for the second text, and more of it changes nothing.
  rw [hjoined, hgoes]
  rw [hbudget, Reading.left_bare] at hk
  exact items_eq_of_le (by rw [hbudget]; omega) hended (by rw [hbudget]; omega)

end Grammar

namespace Env

open Grammar

/-- Two outcomes that are the same without positions. -/
theorem read_agree {strict strict' : Bool} {env env' : Env} {file file' source source' : Bytes}
    {reader reader' : Nat → Read Unit} {r : EStateM.Result Complaint Reading Unit}
    (h : Echoes strict
      (reader (Reading.start source env).budget (Reading.start source env)) r)
    (h' : Echoes strict'
      (reader' (Reading.start source' env').budget (Reading.start source' env')) r) :
    (env.read file source reader).2.bare = (env'.read file' source' reader').2.bare ∧
      (env.read file source reader).1.mapError (fun d => (d.kind, d.message)) =
        (env'.read file' source' reader').1.mapError (fun d => (d.kind, d.message)) := by
  unfold read
  dsimp only
  -- Only the outcomes matter from here on, whichever readers they come from.
  generalize reader (Reading.start source env).budget (Reading.start source env) = x at h
  generalize reader' (Reading.start source' env').budget (Reading.start source' env') = y at h'
  cases h with
  | ok ht =>
    cases h' with
    | ok ht' => exact ⟨ht.env.symm.trans ht'.env, rfl⟩
  | @error c c' t t' hc he =>
    cases h' with
    | @error d d' u u' hd he' =>
      refine ⟨he.symm.trans he', ?_⟩
      have hfault : c.fault.bare = d.fault.bare := congrArg Complaint.fault (hc.symm.trans hd)
      have hkind : c.fault.kind = d.fault.kind := by
        rw [← Fault.kind_bare, hfault, Fault.kind_bare]
      have hmessage : c.fault.message = d.fault.message := by
        rw [← Fault.message_bare, hfault, Fault.message_bare]
      simp [Except.mapError, Complaint.diagnostic, hkind, hmessage]

theorem mapError_eq_ok {ε ε' : Type} {r : Except ε Unit} {f : ε → ε'} :
    r.mapError f = .ok () ↔ r = .ok () := by
  cases r <;> simp [Except.mapError]

/-- **Reading files in sequence is reading them as one.** If a file is read to its end, reading a
second one and reading the first, a newline and the second leave the same declarations, up to
positions and the files that functions stand in. One succeeds if and only if the other does, and
otherwise they fail with diagnostics of the same kind and message. -/
theorem readSource_append (env : Env) (first second : Bytes) (file file' whole : Bytes)
    (h : (env.readSource file first).1 = .ok ()) :
    let apart := (env.readSource file first).2.readSource file' second
    let joined := env.readSource whole (first ++ 10 :: second)
    joined.2.bare = apart.2.bare ∧ (joined.1 = .ok () ↔ apart.1 = .ok ()) ∧
      joined.1.mapError (fun d => (d.kind, d.message)) =
        apart.1.mapError (fun d => (d.kind, d.message)) := by
  intro apart joined
  obtain ⟨t, hrun, henv⟩ := readSource_ok.mp (Prod.ext h rfl)
  obtain ⟨u, htu, hbare⟩ := items_bare hrun
  -- Without positions, both texts come to the state in which the second one begins.
  have hjoined : Echoes true
      (items whole (first ++ 10 :: second) (Reading.start (first ++ 10 :: second) env).budget
        (Reading.start (first ++ 10 :: second) env)) _ :=
    items_erases (Reading.bares_bare _)
  rw [items_append hbare (start_bares htu (items_end hbare).1)] at hjoined
  have hapart : Echoes false
      (items file' second (Reading.start second t.env).budget (Reading.start second t.env)) _ :=
    items_erases (start_bares htu (items_end hbare).1)
  obtain ⟨hdeclared, hcause⟩ : joined.2.bare = (t.env.readSource file' second).2.bare ∧
      joined.1.mapError (fun d => (d.kind, d.message)) =
        (t.env.readSource file' second).1.mapError (fun d => (d.kind, d.message)) :=
    read_agree hjoined hapart
  rw [henv] at hdeclared hcause
  refine ⟨hdeclared, ?_, hcause⟩
  rw [← mapError_eq_ok, hcause, mapError_eq_ok]

/-- A variable and a function, and a comment up to the end of the file. -/
def counter : Bytes := "int n; int next(int k) { n = n + k; return n; } // the end"

/-- A call of the function, and one with an argument too many. -/
def misuse : Bytes := "int f() { return next(1); } int g() { return next(1, 2); }"

theorem readSource_append_misuse :
    let apart := ((Env.empty {}).readSource "n.c" counter).2.readSource "f.c" misuse
    let joined := (Env.empty {}).readSource "nf.c" (counter ++ 10 :: misuse)
    ((Env.empty {}).readSource "n.c" counter).1 = .ok () ∧
      apart.1.mapError (·.message) = .error "function next takes 1 arguments, got 2" ∧
      joined.2.bare = apart.2.bare ∧ (joined.1 = .ok () ↔ apart.1 = .ok ()) ∧
      joined.1.mapError (fun d => (d.kind, d.message)) =
        apart.1.mapError (fun d => (d.kind, d.message)) := by
  have hfirst : ((Env.empty {}).readSource "n.c" counter).1 = .ok () := by
    decide +kernel
  exact ⟨hfirst, by decide +kernel,
    readSource_append (Env.empty {}) counter misuse "n.c" "f.c" "nf.c" hfirst⟩

end Env

end DirectC
