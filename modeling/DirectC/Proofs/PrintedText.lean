/-
# The tokens of printed expressions

Integer expressions are constants, variables, calls, and operators and assignments on these; they
are printed with all their parentheses. `Expr.Integral` says which trees of this kind the names in
scope allow, and `Expr.tokens` lists the tokens of their texts. A printed expression is scanned as
these tokens, whatever follows it, unless that goes on with a word (`Expr.Integral.lexes`).
-/
import DirectC.Env
import DirectC.Proofs.Terminals
import DirectC.TreeText

namespace DirectC

/-! ## Numbers -/

namespace Bytes

/-- A digit is read back. -/
theorem digit_facts : ∀ d < 10, isDigit (Nat.digitChar d).toNat.toUInt8 = true ∧
    (Nat.digitChar d).toNat.toUInt8.toNat - 48 = d := by
  decide

/-- A number has a digit. -/
theorem ofNat_ne_nil (n : Nat) : ofNat n ≠ [] := by
  unfold ofNat
  simp [Nat.toDigits_ne_nil]

/-- A number is written in digits alone. -/
theorem isDigit_of_mem_ofNat {n : Nat} {b : UInt8} (h : b ∈ ofNat n) : isDigit b = true := by
  induction n using Nat.strongRecOn with
  | ind n ih =>
    unfold ofNat at h
    by_cases hn : n < 10
    · rw [Nat.toDigits_of_lt_base hn, List.map_singleton, List.mem_singleton] at h
      rw [h]
      exact (digit_facts n hn).1
    · rw [Nat.toDigits_of_base_le (by decide) (Nat.le_of_not_lt hn), List.map_append,
        List.mem_append] at h
      rcases h with h | h
      · exact ih (n / 10) (by omega) h
      · rw [List.map_singleton, List.mem_singleton] at h
        rw [h]
        exact (digit_facts (n % 10) (by omega)).1

/-- Numbers are written so that they can be read. -/
theorem toNat_ofNat (n : Nat) : toNat (ofNat n) = n := by
  induction n using Nat.strongRecOn with
  | ind n ih =>
    unfold toNat ofNat at ih ⊢
    by_cases hn : n < 10
    · rw [Nat.toDigits_of_lt_base hn]
      simpa using (digit_facts n hn).2
    · have hdigit := (digit_facts (n % 10) (by omega)).2
      rw [Nat.toDigits_of_base_le (by decide) (Nat.le_of_not_lt hn), List.map_append,
        List.foldl_append, ih (n / 10) (by omega), List.map_singleton, List.foldl_cons,
        List.foldl_nil, hdigit]
      omega

end Bytes

namespace Scan

/-! ## Beginnings of texts -/

/-- **A text starts with tokens**, up to the rest of it. -/
inductive Lexes : Bytes → List Token → Bytes → Prop where
  | nil {text : Bytes} : Lexes text [] text
  | cons {text : Bytes} {b : UInt8} {inner : Bytes} {ts : List Token} {rest : Bytes}
    (h : skip text = some (b :: inner))
    (hts : Lexes ((b :: inner).drop (lexeme b inner).length) ts rest) :
    Lexes text ((lexeme b inner).token :: ts) rest

variable {text middle rest : Bytes} {ts us : List Token} {b c : UInt8}

/-- Two parts of a text are scanned one after the other. -/
theorem Lexes.append (h : Lexes text ts middle) (h' : Lexes middle us rest) :
    Lexes text (ts ++ us) rest := by
  induction h with
  | nil => exact h'
  | cons hs _ ih => exact .cons hs (ih h')

/-- One lexeme behind some trivia is scanned. -/
theorem Lexes.one {inner : Bytes} {l : Lexeme} (h : skip text = some (b :: inner))
    (hl : lexeme b inner = l) (hrest : (b :: inner).drop l.length = rest) :
    Lexes text [l.token] rest := by
  subst hl hrest
  exact .cons h .nil

/-- A blank in front of a token. -/
theorem Lexes.blank (h : Lexes text ts rest) (hts : ts ≠ []) : Lexes (32 :: text) ts rest := by
  cases h with
  | nil => exact absurd rfl hts
  | cons hs htail =>
    refine .cons ?_ htail
    rw [skip.eq_def]
    exact hs

/-- A terminal that is taken is scanned. -/
theorem Lexes.taken {w : Terminal} (h : w.Taken text rest) :
    Lexes (text ++ rest) [⟨w.kind, w.literal, 0, 0, 0⟩] rest := by
  obtain ⟨b, inner, rfl, hskip, hlexeme⟩ := h
  exact .one hskip hlexeme (List.drop_left ..)

/-! ## Words and numbers -/

/-- The token of a name. -/
def nameToken (name : Bytes) : Token :=
  ⟨.identifier, name, 0, 0, 0⟩

/-- A name is scanned if it ends where it stops. -/
theorem lexes_name {name : Bytes} (h : IsName name) (hrest : Breaks rest) :
    Lexes (name ++ rest) [nameToken name] rest :=
  .taken (.name h hrest)

/-- The token of a number. -/
def numberToken (digits : Bytes) : Token :=
  ⟨.number, digits, 0, 0, 0⟩

/-- A number is scanned if it ends where it stops. -/
theorem lexes_number (n : Nat) (hrest : Breaks rest) :
    Lexes (Bytes.ofNat n ++ rest) [numberToken (Bytes.ofNat n)] rest := by
  have hdigits : (Bytes.ofNat n).all Bytes.isDigit :=
    List.all_eq_true.mpr fun b h => Bytes.isDigit_of_mem_ofNat h
  have hend : ∀ b ∈ rest.head?, Bytes.isDigit b = false := by
    intro b hb
    have hword := hrest b hb
    rw [isWordByte, Bool.or_eq_false_iff] at hword
    exact hword.2
  exact .taken (.number (Bytes.ofNat_ne_nil n) hdigits hend)

/-! ## Delimiters and operators -/

/-- The token of an operator or delimiter. -/
def punctToken (p : Punct) : Token :=
  ⟨.punct p, p.spelling, 0, 0, 0⟩

/-- A delimiter that starts no longer operator. -/
theorem lexes_delimiter {p : Punct} (hp : p ∈ [.leftParen, .rightParen, .comma, .semicolon]) :
    Lexes (p.spelling ++ rest) [punctToken p] rest := by
  have hone : p.spelling ≠ [] ∧ p ≠ .slash ∧
      ∀ q ∈ Punct.all, q.spelling.head? = p.spelling.head? → q.spelling.length = 1 := by
    simp only [List.mem_cons, List.not_mem_nil, or_false] at hp
    rcases hp with rfl | rfl | rfl | rfl <;> decide
  obtain ⟨hne, hslash, hone⟩ := hone
  refine .taken (.punct p fun b _ => ⟨fun q hq => ?_, fun h => absurd h hslash⟩)
  have hlength := hone q q.mem_all (by rw [hq, List.head?_append_of_ne_nil _ hne])
  rw [hq, List.length_append, List.length_singleton] at hlength
  exact hne (List.eq_nil_of_length_eq_zero (by omega))

end Scan

/-! ## Operators -/

/-- The token that an operator is written with. -/
def BinaryOp.punct : BinaryOp → Punct
  | .add => .plus
  | .sub => .minus
  | .mul => .star
  | .div => .slash
  | .rem => .percent
  | .lt => .lt
  | .le => .le
  | .eq => .eq
  | .ne => .ne
  | .and => .and
  | .or => .or
  | .assign | .unknown => .assign
  | .addAssign => .plusAssign
  | .subAssign => .minusAssign

namespace Scan

variable {rest : Bytes}

/-- An operator and the blank behind it. -/
theorem lexes_operator {op : BinaryOp} (hop : op ∈ BinaryOp.all) :
    Lexes (op.text ++ 32 :: rest) [punctToken op.punct] (32 :: rest) := by
  have htext : op.text = op.punct.spelling := by
    revert hop
    cases op <;> decide
  rw [htext]
  refine .taken (.punct op.punct (Terminal.endsBefore_of_blank ?_ _))
  intro b hb
  cases hb
  rfl

end Scan

/-! ## Integer expressions -/

namespace Expr

/-- A variable in scope that holds an integer: a local one, or a global one that is not hidden. -/
inductive IsVariable (env : Env) (scope : Scope) : Expr → Prop where
  | onStack {name : Bytes} {pos : Int} {v : Local} (hname : Scan.IsName name)
    (hv : scope.lookup? name = some v) (htype : v.type.isInteger) :
    IsVariable env scope (.ident name pos (.stack v.id) v.type)
  | inData {name : Bytes} {pos : Int} {g : GlobalVar} (hname : Scan.IsName name)
    (hfree : scope.lookup? name = none) (hg : env.globals.get? name = some g)
    (htype : g.type.isInteger) :
    IsVariable env scope (.ident name pos .static g.type)

/-- The operators on integers that assign nothing. -/
def operations : List BinaryOp :=
  [.add, .sub, .mul, .div, .rem, .lt, .le, .eq, .ne, .and, .or]

/-- The operators that assign. -/
def assignments : List BinaryOp :=
  [.assign, .addAssign, .subAssign]

/-- Printed operators are operators. -/
theorem mem_all {op : BinaryOp} (h : op ∈ operations ∨ op ∈ assignments) : op ∈ BinaryOp.all := by
  revert h
  cases op <;> decide

/-- **Integer expressions** over the names in scope, with the types that they have. -/
inductive Integral (env : Env) (scope : Scope) : Expr → Prop where
  | constant {value : Int32} {pos : Int} (h : 0 ≤ value.toInt) :
    Integral env scope (.num value pos .int)
  | name {e : Expr} (h : IsVariable env scope e) : Integral env scope e
  | operation {op : BinaryOp} {pos : Int} {left right : Expr} (hop : op ∈ operations)
    (hleft : Integral env scope left) (hright : Integral env scope right) :
    Integral env scope (.binary op pos left right .int)
  | assignment {op : BinaryOp} {pos : Int} {left right : Expr} (hop : op ∈ assignments)
    (hleft : IsVariable env scope left) (hright : Integral env scope right) :
    Integral env scope (.binary op pos left right left.type)
  | call {name : Bytes} {pos : Int} {args : List Expr} {s : Signature} (hname : Scan.IsName name)
    (hfree : scope.lookup? name = none) (hs : env.signatures.get? name = some s)
    (hparams : ∀ t ∈ s.params, t.isInteger) (hret : s.ret.isInteger)
    (hcount : args.length = s.params.length) (hargs : ∀ a ∈ args, Integral env scope a) :
    Integral env scope (.call name pos args s.ret)

mutual

/-- The tokens of the text of an expression. -/
def tokens : Expr → List Token
  | .num value _ _ => [Scan.numberToken (.ofInt value.toInt)]
  | .ident name _ _ _ => [Scan.nameToken name]
  | .binary op _ left right _ =>
    Scan.punctToken .leftParen ::
      (left.tokens ++ Scan.punctToken op.punct :: (right.tokens ++ [Scan.punctToken .rightParen]))
  | .call name _ args _ =>
    Scan.nameToken name :: Scan.punctToken .leftParen ::
      (argTokens true args ++ [Scan.punctToken .rightParen])
  | _ => []

/-- The tokens of arguments. There is a comma before each but the first. -/
def argTokens (first : Bool) : List Expr → List Token
  | [] => []
  | e :: es => (if first then [] else [Scan.punctToken .comma]) ++ e.tokens ++ argTokens false es

end

variable {env : Env} {scope : Scope} {e : Expr} {rest : Bytes}

/-- Printed variables are integers. -/
theorem IsVariable.integer (h : IsVariable env scope e) : e.type.isInteger := by
  cases h with
  | onStack _ _ htype => exact htype
  | inData _ _ _ htype => exact htype

/-- All printed expressions are integers. -/
theorem Integral.integer (h : Integral env scope e) : e.type.isInteger := by
  cases h with
  | constant | operation => rfl
  | name h => exact h.integer
  | assignment _ hleft => exact hleft.integer
  | call _ _ _ _ hret => exact hret

/-- A variable is printed as its name. -/
theorem IsVariable.tokens_eq (h : IsVariable env scope e) :
    ∃ name, Scan.IsName name ∧ e.text = name ∧ e.tokens = [Scan.nameToken name] := by
  cases h with
  | onStack hname => exact ⟨_, hname, rfl, rfl⟩
  | inData hname => exact ⟨_, hname, rfl, rfl⟩

/-- A printed expression has a token. -/
theorem Integral.tokens_ne_nil (h : Integral env scope e) : e.tokens ≠ [] := by
  cases h with
  | name h =>
    obtain ⟨name, -, -, htokens⟩ := h.tokens_eq
    simp [htokens]
  | constant | operation | assignment | call => simp [tokens]

/-- Words and numbers end in front of a byte that is no part of a word. -/
theorem breaks_cons {b : UInt8} (h : Scan.isWordByte b = false) : Scan.Breaks (b :: rest) := by
  intro c hc
  cases hc
  exact h

/-- Two operands are printed in parentheses, with blanks around the operator. -/
theorem text_binary (op : BinaryOp) (pos : Int) (left right : Expr) (type : CType)
    (rest : Bytes) :
    (Expr.binary op pos left right type).text ++ rest = Punct.leftParen.spelling ++ (left.text ++
      32 :: (op.text ++ 32 :: (right.text ++ (Punct.rightParen.spelling ++ rest)))) := by
  have hblank : Bytes.ofString " " = [32] := by decide
  simp [Expr.text, Bytes.say, hblank, Punct.spelling]

/-- Two operands in parentheses are scanned if both of them are. -/
theorem lexes_binary {op : BinaryOp} {pos : Int} {left right : Expr} {type : CType}
    (hop : op ∈ BinaryOp.all)
    (hleft : ∀ {rest}, Scan.Breaks rest → Scan.Lexes (left.text ++ rest) left.tokens rest)
    (hright : ∀ {rest}, Scan.Breaks rest → Scan.Lexes (right.text ++ rest) right.tokens rest)
    (hne : right.tokens ≠ []) :
    Scan.Lexes ((Expr.binary op pos left right type).text ++ rest)
      (Expr.binary op pos left right type).tokens rest := by
  rw [text_binary, tokens]
  have hclose : Scan.Lexes (right.text ++ (Punct.rightParen.spelling ++ rest))
      (right.tokens ++ [Scan.punctToken .rightParen]) rest :=
    (hright (breaks_cons (by decide))).append (Scan.lexes_delimiter (p := .rightParen) (by simp))
  have hop : Scan.Lexes (op.text ++ 32 :: (right.text ++ (Punct.rightParen.spelling ++ rest)))
      (Scan.punctToken op.punct :: (right.tokens ++ [Scan.punctToken .rightParen])) rest :=
    (Scan.lexes_operator hop).append (hclose.blank (by simp [hne]))
  exact (Scan.lexes_delimiter (p := .leftParen) (by simp)).append
    ((hleft (breaks_cons (by decide))).append (hop.blank (by simp)))

/-- A separator stands in front of all texts but the first. -/
theorem intercalate_cons (sep text : Bytes) (texts : List Bytes) :
    List.intercalate sep (text :: texts) = text ++ texts.flatMap (sep ++ ·) := by
  induction texts generalizing text with
  | nil => simp [List.intercalate]
  | cons next texts ih =>
    rw [List.intercalate_cons_cons, ih, List.flatMap_cons, List.append_assoc, List.append_assoc]

/-- The arguments behind the first one. -/
theorem lexes_args {es : List Expr} (hrest : Scan.Breaks rest)
    (hes : ∀ e ∈ es, e.tokens ≠ [] ∧ ∀ {rest}, Scan.Breaks rest →
      Scan.Lexes (e.text ++ rest) e.tokens rest) :
    Scan.Lexes ((texts es).flatMap ((", " : Bytes) ++ ·) ++ rest) (argTokens false es) rest ∧
      Scan.Breaks ((texts es).flatMap ((", " : Bytes) ++ ·) ++ rest) := by
  induction es with
  | nil => exact ⟨.nil, hrest⟩
  | cons e es ih =>
    obtain ⟨ih, hbreaks⟩ := ih fun e' he' => hes e' (List.mem_cons_of_mem e he')
    obtain ⟨hne, he⟩ := hes e List.mem_cons_self
    have hsep : Bytes.ofString ", " = Punct.comma.spelling ++ [32] := by decide
    have htext : (texts (e :: es)).flatMap ((", " : Bytes) ++ ·) ++ rest = Punct.comma.spelling ++
        32 :: (e.text ++ ((texts es).flatMap ((", " : Bytes) ++ ·) ++ rest)) := by
      simp [texts, hsep]
    rw [htext]
    refine ⟨?_, breaks_cons (by decide)⟩
    have hblank := ((he hbreaks).append ih).blank (by simp [hne])
    exact (Scan.lexes_delimiter (p := .comma) (by simp)).append hblank

/-- **A printed expression is scanned as its tokens.** -/
theorem Integral.lexes (h : Integral env scope e) (hrest : Scan.Breaks rest) :
    Scan.Lexes (e.text ++ rest) e.tokens rest := by
  induction h generalizing rest with
  | @constant value pos h =>
    have htext : (Expr.num value pos .int).text = Bytes.ofNat value.toInt.natAbs := by
      rw [text, Bytes.ofInt, if_neg (by omega)]
    have htokens : (Expr.num value pos .int).tokens =
        [Scan.numberToken (Bytes.ofNat value.toInt.natAbs)] := by
      rw [tokens, Bytes.ofInt, if_neg (by omega)]
    rw [htext, htokens]
    exact Scan.lexes_number _ hrest
  | name h =>
    obtain ⟨name, hname, htext, htokens⟩ := h.tokens_eq
    rw [htext, htokens]
    exact Scan.lexes_name hname hrest
  | @operation op pos left right hop hleft hright ihl ihr =>
    exact lexes_binary (mem_all (.inl hop)) ihl ihr hright.tokens_ne_nil
  | @assignment op pos left right hop hleft hright ihr =>
    obtain ⟨name, hname, htext, htokens⟩ := hleft.tokens_eq
    refine lexes_binary (mem_all (.inr hop)) (fun hrest => ?_) ihr hright.tokens_ne_nil
    rw [htext, htokens]
    exact Scan.lexes_name hname hrest
  | @call name pos args s hname hfree hs hparams hret hcount hargs ih =>
    have htext : (Expr.call name pos args s.ret).text ++ rest = name ++
        (Punct.leftParen.spelling ++ (List.intercalate ", " (texts args) ++
          (Punct.rightParen.spelling ++ rest))) := by
      simp [text, Bytes.say, Punct.spelling]
    -- The first argument has no separator in front of it.
    have hlist : Scan.Lexes (List.intercalate ", " (texts args) ++
        (Punct.rightParen.spelling ++ rest)) (argTokens true args)
        (Punct.rightParen.spelling ++ rest) := by
      cases args with
      | nil => exact .nil
      | cons a args =>
        have hclose : Scan.Breaks (Punct.rightParen.spelling ++ rest) := breaks_cons (by decide)
        obtain ⟨hmore, hbreaks⟩ := lexes_args hclose fun e he =>
          have he := List.mem_cons_of_mem a he
          ⟨(hargs e he).tokens_ne_nil, fun hrest => ih e he hrest⟩
        rw [texts, intercalate_cons, argTokens, List.append_assoc]
        exact (ih a List.mem_cons_self hbreaks).append hmore
    rw [htext, tokens]
    exact (Scan.lexes_name hname (breaks_cons (by decide))).append
      ((Scan.lexes_delimiter (p := .leftParen) (by simp)).append
        (hlist.append (Scan.lexes_delimiter (p := .rightParen) (by simp))))

end Expr

/-! ## The scanner -/

/-- The scanner finds the tokens that a text starts with, and goes on behind them. -/
theorem Cursor.tokens_of_lexes {n fuel : Nat} {c : Cursor} {ts : List Token} {rest : Bytes}
    (h : Scan.Lexes c.rest ts rest) (hc : c.Within n) (hfuel : c.rest.length ≤ fuel) :
    ∃ (us : List Token) (d : Cursor) (fuel' : Nat),
      (c.tokens fuel).1 = us ++ (d.tokens fuel').1 ∧ us.map Token.bare = ts ∧ d.rest = rest ∧
        d.Within n ∧ rest.length ≤ fuel' := by
  generalize htext : c.rest = text at h
  induction h generalizing c fuel with
  | nil => exact ⟨[], c, fuel, rfl, rfl, htext, hc, htext ▸ hfuel⟩
  | @cons text b inner ts rest hs hts ih =>
    obtain ⟨hs', -⟩ | ⟨hs', -⟩ | ⟨b', inner', hs', ht, hr⟩ := c.next_of_skip
    · exact absurd (hs'.symm.trans (htext ▸ hs)) (by simp)
    · exact absurd (hs'.symm.trans (htext ▸ hs)) (by simp)
    · cases hs'.symm.trans (htext ▸ hs)
      have hkind : c.next.1.kind ≠ .endOfFile := by
        have hk : c.next.1.kind = (Scan.lexeme b inner).kind := congrArg Token.kind ht
        rw [hk]
        exact Scan.kind_lexeme b inner
      have hlt := length_rest_next hkind
      obtain ⟨fuel, rfl⟩ : ∃ k, fuel = k + 1 := ⟨fuel - 1, by omega⟩
      have hfuel : c.next.2.rest.length ≤ fuel := by omega
      obtain ⟨us, d, fuel', htokens, hus, hd⟩ := ih hc.next.2 hfuel hr
      refine ⟨c.next.1 :: us, d, fuel', ?_, ?_, hd⟩
      · rw [tokens_of_ne hkind, htokens, List.cons_append]
      · rw [List.map_cons, hus, ht]

/-- The tokens of a printed expression and a semicolon, which stands behind its text. -/
theorem Expr.Integral.scan {env : Env} {scope : Scope} {e : Expr} (h : e.Integral env scope) :
    ∃ ts semicolon last, Token.scan (e.text ++ ";") = ts ++ [semicolon, last] ∧
      ts.map Token.bare = e.tokens ∧ semicolon.kind = .punct .semicolon ∧
      semicolon.pos = e.text.length ∧ last.kind = .endOfFile := by
  have hsemicolon : Bytes.ofString ";" = [59] := by decide
  rw [hsemicolon]
  have hstart : Cursor.Within (e.text ++ [59]).length ⟨e.text ++ [59], 0, 1, 1⟩ := Nat.zero_add _
  obtain ⟨ts, d, fuel, htokens, hts, hrest, hwithin, hfuel⟩ :=
    Cursor.tokens_of_lexes (h.lexes (breaks_cons (by decide))) hstart (Nat.le_refl _)
  obtain ⟨rest, pos, line, column⟩ := d
  have hrest : rest = [59] := hrest
  subst hrest
  obtain ⟨fuel, rfl⟩ : ∃ k, fuel = k + 1 := ⟨fuel - 1, by simp at hfuel; omega⟩
  have hlast : (Cursor.tokens (fuel + 1) ⟨[59], pos, line, column⟩).1 =
      [⟨.punct .semicolon, ";", pos, line, column⟩,
        ⟨.endOfFile, [], pos + 1, line, column + 1⟩] := by
    cases fuel <;> rfl
  rw [hlast] at htokens
  refine ⟨ts, _, _, htokens, hts, rfl, ?_, rfl⟩
  have hpos : pos + 1 = (e.text ++ [59]).length := hwithin
  rw [List.length_append] at hpos
  exact Nat.succ.inj hpos

end DirectC
