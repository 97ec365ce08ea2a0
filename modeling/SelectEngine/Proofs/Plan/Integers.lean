import SelectEngine.Proofs.Grammar.Parenthesized
import SelectEngine.Proofs.Plan.Operand
import SelectEngine.Proofs.Tree.Literal
import SelectEngine.Proofs.Value.Written

/-!
# Integers in a statement

The digits of an integer are one token, and the sign of a negative one is another, an operator. Alone
in parentheses they are an operand whose value is the integer, on every row of any sources and
whatever zeros stand in front of the digits (`Cursor.eval_integer`). The digits are read without the
sign, so the bound is the same on both sides: the digits of `-2 ^ 63` fit no integer, are read as a
double, and stay one when the sign is applied (`Cursor.eval_least_integer`).
-/

set_option autoImplicit false

namespace SelectEngine

open Grammar

variable {σ γ : Type}

/-! ## Integers as tokens -/

/-- The token is a run of digits with the value `n`. -/
structure Token.IsNatural (t : Token) (n : Nat) : Prop where
  kind : t.kind = .number
  nonempty : t.text.toList ≠ []
  digits : ∀ c ∈ t.text.toList, c.isDigit = true
  value : Decimal.valueOf t.text.toList = n

/-- The tokens from the number `k` on write an integer, and make an expression. -/
inductive Token.Write (k : TokenId) : List Token → Int → Expr TokenId → Prop
  | natural {t : Token} {n : Nat} (h : t.IsNatural n) : Write k [t] n (.number k)
  | negative {sign t : Token} {n : Nat} (hsign : sign.kind = .minus) (h : t.IsNatural n) :
      Write k [sign, t] (-n) (.unary .neg (.number (k + 1)))

namespace Token.Write

variable {k : TokenId} {ts : List Token} {i : Int} {o : Expr TokenId}

theorem makes (h : Token.Write k ts i o) : State.Makes (numbered k ts) o := by
  cases h with
  | natural h =>
    rw [numbered, numbered, h.kind]
    exact State.makes_number k
  | negative hsign h =>
    rw [numbered, numbered, numbered, hsign, h.kind]
    exact State.makes_negative k (k + 1)

end Token.Write

/-! ## Values -/

/-- Digits whose value fits are read as the integer. -/
theorem Token.IsNatural.ofNumeral {t : Token} {n : Nat} (h : t.IsNatural n) (hn : n < 2 ^ 63) :
    Value.ofNumeral t.text = .ok (.integer (Int64.ofInt n)) := by
  have hvalue : (Decimal.valueOf t.text.toList : Int) = (Int64.ofInt n).toInt := by
    rw [h.value, Int64.toInt_ofInt_of_le (by omega) (by omega)]
  have hread := Value.ofNumeral_signed false h.digits h.nonempty hvalue
  rwa [Decimal.signed, if_neg Bool.false_ne_true, String.ofList_toList] at hread

theorem Value.neg_ofInt {n : Nat} (hn : n < 2 ^ 63) :
    (integer (Int64.ofInt n)).neg = .ok (.integer (Int64.ofInt (-n))) := by
  rw [neg, Int64.toInt_ofInt_of_le (by omega) (by omega), exact, ofInt?, if_pos (by omega)]

section

variable {S : Type} {env : Environment (Run S)} {depth : Nat}

theorem Bound.eval_literal (v : Value) (state : S) :
    (Bound.literal (.ok v)).eval env depth state = .ok v state := by
  rw [Bound.eval, Run.relay_ok]

/-- The sign is applied to the integer that the digits are, where there is room for it. -/
theorem Bound.eval_neg {i : Int64} {v : Value} (hroom : depth + 1 ≤ env.maxDepth)
    (h : (Value.integer i).neg = .ok v) (state : S) :
    (Bound.operation .neg [.literal (.ok (.integer i))]).eval env depth state = .ok v state := by
  have hdigits : Bound.evalAll env depth [.literal (.ok (.integer i))] state =
      .ok [.integer i] state := by
    rw [Bound.evalAll, if_neg (by omega), Bound.evalAll]
    exact Run.bind_of_ok (Bound.eval_literal _ state)
  have happly : Operator.apply .neg env.nulls [.integer i] = .ok v := by
    rw [Operator.apply, Operator.applyUnary, ← h]
    cases env.nulls <;> rfl
  have harity : [Bound.literal (.ok (.integer i))].length = Operator.neg.arity := rfl
  rw [Bound.eval, if_pos harity, Run.bind_of_ok hdigits, happly, Run.relay_ok]

/-- What an integer is bound to has the integer as its value. -/
theorem Token.Write.eval {word : TokenId → String} {registry : Registry} {k : TokenId}
    {ts : List Token} {n : Int} {o : Expr TokenId} {operand : Bound} (h : Token.Write k ts n o)
    (hword : ∀ i t, ts[i]? = some t → word (k + i) = t.text) (hn : n.natAbs < 2 ^ 63)
    (hbinds : o.BindsTo word registry operand) (hroom : depth + o.nesting ≤ env.maxDepth)
    (state : S) :
    operand.eval env depth state = .ok (.integer (Int64.ofInt n)) state := by
  cases h with
  | @natural t m h =>
    have hread := h.ofNumeral hn
    rw [← hword 0 t rfl] at hread
    cases hbinds
    rw [Nat.add_zero] at hread
    rw [hread]
    exact Bound.eval_literal _ state
  | @negative sign t m hsign h =>
    have hm : m < 2 ^ 63 := by omega
    have hread := h.ofNumeral hm
    rw [← hword 1 t rfl] at hread
    obtain ⟨digits, rfl, hdigits⟩ := hbinds
    cases hdigits
    rw [hread]
    exact Bound.eval_neg hroom (Value.neg_ofInt hm) state

end

/-! ## Statements -/

namespace Tree.ReadAs

variable {tree : Tree} {settings : ReadSettings} {text : String}
  {s : Statement (Fin tree.tokens.size)} {front inner back : List Token} {opening closing : Token}
  {o : Expr TokenId}

/-- What stands alone in parentheses is an operand of an expression of the statement. -/
theorem exists_at?_of_parenthesized
    (h : tree.ReadAs settings text (front ++ opening :: (inner ++ closing :: back)) s)
    (hopening : opening.kind = .lparen) (hclosing : closing.kind = .rparen)
    (hinner : State.Makes (numbered (front.length + 1) inner) o) :
    ∃ e ∈ (s.map Fin.val).expressions, ∃ path, e.at? path = some o := by
  have hrun := h.run
  have hends := ne_eof_of_drain h.drain 0
  rw [numbered_append, numbered, numbered_append, numbered, hopening, hclosing, Nat.zero_add] at hrun
  rw [numbered_append, numbered, List.dropLast_append_of_ne_nil (List.cons_ne_nil _ _)] at hends
  obtain ⟨s', hparam, hgraft⟩ := Stage.exists_graft_of_parenthesized
    (fun token htoken => hends token (List.mem_append_left _ htoken)) hinner hrun
  rw [hgraft]
  exact s'.exists_at?_of_graft _ (Stage.placing o) hparam

theorem word_inner (h : tree.ReadAs settings text (front ++ opening :: (inner ++ closing :: back)) s)
    {i : Nat} {t : Token} (ht : inner[i]? = some t) : tree.word (front.length + 1 + i) = t.text := by
  have hi : i < inner.length := (List.getElem?_eq_some_iff.mp ht).1
  rw [h.word_eq, Nat.add_assoc, List.getElem?_append_right (Nat.le_add_right _ _),
    Nat.add_sub_cancel_left, Nat.add_comm 1, List.getElem?_cons_succ,
    List.getElem?_append_left hi, ht]
  rfl

end Tree.ReadAs

namespace Cursor

variable {B : Backend σ γ} {registry : Registry} {settings : Settings} {world : γ}
variable {c : Cursor σ γ}

/-- An integer that stands alone in parentheses in a prepared statement is an operand of one of its
expressions, and wherever the cursor stands the value of the operand is the integer. -/
theorem eval_integer {text : String} {front numeral back : List Token} {opening closing : Token}
    {n : Int} {o : Expr TokenId}
    (htokens : tokenize settings.reading.sourceName text =
      .ok (front ++ opening :: (numeral ++ closing :: back)))
    (hopening : opening.kind = .lparen) (hclosing : closing.kind = .rparen)
    (hnumeral : Token.Write (front.length + 1) numeral n o) (hn : n.natAbs < 2 ^ 63)
    (h : prepare B registry settings text world = .ok c) :
    ∃ (tree : Tree) (plan : Plan) (s : Statement (Fin tree.tokens.size)),
      tree.ReadAs settings.reading text (front ++ opening :: (numeral ++ closing :: back)) s ∧
        c.plan = some plan ∧ plan.Carries tree.word registry settings.maxDepth (s.map Fin.val) ∧
        ∃ e ∈ (s.map Fin.val).expressions, ∃ path, e.at? path = some o ∧
          (∃ b ∈ plan.evaluated, e.BindsTo tree.word registry b) ∧
          ∀ b, e.BindsTo tree.word registry b → ∃ operand, b.at? path = some operand ∧
            ∀ later : Cursor σ γ, later.settings = settings →
              operand.eval (later.environment B) path.length later.session =
                .ok (.integer (Int64.ofInt n)) later.session := by
  obtain ⟨tree, plan, ts, s, hread, hplan, hcarries⟩ := exists_carries_of_prepare h
  have hdrain := drain_of_tokenize htokens settings.reading.sourceName
  obtain rfl : ts = front ++ opening :: (numeral ++ closing :: back) :=
    congrArg Prod.fst (hread.drain.symm.trans hdrain)
  obtain ⟨e, he, path, hpath⟩ :=
    hread.exists_at?_of_parenthesized hopening hclosing hnumeral.makes
  obtain ⟨b, hb, hcarried⟩ := hcarries.exists_evaluated he
  refine ⟨tree, plan, s, hread, hplan, hcarries, e, he, path, hpath, ⟨b, hb, hcarried.1⟩, ?_⟩
  intro b hbinds
  obtain ⟨operand, hoperand, hbinds'⟩ := hbinds.exists_at? hpath
  refine ⟨operand, hoperand, fun later hlater => ?_⟩
  -- The operand is nested within the limit together with all that stands around it.
  have hroom : path.length + o.nesting ≤ (later.environment B).maxDepth := by
    have hnesting := Expr.add_nesting_le hpath
    have hlimit : e.nesting ≤ later.settings.maxDepth := hlater ▸ hcarried.2
    exact hnesting.trans hlimit
  exact hnumeral.eval (fun i t ht => hread.word_inner ht) hn hbinds' hroom later.session

/-- Zeros in front of the digits of a negative integer. -/
theorem eval_integer_zeros :
    ∃ (c : Cursor Memory.Scan Unit) (tree : Tree) (plan : Plan)
      (s : Statement (Fin tree.tokens.size)),
      prepare (Memory.backend Memory.oneTable) .empty .default "SELECT (-007) FROM t" () = .ok c ∧
        c.plan = some plan ∧
        ∃ e ∈ (s.map Fin.val).expressions, ∃ path, e.at? path = some (.unary .neg (.number 3)) ∧
          ∃ b ∈ plan.evaluated, ∃ operand, b.at? path = some operand ∧
            ∀ later : Cursor Memory.Scan Unit, later.settings = .default →
              operand.eval (later.environment (Memory.backend Memory.oneTable)) path.length
                  later.session =
                .ok (.integer (-7)) later.session := by
  have htokens : tokenize Settings.default.reading.sourceName "SELECT (-007) FROM t" =
      .ok ([⟨.kwSelect, "SELECT", 0, 6, 1⟩] ++ ⟨.lparen, "(", 7, 1, 1⟩ ::
        ([⟨.minus, "-", 8, 1, 1⟩, ⟨.number, "007", 9, 3, 1⟩] ++ ⟨.rparen, ")", 12, 1, 1⟩ ::
          [⟨.kwFrom, "FROM", 14, 4, 1⟩, ⟨.ident, "t", 19, 1, 1⟩, ⟨.eof, "", 20, 0, 1⟩])) := by
    decide +kernel
  have hdigits : "007".toList.all Char.isDigit = true := by decide +kernel
  have hseven : Token.IsNatural ⟨.number, "007", 9, 3, 1⟩ 7 :=
    ⟨rfl, by decide +kernel, List.all_eq_true.mp hdigits, by decide +kernel⟩
  have hsome : (prepare (Memory.backend Memory.oneTable) .empty .default "SELECT (-007) FROM t"
      ()).toOption.isSome = true := by
    decide +kernel
  cases h : prepare (Memory.backend Memory.oneTable) .empty .default "SELECT (-007) FROM t" () with
  | error e =>
    rw [h] at hsome
    cases hsome
  | ok c =>
    obtain ⟨tree, plan, s, -, hplan, -, e, he, path, hpath, ⟨b, hb, hbinds⟩, heval⟩ :=
      eval_integer htokens rfl rfl (.negative rfl hseven) (by decide) h
    obtain ⟨operand, hoperand, hvalue⟩ := heval b hbinds
    exact ⟨c, tree, plan, s, rfl, hplan, e, he, path, hpath, b, hb, operand, hoperand, hvalue⟩

/-- The least integer fits 64 bits, and is a double where it is written in a statement. -/
theorem eval_least_integer :
    Value.ofInt? (-9223372036854775808) = some (.integer Int64.minValue) ∧
      ∃ c, prepare (Memory.backend Memory.oneTable) .empty .default
          "SELECT (-9223372036854775808) FROM t" () = .ok c ∧
        (c.plan.map fun plan => plan.evaluated.map fun b =>
          ((evaluate (Memory.backend Memory.oneTable) b).outcome c).toOption) =
          some [some (.double (Double.ofInt (-9223372036854775808)))] := by
  have hdouble : ((prepare (Memory.backend Memory.oneTable) .empty .default
      "SELECT (-9223372036854775808) FROM t" ()).toOption.map fun c =>
        (c.plan.map fun plan => plan.evaluated.map fun b =>
          ((evaluate (Memory.backend Memory.oneTable) b).outcome c).toOption)) =
      some (some [some (.double (Double.ofInt (-9223372036854775808)))]) := by
    decide +kernel
  cases h : prepare (Memory.backend Memory.oneTable) .empty .default
      "SELECT (-9223372036854775808) FROM t" () with
  | error e =>
    rw [h] at hdouble
    cases hdouble
  | ok c =>
    rw [h] at hdouble
    exact ⟨by decide, c, rfl, Option.some.inj hdouble⟩

end Cursor

end SelectEngine
