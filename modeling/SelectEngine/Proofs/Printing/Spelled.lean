import SelectEngine.Proofs.Printing.Lexemes

/-!
# Tokens with spellings

Every token of a statement that can be printed is written as one of its spellings
(`Statement.spelled_lexemes`).
-/

set_option autoImplicit false

namespace SelectEngine

/-! ## Tokens that have spellings -/

/-- The token is written as one of its spellings. -/
def Lexeme.Spelled (token : Lexeme) : Prop := Spelling token.1 token.2.toList token.spell

theorem spelled_name (text : String) : Lexeme.Spelled (.quotedIdent, text) := .quoted text.toList

theorem spelled_text (text : String) : Lexeme.Spelled (.string, text) := .string text.toList

theorem spelled_number {text : String} (h : IsNumeral text.toList) :
    Lexeme.Spelled (.number, text) := by
  show Spelling .number text.toList text.toList
  generalize text.toList = cs at h ⊢
  cases h with
  | whole h => exact .whole h
  | decimal h he => exact .decimal h he

/-- A keyword in any letter case is a word. -/
theorem spelled_of_word {kind : TokenKind} {text : String} {c : Char} {cs : List Char}
    (htext : text.toList = c :: cs) (hc : isWordStart c = true)
    (hcs : cs.all isWordRest = true) (hkind : TokenKind.keyword? text = some kind) :
    Lexeme.Spelled (kind, text) := by
  have hmem : kind ∈ TokenKind.keywords := List.mem_of_find?_eq_some hkind
  have hword := Spelling.word hc (List.all_eq_true.mp hcs)
  rw [← htext, String.ofList_toList, hkind, Option.getD_some] at hword
  have hspell : Lexeme.spell (kind, text) = text.toList := by
    simp only [TokenKind.keywords, List.mem_cons, List.not_mem_nil, or_false] at hmem
    rcases hmem with rfl | rfl | rfl | rfl | rfl | rfl | rfl | rfl | rfl | rfl | rfl <;> rfl
  unfold Lexeme.Spelled
  rw [hspell]
  exact hword

theorem spelled_keyword {kind : TokenKind} (h : kind ∈ TokenKind.keywords) :
    (Lexeme.mark kind).Spelled := by
  simp only [TokenKind.keywords, List.mem_cons, List.not_mem_nil, or_false] at h
  rcases h with rfl | rfl | rfl | rfl | rfl | rfl | rfl | rfl | rfl | rfl | rfl <;>
    exact spelled_of_word rfl (by decide) (by decide) (by decide)

/-- A symbol is written as its label. -/
theorem spelled_symbol {kind : TokenKind}
    (h : kind ∈ [TokenKind.question, .lparen, .rparen, .comma, .dot, .plus, .minus, .star, .slash,
      .eq, .ne, .lt, .gt, .le, .ge, .concat]) : (Lexeme.mark kind).Spelled := by
  simp only [List.mem_cons, List.not_mem_nil, or_false] at h
  rcases h with rfl | rfl | rfl | rfl | rfl | rfl | rfl | rfl | rfl | rfl | rfl | rfl | rfl | rfl |
      rfl | rfl <;>
    exact Spelling.symbol (by decide)

theorem spelled_operator (op : Operator) : (Lexeme.mark op.kind).Spelled := by
  cases op <;> first | exact spelled_keyword (by decide) | exact spelled_symbol (by decide)

theorem spelled_test {op : Operator} {test : List Lexeme} (h : op.test? = some test) :
    ∀ token ∈ test, token.Spelled := by
  have his : (Lexeme.mark .kwIs).Spelled := spelled_keyword (by decide)
  have hnot : (Lexeme.mark .kwNot).Spelled := spelled_keyword (by decide)
  have hnull : (Lexeme.mark .kwNull).Spelled := spelled_keyword (by decide)
  cases op <;> first | cases h; done | (cases h; simp [his, hnot, hnull])

/-! ## Tokens of a statement -/

theorem spelled_append {front back : List Lexeme} (h : ∀ token ∈ front, token.Spelled)
    (h' : ∀ token ∈ back, token.Spelled) : ∀ token ∈ front ++ back, token.Spelled := by
  intro token ht
  exact (List.mem_append.mp ht).elim (h token) (h' token)

theorem spelled_cons {first : Lexeme} {back : List Lexeme} (h : first.Spelled)
    (h' : ∀ token ∈ back, token.Spelled) : ∀ token ∈ first :: back, token.Spelled :=
  List.forall_mem_cons.mpr ⟨h, h'⟩

theorem spelled_separated {mark : Lexeme} (hmark : mark.Spelled) : ∀ {runs : List (List Lexeme)},
    (∀ run ∈ runs, ∀ token ∈ run, token.Spelled) → ∀ token ∈ separated mark runs, token.Spelled
  | [], _ => nofun
  | [_], h => h _ List.mem_cons_self
  | _ :: _ :: _, h =>
    spelled_append (h _ List.mem_cons_self) (spelled_cons hmark
      (spelled_separated hmark fun other hother => h other (List.mem_cons_of_mem _ hother)))

theorem spelled_nameLexemes (parts : List String) : ∀ token ∈ nameLexemes parts, token.Spelled := by
  have hdot : (Lexeme.mark .dot).Spelled := spelled_symbol (by decide)
  refine spelled_separated hdot fun run hrun => ?_
  obtain ⟨part, -, rfl⟩ := List.mem_map.mp hrun
  exact spelled_cons (spelled_name part) nofun

theorem spelled_parenthesized {tokens : List Lexeme} (needed : Bool)
    (h : ∀ token ∈ tokens, token.Spelled) :
    ∀ token ∈ parenthesized needed tokens, token.Spelled := by
  have hopen : (Lexeme.mark .lparen).Spelled := spelled_symbol (by decide)
  have hclose : (Lexeme.mark .rparen).Spelled := spelled_symbol (by decide)
  cases needed with
  | true => exact spelled_cons hopen (spelled_append h (spelled_cons hclose nofun))
  | false => exact h

mutual

theorem Expr.spelled_lexemes : ∀ e : Expr String, e.Printable → ∀ token ∈ e.lexemes, token.Spelled
  | .text leaf, _ => spelled_cons (spelled_text leaf) nofun
  | .number leaf, h => spelled_cons (spelled_number h) nofun
  | .null leaf, h => by
    obtain rfl : leaf = "NULL" := h
    have hnull : (Lexeme.mark .kwNull).Spelled := spelled_keyword (by decide)
    exact spelled_cons hnull nofun
  | .param leaf, h => by
    obtain rfl : leaf = "?" := h
    have hmark : (Lexeme.mark .question).Spelled := spelled_symbol (by decide)
    exact spelled_cons hmark nofun
  | .name parts, _ => spelled_nameLexemes parts
  | .call function args, h => by
    have hcomma : (Lexeme.mark .comma).Spelled := spelled_symbol (by decide)
    have hopen : (Lexeme.mark .lparen).Spelled := spelled_symbol (by decide)
    have hclose : (Lexeme.mark .rparen).Spelled := spelled_symbol (by decide)
    have hargs := spelled_separated hcomma (Expr.spelled_lexemesOf args h)
    exact spelled_cons (spelled_name function) (spelled_cons hopen
      (spelled_append hargs (spelled_cons hclose nofun)))
  | .unary op operand, h => by
    have hoperand := spelled_parenthesized (operand.strength < op.strength)
      (Expr.spelled_lexemes operand h.2)
    rw [Expr.lexemes]
    split
    · next test htest => exact spelled_append hoperand (spelled_test htest)
    · exact spelled_cons (spelled_operator op) hoperand
  | .binary op left right, h =>
    spelled_append (spelled_parenthesized _ (Expr.spelled_lexemes left h.2.1))
      (spelled_cons (spelled_operator op)
        (spelled_parenthesized _ (Expr.spelled_lexemes right h.2.2)))

theorem Expr.spelled_lexemesOf : ∀ es : List (Expr String), Expr.AllPrintable es →
    ∀ run ∈ Expr.lexemesOf es, ∀ token ∈ run, token.Spelled
  | [], _ => nofun
  | e :: es, h => List.forall_mem_cons.mpr
    ⟨Expr.spelled_lexemes e h.1, Expr.spelled_lexemesOf es h.2⟩

end

theorem spelled_namingLexemes {naming : Option (Naming String)}
    (h : ∀ n ∈ naming, n.Printable) : ∀ token ∈ namingLexemes naming, token.Spelled := by
  rcases naming with _ | ⟨_ | keyword, name⟩
  · exact nofun
  · exact spelled_cons (spelled_name name) nofun
  · obtain rfl : keyword = "AS" := h _ rfl keyword rfl
    have has : (Lexeme.mark .kwAs).Spelled := spelled_keyword (by decide)
    exact spelled_cons has (spelled_cons (spelled_name name) nofun)

theorem Attribute.spelled_lexemes {a : Attribute String} (h : a.Printable) :
    ∀ token ∈ a.lexemes, token.Spelled := by
  have hstar : (Lexeme.mark .star).Spelled := spelled_symbol (by decide)
  have hdot : (Lexeme.mark .dot).Spelled := spelled_symbol (by decide)
  cases a with
  | star leaf =>
    obtain rfl : leaf = "*" := h
    exact spelled_cons hstar nofun
  | starOf parts leaf =>
    obtain rfl : leaf = "*" := h.2
    exact spelled_append (spelled_nameLexemes parts) (spelled_cons hdot (spelled_cons hstar nofun))
  | value e naming => exact spelled_append (Expr.spelled_lexemes e h.1) (spelled_namingLexemes h.2)

theorem FromItem.spelled_lexemes {s : FromItem String} (h : s.Printable) :
    ∀ token ∈ s.lexemes, token.Spelled :=
  spelled_append (spelled_nameLexemes s.parts) (spelled_namingLexemes h.2.2)

/-- Every token of a statement that can be printed has a spelling. -/
theorem Statement.spelled_lexemes {s : Statement String} (h : s.Printable) :
    ∀ token ∈ s.lexemes, token.Spelled := by
  obtain ⟨select, attributes, from_, sources, restriction⟩ := s
  obtain rfl : select = "SELECT" := h.select
  obtain rfl : from_ = "FROM" := h.from_
  have hselect : (Lexeme.mark .kwSelect).Spelled := spelled_keyword (by decide)
  have hcomma : (Lexeme.mark .comma).Spelled := spelled_symbol (by decide)
  have hfrom : (Lexeme.mark .kwFrom).Spelled := spelled_keyword (by decide)
  have hwhere : (Lexeme.mark .kwWhere).Spelled := spelled_keyword (by decide)
  have hattributes : ∀ run ∈ attributes.map Attribute.lexemes, ∀ token ∈ run, token.Spelled := by
    intro run hrun
    obtain ⟨a, ha, rfl⟩ := List.mem_map.mp hrun
    exact Attribute.spelled_lexemes (h.attributes a ha)
  have hsources : ∀ run ∈ sources.map FromItem.lexemes, ∀ token ∈ run, token.Spelled := by
    intro run hrun
    obtain ⟨source, hsource, rfl⟩ := List.mem_map.mp hrun
    exact FromItem.spelled_lexemes (h.sources source hsource)
  have hrestriction : ∀ token ∈ restrictionLexemes restriction, token.Spelled := by
    cases restriction with
    | none => exact nofun
    | some r =>
      obtain ⟨keyword, condition⟩ := r
      obtain ⟨rfl, hcondition⟩ := h.restriction _ rfl
      exact spelled_cons hwhere (Expr.spelled_lexemes condition hcondition)
  exact spelled_cons hselect (spelled_append (spelled_separated hcomma hattributes)
    (spelled_cons hfrom (spelled_append (spelled_separated hcomma hsources) hrestriction)))

end SelectEngine
