import SelectEngine.Token

/-!
# The grammar of statements

`Phrase.form` writes down the grammar over the kinds of tokens, one form for each phrase. `Spells`
says which kinds a list of forms can be written as, one after the other. A list of kinds is viable
if some sentence starts with it (`Viable`).
-/

set_option autoImplicit false

namespace SelectEngine.Grammar

/-- The phrases of the grammar. -/
inductive Phrase where
  | sentence | «attribute» | source | expr | operand | primary

/-- What a phrase is made of. -/
inductive Form where
  /-- One token of one of the kinds. -/
  | token (kinds : List TokenKind)
  | phrase (p : Phrase)
  /-- All of the forms, one after the other. -/
  | seq (forms : List Form)
  /-- One of the forms. -/
  | alt (forms : List Form)
  /-- The form or nothing. -/
  | opt (form : Form)
  /-- The form any number of times. -/
  | many (form : Form)

/-- A token of one kind. -/
def Form.one (kind : TokenKind) : Form := .token [kind]

/-! ## The phrases -/

/-- The kinds between two operands. -/
def binaryKinds : List TokenKind :=
  [.plus, .minus, .star, .slash, .percent, .kwMod, .concat, .eq, .ne, .lt, .gt, .le, .ge, .kwAnd,
    .kwOr, .kwXor]

/-- The kinds in front of an operand. -/
def leadingKinds : List TokenKind := [.kwNot, .minus, .plus]

/-- The kinds that are operands of their own. -/
def literalKinds : List TokenKind := [.string, .number, .kwNull, .question]

/-- A bare or quoted name. -/
def name : Form := .token [.ident, .quotedIdent]

/-- A point and a name. -/
def dotName : Form := .seq [.one .dot, name]

/-- `[AS] name`. -/
def naming : Form := .seq [.opt (.one .kwAs), name]

/-- What may stand behind an operand: a binary operator with another operand, or a null test. -/
def link : Form :=
  .alt [.seq [.token binaryKinds, .phrase .operand],
    .seq [.one .kwIs, .opt (.one .kwNot), .one .kwNull]]

/-- A comma and an expression. -/
def commaExpr : Form := .seq [.one .comma, .phrase .expr]

/-- The grammar. -/
def Phrase.form : Phrase → Form
  | sentence =>
    .seq [.one .kwSelect, .phrase .attribute, .many (.seq [.one .comma, .phrase .attribute]),
      .one .kwFrom, .phrase .source, .many (.seq [.one .comma, .phrase .source]),
      .opt (.seq [.one .kwWhere, .phrase .expr]), .opt (.one .semicolon), .one .eof]
  | «attribute» =>
    .alt [.one .star, .seq [name, .many dotName, .one .dot, .one .star],
      .seq [.phrase .expr, .opt naming]]
  | source =>
    .seq [name, .opt (.seq [.one .dot, name, .opt (.seq [.one .dot, name])]), .opt naming]
  | expr => .seq [.phrase .operand, .many link]
  | operand => .seq [.many (.token leadingKinds), .phrase .primary]
  | primary =>
    .alt [.token literalKinds, .seq [name, .many dotName],
      .seq [name, .one .lparen, .opt (.seq [.phrase .expr, .many commaExpr]), .one .rparen],
      .seq [.one .lparen, .phrase .expr, .one .rparen]]

/-! ## What forms are written as -/

/-- The forms, one after the other, can be written as tokens of the kinds. -/
inductive Spells : List Form → List TokenKind → Prop
  | nil : Spells [] []
  | token {kinds : List TokenKind} {kind : TokenKind} {rest : List Form} {w : List TokenKind}
      (hkind : kind ∈ kinds) (h : Spells rest w) : Spells (.token kinds :: rest) (kind :: w)
  | phrase {p : Phrase} {rest : List Form} {w : List TokenKind} (h : Spells (p.form :: rest) w) :
      Spells (.phrase p :: rest) w
  | seq {forms rest : List Form} {w : List TokenKind} (h : Spells (forms ++ rest) w) :
      Spells (.seq forms :: rest) w
  | alt {forms rest : List Form} {form : Form} {w : List TokenKind} (hform : form ∈ forms)
      (h : Spells (form :: rest) w) : Spells (.alt forms :: rest) w
  | skip {form : Form} {rest : List Form} {w : List TokenKind} (h : Spells rest w) :
      Spells (.opt form :: rest) w
  | take {form : Form} {rest : List Form} {w : List TokenKind} (h : Spells (form :: rest) w) :
      Spells (.opt form :: rest) w
  | stop {form : Form} {rest : List Form} {w : List TokenKind} (h : Spells rest w) :
      Spells (.many form :: rest) w
  | more {form : Form} {rest : List Form} {w : List TokenKind}
      (h : Spells (form :: .many form :: rest) w) : Spells (.many form :: rest) w

/-- Forms behind others are written behind them. -/
theorem Spells.append {forms rest : List Form} {w w' : List TokenKind} (h : Spells forms w)
    (hrest : Spells rest w') : Spells (forms ++ rest) (w ++ w') := by
  induction h with
  | nil => exact hrest
  | token hkind _ ih => exact .token hkind ih
  | phrase _ ih => exact .phrase ih
  | seq _ ih =>
    rw [List.append_assoc] at ih
    exact .seq ih
  | alt hform _ ih => exact .alt hform ih
  | skip _ ih => exact .skip ih
  | take _ ih => exact .take ih
  | stop _ ih => exact .stop ih
  | more _ ih => exact .more ih

/-- The kinds of the tokens of a whole statement. -/
def Sentence (w : List TokenKind) : Prop := Spells [.phrase .sentence] w

/-- Some sentence starts with these kinds. -/
def Viable (front : List TokenKind) : Prop := ∃ back, Sentence (front ++ back)

section

variable {forms rest : List Form} {form : Form} {kinds : List TokenKind} {kind : TokenKind}
variable {w : List TokenKind}

@[simp] theorem spells_nil_cons : ¬Spells [] (kind :: w) := nofun

@[simp] theorem spells_token_nil : ¬Spells (.token kinds :: rest) [] := nofun

@[simp] theorem spells_token_cons :
    Spells (.token kinds :: rest) (kind :: w) ↔ kind ∈ kinds ∧ Spells rest w := by
  constructor
  · intro h
    cases h with
    | token hkind h => exact ⟨hkind, h⟩
  · rintro ⟨hkind, h⟩
    exact .token hkind h

@[simp] theorem spells_one_nil : ¬Spells (.one kind :: rest) [] := nofun

@[simp] theorem spells_one_cons {expected : TokenKind} :
    Spells (.one expected :: rest) (kind :: w) ↔ kind = expected ∧ Spells rest w := by
  rw [Form.one, spells_token_cons, List.mem_singleton]

theorem spells_phrase {p : Phrase} : Spells (.phrase p :: rest) w ↔ Spells (p.form :: rest) w := by
  constructor
  · intro h
    cases h with
    | phrase h => exact h
  · exact .phrase

@[simp] theorem spells_seq : Spells (.seq forms :: rest) w ↔ Spells (forms ++ rest) w := by
  constructor
  · intro h
    cases h with
    | seq h => exact h
  · exact .seq

@[simp] theorem spells_alt :
    Spells (.alt forms :: rest) w ↔ ∃ form ∈ forms, Spells (form :: rest) w := by
  constructor
  · intro h
    cases h with
    | alt hform h => exact ⟨_, hform, h⟩
  · rintro ⟨form, hform, h⟩
    exact .alt hform h

@[simp] theorem spells_opt :
    Spells (.opt form :: rest) w ↔ Spells rest w ∨ Spells (form :: rest) w := by
  constructor
  · intro h
    cases h with
    | skip h => exact Or.inl h
    | take h => exact Or.inr h
  · rintro (h | h)
    · exact .skip h
    · exact .take h

/-- A repetition ends or goes on. No rule for `simp`, which would unfold it for ever. -/
theorem spells_many :
    Spells (.many form :: rest) w ↔ Spells rest w ∨ Spells (form :: .many form :: rest) w := by
  constructor
  · intro h
    cases h with
    | stop h => exact Or.inl h
    | more h => exact Or.inr h
  · rintro (h | h)
    · exact .stop h
    · exact .more h

/-! ## First tokens -/

@[simp] theorem spells_name_nil : ¬Spells (name :: rest) [] := nofun

@[simp] theorem spells_name_cons :
    Spells (name :: rest) (kind :: w) ↔ kind.isName = true ∧ Spells rest w := by
  have hname : kind ∈ [TokenKind.ident, .quotedIdent] ↔ kind.isName = true := by
    cases kind <;> decide
  rw [name, spells_token_cons, hname]

theorem spells_dotNames_nil : Spells (.many dotName :: rest) [] ↔ Spells rest [] := by
  rw [spells_many, dotName, spells_seq]
  simp

theorem spells_dotNames_cons :
    Spells (.many dotName :: rest) (kind :: w) ↔
      Spells rest (kind :: w) ∨ kind = .dot ∧ Spells (name :: .many dotName :: rest) w := by
  rw [spells_many, dotName, spells_seq]
  simp

theorem spells_commaExprs_cons :
    Spells (.many commaExpr :: rest) (kind :: w) ↔
      Spells rest (kind :: w) ∨
        kind = .comma ∧ Spells (.phrase .expr :: .many commaExpr :: rest) w := by
  rw [spells_many, commaExpr, spells_seq]
  simp

theorem spells_links_cons :
    Spells (.many link :: rest) (kind :: w) ↔
      Spells rest (kind :: w) ∨
        kind ∈ binaryKinds ∧ Spells (.phrase .operand :: .many link :: rest) w ∨
        kind = .kwIs ∧ Spells (.opt (.one .kwNot) :: .one .kwNull :: .many link :: rest) w := by
  rw [spells_many, link, spells_alt]
  simp

theorem spells_naming_cons :
    Spells (naming :: rest) (kind :: w) ↔
      kind.isName = true ∧ Spells rest w ∨ kind = .kwAs ∧ Spells (name :: rest) w := by
  rw [naming, spells_seq]
  simp

theorem spells_expr : Spells (.phrase .expr :: rest) w ↔
    Spells (.phrase .operand :: .many link :: rest) w := by
  rw [spells_phrase, Phrase.form, spells_seq]
  rfl

/-- The arguments of a call with its parentheses. -/
def arguments : Form :=
  .seq [.one .lparen, .opt (.seq [.phrase .expr, .many commaExpr]), .one .rparen]

@[simp] theorem spells_arguments_nil : ¬Spells (arguments :: rest) [] := by
  rw [arguments, spells_seq]
  exact nofun

@[simp] theorem spells_arguments_cons :
    Spells (arguments :: rest) (kind :: w) ↔ kind = .lparen ∧
      Spells (.opt (.seq [.phrase .expr, .many commaExpr]) :: .one .rparen :: rest) w := by
  rw [arguments, spells_seq]
  simp

theorem spells_primary_cons :
    Spells (.phrase .primary :: rest) (kind :: w) ↔
      kind ∈ literalKinds ∧ Spells rest w ∨
      kind.isName = true ∧ (Spells (.many dotName :: rest) w ∨ Spells (arguments :: rest) w) ∨
      kind = .lparen ∧ Spells (.phrase .expr :: .one .rparen :: rest) w := by
  rw [spells_phrase, Phrase.form, spells_alt, arguments]
  simp only [List.mem_cons, List.not_mem_nil, or_false, exists_eq_or_imp, exists_eq_left,
    spells_token_cons, spells_seq, List.cons_append, List.nil_append, spells_name_cons,
    spells_one_cons]
  rw [and_or_left, or_assoc]

theorem spells_operand : Spells (.phrase .operand :: rest) w ↔
    Spells (.many (.token leadingKinds) :: .phrase .primary :: rest) w := by
  rw [spells_phrase, Phrase.form, spells_seq]
  rfl

theorem spells_operand_cons :
    Spells (.phrase .operand :: rest) (kind :: w) ↔
      kind ∈ leadingKinds ∧ Spells (.phrase .operand :: rest) w ∨
      kind ∈ literalKinds ∧ Spells rest w ∨
      kind.isName = true ∧ (Spells (.many dotName :: rest) w ∨ Spells (arguments :: rest) w) ∨
      kind = .lparen ∧ Spells (.phrase .expr :: .one .rparen :: rest) w := by
  rw [spells_operand, spells_many, spells_token_cons, ← spells_operand, spells_primary_cons]
  exact or_comm

end

end SelectEngine.Grammar
