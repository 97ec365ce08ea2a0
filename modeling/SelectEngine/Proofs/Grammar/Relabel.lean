import SelectEngine.Grammar.Clause

/-!
# Relabelling

A statement with other leaves, and what a reader of statements holds with other leaves.
-/

set_option autoImplicit false

namespace SelectEngine

variable {τ ρ : Type}

/-! ## Relabelled statements -/

mutual

/-- The expression with other leaves. -/
def Expr.map (f : τ → ρ) : Expr τ → Expr ρ
  | .text leaf => .text (f leaf)
  | .number leaf => .number (f leaf)
  | .null leaf => .null (f leaf)
  | .param leaf => .param (f leaf)
  | .name parts => .name (parts.map f)
  | .call function args => .call (f function) (Expr.mapAll f args)
  | .unary op operand => .unary op (operand.map f)
  | .binary op left right => .binary op (left.map f) (right.map f)

/-- Several expressions with other leaves. -/
def Expr.mapAll (f : τ → ρ) : List (Expr τ) → List (Expr ρ)
  | [] => []
  | e :: es => e.map f :: Expr.mapAll f es

end

def Naming.map (f : τ → ρ) (n : Naming τ) : Naming ρ := ⟨n.keyword.map f, f n.name⟩

def Attribute.map (f : τ → ρ) : Attribute τ → Attribute ρ
  | star leaf => .star (f leaf)
  | starOf parts leaf => .starOf (parts.map f) (f leaf)
  | value e naming => .value (e.map f) (naming.map (Naming.map f))

def FromItem.map (f : τ → ρ) (s : FromItem τ) : FromItem ρ :=
  ⟨s.parts.map f, s.naming.map (Naming.map f)⟩

def Restriction.map (f : τ → ρ) (r : Restriction τ) : Restriction ρ :=
  ⟨f r.keyword, r.condition.map f⟩

/-- The statement with other leaves. -/
def Statement.map (f : τ → ρ) (s : Statement τ) : Statement ρ :=
  ⟨f s.select, s.attributes.map (Attribute.map f), f s.from_, s.sources.map (FromItem.map f),
    s.restriction.map (Restriction.map f)⟩

namespace Grammar

/-! ## Relabelled readers -/

def Pending.map (f : τ → ρ) : Pending τ → Pending ρ
  | binary op left => .binary op (left.map f)
  | leading op => .leading op
  | paren => .paren
  | call function args => .call (f function) (args.map (Expr.map f))

def Phase.map (f : τ → ρ) : Phase τ → Phase ρ
  | operand => .operand
  | firstArgument => .firstArgument
  | operator left => .operator (left.map f)
  | name parts => .name (parts.map f)
  | nameDot parts => .nameDot (parts.map f)
  | isTest e => .isTest (e.map f)
  | isNotTest e => .isNotTest (e.map f)

def State.map (f : τ → ρ) (s : State τ) : State ρ :=
  ⟨s.stack.map (Pending.map f), s.phase.map f, s.allowStar⟩

def Progress.map (f : τ → ρ) : Progress τ → Progress ρ
  | more s => .more (s.map f)
  | finished e => .finished (e.map f)
  | starOf parts star => .starOf (parts.map f) (f star)

def Head.map (f : τ → ρ) (h : Head τ) : Head ρ := ⟨f h.select, h.attributes.map (Attribute.map f)⟩

def Body.map (f : τ → ρ) (b : Body τ) : Body ρ :=
  ⟨f b.select, b.attributes.map (Attribute.map f), f b.from_, b.sources.map (FromItem.map f)⟩

def Stage.map (f : τ → ρ) : Stage τ → Stage ρ
  | .start => .start
  | .attribute head => .attribute (head.map f)
  | .attributeExpr head expr => .attributeExpr (head.map f) (expr.map f)
  | .attributeName head value keyword => .attributeName (head.map f) (value.map f) (f keyword)
  | .attributeEnd head last => .attributeEnd (head.map f) (last.map f)
  | .source body => .source (body.map f)
  | .sourceParts body parts => .sourceParts (body.map f) (parts.map f)
  | .sourceDot body parts => .sourceDot (body.map f) (parts.map f)
  | .sourceName body parts keyword => .sourceName (body.map f) (parts.map f) (f keyword)
  | .sourceEnd body => .sourceEnd (body.map f)
  | .condition body keyword expr => .condition (body.map f) (f keyword) (expr.map f)
  | .closed statement => .closed (statement.map f)

def Outcome.map (f : τ → ρ) : Outcome τ → Outcome ρ
  | more stage => .more (stage.map f)
  | accepted statement => .accepted (statement.map f)

end Grammar

end SelectEngine
