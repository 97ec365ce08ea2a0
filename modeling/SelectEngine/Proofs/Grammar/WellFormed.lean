import SelectEngine.Grammar.Clause
import SelectEngine.Proofs.Run

/-!
# Statements that have been read

Every statement that the reader accepts is well formed: operators have the operands that they take,
names have parts, and there are attributes and sources (`wellFormed_of_readStatement`). The reader
keeps this of everything that it holds: `State.WellFormed` and `Stage.WellFormed` say so of what is
open around the token that is due, and every token keeps them.
-/

set_option autoImplicit false

namespace SelectEngine

variable {τ : Type}

/-! ## Well-formed statements -/

namespace Expr

mutual

/-- Operators have as many operands as they take, and names have parts. -/
def WellFormed : Expr τ → Prop
  | .text _ | .number _ | .null _ | .param _ => True
  | .name parts => parts ≠ []
  | .call _ args => AllWellFormed args
  | .unary op operand => op.isUnary = true ∧ operand.WellFormed
  | .binary op left right => op.isUnary = false ∧ left.WellFormed ∧ right.WellFormed

def AllWellFormed : List (Expr τ) → Prop
  | [] => True
  | e :: es => e.WellFormed ∧ AllWellFormed es

end

theorem allWellFormed_iff (es : List (Expr τ)) : AllWellFormed es ↔ ∀ e ∈ es, e.WellFormed := by
  induction es with
  | nil => simp [AllWellFormed]
  | cons e es ih => rw [AllWellFormed, ih, List.forall_mem_cons]

end Expr

def Attribute.WellFormed : Attribute τ → Prop
  | star _ => True
  | starOf parts _ => parts ≠ []
  | value e _ => e.WellFormed

/-- A source has a name of one to three parts. -/
def FromItem.WellFormed (s : FromItem τ) : Prop := s.parts ≠ [] ∧ s.parts.length ≤ 3

/-- There are attributes and sources, and all parts of the statement are well formed. -/
structure Statement.WellFormed (s : Statement τ) : Prop where
  attributes_ne : s.attributes ≠ []
  attributes : ∀ a ∈ s.attributes, a.WellFormed
  sources_ne : s.sources ≠ []
  sources : ∀ source ∈ s.sources, source.WellFormed
  restriction : ∀ r ∈ s.restriction, r.condition.WellFormed

namespace Grammar

/-! ## Expressions -/

def Pending.WellFormed : Pending τ → Prop
  | binary op left => op.isUnary = false ∧ left.WellFormed
  | leading op => op.isUnary = true
  | paren => True
  | call _ args => ∀ e ∈ args, e.WellFormed

def Phase.WellFormed : Phase τ → Prop
  | operand | firstArgument => True
  | operator left => left.WellFormed
  | name parts | nameDot parts => parts ≠ []
  | isTest e | isNotTest e => e.WellFormed

/-- What is open and what has just been read is well formed. -/
structure State.WellFormed (s : State τ) : Prop where
  stack : ∀ p ∈ s.stack, p.WellFormed
  phase : s.phase.WellFormed

def Progress.WellFormed : Progress τ → Prop
  | more s => s.WellFormed
  | finished e => e.WellFormed
  | starOf parts _ => parts ≠ []

/-- An operator in front of an operand takes one operand. -/
theorem isUnary_of_leading {kind : TokenKind} {op : Operator} (h : leading? kind = some op) :
    op.isUnary = true := by
  cases kind <;> cases h <;> rfl

/-- An operator between two operands takes two. -/
theorem isUnary_of_binary {kind : TokenKind} {op : Operator} (h : kind.binary? = some op) :
    op.isUnary = false := by
  cases kind <;> cases h <;> rfl

theorem reduce_wellFormed (least : Nat) {operand : Expr τ} {stack : List (Pending τ)}
    (hoperand : operand.WellFormed) (hstack : ∀ p ∈ stack, p.WellFormed) :
    (reduce least operand stack).1.WellFormed ∧
      ∀ p ∈ (reduce least operand stack).2, p.WellFormed := by
  induction stack generalizing operand with
  | nil => exact ⟨hoperand, hstack⟩
  | cons p stack ih =>
    obtain ⟨hp, hrest⟩ := List.forall_mem_cons.mp hstack
    cases p with
    | binary op left =>
      rw [reduce]
      split
      · exact ih ⟨hp.1, hp.2, hoperand⟩ hrest
      · exact ⟨hoperand, hstack⟩
    | leading op =>
      rw [reduce]
      split
      · exact ih ⟨hp, hoperand⟩ hrest
      · exact ⟨hoperand, hstack⟩
    | paren | call => exact ⟨hoperand, hstack⟩

namespace State

variable {s : State τ} {kind : TokenKind} {leaf : τ} {progress : Progress τ}

theorem start_wellFormed (allowStar : Bool) : (start allowStar : State τ).WellFormed :=
  ⟨nofun, trivial⟩

theorem onOperand_wellFormed (hs : s.WellFormed) (h : s.onOperand kind leaf = some progress) :
    progress.WellFormed := by
  unfold onOperand at h
  split at h
  case h_1 | h_2 | h_3 | h_4 =>
    cases h
    exact ⟨hs.stack, trivial⟩
  case h_5 | h_6 =>
    cases h
    exact ⟨hs.stack, List.cons_ne_nil leaf []⟩
  case h_7 =>
    cases h
    exact ⟨List.forall_mem_cons.mpr ⟨trivial, hs.stack⟩, trivial⟩
  case h_8 =>
    obtain ⟨op, hop, rfl⟩ := Option.map_eq_some_iff.mp h
    exact ⟨List.forall_mem_cons.mpr ⟨isUnary_of_leading hop, hs.stack⟩, trivial⟩

theorem onFirstArgument_wellFormed (hs : s.WellFormed)
    (h : s.onFirstArgument kind leaf = some progress) : progress.WellFormed := by
  unfold onFirstArgument at h
  split at h
  · next function args stack hstack =>
    cases h
    -- The call has no arguments yet, and is closed without one.
    have hopen := hs.stack
    rw [hstack] at hopen
    obtain ⟨hargs, hrest⟩ := List.forall_mem_cons.mp hopen
    have hreversed : ∀ e ∈ args.reverse, e.WellFormed := fun e he =>
      hargs e (List.mem_reverse.mp he)
    exact ⟨hrest, (Expr.allWellFormed_iff _).mpr hreversed⟩
  · exact onOperand_wellFormed hs h

theorem afterOperand_wellFormed {left : Expr τ} (hs : s.WellFormed) (hleft : left.WellFormed)
    (h : s.afterOperand left kind = some progress) : progress.WellFormed := by
  have hreduce (least : Nat) := reduce_wellFormed least hleft hs.stack
  unfold afterOperand at h
  split at h
  · next op hop =>
    obtain ⟨hoperand, hstack⟩ := hreduce op.strength
    cases h
    exact ⟨List.forall_mem_cons.mpr ⟨⟨isUnary_of_binary hop, hoperand⟩, hstack⟩, trivial⟩
  split at h
  · obtain ⟨hoperand, hstack⟩ := hreduce Operator.isNull.strength
    cases h
    exact ⟨hstack, hoperand⟩
  -- A group or a call is closed, an argument is finished, or the expression is.
  have hclosed := hreduce 0
  generalize reduce 0 left s.stack = reduced at h hclosed
  split at h
  · cases h
    exact ⟨(List.forall_mem_cons.mp hclosed.2).2, hclosed.1⟩
  · obtain ⟨hargs, hstack⟩ := List.forall_mem_cons.mp hclosed.2
    have hall := List.forall_mem_cons.mpr ⟨hclosed.1, hargs⟩
    cases h
    exact ⟨hstack, (Expr.allWellFormed_iff _).mpr fun e he => hall e (List.mem_reverse.mp he)⟩
  · obtain ⟨hargs, hstack⟩ := List.forall_mem_cons.mp hclosed.2
    have hall := List.forall_mem_cons.mpr ⟨hclosed.1, hargs⟩
    cases h
    exact ⟨List.forall_mem_cons.mpr ⟨hall, hstack⟩, trivial⟩
  · cases h
    exact hclosed.1
  · cases h

theorem onName_wellFormed {parts : List τ} (hs : s.WellFormed) (hparts : parts ≠ [])
    (h : s.onName parts kind = some progress) : progress.WellFormed := by
  unfold onName at h
  split at h
  · cases h
    exact ⟨hs.stack, hparts⟩
  · cases h
    exact ⟨List.forall_mem_cons.mpr ⟨nofun, hs.stack⟩, trivial⟩
  · cases h
  · have hname : (Expr.name parts).WellFormed := hparts
    exact afterOperand_wellFormed hs hname h

theorem onNameDot_wellFormed {parts : List τ} (hs : s.WellFormed) (hparts : parts ≠ [])
    (h : s.onNameDot parts kind leaf = some progress) : progress.WellFormed := by
  unfold onNameDot at h
  split at h
  · cases h
    exact ⟨hs.stack, List.append_ne_nil_of_right_ne_nil parts (List.cons_ne_nil leaf [])⟩
  · cases h
    exact ⟨hs.stack, List.append_ne_nil_of_right_ne_nil parts (List.cons_ne_nil leaf [])⟩
  · split at h
    · cases h
      exact hparts
    · cases h
  · cases h

/-- A token keeps what is held of an expression well formed. -/
theorem feed_wellFormed (hs : s.WellFormed) (h : s.feed kind leaf = some progress) :
    progress.WellFormed := by
  have hphase := hs.phase
  unfold feed at h
  split at h
  · exact onOperand_wellFormed hs h
  · exact onFirstArgument_wellFormed hs h
  · next left heq =>
    rw [heq] at hphase
    exact afterOperand_wellFormed hs hphase h
  · next parts heq =>
    rw [heq] at hphase
    exact onName_wellFormed hs hphase h
  · next parts heq =>
    rw [heq] at hphase
    exact onNameDot_wellFormed hs hphase h
  · -- A test applies to the operand that was read before it, and takes just that one.
    next operand heq =>
    rw [heq] at hphase
    split at h
    · cases h
      exact ⟨hs.stack, hphase⟩
    · cases h
      exact ⟨hs.stack, rfl, hphase⟩
    · cases h
  · next operand heq =>
    rw [heq] at hphase
    split at h
    · cases h
      exact ⟨hs.stack, rfl, hphase⟩
    · cases h

end State

/-! ## Statements -/

def Head.WellFormed (head : Head τ) : Prop := ∀ a ∈ head.attributes, a.WellFormed

structure Body.WellFormed (body : Body τ) : Prop where
  attributes_ne : body.attributes ≠ []
  attributes : ∀ a ∈ body.attributes, a.WellFormed
  sources : ∀ source ∈ body.sources, source.WellFormed

/-- What has been read of a statement is well formed. -/
def Stage.WellFormed : Stage τ → Prop
  | start => True
  | «attribute» head => head.WellFormed
  | attributeExpr head expr => head.WellFormed ∧ expr.WellFormed
  | attributeName head value _ => head.WellFormed ∧ value.WellFormed
  | attributeEnd head last => head.WellFormed ∧ last.WellFormed
  | source body => body.WellFormed
  | sourceParts body parts => body.WellFormed ∧ parts ≠ [] ∧ parts.length ≤ 3
  | sourceDot body parts => body.WellFormed ∧ parts.length < 3
  | sourceName body parts _ => body.WellFormed ∧ parts ≠ [] ∧ parts.length ≤ 3
  | sourceEnd body => body.WellFormed ∧ body.sources ≠ []
  | condition body _ expr => body.WellFormed ∧ body.sources ≠ [] ∧ expr.WellFormed
  | closed statement => statement.WellFormed

def Outcome.WellFormed : Outcome τ → Prop
  | more stage => stage.WellFormed
  | accepted statement => statement.WellFormed

theorem Body.close_wellFormed {body : Body τ} (hbody : body.WellFormed) (hne : body.sources ≠ [])
    {restriction : Option (Restriction τ)} (h : ∀ r ∈ restriction, r.condition.WellFormed) :
    (body.close restriction).WellFormed where
  attributes_ne := List.reverse_ne_nil_iff.mpr hbody.attributes_ne
  attributes a ha := hbody.attributes a (List.mem_reverse.mp ha)
  sources_ne := List.reverse_ne_nil_iff.mpr hne
  sources source hsource := hbody.sources source (List.mem_reverse.mp hsource)
  restriction := h

namespace Stage

variable {head : Head τ} {body : Body τ} {parts : List τ} {kind : TokenKind} {leaf : τ}
variable {outcome : Outcome τ}

theorem afterAttribute_wellFormed {last : Attribute τ} (hhead : head.WellFormed)
    (hlast : last.WellFormed) (h : afterAttribute head last kind leaf = some outcome) :
    outcome.WellFormed := by
  have hall : ∀ a ∈ last :: head.attributes, a.WellFormed :=
    List.forall_mem_cons.mpr ⟨hlast, hhead⟩
  unfold afterAttribute at h
  split at h
  · cases h
    exact hall
  · cases h
    exact ⟨List.cons_ne_nil _ _, hall, nofun⟩
  · cases h

theorem afterValue_wellFormed {value : Expr τ} (hhead : head.WellFormed)
    (hvalue : value.WellFormed) (h : afterValue head value kind leaf = some outcome) :
    outcome.WellFormed := by
  unfold afterValue at h
  split at h
  · cases h
    exact ⟨hhead, hvalue⟩
  · cases h
    exact ⟨hhead, hvalue⟩
  · cases h
    exact ⟨hhead, hvalue⟩
  · have hlast : (Attribute.value value none).WellFormed := hvalue
    exact afterAttribute_wellFormed hhead hlast h

theorem onAttributeExpr_wellFormed {expr : State τ} (hhead : head.WellFormed)
    (hexpr : expr.WellFormed) (h : onAttributeExpr head expr kind leaf = some outcome) :
    outcome.WellFormed := by
  unfold onAttributeExpr at h
  split at h
  · next hfeed =>
    cases h
    exact ⟨hhead, State.feed_wellFormed hexpr hfeed⟩
  · next hfeed => exact afterValue_wellFormed hhead (State.feed_wellFormed hexpr hfeed) h
  · next hfeed =>
    cases h
    exact ⟨hhead, State.feed_wellFormed hexpr hfeed⟩
  · cases h

theorem afterSource_wellFormed (hbody : body.WellFormed) (hne : body.sources ≠ [])
    (h : afterSource body kind leaf = some outcome) : outcome.WellFormed := by
  unfold afterSource at h
  split at h
  · cases h
    exact hbody
  · cases h
    exact ⟨hbody, hne, State.start_wellFormed false⟩
  · cases h
    exact Body.close_wellFormed hbody hne nofun
  · cases h
    exact Body.close_wellFormed hbody hne nofun
  · cases h

theorem addSource_wellFormed (hbody : body.WellFormed) (hparts : parts ≠ [] ∧ parts.length ≤ 3)
    (naming : Option (Naming τ)) : (addSource body parts naming).WellFormed where
  attributes_ne := hbody.attributes_ne
  attributes := hbody.attributes
  sources := List.forall_mem_cons.mpr ⟨hparts, hbody.sources⟩

theorem onSourceParts_wellFormed (hbody : body.WellFormed)
    (hparts : parts ≠ [] ∧ parts.length ≤ 3)
    (h : onSourceParts body parts kind leaf = some outcome) : outcome.WellFormed := by
  have hnamed (naming : Option (Naming τ)) := addSource_wellFormed hbody hparts naming
  unfold onSourceParts at h
  split at h
  · split at h
    · next hlength =>
      cases h
      exact ⟨hbody, hlength⟩
    · cases h
  · cases h
    exact ⟨hbody, hparts⟩
  case h_3 | h_4 =>
    cases h
    exact ⟨hnamed _, List.cons_ne_nil _ _⟩
  case h_5 | h_6 | h_7 | h_8 => exact afterSource_wellFormed (hnamed none) (List.cons_ne_nil _ _) h
  · cases h

theorem onCondition_wellFormed {keyword : τ} {expr : State τ} (hbody : body.WellFormed)
    (hne : body.sources ≠ []) (hexpr : expr.WellFormed)
    (h : onCondition body keyword expr kind leaf = some outcome) : outcome.WellFormed := by
  unfold onCondition at h
  split at h
  · next hfeed =>
    cases h
    exact ⟨hbody, hne, State.feed_wellFormed hexpr hfeed⟩
  · next test hfeed =>
    have htest : test.WellFormed := State.feed_wellFormed hexpr hfeed
    have hclose : (body.close (some ⟨keyword, test⟩)).WellFormed :=
      Body.close_wellFormed hbody hne fun r hr => by
        cases hr
        exact htest
    split at h
    · cases h
      exact hclose
    · cases h
      exact hclose
    · cases h
  · cases h
  · cases h

theorem start_wellFormed : (start : Stage τ).WellFormed := trivial

/-- A token keeps what is held of a statement well formed. -/
theorem feed_wellFormed {stage : Stage τ} (hstage : stage.WellFormed)
    (h : stage.feed kind leaf = some outcome) : outcome.WellFormed := by
  cases stage with
  | start =>
    rw [feed] at h
    split at h
    · cases h
      exact (nofun : Head.WellFormed ⟨leaf, []⟩)
    · cases h
  | «attribute» head =>
    rw [feed] at h
    split at h
    · cases h
      exact ⟨hstage, trivial⟩
    · exact onAttributeExpr_wellFormed hstage (State.start_wellFormed true) h
  | attributeExpr head expr => exact onAttributeExpr_wellFormed hstage.1 hstage.2 h
  | attributeName head value keyword =>
    rw [feed] at h
    split at h
    · cases h
      exact hstage
    · cases h
  | attributeEnd head last => exact afterAttribute_wellFormed hstage.1 hstage.2 h
  | source body =>
    rw [feed] at h
    split at h
    · cases h
      exact ⟨hstage, List.cons_ne_nil leaf [], Nat.succ_le_succ (Nat.zero_le 2)⟩
    · cases h
  | sourceParts body parts => exact onSourceParts_wellFormed hstage.1 hstage.2 h
  | sourceDot body parts =>
    rw [feed] at h
    split at h
    · -- The point was only taken behind fewer than three parts.
      cases h
      refine ⟨hstage.1, List.append_ne_nil_of_right_ne_nil parts (List.cons_ne_nil leaf []), ?_⟩
      rw [List.length_append]
      exact hstage.2
    · cases h
  | sourceName body parts keyword =>
    rw [feed] at h
    split at h
    · cases h
      exact ⟨addSource_wellFormed hstage.1 hstage.2 _, List.cons_ne_nil _ _⟩
    · cases h
  | sourceEnd body => exact afterSource_wellFormed hstage.1 hstage.2 h
  | condition body keyword expr =>
    exact onCondition_wellFormed hstage.1 hstage.2.1 hstage.2.2 h
  | closed statement =>
    rw [feed] at h
    split at h
    · cases h
      exact hstage
    · cases h

end Stage

end Grammar

/-- The statement that is read from a well-formed stage on is well formed. -/
theorem wellFormed_of_readStatement {source : String} {s : Scan} {stage : Grammar.Stage TokenId}
    {tokens all : Array Token} {statement : Statement TokenId} (hstage : stage.WellFormed)
    (h : readStatement source s stage tokens = .ok (statement, all)) : statement.WellFormed := by
  fun_induction readStatement source s stage tokens with
  | case1 => cases h
  | case2 => cases h
  | case3 s stage tokens t past hnext accepted hfeed =>
    cases h
    exact Grammar.Stage.feed_wellFormed hstage hfeed
  | case4 => cases h
  | case5 s stage tokens t past hnext later hfeed hne hshorter ih =>
    exact ih (Grammar.Stage.feed_wellFormed hstage hfeed) h

end SelectEngine
