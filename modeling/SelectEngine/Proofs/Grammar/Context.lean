import SelectEngine.Proofs.Grammar.Params

/-!
# Leaves by the tokens in front of them

Whether a token is a leaf is told by its kind, but for `NULL`, which may end a null test, and the
star, which may multiply. `leafTypeAfter` tells these apart by the tokens in front of them alone,
without a look at the grammar. The reader agrees: its stage always fits the tokens that have been
read (`Stage.fits_feed`), so that the leaves of a statement are those of its tokens
(`Stage.leavesOf_eq_leavesAfter`).
-/

set_option autoImplicit false

namespace SelectEngine.Grammar

variable {τ : Type}

/-- Behind these tokens, the latest of which comes first, `NULL` ends a null test. -/
def testsNullAfter : List TokenKind → Bool
  | .kwIs :: _ | .kwNot :: .kwIs :: _ => true
  | _ => false

/-- Behind these tokens, the latest of which comes first, a star stands for columns: there is no
operand in front of it that it could multiply. -/
def starAfter : List TokenKind → Bool
  | .kwSelect :: _ | .comma :: _ | .dot :: _ => true
  | _ => false

/-- The type of the leaf that a token is behind others, the latest of which comes first. -/
def leafTypeAfter (before : List TokenKind) : TokenKind → Option NodeType
  | .kwSelect | .kwFrom | .kwWhere | .kwAs => some .token
  | .star => if starAfter before then some .token else none
  | .ident | .quotedIdent => some .id
  | .string => some .text
  | .number => some .number
  | .question => some .param
  | .kwNull => if testsNullAfter before then none else some .null
  | _ => none

variable {before : List TokenKind} {kind : TokenKind} {leaf : τ}

theorem leafTypeAfter_of_ne (hstar : kind ≠ .star) (hnull : kind ≠ .kwNull) :
    leafTypeAfter before kind = if opensClause kind then some .token else operandType? kind := by
  cases kind <;> first | rfl | exact absurd rfl hstar | exact absurd rfl hnull

/-- No operator that stands between operands, and nothing else behind which an operand is due,
starts a null test. -/
theorem testsNullAfter_cons (his : kind ≠ .kwIs) (hnot : kind ≠ .kwNot) :
    testsNullAfter (kind :: before) = false := by
  cases kind <;> first | rfl | exact absurd rfl his | exact absurd rfl hnot

/-- `NOT` in front of an operand is part of no null test. -/
theorem testsNullAfter_not (h : testsNullAfter before = false) :
    testsNullAfter (.kwNot :: before) = false := by
  unfold testsNullAfter
  split
  · next heq => cases heq
  · next heq =>
    cases heq
    cases h
  · rfl

/-! ## Expressions -/

/-- The phase of the reader of an expression is one that the tokens in front may lead to. -/
def Phase.Fits (before : List TokenKind) : Phase τ → Prop
  | .operand | .firstArgument => testsNullAfter before = false
  | .operator _ | .name _ => starAfter before = false
  | .nameDot _ => starAfter before = true
  | .isTest _ => before.head? = some .kwIs
  | .isNotTest _ => testsNullAfter before = true

namespace State

variable {s : State τ} {progress : Progress τ}

/-- What a token made of the reader of an expression fits it and the tokens in front of it, and the
token is the leaf that these make it. -/
inductive Suits (s : State τ) (before : List TokenKind) (kind : TokenKind) : Progress τ → Prop
  | more {later : State τ} (hfits : later.phase.Fits (kind :: before))
      (htype : s.leafType? kind = leafTypeAfter before kind) : Suits s before kind (.more later)
  | finished {e : Expr τ} : Suits s before kind (.finished e)
  | starOf {parts : List τ} {star : τ} (hstar : starAfter before = true) :
      Suits s before kind (.starOf parts star)

theorem suits_onOperand (htest : s.phase.testsNull = false)
    (hbefore : testsNullAfter before = false) (h : s.onOperand kind leaf = some progress) :
    s.Suits before kind progress := by
  have htype : s.leafType? kind = operandType? kind := leafType?_of_eq htest
  cases kind with
  | kwNull =>
    cases h
    exact .more rfl (by rw [htype, leafTypeAfter, hbefore]; rfl)
  | kwNot =>
    cases h
    exact .more (testsNullAfter_not hbefore) htype
  | number | string | question | ident | quotedIdent | lparen | minus | plus =>
    cases h
    exact .more rfl htype
  | _ => cases h

theorem suits_onFirstArgument (htest : s.phase.testsNull = false)
    (hbefore : testsNullAfter before = false) (h : s.onFirstArgument kind leaf = some progress) :
    s.Suits before kind progress := by
  unfold onFirstArgument at h
  split at h
  · cases h
    exact .more rfl (leafType?_of_eq htest)
  · exact suits_onOperand htest hbefore h

theorem suits_afterOperand {left : Expr τ} (htest : s.phase.testsNull = false)
    (hbefore : starAfter before = false) (h : s.afterOperand left kind = some progress) :
    s.Suits before kind progress := by
  have htype : s.leafType? kind = operandType? kind := leafType?_of_eq htest
  unfold afterOperand at h
  split at h
  · next op hop =>
    cases h
    have his : kind ≠ .kwIs := by
      rintro rfl
      cases hop
    have hnot : kind ≠ .kwNot := by
      rintro rfl
      cases hop
    -- Among the operators is the star, which has an operand in front of it here.
    have hoperand : operandType? kind = leafTypeAfter before kind := by
      by_cases hstar : kind = .star
      · rw [hstar, leafTypeAfter, hbefore]
        rfl
      · cases kind <;> first | rfl | exact absurd rfl hstar | cases hop
    exact .more (testsNullAfter_cons his hnot) (htype.trans hoperand)
  · split at h
    · next his =>
      subst his
      cases h
      exact .more rfl htype
    · split at h
      · cases h
        exact .more rfl htype
      · cases h
        exact .more rfl htype
      · cases h
        exact .more rfl htype
      · cases h
        exact .finished
      · cases h

theorem suits_onName {parts : List τ} (htest : s.phase.testsNull = false)
    (hbefore : starAfter before = false) (h : s.onName parts kind = some progress) :
    s.Suits before kind progress := by
  unfold onName at h
  split at h
  · cases h
    exact .more rfl (leafType?_of_eq htest)
  · cases h
    exact .more rfl (leafType?_of_eq htest)
  · cases h
  · exact suits_afterOperand htest hbefore h

theorem suits_onNameDot {parts : List τ} (htest : s.phase.testsNull = false)
    (hbefore : starAfter before = true) (h : s.onNameDot parts kind leaf = some progress) :
    s.Suits before kind progress := by
  unfold onNameDot at h
  split at h
  · cases h
    exact .more rfl (leafType?_of_eq htest)
  · cases h
    exact .more rfl (leafType?_of_eq htest)
  · split at h
    · cases h
      exact .starOf hbefore
    · cases h
  · cases h

theorem suits_feed (hs : s.phase.Fits before) (h : s.feed kind leaf = some progress) :
    s.Suits before kind progress := by
  obtain ⟨stack, phase, allowStar⟩ := s
  cases phase with
  | operand => exact suits_onOperand rfl hs h
  | firstArgument => exact suits_onFirstArgument rfl hs h
  | operator left => exact suits_afterOperand rfl hs h
  | name parts => exact suits_onName rfl hs h
  | nameDot parts => exact suits_onNameDot rfl hs h
  | isTest operand =>
    obtain ⟨earlier, rfl⟩ := List.head?_eq_some_iff.mp hs
    cases kind with
    | kwNot | kwNull =>
      cases h
      exact .more rfl rfl
    | _ => cases h
  | isNotTest operand =>
    cases kind with
    | kwNull =>
      cases h
      refine .more rfl ?_
      have htest : testsNullAfter before = true := hs
      rw [leafTypeAfter, htest]
      rfl
    | _ => cases h

end State

/-! ## Statements -/

namespace Stage

variable {stage : Stage τ} {outcome : Outcome τ}

/-- The stage of the reader is one that the tokens in front may lead to. -/
def Fits (before : List TokenKind) : Stage τ → Prop
  | .attribute _ => starAfter before = true ∧ testsNullAfter before = false
  | .attributeExpr _ expr | .condition _ _ expr => expr.phase.Fits before
  | _ => True

/-- What a token made of the reader fits it and the tokens in front of it. -/
def Outcome.Fits (before : List TokenKind) : Outcome τ → Prop
  | .more stage => stage.Fits before
  | .accepted _ => True

/-- Behind an attribute there is neither a star nor `NULL`. -/
theorem fits_afterAttribute {head : Head τ} {last : Attribute τ}
    (h : afterAttribute head last kind leaf = some outcome) :
    Outcome.Fits (kind :: before) outcome ∧ kind ≠ .star ∧ kind ≠ .kwNull := by
  cases kind with
  | comma | kwFrom =>
    cases h
    exact ⟨by simp [Outcome.Fits, Fits, starAfter, testsNullAfter], by decide⟩
  | _ => cases h

theorem fits_afterValue {head : Head τ} {value : Expr τ}
    (h : afterValue head value kind leaf = some outcome) :
    Outcome.Fits (kind :: before) outcome ∧ kind ≠ .star ∧ kind ≠ .kwNull := by
  unfold afterValue at h
  split at h
  · cases h
    exact ⟨trivial, by decide⟩
  · cases h
    exact ⟨trivial, by decide⟩
  · cases h
    exact ⟨trivial, by decide⟩
  · exact fits_afterAttribute h

theorem fits_onAttributeExpr {head : Head τ} {expr : State τ} (hexpr : expr.phase.Fits before)
    (h : onAttributeExpr head expr kind leaf = some outcome) :
    Outcome.Fits (kind :: before) outcome ∧
      (attributeExpr head expr).leafType? kind = leafTypeAfter before kind := by
  unfold onAttributeExpr at h
  split at h
  · next later hfeed =>
    cases h
    obtain ⟨hclause, hstar, -⟩ := State.takes_feed hfeed
    obtain ⟨hfits, htype⟩ := State.suits_feed hexpr hfeed
    have hplain : ¬(kind = .star ∧ expr.starDue = true) := by
      rintro ⟨hkind, hdue⟩
      rw [hstar hkind] at hdue
      cases hdue
    exact ⟨hfits, by simp [leafType?, hclause, hplain, htype]⟩
  · -- The expression ends in front of the token, which goes to the attribute.
    next value hfeed =>
    obtain ⟨-, -, -⟩ | ⟨-, htest, -⟩ := State.takes_feed hfeed
    obtain ⟨hfits, hstar, hnull⟩ :
        Outcome.Fits (kind :: before) outcome ∧ kind ≠ .star ∧ kind ≠ .kwNull := fits_afterValue h
    refine ⟨hfits, ?_⟩
    rw [leafTypeAfter_of_ne hstar hnull]
    simp [leafType?, hstar, State.leafType?_of_eq htest]
  · next parts star hfeed =>
    cases h
    obtain ⟨-, -, -⟩ | ⟨-, -, -⟩ | ⟨rfl, hdue, -⟩ := State.takes_feed hfeed
    obtain - | - | hstar := State.suits_feed hexpr hfeed
    exact ⟨trivial, by simp [leafType?, opensClause, leafTypeAfter, hdue, hstar]⟩
  · cases h

/-- Behind a source there is neither a star nor `NULL`. -/
theorem fits_afterSource {body : Body τ} (h : afterSource body kind leaf = some outcome) :
    Outcome.Fits (kind :: before) outcome ∧ kind ≠ .star ∧ kind ≠ .kwNull := by
  cases kind with
  | comma | semicolon | eof | kwWhere =>
    cases h
    exact ⟨by simp [Outcome.Fits, Fits, Phase.Fits, State.start, testsNullAfter], by decide⟩
  | _ => cases h

theorem fits_onSourceParts {body : Body τ} {parts : List τ}
    (h : onSourceParts body parts kind leaf = some outcome) :
    Outcome.Fits (kind :: before) outcome ∧ kind ≠ .star ∧ kind ≠ .kwNull := by
  cases kind with
  | dot =>
    rw [onSourceParts] at h
    split at h
    · cases h
      exact ⟨trivial, by decide⟩
    · cases h
  | kwAs | ident | quotedIdent =>
    cases h
    exact ⟨trivial, by decide⟩
  | comma | kwWhere | semicolon | eof =>
    rw [onSourceParts] at h
    exact fits_afterSource h
  | _ => cases h

theorem fits_onCondition {body : Body τ} {keyword : τ} {expr : State τ}
    (hexpr : expr.phase.Fits before) (h : onCondition body keyword expr kind leaf = some outcome) :
    Outcome.Fits (kind :: before) outcome ∧
      (condition body keyword expr).leafType? kind = leafTypeAfter before kind := by
  unfold onCondition at h
  split at h
  · next later hfeed =>
    cases h
    obtain ⟨hclause, -, -⟩ := State.takes_feed hfeed
    obtain ⟨hfits, htype⟩ := State.suits_feed hexpr hfeed
    exact ⟨hfits, by simp [leafType?, hclause, htype]⟩
  · next test hfeed =>
    obtain ⟨-, -, -⟩ | ⟨-, htest, -⟩ := State.takes_feed hfeed
    split at h
    · cases h
      exact ⟨trivial, State.leafType?_of_eq htest⟩
    · cases h
      exact ⟨trivial, State.leafType?_of_eq htest⟩
    · cases h
  · cases h
  · cases h

/-- A token that is consumed is the leaf that the tokens in front of it make it, and it leads to a
stage that fits it and them. -/
theorem fits_feed (hstage : stage.Fits before) (h : stage.feed kind leaf = some outcome) :
    Outcome.Fits (kind :: before) outcome ∧ stage.leafType? kind = leafTypeAfter before kind := by
  -- Outside expressions the kind of a token that is read says all.
  have plain (hfits : Outcome.Fits (kind :: before) outcome ∧ kind ≠ .star ∧ kind ≠ .kwNull)
      (htype : stage.leafType? kind = if opensClause kind then some .token else operandType? kind) :
      Outcome.Fits (kind :: before) outcome ∧ stage.leafType? kind = leafTypeAfter before kind :=
    ⟨hfits.1, htype.trans (leafTypeAfter_of_ne hfits.2.1 hfits.2.2).symm⟩
  have name_ne (hname : kind.isName = true) : kind ≠ .star ∧ kind ≠ .kwNull := by
    constructor <;> rintro rfl <;> cases hname
  cases stage with
  | start =>
    rw [feed] at h
    split at h
    · next hkind =>
      subst hkind
      cases h
      exact ⟨⟨rfl, rfl⟩, rfl⟩
    · cases h
  | «attribute» head =>
    rw [feed] at h
    split at h
    · next hkind =>
      subst hkind
      cases h
      exact ⟨trivial, by simp [leafType?, opensClause, leafTypeAfter, hstage.1]⟩
    · -- Anything but a star opens an expression.
      next hkind =>
      have hexpr : (State.start true : State τ).phase.Fits before := hstage.2
      obtain ⟨hfits, htype⟩ := fits_onAttributeExpr hexpr h
      refine ⟨hfits, htype.symm ▸ ?_⟩
      simp [leafType?, hkind, State.leafType?, State.start, Phase.testsNull]
  | attributeExpr head expr => exact fits_onAttributeExpr hstage h
  | attributeEnd head last => exact plain (fits_afterAttribute h) rfl
  | sourceParts body parts => exact plain (fits_onSourceParts h) rfl
  | sourceEnd body => exact plain (fits_afterSource h) rfl
  | condition body keyword expr => exact fits_onCondition hstage h
  | attributeName | source | sourceDot | sourceName =>
    rw [feed] at h
    split at h
    · next hname =>
      cases h
      exact plain ⟨trivial, name_ne hname⟩ rfl
    · cases h
  | closed statement =>
    rw [feed] at h
    split at h
    · next hkind =>
      subst hkind
      cases h
      exact ⟨trivial, rfl⟩
    · cases h

/-- The leaves that tokens are behind others, the latest of which comes first. -/
def leavesAfter (before : List TokenKind) : List (TokenKind × τ) → List (Leaf τ)
  | [] => []
  | (kind, leaf) :: rest =>
    leafOf (leafTypeAfter before kind) leaf ++ leavesAfter (kind :: before) rest

/-- Tokens of which only the last may end the text are the leaves that the tokens in front make
them. -/
theorem leavesOf_eq_leavesAfter {tokens : List (TokenKind × τ)} (hstage : stage.Fits before)
    (h : stage.run tokens = some outcome) (hends : ∀ token ∈ tokens.dropLast, token.1 ≠ .eof) :
    stage.leavesOf tokens = leavesAfter before tokens := by
  induction tokens generalizing stage before with
  | nil => rfl
  | cons token tokens ih =>
    obtain ⟨kind, leaf⟩ := token
    rw [run] at h
    rw [leavesOf, leavesAfter]
    cases hfeed : stage.feed kind leaf with
    | none =>
      rw [hfeed] at h
      cases h
    | some fed =>
      rw [hfeed] at h
      obtain ⟨hfits, htype⟩ := fits_feed hstage hfeed
      rw [htype]
      cases fed with
      | more next =>
        cases tokens with
        | nil => rfl
        | cons other rest =>
          dsimp only
          rw [ih hfits h fun token htoken => hends token (List.mem_cons_of_mem _ htoken)]
      | accepted statement =>
        -- The statement ends with the text, and so with the last token.
        cases tokens with
        | nil => rfl
        | cons other rest => exact absurd (eof_of_accepted hfeed) (hends _ List.mem_cons_self)

end Stage

end SelectEngine.Grammar
