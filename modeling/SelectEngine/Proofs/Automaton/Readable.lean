import SelectEngine.Grammar.Clause

/-!
# What the stages of the grammar never hold

The parenthesis that opens a call is only waited behind while the call is open, and only an
attribute may turn out to be `name.*`. Every token keeps this (`Stage.feed_readable`).
-/

set_option autoImplicit false

namespace SelectEngine.Grammar

variable {τ : Type} {kind : TokenKind} {leaf : τ}

/-- What every state of a reader has that may or may not find `name.*`: the parenthesis that opens a
call has the call open. -/
structure State.Readable (allowStar : Bool) (s : State τ) : Prop where
  allowStar : s.allowStar = allowStar
  callOpen : s.phase = .firstArgument →
    ∃ function args rest, s.stack = .call function args :: rest

/-- What a reader goes on with is readable. -/
def Progress.Readable (allowStar : Bool) : Progress τ → Prop
  | more s => s.Readable allowStar
  | finished _ | starOf _ _ => True

namespace State

variable {allowStar : Bool} {s : State τ} {progress : Progress τ}

theorem start_readable (allowStar : Bool) : (start allowStar : State τ).Readable allowStar where
  allowStar := rfl
  callOpen h := nomatch h

theorem onOperand_readable (hs : s.allowStar = allowStar)
    (h : s.onOperand kind leaf = some progress) : progress.Readable allowStar := by
  unfold onOperand at h
  split at h
  case h_8 =>
    obtain ⟨op, hop, rfl⟩ := Option.map_eq_some_iff.mp h
    exact ⟨hs, nofun⟩
  all_goals
    cases h
    exact ⟨hs, nofun⟩

theorem onFirstArgument_readable (hs : s.allowStar = allowStar)
    (h : s.onFirstArgument kind leaf = some progress) : progress.Readable allowStar := by
  unfold onFirstArgument at h
  split at h
  · cases h
    exact ⟨hs, nofun⟩
  · exact onOperand_readable hs h

theorem afterOperand_readable {left : Expr τ} (hs : s.allowStar = allowStar)
    (h : s.afterOperand left kind = some progress) : progress.Readable allowStar := by
  unfold afterOperand at h
  split at h
  · cases h
    exact ⟨hs, nofun⟩
  · split at h
    · cases h
      exact ⟨hs, nofun⟩
    · split at h
      case h_4 =>
        cases h
        trivial
      case h_5 => cases h
      all_goals
        cases h
        exact ⟨hs, nofun⟩

theorem onName_readable {parts : List τ} (hs : s.allowStar = allowStar)
    (h : s.onName parts kind = some progress) : progress.Readable allowStar := by
  unfold onName at h
  split at h
  · cases h
    exact ⟨hs, nofun⟩
  · cases h
    exact ⟨hs, fun _ => ⟨_, _, _, rfl⟩⟩
  · cases h
  · exact afterOperand_readable hs h

theorem onNameDot_readable {parts : List τ} (hs : s.allowStar = allowStar)
    (h : s.onNameDot parts kind leaf = some progress) : progress.Readable allowStar := by
  unfold onNameDot at h
  split at h
  · cases h
    exact ⟨hs, nofun⟩
  · cases h
    exact ⟨hs, nofun⟩
  · split at h
    · cases h
      trivial
    · cases h
  · cases h

theorem feed_readable (hs : s.Readable allowStar) (h : s.feed kind leaf = some progress) :
    progress.Readable allowStar := by
  unfold feed at h
  split at h
  · exact onOperand_readable hs.allowStar h
  · exact onFirstArgument_readable hs.allowStar h
  · exact afterOperand_readable hs.allowStar h
  · exact onName_readable hs.allowStar h
  · exact onNameDot_readable hs.allowStar h
  · split at h
    case h_3 => cases h
    all_goals
      cases h
      exact ⟨hs.allowStar, nofun⟩
  · split at h
    · cases h
      exact ⟨hs.allowStar, nofun⟩
    · cases h

end State

/-- What a stage holds of an expression is readable. -/
def Stage.Readable : Stage τ → Prop
  | attributeExpr _ s => s.Readable true
  | condition _ _ s => s.Readable false
  | _ => True

/-- What is gone on with is readable. -/
def Outcome.Readable : Outcome τ → Prop
  | more stage => stage.Readable
  | accepted _ => True

namespace Stage

variable {head : Head τ} {body : Body τ} {outcome : Outcome τ}

theorem afterAttribute_readable {last : Attribute τ}
    (h : afterAttribute head last kind leaf = some outcome) : outcome.Readable := by
  unfold afterAttribute at h
  split at h <;> cases h <;> trivial

theorem onAttributeExpr_readable {s : State τ} (hs : s.Readable true)
    (h : onAttributeExpr head s kind leaf = some outcome) : outcome.Readable := by
  unfold onAttributeExpr at h
  split at h
  · next hfeed =>
    cases h
    exact State.feed_readable hs hfeed
  · unfold afterValue at h
    split at h
    case h_4 => exact afterAttribute_readable h
    all_goals
      cases h
      trivial
  · cases h
    trivial
  · cases h

theorem afterSource_readable (h : afterSource body kind leaf = some outcome) :
    outcome.Readable := by
  unfold afterSource at h
  split at h
  case h_2 =>
    cases h
    exact State.start_readable false
  all_goals
    cases h
    try trivial

theorem onSourceParts_readable {parts : List τ}
    (h : onSourceParts body parts kind leaf = some outcome) : outcome.Readable := by
  unfold onSourceParts at h
  split at h
  case h_1 =>
    split at h <;> cases h
    trivial
  case h_5 | h_6 | h_7 | h_8 => exact afterSource_readable h
  all_goals
    cases h
    try trivial

theorem onCondition_readable {keyword : τ} {s : State τ} (hs : s.Readable false)
    (h : onCondition body keyword s kind leaf = some outcome) : outcome.Readable := by
  unfold onCondition at h
  split at h
  · next hfeed =>
    cases h
    exact State.feed_readable hs hfeed
  · split at h <;> cases h <;> trivial
  · cases h
  · cases h

/-- A token keeps what is held of an expression readable. -/
theorem feed_readable {stage : Stage τ} (hstage : stage.Readable)
    (h : stage.feed kind leaf = some outcome) : outcome.Readable := by
  cases stage with
  | «attribute» head =>
    rw [feed] at h
    split at h
    · cases h
      trivial
    · exact onAttributeExpr_readable (State.start_readable true) h
  | attributeExpr head s => exact onAttributeExpr_readable hstage h
  | attributeEnd head last => exact afterAttribute_readable h
  | sourceParts body parts => exact onSourceParts_readable h
  | sourceEnd body => exact afterSource_readable h
  | condition body keyword s => exact onCondition_readable hstage h
  | _ =>
    rw [feed] at h
    split at h <;> cases h
    trivial

end Stage

end SelectEngine.Grammar
