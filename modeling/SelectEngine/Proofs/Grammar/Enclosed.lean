import SelectEngine.Proofs.Grammar.FirstFault
import SelectEngine.Proofs.Grammar.Literal

/-!
# Expressions in parentheses

What is open around a parenthesis has no part in reading what stands in it: reading goes the same
way with more below the stack (`State.feed_within`), and the closing parenthesis ends what was read.
So the tokens of a complete expression make one expression wherever they stand in parentheses
(`State.reads_enclosed`).
-/

set_option autoImplicit false

namespace SelectEngine.Grammar

variable {τ ρ : Type}

namespace State

variable {s later : State τ} {kind : TokenKind} {leaf : τ} {e : Expr τ}

/-! ## What is open around a parenthesis -/

/-- The reader inside a parenthesis that stands in what is open already. -/
def within (outer : List (Pending τ)) (s : State τ) : State τ :=
  { s with stack := s.stack ++ .paren :: outer }

/-- No operator is applied across a parenthesis. -/
theorem reduce_within (least : Nat) (outer : List (Pending τ)) :
    ∀ (stack : List (Pending τ)) (operand : Expr τ),
      reduce least operand (stack ++ .paren :: outer) =
        ((reduce least operand stack).1, (reduce least operand stack).2 ++ .paren :: outer)
  | [], operand => by simp [reduce]
  | .binary op left :: stack, operand => by
    simp only [List.cons_append, reduce]
    split
    · exact reduce_within least outer stack (.binary op left operand)
    · rfl
  | .leading op :: stack, operand => by
    simp only [List.cons_append, reduce]
    split
    · exact reduce_within least outer stack (.unary op operand)
    · rfl
  | .paren :: stack, operand => by simp [reduce]
  | .call function args :: stack, operand => by simp [reduce]

theorem onOperand_within (outer : List (Pending τ)) (h : s.onOperand kind leaf = some (.more later)) :
    (s.within outer).onOperand kind leaf = some (.more (later.within outer)) := by
  cases kind <;> cases h <;> rfl

theorem onFirstArgument_within (outer : List (Pending τ))
    (h : s.onFirstArgument kind leaf = some (.more later)) :
    (s.within outer).onFirstArgument kind leaf = some (.more (later.within outer)) := by
  by_cases hkind : kind = .rparen
  · -- A call without arguments is closed.
    subst hkind
    obtain ⟨_ | ⟨p, stack⟩, phase, allowStar⟩ := s
    · cases h
    · cases p <;> cases h
      rfl
  · rw [onFirstArgument_of_ne _ _ hkind] at h ⊢
    exact onOperand_within outer h

theorem afterOperand_within (outer : List (Pending τ)) {left : Expr τ}
    (h : s.afterOperand left kind = some (.more later)) :
    (s.within outer).afterOperand left kind = some (.more (later.within outer)) := by
  unfold afterOperand at h ⊢
  simp only [within, reduce_within]
  cases hbinary : kind.binary? with
  | some op =>
    rw [hbinary] at h
    cases h
    rfl
  | none =>
    rw [hbinary] at h
    dsimp only at h ⊢
    split at h
    · next his =>
      rw [if_pos his]
      cases h
      rfl
    · next his =>
      rw [if_neg his]
      generalize reduce 0 left s.stack = reduced at h ⊢
      obtain ⟨operand, _ | ⟨p, stack⟩⟩ := reduced
      · cases h
      · cases p <;> cases kind <;> cases h <;> rfl

theorem onName_within (outer : List (Pending τ)) {parts : List τ}
    (h : s.onName parts kind = some (.more later)) :
    (s.within outer).onName parts kind = some (.more (later.within outer)) := by
  unfold onName at h ⊢
  split at h
  · cases h
    rfl
  · cases h
    rfl
  · cases h
  · exact afterOperand_within outer h

theorem onNameDot_within (outer : List (Pending τ)) {parts : List τ}
    (h : s.onNameDot parts kind leaf = some (.more later)) :
    (s.within outer).onNameDot parts kind leaf = some (.more (later.within outer)) := by
  unfold onNameDot at h
  split at h
  · cases h
    rfl
  · cases h
    rfl
  · split at h <;> cases h
  · cases h

/-- A token that is read is read in the same way with more open around a parenthesis. -/
theorem feed_within (outer : List (Pending τ)) (h : s.feed kind leaf = some (.more later)) :
    (s.within outer).feed kind leaf = some (.more (later.within outer)) := by
  obtain ⟨stack, phase, allowStar⟩ := s
  cases phase with
  | operand => exact onOperand_within outer h
  | firstArgument => exact onFirstArgument_within outer h
  | operator left => exact afterOperand_within outer h
  | name parts => exact onName_within outer h
  | nameDot parts => exact onNameDot_within outer h
  | isTest operand | isNotTest operand => cases kind <;> cases h <;> rfl

theorem reads_within (outer : List (Pending τ)) {tokens : List (TokenKind × τ)}
    (h : s.reads tokens = some later) :
    (s.within outer).reads tokens = some (later.within outer) := by
  induction tokens generalizing s with
  | nil =>
    cases h
    rfl
  | cons token tokens ih =>
    obtain ⟨kind, leaf⟩ := token
    rw [reads] at h
    split at h
    · next next hfeed =>
      rw [reads_cons (feed_within outer hfeed)]
      exact ih h
    · cases h

/-- Where the end of the text would end the expression, a closing parenthesis closes its group. -/
theorem feed_rparen_within (h : s.feed .eof leaf = some (.finished e)) (outer : List (Pending τ))
    (close : τ) :
    (s.within outer).feed .rparen close = some (.more ⟨outer, .operator e, s.allowStar⟩) := by
  have after {left : Expr τ} (h : s.afterOperand left .eof = some (.finished e)) :
      (s.within outer).afterOperand left .rparen =
        some (.more ⟨outer, .operator e, s.allowStar⟩) := by
    unfold afterOperand at h ⊢
    simp only [TokenKind.binary?, reduceCtorEq, if_false, within, reduce_within] at h ⊢
    generalize reduce 0 left s.stack = reduced at h ⊢
    obtain ⟨operand, _ | ⟨p, stack⟩⟩ := reduced
    · cases h
      rfl
    · cases p <;> cases h
  obtain ⟨stack, phase, allowStar⟩ := s
  cases phase with
  | operator left => exact after h
  | name parts =>
    have hafter : (⟨stack, .name parts, allowStar⟩ : State τ).afterOperand (.name parts) .eof =
        some (.finished e) := by
      cases parts <;> exact h
    have hname := after hafter
    cases parts <;> exact hname
  | firstArgument =>
    rcases stack with _ | ⟨p, stack⟩
    · cases h
    · cases p <;> cases h
  | operand | isTest | isNotTest | nameDot => cases h

/-! ## Complete expressions -/

/-- Tokens of the kinds that the reader expects in front of the end of the text are read up to it. -/
theorem exists_reads_of_spells {tokens : List (TokenKind × τ)} (leaf : τ)
    (h : Spells (s.expects [.one .eof] nothing) (tokens.map Prod.fst ++ [.eof])) :
    ∃ later e, s.reads tokens = some later ∧ later.feed .eof leaf = some (.finished e) := by
  have hends : Ends [.one .eof] := by
    intro kind w hspells
    obtain ⟨rfl, -⟩ := spells_one_cons.mp hspells
    decide
  induction tokens generalizing s with
  | nil =>
    have hleaves := (s.spells_expects hends leaf).mp h
    rcases s.feed_eof leaf with hnone | ⟨e, he⟩
    · rw [hnone] at hleaves
      cases hleaves
    · exact ⟨s, e, rfl, he⟩
  | cons token tokens ih =>
    obtain ⟨kind, first⟩ := token
    have hleaves := (s.spells_expects hends first).mp h
    cases hfeed : s.feed kind first with
    | none =>
      rw [hfeed] at hleaves
      cases hleaves
    | some progress =>
      rw [hfeed] at hleaves
      cases progress with
      | more next =>
        obtain ⟨later, e, hreads, he⟩ := ih hleaves
        exact ⟨later, e, (reads_cons hfeed tokens).trans hreads, he⟩
      | finished value =>
        -- Only the end of the text ends the expression, and nothing stands behind it.
        obtain ⟨-, hnil⟩ := spells_one_cons.mp hleaves
        cases tokens <;> cases hnil
      | starOf parts star =>
        cases tokens <;> exact absurd (spells_token_cons.mp hleaves).1 List.not_mem_nil

/-- Every leaf that the reader holds is a token that it has read. -/
theorem mem_of_leaf {tokens : List (TokenKind × τ)} (h : s.reads tokens = some later)
    {found : Leaf τ} (hfound : found ∈ later.leaves) :
    found ∈ s.leaves ∨ ∃ kind, (kind, found.2) ∈ tokens := by
  induction tokens generalizing s with
  | nil =>
    cases h
    exact Or.inl hfound
  | cons token tokens ih =>
    obtain ⟨kind, leaf⟩ := token
    rw [reads] at h
    split at h
    · next next hfeed =>
      rcases ih h with hnext | ⟨other, hlater⟩
      · obtain ⟨-, -, hleaves⟩ := takes_feed hfeed
        rw [hleaves] at hnext
        rcases List.mem_append.mp hnext with hearlier | hhere
        · exact Or.inl hearlier
        · refine Or.inr ⟨kind, ?_⟩
          cases htype : s.leafType? kind with
          | none =>
            rw [htype] at hhere
            cases hhere
          | some type =>
            rw [htype] at hhere
            obtain rfl := List.mem_singleton.mp hhere
            exact List.mem_cons_self
      · exact Or.inr ⟨other, List.mem_cons_of_mem _ hlater⟩
    · cases h

/-- Relabelled tokens are read alike. -/
theorem reads_map (f : τ → ρ) {tokens : List (TokenKind × τ)} (h : s.reads tokens = some later) :
    (s.map f).reads (tokens.map (Stage.relabel f)) = some (later.map f) := by
  induction tokens generalizing s with
  | nil =>
    cases h
    rfl
  | cons token tokens ih =>
    obtain ⟨kind, leaf⟩ := token
    rw [reads] at h
    split at h
    · next next hfeed =>
      have hmap : (s.map f).feed kind (f leaf) = some (.more (next.map f)) := by
        rw [feed_map, hfeed]
        rfl
      exact (reads_cons hmap _).trans (ih h)
    · cases h

/-- The tokens of a complete expression make one expression of these tokens wherever they stand in
parentheses, however their leaves are labelled. -/
theorem reads_enclosed {tokens : List (TokenKind × TokenId)}
    (h : Spells [.phrase .expr] (tokens.map Prod.fst)) :
    ∃ (e : Expr TokenId) (allowStar : Bool),
      (∀ leaf ∈ e.leaves, ∃ kind, (kind, leaf.2) ∈ tokens) ∧ ∀ (f : TokenId → TokenId)
      (outer : List (Pending TokenId)) (opening closing : TokenId),
      (⟨outer, .operand, false⟩ : State TokenId).reads
          ((.lparen, opening) :: (tokens.map (Stage.relabel f) ++ [(.rparen, closing)])) =
        some ⟨outer, .operator (e.map f), allowStar⟩ := by
  have hexpects : Spells ((start false : State TokenId).expects [.one .eof] nothing)
      (tokens.map Prod.fst ++ [.eof]) := by
    have hall := spells_expr.mp (h.append (.token (List.mem_singleton_self TokenKind.eof) .nil))
    exact (spells_orStar _).mpr (Or.inl hall)
  obtain ⟨later, e, hreads, he⟩ := exists_reads_of_spells 0 hexpects
  refine ⟨e, later.allowStar, fun leaf hleaf => ?_, fun f outer opening closing => ?_⟩
  · have hleaves : e.leaves = later.leaves := by
      cases takes_feed he with
      | finished _ _ hleaves => exact hleaves
    rw [hleaves] at hleaf
    exact (mem_of_leaf hreads hleaf).resolve_left nofun
  have hinside := reads_within outer (reads_map f hreads)
  have hend : (later.map f).feed .eof (f 0) = some (.finished (e.map f)) := by
    rw [feed_map, he]
    rfl
  have hclose := feed_rparen_within hend outer closing
  have hopen : (⟨outer, .operand, false⟩ : State TokenId).feed .lparen opening =
      some (.more (((start false : State TokenId).map f).within outer)) := rfl
  rw [reads_cons hopen, reads_append hinside, reads_cons hclose]
  rfl

end State

end SelectEngine.Grammar
