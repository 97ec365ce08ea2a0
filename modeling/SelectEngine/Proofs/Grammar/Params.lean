import SelectEngine.Proofs.Grammar.Order

/-!
# The parameters of a statement are its marks

The parameters of a statement that has been read are the marks among its tokens, in their order
(`Stage.params_of_accepted`). Tokens that are numbered have each its own number, and so no two
parameters of a parsed statement have the same leaf (`nodup_params`).
-/

set_option autoImplicit false

namespace SelectEngine

variable {τ : Type}

/-- The parameters among leaves. -/
def paramsAmong (leaves : List (Leaf τ)) : List τ :=
  leaves.filterMap fun leaf => if leaf.1 = .param then some leaf.2 else none

@[simp] theorem paramsAmong_append (front back : List (Leaf τ)) :
    paramsAmong (front ++ back) = paramsAmong front ++ paramsAmong back :=
  List.filterMap_append

/-- The parameters of a statement in the order of its text. -/
def Statement.params (s : Statement τ) : List τ := paramsAmong s.leaves

/-- The leaves of the marks among tokens. -/
def marks (tokens : List (TokenKind × τ)) : List τ :=
  tokens.filterMap fun token => if token.1 = .question then some token.2 else none

theorem marks_append (front back : List (TokenKind × τ)) :
    marks (front ++ back) = marks front ++ marks back :=
  List.filterMap_append

namespace Grammar

theorem operandType?_ne_param {kind : TokenKind} (h : kind ≠ .question) :
    operandType? kind ≠ some .param := by
  intro htype
  cases kind <;> first | exact h rfl | cases htype

/-- No mark is part of a null test. -/
theorem State.testsNull_of_question {s : State τ} {leaf : τ} {progress : Progress τ}
    (h : s.feed .question leaf = some progress) : s.phase.testsNull = false := by
  obtain ⟨stack, phase, allowStar⟩ := s
  cases phase <;> first | rfl | cases h

namespace Stage

variable {stage : Stage τ} {kind : TokenKind} {leaf : τ} {outcome : Outcome τ}

theorem leafType?_ne_param (stage : Stage τ) (h : kind ≠ .question) :
    stage.leafType? kind ≠ some .param := by
  have hoperand : operandType? kind ≠ some .param := operandType?_ne_param h
  have hexpr (s : State τ) : s.leafType? kind ≠ some .param := by
    unfold State.leafType?
    split
    · exact nofun
    · exact hoperand
  unfold leafType?
  split
  · exact nofun
  · split
    · split
      · exact nofun
      · exact hoperand
    · split
      · exact nofun
      · exact hexpr _
    · exact hexpr _
    · exact hoperand

/-- A mark that is read is a parameter. -/
theorem leafType?_question (h : stage.feed .question leaf = some outcome) :
    stage.leafType? .question = some .param := by
  cases stage with
  | attributeExpr head expr =>
    rw [feed, onAttributeExpr] at h
    cases hfeed : expr.feed .question leaf with
    | none =>
      rw [hfeed] at h
      cases h
    | some progress => exact State.leafType?_of_eq (State.testsNull_of_question hfeed)
  | condition body keyword expr =>
    rw [feed, onCondition] at h
    cases hfeed : expr.feed .question leaf with
    | none =>
      rw [hfeed] at h
      cases h
    | some progress => exact State.leafType?_of_eq (State.testsNull_of_question hfeed)
  | _ => rfl

/-- A token that is read is a parameter if and only if it is a mark. -/
theorem params_leafOf (h : stage.feed kind leaf = some outcome) :
    paramsAmong (leafOf (stage.leafType? kind) leaf) = marks [(kind, leaf)] := by
  by_cases hkind : kind = .question
  · subst hkind
    rw [leafType?_question h]
    rfl
  · have hmarks : marks [(kind, leaf)] = [] := by simp [marks, hkind]
    rw [hmarks]
    cases htype : stage.leafType? kind with
    | none => rfl
    | some type =>
      have hne : type ≠ .param := by
        rintro rfl
        exact leafType?_ne_param stage hkind htype
      simp [leafOf, paramsAmong, hne]

/-- A leaf of the statement is a token, and if this is a mark, a parameter. -/
theorem exists_token_of_leaf {tokens : List (TokenKind × τ)} (h : stage.run tokens = some outcome)
    {found : Leaf τ} (hfound : found ∈ stage.leavesOf tokens) :
    ∃ kind, (kind, found.2) ∈ tokens ∧ (kind = .question → found.1 = .param) := by
  induction tokens generalizing stage with
  | nil => cases hfound
  | cons token tokens ih =>
    obtain ⟨kind, leaf⟩ := token
    rw [run] at h
    rw [leavesOf] at hfound
    cases hfeed : stage.feed kind leaf with
    | none =>
      rw [hfeed] at h
      cases h
    | some fed =>
      rw [hfeed] at h hfound
      rcases List.mem_append.mp hfound with hfirst | hlater
      · refine ⟨kind, ?_, ?_⟩
        · cases htype : stage.leafType? kind with
          | none =>
            rw [htype] at hfirst
            cases hfirst
          | some type =>
            rw [htype] at hfirst
            obtain rfl := List.mem_singleton.mp hfirst
            exact List.mem_cons_self
        · rintro rfl
          rw [leafType?_question hfeed] at hfirst
          exact congrArg Prod.fst (List.mem_singleton.mp hfirst)
      · cases fed with
        | more next =>
          obtain ⟨other, hmem, hparam⟩ := ih h hlater
          exact ⟨other, List.mem_cons_of_mem _ hmem, hparam⟩
        | accepted statement => cases hlater

theorem leafType?_eq_operandType? {type : NodeType} (h : stage.leafType? kind = some type)
    (hne : type ≠ .token) : operandType? kind = some type := by
  have hexpr {s : State τ} (hs : s.leafType? kind = some type) : operandType? kind = some type := by
    unfold State.leafType? at hs
    split at hs
    · cases hs
    · exact hs
  unfold leafType? at h
  split at h
  · exact absurd (Option.some.inj h).symm hne
  · split at h
    · split at h
      · exact absurd (Option.some.inj h).symm hne
      · exact h
    · split at h
      · exact absurd (Option.some.inj h).symm hne
      · exact hexpr h
    · exact hexpr h
    · exact h

/-- A leaf that is an operand or a part of a name is a token of its kind. -/
theorem exists_operand_of_leaf {tokens : List (TokenKind × τ)} {found : Leaf τ}
    (hfound : found ∈ stage.leavesOf tokens) (hne : found.1 ≠ .token) :
    ∃ kind, (kind, found.2) ∈ tokens ∧ operandType? kind = some found.1 := by
  induction tokens generalizing stage with
  | nil => cases hfound
  | cons token tokens ih =>
    obtain ⟨kind, leaf⟩ := token
    rw [leavesOf] at hfound
    rcases List.mem_append.mp hfound with hfirst | hlater
    · cases htype : stage.leafType? kind with
      | none =>
        rw [htype] at hfirst
        cases hfirst
      | some type =>
        rw [htype] at hfirst
        obtain rfl := List.mem_singleton.mp hfirst
        exact ⟨kind, List.mem_cons_self, leafType?_eq_operandType? htype hne⟩
    · split at hlater
      · obtain ⟨other, hmem, hoperand⟩ := ih hlater
        exact ⟨other, List.mem_cons_of_mem _ hmem, hoperand⟩
      · cases hlater

/-- Tokens of which only the last may end the text: their parameters are their marks. -/
theorem params_leavesOf {tokens : List (TokenKind × τ)} (h : stage.run tokens = some outcome)
    (hends : ∀ token ∈ tokens.dropLast, token.1 ≠ .eof) :
    paramsAmong (stage.leavesOf tokens) = marks tokens := by
  induction tokens generalizing stage with
  | nil => rfl
  | cons token tokens ih =>
    obtain ⟨kind, leaf⟩ := token
    rw [run] at h
    rw [leavesOf, paramsAmong_append, ← List.singleton_append, marks_append]
    cases hfeed : stage.feed kind leaf with
    | none =>
      rw [hfeed] at h
      cases h
    | some fed =>
      rw [hfeed] at h
      rw [params_leafOf hfeed]
      cases fed with
      | more next =>
        cases tokens with
        | nil => rfl
        | cons other rest =>
          dsimp only
          rw [ih h fun token htoken => hends token (List.mem_cons_of_mem _ htoken)]
      | accepted statement =>
        -- The statement ends with the text, and so with the last token.
        cases tokens with
        | nil => rfl
        | cons other rest => exact absurd (eof_of_accepted hfeed) (hends _ List.mem_cons_self)

/-- The parameters of a statement are the marks among its tokens, in their order. -/
theorem params_of_accepted {tokens : List (TokenKind × τ)} {statement : Statement τ}
    (h : Stage.start.run tokens = some (.accepted statement))
    (hends : ∀ token ∈ tokens.dropLast, token.1 ≠ .eof) : statement.params = marks tokens := by
  have hleaves : statement.leaves = Stage.start.leavesOf tokens := leaves_run h
  rw [Statement.params, hleaves, params_leavesOf h hends]

end Stage

end Grammar

/-! ## Numbered tokens -/

theorem numbered_append (n : Nat) (front back : List Token) :
    numbered n (front ++ back) = numbered n front ++ numbered (n + front.length) back := by
  induction front generalizing n with
  | nil => rfl
  | cons t front ih =>
    rw [List.cons_append, numbered, numbered, ih, List.cons_append, List.length_cons,
      Nat.add_assoc, Nat.add_comm 1]

/-- The numbers of marks grow, and none is less than the first number. -/
theorem pairwise_marks_numbered (n : Nat) (ts : List Token) :
    (marks (numbered n ts)).Pairwise (· < ·) ∧ ∀ leaf ∈ marks (numbered n ts), n ≤ leaf := by
  induction ts generalizing n with
  | nil => exact ⟨.nil, nofun⟩
  | cons t ts ih =>
    obtain ⟨hsorted, hleast⟩ := ih (n + 1)
    have hcons : marks (numbered n (t :: ts)) =
        marks [(t.kind, n)] ++ marks (numbered (n + 1) ts) := by
      rw [numbered, ← List.singleton_append, marks_append]
    rw [hcons]
    by_cases hkind : t.kind = .question
    · have hmark : marks [(t.kind, n)] = [n] := by simp [marks, hkind]
      rw [hmark]
      refine ⟨List.pairwise_cons.mpr ⟨hleast, hsorted⟩, ?_⟩
      rintro leaf (_ | ⟨_, hleaf⟩)
      · exact Nat.le_refl n
      · exact Nat.le_of_succ_le (hleast leaf hleaf)
    · have hmark : marks [(t.kind, n)] = [] := by simp [marks, hkind]
      rw [hmark]
      exact ⟨hsorted, fun leaf hleaf => Nat.le_of_succ_le (hleast leaf hleaf)⟩

theorem nodup_marks_numbered (n : Nat) (ts : List Token) : (marks (numbered n ts)).Nodup :=
  (pairwise_marks_numbered n ts).1.imp Nat.ne_of_lt

end SelectEngine
