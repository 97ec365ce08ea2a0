import SelectEngine.Grammar.Clause
import SelectEngine.Proofs.Grammar.Graft
import SelectEngine.Proofs.Token.Drain

/-!
# Reading a list of tokens

What the reader of statements makes of a list of tokens (`Stage.run`), and that reading a text is
reading the list of its tokens up to the first failure (`readStatement_of_more` and its neighbours).
-/

set_option autoImplicit false

namespace SelectEngine

/-- The end of the text ends an expression or is refused. -/
theorem Grammar.State.feed_eof {τ : Type} (s : Grammar.State τ) (leaf : τ) :
    s.feed .eof leaf = none ∨ ∃ e, s.feed .eof leaf = some (.finished e) := by
  have after : ∀ left : Expr τ, s.afterOperand left .eof = none ∨
      ∃ e, s.afterOperand left .eof = some (.finished e) := by
    intro left
    unfold Grammar.State.afterOperand
    simp only [TokenKind.binary?, reduceCtorEq, if_false]
    generalize Grammar.reduce 0 left s.stack = reduced
    obtain ⟨operand, _ | ⟨p, stack⟩⟩ := reduced
    · exact Or.inr ⟨operand, rfl⟩
    · cases p <;> exact Or.inl rfl
  obtain ⟨stack, phase, allowStar⟩ := s
  cases phase with
  | operator left => exact after left
  | name parts => cases parts <;> exact after _
  | firstArgument =>
    refine Or.inl ?_
    rcases stack with _ | ⟨p, stack⟩
    · rfl
    · cases p <;> rfl
  | operand | isTest | isNotTest | nameDot => exact Or.inl rfl

/-! ## Lists of tokens inside an expression -/

namespace Grammar.State

variable {τ : Type}

/-- Takes several tokens that do not end the expression. -/
def reads (s : State τ) : List (TokenKind × τ) → Option (State τ)
  | [] => some s
  | (kind, leaf) :: rest =>
    match s.feed kind leaf with
    | some (.more s) => s.reads rest
    | _ => none

theorem reads_append {s later : State τ} {front : List (TokenKind × τ)}
    (h : s.reads front = some later) (back : List (TokenKind × τ)) :
    s.reads (front ++ back) = later.reads back := by
  induction front generalizing s with
  | nil =>
    cases h
    rfl
  | cons token front ih =>
    obtain ⟨kind, leaf⟩ := token
    rw [reads] at h
    rw [List.cons_append, reads]
    split at h
    · exact ih h
    · cases h

theorem reads_cons {s later : State τ} {kind : TokenKind} {leaf : τ}
    (h : s.feed kind leaf = some (.more later)) (rest : List (TokenKind × τ)) :
    s.reads ((kind, leaf) :: rest) = later.reads rest := by
  rw [reads, h]

end Grammar.State

/-! ## Lists of tokens of a statement -/

namespace Grammar.Stage

variable {τ ρ : Type} {head : Head τ} {body : Body τ}

/-- Takes several tokens, or as many as the statement has. -/
def run (stage : Stage τ) : List (TokenKind × τ) → Option (Outcome τ)
  | [] => some (.more stage)
  | (kind, leaf) :: rest =>
    match stage.feed kind leaf with
    | some (.more stage) => stage.run rest
    | some (.accepted statement) => some (.accepted statement)
    | none => none

theorem run_more {stage next : Stage τ} {kind : TokenKind} {leaf : τ}
    (h : stage.feed kind leaf = some (.more next)) (rest : List (TokenKind × τ)) :
    stage.run ((kind, leaf) :: rest) = next.run rest := by
  rw [run, h]

/-- Inside an expression tokens are read as the expression goes on. -/
theorem run_reads {inside : State τ → Stage τ}
    (hinside : ∀ {s next : State τ} {kind : TokenKind} {leaf : τ},
      s.feed kind leaf = some (.more next) →
      (inside s).feed kind leaf = some (.more (inside next)))
    {s later : State τ} {tokens : List (TokenKind × τ)} (h : s.reads tokens = some later)
    (rest : List (TokenKind × τ)) : (inside s).run (tokens ++ rest) = (inside later).run rest := by
  induction tokens generalizing s with
  | nil =>
    cases h
    rfl
  | cons token tokens ih =>
    obtain ⟨kind, leaf⟩ := token
    rw [State.reads] at h
    split at h
    · next next hfeed =>
      rw [List.cons_append, run_more (hinside hfeed)]
      exact ih h
    · cases h

theorem run_attributeExpr {s later : State τ} {tokens : List (TokenKind × τ)}
    (h : s.reads tokens = some later) (rest : List (TokenKind × τ)) :
    (Stage.attributeExpr head s).run (tokens ++ rest) =
      (Stage.attributeExpr head later).run rest := by
  refine run_reads (fun hfeed => ?_) h rest
  rw [feed, onAttributeExpr, hfeed]

theorem run_condition {keyword : τ} {s later : State τ} {tokens : List (TokenKind × τ)}
    (h : s.reads tokens = some later) (rest : List (TokenKind × τ)) :
    (Stage.condition body keyword s).run (tokens ++ rest) =
      (Stage.condition body keyword later).run rest := by
  refine run_reads (fun hfeed => ?_) h rest
  rw [feed, onCondition, hfeed]

/-- Relabelled tokens make the relabelled statement. -/
theorem run_map (f : τ → ρ) (stage : Stage τ) (tokens : List (TokenKind × τ)) :
    (stage.map f).run (tokens.map fun (kind, leaf) => (kind, f leaf)) =
      (stage.run tokens).map (Outcome.map f) := by
  induction tokens generalizing stage with
  | nil => rfl
  | cons token tokens ih =>
    obtain ⟨kind, leaf⟩ := token
    rw [List.map_cons, run, run, feed_map]
    cases stage.feed kind leaf with
    | none => rfl
    | some outcome =>
      cases outcome with
      | more next => exact ih next
      | accepted statement => rfl

/-- The end of the text is accepted or refused. -/
theorem feed_eof_ne_more (stage later : Stage τ) (leaf : τ) :
    stage.feed .eof leaf ≠ some (.more later) := by
  intro h
  cases stage with
  | start => cases h
  | «attribute» head => cases h
  | attributeExpr head expr =>
    rw [feed, onAttributeExpr] at h
    rcases State.feed_eof expr leaf with hnone | ⟨e, he⟩
    · rw [hnone] at h
      cases h
    · rw [he] at h
      cases h
  | condition body keyword expr =>
    rw [feed, onCondition] at h
    rcases State.feed_eof expr leaf with hnone | ⟨e, he⟩
    · rw [hnone] at h
      cases h
    · rw [he] at h
      cases h
  | attributeName | attributeEnd | source | sourceParts | sourceDot | sourceName | sourceEnd
  | closed => cases h

/-- A statement is accepted at the end of the text only. -/
theorem eof_of_accepted {stage : Stage τ} {kind : TokenKind} {leaf : τ} {statement : Statement τ}
    (h : stage.feed kind leaf = some (.accepted statement)) : kind = .eof := by
  -- Nothing inside the SELECT list ends a statement.
  have behindAttribute : ∀ {head : Head τ} {last : Attribute τ},
      afterAttribute head last kind leaf ≠ some (.accepted statement) := by
    intro head last
    cases kind <;> exact nofun
  have behindValue : ∀ {head : Head τ} {value : Expr τ},
      afterValue head value kind leaf ≠ some (.accepted statement) := by
    intro head value
    cases kind <;> exact nofun
  have onAttribute : ∀ {head : Head τ} {expr : State τ},
      onAttributeExpr head expr kind leaf ≠ some (.accepted statement) := by
    intro head expr
    unfold onAttributeExpr
    split
    · exact nofun
    · exact behindValue
    · exact nofun
    · exact nofun
  cases stage with
  | «attribute» head =>
    rw [feed] at h
    split at h
    · cases h
    · exact absurd h onAttribute
  | attributeExpr head expr => exact absurd h onAttribute
  | attributeEnd head last => exact absurd h behindAttribute
  | sourceParts body parts =>
    rw [feed] at h
    cases kind with
    | eof => rfl
    | dot =>
      rw [onSourceParts] at h
      split at h <;> cases h
    | _ => cases h
  | sourceEnd body => cases kind <;> first | rfl | cases h
  | condition body keyword expr =>
    rw [feed, onCondition] at h
    split at h
    · cases h
    · split at h
      · cases h
      · rfl
      · cases h
    · cases h
    · cases h
  | closed last =>
    rw [feed] at h
    split at h
    · assumption
    · cases h
  | start | attributeName | source | sourceDot | sourceName =>
    rw [feed] at h
    split at h <;> cases h

end Grammar.Stage

/-- Tokens with their numbers from `n` on. -/
def numbered (n : Nat) : List Token → List (TokenKind × TokenId)
  | [] => []
  | t :: ts => (t.kind, n) :: numbered (n + 1) ts

theorem map_fst_numbered (n : Nat) (ts : List Token) :
    (numbered n ts).map Prod.fst = ts.map Token.kind := by
  induction ts generalizing n with
  | nil => rfl
  | cons t ts ih => rw [numbered, List.map_cons, List.map_cons, ih]

/-- Numbered tokens are their kinds and their places. -/
theorem numbered_eq_zipIdx (ts : List Token) (n : Nat) :
    numbered n ts = (ts.map Token.kind).zipIdx n := by
  induction ts generalizing n with
  | nil => rfl
  | cons t ts ih => rw [numbered, List.map_cons, List.zipIdx_cons, ih]

variable {source : String} {s : Scan} {stage : Grammar.Stage TokenId} {tokens : Array Token}
variable {failure : Option Error}

theorem readStatement_of_error {e : Error} (h : s.drain source = ([], some e)) :
    readStatement source s stage tokens = .error e := by
  obtain ⟨e', past, hnext, he⟩ := Scan.next_of_drain_nil h
  cases he
  rw [readStatement]
  split
  · next h' =>
    cases hnext.symm.trans h'
    rfl
  · next h' => cases hnext.symm.trans h'

theorem readStatement_of_refused {t : Token} {ts : List Token}
    (h : s.drain source = (t :: ts, failure)) (hfeed : stage.feed t.kind tokens.size = none) :
    readStatement source s stage tokens = .error (t.refusal source) := by
  obtain ⟨past, hnext, -⟩ := Scan.next_of_drain_cons h
  rw [readStatement]
  split
  · next h' => cases hnext.symm.trans h'
  · next h' =>
    cases hnext.symm.trans h'
    rw [hfeed]

theorem readStatement_of_accepted {t : Token} {ts : List Token} {statement : Statement TokenId}
    (h : s.drain source = (t :: ts, failure))
    (hfeed : stage.feed t.kind tokens.size = some (.accepted statement)) :
    readStatement source s stage tokens = .ok (statement, tokens.push t) := by
  obtain ⟨past, hnext, -⟩ := Scan.next_of_drain_cons h
  rw [readStatement]
  split
  · next h' => cases hnext.symm.trans h'
  · next h' =>
    cases hnext.symm.trans h'
    rw [hfeed]

theorem readStatement_of_more {t : Token} {ts : List Token} {next : Grammar.Stage TokenId}
    (h : s.drain source = (t :: ts, failure))
    (hfeed : stage.feed t.kind tokens.size = some (.more next)) :
    ∃ past : Scan, past.drain source = (ts, failure) ∧
      readStatement source s stage tokens = readStatement source past next (tokens.push t) := by
  obtain ⟨past, hnext, ⟨heof, -, -⟩ | ⟨hne, hpast⟩⟩ := Scan.next_of_drain_cons h
  · rw [heof] at hfeed
    exact absurd hfeed (stage.feed_eof_ne_more next _)
  · refine ⟨past, hpast, ?_⟩
    rw [readStatement]
    split
    · next h' => cases hnext.symm.trans h'
    · next h' =>
      cases hnext.symm.trans h'
      rw [hfeed]
      simp only [hne, dif_neg, not_false_eq_true]

/-- Tokens that leave the statement unfinished are read one after the other. -/
theorem readStatement_append {front back : List Token} {next : Grammar.Stage TokenId}
    (h : s.drain source = (front ++ back, failure))
    (hrun : stage.run (numbered tokens.size front) = some (.more next)) :
    ∃ past : Scan, past.drain source = (back, failure) ∧
      readStatement source s stage tokens =
        readStatement source past next (tokens ++ front.toArray) := by
  induction front generalizing s stage tokens with
  | nil =>
    cases hrun
    exact ⟨s, h, by simp⟩
  | cons t front ih =>
    rw [numbered, Grammar.Stage.run] at hrun
    split at hrun
    · next later hfeed =>
      obtain ⟨mid, hmid, hread⟩ := readStatement_of_more h hfeed
      have hsize : (tokens.push t).size = tokens.size + 1 := Array.size_push t
      rw [← hsize] at hrun
      obtain ⟨past, hpast, hrest⟩ := ih hmid hrun
      refine ⟨past, hpast, hread.trans (hrest.trans ?_)⟩
      simp
    · cases hrun
    · cases hrun

/-- Tokens that make a statement are all read. -/
theorem readStatement_of_run {ts : List Token} {statement : Statement TokenId}
    (h : s.drain source = (ts, failure))
    (hrun : stage.run (numbered tokens.size ts) = some (.accepted statement)) :
    readStatement source s stage tokens = .ok (statement, tokens ++ ts.toArray) := by
  induction ts generalizing s stage tokens with
  | nil => cases hrun
  | cons t ts ih =>
    rw [numbered, Grammar.Stage.run] at hrun
    split at hrun
    · next later hfeed =>
      obtain ⟨past, hpast, hread⟩ := readStatement_of_more h hfeed
      have hsize : (tokens.push t).size = tokens.size + 1 := Array.size_push t
      rw [← hsize] at hrun
      rw [hread, ih hpast hrun]
      simp
    · next accepted hfeed =>
      cases hrun
      obtain ⟨past, -, ⟨-, rfl, -⟩ | ⟨hne, -⟩⟩ := Scan.next_of_drain_cons h
      · rw [readStatement_of_accepted h hfeed]
        simp
      · exact absurd (Grammar.Stage.eof_of_accepted hfeed) hne
    · cases hrun

end SelectEngine
