import SelectEngine.Proofs.Grammar.Graft
import SelectEngine.Proofs.Grammar.WellFormed

/-!
# The leaves of statements that have been read

The leaves of a statement that is read are tokens that were read with it: the statement is one whose
leaves are such tokens by their type (`exists_statement_of_readStatement`). The reader never looks
at leaves, so it reads with these as it does with numbers.
-/

set_option autoImplicit false

namespace SelectEngine

variable {source : String} {s : Scan} {stage : Grammar.Stage TokenId} {tokens all : Array Token}
variable {statement : Statement TokenId}

/-- The last token of a statement is read behind those that were read before. -/
theorem size_lt_of_readStatement
    (h : readStatement source s stage tokens = .ok (statement, all)) : tokens.size < all.size := by
  fun_induction readStatement source s stage tokens with
  | case1 => cases h
  | case2 => cases h
  | case3 s stage tokens t past hnext accepted hfeed =>
    cases h
    rw [Array.size_push]
    exact Nat.lt_succ_self _
  | case4 => cases h
  | case5 s stage tokens t past hnext later hfeed hne hshorter ih =>
    have hlater := ih h
    rw [Array.size_push] at hlater
    exact Nat.lt_of_succ_lt hlater

/-- The induction is on the reading: the stage that has been reached has tokens as its leaves, and
so has every stage behind it. -/
theorem exists_statement_of_readStatement {bounded : Grammar.Stage (Fin all.size)}
    (hbounded : bounded.WellFormed) (hstage : stage = bounded.map Fin.val)
    (h : readStatement source s stage tokens = .ok (statement, all)) :
    ∃ s' : Statement (Fin all.size), s'.WellFormed ∧ statement = s'.map Fin.val := by
  have hlast := size_lt_of_readStatement h
  fun_induction readStatement source s stage tokens generalizing bounded with
  | case1 => cases h
  | case2 => cases h
  | case4 => cases h
  | case3 s stage tokens t past hnext accepted hfeed =>
    have hmap := Grammar.Stage.feed_map Fin.val t.kind (⟨tokens.size, hlast⟩ : Fin all.size) bounded
    rw [← hstage, hfeed] at hmap
    obtain ⟨outcome, hfed, houtcome⟩ := Option.map_eq_some_iff.mp hmap.symm
    cases outcome with
    | more later => cases houtcome
    | accepted s' =>
      cases houtcome
      cases h
      exact ⟨s', Grammar.Stage.feed_wellFormed hbounded hfed, rfl⟩
  | case5 s stage tokens t past hnext later hfeed hne hshorter ih =>
    have hmap := Grammar.Stage.feed_map Fin.val t.kind (⟨tokens.size, hlast⟩ : Fin all.size) bounded
    rw [← hstage, hfeed] at hmap
    obtain ⟨outcome, hfed, houtcome⟩ := Option.map_eq_some_iff.mp hmap.symm
    cases outcome with
    | accepted s' => cases houtcome
    | more bounded' =>
      cases houtcome
      exact ih (Grammar.Stage.feed_wellFormed hbounded hfed) rfl h (size_lt_of_readStatement h)

end SelectEngine
