import SelectEngine.Proofs.Grammar.Params
import SelectEngine.Proofs.Token.Reads
import SelectEngine.Proofs.Tree.Held

/-!
# The tokens of a text that parses

A text that parses has been read to its end, its tokens make the statement that its tree holds
(`Tree.exists_readAs_of_parse`), and the parameters of this statement are the marks among the tokens
(`Tree.ReadAs.params`).
-/

set_option autoImplicit false

namespace SelectEngine

open Grammar

variable {source : String} {s : Scan} {stage : Stage TokenId} {tokens all : Array Token}
variable {ts : List Token} {failure : Option Error} {statement : Statement TokenId}

/-- Reading that succeeds has read all tokens up to the end of the text, and these make the
statement. -/
theorem run_of_readStatement (hdrain : s.drain source = (ts, failure))
    (h : readStatement source s stage tokens = .ok (statement, all)) :
    failure = none ∧ stage.run (numbered tokens.size ts) = some (.accepted statement) ∧
      all = tokens ++ ts.toArray := by
  induction ts generalizing s stage tokens with
  | nil =>
    obtain ⟨e, past, -, rfl⟩ := Scan.next_of_drain_nil hdrain
    rw [readStatement_of_error hdrain] at h
    cases h
  | cons t ts ih =>
    rw [numbered, Stage.run]
    cases hfeed : stage.feed t.kind tokens.size with
    | none =>
      rw [readStatement_of_refused hdrain hfeed] at h
      cases h
    | some outcome =>
      cases outcome with
      | accepted found =>
        rw [readStatement_of_accepted hdrain hfeed] at h
        cases h
        obtain ⟨past, -, ⟨-, rfl, rfl⟩ | ⟨hne, -⟩⟩ := Scan.next_of_drain_cons hdrain
        · exact ⟨rfl, rfl, by simp⟩
        · exact absurd (Stage.eof_of_accepted hfeed) hne
      | more next =>
        obtain ⟨past, hpast, hread⟩ := readStatement_of_more hdrain hfeed
        rw [hread] at h
        obtain ⟨hfailure, hrun, hall⟩ := ih hpast h
        rw [Array.size_push] at hrun
        exact ⟨hfailure, hrun, by rw [hall]; simp⟩

/-- Only the last token is the end of the text. -/
theorem ne_eof_of_drain (h : s.drain source = (ts, none)) (n : Nat) :
    ∀ token ∈ (numbered n ts).dropLast, token.1 ≠ .eof := by
  obtain ⟨front, stop, hreads, ⟨t, -, rfl, -⟩ | ⟨e, -, -, hnone⟩⟩ := Scan.reads_of_drain h
  · rw [numbered_append, numbered, numbered, List.dropLast_concat]
    intro token htoken
    have hkind : token.1 ∈ front.map Token.kind := by
      rw [← map_fst_numbered n front]
      exact List.mem_map_of_mem htoken
    obtain ⟨t, ht, heq⟩ := List.mem_map.mp hkind
    exact heq ▸ hreads.kind_ne t ht
  · cases hnone

namespace Tree

/-- The text is read as the tokens, and these make the statement that the tree holds. -/
structure ReadAs (t : Tree) (settings : ReadSettings) (text : String) (ts : List Token)
    (s : Statement (Fin t.tokens.size)) : Prop where
  drain : (Scan.ofText text).drain settings.sourceName = (ts, none)
  tokens : t.tokens = ts.toArray
  holds : t.Holds s
  run : Stage.start.run (numbered 0 ts) = some (.accepted (s.map Fin.val))

theorem exists_readAs_of_parse {settings : ReadSettings} {text : String} {tree : Tree}
    (h : parse settings text = .ok tree) : ∃ ts s, tree.ReadAs settings text ts s := by
  obtain ⟨statement, tokens, hread, htree⟩ := exists_readStatement_of_parse h
  obtain ⟨ts, failure, hdrain⟩ :
      ∃ ts failure, (Scan.ofText text).drain settings.sourceName = (ts, failure) := ⟨_, _, rfl⟩
  obtain ⟨rfl, hrun, htokens⟩ := run_of_readStatement hdrain hread
  have hstart : (Stage.start : Stage (Fin tokens.size)).WellFormed := Stage.start_wellFormed
  obtain ⟨s, hwell, rfl⟩ := exists_statement_of_readStatement hstart rfl hread
  obtain ⟨hhas, hselect⟩ := has_ofStatement settings.sourceName tokens (s.map Fin.val)
  obtain ⟨-, hall, -, -, -⟩ := branch_ofStatement settings.sourceName tokens (s.map Fin.val)
  rw [htree] at hhas hselect hall
  clear htree hread h
  subst hall
  exact ⟨ts, s, hdrain, htokens.trans (Array.empty_append ..), ⟨hwell, hhas, hselect⟩, hrun⟩

namespace ReadAs

variable {t : Tree} {settings : ReadSettings} {text : String} {s : Statement (Fin t.tokens.size)}

/-- The parameters of the statement are the marks of the text. -/
theorem params (h : t.ReadAs settings text ts s) : (s.map Fin.val).params = marks (numbered 0 ts) :=
  Stage.params_of_accepted h.run (ne_eof_of_drain h.drain 0)

theorem nodup_params (h : t.ReadAs settings text ts s) : (s.map Fin.val).params.Nodup := by
  rw [h.params]
  exact nodup_marks_numbered 0 ts

end ReadAs

end Tree

end SelectEngine
