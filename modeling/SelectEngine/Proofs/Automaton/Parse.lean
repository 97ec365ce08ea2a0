import SelectEngine.Parse
import SelectEngine.Proofs.Automaton.Tokens
import SelectEngine.Proofs.Grammar.WellFormed

/-!
# Parsing is reading and laying out

Whatever has been read of a statement, the tree that has grown is the one that lays out what the
grammar holds at the same token, and the automaton is the one that this leaves behind
(`readTree_eq`). So parsing a text gives the tree of the statement that the grammar reads, and fails
where the grammar does (`parse_eq`): no text leads the automaton to a stack that is too short or to
a clause that is missing.
-/

set_option autoImplicit false

namespace SelectEngine

open SelectEngine.Tree Building Automaton

variable {source : String} {s past : Scan} {a later : Automaton} {t t' : Tree} {token : Token}

theorem readTree_of_failed {e : Error} (h : s.next source = (.error e, past)) :
    readTree source s a t = .error e := by
  rw [readTree]
  split
  · next h' =>
    cases h.symm.trans h'
    rfl
  · next h' => cases h.symm.trans h'

/-- A token that has been read is fed to the automaton, and if it is wanted the next one follows. -/
theorem readTree_of_token (h : s.next source = (.ok token, past)) :
    readTree source s a t =
      match a.feed ⟨token, t.tokens.size, source⟩ (t.addToken token).1 with
      | .error e => .error e
      | .ok ((.accepted, _), t) => .ok t
      | .ok ((.more, later), t) => readTree source past later t := by
  rw [readTree]
  split
  · next h' => cases h.symm.trans h'
  · next h' =>
    cases h.symm.trans h'
    dsimp only [addToken]
    split
    · next hfed => simp only [hfed]
    · next hfed => simp only [hfed]
    · next hfed => simp only [hfed]

/-- Accepting a statement lays it out and makes it the root of the tree. -/
theorem layOutcome_accepted (fed : Fed) (statement : Statement TokenId) :
    Prod.fst <$> layOutcome fed (some (.accepted statement)) = (do
      let select ← lay (placeStatement statement)
      setRoot select
      pure .accepted) := by
  obtain ⟨select, attributes, from_, sources, _ | restriction⟩ := statement
  · simp [layOutcome, layClauses, accept, placeStatement, placeRestriction]
  · simp [layOutcome, layClauses, accept, placeStatement, placeRestriction]

theorem layOutcome_accepted_apply (fed : Fed) (statement : Statement TokenId) (t : Tree) :
    let laid := placeStatement statement t
    ∃ last, layOutcome fed (some (.accepted statement)) t =
      .ok ((.accepted, last), laid.2.setRoot laid.1) := by
  have h := congrFun (layOutcome_accepted fed statement) t
  rw [map_eq_pure_bind] at h
  change (layOutcome fed (some (.accepted statement)) t >>= fun result => _) = _ at h
  cases hresult : layOutcome fed (some (.accepted statement)) t with
  | error e =>
    rw [hresult] at h
    cases h
  | ok result =>
    obtain ⟨⟨answer, last⟩, later⟩ := result
    rw [hresult] at h
    cases h
    exact ⟨last, rfl⟩

variable {stage : Grammar.Stage TokenId} {tokens : Array Token}

/-- The automaton that has read what a stage holds, fed with the next token. -/
theorem feed_layStage_push (source : String) (hstage : stage.Readable)
    (hleaves : LeavesWithin tokens.size stage.leaves) (token : Token) :
    let before := layStage stage (ofTokens source tokens)
    before.1.feed ⟨token, before.2.tokens.size, source⟩ (before.2.addToken token).1 =
      layOutcome ⟨token, tokens.size, source⟩ (stage.feed token.kind tokens.size)
        (ofTokens source (tokens.push token)) := by
  have hwithin : Within tokens.size (layStage stage) := within_layStage hleaves
  have htokens : (layStage stage (ofTokens source tokens)).2.tokens = tokens :=
    hwithin.tokens (ofTokens source tokens)
  have hpush : layStage stage (ofTokens source (tokens.push token)) = _ :=
    hwithin.later (ofTokens source tokens) token (Nat.le_refl _)
  have hfed := congrFun (feed_layStage ⟨token, tokens.size, source⟩ stage hstage)
    (ofTokens source (tokens.push token))
  change (layStage stage (ofTokens source (tokens.push token))).1.feed _
    (layStage stage (ofTokens source (tokens.push token))).2 = _ at hfed
  rw [hpush] at hfed
  dsimp only
  rw [htokens]
  exact hfed

/-- The leaves that a token leaves are tokens that have been read. -/
theorem leavesWithin_feed {outcome : Grammar.Outcome TokenId} {kind : TokenKind}
    (hleaves : LeavesWithin tokens.size stage.leaves) (token : Token)
    (h : stage.feed kind tokens.size = some outcome) :
    LeavesWithin (tokens.push token).size outcome.leaves := by
  rw [Grammar.Stage.leaves_feed h, Array.size_push]
  refine leavesWithin_append.mpr ⟨fun leaf hleaf => Nat.lt_succ_of_lt (hleaves leaf hleaf), ?_⟩
  rintro ⟨type, id⟩ hleaf
  obtain ⟨_, -, hlast⟩ := Option.map_eq_some_iff.mp (Option.mem_toList.mp hleaf)
  cases hlast
  exact Nat.lt_succ_self _

/-- Reading on with the automaton gives the tree of the statement that reading on with the grammar
gives. The induction is on the reading. -/
theorem readTree_eq (source : String) (s : Scan) (hstage : stage.Readable)
    (hleaves : LeavesWithin tokens.size stage.leaves) :
    readTree source s (layStage stage (ofTokens source tokens)).1
        (layStage stage (ofTokens source tokens)).2 =
      (readStatement source s stage tokens).map fun (statement, tokens) =>
        Tree.ofStatement source tokens statement := by
  fun_induction readStatement source s stage tokens with
  | case1 s stage tokens e past hnext => exact readTree_of_failed hnext
  | case2 s stage tokens token past hnext hfeed =>
    have hfed := feed_layStage_push source hstage hleaves token
    rw [hfeed] at hfed
    rw [readTree_of_token hnext, hfed]
    rfl
  | case3 s stage tokens token past hnext statement hfeed =>
    have hfed := feed_layStage_push source hstage hleaves token
    rw [hfeed] at hfed
    -- What the automaton still holds when it accepts is of no matter: the tree is complete.
    obtain ⟨last, hlast⟩ := layOutcome_accepted_apply ⟨token, tokens.size, source⟩ statement
      (ofTokens source (tokens.push token))
    rw [readTree_of_token hnext, hfed, hlast]
    rfl
  | case4 s stage tokens token past hnext later hfeed heof =>
    -- Behind the end of the text nothing is waited for.
    rw [heof] at hfeed
    exact absurd hfeed (stage.feed_eof_ne_more later _)
  | case5 s stage tokens token past hnext later hfeed hne hshorter ih =>
    have hfed := feed_layStage_push source hstage hleaves token
    rw [hfeed] at hfed
    rw [readTree_of_token hnext, hfed]
    exact ih (Grammar.Stage.feed_readable hstage hfeed) (leavesWithin_feed hleaves token hfeed)

theorem parse_eq (settings : ReadSettings) (text : String) :
    parse settings text =
      if settings.maxLength < text.utf8ByteSize then
        .error (.tooLong text.utf8ByteSize settings.maxLength)
      else
        (readStatement settings.sourceName (Scan.ofText text) .start #[]).map
          fun (statement, tokens) => Tree.ofStatement settings.sourceName tokens statement := by
  rw [parse]
  split
  · rfl
  · have hstart : (Grammar.Stage.start : Grammar.Stage TokenId).Readable := trivial
    have hleaves : LeavesWithin 0 (Grammar.Stage.start (τ := TokenId)).leaves :=
      fun leaf hleaf => nomatch hleaf
    exact readTree_eq settings.sourceName (Scan.ofText text) hstart hleaves

/-- A text that parses is a statement that the grammar reads, laid out over its tokens. -/
theorem exists_readStatement_of_parse {settings : ReadSettings} {text : String} {tree : Tree}
    (h : parse settings text = .ok tree) :
    ∃ statement tokens,
      readStatement settings.sourceName (Scan.ofText text) .start #[] = .ok (statement, tokens) ∧
        Tree.ofStatement settings.sourceName tokens statement = tree := by
  rw [parse_eq] at h
  split at h
  · cases h
  · obtain ⟨⟨statement, tokens⟩, hread, htree⟩ := Outcome.map_eq_ok h
    exact ⟨statement, tokens, hread, htree⟩

/-- A text that parses is a well-formed statement, laid out over its tokens. -/
theorem wellFormed_of_parse {settings : ReadSettings} {text : String} {tree : Tree}
    (h : parse settings text = .ok tree) :
    ∃ tokens statement, tree = Tree.ofStatement settings.sourceName tokens statement ∧
      statement.WellFormed := by
  obtain ⟨statement, tokens, hread, rfl⟩ := exists_readStatement_of_parse h
  exact ⟨tokens, statement, rfl, wellFormed_of_readStatement Grammar.Stage.start_wellFormed hread⟩

end SelectEngine
